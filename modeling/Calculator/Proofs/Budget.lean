import Calculator.Proofs.Grammar

/-!
Reading with a budget. The readers are told once more as procedures that call one another: a call
names the token where it starts by its index and carries its depth along, the limit is held against
the depth where an operand starts, and a chain is read in a loop. A call takes one from a budget
that is handed on to the calls nested in it, and it is kept together with the calls that it is
nested in. More than enough of the budget changes nothing.
-/

namespace Calculator

inductive Procedure
  | chain (c : Chain)
  | operands (c : Chain)
  | power
  | unary
  | primary
  | number
  | name
  | group
deriving DecidableEq, Repr

structure Call where
  procedure : Procedure
  start : ℕ
  depth : ℕ
deriving DecidableEq, Repr

/-- Why reading stops early: something fails, or no further call may be nested. -/
inductive Stop
  | failed (f : Failure)
  | exhausted
deriving DecidableEq, Repr

/-- What reading comes to, and the calls that it makes on the way, each of them at the head of those
that it is nested in. -/
structure Traced (α : Type) where
  outcome : Except Stop α
  nests : List (List Call)

namespace Traced

variable {α β : Type}

def stop (s : Stop) : Traced α := ⟨.error s, []⟩

instance : Monad Traced where
  pure a := ⟨.ok a, []⟩
  bind x k :=
    match x.outcome with
    | .ok a => ⟨(k a).outcome, x.nests ++ (k a).nests⟩
    | .error s => ⟨.error s, x.nests⟩

end Traced

def Chain.procedure : Chain → Procedure
  | .sum => .chain .product
  | .product => .power

namespace Procedure

variable (limit : ℕ) (ts : List Token) (call : Call → Traced (Expr × ℕ))

def failAt {α : Type} (fault : Fault) (i : ℕ) : Traced α := .stop (.failed ⟨fault, ts.drop i⟩)

def kindAt (i : ℕ) : Option Kind := ts[i]?.map Token.kind

def expectAt (kind : Kind) (wanted : String) (i : ℕ) : Traced (Token × ℕ) :=
  match ts[i]? with
  | none => failAt ts (.expected wanted) i
  | some t => if t.kind = kind then pure (t, i + 1) else failAt ts (.expected wanted) i

/-- The loop over the operands of a chain, which have made `left` so far. Each round takes a token
at least, so no more rounds are needed than there are tokens. -/
def loop (c : Chain) : ℕ → Expr → ℕ → ℕ → Traced (Expr × ℕ)
  | rounds, left, i, d =>
    match ts[i]?.bind fun t => c.operator? t.kind with
    | none => pure (left, i)
    | some o =>
      match rounds with
      | 0 => .stop .exhausted
      | rounds + 1 => do
        let (right, j) ← call ⟨c.procedure, i + 1, d + 1⟩
        loop c rounds (.binary o left right) j (d + 1)

def body : Call → Traced (Expr × ℕ)
  | ⟨.chain c, i, d⟩ => call ⟨.operands c, i, d⟩
  | ⟨.operands c, i, d⟩ => do
    let (first, j) ← call ⟨c.procedure, i, d⟩
    loop ts call c ts.length first j d
  | ⟨.power, i, d⟩ => do
    let (base, j) ← call ⟨.unary, i, d⟩
    if kindAt ts j = some .caret then
      let (exponent, k) ← call ⟨.power, j + 1, d + 1⟩
      return (.binary .power base exponent, k)
    else return (base, j)
  | ⟨.unary, i, d⟩ =>
    -- The limit is held against the depth here and nowhere else.
    if limit < d then failAt ts .tooDeep i
    else
      match kindAt ts i with
      | some .plus => call ⟨.unary, i + 1, d + 1⟩
      | some .minus => do
        let (operand, j) ← call ⟨.unary, i + 1, d + 1⟩
        return (operand.negated, j)
      | _ => call ⟨.primary, i, d⟩
  | ⟨.primary, i, d⟩ =>
    match kindAt ts i with
    | some .number => call ⟨.number, i, d⟩
    | some .identifier => call ⟨.name, i, d⟩
    | some .leftParen => call ⟨.group, i, d⟩
    | _ => failAt ts .noOperand i
  | ⟨.number, i, _⟩ =>
    match ts[i]? with
    | none => failAt ts .noOperand i
    | some t =>
      match Number.ofText? t.text with
      | some x => pure (.number x, i + 1)
      | none => failAt ts (.malformed t.text) i
  | ⟨.name, i, d⟩ => do
    let (t, j) ← expectAt ts .identifier "identifier" i
    match Number.constant? t.text with
    | some x => return (.number x, j)
    | none =>
      if kindAt ts j = some .leftParen then
        let (argument, k) ← call ⟨.group, j, d⟩
        return (.call t.text argument, k)
      else failAt ts (.noArgument t.text) j
  | ⟨.group, i, d⟩ => do
    let (_, i) ← expectAt ts .leftParen "(" i
    let (e, j) ← call ⟨.chain .sum, i, d + 1⟩
    let (_, k) ← expectAt ts .rightParen ")" j
    return (e, k)

end Procedure

/-- Makes a call that is nested in others, if the budget allows for it. -/
def callWithin (limit : ℕ) (ts : List Token) : ℕ → List Call → Call → Traced (Expr × ℕ)
  | 0, _, _ => .stop .exhausted
  | budget + 1, outer, c =>
    let inner := Procedure.body limit ts (callWithin limit ts budget (c :: outer)) c
    ⟨inner.outcome, (c :: outer) :: inner.nests⟩

def readWithin (limit budget : ℕ) (ts : List Token) : Traced Expr := do
  let (e, i) ← callWithin limit ts budget [] ⟨.chain .sum, 0, 0⟩
  match ts[i]? with
  | none => return e
  | some t => Procedure.failAt ts (.trailing t.text) i

section Enough

open Procedure

variable {α β : Type} {limit : ℕ} {ts : List Token} {call call' : Call → Traced (Expr × ℕ)}

/-- Whether one of two runs is the other, if that does not exhaust its budget. -/
def Extends (x' x : Traced α) : Prop := x.outcome ≠ .error .exhausted → x' = x

theorem Extends.refl (x : Traced α) : Extends x x := fun _ => rfl

theorem Extends.bind {x' x : Traced α} {k' k : α → Traced β} (hx : Extends x' x)
    (hk : ∀ a, Extends (k' a) (k a)) : Extends (x' >>= k') (x >>= k) := by
  intro h
  obtain ⟨outcome, nests⟩ := x
  cases outcome with
  | error s =>
    -- What stopped the first run stops both, and the second is not started.
    have hs : (Except.error s : Except Stop α) ≠ .error .exhausted := by
      intro hs
      exact h (congrArg Except.error (Except.error.inj hs))
    rw [hx hs]
    rfl
  | ok a =>
    rw [hx (by simp)]
    have hka : k' a = k a := hk a h
    simp only [Bind.bind, hka]

theorem extends_loop (h : ∀ c, Extends (call' c) (call c)) (c : Chain) (rounds : ℕ) (left : Expr)
    (i d : ℕ) : Extends (loop ts call' c rounds left i d) (loop ts call c rounds left i d) := by
  induction rounds generalizing left i d with
  | zero =>
    unfold loop
    split
    · exact .refl _
    · exact .refl _
  | succ rounds ih =>
    unfold loop
    split
    · exact .refl _
    · exact (h _).bind fun r => ih _ _ _

theorem extends_body (h : ∀ c, Extends (call' c) (call c)) (c : Call) :
    Extends (body limit ts call' c) (body limit ts call c) := by
  obtain ⟨procedure, i, d⟩ := c
  cases procedure with
  | chain c => exact h _
  | operands c => exact (h _).bind fun r => extends_loop h c _ _ _ _
  | power =>
    refine (h _).bind fun r => ?_
    dsimp only
    split
    · exact (h _).bind fun _ => .refl _
    · exact .refl _
  | unary =>
    unfold body
    dsimp only
    split
    · exact .refl _
    · split
      · exact h _
      · exact (h _).bind fun _ => .refl _
      · exact h _
  | primary =>
    unfold body
    dsimp only
    split <;> first | exact h _ | exact .refl _
  | number => exact .refl _
  | name =>
    refine (Extends.refl _).bind fun r => ?_
    dsimp only
    split
    · exact .refl _
    · split
      · exact (h _).bind fun _ => .refl _
      · exact .refl _
  | group => exact (Extends.refl _).bind fun _ => (h _).bind fun _ => .refl _

/-- With one more to spend, a call that had enough makes the same calls and comes to the same. -/
theorem extends_callWithin (limit : ℕ) (ts : List Token) (budget : ℕ) (outer : List Call)
    (c : Call) :
    Extends (callWithin limit ts (budget + 1) outer c) (callWithin limit ts budget outer c) := by
  -- A run that did not run out made only calls that did not, and those have one more to spend too.
  induction budget generalizing outer c with
  | zero => exact fun h => absurd rfl h
  | succ budget ih =>
    intro h
    have hbody := extends_body (fun c' => ih (c :: outer) c') c h
    rw [callWithin, hbody]
    rfl

theorem extends_readWithin (limit budget : ℕ) (ts : List Token) :
    Extends (readWithin limit (budget + 1) ts) (readWithin limit budget ts) :=
  (extends_callWithin limit ts budget [] _).bind fun _ => .refl _

/-- No budget changes what comes of reading with a smaller one that was enough. -/
theorem readWithin_eq_of_le {budget more : ℕ} (h : budget ≤ more)
    (henough : (readWithin limit budget ts).outcome ≠ .error .exhausted) :
    readWithin limit more ts = readWithin limit budget ts := by
  induction more, h using Nat.le_induction with
  | base => rfl
  | succ more _ ih => exact (extends_readWithin limit more ts (ih ▸ henough)).trans ih

end Enough

end Calculator
