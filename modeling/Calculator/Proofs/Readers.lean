import Calculator.Proofs.Grammar

/-!
The readers of a level, taken by the phrases that they read, and what each does with the next token.
Elsewhere readers are not unfolded.
-/

namespace Calculator

variable {below : Level} {ts us : List Token}

namespace Level

def chain (level : Level) : Chain → Reader
  | .sum => level.sum
  | .product => level.product

/-- The reader that goes on from the operands of a chain so far. -/
def tail (level : Level) : Chain → Expr → Reader
  | .sum => level.sumTail
  | .product => level.productTail

def read (level : Level) : Phrase → Reader
  | .chain c | .links c _ => level.chain c
  | .power => level.power
  | .unary => level.unary

theorem above_chain (below : Level) (c : Chain) (ts : List Token) :
    (above below).chain c ts =
      (above below).read c.operand ts >>= fun r => (above below).tail c r.1 r.2 := by
  cases c <;> rfl

theorem additive?_eq : Parser.additive? = Chain.sum.operator? := by
  funext k
  cases k <;> rfl

theorem multiplicative?_eq : Parser.multiplicative? = Chain.product.operator? := by
  funext k
  cases k <;> rfl

theorem above_tail (below : Level) (c : Chain) (left : Expr) :
    (above below).tail c left =
      Parser.links c.operator? (below.read c.operand) (below.tail c) left := by
  cases c with
  | sum =>
    rw [← additive?_eq]
    rfl
  | product =>
    rw [← multiplicative?_eq]
    rfl

theorem tail_of_ends {c : Chain} {left : Expr} {room : ℕ} {rest : List Token}
    (he : ∀ t ∈ rest.head?, c.operator? t.kind = none) :
    (withRoom (room + 1)).tail c left rest = .ok (left, rest) := by
  rw [withRoom, above_tail]
  cases rest with
  | nil => rfl
  | cons t rest => simp only [Parser.links, he t (by simp)]

theorem tail_cons {c : Chain} {t : Token} {o : Operator} (ho : c.operator? t.kind = some o)
    (room : ℕ) (left : Expr) (ts : List Token) :
    (withRoom (room + 1)).tail c left (t :: ts) =
      (withRoom room).read c.operand ts >>= fun r =>
        (withRoom room).tail c (.binary o left r.1) r.2 := by
  rw [withRoom, above_tail]
  simp only [Parser.links, ho]

theorem tail_of_link {c : Chain} {o : Operator} {left right : Expr} {room : ℕ} {t : Token}
    {rest : List Token} (ho : c.operator? t.kind = some o)
    (h : (withRoom room).read c.operand (us ++ rest) = .ok (right, rest)) :
    (withRoom (room + 1)).tail c left (t :: (us ++ rest)) =
      (withRoom room).tail c (.binary o left right) rest := by
  rw [tail_cons ho, h]
  rfl

theorem withRoom_chain (room : ℕ) (c : Chain) (ts : List Token) :
    (withRoom room).chain c ts =
      (withRoom room).read c.operand ts >>= fun r => (withRoom room).tail c r.1 r.2 := by
  cases room with
  | zero => cases c <;> rfl
  | succ room => exact above_chain _ c ts

theorem withRoom_power (room : ℕ) (ts : List Token) :
    (withRoom room).power ts = (withRoom room).unary ts >>= fun r =>
      if Parser.nextIs .caret r.2 then
        (withRoom (room - 1)).power r.2.tail >>= fun s => pure (.binary .power r.1 s.1, s.2)
      else pure r := by
  cases room with
  | zero => rfl
  | succ room =>
    change Parser.power (withRoom room) ts = Parser.unary (withRoom room) ts >>= _
    unfold Parser.power
    congr 1
    funext r
    rcases r with ⟨base, _ | ⟨t, rest⟩⟩
    · rfl
    · simp [Parser.nextIs]

/-- At the bottom level nothing is read. -/
theorem room_pos_of_read {room : ℕ} {p : Phrase} {ts : List Token} {r : Expr × List Token}
    (h : (withRoom room).read p ts = .ok r) : 0 < room := by
  cases room with
  | zero => rcases p with (_ | _) | ⟨_ | _, _⟩ | _ | _ <;> cases h
  | succ room => exact Nat.succ_pos room

end Level

namespace Parser

/-- Reads what follows an opened parenthesis, up to the one that closes it. -/
def enclosed (below : Level) (wrap : Expr → Expr) : Reader := fun ts =>
  below.sum ts >>= fun r => expect .rightParen ")" r.2 >>= fun s => pure (wrap r.1, s.2)

theorem primary_number {t : Token} {x : Float} (ht : t.kind = .number)
    (hx : Number.ofText? t.text = some x) (ts : List Token) :
    primary below (t :: ts) = .ok (.number x, ts) := by
  simp only [primary, ht, hx]

theorem primary_malformed {t : Token} (ht : t.kind = .number)
    (hx : Number.ofText? t.text = none) (ts : List Token) :
    primary below (t :: ts) = .error ⟨.malformed t.text, t :: ts⟩ := by
  simp only [primary, ht, hx]

theorem primary_noOperand (h : ∀ t ∈ ts.head?, t.kind ∉ operandKinds) :
    primary below ts = .error ⟨.noOperand, ts⟩ := by
  cases ts with
  | nil => rfl
  | cons t ts => cases hk : t.kind <;> simp_all [primary, operandKinds]

theorem primary_group {l : Token} (hl : l.kind = .leftParen) (ts : List Token) :
    primary below (l :: ts) = enclosed below id ts := by
  simp only [primary, hl, group, expect, if_true]
  rfl

theorem primary_call {t l : Token} (ht : t.kind = .identifier)
    (hx : Number.constant? t.text = none) (hl : l.kind = .leftParen) (ts : List Token) :
    primary below (t :: l :: ts) = enclosed below (.call t.text) ts := by
  simp only [primary, ht, name, expect, if_true, bind, Except.bind, hx, nextIs, hl, decide_true,
    group, enclosed]
  cases below.sum ts with
  | error f => rfl
  | ok r =>
    obtain ⟨e, rest⟩ := r
    cases rest with
    | nil => rfl
    | cons r rest =>
      by_cases hr : r.kind = .rightParen
      · simp only [hr, if_true]
        rfl
      · simp only [hr, if_false]

theorem primary_constant {t : Token} {x : Float} (ht : t.kind = .identifier)
    (hx : Number.constant? t.text = some x) (ts : List Token) :
    primary below (t :: ts) = .ok (.number x, ts) := by
  simp only [primary, ht, name, expect, if_true, bind, Except.bind, hx]
  rfl

theorem primary_noArgument {t : Token} (ht : t.kind = .identifier)
    (hx : Number.constant? t.text = none) (hn : ∀ l ∈ ts.head?, l.kind ≠ .leftParen) :
    primary below (t :: ts) = .error ⟨.noArgument t.text, ts⟩ := by
  have hl : nextIs .leftParen ts = false := by
    cases ts with
    | nil => rfl
    | cons l ts => simpa [nextIs] using hn
  simp only [primary, ht, name, expect, if_true, bind, Except.bind, hx, hl]
  rfl

theorem unary_plus {t : Token} (ht : t.kind = .plus) (ts : List Token) :
    unary below (t :: ts) = below.unary ts := by
  simp only [unary, ht]

theorem unary_minus {t : Token} (ht : t.kind = .minus) (ts : List Token) :
    unary below (t :: ts) = below.unary ts >>= fun r => pure (r.1.negated, r.2) := by
  simp only [unary, ht]

theorem unary_of_not_sign (h : ∀ t ∈ ts.head?, t.kind ≠ .plus ∧ t.kind ≠ .minus) :
    unary below ts = primary below ts := by
  cases ts with
  | nil => rfl
  | cons t ts => cases hk : t.kind <;> simp_all [unary]

theorem power_of_base {e : Expr} {rest : List Token} (h : unary below ts = .ok (e, rest))
    (he : ∀ t ∈ rest.head?, t.kind ≠ .caret) : power below ts = .ok (e, rest) := by
  simp only [power, h, bind, Except.bind]
  cases rest with
  | nil => rfl
  | cons t rest =>
    simp only [if_neg (he t (by simp))]
    rfl

theorem power_of_break {f : Failure} (h : unary below ts = .error f) :
    power below ts = .error f := by
  simp only [power, h]
  rfl

theorem power_caret {base : Expr} {t : Token} (h : unary below ts = .ok (base, t :: us))
    (ht : t.kind = .caret) :
    power below ts = below.power us >>= fun r => pure (.binary .power base r.1, r.2) := by
  simp only [power, h, bind, Except.bind, ht, if_true]

theorem enclosed_of_sum {wrap : Expr → Expr} {e : Expr} {r : Token} {rest : List Token}
    (h : below.sum (us ++ r :: rest) = .ok (e, r :: rest)) (hr : r.kind = .rightParen) :
    enclosed below wrap (us ++ r :: rest) = .ok (wrap e, rest) := by
  simp only [enclosed, h, expect, hr, bind, Except.bind, if_true]
  rfl

theorem enclosed_of_break {wrap : Expr → Expr} {f : Failure} (h : below.sum ts = .error f) :
    enclosed below wrap ts = .error f := by
  simp only [enclosed, h]
  rfl

theorem enclosed_of_unclosed {wrap : Expr → Expr} {e : Expr} {rest : List Token}
    (h : below.sum ts = .ok (e, rest)) (hr : ∀ r ∈ rest.head?, r.kind ≠ .rightParen) :
    enclosed below wrap ts = .error ⟨.expected ")", rest⟩ := by
  simp only [enclosed, h, bind, Except.bind]
  cases rest with
  | nil => rfl
  | cons r rest => simp only [expect, if_neg (hr r (by simp))]

/-- An opened parenthesis is read on in the same way with and without the name of a function, up to
what becomes of the sum. -/
theorem unary_of_opens (below : Level) {us : List Token} (ho : Opens us) (ts : List Token) :
    ∃ wrap, unary below (us ++ ts) = enclosed below wrap ts := by
  cases ho with
  | @group l hl =>
    exact ⟨id, (unary_of_not_sign (by simp [hl])).trans (primary_group hl ts)⟩
  | @call t l ht hx hl =>
    exact ⟨.call t.text,
      (unary_of_not_sign (by simp [ht])).trans (primary_call ht hx hl ts)⟩

end Parser

end Calculator
