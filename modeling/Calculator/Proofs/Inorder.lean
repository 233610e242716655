import Calculator.Proofs.ErrorPlaces

namespace Calculator

inductive Entry
  | number (value : Float)
  | operator (o : Operator)
  | name (function : String)
deriving DecidableEq, Repr

/-- The parts of an expression, with the left side of an operation before it and the right side
behind it, and the name of a function before its argument. -/
def Expr.inorder : Expr → List Entry
  | .number x => [.number x]
  | .binary o left right => left.inorder ++ .operator o :: right.inorder
  | .call f argument => .name f :: argument.inorder

/-- Whether plus and minus are signs behind a token of the given kind, or at the start. They are
behind an operator, another sign or an opened parenthesis. -/
def signBehind : Option Kind → Bool
  | none => true
  | some k => k ∈ deepeningKinds

/-- What becomes of a token. Of a minus sign become a number and an operation; parentheses and plus
signs leave nothing behind. -/
def Token.entries (t : Token) (sign : Bool) : List Entry :=
  match t.kind with
  | .number => (Number.ofText? t.text).toList.map .number
  | .identifier => [((Number.constant? t.text).map .number).getD (.name t.text)]
  | .plus => if sign then [] else [.operator .add]
  | .minus => if sign then [.number (-1), .operator .multiply] else [.operator .subtract]
  | .star => [.operator .multiply]
  | .slash => [.operator .divide]
  | .caret => [.operator .power]
  | .leftParen | .rightParen | .whitespace | .stray => []

def withPrevious (previous : Option Kind) : List Token → List (Option Kind × Token)
  | [] => []
  | t :: ts => (previous, t) :: withPrevious (some t.kind) ts

def listing (previous : Option Kind) (ts : List Token) : List Entry :=
  (withPrevious previous ts).flatMap fun p => p.2.entries (signBehind p.1)

variable {limit : ℕ∞} {p : Phrase} {d : ℕ} {ts us vs : List Token} {e : Expr} {t : Token}
  {previous : Option Kind} {o : Operator}

theorem length_inorder (e : Expr) : e.inorder.length = e.size := by
  induction e with
  | number x => rfl
  | binary o left right ihl ihr =>
    simp only [Expr.inorder, Expr.size, List.length_append, List.length_cons, ihl, ihr]
    omega
  | call f argument ih =>
    simp only [Expr.inorder, Expr.size, List.length_cons, ih]
    omega

theorem listing_cons (previous : Option Kind) (t : Token) (ts : List Token) :
    listing previous (t :: ts) =
      t.entries (signBehind previous) ++ listing (some t.kind) ts := rfl

/-- The kinds of token that an operand ends with. Plus and minus are no signs behind them. -/
def closingKinds : List Kind := [.number, .identifier, .rightParen]

theorem signBehind_closing {k : Kind} (h : k ∈ closingKinds) : signBehind (some k) = false := by
  cases k <;> simp_all [closingKinds, signBehind, deepeningKinds]

/-- Whether some tokens, standing where a plus or a minus would be a sign, become the given entries
whatever follows them, and end where it would be none. -/
def Lists (ts : List Token) (entries : List Entry) : Prop :=
  ∃ k ∈ closingKinds, ∀ previous, signBehind previous = true → ∀ rest,
    listing previous (ts ++ rest) = entries ++ listing (some k) rest

theorem lists_single {entry : Entry} (hk : t.kind ∈ closingKinds)
    (h : ∀ sign, t.entries sign = [entry]) : Lists [t] [entry] := by
  refine ⟨t.kind, hk, fun previous _ rest => ?_⟩
  rw [List.singleton_append, listing_cons, h]

theorem lists_behind {entries more : List Entry} (ht : signBehind (some t.kind) = true)
    (hsign : t.entries true = entries) (h : Lists ts more) : Lists (t :: ts) (entries ++ more) := by
  obtain ⟨k, hk, hts⟩ := h
  refine ⟨k, hk, fun previous hprevious rest => ?_⟩
  rw [List.cons_append, listing_cons, hprevious, hsign, hts _ ht, List.append_assoc]

/-- A token between two operands becomes the operation that it stands for. -/
theorem lists_binary {left right : Expr} (ht : t.kind = Kind.ofChar o.symbol)
    (hl : Lists us left.inorder) (hr : Lists vs right.inorder) :
    Lists (us ++ t :: vs) (Expr.binary o left right).inorder := by
  have hoperator : t.entries false = [.operator o] ∧ signBehind (some t.kind) = true := by
    rw [Token.entries, ht]
    cases o <;> exact ⟨rfl, rfl⟩
  obtain ⟨k, hk, hleft⟩ := hl
  obtain ⟨k', hk', hright⟩ := hr
  refine ⟨k', hk', fun previous hprevious rest => ?_⟩
  rw [List.append_assoc, hleft _ hprevious, List.cons_append, listing_cons,
    signBehind_closing hk, hoperator.1, hright _ hoperator.2]
  simp [Expr.inorder]

/-- Parentheses leave nothing behind, whatever stands before them. -/
theorem listing_enclosed {l r : Token} {entries : List Entry} (hl : l.kind = .leftParen)
    (h : Lists ts entries) (hr : r.kind = .rightParen) (previous : Option Kind)
    (rest : List Token) :
    listing previous (l :: (ts ++ [r]) ++ rest) = entries ++ listing (some .rightParen) rest := by
  obtain ⟨k, hk, hts⟩ := h
  rw [List.cons_append, listing_cons, List.append_assoc, hl, hts _ rfl, List.singleton_append,
    listing_cons, hr]
  simp [Token.entries, hl, hr]

/-- Tokens that are derived become the expression, listed in order. -/
theorem Derives.lists (h : Derives limit p d ts e) : Lists ts e.inorder := by
  induction h with
  | chain _ ih | first _ ih | base _ ih => exact ih
  | link _ ho _ ihl ihr => exact lists_binary (kind_of_operator ho) ihl ihr
  | power _ ht _ ihb ihe => exact lists_binary ht ihb ihe
  | @plus d t ts e _ ht _ ih =>
    have hentries : t.entries true = [] := by simp [Token.entries, ht]
    exact lists_behind (by rw [ht]; rfl) hentries ih
  | @minus d t ts e _ ht _ ih =>
    have hentries : t.entries true = [.number (-1), .operator .multiply] := by
      simp [Token.entries, ht]
    have hlists := lists_behind (by rw [ht]; rfl) hentries ih
    exact hlists
  | number _ ht hx =>
    exact lists_single (by rw [ht]; decide) fun sign => by simp [Token.entries, ht, hx]
  | constant _ ht hx =>
    exact lists_single (by rw [ht]; decide) fun sign => by simp [Token.entries, ht, hx]
  | group _ hl _ hr ih =>
    exact ⟨.rightParen, by decide, fun previous _ => listing_enclosed hl ih hr previous⟩
  | @call d t l ts r e _ ht hx hl _ hr ih =>
    refine ⟨.rightParen, by decide, fun previous _ rest => ?_⟩
    rw [List.cons_append, listing_cons, listing_enclosed hl ih hr]
    simp [Token.entries, Expr.inorder, ht, hx]

/-- How many entries a usable token becomes. -/
theorem length_entries (h : t.Usable) (sign : Bool) : (t.entries sign).length =
    (if t.kind ∈ [Kind.number, .identifier, .star, .slash, .caret] then 1 else 0) +
      (if t.kind ∈ [Kind.plus, .minus] ∧ sign = false then 1 else 0) +
      2 * (if t.kind = .minus ∧ sign = true then 1 else 0) := by
  obtain ⟨-, -, hnumber⟩ := h
  cases hk : t.kind with
  | number =>
    obtain ⟨x, hx⟩ := Option.isSome_iff_exists.mp (hnumber hk)
    simp [Token.entries, hk, hx]
  | plus | minus => cases sign <;> simp [Token.entries, hk]
  | _ => simp [Token.entries, hk]

theorem length_listing (h : ∀ t ∈ ts, t.Usable) (previous : Option Kind) :
    (listing previous ts).length =
      ts.countP (fun t => t.kind ∈ [Kind.number, .identifier, .star, .slash, .caret]) +
        (withPrevious previous ts).countP
          (fun p => p.2.kind ∈ [Kind.plus, .minus] ∧ signBehind p.1 = false) +
        2 * (withPrevious previous ts).countP
          (fun p => p.2.kind = .minus ∧ signBehind p.1 = true) := by
  induction ts generalizing previous with
  | nil => rfl
  | cons t ts ih =>
    obtain ⟨ht, hts⟩ := List.forall_mem_cons.mp h
    rw [listing_cons, List.length_append, length_entries ht, ih hts, withPrevious, List.countP_cons,
      List.countP_cons, List.countP_cons]
    simp only [decide_eq_true_eq]
    omega

/-- Reading loses no token, doubles none and keeps them in order. A plus or a minus is a sign at the
start and behind an operator, another sign or an opened parenthesis. Without the parentheses and the
plus signs, and with two entries for each minus sign, the tokens are the expression listed in order;
and so many entries has the expression nodes. -/
theorem tokens_listed_in_order {ts : List Token} {e : Expr} (h : Expr.ofTokens ts = .ok e) :
    listing none ts = e.inorder ∧ e.size = (listing none ts).length ∧
    e.size = ts.countP (fun t => t.kind ∈ [Kind.number, .identifier, .star, .slash, .caret]) +
      (withPrevious none ts).countP
        (fun p => p.2.kind ∈ [Kind.plus, .minus] ∧ signBehind p.1 = false) +
      2 * (withPrevious none ts).countP
        (fun p => p.2.kind = .minus ∧ signBehind p.1 = true) := by
  have hd : Derives maxDepth (.chain .sum) 0 ts e := ofTokensWithin_eq_ok_iff.mp h
  obtain ⟨k, -, hlists⟩ := hd.lists
  have hlisting : listing none ts = e.inorder := by
    have hall := hlists none rfl []
    rwa [List.append_nil, show listing (some k) [] = [] from rfl, List.append_nil] at hall
  have hsize : e.size = (listing none ts).length := by rw [hlisting, length_inorder]
  exact ⟨hlisting, hsize, hsize.trans (length_listing hd.usable none)⟩

/-- The second minus is an operation, the others are signs, and the plus is one too. -/
theorem signs_listed_in_order :
    Expr.ofTokens (tokens "-pi - -f(+e)^pi") =
      .ok (.binary .subtract (Expr.negated (.number Number.pi))
        (.binary .power (Expr.negated (.call "f" (.number Number.e))) (.number Number.pi))) ∧
    listing none (tokens "-pi - -f(+e)^pi") =
      [.number (-1), .operator .multiply, .number Number.pi, .operator .subtract, .number (-1),
        .operator .multiply, .name "f", .number Number.e, .operator .power, .number Number.pi] :=
  have h : Expr.ofTokens (tokens "-pi - -f(+e)^pi") =
      .ok (.binary .subtract (Expr.negated (.number Number.pi))
        (.binary .power (Expr.negated (.call "f" (.number Number.e))) (.number Number.pi))) := rfl
  ⟨h, (tokens_listed_in_order h).1⟩

end Calculator
