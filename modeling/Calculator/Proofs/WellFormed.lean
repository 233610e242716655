import Calculator.Proofs.Equality
import Calculator.Proofs.Inorder
import Calculator.Proofs.Renaming
import Calculator.Proofs.Visible

namespace Calculator

inductive Branch
  | left
  | right
  | argument
deriving DecidableEq, Repr

def Expr.part? : Expr → List Branch → Option Expr
  | e, [] => some e
  | .binary _ left _, .left :: path => left.part? path
  | .binary _ _ right, .right :: path => right.part? path
  | .call _ argument, .argument :: path => argument.part? path
  | _, _ :: _ => none

variable {limit : ℕ∞} {p : Phrase} {d : ℕ} {ts us vs : List Token} {t : Token} {e : Expr}
  {path : List Branch} {x : Float}

theorem mem_postorder_of_part? {part : Expr} (h : e.part? path = some part) :
    part ∈ e.postorder := by
  induction path generalizing e with
  | nil =>
    obtain rfl : e = part := by simpa [Expr.part?] using h
    cases e <;> simp [Expr.postorder]
  | cons branch path ih =>
    cases e with
    | number x => simp [Expr.part?] at h
    | binary o left right =>
      cases branch with
      | left => simp [Expr.postorder, ih (e := left) h]
      | right => simp [Expr.postorder, ih (e := right) h]
      | argument => simp [Expr.part?] at h
    | call f argument =>
      cases branch with
      | left | right => simp [Expr.part?] at h
      | argument => simp [Expr.postorder, ih (e := argument) h]

/-- Whether some tokens stand among others where an operand may start: at the start, or behind an
operator, a sign or an opened parenthesis. A plus or a minus is a sign there. -/
def OperandIn (ts us : List Token) : Prop :=
  ∃ before after, ts = before ++ us ++ after ∧
    signBehind (before.getLast?.map Token.kind) = true

/-- Whether a minus sign stands among some tokens, and behind it others that make the given
operand. -/
def NegatedIn (ts : List Token) (operand : Expr) : Prop :=
  ∃ t us, OperandIn ts (t :: us) ∧ t.kind = .minus ∧ Derives ⊤ .unary 0 us operand

/-- Whether a part of an expression stands left in the product that a minus sign makes with its
operand. -/
def Expr.SignAt (e : Expr) (ts : List Token) (path : List Branch) : Prop :=
  ∃ outer operand, path = outer ++ [.left] ∧ e.part? outer = some operand.negated ∧
    NegatedIn ts operand

/-- What an expression looks like that a text stands for. Its numbers are those of literals and
constants, none of them with a sign, or minus one where there is a minus sign; and the functions
that it calls have names, made of letters, that the text gives them. -/
structure Expr.WellFormed (s : String) (e : Expr) : Prop where
  number : ∀ path x, e.part? path = some (.number x) →
    (Number.isNegative x = false ∧ x ≠ Float.nan ∧ ∃ t ∈ tokens s, t.value? = some x) ∨
      (x = -1 ∧ e.SignAt (tokens s) path)
  call : ∀ path f argument, e.part? path = some (.call f argument) →
    f ≠ "" ∧ (∀ c ∈ f.toList, c.isAlpha = true) ∧ CalledIn (tokens s) f

section Numbers

theorem OperandIn.start (h : OperandIn ts (us ++ vs)) : OperandIn ts us := by
  obtain ⟨before, after, rfl, hsign⟩ := h
  exact ⟨before, vs ++ after, by simp, hsign⟩

theorem OperandIn.behind (us : List Token) (h : OperandIn ts (us ++ t :: vs))
    (ht : signBehind (some t.kind) = true) : OperandIn ts vs := by
  obtain ⟨before, after, rfl, -⟩ := h
  exact ⟨before ++ us ++ [t], after, by simp, by simpa using ht⟩

theorem signBehind_symbol (o : Operator) : signBehind (some (Kind.ofChar o.symbol)) = true := by
  cases o <;> rfl

/-- Whether the numbers of an expression are those of some tokens, or minus one where there is a
minus sign among them. -/
def Accounted (ts : List Token) (e : Expr) : Prop :=
  ∀ path x, e.part? path = some (.number x) →
    (∃ t ∈ ts, t.value? = some x) ∨ (x = -1 ∧ e.SignAt ts path)

/-- What is accounted for in a part is accounted for in the whole, one branch further down. -/
theorem Accounted.deeper {part : Expr} (h : Accounted ts part) {branch : Branch}
    (hpart : ∀ path, e.part? (branch :: path) = part.part? path)
    (hx : e.part? (branch :: path) = some (.number x)) :
    (∃ t ∈ ts, t.value? = some x) ∨ (x = -1 ∧ e.SignAt ts (branch :: path)) := by
  rw [hpart] at hx
  rcases h path x hx with hvalue | ⟨hone, outer, operand, rfl, houter, hsign⟩
  · exact .inl hvalue
  · exact .inr ⟨hone, branch :: outer, operand, rfl, (hpart outer).trans houter, hsign⟩

theorem accounted_number (ht : t ∈ ts) (hx : t.value? = some x) : Accounted ts (.number x) := by
  intro path y hy
  cases path with
  | nil =>
    obtain rfl : x = y := Expr.number.inj (Option.some.inj hy)
    exact .inl ⟨t, ht, hx⟩
  | cons branch path => simp [Expr.part?] at hy

theorem accounted_binary {left right : Expr} (o : Operator) (hl : Accounted ts left)
    (hr : Accounted ts right) : Accounted ts (.binary o left right) := by
  intro path x hx
  match path with
  | [] => simp [Expr.part?] at hx
  | .left :: path => exact hl.deeper (fun _ => rfl) hx
  | .right :: path => exact hr.deeper (fun _ => rfl) hx
  | .argument :: path => simp [Expr.part?] at hx

theorem accounted_call {argument : Expr} (f : String) (h : Accounted ts argument) :
    Accounted ts (.call f argument) := by
  intro path x hx
  match path with
  | [] => simp [Expr.part?] at hx
  | .argument :: path => exact h.deeper (fun _ => rfl) hx
  | .left :: path | .right :: path => simp [Expr.part?] at hx

/-- A minus sign accounts for the minus one that it brings with it. -/
theorem accounted_negated (hsign : NegatedIn ts e) (h : Accounted ts e) :
    Accounted ts e.negated := by
  intro path x hx
  match path with
  | [] => simp [Expr.negated, Expr.part?] at hx
  | [.left] =>
    obtain rfl : -1 = x := Expr.number.inj (Option.some.inj hx)
    exact .inr ⟨rfl, [], e, rfl, rfl, hsign⟩
  | .left :: branch :: path => simp [Expr.negated, Expr.part?] at hx
  | .right :: path => exact h.deeper (fun _ => rfl) hx
  | .argument :: path => simp [Expr.negated, Expr.part?] at hx

/-- The numbers of an expression that is derived are accounted for by the tokens around, if these
are derived where an operand may start. -/
theorem Derives.accounted (h : Derives limit p d us e) (hus : OperandIn ts us) :
    Accounted ts e := by
  -- Every part of a phrase that is derived itself stands where an operand may start.
  induction h with
  | chain _ ih | first _ ih | base _ ih => exact ih hus
  | @link c n d us t vs o left right _ ho _ ihl ihr =>
    have ht : signBehind (some t.kind) = true := by
      rw [kind_of_operator ho]
      exact signBehind_symbol o
    exact accounted_binary o (ihl hus.start) (ihr (hus.behind _ ht))
  | power _ ht _ ihb ihe =>
    exact accounted_binary .power (ihb hus.start) (ihe (hus.behind _ (by rw [ht]; rfl)))
  | @plus d t us e _ ht _ ih =>
    exact ih (hus.behind [] (by rw [ht]; rfl))
  | @minus d t us e _ ht h ih =>
    have hoperand : OperandIn ts us := hus.behind [] (by rw [ht]; rfl)
    have hsign : NegatedIn ts e := ⟨t, us, hus, ht, h.of_room fun _ _ => le_top⟩
    exact accounted_negated hsign (ih hoperand)
  | @number d t x _ ht hx =>
    obtain ⟨before, after, rfl, -⟩ := hus
    exact accounted_number (t := t) (by simp) (by rw [Token.value?, ht]; exact hx)
  | @constant d t x _ ht hx =>
    obtain ⟨before, after, rfl, -⟩ := hus
    exact accounted_number (t := t) (by simp) (by rw [Token.value?, ht]; exact hx)
  | @group d l us r e _ hl _ _ ih =>
    have hinner : OperandIn ts (us ++ [r]) := hus.behind [] (by rw [hl]; rfl)
    exact ih hinner.start
  | @call d t l us r e _ _ _ hl _ _ ih =>
    have hinner : OperandIn ts (us ++ [r]) := hus.behind [t] (by rw [hl]; rfl)
    exact accounted_call t.text (ih hinner.start)

end Numbers

/-- A token of a text stands for no number that has a sign, and only for what is a number. Of tokens
that no text is cut into, others could be read. -/
theorem unsigned_of_value? {s : String} (ht : t ∈ tokens s) (hx : t.value? = some x) :
    Number.isNegative x = false ∧ x ≠ Float.nan := by
  cases hk : t.kind with
  | number => exact unsigned_of_literal ht hk (by simpa [Token.value?, hk] using hx)
  | identifier => exact Number.unsigned_constant (by simpa [Token.value?, hk] using hx)
  | _ => simp [Token.value?, hk] at hx

/-- Every expression that is read is well formed. -/
theorem wellFormed_of_parse {s : String} (h : Expr.parse s = .ok e) : e.WellFormed s := by
  have hd : Derives maxDepth (.chain .sum) 0 (tokens s) e := ofTokensWithin_eq_ok_iff.mp h
  -- With nothing in front of it, the whole text stands where an operand may start.
  have hnumbers : Accounted (tokens s) e := hd.accounted ⟨[], [], by simp, rfl⟩
  constructor
  · intro path x hx
    rcases hnumbers path x hx with ⟨t, ht, hvalue⟩ | hsign
    · obtain ⟨hnegative, hnan⟩ := unsigned_of_value? ht hvalue
      exact .inl ⟨hnegative, hnan, t, ht, hvalue⟩
    · exact .inr hsign
  · intro path f argument hcall
    have hcalled : CalledIn (tokens s) f := stemsFrom_of_parse h _ (mem_postorder_of_part? hcall)
    obtain ⟨hne, halpha⟩ := isAlpha_of_calledIn hcalled
    exact ⟨hne, halpha, hcalled⟩

/-- A run of digits and points that is a numeral is read as the number that it stands for. -/
theorem parse_literal {s : String} (hs : ∀ c ∈ s.toList, c.isDigit = true ∨ c = '.')
    (hx : Number.ofText? s = some x) : Expr.parse s = .ok (.number x) := by
  have hne : s.toList ≠ [] := by
    intro hempty
    obtain rfl : s = "" := by simpa using hempty
    have hnone : Number.ofText? "" = none := rfl
    simp [hnone] at hx
  have hwords : (tokens s).map Token.lexeme = [⟨.number, s.toList⟩] := by
    rw [map_lexeme_tokens, wordsOf,
      lexemes_run rfl hne fun c hc => ofChar_of_digit_or_point (hs c hc)]
    rfl
  obtain ⟨t, htokens, ht⟩ := List.map_eq_singleton_iff.mp hwords
  obtain ⟨hk, htext⟩ := lexeme_eq_iff.mp ht
  rw [String.ofList_toList] at htext
  have hd : Derives maxDepth (.chain .sum) 0 (tokens s) (.number x) := by
    rw [htokens]
    exact derives_sum_of_unary (.number zero_le hk (htext ▸ hx))
  exact ofTokensWithin_eq_ok_iff.mpr hd

/-- The minus one of a sign stands in front of a call, and a literal that exceeds all floats stands
for infinity. -/
theorem negated_call_and_overlong_literal :
    Expr.parse "-f(1)" = .ok (Expr.negated (.call "f" (.number 1))) ∧
    (Expr.negated (.call "f" (.number 1))).WellFormed "-f(1)" ∧
    Expr.parse (String.ofList (List.replicate 310 '9')) = .ok (.number Number.infinity) ∧
    (Expr.number Number.infinity).WellFormed (String.ofList (List.replicate 310 '9')) := by
  have hcall : Expr.parse "-f(1)" = .ok (Expr.negated (.call "f" (.number 1))) := by
    decide +kernel
  have hoverlong : Expr.parse (String.ofList (List.replicate 310 '9')) =
      .ok (.number Number.infinity) := by
    apply parse_literal
    · intro c hc
      rw [String.toList_ofList] at hc
      exact .inl (List.eq_of_mem_replicate hc ▸ rfl)
    · rw [Number.ofText?, String.toList_ofList]
      decide +kernel
  exact ⟨hcall, wellFormed_of_parse hcall, hoverlong, wellFormed_of_parse hoverlong⟩

end Calculator
