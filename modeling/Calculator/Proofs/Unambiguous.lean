import Calculator.Proofs.Literals
import Calculator.Proofs.RoundTrip

/-!
Texts that tell their expressions. The text of every float reads back as the float, also of those
that no expression can be read with. A number and the name of a function both end where a blank or
a parenthesis stands, and a parenthesis behind them tells a call, so an expression is the only one
of its text, wherever the text stands in another.
-/

namespace Calculator

namespace Number

open Float.Model Float.Model.Format

variable {x y : Float}

theorem eq_of_unpack (h : x.toModel.unpack = y.toModel.unpack) : x = y := by
  apply Float.toBits_inj.mp
  apply UInt64.toBitVec_inj.mp
  exact (Float.Model.UnpackedFloat.unpack_inj_of_valid x.toModel.valid y.toModel.valid).mp h

/-- What a float can be. There is one float that is not a number, and one infinity of each sign. -/
theorem eq_or_isFinite (x : Float) :
    x = Float.nan ∨ x = infinity ∨ x = -infinity ∨ x.isFinite = true := by
  cases hu : x.toModel.unpack with
  | notANumber => exact .inl (eq_of_unpack (hu.trans rfl))
  | infinity s =>
    cases s with
    | positive => exact .inr (.inl (eq_of_unpack (hu.trans rfl)))
    | negative => exact .inr (.inr (.inl (eq_of_unpack (hu.trans rfl))))
  | zero | finite =>
    refine .inr (.inr (.inr ?_))
    change x.toModel.unpack.isFinite = true
    rw [hu]
    rfl

/-- The opposite of the magnitude of a float with sign is the float. -/
theorem neg_magnitude (h : x.isFinite = true) (hs : isNegative x = true) : -magnitude x = x := by
  have hlt := isFinite_iff.mp h
  have hmod : (magnitude x).toBits.toNat % signBit = magnitudeBits x := magnitudeBits_magnitude h
  have hsign : signOf (magnitude x).toBits.toNat = .positive :=
    if_pos (not_le.mp (of_decide_eq_false (isNegative_magnitude h)))
  have hsign' : signOf x.toBits.toNat = .negative :=
    if_neg (not_lt.mpr (of_decide_eq_true hs))
  -- Taken apart, the two differ in their signs only.
  have hneg : (magnitude x).toModel.unpack.neg = x.toModel.unpack := by
    change (UnpackedFloat.unpack binary64 (magnitude x).toBits.toBitVec).neg =
      UnpackedFloat.unpack binary64 x.toBits.toBitVec
    rcases Nat.eq_zero_or_pos (magnitudeBits x) with h0 | h0
    · rw [unpack_zero (hmod.trans h0), unpack_zero h0]
      change UnpackedFloat.zero (-signOf (magnitude x).toBits.toNat) =
        .zero (signOf x.toBits.toNat)
      rw [hsign, hsign']
      rfl
    · obtain ⟨hm, hu⟩ := unpack_finite (b := (magnitude x).toBits.toBitVec) (hmod.symm ▸ h0)
        (hmod.symm ▸ hlt)
      obtain ⟨hm', hu'⟩ := unpack_finite (b := x.toBits.toBitVec) h0 hlt
      rw [hu, hu']
      change UnpackedFloat.finite (-signOf (magnitude x).toBits.toNat)
        (significand ((magnitude x).toBits.toNat % signBit))
        (scale ((magnitude x).toBits.toNat % signBit) - lowestExponent) hm =
        .finite (signOf x.toBits.toNat) (significand (magnitudeBits x))
        (scale (magnitudeBits x) - lowestExponent) hm'
      simp only [hmod, hsign, hsign']
      rfl
  calc -magnitude x = Float.ofModel (.pack (magnitude x).toModel.unpack.neg) := rfl
    _ = Float.ofModel (.pack x.toModel.unpack) := by rw [hneg]
    _ = x := Float.ofBits_toBits x

theorem takeSign_of_isDigit {c : Char} (cs : List Char) (h : c.isDigit = true) :
    takeSign (c :: cs) = (false, c :: cs) := by
  unfold takeSign
  split
  case h_1 heq =>
    obtain ⟨rfl, -⟩ := List.cons.inj heq
    exact absurd h (by decide)
  case h_2 heq =>
    obtain ⟨rfl, -⟩ := List.cons.inj heq
    exact absurd h (by decide)
  case h_3 => rfl

theorem ofText?_minus {c : Char} {cs : List Char} (hc : c.isDigit = true)
    (h : ofText? (String.ofList (c :: cs)) = some x) :
    ofText? (String.ofList ('-' :: c :: cs)) = some (-x) := by
  rw [ofText?, String.toList_ofList, takeSign_of_isDigit cs hc] at h
  have hx : unsigned? (c :: cs) = some x := by simpa using h
  rw [ofText?, String.toList_ofList]
  simp [takeSign, hx]

/-- The text of a float reads back as the float. -/
theorem ofText?_text (x : Float) : ofText? (text x) = some x := by
  rcases eq_or_isFinite x with rfl | rfl | rfl | h
  · rfl
  · rfl
  · rfl
  · rw [text]
    cases hs : isNegative x with
    | false => exact ofText?_chars h hs
    | true =>
      -- Behind the sign stands the text of the magnitude, which starts with a digit.
      have hread := ofText?_chars (isFinite_magnitude h) (isNegative_magnitude h)
      have hchars := chars_of_not_isNegative (isFinite_magnitude h) (isNegative_magnitude h)
      obtain ⟨⟨c, cs, hc, hdigit⟩, -⟩ := chars_digits (shortest (magnitude x))
      rw [hc] at hchars
      rw [hchars] at hread
      rw [chars_of_isNegative h hs, hchars, ofText?_minus hdigit hread, neg_magnitude h hs]

theorem chars_injective : Function.Injective chars := by
  intro x y h
  have htext : text x = text y := congrArg String.ofList h
  have hread := ofText?_text x
  rw [htext, ofText?_text y] at hread
  exact (Option.some.inj hread).symm

/-- A float is written in digits, with a point, a sign, or the letters of what is not finite. -/
theorem isDigit_or_mem_of_mem_chars {c : Char} (hc : c ∈ chars x) :
    c.isDigit = true ∨ c ∈ ['.', '-', 'N', 'a', 'i', 'n', 'f'] := by
  have hunsigned (h : c ∈ if x.isInf then ['i', 'n', 'f'] else (shortest (magnitude x)).chars) :
      c.isDigit = true ∨ c ∈ ['.', '-', 'N', 'a', 'i', 'n', 'f'] := by
    by_cases hinf : x.isInf = true
    · rw [if_pos hinf] at h
      exact .inr (List.mem_append_right ['.', '-', 'N', 'a'] h)
    · rw [if_neg hinf] at h
      rcases (chars_digits _).2 c h with hdigit | rfl
      · exact .inl hdigit
      · exact .inr List.mem_cons_self
  rw [chars] at hc
  dsimp only at hc
  split at hc
  · have hletters : ['N', 'a', 'N'] ⊆ ['.', '-', 'N', 'a', 'i', 'n', 'f'] := by decide
    exact .inr (hletters hc)
  · split at hc
    · rcases List.mem_cons.mp hc with rfl | hc
      · exact .inr (by decide)
      · exact hunsigned hc
    · exact hunsigned hc

end Number

def Delimits (c : Char) : Prop := c = ' ' ∨ c = '(' ∨ c = ')'

theorem not_delimits_name {f : String} (h : ∀ c ∈ f.toList, c.isAlpha = true) :
    ∀ c ∈ f.toList, ¬ Delimits c := by
  rintro c hc (rfl | rfl | rfl) <;> exact absurd (h _ hc) (by decide)

theorem not_delimits_chars (x : Float) : ∀ c ∈ Number.chars x, ¬ Delimits c := by
  intro c hc hdelimits
  rcases Number.isDigit_or_mem_of_mem_chars hc with hdigit | hmem
  · rcases hdelimits with rfl | rfl | rfl <;> exact absurd hdigit (by decide)
  · rcases hdelimits with rfl | rfl | rfl <;> exact absurd hmem (by decide)

/-- Two texts without delimiters are the same if a delimiter, or the end, follows either of them at
the front of one text. -/
theorem undelimited_append_inj {as bs rest rest' : List Char} (ha : ∀ c ∈ as, ¬ Delimits c)
    (hb : ∀ c ∈ bs, ¬ Delimits c) (hr : ∀ c ∈ rest.head?, Delimits c)
    (hr' : ∀ c ∈ rest'.head?, Delimits c) (h : as ++ rest = bs ++ rest') :
    as = bs ∧ rest = rest' := by
  induction as generalizing bs with
  | nil =>
    cases bs with
    | nil => exact ⟨rfl, h⟩
    | cons b bs =>
      have hhead : rest.head? = some b := congrArg List.head? h
      exact absurd (hr b hhead) (hb b (by simp))
  | cons a as ih =>
    cases bs with
    | nil =>
      have hhead : rest'.head? = some a := congrArg List.head? h.symm
      exact absurd (hr' a hhead) (ha a (by simp))
    | cons b bs =>
      obtain ⟨rfl, htail⟩ := List.cons.inj h
      obtain ⟨rfl, hrest⟩ :=
        ih (fun c hc => ha c (by simp [hc])) (fun c hc => hb c (by simp [hc])) htail
      exact ⟨rfl, hrest⟩

theorem Closes.delimits {rest : List Char} (h : Closes rest) : ∀ c ∈ rest.head?, Delimits c := by
  intro c hc
  exact (h c hc).imp id .inr

theorem delimits_paren (more : List Char) : ∀ c ∈ ('(' :: more).head?, Delimits c := by
  rintro c ⟨⟩
  exact .inr (.inl rfl)

namespace Expr

def Named : Expr → Prop
  | .number _ => True
  | .binary _ left right => left.Named ∧ right.Named
  | .call f argument => f ≠ "" ∧ (∀ c ∈ f.toList, c.isAlpha = true) ∧ argument.Named

end Expr

theorem symbol_injective : Function.Injective Operator.symbol := by
  intro o o' h
  cases o <;> cases o' <;> simp_all [Operator.symbol]

/-- A number that is closed is not what stands before the parenthesis of an operation or a call. -/
theorem number_append_ne (name : List Char) {x : Float} {rest more : List Char}
    (hname : ∀ c ∈ name, ¬ Delimits c) (hr : Closes rest) :
    Number.chars x ++ rest ≠ name ++ '(' :: more := by
  intro h
  obtain ⟨-, rfl⟩ :=
    undelimited_append_inj (not_delimits_chars x) hname hr.delimits (delimits_paren more) h
  exact absurd (hr '(' rfl) (by decide)

theorem name_append_ne {f : String} (hf : f ≠ "") (halpha : ∀ c ∈ f.toList, c.isAlpha = true)
    (more more' : List Char) : '(' :: more ≠ f.toList ++ '(' :: more' := by
  intro h
  have hsplit : [] ++ '(' :: more = f.toList ++ '(' :: more' := h
  obtain ⟨hnil, -⟩ := undelimited_append_inj (by simp) (not_delimits_name halpha)
    (delimits_paren more) (delimits_paren more') hsplit
  exact hf (by simpa using hnil.symm)

/-- The text of an expression that is closed tells the expression, and where its text ends. -/
theorem chars_append_inj {t u : Expr} (ht : t.Named) (hu : u.Named) {rest rest' : List Char}
    (hr : Closes rest) (hr' : Closes rest') (h : t.chars ++ rest = u.chars ++ rest') :
    t = u ∧ rest = rest' := by
  have hblank (more : List Char) : Closes (' ' :: more) := by simp [Closes]
  have hparen (more : List Char) : Closes (')' :: more) := by simp [Closes]
  -- The operands are closed by what the text has behind them, so they are told one by one.
  induction t generalizing u rest rest' with
  | number x =>
    cases u with
    | number y =>
      obtain ⟨hchars, hrest⟩ := undelimited_append_inj (not_delimits_chars x)
        (not_delimits_chars y) hr.delimits hr'.delimits h
      exact ⟨congrArg Expr.number (Number.chars_injective hchars), hrest⟩
    | binary o left right =>
      rw [chars_binary_append] at h
      exact absurd h (number_append_ne [] (by simp) hr)
    | call f argument =>
      rw [chars_call_append] at h
      exact absurd h (number_append_ne _ (not_delimits_name hu.2.1) hr)
  | binary o left right ihl ihr =>
    rw [chars_binary_append] at h
    cases u with
    | number y => exact absurd h.symm (number_append_ne [] (by simp) hr')
    | binary o' left' right' =>
      rw [chars_binary_append] at h
      obtain ⟨rfl, hmiddle⟩ := ihl ht.1 hu.1 (hblank _) (hblank _) (List.cons.inj h).2
      simp only [List.cons.injEq, true_and] at hmiddle
      obtain ⟨hsymbol, hright⟩ := hmiddle
      obtain rfl := symbol_injective hsymbol
      obtain ⟨rfl, hend⟩ := ihr ht.2 hu.2 (hparen _) (hparen _) hright
      exact ⟨rfl, (List.cons.inj hend).2⟩
    | call f argument =>
      rw [chars_call_append] at h
      exact absurd h (name_append_ne hu.1 hu.2.1 _ _)
  | call f argument ih =>
    rw [chars_call_append] at h
    cases u with
    | number y => exact absurd h.symm (number_append_ne _ (not_delimits_name ht.2.1) hr')
    | binary o left right =>
      rw [chars_binary_append] at h
      exact absurd h.symm (name_append_ne ht.1 ht.2.1 _ _)
    | call g argument' =>
      rw [chars_call_append] at h
      obtain ⟨hfg, hargument⟩ := undelimited_append_inj (not_delimits_name ht.2.1)
        (not_delimits_name hu.2.1) (delimits_paren _) (delimits_paren _) h
      obtain rfl : f = g := String.toList_inj.mp hfg
      obtain ⟨rfl, hend⟩ :=
        ih ht.2.2 hu.2.2 (hparen _) (hparen _) (List.cons.inj hargument).2
      exact ⟨rfl, (List.cons.inj hend).2⟩

/-- Expressions with the same text are the same, to the bits of their numbers. And no text of one is
the start of the text of another, up to a blank or a closing parenthesis. -/
theorem text_unambiguous {t u : Expr} (ht : t.Named) (hu : u.Named) :
    (t.text = u.text ↔ t = u) ∧
      ∀ c rest, c = ' ' ∨ c = ')' → u.text.toList ≠ t.text.toList ++ c :: rest := by
  have hnil : Closes [] := by simp [Closes]
  constructor
  · constructor
    · intro h
      have hchars : t.chars ++ [] = u.chars ++ [] := by
        rw [← Expr.toList_text, ← Expr.toList_text, h]
      exact (chars_append_inj ht hu hnil hnil hchars).1
    · rintro rfl
      rfl
  · intro c rest hc h
    rw [Expr.toList_text, Expr.toList_text] at h
    have hclosed : Closes (c :: rest) := by simpa [Closes] using hc
    have hsplit : u.chars ++ [] = t.chars ++ c :: rest := by rw [List.append_nil, h]
    have hrest := (chars_append_inj hu ht hnil hclosed hsplit).2
    exact absurd hrest (by simp)

/-- A call of a function named `inf` starts as infinity is written, and is told from it. -/
theorem infinity_told_from_call :
    (Expr.call "inf" (.number (-Number.infinity))).Named ∧ (Expr.number Number.infinity).Named ∧
      (Expr.call "inf" (.number (-Number.infinity))).text ≠
        (Expr.number Number.infinity).text := by
  have hcall : (Expr.call "inf" (.number (-Number.infinity))).Named :=
    ⟨by decide, by simp [Char.isAlpha, Char.isUpper, Char.isLower], trivial⟩
  have hnumber : (Expr.number Number.infinity).Named := trivial
  exact ⟨hcall, hnumber, (text_unambiguous hcall hnumber).1.not.mpr (by simp)⟩

end Calculator
