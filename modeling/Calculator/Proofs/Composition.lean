import Calculator.Line
import Calculator.Proofs.Places
import Calculator.Proofs.RoundTrip

namespace Calculator

def grouped (s : String) : String := "(" ++ s ++ ")"

def Readable (limit : ℕ) (s : String) : Prop := ∃ e, Expr.parseWithin limit s = .ok e

def valueOf (table : FunctionTable) (s : String) : Except LineError Float := do
  let e ← (Expr.parse s).mapError .parse
  (e.evalWith table).mapError .eval

/-- Whether a text, put together from others, is read as an expression where there is room for its
parts and nests too deeply where there is not, with a value made of theirs. -/
structure Composes (room : Prop) (s : String) (e : Expr)
    (value : FunctionTable → Except LineError Float) : Prop where
  read : room → Expr.parse s = .ok e
  tooDeep : ¬ room → ∃ p, Expr.parse s = .error (.tooDeep p)
  value : ∀ table, (∃ e, Expr.parse s = .ok e) → valueOf table s = value table

/-- Whether some tokens, wherever they stand, make an expression in so much room if they are the
words of a text. -/
def TextFits (s : String) (n : ℕ) (e : Expr) : Prop :=
  ∀ L d ts, ts.map Token.lexeme = wordsOf s.toList → Fits L (.chain .sum) d n ts e

variable {L d n m : ℕ} {ts us : List Token} {a b s f : String} {e ea eb : Expr}

theorem valueOf_of_parse (h : Expr.parse s = .ok e) (table : FunctionTable) :
    valueOf table s = (e.evalWith table).mapError .eval := by
  rw [valueOf, h]
  rfl

/-- A text that is read takes some room, the same under every limit and at every depth. -/
theorem exists_textFits (h : Expr.parse s = .ok e) : ∃ n, TextFits s n e := by
  have hsome : ∃ n : ℕ, Derives n (.chain .sum) 0 (tokens s) e :=
    ⟨maxDepth, ofTokensWithin_eq_ok_iff.mp h⟩
  classical
  refine ⟨Nat.find hsome, fun L d ts hts => ?_⟩
  have hsame : ts.map Token.lexeme = (tokens s).map Token.lexeme := by
    rw [hts, map_lexeme_tokens]
  refine fits_of_least ((Nat.find_spec hsome).congr hsame) ?_
  intro m hm hd
  exact Nat.find_min hsome hm (hd.congr hsame.symm)

theorem TextFits.ofTokensWithin (h : TextFits s n e) (L : ℕ) :
    (n ≤ L → Expr.parseWithin L s = .ok e) ∧
      (L < n → ∃ p, Expr.parseWithin L s = .error (.tooDeep p)) :=
  (h L 0 (tokens s) (map_lexeme_tokens s)).ofTokensWithin

theorem TextFits.readable_iff (h : TextFits s n e) : Readable L s ↔ n ≤ L := by
  obtain ⟨hread, hdeep⟩ := h.ofTokensWithin L
  constructor
  · rintro ⟨e', he'⟩
    by_contra hlt
    obtain ⟨p, hp⟩ := hdeep (not_le.mp hlt)
    exact absurd (he'.symm.trans hp) (by simp)
  · intro hn
    exact ⟨e, hread hn⟩

/-- A text composes as its parts say, if the room that it takes is there exactly where theirs is. -/
theorem TextFits.composes {room : Prop} {value : FunctionTable → Except LineError Float}
    (h : TextFits s n e) (hroom : n ≤ maxDepth ↔ room)
    (hvalue : ∀ table, (e.evalWith table).mapError .eval = value table) :
    Composes room s e value := by
  obtain ⟨hread, hdeep⟩ := h.ofTokensWithin maxDepth
  refine ⟨fun hr => hread (hroom.mpr hr), fun hr => hdeep (not_le.mp (hroom.not.mpr hr)), ?_⟩
  rintro table hparse
  have hn : n ≤ maxDepth := h.readable_iff.mp hparse
  rw [valueOf_of_parse (hread hn), hvalue]

section Parts

theorem toList_grouped (s : String) : (grouped s).toList = '(' :: (s.toList ++ [')']) := by
  simp [grouped]

theorem wordsOf_grouped (s : String) : wordsOf (grouped s).toList =
    ⟨.leftParen, ['(']⟩ :: (wordsOf s.toList ++ [⟨.rightParen, [')']⟩]) := by
  have hcut : ¬ Joins s.toList [')'] := not_joins_cons rfl _ _
  rw [toList_grouped, wordsOf_leftParen, wordsOf_append hcut]
  rfl

/-- The words of a text in parentheses are an operand, with a level less for the text. -/
theorem TextFits.operand (h : TextFits s n e)
    (hts : ts.map Token.lexeme = wordsOf (grouped s).toList) : Fits L .unary d (1 + n) ts e := by
  rw [wordsOf_grouped] at hts
  simp only [List.map_eq_cons_iff, List.map_eq_append_iff, List.map_eq_nil_iff] at hts
  obtain ⟨l, _, rfl, hl, us, _, rfl, hus, r, _, rfl, hr, rfl⟩ := hts
  exact fits_group (lexeme_eq_iff.mp hl).1 (h L (d + 1) us hus) (lexeme_eq_iff.mp hr).1

theorem textFits_grouped (ha : TextFits a n ea) : TextFits (grouped a) (1 + n) ea := by
  intro L d ts hts
  exact fits_sum_of_unary (ha.operand hts)

/-- A sign in front of the parentheses takes one more level. -/
theorem textFits_sign {c : Char} (ha : TextFits a n ea)
    (hc : c = '+' ∧ e = ea ∨ c = '-' ∧ e = ea.negated) :
    TextFits (String.singleton c ++ grouped a) (1 + (1 + n)) e := by
  have hkind : (Kind.ofChar c).runs = false := by
    rcases hc with ⟨rfl, -⟩ | ⟨rfl, -⟩ <;> rfl
  intro L d ts hts
  rw [String.toList_append, String.toList_singleton, List.singleton_append,
    wordsOf_single _ hkind] at hts
  obtain ⟨t, us, rfl, ht, hus⟩ := List.map_eq_cons_iff.mp hts
  have htk := (lexeme_eq_iff.mp ht).1
  have hsign : t.kind = .plus ∧ e = ea ∨ t.kind = .minus ∧ e = ea.negated := by
    rcases hc with ⟨rfl, rfl⟩ | ⟨rfl, rfl⟩
    · exact .inl ⟨htk, rfl⟩
    · exact .inr ⟨htk, rfl⟩
  exact fits_sum_of_unary (fits_sign hsign (ha.operand hus))

theorem textFits_call (ha : TextFits a n ea) (hne : f ≠ "")
    (halpha : ∀ c ∈ f.toList, c.isAlpha = true) (hf : Number.constant? f = none) :
    TextFits (f ++ grouped a) (1 + n) (.call f ea) := by
  intro L d ts hts
  rw [String.toList_append, toList_grouped, wordsOf_name hne halpha, ← toList_grouped,
    wordsOf_grouped] at hts
  simp only [List.map_eq_cons_iff, List.map_eq_append_iff, List.map_eq_nil_iff] at hts
  obtain ⟨t, _, rfl, ht, l, _, rfl, hl, us, _, rfl, hus, r, _, rfl, hr, rfl⟩ := hts
  obtain ⟨hk, htext⟩ := lexeme_eq_iff.mp ht
  obtain rfl : t.text = f := htext.trans String.ofList_toList
  exact fits_sum_of_unary (fits_call hk hf (lexeme_eq_iff.mp hl).1 (ha L (d + 1) us hus)
    (lexeme_eq_iff.mp hr).1)

/-- An operation takes a level for the parentheses, and another one for its right side. -/
theorem textFits_operation (o : Operator) (ha : TextFits a n ea) (hb : TextFits b m eb) :
    TextFits (grouped a ++ String.singleton o.symbol ++ grouped b) (max (1 + n) (1 + (1 + m)))
      (.binary o ea eb) := by
  have hsymbol : (Kind.ofChar o.symbol).runs = false := by cases o <;> rfl
  intro L d ts hts
  rw [String.append_assoc, String.toList_append, String.toList_append, String.toList_singleton,
    List.singleton_append, wordsOf_append (not_joins_cons hsymbol _ _),
    wordsOf_single _ hsymbol] at hts
  obtain ⟨us, _, rfl, hus, hrest⟩ := List.map_eq_append_iff.mp hts
  obtain ⟨t, vs, rfl, ht, hvs⟩ := List.map_eq_cons_iff.mp hrest
  exact fits_operator (lexeme_eq_iff.mp ht).1 (ha.operand hus) (hb.operand hvs)

end Parts

/-- Texts in parentheses can be put together as operands, as the argument of a function, behind a
sign, or alone. What they make together is made of what each makes alone, and so is its value, where
the first part without a value decides before the rest is looked at. They have to nest less deeply
than a text may alone, by one level, or by two behind a sign or an operator. -/
theorem composed_texts_read {a b f : String} {ea eb : Expr} (ha : Expr.parse a = .ok ea)
    (hb : Expr.parse b = .ok eb) (hne : f ≠ "") (halpha : ∀ c ∈ f.toList, c.isAlpha = true)
    (hpi : f ≠ "pi") (he : f ≠ "e") (o : Operator) :
    Composes (Readable 255 a ∧ Readable 254 b)
      (grouped a ++ String.singleton o.symbol ++ grouped b) (.binary o ea eb) (fun table => do
        let x ← valueOf table a
        let y ← valueOf table b
        (o.apply x y).mapError .eval) ∧
    Composes (Readable 255 a) (f ++ grouped a) (.call f ea) (fun table => do
      let x ← valueOf table a
      (table.call f x).mapError .eval) ∧
    Composes (Readable 255 a) (grouped a) ea (valueOf · a) ∧
    Composes (Readable 254 a) ("-" ++ grouped a) ea.negated (fun table => do
      let x ← valueOf table a
      return -1 * x) ∧
    Composes (Readable 254 a) ("+" ++ grouped a) ea (valueOf · a) := by
  -- Each text takes some room, and what is put together takes a level or two more.
  obtain ⟨n, hn⟩ := exists_textFits ha
  obtain ⟨m, hm⟩ := exists_textFits hb
  have hvalue := valueOf_of_parse ha
  have hconst : Number.constant? f = none := Number.constant?_eq_none_iff.mpr ⟨hpi, he⟩
  refine ⟨?_, ?_, ?_, ?_, ?_⟩
  · refine (textFits_operation o hn hm).composes ?_ fun table => ?_
    · rw [hn.readable_iff, hm.readable_iff, maxDepth]
      omega
    · rw [hvalue, valueOf_of_parse hb, Expr.evalWith]
      cases ea.evalWith table with
      | error err => rfl
      | ok x => cases eb.evalWith table <;> rfl
  · refine (textFits_call hn hne halpha hconst).composes ?_ fun table => ?_
    · rw [hn.readable_iff, maxDepth]
      omega
    · rw [hvalue, Expr.evalWith]
      cases ea.evalWith table <;> rfl
  · refine (textFits_grouped hn).composes ?_ fun table => (hvalue table).symm
    rw [hn.readable_iff, maxDepth]
    omega
  · refine (textFits_sign (c := '-') hn (.inr ⟨rfl, rfl⟩)).composes ?_ fun table => ?_
    · rw [hn.readable_iff, maxDepth]
      omega
    · rw [hvalue, Expr.negated, Expr.evalWith]
      cases ea.evalWith table <;> rfl
  · refine (textFits_sign (c := '+') hn (.inl ⟨rfl, rfl⟩)).composes ?_
      fun table => (hvalue table).symm
    rw [hn.readable_iff, maxDepth]
    omega

/-- Parentheses around a constant take a level each. -/
theorem textFits_nested (n : ℕ) : TextFits (grouped^[n] "e") n (.number Number.e) := by
  induction n with
  | zero =>
    have hparse : Expr.parse "e" = .ok (.number Number.e) := rfl
    obtain ⟨n, hn⟩ := exists_textFits hparse
    have hread : Readable 0 "e" := ⟨.number Number.e, rfl⟩
    obtain rfl : n = 0 := Nat.le_zero.mp (hn.readable_iff.mp hread)
    exact hn
  | succ n ih =>
    rw [Function.iterate_succ_apply', Nat.add_comm]
    exact textFits_grouped ih

/-- A constant in 255 parentheses can still be the argument of a function, which is looked up and
not found; but it lies too deep on the right of an operator. -/
theorem nested_constant_composed :
    (Expr.parse (grouped^[255] "e") = .ok (.number Number.e) ∧ "f" ≠ "" ∧
      (∀ c ∈ "f".toList, c.isAlpha = true) ∧ "f" ≠ "pi" ∧ "f" ≠ "e") ∧
    Expr.parse ("f" ++ grouped (grouped^[255] "e")) = .ok (.call "f" (.number Number.e)) ∧
    valueOf .standard ("f" ++ grouped (grouped^[255] "e")) =
      .error (.eval (.unknownFunction "f")) ∧
    ∃ p, Expr.parse (grouped (grouped^[255] "e") ++ String.singleton Operator.subtract.symbol ++
      grouped (grouped^[255] "e")) = .error (.tooDeep p) := by
  have hfits := textFits_nested 255
  have hparse : Expr.parse (grouped^[255] "e") = .ok (.number Number.e) :=
    (hfits.ofTokensWithin maxDepth).1 (by decide)
  have hne : "f" ≠ "" := by decide
  have halpha : ∀ c ∈ "f".toList, c.isAlpha = true := by
    simp [Char.isAlpha, Char.isUpper, Char.isLower]
  have hpi : "f" ≠ "pi" := by decide
  have he : "f" ≠ "e" := by decide
  obtain ⟨hoperation, hcall, -⟩ :=
    composed_texts_read hparse hparse hne halpha hpi he .subtract
  have hargument : Readable 255 (grouped^[255] "e") := hfits.readable_iff.mpr le_rfl
  have hright : ¬ Readable 254 (grouped^[255] "e") :=
    hfits.readable_iff.not.mpr (by decide)
  have hread := hcall.read hargument
  refine ⟨⟨hparse, hne, halpha, hpi, he⟩, hread, ?_, hoperation.tooDeep fun h => hright h.2⟩
  rw [hcall.value _ ⟨_, hread⟩, valueOf_of_parse hparse]
  rfl

end Calculator
