import Mathlib.Data.List.Basic
import Calculator.Token.Scan

/-!
How a text is cut. Two texts are cut apart from each other unless the characters where they meet
run together, and white space leaves nothing behind but the cut. Places are laid aside here: the
tokens of a text are told by their kinds and characters alone.
-/

namespace Calculator

theorem isAlpha_iff_toNat {c : Char} :
    c.isAlpha ↔ ('A'.toNat ≤ c.toNat ∧ c.toNat ≤ 'Z'.toNat) ∨
      ('a'.toNat ≤ c.toNat ∧ c.toNat ≤ 'z'.toNat) := by
  change (decide ('A'.val ≤ c.val ∧ c.val ≤ 'Z'.val) ||
    decide ('a'.val ≤ c.val) && decide (c.val ≤ 'z'.val)) = true ↔ _
  simp only [Bool.or_eq_true, Bool.and_eq_true, decide_eq_true_eq, UInt32.le_iff_toNat_le]
  rfl

theorem ofChar_of_isAlpha {c : Char} (h : c.isAlpha = true) : Kind.ofChar c = .identifier := by
  have hd : c.isDigit = false := by
    rw [isAlpha_iff_toNat] at h
    simp only [Bool.eq_false_iff, ne_eq, Char.isDigit_iff_toNat, Char.reduceToNat] at h ⊢
    omega
  have hp : c ≠ '.' := by
    rintro rfl
    exact absurd h (by decide)
  simp [Kind.ofChar, h, hd, hp]

theorem ofChar_of_digit_or_point {c : Char} (h : c.isDigit = true ∨ c = '.') :
    Kind.ofChar c = .number := by
  simp [Kind.ofChar, h]

def Token.lexeme (t : Token) : Lexeme := ⟨t.kind, t.text.toList⟩

theorem lexeme_eq_iff {t : Token} {k : Kind} {cs : List Char} :
    t.lexeme = ⟨k, cs⟩ ↔ t.kind = k ∧ t.text = String.ofList cs := by
  simp only [Token.lexeme, Lexeme.mk.injEq, String.ext_iff, String.toList_ofList]

def wordsOf (cs : List Char) : List Lexeme := (lexemes cs).filter (·.kind ≠ .whitespace)

theorem map_lexeme_place (start : ℕ) (ls : List Lexeme) :
    (place start ls).map Token.lexeme = ls := by
  induction ls generalizing start with
  | nil => rfl
  | cons l ls ih => simp [place, Token.lexeme, ih]

theorem map_lexeme_tokens (s : String) : (tokens s).map Token.lexeme = wordsOf s.toList := by
  have hfilter (ts : List Token) : (ts.filter (·.kind ≠ .whitespace)).map Token.lexeme =
      (ts.map Token.lexeme).filter (·.kind ≠ .whitespace) := by
    rw [List.filter_map]
    rfl
  rw [tokens, hfilter, scan, map_lexeme_place, wordsOf]

/-- The first piece of a text starts with its first character and is of that character's kind. -/
theorem lexemes_cons (c : Char) (cs : List Char) :
    ∃ more rest, lexemes (c :: cs) = ⟨Kind.ofChar c, c :: more⟩ :: rest := by
  change ∃ more rest, attach c (lexemes cs) = _
  cases lexemes cs with
  | nil => exact ⟨[], [], rfl⟩
  | cons l rest =>
    by_cases h : l.kind = Kind.ofChar c ∧ (Kind.ofChar c).runs
    · exact ⟨l.chars, rest, by simp [attach, h]⟩
    · exact ⟨[], l :: rest, by simp [attach, h]⟩

/-- Whether one text runs on into another, so that they are not cut where they meet. -/
def Joins (as bs : List Char) : Prop :=
  ∃ a ∈ as.getLast?, ∃ b ∈ bs.head?, Kind.ofChar a = Kind.ofChar b ∧ (Kind.ofChar a).runs

theorem attach_of_not_joins {c : Char} {cs : List Char} (h : ¬ Joins [c] cs) :
    attach c (lexemes cs) = ⟨Kind.ofChar c, [c]⟩ :: lexemes cs := by
  cases cs with
  | nil => rfl
  | cons b cs =>
    obtain ⟨more, rest, hb⟩ := lexemes_cons b cs
    have hcut : ¬ (Kind.ofChar b = Kind.ofChar c ∧ (Kind.ofChar c).runs) := by
      rintro ⟨hk, hr⟩
      exact h ⟨c, rfl, b, rfl, hk.symm, hr⟩
    rw [hb, attach]
    exact if_neg hcut

/-- Texts that do not run together are cut apart. -/
theorem lexemes_append {as bs : List Char} (h : ¬ Joins as bs) :
    lexemes (as ++ bs) = lexemes as ++ lexemes bs := by
  induction as with
  | nil => rfl
  | cons a as ih =>
    -- A text is cut from its end: the rest is cut already, and only the first character is left.
    change attach a (lexemes (as ++ bs)) = attach a (lexemes as) ++ lexemes bs
    cases as with
    | nil => exact attach_of_not_joins h
    | cons a' as =>
      have hrest : ¬ Joins (a' :: as) bs := by
        rintro ⟨c, hc, hjoin⟩
        exact h ⟨c, by simpa using hc, hjoin⟩
      rw [ih hrest]
      -- The first piece is there already, so what follows it does not matter.
      obtain ⟨more, rest, hl⟩ := lexemes_cons a' as
      rw [hl]
      simp only [List.cons_append, attach]
      split <;> rfl

theorem lexemes_run {k : Kind} {cs : List Char} (hk : k.runs) (hne : cs ≠ [])
    (h : ∀ c ∈ cs, Kind.ofChar c = k) : lexemes cs = [⟨k, cs⟩] := by
  induction cs with
  | nil => exact absurd rfl hne
  | cons c cs ih =>
    have hc : Kind.ofChar c = k := h c (by simp)
    cases cs with
    | nil => simp [lexemes, attach, hc]
    | cons c' cs =>
      have htail := ih (by simp) fun x hx => h x (by simp [hx])
      change attach c (lexemes (c' :: cs)) = _
      simp [htail, attach, hc, hk]

theorem wordsOf_append {as bs : List Char} (h : ¬ Joins as bs) :
    wordsOf (as ++ bs) = wordsOf as ++ wordsOf bs := by
  rw [wordsOf, lexemes_append h, List.filter_append]
  rfl

/-- A run of digits and points, or of letters, is one word if what follows does not carry it on. -/
theorem wordsOf_run {k : Kind} {cs rest : List Char} (hk : k.runs) (hw : k ≠ .whitespace)
    (hne : cs ≠ []) (h : ∀ c ∈ cs, Kind.ofChar c = k)
    (hrest : ∀ c ∈ rest.head?, Kind.ofChar c ≠ k) :
    wordsOf (cs ++ rest) = ⟨k, cs⟩ :: wordsOf rest := by
  -- Where the run ends, a character of another kind follows.
  have hcut : ¬ Joins cs rest := by
    rintro ⟨a, ha, b, hb, hab, _⟩
    exact hrest b hb (hab.symm.trans (h a (List.mem_of_getLast? ha)))
  rw [wordsOf_append hcut, wordsOf, lexemes_run hk hne h]
  simp [hw]

/-- A character that makes no runs stands apart from what is before it. -/
theorem not_joins_cons {c : Char} (hc : (Kind.ofChar c).runs = false) (as bs : List Char) :
    ¬ Joins as (c :: bs) := by
  rintro ⟨a, -, b, hb, hab, hr⟩
  obtain rfl : c = b := by simpa using hb
  rw [hab, hc] at hr
  exact absurd hr (by decide)

/-- A character that makes no runs stands apart from what is behind it. -/
theorem not_joins_concat {c : Char} (hc : (Kind.ofChar c).runs = false) (as bs : List Char) :
    ¬ Joins (as ++ [c]) bs := by
  rintro ⟨a, ha, b, -, -, hr⟩
  obtain rfl : c = a := by simpa using ha
  simp [hc] at hr

theorem wordsOf_single {c : Char} (cs : List Char) (hc : (Kind.ofChar c).runs = false) :
    wordsOf (c :: cs) = ⟨Kind.ofChar c, [c]⟩ :: wordsOf cs := by
  have hcut : ¬ Joins [c] cs := not_joins_concat hc [] cs
  have hw : Kind.ofChar c ≠ .whitespace := by
    intro hk
    simp [hk, Kind.runs] at hc
  rw [← List.singleton_append, wordsOf_append hcut]
  simp [wordsOf, lexemes, attach, hw]

theorem wordsOf_blank {c : Char} (cs : List Char) (hc : Kind.ofChar c = .whitespace) :
    wordsOf (c :: cs) = wordsOf cs := by
  change (attach c (lexemes cs)).filter _ = _
  rw [wordsOf]
  cases lexemes cs with
  | nil => simp [attach, hc]
  | cons l rest =>
    -- White space runs on into white space, which is left out either way.
    by_cases hl : l.kind = .whitespace <;> simp [attach, hc, hl, Kind.runs]

end Calculator
