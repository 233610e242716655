import Mathlib.Data.List.Chain
import Calculator.Proofs.Lexemes

namespace Calculator

/-- The texts that a token of each kind may have. A stray character is one of no other kind. -/
def Kind.Allows : Kind → List Char → Prop
  | .number, cs => ∀ c ∈ cs, c.isDigit ∨ c = '.'
  | .identifier, cs => ∀ c ∈ cs, c.isAlpha
  | .plus, cs => cs = ['+']
  | .minus, cs => cs = ['-']
  | .star, cs => cs = ['*']
  | .slash, cs => cs = ['/']
  | .caret, cs => cs = ['^']
  | .leftParen, cs => cs = ['(']
  | .rightParen, cs => cs = [')']
  | .whitespace, cs => ∀ c ∈ cs, Text.isBlank c
  | .stray, cs => ∃ c, cs = [c] ∧ ¬ c.isDigit ∧ ¬ c.isAlpha ∧ ¬ Text.isBlank c ∧
      c ∉ ['.', '+', '-', '*', '/', '^', '(', ')']

theorem ofChar_of_isBlank {c : Char} (h : Text.isBlank c = true) :
    Kind.ofChar c = .whitespace := by
  have hd : c.isDigit = false ∧ c.isAlpha = false := by
    obtain ⟨r, hr, hfirst, hlast⟩ := Text.Ranges.exists_of_has h
    simp only [Text.blankRanges, List.mem_cons, List.not_mem_nil, or_false] at hr
    simp only [Bool.eq_false_iff, ne_eq, Char.isDigit_iff_toNat, isAlpha_iff_toNat,
      Char.reduceToNat]
    rcases hr with rfl | rfl | rfl | rfl | rfl | rfl | rfl | rfl | rfl | rfl <;> omega
  have hp : ∀ x ∈ ['.', '+', '-', '*', '/', '^', '(', ')'], c ≠ x := by
    rintro x hx rfl
    simp only [List.mem_cons, List.not_mem_nil, or_false] at hx
    rcases hx with rfl | rfl | rfl | rfl | rfl | rfl | rfl | rfl <;> exact absurd h (by decide)
  simp_all [Kind.ofChar]

theorem allows_ofChar (c : Char) : (Kind.ofChar c).Allows [c] := by
  unfold Kind.ofChar
  split_ifs <;> simp_all [Kind.Allows]

theorem ofChar_eq_iff {c : Char} {k : Kind} : Kind.ofChar c = k ↔ k.Allows [c] := by
  constructor
  · rintro rfl
    exact allows_ofChar c
  · intro h
    cases k with
    | number => exact ofChar_of_digit_or_point (h c (by simp))
    | identifier => exact ofChar_of_isAlpha (h c (by simp))
    | whitespace => exact ofChar_of_isBlank (h c (by simp))
    | stray =>
      obtain ⟨c', hc, hd, ha, hb, hn⟩ := h
      obtain rfl : c = c' := by simpa using hc
      simp_all [Kind.ofChar]
    | _ =>
      obtain rfl := List.singleton_inj.mp h
      rfl

theorem allows_iff_of_runs {k : Kind} {cs : List Char} (hk : k.runs = true) :
    k.Allows cs ↔ ∀ c ∈ cs, Kind.ofChar c = k := by
  cases k <;> simp_all [Kind.runs, ofChar_eq_iff, Kind.Allows]

theorem allows_iff_of_not_runs {k : Kind} {cs : List Char} (hk : k.runs = false) :
    k.Allows cs ↔ ∃ c, cs = [c] ∧ Kind.ofChar c = k := by
  cases k <;> simp_all [Kind.runs, ofChar_eq_iff, Kind.Allows]

structure Lexeme.Proper (l : Lexeme) : Prop where
  ne_nil : l.chars ≠ []
  allows : l.kind.Allows l.chars

/-- Whether two pieces stay apart when they are neighbours. -/
def Lexeme.Apart (l m : Lexeme) : Prop := ¬ (l.kind = m.kind ∧ l.kind.runs = true)

theorem Lexeme.Proper.ofChar {l : Lexeme} (h : l.Proper) :
    ∀ c ∈ l.chars, Kind.ofChar c = l.kind := by
  cases hk : l.kind.runs with
  | true => exact (allows_iff_of_runs hk).mp h.allows
  | false =>
    obtain ⟨c, hc, hkind⟩ := (allows_iff_of_not_runs hk).mp h.allows
    simpa [hc] using hkind

theorem lexemes_of_proper {l : Lexeme} (h : l.Proper) : lexemes l.chars = [l] := by
  cases hk : l.kind.runs with
  | true => exact lexemes_run hk h.ne_nil h.ofChar
  | false =>
    obtain ⟨c, hc, hkind⟩ := (allows_iff_of_not_runs hk).mp h.allows
    obtain ⟨kind, chars⟩ := l
    dsimp only at hc hkind
    subst hc hkind
    rfl

theorem proper_attach {c : Char} {ls : List Lexeme} (h : ∀ l ∈ ls, l.Proper) :
    ∀ l ∈ attach c ls, l.Proper := by
  have hsingle : Lexeme.Proper ⟨Kind.ofChar c, [c]⟩ := ⟨by simp, allows_ofChar c⟩
  cases ls with
  | nil => simpa [attach] using hsingle
  | cons l rest =>
    by_cases hjoin : l.kind = Kind.ofChar c ∧ (Kind.ofChar c).runs
    · -- The character goes before others of its kind.
      obtain ⟨hkind, hruns⟩ := hjoin
      have hl := (h l (by simp)).ofChar
      have hrun : Lexeme.Proper ⟨Kind.ofChar c, c :: l.chars⟩ :=
        ⟨by simp, (allows_iff_of_runs hruns).mpr (by simpa [← hkind] using hl)⟩
      rw [attach, if_pos ⟨hkind, hruns⟩]
      exact List.forall_mem_cons.mpr ⟨hrun, fun m hm => h m (by simp [hm])⟩
    · rw [attach, if_neg hjoin]
      exact List.forall_mem_cons.mpr ⟨hsingle, h⟩

theorem proper_of_mem_lexemes {cs : List Char} {l : Lexeme} (h : l ∈ lexemes cs) : l.Proper := by
  induction cs generalizing l with
  | nil => simp [lexemes] at h
  | cons c cs ih => exact proper_attach (fun m hm => ih hm) l h

theorem isChain_attach {c : Char} {ls : List Lexeme} (h : ls.IsChain Lexeme.Apart) :
    (attach c ls).IsChain Lexeme.Apart := by
  cases ls with
  | nil => exact .singleton _
  | cons l rest =>
    by_cases hjoin : l.kind = Kind.ofChar c ∧ (Kind.ofChar c).runs
    · rw [attach, if_pos hjoin]
      cases rest with
      | nil => exact .singleton _
      | cons m rest =>
        obtain ⟨hapart, hrest⟩ := List.isChain_cons_cons.mp h
        refine .cons_cons ?_ hrest
        simpa [Lexeme.Apart, hjoin.1] using hapart
    · rw [attach, if_neg hjoin]
      refine .cons_cons ?_ h
      rintro ⟨hkind, hruns⟩
      exact hjoin ⟨hkind.symm, hruns⟩

theorem isChain_lexemes (cs : List Char) : (lexemes cs).IsChain Lexeme.Apart := by
  induction cs with
  | nil => exact .nil
  | cons c cs ih => exact isChain_attach ih

theorem not_joins_of_apart {l m : Lexeme} (hl : l.Proper) (hm : m.Proper) (h : l.Apart m)
    (cs : List Char) : ¬ Joins l.chars (m.chars ++ cs) := by
  rintro ⟨a, ha, b, hb, hab, hruns⟩
  rw [List.head?_append_of_ne_nil _ hm.ne_nil] at hb
  have hla : Kind.ofChar a = l.kind := hl.ofChar a (List.mem_of_getLast? ha)
  have hmb : Kind.ofChar b = m.kind := hm.ofChar b (List.mem_of_head? hb)
  exact h ⟨hla.symm.trans (hab.trans hmb), hla ▸ hruns⟩

/-- Pieces that are tokens of their kinds and stay apart are cut again where they were put
together. -/
theorem lexemes_flatMap {ls : List Lexeme} (hp : ∀ l ∈ ls, l.Proper)
    (hc : ls.IsChain Lexeme.Apart) : lexemes (ls.flatMap Lexeme.chars) = ls := by
  induction ls with
  | nil => rfl
  | cons l ls ih =>
    have hl : l.Proper := hp l (by simp)
    have hls := ih (fun m hm => hp m (by simp [hm])) hc.of_cons
    have hcut : ¬ Joins l.chars (ls.flatMap Lexeme.chars) := by
      cases ls with
      | nil => simp [Joins]
      | cons m ls =>
        exact not_joins_of_apart hl (hp m (by simp)) (List.isChain_cons_cons.mp hc).1 _
    rw [List.flatMap_cons, lexemes_append hcut, lexemes_of_proper hl, hls]
    rfl

end Calculator
