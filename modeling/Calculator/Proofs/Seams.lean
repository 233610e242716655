import Calculator.Proofs.Margins
import Calculator.Proofs.Tokenisation

namespace Calculator

/-- Whether two characters go on in one run: both are digits or points, both are letters, or both
are white space. -/
def SameRun (c d : Char) : Prop :=
  ((c.isDigit = true ∨ c = '.') ∧ (d.isDigit = true ∨ d = '.')) ∨
    (c.isAlpha = true ∧ d.isAlpha = true) ∨ (Text.isBlank c = true ∧ Text.isBlank d = true)

theorem sameRun_iff {c d : Char} :
    SameRun c d ↔ Kind.ofChar c = Kind.ofChar d ∧ (Kind.ofChar c).runs = true := by
  have hnumber (x : Char) : (x.isDigit = true ∨ x = '.') ↔ Kind.ofChar x = .number := by
    simp [ofChar_eq_iff, Kind.Allows]
  have halpha (x : Char) : x.isAlpha = true ↔ Kind.ofChar x = .identifier := by
    simp [ofChar_eq_iff, Kind.Allows]
  have hblank (x : Char) : Text.isBlank x = true ↔ Kind.ofChar x = .whitespace := by
    simp [ofChar_eq_iff, Kind.Allows]
  rw [SameRun, hnumber, hnumber, halpha, halpha, hblank, hblank]
  cases Kind.ofChar c <;> simp [Kind.runs, eq_comm]

/-- The last piece of a text ends with its last character and is of that character's kind. -/
theorem exists_last_lexeme {cs : List Char} {c : Char} (hc : c ∈ cs.getLast?) :
    ∃ l ∈ (lexemes cs).getLast?, l.kind = Kind.ofChar c := by
  have hne : lexemes cs ≠ [] := by
    intro hnil
    have hcs := flatMap_chars_lexemes cs
    rw [hnil, List.flatMap_nil] at hcs
    simp [← hcs] at hc
  have hlast := List.getLast?_eq_some_getLast hne
  refine ⟨_, hlast, ?_⟩
  generalize (lexemes cs).getLast hne = l at hlast
  have hproper : l.Proper := proper_of_mem_lexemes (List.mem_of_getLast? hlast)
  obtain ⟨before, hbefore⟩ := List.getLast?_eq_some_iff.mp hlast
  -- The pieces add up to the text, so the last of them ends where the text does.
  have hcs := flatMap_chars_lexemes cs
  rw [hbefore, List.flatMap_append, List.flatMap_singleton] at hcs
  rw [← hcs, List.getLast?_append_of_ne_nil _ hproper.ne_nil] at hc
  exact (hproper.ofChar c (List.mem_of_getLast? hc)).symm

/-- Two texts are cut apart if and only if they do not run together. -/
theorem lexemes_append_iff {as bs : List Char} :
    lexemes (as ++ bs) = lexemes as ++ lexemes bs ↔ ¬ Joins as bs := by
  refine ⟨?_, lexemes_append⟩
  rintro h ⟨a, ha, b, hb, hab, hruns⟩
  obtain ⟨l, hl, hla⟩ := exists_last_lexeme ha
  obtain ⟨bs, rfl⟩ := List.head?_eq_some_iff.mp hb
  obtain ⟨more, rest, hm⟩ := lexemes_cons b bs
  -- The pieces on both sides of the seam would be neighbours of one kind that makes runs.
  have hchain := isChain_lexemes (as ++ b :: bs)
  rw [h, List.isChain_append] at hchain
  have hapart := hchain.2.2 l hl ⟨Kind.ofChar b, b :: more⟩ (by rw [hm]; rfl)
  exact hapart ⟨hla.trans hab, hla ▸ hruns⟩

theorem scan_append_eq_iff {a b : String} :
    scan (a ++ b) = scan a ++ (scan b).map (Token.shifted a.utf8ByteSize) ↔
      lexemes (a.toList ++ b.toList) = lexemes a.toList ++ lexemes b.toList := by
  constructor
  · intro h
    have hlexemes := congrArg (List.map Token.lexeme) h
    rwa [List.map_append, map_lexeme_shifted, map_lexeme_scan, map_lexeme_scan, map_lexeme_scan,
      String.toList_append] at hlexemes
  · intro h
    have hlength : byteLength a.toList = a.utf8ByteSize := by simp [byteLength]
    rw [scan, String.toList_append, h, place_append, flatMap_chars_lexemes, hlength, Nat.zero_add,
      ← Nat.add_zero a.utf8ByteSize, place_add]
    rfl

/-- The tokens of two texts together are the tokens of one and then those of the other, further on
by the bytes of the first, if and only if the texts do not meet within a run. -/
theorem tokens_part_at_seam (a b : String) :
    scan (a ++ b) = scan a ++ (scan b).map (Token.shifted a.utf8ByteSize) ↔
      ¬ ∃ c ∈ a.toList.getLast?, ∃ d ∈ b.toList.head?, SameRun c d := by
  simp only [scan_append_eq_iff, lexemes_append_iff, Joins, sameRun_iff]

-- A digit and an accented letter do not go on in one run, and what is behind them is four bytes on.
example : scan "sin2é" = scan "sin2" ++ (scan "é").map (Token.shifted 4) := by decide

end Calculator
