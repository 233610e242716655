import Mathlib.Algebra.GroupWithZero.Nat
import Calculator.Proofs.Munch

namespace Calculator

def Placed (start : ℕ) (ts : List Token) : Prop :=
  ∀ before t after, ts = before ++ t :: after →
    t.position = start + (before.map fun u => u.text.utf8ByteSize).sum

theorem placed_nil (start : ℕ) : Placed start [] := by
  intro before t after h
  simp at h

theorem placed_cons {start : ℕ} {t : Token} {ts : List Token} :
    Placed start (t :: ts) ↔ t.position = start ∧ Placed (start + t.text.utf8ByteSize) ts := by
  constructor
  · intro h
    refine ⟨by simpa using h [] t ts rfl, fun before u after hts => ?_⟩
    have hu := h (t :: before) u after (by simp [hts])
    simpa [Nat.add_assoc] using hu
  · rintro ⟨ht, hts⟩ before u after h
    cases before with
    | nil =>
      obtain ⟨rfl, -⟩ := List.cons.inj h
      simpa using ht
    | cons v before =>
      obtain ⟨rfl, hrest⟩ := List.cons.inj h
      simpa [Nat.add_assoc] using hts before u after hrest

theorem placed_place (start : ℕ) (ls : List Lexeme) : Placed start (place start ls) := by
  induction ls generalizing start with
  | nil => exact placed_nil start
  | cons l ls ih => exact placed_cons.mpr ⟨rfl, ih _⟩

theorem place_map_lexeme {start : ℕ} {ts : List Token} (h : Placed start ts) :
    place start (ts.map Token.lexeme) = ts := by
  induction ts generalizing start with
  | nil => rfl
  | cons t ts ih =>
    obtain ⟨rfl, hts⟩ := placed_cons.mp h
    have htext : String.ofList t.lexeme.chars = t.text := String.ofList_toList
    simp only [List.map_cons, place, htext]
    exact congrArg₂ _ rfl (ih hts)

/-- What the tokens of a text are. They add up to the text and stand where they do in it, the text
of each is one that its kind allows, and a run is not cut in two. -/
structure IsTokenisation (s : String) (ts : List Token) : Prop where
  join : String.join (ts.map Token.text) = s
  ne_empty : ∀ t ∈ ts, t.text ≠ ""
  placed : Placed 0 ts
  allows : ∀ t ∈ ts, t.kind.Allows t.text.toList
  maximal : ts.IsChain fun t u =>
    ¬ (t.kind = u.kind ∧ t.kind ∈ [Kind.number, .identifier, .whitespace])

theorem runs_iff (k : Kind) : k.runs = true ↔ k ∈ [Kind.number, .identifier, .whitespace] := by
  cases k <;> decide

theorem isChain_apart_iff {ts : List Token} :
    (ts.map Token.lexeme).IsChain Lexeme.Apart ↔
      ts.IsChain fun t u =>
        ¬ (t.kind = u.kind ∧ t.kind ∈ [Kind.number, .identifier, .whitespace]) := by
  simp only [List.isChain_map, Lexeme.Apart, Token.lexeme, runs_iff]

theorem flatMap_lexeme_chars (ts : List Token) :
    (ts.map Token.lexeme).flatMap Lexeme.chars = (String.join (ts.map Token.text)).toList := by
  rw [String.toList_join, List.flatMap_map, List.flatMap_map]
  rfl

theorem map_lexeme_scan (s : String) : (scan s).map Token.lexeme = lexemes s.toList :=
  map_lexeme_place 0 _

theorem proper_of_mem_scan {s : String} {t : Token} (h : t ∈ scan s) : t.lexeme.Proper :=
  proper_of_mem_lexemes (map_lexeme_scan s ▸ List.mem_map_of_mem h)

theorem proper_of_mem_tokens {s : String} {t : Token} (h : t ∈ tokens s) :
    t.lexeme.Proper ∧ t.kind ≠ .whitespace := by
  obtain ⟨hscan, hkind⟩ := List.mem_filter.mp h
  exact ⟨proper_of_mem_scan hscan, by simpa using hkind⟩

theorem isTokenisation_scan (s : String) : IsTokenisation s (scan s) := by
  refine ⟨?_, ?_, placed_place 0 _, fun t ht => (proper_of_mem_scan ht).allows, ?_⟩
  · rw [← String.toList_inj, ← flatMap_lexeme_chars, map_lexeme_scan, flatMap_chars_lexemes]
  · intro t ht htext
    exact (proper_of_mem_scan ht).ne_nil (by simp [Token.lexeme, htext])
  · rw [← isChain_apart_iff, map_lexeme_scan]
    exact isChain_lexemes _

theorem IsTokenisation.eq_scan {s : String} {ts : List Token} (h : IsTokenisation s ts) :
    ts = scan s := by
  -- The tokens are proper and stay apart, so the text that they add up to is cut into them again.
  have hproper : ∀ l ∈ ts.map Token.lexeme, l.Proper := by
    rintro l hl
    obtain ⟨t, ht, rfl⟩ := List.mem_map.mp hl
    exact ⟨by simpa [Token.lexeme] using h.ne_empty t ht, h.allows t ht⟩
  have hlexemes := lexemes_flatMap hproper (isChain_apart_iff.mpr h.maximal)
  rw [flatMap_lexeme_chars, h.join] at hlexemes
  calc
    ts = place 0 (ts.map Token.lexeme) := (place_map_lexeme h.placed).symm
    _ = scan s := by rw [scan, hlexemes]

theorem utf8ByteSize_join (ss : List String) :
    (String.join ss).utf8ByteSize = (ss.map String.utf8ByteSize).sum := by
  induction ss with
  | nil => rfl
  | cons s ss ih => simp [String.join_cons, ih]

def joined (ts : List Token) : String := String.join (ts.map Token.text)

theorem joined_append (ts us : List Token) : joined (ts ++ us) = joined ts ++ joined us := by
  rw [joined, List.map_append, String.join_append]
  rfl

theorem joined_cons (t : Token) (ts : List Token) : joined (t :: ts) = t.text ++ joined ts :=
  String.join_cons

/-- The tokens of a text are cut out of it one after the other. -/
theorem split_of_scan {s : String} {before after : List Token} (h : scan s = before ++ after) :
    s = joined before ++ joined after ∧
      ∀ t ∈ after.head?, t.position = (joined before).utf8ByteSize := by
  have hs := isTokenisation_scan s
  constructor
  · rw [← joined_append, ← h]
    exact hs.join.symm
  · intro t ht
    obtain ⟨rest, rfl⟩ := List.head?_eq_some_iff.mp ht
    rw [hs.placed before t rest h, joined, utf8ByteSize_join]
    simp [Function.comp_def]

theorem standsAt_of_mem_scan {s : String} {t : Token} (h : t ∈ scan s) :
    StandsAt s t.text t.position := by
  obtain ⟨before, after, hscan⟩ := List.append_of_mem h
  obtain ⟨hs, hplace⟩ := split_of_scan hscan
  exact ⟨joined before, joined after, by rw [hs, joined_cons, String.append_assoc],
    (hplace t rfl).symm⟩

/-- Tokens leave no gap: every character of their texts lies in one of them. -/
theorem exists_token_of_char {start : ℕ} {ts : List Token} {before after : List Char} {c : Char}
    (hp : Placed start ts)
    (h : ts.flatMap (fun t => t.text.toList) = before ++ c :: after) :
    ∃ t ∈ ts, c ∈ t.text.toList ∧ t.position ≤ start + byteLength before ∧
      start + byteLength before < t.finish := by
  -- By induction on the tokens: the character lies in the first of them, or behind it.
  induction ts generalizing start before with
  | nil => simp at h
  | cons t ts ih =>
    obtain ⟨rfl, hts⟩ := placed_cons.mp hp
    have hsize : byteLength t.text.toList = t.text.utf8ByteSize := by simp [byteLength]
    rw [List.flatMap_cons] at h
    rcases List.append_eq_append_iff.mp h with ⟨more, hbefore, hrest⟩ | ⟨more, ht, hrest⟩
    · obtain ⟨u, hu, hc, hle, hlt⟩ := ih hts hrest
      have hlength : byteLength before = t.text.utf8ByteSize + byteLength more := by
        rw [hbefore, byteLength_append, hsize]
      exact ⟨u, by simp [hu], hc, by omega, by omega⟩
    · have hlength : t.text.utf8ByteSize = byteLength before + byteLength more := by
        rw [← hsize, ht, byteLength_append]
      cases more with
      | nil =>
        have hnext : ts.flatMap (fun t => t.text.toList) = [] ++ c :: after := by
          simpa using hrest.symm
        obtain ⟨u, hu, hc, hle, hlt⟩ := ih hts hnext
        have hnil : byteLength [] = 0 := rfl
        exact ⟨u, by simp [hu], hc, by omega, by omega⟩
      | cons d more =>
        obtain ⟨rfl, -⟩ := List.cons.inj hrest
        have hpos : 0 < byteLength (c :: more) := byteLength_pos (by simp)
        refine ⟨t, by simp, by simp [ht], by omega, ?_⟩
        rw [Token.finish]
        omega

/-- Every character outside of the tokens that mean something is white space. -/
theorem blank_of_outside {s before after : String} {c : Char}
    (hs : s = before ++ String.singleton c ++ after)
    (h : ∀ t ∈ tokens s, ¬ (t.position ≤ before.utf8ByteSize ∧ before.utf8ByteSize < t.finish)) :
    Text.isBlank c = true := by
  have hscan := isTokenisation_scan s
  have hchars : (scan s).flatMap (fun t => t.text.toList) =
      before.toList ++ c :: after.toList := by
    have hjoin := congrArg String.toList hscan.join
    rw [String.toList_join, List.flatMap_map] at hjoin
    rw [hjoin, hs]
    simp
  obtain ⟨t, ht, hc, hle, hlt⟩ := exists_token_of_char hscan.placed hchars
  have hsize : byteLength before.toList = before.utf8ByteSize := by simp [byteLength]
  rw [Nat.zero_add, hsize] at hle hlt
  have hkind : t.kind = .whitespace := by
    by_contra hne
    exact h t (List.mem_filter.mpr ⟨ht, by simpa using hne⟩) ⟨hle, hlt⟩
  have hblank := hscan.allows t ht
  rw [hkind] at hblank
  exact hblank c hc

/-- A text has one tokenisation, and it is cut into that. Tokens stand where they do in the text,
white space alone is outside of those that mean something, and the longest match at the front of the
rest, which is never empty, makes the same tokens from first to last. -/
theorem scan_is_only_tokenisation (s : String) :
    (∀ ts, IsTokenisation s ts ↔ ts = scan s) ∧
    (∀ t ∈ scan s, StandsAt s t.text t.position) ∧
    tokens s = (scan s).filter (fun t => t.kind ≠ .whitespace) ∧
    (∀ before c after, s = before ++ String.singleton c ++ after →
      (∀ t ∈ tokens s, ¬ (t.position ≤ before.utf8ByteSize ∧ before.utf8ByteSize < t.finish)) →
      Text.isBlank c = true) ∧
    munch 0 s.toList = scan s ∧
    ∀ cs, cs ≠ [] → (longest cs).2 ≠ [] ∧ (longest cs).2 <+: cs := by
  refine ⟨fun ts => ⟨IsTokenisation.eq_scan, ?_⟩, fun t => standsAt_of_mem_scan, rfl,
    fun before c after => blank_of_outside, munch_eq_place 0 _, ?_⟩
  · rintro rfl
    exact isTokenisation_scan s
  · intro cs h
    exact ⟨longest_ne_nil h, longest_isPrefix cs⟩

end Calculator
