import Mathlib.Algebra.GroupWithZero.Nat
import Mathlib.Data.List.Basic
import Calculator.Session

/-!
The lines of a text and the lines of its bytes. A text is cut after each line feed, and its bytes
after each byte 10. In UTF-8 that byte is a line feed and no part of any other character, so the
two cuts are one, and each line of the bytes is the text of a line.
-/

namespace Calculator

def encoded (cs : List Char) : List UInt8 := cs.flatMap String.utf8EncodeChar

theorem toByteArray_eq_encoded (s : String) : s.toByteArray = ⟨(encoded s.toList).toArray⟩ := by
  rw [← String.utf8Encode_toList, List.utf8Encode]
  exact ByteArray.ext (List.data_toByteArray ..)

theorem length_encoded (s : String) : (encoded s.toList).length = s.utf8ByteSize := by
  rw [← String.size_toByteArray, toByteArray_eq_encoded]
  rfl

/-- Bytes are decoded as a text if and only if they are the bytes of the text. -/
theorem decode_eq_some_iff {bytes : List UInt8} {s : String} :
    decode bytes = some s ↔ bytes = encoded s.toList := by
  constructor
  · intro h
    rw [decode, String.fromUTF8?] at h
    split_ifs at h with hvalid
    have hbytes : (⟨bytes.toArray⟩ : ByteArray) = ⟨(encoded s.toList).toArray⟩ := by
      rw [← toByteArray_eq_encoded, ← Option.some.inj h]
      rfl
    exact List.toArray_inj (congrArg ByteArray.data hbytes)
  · rintro rfl
    have hbytes := toByteArray_eq_encoded s
    have hvalid : (⟨(encoded s.toList).toArray⟩ : ByteArray).IsValidUTF8 := hbytes ▸ s.isValidUTF8
    rw [decode, String.fromUTF8?, dif_pos hvalid, Option.some.injEq, ← String.toByteArray_inj]
    exact hbytes.symm

theorem eq_newline_of_mem {c : Char} (h : 10 ∈ String.utf8EncodeChar c) : c = '\n' := by
  have hbyte {n : ℕ} (hn : 10 = UInt8.ofNat n) : n % 256 = 10 := by
    have := congrArg UInt8.toNat hn
    simpa using this.symm
  have hhigh {n : ℕ} (hn : 128 ≤ n % 256) : 10 ≠ UInt8.ofNat n := by
    intro heq
    have := hbyte heq
    omega
  rw [String.utf8EncodeChar] at h
  split_ifs at h with h₁ h₂ h₃
  · have hcode : c.val.toNat = 10 := by
      have := hbyte (List.mem_singleton.mp h)
      omega
    exact Char.ext (UInt32.toNat_inj.mp hcode)
  -- Every byte of a longer character is 128 or more.
  all_goals
    refine absurd h ?_
    simp only [List.mem_cons, List.not_mem_nil, or_false, not_or]
  · exact ⟨hhigh (by omega), hhigh (by omega)⟩
  · exact ⟨hhigh (by omega), hhigh (by omega), hhigh (by omega)⟩
  · exact ⟨hhigh (by omega), hhigh (by omega), hhigh (by omega), hhigh (by omega)⟩

def prepend {α : Type} (xs : List α) : List (List α) → List (List α)
  | [] => [xs]
  | line :: lines => (xs ++ line) :: lines

theorem flatten_prepend {α : Type} (xs : List α) (lines : List (List α)) :
    (prepend xs lines).flatten = xs ++ lines.flatten := by
  cases lines <;> simp [prepend]

theorem prepend_prepend {α : Type} (xs ys : List α) (lines : List (List α)) :
    prepend xs (prepend ys lines) = prepend (xs ++ ys) lines := by
  cases lines <;> simp [prepend]

theorem prepend_ne_nil {α : Type} (xs : List α) (lines : List (List α)) :
    prepend xs lines ≠ [] := by
  cases lines <;> exact List.cons_ne_nil _ _

theorem prepend_append {α : Type} (xs : List α) {lines : List (List α)} (more : List (List α))
    (hne : lines ≠ []) : prepend xs (lines ++ more) = prepend xs lines ++ more := by
  cases lines with
  | nil => exact absurd rfl hne
  | cons line lines => rfl

theorem map_flatMap_prepend {α β : Type} (f : α → List β) (xs : List α) (lines : List (List α)) :
    (prepend xs lines).map (List.flatMap f) =
      prepend (xs.flatMap f) (lines.map (List.flatMap f)) := by
  cases lines <;> simp [prepend]

section CutAfter

variable {α : Type} [DecidableEq α] {stop : α}

/-- Cuts a list after each stop. What follows the last stop is the last line. -/
def cutAfter (stop : α) : List α → List (List α)
  | [] => []
  | x :: xs => if x = stop then [x] :: cutAfter stop xs else prepend [x] (cutAfter stop xs)

theorem flatten_cutAfter (xs : List α) : (cutAfter stop xs).flatten = xs := by
  induction xs with
  | nil => rfl
  | cons x xs ih =>
    rw [cutAfter]
    split_ifs
    · rw [List.flatten_cons, ih, List.singleton_append]
    · rw [flatten_prepend, ih, List.singleton_append]

theorem cutAfter_append {xs : List α} (rest : List α) (hne : xs ≠ []) (hxs : stop ∉ xs) :
    cutAfter stop (xs ++ rest) = prepend xs (cutAfter stop rest) := by
  induction xs with
  | nil => exact absurd rfl hne
  | cons x xs ih =>
    rw [List.mem_cons, not_or] at hxs
    rw [List.cons_append, cutAfter, if_neg (Ne.symm hxs.1)]
    cases xs with
    | nil => rfl
    | cons y xs => rw [ih (List.cons_ne_nil _ _) hxs.2, prepend_prepend, List.singleton_append]

theorem cutAfter_cons_ne_nil (x : α) (xs : List α) : cutAfter stop (x :: xs) ≠ [] := by
  rw [cutAfter]
  split_ifs
  · exact List.cons_ne_nil _ _
  · exact prepend_ne_nil _ _

theorem cutAfter_append_of_getLast? {xs : List α} (rest : List α)
    (hxs : xs.getLast? = some stop) :
    cutAfter stop (xs ++ rest) = cutAfter stop xs ++ cutAfter stop rest := by
  induction xs with
  | nil => simp at hxs
  | cons x xs ih =>
    rw [List.cons_append, cutAfter, cutAfter]
    cases xs with
    | nil =>
      have hx : x = stop := by simpa using hxs
      simp [hx, cutAfter]
    | cons y xs =>
      rw [ih (by rwa [List.getLast?_cons_cons] at hxs)]
      split_ifs
      · rfl
      · exact prepend_append _ _ (cutAfter_cons_ne_nil y xs)

/-- The first lines of a text are the lines of the text that they make up. -/
theorem cutAfter_flatten {xs : List α} {lines : List (List α)} (h : lines <+: cutAfter stop xs) :
    cutAfter stop lines.flatten = lines := by
  induction xs generalizing lines with
  | nil =>
    obtain rfl := List.prefix_nil.mp h
    rfl
  | cons x xs ih =>
    cases lines with
    | nil => rfl
    | cons line lines =>
      rw [cutAfter] at h
      split_ifs at h with hx
      · obtain ⟨rfl, hlines⟩ := List.cons_prefix_cons.mp h
        rw [List.flatten_cons, List.singleton_append, cutAfter, if_pos hx, ih hlines]
      · -- The character goes to the front of a line that is cut already, or is the last line.
        cases hcut : cutAfter stop xs with
        | nil =>
          rw [hcut, prepend] at h
          obtain ⟨rfl, hlines⟩ := List.cons_prefix_cons.mp h
          obtain rfl := List.prefix_nil.mp hlines
          simp [cutAfter, hx, prepend]
        | cons body rest =>
          rw [hcut, prepend] at h
          obtain ⟨rfl, hlines⟩ := List.cons_prefix_cons.mp h
          have hrest := ih (hcut ▸ List.cons_prefix_cons.mpr ⟨rfl, hlines⟩)
          rw [List.flatten_cons] at hrest
          rw [List.flatten_cons, List.append_assoc, List.singleton_append, cutAfter, if_neg hx,
            hrest, prepend]

end CutAfter

theorem cutLines_eq (bytes : List UInt8) : cutLines bytes = cutAfter 10 bytes := by
  induction bytes with
  | nil => rfl
  | cons b bytes ih =>
    rw [cutLines, List.foldr_cons, ← cutLines, ih, cutAfter]
    cases cutAfter 10 bytes <;> rfl

/-- The lines of the bytes of a text are the bytes of its lines. -/
theorem cutLines_encoded (cs : List Char) :
    cutLines (encoded cs) = (cutAfter '\n' cs).map encoded := by
  rw [cutLines_eq]
  induction cs with
  | nil => rfl
  | cons c cs ih =>
    rw [encoded, List.flatMap_cons, ← encoded, cutAfter]
    split_ifs with hc
    · subst hc
      exact congrArg (encoded ['\n'] :: ·) ih
    · -- None of its bytes ends a line, so they all go to the front of the first line.
      have hbytes : [c].flatMap String.utf8EncodeChar = String.utf8EncodeChar c := by simp
      rw [cutAfter_append _ String.utf8EncodeChar_ne_nil (hc ∘ eq_newline_of_mem), ih, ← hbytes]
      exact (map_flatMap_prepend ..).symm

/-- A list is cut into lines: each ends in its only stop, but the last may have none. -/
inductive Cut {α : Type} (stop : α) : List α → List (List α) → Prop
  | nil : Cut stop [] []
  | last {line} (hne : line ≠ []) (hline : stop ∉ line) : Cut stop line [line]
  | line {body rest lines} (hbody : stop ∉ body) (hrest : Cut stop rest lines) :
      Cut stop (body ++ stop :: rest) ((body ++ [stop]) :: lines)

section Cut

variable {α : Type} {stop : α} {xs : List α} {lines : List (List α)}

theorem Cut.cons {x : α} (h : Cut stop xs lines) (hx : stop ≠ x) :
    Cut stop (x :: xs) (prepend [x] lines) := by
  have hmem {body : List α} (hbody : stop ∉ body) : stop ∉ x :: body := by
    simp [hx, hbody]
  cases h with
  | nil => exact .last (List.cons_ne_nil _ _) (hmem List.not_mem_nil)
  | last _ hline => exact .last (List.cons_ne_nil _ _) (hmem hline)
  | line hbody hrest => exact .line (hmem hbody) hrest

/-- The cut of a list into lines is the only one. -/
theorem cut_iff [DecidableEq α] : Cut stop xs lines ↔ lines = cutAfter stop xs := by
  constructor
  · intro h
    induction h with
    | nil => rfl
    | last hne hline => simpa [cutAfter, prepend] using (cutAfter_append [] hne hline).symm
    | @line body rest lines hbody hrest ih =>
      have hend : cutAfter stop (stop :: rest) = [stop] :: lines := by
        rw [cutAfter, if_pos rfl, ih]
      cases body with
      | nil => exact hend.symm
      | cons x body => rw [cutAfter_append _ (List.cons_ne_nil _ _) hbody, hend, prepend]
  · rintro rfl
    induction xs with
    | nil => exact .nil
    | cons x xs ih =>
      rw [cutAfter]
      split_ifs with hx
      · subst hx
        exact .line List.not_mem_nil ih
      · exact ih.cons (Ne.symm hx)

end Cut

def linesOf (s : String) : List String := (cutAfter '\n' s.toList).map String.ofList

theorem cut_cutLines (input : List UInt8) : Cut 10 input (cutLines input) :=
  cut_iff.mpr (cutLines_eq input)

theorem cut_linesOf (s : String) (lines : List String) :
    Cut '\n' s.toList (lines.map String.toList) ↔ lines = linesOf s := by
  rw [cut_iff, linesOf]
  constructor
  · intro h
    rw [← h]
    simp
  · rintro rfl
    simp

theorem linesOf_append {s : String} (more : String) (hs : s.toList.getLast? = some '\n') :
    linesOf (s ++ more) = linesOf s ++ linesOf more := by
  rw [linesOf, String.toList_append, cutAfter_append_of_getLast? _ hs, List.map_append]
  rfl

/-- A line with its line feed is the first of a text that it stands at the front of. -/
theorem linesOf_line {body : String} (rest : String) (hbody : '\n' ∉ body.toList) :
    linesOf (body ++ "\n" ++ rest) = (body ++ "\n") :: linesOf rest := by
  symm
  rw [← cut_linesOf]
  have hcut := Cut.line hbody ((cut_linesOf rest _).mpr rfl)
  simpa using hcut

theorem linesOf_single {s : String} (hne : s ≠ "") (hline : '\n' ∉ s.toList) :
    linesOf s = [s] := by
  have hcut := cutAfter_append [] (by simpa using hne) hline
  rw [List.append_nil] at hcut
  rw [linesOf, hcut]
  simp [cutAfter, prepend]

theorem cutLines_eq_linesOf (s : String) :
    cutLines (encoded s.toList) = (linesOf s).map fun line => encoded line.toList := by
  rw [cutLines_encoded, linesOf]
  simp

theorem sum_utf8ByteSize_linesOf (s : String) :
    ((linesOf s).map String.utf8ByteSize).sum = (encoded s.toList).length := by
  have hlengths : (linesOf s).map String.utf8ByteSize =
      (cutLines (encoded s.toList)).map List.length := by
    rw [cutLines_eq_linesOf, List.map_map]
    exact List.map_congr_left fun line _ => (length_encoded line).symm
  rw [hlengths, ← List.length_flatten, cutLines_eq, flatten_cutAfter]

end Calculator
