import Mathlib.Data.List.Basic

namespace Calculator

def byteLength (cs : List Char) : ℕ := (String.ofList cs).utf8ByteSize

theorem byteLength_pos {cs : List Char} (h : cs ≠ []) : 0 < byteLength cs := by
  simp [byteLength, Nat.pos_iff_ne_zero, h]

theorem byteLength_append (cs ds : List Char) :
    byteLength (cs ++ ds) = byteLength cs + byteLength ds := by
  simp [byteLength]

def StandsAt (s text : String) (p : ℕ) : Prop :=
  ∃ before after, s = before ++ text ++ after ∧ before.utf8ByteSize = p

theorem StandsAt.end_le {s text : String} {p : ℕ} (h : StandsAt s text p) :
    p + text.utf8ByteSize ≤ s.utf8ByteSize := by
  obtain ⟨before, after, rfl, rfl⟩ := h
  simp only [String.utf8ByteSize_append]
  omega

/-- The byte where a piece of text stands is the first of a character, or the end of the text. -/
theorem StandsAt.isValid {s text : String} {p : ℕ} (h : StandsAt s text p) :
    (⟨p⟩ : String.Pos.Raw).IsValid s := by
  obtain ⟨before, after, rfl, rfl⟩ := h
  rw [String.append_assoc]
  exact String.Pos.Raw.isValid_rawEndPos.append_right _

theorem StandsAt.after {s text : String} {p : ℕ} (h : StandsAt s text p) :
    StandsAt s "" (p + text.utf8ByteSize) := by
  obtain ⟨before, after, rfl, rfl⟩ := h
  exact ⟨before ++ text, after, by simp, by simp⟩

/-- Parts of a text that are equally long and stand at its front are the same. -/
theorem eq_of_append_eq {as bs cs ds : List Char} (h : as ++ cs = bs ++ ds)
    (hlength : byteLength as = byteLength bs) : as = bs ∧ cs = ds := by
  have hnil (xs : List Char) (hx : byteLength xs = 0) : xs = [] := by
    by_contra hne
    have hpos := byteLength_pos hne
    omega
  rcases List.append_eq_append_iff.mp h with ⟨more, rfl, rfl⟩ | ⟨more, rfl, rfl⟩
  · rw [byteLength_append] at hlength
    obtain rfl := hnil more (by omega)
    simp
  · rw [byteLength_append] at hlength
    obtain rfl := hnil more (by omega)
    simp

/-- What stands at a byte is what a text goes on with from there. -/
theorem StandsAt.of_append {x r text : String} (h : StandsAt (x ++ r) text x.utf8ByteSize) :
    ∃ more, r = text ++ more := by
  obtain ⟨before, after, hs, hlength⟩ := h
  refine ⟨after, ?_⟩
  have hchars : x.toList ++ r.toList = before.toList ++ (text ++ after).toList := by
    simpa using congrArg String.toList hs
  have heq := eq_of_append_eq hchars (by simpa [byteLength] using hlength.symm)
  exact String.toList_inj.mp heq.2

/-- Of texts that stand at one place each starts as the other does. -/
theorem StandsAt.head_eq {s a b : String} {p : ℕ} (ha : StandsAt s a p) (hb : StandsAt s b p)
    (hane : a ≠ "") (hbne : b ≠ "") : a.toList.head? = b.toList.head? := by
  obtain ⟨x, y, rfl, rfl⟩ := ha
  rw [String.append_assoc] at hb
  obtain ⟨more, hmore⟩ := hb.of_append
  have hhead := congrArg (fun r => r.toList.head?) hmore
  have ha : a.toList ≠ [] := by simpa using hane
  have hb : b.toList ≠ [] := by simpa using hbne
  simpa only [String.toList_append, List.head?_append_of_ne_nil _ ha,
    List.head?_append_of_ne_nil _ hb] using hhead

end Calculator
