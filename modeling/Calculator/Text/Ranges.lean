namespace Calculator.Text

/-- Ranges of code points, both ends included, in increasing order. -/
abbrev Ranges := List (Nat × Nat)

namespace Ranges

/-- Whether a code point lies in one of the ranges. Since they increase, a code point below the
first of them is in none. -/
def has : Ranges → Nat → Bool
  | [], _ => false
  | (first, last) :: rest, n => first ≤ n && (n ≤ last || has rest n)

theorem has_nil (n : Nat) : has [] n = false := rfl

theorem has_cons (first last n : Nat) (rest : Ranges) :
    has ((first, last) :: rest) n = (decide (first ≤ n) && (decide (n ≤ last) || has rest n)) := rfl

/-- A code point that is found lies between the ends of a range of the list. -/
theorem exists_of_has {ranges : Ranges} {n : Nat} (h : ranges.has n = true) :
    ∃ r ∈ ranges, r.1 ≤ n ∧ n ≤ r.2 := by
  induction ranges with
  | nil => simp [has_nil] at h
  | cons r rest ih =>
    obtain ⟨first, last⟩ := r
    simp only [has_cons, Bool.and_eq_true, Bool.or_eq_true, decide_eq_true_eq] at h
    obtain ⟨hfirst, hlast | hrest⟩ := h
    · exact ⟨(first, last), by simp, hfirst, hlast⟩
    · obtain ⟨r, hr, hb⟩ := ih hrest
      exact ⟨r, by simp [hr], hb⟩

end Ranges

end Calculator.Text
