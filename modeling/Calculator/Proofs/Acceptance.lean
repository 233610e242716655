import Calculator.Proofs.Soundness
import Calculator.Proofs.Completeness

namespace Calculator

variable {limit : ℕ} {ts : List Token}

/-- How a text fails: its sum breaks, or ends before a token that cannot carry it on. -/
inductive Fails (limit : ℕ∞) : List Token → Option Token → Fault → Prop
  | breaks {us next f} (h : Breaks limit (.chain .sum) 0 us next f) : Fails limit us next f
  | trailing {us e t} (h : Derives limit (.chain .sum) 0 us e)
      (he : (Phrase.chain .sum).Ends (some t)) : Fails limit us (some t) (.trailing t.text)

theorem readAll_of_derives {e : Expr} (h : Derives limit (.chain .sum) 0 ts e) :
    readAll limit ts = .ok e := by
  have hread := readsAs_of_derives h (limit + 1) [] (by omega) (ends_none _)
  rw [List.append_nil] at hread
  simp only [readAll]
  rw [show (Level.withRoom (limit + 1)).sum ts = _ from hread]
  rfl

theorem readAll_of_fails {us rest : List Token} {f : Fault} (h : Fails limit us rest.head? f) :
    readAll limit (us ++ rest) = .error ⟨f, rest⟩ := by
  generalize hn : rest.head? = next at h
  cases h with
  | breaks h =>
    have hread := read_of_breaks h (limit + 1) rest (by omega) hn
    simp only [readAll]
    rw [show (Level.withRoom (limit + 1)).sum (us ++ rest) = _ from hread]
    rfl
  | @trailing _ t h he =>
    have hread := readsAs_of_derives h (limit + 1) rest (by omega) (hn ▸ he)
    obtain ⟨rest, rfl⟩ := List.head?_eq_some_iff.mp hn
    simp only [readAll]
    rw [show (Level.withRoom (limit + 1)).sum (us ++ t :: rest) = _ from hread]
    rfl

/-- Reading a text comes to an expression or to a failure, and the grammar says so either way. -/
theorem readAll_sound (limit : ℕ) (ts : List Token) :
    (∃ e, readAll limit ts = .ok e ∧ Derives limit (.chain .sum) 0 ts e) ∨
      ∃ us f, ts = us ++ f.rest ∧ readAll limit ts = .error f ∧
        Fails limit us f.rest.head? f.fault := by
  -- What the reader of sums took derives or breaks, and what is left decides how the text fails.
  have hsum := (sound_withRoom limit (limit + 1) 0 (by omega)).chain .sum ts
  cases hr : (Level.withRoom (limit + 1)).chain .sum ts with
  | error f =>
    rw [hr] at hsum
    obtain ⟨us, hts, hb⟩ := hsum
    have hfails : Fails limit us f.rest.head? f.fault := .breaks hb
    exact .inr ⟨us, f, hts, hts ▸ readAll_of_fails hfails, hfails⟩
  | ok r =>
    rw [hr] at hsum
    obtain ⟨us, hts, hd, he⟩ := hsum
    obtain ⟨e, rest⟩ := r
    cases rest with
    | nil =>
      obtain rfl : ts = us := hts.trans (List.append_nil us)
      exact .inl ⟨e, readAll_of_derives hd, hd⟩
    | cons t rest =>
      have hfails : Fails limit us (t :: rest).head? (.trailing t.text) := .trailing hd he
      exact .inr ⟨us, ⟨.trailing t.text, t :: rest⟩, hts, hts ▸ readAll_of_fails hfails, hfails⟩

theorem readAll_eq_ok_iff {e : Expr} :
    readAll limit ts = .ok e ↔ Derives limit (.chain .sum) 0 ts e := by
  refine ⟨fun h => ?_, readAll_of_derives⟩
  rcases readAll_sound limit ts with ⟨e', he, hd⟩ | ⟨us, f, -, hf, -⟩
  · obtain rfl : e = e' := Except.ok.inj (h.symm.trans he)
    exact hd
  · exact absurd (h.symm.trans hf) (by simp)

theorem readAll_eq_error_iff {f : Failure} :
    readAll limit ts = .error f ↔
      ∃ us, ts = us ++ f.rest ∧ Fails limit us f.rest.head? f.fault := by
  constructor
  · intro h
    rcases readAll_sound limit ts with ⟨e, he, -⟩ | ⟨us, f', hts, hf, hfails⟩
    · exact absurd (h.symm.trans he) (by simp)
    · obtain rfl : f = f' := Except.error.inj (h.symm.trans hf)
      exact ⟨us, hts, hfails⟩
  · rintro ⟨us, rfl, hfails⟩
    exact readAll_of_fails hfails

theorem ofTokensWithin_eq_ok_iff {e : Expr} :
    Expr.ofTokensWithin limit ts = .ok e ↔ Derives limit (.chain .sum) 0 ts e := by
  rw [← readAll_eq_ok_iff, Expr.ofTokensWithin]
  cases readAll limit ts <;> simp [Except.mapError]

theorem ofTokensWithin_eq_error_iff {err : SyntaxError} :
    Expr.ofTokensWithin limit ts = .error err ↔
      ∃ f, readAll limit ts = .error f ∧ f.toError (endOf ts) = err := by
  rw [Expr.ofTokensWithin]
  cases readAll limit ts <;> simp [Except.mapError]

/-- The tokens of a text are read as an expression if and only if the grammar derives them, all of
them, as a sum at depth zero that makes this expression. So no tokens make two expressions, and none
among which there is white space or a stray character make any. -/
theorem ofTokens_accepts_grammar (ts : List Token) :
    (∀ e, Expr.ofTokens ts = .ok e ↔ Derives maxDepth (.chain .sum) 0 ts e) ∧
    (∀ e e', Derives maxDepth (.chain .sum) 0 ts e → Derives maxDepth (.chain .sum) 0 ts e' →
      e = e') ∧
    ((∃ t ∈ ts, t.kind = .stray ∨ t.kind = .whitespace) →
      ∃ err, Expr.ofTokens ts = .error err) := by
  refine ⟨fun e => ofTokensWithin_eq_ok_iff, ?_, ?_⟩
  · intro e e' h h'
    exact Except.ok.inj ((readAll_of_derives h).symm.trans (readAll_of_derives h'))
  · rintro ⟨t, ht, hk⟩
    cases hr : Expr.ofTokens ts with
    | error err => exact ⟨err, rfl⟩
    | ok e =>
      obtain ⟨hstray, hblank, -⟩ := (ofTokensWithin_eq_ok_iff.mp hr).usable t ht
      exact absurd hk (not_or.mpr ⟨hstray, hblank⟩)

end Calculator
