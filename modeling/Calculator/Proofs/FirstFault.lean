import Calculator.Proofs.Acceptance
import Calculator.Proofs.Limits

namespace Calculator

variable {limit : ℕ∞} {p : Phrase} {d : ℕ} {ts us : List Token}

/-- Whether some expression starts with these tokens, nested as deeply as it may be. -/
def Viable (ts : List Token) : Prop := ∃ more e, Derives ⊤ (.chain .sum) 0 (ts ++ more) e

def Token.operand : Token := ⟨.identifier, "e", 0⟩

def Token.closing : Token := ⟨.rightParen, ")", 0⟩

theorem derives_operand (d : ℕ) : Derives ⊤ .unary d [.operand] (.number Number.e) :=
  .constant le_top rfl rfl

theorem opens_closing {e : Expr} (ho : Opens us) (h : Derives ⊤ (.chain .sum) (d + 1) ts e) :
    ∃ e', Derives ⊤ .unary d (us ++ (ts ++ [.closing])) e' := by
  cases ho with
  | group hl => exact ⟨e, .group le_top hl h rfl⟩
  | @call t l ht hx hl => exact ⟨.call t.text e, .call le_top ht hx hl h rfl⟩

/-- What was taken before a break can be completed, unless it was broken off for its depth: the
phrase that was being read is given an operand, and every open parenthesis is closed. -/
theorem Breaks.completable {next : Option Token} {f : Fault} (h : Breaks limit p d us next f)
    (hf : f ≠ .tooDeep) : ∃ more e, Derives ⊤ p d (us ++ more) e := by
  -- By induction on the way to the fault: what completes the innermost phrase completes those
  -- around it, except that each open parenthesis needs one more token.
  induction h with
  | @first c d us next f _ ih =>
    obtain ⟨more, e, h⟩ := ih hf
    exact ⟨more, e, .chain (.first h)⟩
  | @link c n d us t vs o left next f hl ho _ ih =>
    obtain ⟨more, e, h⟩ := ih hf
    have hlink := Derives.link (hl.mono le_top) ho h
    exact ⟨more, .binary o left e, .chain (by simpa using hlink)⟩
  | base _ ih =>
    obtain ⟨more, e, h⟩ := ih hf
    exact ⟨more, e, .base h⟩
  | @exponent d us t vs base next f hb ht _ ih =>
    obtain ⟨more, e, h⟩ := ih hf
    have hpower := Derives.power (hb.mono le_top) ht h
    exact ⟨more, .binary .power base e, by simpa using hpower⟩
  | tooDeep => exact absurd rfl hf
  | sign _ ht _ ih =>
    obtain ⟨more, e, h⟩ := ih hf
    rcases ht with ht | ht
    · exact ⟨more, e, .plus le_top ht h⟩
    · exact ⟨more, e.negated, .minus le_top ht h⟩
  | noOperand | malformed => exact ⟨[.operand], .number Number.e, derives_operand _⟩
  | @noArgument d t next _ ht hx _ =>
    have hopen : Opens [t, ⟨.leftParen, "(", 0⟩] := .call ht hx rfl
    obtain ⟨e, h⟩ := opens_closing hopen (derives_sum_of_unary (derives_operand (d + 1)))
    exact ⟨_, e, h⟩
  | inside _ ho _ ih =>
    obtain ⟨more, e, h⟩ := ih hf
    obtain ⟨e', h'⟩ := opens_closing ho h
    exact ⟨more ++ [.closing], e', by simpa using h'⟩
  | unclosed _ ho h _ _ =>
    obtain ⟨e', h'⟩ := opens_closing ho (h.mono le_top)
    exact ⟨[.closing], e', by simpa using h'⟩

theorem Fails.viable {next : Option Token} {f : Fault} (h : Fails limit us next f)
    (hf : f ≠ .tooDeep) : Viable us := by
  cases h with
  | breaks h => exact h.completable hf
  | trailing h _ => exact ⟨[], _, by simpa using h.mono le_top⟩

/-- Tokens that fail are not of the grammar, whatever follows the token that they fail at. -/
theorem Fails.not_derives {limit : ℕ} {rest : List Token} {f : Fault}
    (h : Fails limit us rest.head? f) (hf : f ≠ .tooDeep) (e : Expr) :
    ¬ Derives ⊤ (.chain .sum) 0 (us ++ rest) e := by
  intro hd
  have hfail := readAll_of_fails h
  -- A text of the grammar fails for its depth alone.
  rcases readAll_or_tooDeep hd limit with hok | ⟨rest', hdeep⟩
  · exact absurd (hok.symm.trans hfail) (by simp)
  · exact hf (congrArg Failure.fault (Except.error.inj (hfail.symm.trans hdeep)))

theorem Fails.not_viable {limit : ℕ} {t : Token} {f : Fault} (h : Fails limit us (some t) f)
    (hf : f ≠ .tooDeep) : ¬ Viable (us ++ [t]) := by
  rintro ⟨more, e, hd⟩
  rw [List.append_assoc, List.singleton_append] at hd
  have hhead : Fails limit us (t :: more).head? f := h
  exact hhead.not_derives hf e hd

def SyntaxError.position? : SyntaxError → Option ℕ
  | .unexpectedEnd => none
  | .unexpectedToken _ p | .expectedToken _ _ p | .missingArgument _ p | .malformedNumber _ p
  | .trailingInput _ p | .tooDeep p => some p

theorem position_of_toError {f : Failure} {finish p : ℕ}
    (h : p ∈ (f.toError finish).position?) : p = f.position finish := by
  obtain ⟨fault, rest⟩ := f
  cases fault <;> cases rest <;>
    simp_all [Failure.toError, Failure.position, SyntaxError.position?]

theorem toError_eq_tooDeep {f : Failure} {finish : ℕ} (h : f.fault = .tooDeep) :
    ∃ p, f.toError finish = .tooDeep p :=
  ⟨f.position finish, by simp only [Failure.toError, h]⟩

theorem toError_cons (fault : Fault) (t : Token) (ts us : List Token) (m n : ℕ) :
    Failure.toError ⟨fault, t :: ts⟩ m = Failure.toError ⟨fault, t :: us⟩ n := by
  cases fault <;> rfl

/-- The errors that tell of an end of the text are made where there are no tokens left. -/
theorem rest_eq_nil_of_toError {f : Failure} {finish : ℕ}
    (h : f.toError finish = .unexpectedEnd ∨ ∃ w p, f.toError finish = .expectedToken w none p) :
    f.rest = [] := by
  obtain ⟨fault, rest⟩ := f
  cases fault <;> cases rest <;> simp_all [Failure.toError]

/-- What an error says of the tokens: those before the failure, `seen`, start an expression, and
with the token at fault, which the error names the place of, they no longer do. Any tokens that
agree so far meet with the same error. An error that tells of the end is made there. -/
structure FaultAfter (ts seen : List Token) (f : Failure) (err : SyntaxError) : Prop where
  split : ts = seen ++ f.rest
  error : err = f.toError (endOf ts)
  position : ∀ p ∈ err.position?, p = f.position (endOf ts)
  viable : (∀ p, err ≠ .tooDeep p) → Viable seen
  not_viable : (∀ p, err ≠ .tooDeep p) → ∀ t ∈ f.rest.head?, ¬ Viable (seen ++ [t])
  forced : ∀ t ∈ f.rest.head?, ∀ more, Expr.ofTokens (seen ++ t :: more) = .error err
  at_end : (err = .unexpectedEnd ∨ ∃ w p, err = .expectedToken w none p) → f.rest = []
  unfinished : (err = .unexpectedEnd ∨ (∃ w p, err = .expectedToken w none p) ∨
      f.rest = [] ∧ ∃ n p, err = .missingArgument n p) →
    (∃ t more e, Derives ⊤ (.chain .sum) 0 (ts ++ t :: more) e) ∧
      ∀ e, ¬ Derives ⊤ (.chain .sum) 0 ts e

theorem unfinished_of_fails {limit : ℕ} {f : Fault} (h : Fails limit ts none f)
    (hf : f ≠ .tooDeep) :
    (∃ t more e, Derives ⊤ (.chain .sum) 0 (ts ++ t :: more) e) ∧
      ∀ e, ¬ Derives ⊤ (.chain .sum) 0 ts e := by
  have hend (e : Expr) : ¬ Derives ⊤ (.chain .sum) 0 ts e := by
    have hnone : Fails limit ts ([] : List Token).head? f := h
    have hnot := hnone.not_derives hf e
    rwa [List.append_nil] at hnot
  refine ⟨?_, hend⟩
  obtain ⟨more, e, hd⟩ := h.viable hf
  cases more with
  | nil =>
    rw [List.append_nil] at hd
    exact absurd hd (hend e)
  | cons t more => exact ⟨t, more, e, hd⟩

/-- Every syntax error is made at the first token that no expression could have there, or at the end
of tokens that some expression starts with, and does not depend on what follows. -/
theorem ofTokens_error_at_first_fault {ts : List Token} {err : SyntaxError}
    (h : Expr.ofTokens ts = .error err) :
    ∃ f seen, readAll maxDepth ts = .error f ∧ FaultAfter ts seen f err := by
  obtain ⟨f, hf, rfl⟩ := ofTokensWithin_eq_error_iff.mp h
  obtain ⟨seen, hts, hfails⟩ := readAll_eq_error_iff.mp hf
  -- A nesting error is made of no other fault.
  have hdeep {n : ℕ} (hne : ∀ p, f.toError n ≠ .tooDeep p) : f.fault ≠ .tooDeep := by
    intro hfault
    obtain ⟨p, hp⟩ := toError_eq_tooDeep hfault
    exact hne p hp
  refine ⟨f, seen, hf, hts, rfl, fun p => position_of_toError, ?_, ?_, ?_,
    rest_eq_nil_of_toError, ?_⟩
  · intro hne
    exact hfails.viable (hdeep hne)
  · intro hne t ht
    rw [ht] at hfails
    exact hfails.not_viable (hdeep hne)
  · intro t ht more
    obtain ⟨rest, hrest⟩ := List.head?_eq_some_iff.mp ht
    rw [ht] at hfails
    have hread : readAll maxDepth (seen ++ t :: more) = _ := readAll_of_fails hfails
    refine ofTokensWithin_eq_error_iff.mpr ⟨_, hread, ?_⟩
    obtain ⟨fault, frest⟩ := f
    subst hrest
    exact toError_cons fault t more rest _ _
  · -- The three errors at the end of the text are no nesting errors, and no tokens are left there.
    intro hend
    have hne : ∀ p, f.toError (endOf ts) ≠ .tooDeep p := by
      intro p hp
      simp [hp] at hend
    have hrest : f.rest = [] := by
      rcases hend with h | h | h
      · exact rest_eq_nil_of_toError (.inl h)
      · exact rest_eq_nil_of_toError (.inr h)
      · exact h.1
    rw [hrest] at hfails
    rw [hts, hrest, List.append_nil]
    exact unfinished_of_fails hfails (hdeep hne)

/-- After a constant a parenthesis that was never opened is at fault. -/
theorem closing_after_constant_fault :
    Expr.ofTokens [.operand, ⟨.rightParen, ")", 1⟩] = .error (.trailingInput ")" 1) ∧
      ∃ f seen, readAll maxDepth [.operand, ⟨.rightParen, ")", 1⟩] = .error f ∧
        FaultAfter [.operand, ⟨.rightParen, ")", 1⟩] seen f (.trailingInput ")" 1) :=
  have h : Expr.ofTokens [.operand, ⟨.rightParen, ")", 1⟩] = .error (.trailingInput ")" 1) := rfl
  ⟨h, ofTokens_error_at_first_fault h⟩

end Calculator
