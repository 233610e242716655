import Calculator.Line
import Calculator.Proofs.Origins
import Calculator.Proofs.StackMachine

namespace Calculator

/-- Whether there is a part of an expression that an error can come from: a division, if it is that
by zero, or a call that fails with the error. -/
def HasCause (table : FunctionTable) (e : Expr) (err : EvalError) : Prop :=
  (err = .divisionByZero ∧ ∃ left right, .binary .divide left right ∈ e.postorder) ∨
    ∃ f argument x, .call f argument ∈ e.postorder ∧ table.call f x = .error err

variable {table : FunctionTable} {e : Expr} {err : EvalError} {f s : String} {x : Float}

/-- An expression without a value has a part that fails. -/
theorem hasCause_of_error (h : e.evalWith table = .error err) : HasCause table e err := by
  have hrun : runCode table e.code [] = .error (.failed err) := by
    rw [runCode_code, settle_eq_error_iff]
    exact h
  -- On the stack, evaluation halts at the step of a node, and numbers do not fail.
  obtain ⟨before, i, after, stack, hcode, -, hstep⟩ := runCode_eq_error_iff.mp hrun
  have hi : i ∈ e.code := by simp [hcode]
  obtain ⟨node, hnode, rfl⟩ := List.mem_map.mp hi
  cases node with
  | number x => simp [Expr.instruction, Instruction.step] at hstep
  | binary o left right =>
    rcases stack with _ | ⟨y, _ | ⟨x, stack⟩⟩
    · simp [Expr.instruction, Instruction.step] at hstep
    · simp [Expr.instruction, Instruction.step] at hstep
    · obtain ⟨rfl, -, rfl⟩ := step_apply_fails_iff.mp hstep
      exact .inl ⟨rfl, left, right, hnode⟩
  | call f argument =>
    rcases stack with _ | ⟨x, stack⟩
    · simp [Expr.instruction, Instruction.step] at hstep
    · rw [Expr.instruction, step_call_eq_settle, settle_eq_error_iff] at hstep
      exact .inr ⟨f, argument, x, hnode, hstep⟩

section Functions

theorem compare_nan (u : Float.Model.UnpackedFloat) :
    Float.nan.toModel.unpack.compare u = none := by
  have hnan : Float.nan.toModel.unpack = .notANumber := by rfl
  rw [hnan]
  rfl

/-- What is not a number is neither below a number nor equal to one. -/
theorem isNaN_eq_false {y : Float} (h : x < y ∨ x ≤ y) : x.isNaN = false := by
  rw [Float.isNaN_eq_decide_eq_nan, decide_eq_false_iff_not]
  rintro rfl
  have hcompare := compare_nan y.toModel.unpack
  rcases h with h | h
  · change (Float.nan.toModel.unpack.compare y.toModel.unpack == some .lt) = true at h
    simp [hcompare] at h
  · change (Float.nan.toModel.unpack.le y.toModel.unpack) = true at h
    simp [Float.Model.UnpackedFloat.le, hcompare] at h

theorem get?_eq_none_iff : table.get? f = none ↔ f ∉ table.names := by
  rw [FunctionTable.get?, FunctionTable.names, List.lookup_eq_none_iff, List.mem_mergeSort]
  simp only [bne_iff_ne, List.mem_map, not_exists, not_and]
  exact forall₂_congr fun p _ => ne_comm

theorem mem_names_of_safe (h : f ∈ ["sin", "cos", "tan", "exp"]) :
    f ∈ FunctionTable.standard.names := by
  rw [FunctionTable.names, List.mem_mergeSort]
  simp only [FunctionTable.standard, List.mem_cons, List.map_cons] at h ⊢
  tauto

/-- How a call can fail: there is no function of the name, or it is one of two and the number is out
of its range. -/
theorem call_eq_error_iff : FunctionTable.standard.call f x = .error err ↔
    (f ∉ FunctionTable.standard.names ∧ err = .unknownFunction f) ∨
    (f = "sqrt" ∧ x < 0 ∧ err = .domain f x "square root of a negative number") ∨
    (f = "log" ∧ x ≤ 0 ∧ err = .domain f x "logarithm of a non-positive number") := by
  rw [FunctionTable.call]
  cases hget : FunctionTable.standard.get? f with
  | none =>
    have hf := get?_eq_none_iff.mp hget
    have hne : f ≠ "sqrt" ∧ f ≠ "log" := by
      constructor <;>
      · rintro rfl
        simp [FunctionTable.get?, FunctionTable.standard, List.lookup_cons] at hget
    simp [hf, hne, eq_comm]
  | some g =>
    have hf : f ∈ FunctionTable.standard.names := by
      by_contra hnot
      simp [get?_eq_none_iff.mpr hnot] at hget
    obtain ⟨before, after, hsplit, -⟩ := List.lookup_eq_some_iff.mp hget
    have hmem : (f, g) ∈ FunctionTable.standard := by simp [hsplit]
    simp only [FunctionTable.standard, List.mem_cons, Prod.mk.injEq, List.not_mem_nil,
      or_false] at hmem
    -- Of the six functions only the last two fail.
    rcases hmem with ⟨rfl, rfl⟩ | ⟨rfl, rfl⟩ | ⟨rfl, rfl⟩ | ⟨rfl, rfl⟩ | ⟨rfl, rfl⟩ | ⟨rfl, rfl⟩
    · simp [hf]
    · simp [hf]
    · simp [hf]
    · simp [hf]
    · by_cases hx : x < 0 <;> simp [hf, squareRoot, hx, eq_comm]
    · by_cases hx : x ≤ 0 <;> simp [hf, naturalLog, hx, eq_comm]

end Functions

/-- Whether what an evaluation error says can be found in a text: a slash, or the name that it gives
before a parenthesis, which is no function, or is one that has no value for the number it gives. -/
def EvalError.FoundIn (s : String) : EvalError → Prop
  | .divisionByZero => ∃ t ∈ tokens s, t.kind = .slash
  | .unknownFunction f => CalledIn (tokens s) f ∧ f ∉ FunctionTable.standard.names
  | .domain f x _ => CalledIn (tokens s) f ∧ x.isNaN = false ∧
      (f = "sqrt" ∧ x < 0 ∨ f = "log" ∧ x ≤ 0)

theorem answer_eq_eval_error_iff {verbose : Bool} :
    answer verbose s = .error (.eval err) ↔ ∃ e, Expr.parse s = .ok e ∧ e.eval = .error err := by
  rw [answer]
  cases Expr.parse s with
  | error err' => simp [Except.mapError, bind, Except.bind]
  | ok e => cases he : e.eval <;> simp [he, Except.mapError, bind, Except.bind, pure, Except.pure]

theorem exists_answer (verbose : Bool) (hs : Expr.parse s = .ok e) (he : e.eval = .ok x) :
    ∃ text, answer verbose s = .ok text := by
  rw [answer, hs]
  change ∃ text, (e.eval.mapError LineError.eval).bind _ = .ok text
  rw [he]
  exact ⟨_, rfl⟩

/-- A slash in an expression was one among the tokens. -/
theorem exists_slash {ts : List Token} {left right : Expr}
    (h : StemsFrom ts (.binary .divide left right)) : ∃ t ∈ ts, t.kind = .slash := by
  rcases h with ⟨t, ht, hk⟩ | ⟨ho, -⟩
  · exact ⟨t, ht, hk⟩
  · exact absurd ho (by decide)

/-- An evaluation error can be found in the line. And a line has a value if it is an expression, has
no slash, and names only constants and functions that have values everywhere. -/
theorem evaluation_errors_found (verbose : Bool) (line : String) :
    (∀ err, answer verbose line = .error (.eval err) → err.FoundIn line) ∧
    ((∃ e, Expr.parse line = .ok e) → (∀ t ∈ tokens line, t.kind ≠ .slash) →
      (∀ t ∈ tokens line, t.kind = .identifier →
        t.text ∈ ["pi", "e", "sin", "cos", "tan", "exp"]) →
      ∃ e x text, Expr.parse line = .ok e ∧ e.eval = .ok x ∧ answer verbose line = .ok text) := by
  constructor
  · intro err h
    obtain ⟨e, hs, he⟩ := answer_eq_eval_error_iff.mp h
    have hstems := stemsFrom_of_parse hs
    rcases hasCause_of_error he with ⟨rfl, left, right, hmem⟩ | ⟨f, argument, x, hmem, hcall⟩
    · exact exists_slash (hstems _ hmem)
    · have hcalled : CalledIn (tokens line) f := hstems _ hmem
      rcases call_eq_error_iff.mp hcall with ⟨hf, rfl⟩ | ⟨hf, hx, rfl⟩ | ⟨hf, hx, rfl⟩
      · exact ⟨hcalled, hf⟩
      · exact ⟨hcalled, isNaN_eq_false (.inl hx), .inl ⟨hf, hx⟩⟩
      · exact ⟨hcalled, isNaN_eq_false (.inr hx), .inr ⟨hf, hx⟩⟩
  · rintro ⟨e, hs⟩ hslash hnames
    have hstems := stemsFrom_of_parse hs
    cases he : e.eval with
    | ok x =>
      obtain ⟨text, htext⟩ := exists_answer verbose hs he
      exact ⟨e, x, text, hs, he, htext⟩
    | error err =>
      -- What could have failed would be found in the line, and is not there.
      rcases hasCause_of_error he with ⟨-, left, right, hmem⟩ | ⟨f, argument, x, hmem, hcall⟩
      · obtain ⟨t, ht, hk⟩ := exists_slash (hstems _ hmem)
        exact absurd hk (hslash t ht)
      · obtain ⟨hpi, hne, before, t, l, after, hts, hk, rfl, -⟩ := hstems _ hmem
        have hname := hnames t (by simp [hts]) hk
        have hsafe : t.text ∈ ["sin", "cos", "tan", "exp"] := by
          simpa [hpi, hne] using hname
        rcases call_eq_error_iff.mp hcall with ⟨hf, -⟩ | ⟨hf, -⟩ | ⟨hf, -⟩
        · exact absurd (mem_names_of_safe hsafe) hf
        · simp [hf] at hsafe
        · simp [hf] at hsafe

/-- The logarithm of zero is told by its name and its argument. A line whose names are all harmless
has a value. -/
theorem logarithm_of_difference_found :
    (answer false "log(pi - pi)" =
        .error (.eval (.domain "log" 0 "logarithm of a non-positive number")) ∧
      (EvalError.domain "log" 0 "logarithm of a non-positive number").FoundIn "log(pi - pi)") ∧
    ((∃ e, Expr.parse "sin(e)^-exp(pi)" = .ok e) ∧
      (∀ t ∈ tokens "sin(e)^-exp(pi)", t.kind ≠ .slash) ∧
      (∀ t ∈ tokens "sin(e)^-exp(pi)", t.kind = .identifier →
        t.text ∈ ["pi", "e", "sin", "cos", "tan", "exp"]) ∧
      ∃ e x text, Expr.parse "sin(e)^-exp(pi)" = .ok e ∧ e.eval = .ok x ∧
        answer false "sin(e)^-exp(pi)" = .ok text) := by
  have hlog : answer false "log(pi - pi)" =
      .error (.eval (.domain "log" 0 "logarithm of a non-positive number")) := rfl
  have hparse : ∃ e, Expr.parse "sin(e)^-exp(pi)" = .ok e := ⟨_, rfl⟩
  have hslash : ∀ t ∈ tokens "sin(e)^-exp(pi)", t.kind ≠ .slash := by decide +kernel
  have hnames : ∀ t ∈ tokens "sin(e)^-exp(pi)", t.kind = .identifier →
      t.text ∈ ["pi", "e", "sin", "cos", "tan", "exp"] := by decide +kernel
  exact ⟨⟨hlog, (evaluation_errors_found false "log(pi - pi)").1 _ hlog⟩, hparse, hslash, hnames,
    (evaluation_errors_found false "sin(e)^-exp(pi)").2 hparse hslash hnames⟩

end Calculator
