import Calculator.Proofs.Causes
import Calculator.Proofs.ErrorPlaces
import Calculator.Proofs.StreamTexts
import Calculator.Proofs.Visible

namespace Calculator

open Text (Clear isPlain clear_append clear_of_plain clear_quoted clear_toString)

section Messages

/-- A piece of text and a place can be seen among words that can. -/
theorem clear_with_place {before piece middle after : String} (p : ℕ)
    (hbefore : before.toList.all isPlain = true) (hpiece : Clear piece)
    (hmiddle : middle.toList.all isPlain = true) (hafter : after.toList.all isPlain = true) :
    Clear (before ++ piece ++ middle ++ toString p ++ after) := by
  simp only [clear_append]
  exact ⟨⟨⟨⟨clear_of_plain hbefore, hpiece⟩, clear_of_plain hmiddle⟩, clear_toString p⟩,
    clear_of_plain hafter⟩

theorem SyntaxError.clear_message {err : SyntaxError}
    (h : ∀ f p, err = .missingArgument f p → Clear f) : Clear err.message := by
  cases err with
  | unexpectedToken found p =>
    exact clear_with_place p (by decide) (clear_quoted found) (by decide) (by decide)
  | unexpectedEnd => exact clear_of_plain (by decide)
  | expectedToken wanted found p =>
    have hinstead : Clear ((found.map Text.quoted).getD "end of input") := by
      cases found with
      | none => exact clear_of_plain (by decide)
      | some found => exact clear_quoted found
    refine clear_append.mpr ⟨clear_append.mpr ⟨?_, hinstead⟩, clear_of_plain (by decide)⟩
    exact clear_with_place p (by decide) (clear_quoted wanted) (by decide) (by decide)
  | missingArgument f p => exact clear_with_place p (by decide) (h f p rfl) (by decide) (by decide)
  | malformedNumber found p =>
    exact clear_with_place p (by decide) (clear_quoted found) (by decide) (by decide)
  | trailingInput found p =>
    exact clear_with_place p (by decide) (clear_quoted found) (by decide) (by decide)
  | tooDeep p =>
    exact clear_with_place p (by decide) (clear_toString maxDepth) (by decide) (by decide)

/-- The name that lacks its argument is a word of the line, and other pieces are quoted. -/
theorem clear_of_parse_error {s : String} {err : SyntaxError} (h : Expr.parse s = .error err) :
    Clear err.message := by
  obtain ⟨failure, hfailure, rfl⟩ := ofTokensWithin_eq_error_iff.mp h
  obtain ⟨us, hts, hfails⟩ := readAll_eq_error_iff.mp hfailure
  have htrue := trueOf_of_tells hts hfails.tells
  refine SyntaxError.clear_message ?_
  intro f p hmissing
  rw [hmissing] at htrue
  obtain ⟨t, ht, hk, rfl, -⟩ := htrue
  exact clear_name (isAlpha_of_identifier ht hk).2

theorem EvalError.clear_message_domain {f reason : String} (x : Float) (hf : Clear f)
    (hreason : reason.toList.all isPlain = true) :
    Clear (EvalError.domain f x reason).message := by
  change Clear ("Domain error in " ++ f ++ "(" ++ Number.text x ++ "): " ++ reason ++ ".")
  simp only [clear_append]
  exact ⟨⟨⟨⟨⟨⟨clear_of_plain (by decide), hf⟩, clear_of_plain (by decide)⟩, clear_number x⟩,
    clear_of_plain (by decide)⟩, clear_of_plain hreason⟩, clear_of_plain (by decide)⟩

/-- The function of an evaluation error is one that the line calls. -/
theorem clear_of_eval_error {s : String} {e : Expr} {err : EvalError} (hs : Expr.parse s = .ok e)
    (he : e.eval = .error err) : Clear err.message := by
  rcases hasCause_of_error he with ⟨rfl, -⟩ | ⟨f, argument, x, hmem, hcall⟩
  · exact clear_of_plain (by decide)
  · have hcalled : CalledIn (tokens s) f := stemsFrom_of_parse hs _ hmem
    have hf : Clear f := clear_name (isAlpha_of_calledIn hcalled).2
    rcases call_eq_error_iff.mp hcall with ⟨-, rfl⟩ | ⟨-, -, rfl⟩ | ⟨-, -, rfl⟩
    · refine clear_append.mpr ⟨clear_append.mpr ⟨?_, hf⟩, clear_of_plain (by decide)⟩
      exact clear_of_plain (by decide)
    · exact EvalError.clear_message_domain x hf (by decide)
    · exact EvalError.clear_message_domain x hf (by decide)

theorem clear_of_answer_error {verbose : Bool} {line : String} {err : LineError}
    (h : answer verbose line = .error err) : Clear err.message := by
  have hsolved := answer_eq_error_iff.mp h
  rcases solved_cases line with ⟨err', hs, h'⟩ | ⟨e, err', hs, he, h'⟩ | ⟨e, x, hs, he, h'⟩
  · obtain rfl : err = .parse err' := Except.error.inj (hsolved.symm.trans h')
    exact clear_append.mpr ⟨clear_of_plain (by decide), clear_of_parse_error hs⟩
  · obtain rfl : err = .eval err' := Except.error.inj (hsolved.symm.trans h')
    exact clear_append.mpr ⟨clear_of_plain (by decide), clear_of_eval_error hs he⟩
  · rw [hsolved] at h'
    cases h'

end Messages

theorem clear_of_mem_failures {verbose : Bool} {lines : List String} {err : LineError}
    (h : err ∈ failures verbose lines) : Clear err.message := by
  obtain ⟨line, -, hfails⟩ := List.mem_filterMap.mp h
  exact clear_of_answer_error (failure?_eq_some_iff.mp hfails).2.2

/-- Lines of one text each stand one below the other. -/
theorem linesOf_join {bodies : List String} (h : ∀ body ∈ bodies, '\n' ∉ body.toList) :
    linesOf (String.join (bodies.map (· ++ "\n"))) = bodies.map (· ++ "\n") := by
  induction bodies with
  | nil => rfl
  | cons body bodies ih =>
    rw [List.forall_mem_cons] at h
    rw [List.map_cons, String.join_cons, linesOf_line _ h.1, ih h.2]

theorem count_newline_join {bodies : List String} (h : ∀ body ∈ bodies, '\n' ∉ body.toList) :
    (String.join (bodies.map (· ++ "\n"))).toList.count '\n' = bodies.length := by
  induction bodies with
  | nil => rfl
  | cons body bodies ih =>
    rw [List.forall_mem_cons] at h
    rw [List.map_cons, String.join_cons, String.toList_append, String.toList_append,
      List.count_append, List.count_append, List.count_eq_zero_of_not_mem h.1, ih h.2]
    simp [Nat.add_comm]

/-- What is said of a line that fails stands on one line and can be seen, whatever the line is. So
on streams that do not fail, a session writes to its errors one line for each line that fails,
before one that ends the session, and each of them says that it is an error. -/
theorem failures_told_in_lines (verbose : Bool) :
    (∀ line err, answer verbose line = .error err → ∀ c ∈ err.message.toList,
      c ≠ '\n' ∧ Text.isUnprintable c = false ∧ Text.isCombining c = false) ∧
    ∀ input,
      let told := (Session.run .none verbose input).textOf .errors
      let failing := failures verbose (textLines (cutLines input))
      told.toList.count '\n' = failing.length ∧
      linesOf told = failing.map (fun err => "Error: " ++ err.message ++ "\n") ∧
      ∀ line ∈ linesOf told, "Error: ".toList <+: line.toList := by
  constructor
  · intro line err h c hc
    have hvisible : Text.Visible c := clear_of_answer_error h c hc
    exact ⟨hvisible.ne_newline, hvisible.2, hvisible.1⟩
  · -- The failures are told one below the other, each in a body without a line feed.
    intro input told failing
    let bodies := failing.map fun err => "Error: " ++ err.message
    have hbodies : ∀ body ∈ bodies, '\n' ∉ body.toList := by
      intro body hbody
      obtain ⟨err, hmem, rfl⟩ := List.mem_map.mp hbody
      have herr := clear_of_mem_failures hmem
      exact (clear_append.mpr ⟨clear_of_plain (by decide), herr⟩).newline_not_mem
    have hmap : bodies.map (· ++ "\n") = failing.map fun err => "Error: " ++ err.message ++ "\n" :=
      List.map_map
    have htold : told = String.join (bodies.map (· ++ "\n")) := by
      rw [hmap]
      exact (congrArg (shown .errors) (run_none_writes verbose input)).trans
        (shown_errors_transcript verbose _)
    have hlines : linesOf told = failing.map fun err => "Error: " ++ err.message ++ "\n" := by
      rw [htold, linesOf_join hbodies, hmap]
    refine ⟨?_, hlines, ?_⟩
    · rw [htold, count_newline_join hbodies, List.length_map]
    · rw [hlines]
      intro line hline
      obtain ⟨err, -, rfl⟩ := List.mem_map.mp hline
      rw [String.toList_append, String.toList_append, List.append_assoc]
      exact List.prefix_append _ _

/-- A character that turns the direction of writing is told by its code point. -/
theorem override_told_by_code_point :
    answer false "2\u202e" = .error (.parse (.trailingInput "\u202e" 1)) ∧
    (LineError.parse (.trailingInput "\u202e" 1)).message =
      "Parse error: Unexpected \"\\u\x7b202e\x7d\" at position 1 after a complete expression." ∧
    ∀ c ∈ (LineError.parse (.trailingInput "\u202e" 1)).message.toList,
      c ≠ '\n' ∧ Text.isUnprintable c = false ∧ Text.isCombining c = false := by
  have h : answer false "2\u202e" = .error (.parse (.trailingInput "\u202e" 1)) := by
    decide +kernel
  exact ⟨h, by decide +kernel, (failures_told_in_lines false).1 _ _ h⟩

end Calculator
