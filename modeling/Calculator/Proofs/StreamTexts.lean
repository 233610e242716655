import Calculator.Proofs.BrokenStreams

namespace Calculator

def shown (stream : Stream) (writes : List Write) : String :=
  String.join ((writes.filter (·.stream = stream)).map Write.text)

def failures (verbose : Bool) (lines : List String) : List LineError :=
  (beforeExit lines).filterMap (failure? verbose)

def solved (line : String) : Except LineError (Expr × Float) := do
  let e ← (Expr.parse line).mapError .parse
  let x ← e.eval.mapError .eval
  return (e, x)

def answerText (verbose : Bool) (e : Expr) (x : Float) : String :=
  if verbose then treeText e ++ "\n" ++ resultText x else resultText x

/-- The expression and the value that a session comes to for a line, if it does. -/
def resultOf (line : String) : Option (Expr × Float) :=
  if Text.trim line = "" then none else (solved (Text.trim line)).toOption

/-- What a session puts on its output for some lines that come to these results, with the prompt
for the next line. -/
def outputFor (verbose : Bool) : List (Option (Expr × Float)) → String
  | [] => "> "
  | none :: results => "> " ++ outputFor verbose results
  | some (e, x) :: results =>
    "> " ++ (answerText verbose e x ++ "\n") ++ outputFor verbose results

variable {stream : Stream} {verbose : Bool} {line : String} {e : LineError} {writes : List Write}

theorem textOf_eq_shown (session : Session) (stream : Stream) :
    session.textOf stream = shown stream session.writes := rfl

theorem shown_cons (w : Write) (writes : List Write) :
    shown stream (w :: writes) = (if w.stream = stream then w.text else "") ++
      shown stream writes := by
  by_cases h : w.stream = stream <;> simp [shown, h]

theorem shown_append (writes more : List Write) :
    shown stream (writes ++ more) = shown stream writes ++ shown stream more := by
  simp [shown]

theorem shown_flatten (rounds : List (List Write)) :
    shown stream rounds.flatten = String.join (rounds.map (shown stream)) := by
  induction rounds with
  | nil => rfl
  | cons writes rounds ih =>
    rw [List.flatten_cons, shown_append, ih, List.map_cons, String.join_cons]

theorem stretches_cons (w : Write) (writes : List Write) :
    Session.stretches (w :: writes) =
      match Session.stretches writes with
      | [] => [w]
      | next :: rest =>
        if w.stream = next.stream then ⟨w.stream, w.text ++ next.text⟩ :: rest
        else w :: next :: rest := by
  rw [Session.stretches, List.foldr_cons, ← Session.stretches]
  cases Session.stretches writes <;> rfl

/-- To run neighbours together changes nothing on any stream. -/
theorem shown_stretches : shown stream (Session.stretches writes) = shown stream writes := by
  induction writes with
  | nil => rfl
  | cons w writes ih =>
    rw [shown_cons, ← ih, stretches_cons]
    cases Session.stretches writes with
    | nil => exact shown_cons w []
    | cons next rest =>
      by_cases hsame : w.stream = next.stream
      · simp only [if_pos hsame]
        rw [shown_cons, shown_cons, ← hsame, ← String.append_assoc]
        congr 1
        split_ifs <;> simp
      · simp only [if_neg hsame]
        exact shown_cons w _

/-- No two stretches that follow each other are on one stream. -/
theorem isChain_stretches (writes : List Write) :
    (Session.stretches writes).IsChain fun w next => w.stream ≠ next.stream := by
  induction writes with
  | nil => exact .nil
  | cons w writes ih =>
    rw [stretches_cons]
    cases hrest : Session.stretches writes with
    | nil => exact .singleton w
    | cons next rest =>
      rw [hrest] at ih
      by_cases hsame : w.stream = next.stream
      · -- The longer stretch stands where the one behind it stood.
        simp only [if_pos hsame]
        cases ih with
        | singleton => exact .singleton _
        | cons_cons hnext ih => exact .cons_cons (hsame ▸ hnext) ih
      · simp only [if_neg hsame]
        exact .cons_cons hsame ih

/-- A line is no expression, or one without a value, or one with a value. -/
theorem solved_cases (line : String) :
    (∃ err, Expr.parse line = .error err ∧ solved line = .error (.parse err)) ∨
    (∃ e err, Expr.parse line = .ok e ∧ e.eval = .error err ∧
      solved line = .error (.eval err)) ∨
    ∃ e x, Expr.parse line = .ok e ∧ e.eval = .ok x ∧ solved line = .ok (e, x) := by
  cases hs : Expr.parse line with
  | error err =>
    have hsolved : solved line = .error (.parse err) := by
      rw [solved, hs]
      rfl
    exact .inl ⟨err, rfl, hsolved⟩
  | ok e =>
    have hsolved : solved line = (e.eval.mapError .eval).bind fun x => .ok (e, x) := by
      rw [solved, hs]
      rfl
    cases he : e.eval with
    | error err =>
      rw [he] at hsolved
      exact .inr (.inl ⟨e, err, rfl, he, hsolved⟩)
    | ok x =>
      rw [he] at hsolved
      exact .inr (.inr ⟨e, x, rfl, he, hsolved⟩)

theorem answer_eq (verbose : Bool) (line : String) :
    answer verbose line = (solved line).map fun (e, x) => answerText verbose e x := by
  rw [answer]
  rcases solved_cases line with ⟨err, hs, h⟩ | ⟨e, err, hs, he, h⟩ | ⟨e, x, hs, he, h⟩
  · rw [h, hs]
    rfl
  · rw [h, hs]
    change (e.eval.mapError LineError.eval).bind _ = _
    rw [he]
    rfl
  · rw [h, hs]
    change (e.eval.mapError LineError.eval).bind _ = _
    rw [he]
    rfl

theorem answer_eq_error_iff : answer verbose line = .error e ↔ solved line = .error e := by
  rw [answer_eq]
  cases solved line <;> simp [Except.map]

/-- How a line fails does not depend on how verbose its answer is. -/
theorem failure?_eq (verbose other : Bool) (line : String) :
    failure? verbose line = failure? other line := by
  rw [failure?, failure?, answer_eq, answer_eq]
  cases solved (Text.trim line) <;> rfl

theorem shown_output_record (verbose : Bool) (line : String)
    (results : List (Option (Expr × Float))) :
    shown .output (record verbose line) ++ outputFor verbose results =
      outputFor verbose (resultOf line :: results) := by
  rw [record, resultOf, answer_eq, shown_cons]
  by_cases hblank : Text.trim line = ""
  · rw [if_pos hblank, if_pos hblank]
    simp [shown, outputFor]
  · rw [if_neg hblank, if_neg hblank]
    cases solved (Text.trim line) <;> simp [Except.map, Except.toOption, shown, outputFor]

theorem shown_errors_record (hstay : Text.trim line ≠ "exit") :
    shown .errors (record verbose line) =
      ((failure? verbose line).map fun e => "Error: " ++ e.message ++ "\n").getD "" := by
  rw [record, failure?, shown_cons]
  by_cases hblank : Text.trim line = ""
  · simp [hblank, shown]
  · rw [if_neg hblank, if_neg (not_or.mpr ⟨hstay, hblank⟩)]
    cases answer verbose (Text.trim line) <;> simp [shown]

theorem shown_output_transcript (verbose : Bool) (lines : List String) :
    shown .output (transcript verbose lines) =
      banner ++ "\n" ++ outputFor verbose ((beforeExit lines).map resultOf) := by
  have hrounds (lines : List String) :
      String.join ((lines.map (record verbose)).map (shown .output)) ++ "> " =
        outputFor verbose (lines.map resultOf) := by
    induction lines with
    | nil => rfl
    | cons line lines ih =>
      rw [List.map_cons, List.map_cons, String.join_cons, String.append_assoc, ih,
        shown_output_record, List.map_cons]
  rw [transcript, shown_cons, shown_append, shown_flatten, ← hrounds, records]
  rfl

theorem shown_errors_transcript (verbose : Bool) (lines : List String) :
    shown .errors (transcript verbose lines) =
      String.join ((failures verbose lines).map fun e => "Error: " ++ e.message ++ "\n") := by
  have hrounds {lines : List String} (hstay : ∀ line ∈ lines, Text.trim line ≠ "exit") :
      String.join ((lines.map (record verbose)).map (shown .errors)) =
        String.join ((lines.filterMap (failure? verbose)).map
          fun e => "Error: " ++ e.message ++ "\n") := by
    induction lines with
    | nil => rfl
    | cons line lines ih =>
      rw [List.forall_mem_cons] at hstay
      rw [List.map_cons, List.map_cons, String.join_cons, ih hstay.2,
        shown_errors_record hstay.1, List.filterMap_cons]
      cases failure? verbose line <;> simp
  rw [transcript, shown_cons, shown_append, shown_flatten, records,
    hrounds fun line => stay_of_mem_beforeExit, failures]
  simp [shown]

theorem failures_eq (verbose other : Bool) (lines : List String) :
    failures verbose lines = failures other lines := by
  rw [failures, failures]
  exact List.filterMap_congr fun line _ => failure?_eq verbose other line

/-- On streams that do not fail, a session writes all that there is to write about the lines before
the first that is no text. -/
theorem run_none_writes (verbose : Bool) (input : List UInt8) :
    (Session.run .none verbose input).writes =
      transcript verbose (textLines (cutLines input)) := by
  obtain ⟨earlier, taken, failure, h⟩ := exists_course .none verbose input
  rw [run_of_course rfl h]
  obtain ⟨hinput, hanswered, hlast⟩ := h
  have hflush : failure ≠ some .flushRefused := by
    rintro rfl
    exact absurd hlast.flush_eq (by simp [Faults.none])
  have hwrite : failure ≠ some .writeRefused := by
    rintro rfl
    exact absurd hlast.errors_eq (by simp [Faults.none])
  have hall : beforeExit (textLines (cutLines input)) = beforeExit earlier := by
    rw [beforeExit_textLines hanswered.stay hinput, hlast.beforeExit_eq_nil hflush hwrite,
      List.append_nil, beforeExit_of_forall hanswered.stay]
  rw [transcript, transcript, records, records, hall]

/-- The course of a session does not depend on how verbose its answers are. -/
theorem Course.of_verbose {faults : Faults} {input : List UInt8} {earlier : List String}
    {taken : List (List UInt8)} {failure : Option StreamError}
    (h : Course faults verbose input earlier taken failure) (other : Bool) :
    Course faults other input earlier taken failure := by
  have hsame (line : String) : failure? other line = failure? verbose line :=
    failure?_eq other verbose line
  obtain ⟨hinput, ⟨hstay, htold, hflushed⟩, hlast⟩ := h
  refine ⟨hinput, ⟨hstay, fun line hline e hfails => htold line hline e (hsame line ▸ hfails),
    hflushed⟩, ?_⟩
  cases hlast with
  | refused hflush => exact .refused hflush
  | finished hflush => exact .finished hflush
  | invalid hflush hline => exact .invalid hflush hline
  | left hflush hexit => exact .left hflush hexit
  | untold hflush herrors hfails => exact .untold hflush herrors ((hsame _).trans hfails)

end Calculator
