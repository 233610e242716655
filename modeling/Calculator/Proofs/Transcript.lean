import Mathlib.Data.List.TakeWhile
import Calculator.Proofs.Lines

namespace Calculator

/-- What is written about a line: the prompt for it, and the answer unless the line is blank. -/
def record (verbose : Bool) (line : String) : List Write :=
  ⟨.output, "> "⟩ ::
    if Text.trim line = "" then []
    else
      match answer verbose (Text.trim line) with
      | .ok text => [⟨.output, text ++ "\n"⟩]
      | .error e => [⟨.errors, "Error: " ++ e.message ++ "\n"⟩]

/-- Why a line fails, if it does: there is something on it besides white space, which is not the
word to leave, and that has no answer. -/
def failure? (verbose : Bool) (line : String) : Option LineError :=
  if Text.trim line = "exit" ∨ Text.trim line = "" then none
  else
    match answer verbose (Text.trim line) with
    | .ok _ => none
    | .error e => some e

/-- The lines before the first that ends the session, or all if none does. -/
def beforeExit (lines : List String) : List String :=
  lines.takeWhile (Text.trim · ≠ "exit")

def throughExit (lines : List String) : List String :=
  lines.take ((beforeExit lines).length + 1)

def records (verbose : Bool) (lines : List String) : List (List Write) :=
  (beforeExit lines).map (record verbose)

theorem beforeExit_cons (line : String) (lines : List String) :
    beforeExit (line :: lines) =
      if Text.trim line = "exit" then [] else line :: beforeExit lines := by
  by_cases hexit : Text.trim line = "exit" <;> simp [beforeExit, hexit]

theorem write_granted {faults : Faults} {w : Write} (h : faults.refuses w.stream = false)
    (rest : Session) :
    Session.write faults w rest = ⟨w :: rest.writes, rest.consumed, rest.failure⟩ := by
  rw [Session.write, h]
  rfl

theorem prompt_granted {faults : Faults} {n : ℕ} (houtput : faults.output = false)
    (hflush : faults.flush ≠ some n) (rest : Session) :
    Session.write faults ⟨.output, promptText⟩ (Session.flush faults n rest) =
      ⟨⟨.output, "> "⟩ :: rest.writes, rest.consumed, rest.failure⟩ := by
  have hgranted : faults.refuses .output = false := houtput
  rw [write_granted hgranted, Session.flush, if_neg hflush]
  rfl

theorem decode_encoded (s : String) : decode (encoded s.toList) = some s :=
  decode_eq_some_iff.mpr rfl

section Step

variable {verbose : Bool} {line text : String} {e : LineError}

theorem failure?_eq_some_iff :
    failure? verbose line = some e ↔ Text.trim line ≠ "exit" ∧ Text.trim line ≠ "" ∧
      answer verbose (Text.trim line) = .error e := by
  constructor
  · intro h
    rw [failure?] at h
    split_ifs at h with hsilent
    rw [not_or] at hsilent
    cases hanswer : answer verbose (Text.trim line) with
    | ok text =>
      rw [hanswer] at h
      cases h
    | error err =>
      rw [hanswer] at h
      exact ⟨hsilent.1, hsilent.2, congrArg Except.error (Option.some.inj h)⟩
  · rintro ⟨hstay, hblank, hanswer⟩
    rw [failure?, if_neg (not_or.mpr ⟨hstay, hblank⟩), hanswer]

theorem step_of_exit (h : Text.trim line = "exit") :
    step verbose (encoded line.toList) = .ends none := by
  rw [step, decode_encoded]
  exact if_pos h

theorem step_of_blank (hstay : Text.trim line ≠ "exit") (h : Text.trim line = "") :
    step verbose (encoded line.toList) = .goesOn none := by
  rw [step, decode_encoded]
  exact (if_neg hstay).trans (if_pos h)

theorem step_of_ok (hstay : Text.trim line ≠ "exit") (hblank : Text.trim line ≠ "")
    (h : answer verbose (Text.trim line) = .ok text) :
    step verbose (encoded line.toList) = .goesOn (some ⟨.output, text ++ "\n"⟩) := by
  rw [step, decode_encoded]
  exact (if_neg hstay).trans ((if_neg hblank).trans (by rw [h]))

theorem step_of_failure (h : failure? verbose line = some e) :
    step verbose (encoded line.toList) =
      .goesOn (some ⟨.errors, "Error: " ++ e.message ++ "\n"⟩) := by
  obtain ⟨hstay, hblank, herror⟩ := failure?_eq_some_iff.mp h
  rw [step, decode_encoded]
  exact (if_neg hstay).trans ((if_neg hblank).trans (by rw [herror]; rfl))

end Step

/-- One round in which nothing fails and the session is not left: a line is read and put on
record. -/
theorem rounds_line {faults : Faults} {verbose : Bool} {asked : ℕ} {line : String}
    (houtput : faults.output = false) (hflush : faults.flush ≠ some (asked + 1))
    (hstay : Text.trim line ≠ "exit")
    (htold : ∀ e, failure? verbose line = some e → faults.errors = false)
    (lines : List (List UInt8)) :
    Session.rounds faults verbose asked (encoded line.toList :: lines) =
      let rest := Session.rounds faults verbose (asked + 1) lines
      ⟨record verbose line ++ rest.writes, line.utf8ByteSize + rest.consumed, rest.failure⟩ := by
  have hgranted : faults.refuses .output = false := houtput
  rw [Session.rounds, prompt_granted houtput hflush, ← length_encoded, record]
  -- The line does not end the session, so it is blank, has an answer, or fails.
  by_cases hblank : Text.trim line = ""
  · rw [step_of_blank hstay hblank, if_pos hblank]
    rfl
  cases hanswer : answer verbose (Text.trim line) with
  | ok text =>
    rw [step_of_ok hstay hblank hanswer, if_neg hblank]
    dsimp only
    rw [write_granted hgranted]
    rfl
  | error e =>
    have hfailure := failure?_eq_some_iff.mpr ⟨hstay, hblank, hanswer⟩
    have htell : faults.refuses .errors = false := htold e hfailure
    rw [step_of_failure hfailure, if_neg hblank]
    dsimp only
    rw [write_granted htell]
    rfl

/-- One round on streams that do not fail. -/
theorem rounds_cons (verbose : Bool) (asked : ℕ) (line : String) (lines : List (List UInt8)) :
    Session.rounds .none verbose asked (encoded line.toList :: lines) =
      if Text.trim line = "exit" then ⟨[⟨.output, "> "⟩], line.utf8ByteSize, none⟩
      else
        let rest := Session.rounds .none verbose (asked + 1) lines
        ⟨record verbose line ++ rest.writes, line.utf8ByteSize + rest.consumed, rest.failure⟩ := by
  split_ifs with hexit
  · rw [Session.rounds, step_of_exit hexit, ← length_encoded]
    rfl
  · have hflush : Faults.none.flush ≠ some (asked + 1) := by simp [Faults.none]
    exact rounds_line rfl hflush hexit (fun _ _ => rfl) lines

theorem rounds_lines (verbose : Bool) (asked : ℕ) (lines : List String) :
    Session.rounds .none verbose asked (lines.map fun line => encoded line.toList) =
      ⟨(records verbose lines).flatten ++ [⟨.output, "> "⟩],
        ((throughExit lines).map String.utf8ByteSize).sum, none⟩ := by
  -- By induction on the lines, whatever number of prompts went before.
  induction lines generalizing asked with
  | nil => rfl
  | cons line lines ih =>
    rw [List.map_cons, rounds_cons, ih]
    simp only [records, throughExit, beforeExit_cons]
    split_ifs <;> simp

theorem beforeExit_append {lines : List String} (h : ∀ line ∈ lines, Text.trim line ≠ "exit")
    (more : List String) : beforeExit (lines ++ more) = lines ++ beforeExit more :=
  List.takeWhile_append_of_pos fun line hline => decide_eq_true (h line hline)

theorem beforeExit_of_forall {lines : List String}
    (h : ∀ line ∈ lines, Text.trim line ≠ "exit") : beforeExit lines = lines :=
  List.takeWhile_eq_self_iff.mpr fun line hline => decide_eq_true (h line hline)

theorem throughExit_of_forall {lines : List String}
    (h : ∀ line ∈ lines, Text.trim line ≠ "exit") : throughExit lines = lines := by
  rw [throughExit, beforeExit_of_forall h]
  exact List.take_of_length_le (Nat.le_succ _)

theorem records_cons (verbose : Bool) (line : String) (lines : List String) :
    records verbose (line :: lines) =
      if Text.trim line = "exit" then [] else record verbose line :: records verbose lines := by
  rw [records, beforeExit_cons]
  split_ifs <;> rfl

theorem records_append (verbose : Bool) (lines more : List String) :
    records verbose (lines ++ more) = records verbose lines ++
      if ∃ line ∈ lines, Text.trim line = "exit" then [] else records verbose more := by
  induction lines with
  | nil => simp [records, beforeExit]
  | cons line lines ih =>
    rw [List.cons_append, records_cons, records_cons, ih]
    by_cases hexit : Text.trim line = "exit" <;> simp [hexit]

/-- A whole session over the bytes of a text. -/
theorem run_encoded (verbose : Bool) (s : String) :
    Session.run .none verbose (encoded s.toList) =
      ⟨⟨.output, banner ++ "\n"⟩ ::
          ((records verbose (linesOf s)).flatten ++ [⟨.output, "> "⟩]),
        ((throughExit (linesOf s)).map String.utf8ByteSize).sum, none⟩ := by
  rw [Session.run, cutLines_eq_linesOf, rounds_lines]
  rfl

/-- A session over a text, when no stream fails: it ends well, it has written the records of the
lines before the first that says to leave, and it has read the lines through that one. Where a text
is parted after a line feed and no line of the front says to leave, a session over the front and one
over the rest make the records that one over the whole makes. If a line of the front says to leave,
the session is over before the rest. -/
theorem session_told_by_lines (verbose : Bool) (input : List UInt8) (s : String)
    (h : decode input = some s) :
    (∀ lines, Cut '\n' s.toList (lines.map String.toList) ↔ lines = linesOf s) ∧
    Session.run .none verbose input =
      ⟨⟨.output, banner ++ "\n"⟩ ::
          ((records verbose (linesOf s)).flatten ++ [⟨.output, "> "⟩]),
        ((throughExit (linesOf s)).map String.utf8ByteSize).sum, none⟩ ∧
    ((∀ line ∈ linesOf s, Text.trim line ≠ "exit") →
      (Session.run .none verbose input).consumed = input.length) ∧
    ∀ first second, s = first ++ second → first.toList.getLast? = some '\n' →
      records verbose (linesOf s) = records verbose (linesOf first) ++
        if ∃ line ∈ linesOf first, Text.trim line = "exit" then []
        else records verbose (linesOf second) := by
  obtain rfl := decode_eq_some_iff.mp h
  refine ⟨cut_linesOf s, run_encoded verbose s, ?_, ?_⟩
  · intro hstay
    rw [run_encoded, throughExit_of_forall hstay]
    exact sum_utf8ByteSize_linesOf s
  · rintro first second rfl hfirst
    rw [linesOf_append second hfirst, records_append]

theorem session_left_at_padded_exit :
    decode (encoded "sin\n\t\n exit \npi".toList) = some "sin\n\t\n exit \npi" ∧
    Session.run .none true (encoded "sin\n\t\n exit \npi".toList) =
      ⟨[⟨.output, banner ++ "\n"⟩, ⟨.output, "> "⟩,
          ⟨.errors, "Error: Parse error: Expected '(' after function name sin at position 3.\n"⟩,
          ⟨.output, "> "⟩, ⟨.output, "> "⟩],
        13, none⟩ := by
  have h := decode_eq_some_iff.mpr (Eq.refl (encoded "sin\n\t\n exit \npi".toList))
  have hrun := (session_told_by_lines true _ _ h).2.1
  exact ⟨h, hrun.trans (by decide +kernel)⟩

end Calculator
