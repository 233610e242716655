import Calculator.Proofs.Transcript

/-!
Sessions on streams that fail. Such a session goes on as if no stream failed: it answers some lines
and comes to a last round, in which a flush is refused, the input ends, or the line that is read is
no text, says to leave, or has a failure that cannot be told. After that nothing is written or read
any more.
-/

namespace Calculator

def encodedLines (lines : List String) : List (List UInt8) :=
  lines.map fun line => encoded line.toList

theorem encodedLines_cons (line : String) (lines : List String) :
    encodedLines (line :: lines) = encoded line.toList :: encodedLines lines := rfl

/-- The texts of the lines before the first that is no text. -/
def textLines : List (List UInt8) → List String
  | [] => []
  | line :: lines =>
    match decode line with
    | some text => text :: textLines lines
    | none => []

/-- The part of the input before the first line that is no text. -/
def validPart (input : List UInt8) : List UInt8 :=
  ((cutLines input).takeWhile fun line => (decode line).isSome).flatten

def transcript (verbose : Bool) (lines : List String) : List Write :=
  ⟨.output, banner ++ "\n"⟩ :: ((records verbose lines).flatten ++ [⟨.output, "> "⟩])

/-- Whether lines are answered one after the other, the first after so many prompts: none of them
says to leave, their failures can be told, and their prompts can be flushed. -/
structure Answered (faults : Faults) (verbose : Bool) (asked : ℕ) (lines : List String) : Prop where
  stay : ∀ line ∈ lines, Text.trim line ≠ "exit"
  told : ∀ line ∈ lines, ∀ e, failure? verbose line = some e → faults.errors = false
  flushed : ∀ n, asked < n → n ≤ asked + lines.length → faults.flush ≠ some n

/-- The last round of a session, whose prompt has the given number: the lines that are left before
it, those of them that it still reads, and what fails. -/
inductive LastRound (faults : Faults) (verbose : Bool) (n : ℕ) :
    List (List UInt8) → List (List UInt8) → Option StreamError → Prop
  | refused {rest} (hflush : faults.flush = some n) :
      LastRound faults verbose n rest [] (some .flushRefused)
  | finished (hflush : faults.flush ≠ some n) : LastRound faults verbose n [] [] none
  | invalid {line rest} (hflush : faults.flush ≠ some n) (hline : decode line = none) :
      LastRound faults verbose n (line :: rest) [line] (some .invalidText)
  | left {line rest} (hflush : faults.flush ≠ some n) (hexit : Text.trim line = "exit") :
      LastRound faults verbose n (encoded line.toList :: rest) [encoded line.toList] none
  | untold {line rest e} (hflush : faults.flush ≠ some n) (herrors : faults.errors = true)
      (hfails : failure? verbose line = some e) :
      LastRound faults verbose n (encoded line.toList :: rest) [encoded line.toList]
        (some .writeRefused)

/-- What becomes of a session: it answers lines, reads more of them in its last round, and ends. -/
inductive Course (faults : Faults) (verbose : Bool) (input : List UInt8) (earlier : List String)
    (taken : List (List UInt8)) (failure : Option StreamError) : Prop
  | intro {rest} (hinput : cutLines input = encodedLines earlier ++ rest)
      (hanswered : Answered faults verbose 0 earlier)
      (hlast : LastRound faults verbose (earlier.length + 1) rest taken failure)

/-- Whether a session comes to a fault. It does if, on streams that do not fail and over the lines
before the first that is no text, it makes a write or a flush that is refused, or if it comes to the
end of these lines and a line that is no text follows. -/
inductive Reached (faults : Faults) (verbose : Bool) (input : List UInt8) : Prop
  | write {w} (hmem : w ∈ (Session.run .none verbose (validPart input)).writes)
      (hrefused : faults.refuses w.stream = true)
  | flush {n} (hpos : 0 < n)
      (hle : n ≤ (Session.run .none verbose (validPart input)).writes.count ⟨.output, "> "⟩)
      (hrefused : faults.flush = some n)
  | text {line} (hmem : line ∈ cutLines input) (hinvalid : decode line = none)
      (hstay : ∀ text ∈ textLines (cutLines input), Text.trim text ≠ "exit")

variable {faults others : Faults} {verbose : Bool} {asked n : ℕ} {line : String}
  {earlier : List String} {rest taken : List (List UInt8)} {failure : Option StreamError}

theorem answered_nil : Answered faults verbose asked [] := by
  refine ⟨List.forall_mem_nil _, List.forall_mem_nil _, ?_⟩
  intro n hlt hle
  exact absurd hle (Nat.not_le.mpr hlt)

theorem answered_cons {lines : List String} :
    Answered faults verbose asked (line :: lines) ↔
      faults.flush ≠ some (asked + 1) ∧ Text.trim line ≠ "exit" ∧
      (∀ e, failure? verbose line = some e → faults.errors = false) ∧
      Answered faults verbose (asked + 1) lines := by
  constructor
  · rintro ⟨hstay, htold, hflushed⟩
    rw [List.forall_mem_cons] at hstay htold
    rw [List.length_cons] at hflushed
    refine ⟨hflushed _ (by omega) (by omega), hstay.1, htold.1, hstay.2, htold.2, ?_⟩
    intro n hlt hle
    exact hflushed n (by omega) (by omega)
  · rintro ⟨hflush, hline, htell, hstay, htold, hflushed⟩
    refine ⟨List.forall_mem_cons.mpr ⟨hline, hstay⟩, List.forall_mem_cons.mpr ⟨htell, htold⟩, ?_⟩
    intro n hlt hle
    rw [List.length_cons] at hle
    by_cases hn : n = asked + 1
    · exact hn ▸ hflush
    · exact hflushed n (by omega) (by omega)

theorem rounds_of_lastRound_nil (houtput : faults.output = false)
    (h : LastRound faults verbose (asked + 1) rest taken failure) :
    Session.rounds faults verbose asked rest =
      ⟨[⟨.output, "> "⟩], taken.flatten.length, failure⟩ := by
  have hgranted : faults.refuses .output = false := houtput
  cases h with
  | refused hflush =>
    cases rest <;>
      rw [Session.rounds, write_granted hgranted, Session.flush, if_pos hflush] <;> rfl
  | finished hflush =>
    rw [Session.rounds, prompt_granted houtput hflush]
    rfl
  | invalid hflush hline =>
    rw [Session.rounds, prompt_granted houtput hflush, step, hline]
    simp [Session.read, Session.ended]
  | left hflush hexit =>
    rw [Session.rounds, prompt_granted houtput hflush, step_of_exit hexit]
    simp [Session.read, Session.ended]
  | untold hflush herrors hfails =>
    have hrefused : faults.refuses .errors = true := herrors
    rw [Session.rounds, prompt_granted houtput hflush, step_of_failure hfails]
    dsimp only
    rw [Session.write, if_pos hrefused]
    simp [Session.read, Session.ended]

/-- Lines that are answered and a last round after them make a session. -/
theorem rounds_of_lastRound (houtput : faults.output = false)
    (ha : Answered faults verbose asked earlier)
    (hl : LastRound faults verbose (asked + earlier.length + 1) rest taken failure) :
    Session.rounds faults verbose asked (encodedLines earlier ++ rest) =
      ⟨(records verbose earlier).flatten ++ [⟨.output, "> "⟩],
        (encodedLines earlier ++ taken).flatten.length, failure⟩ := by
  induction earlier generalizing asked with
  | nil => exact rounds_of_lastRound_nil houtput hl
  | cons line earlier ih =>
    obtain ⟨hflush, hstay, htold, htail⟩ := answered_cons.mp ha
    have hlast : asked + (line :: earlier).length + 1 = asked + 1 + earlier.length + 1 := by
      rw [List.length_cons]
      omega
    rw [encodedLines_cons, List.cons_append, rounds_line houtput hflush hstay htold,
      ih htail (hlast ▸ hl), records_cons, if_neg hstay]
    simp [length_encoded]

/-- Every session on an output that can be written to has a last round, and before it answers its
lines. -/
theorem exists_lastRound (faults : Faults) (verbose : Bool) (asked : ℕ)
    (lines : List (List UInt8)) :
    ∃ earlier rest taken failure, lines = encodedLines earlier ++ rest ∧
      Answered faults verbose asked earlier ∧
      LastRound faults verbose (asked + earlier.length + 1) rest taken failure := by
  induction lines generalizing asked with
  | nil =>
    by_cases hflush : faults.flush = some (asked + 1)
    · exact ⟨[], _, _, _, rfl, answered_nil, .refused hflush⟩
    · exact ⟨[], _, _, _, rfl, answered_nil, .finished hflush⟩
  | cons bytes lines ih =>
    -- The round is the last unless its prompt is flushed and the line lets the session go on.
    by_cases hflush : faults.flush = some (asked + 1)
    · exact ⟨[], _, _, _, rfl, answered_nil, .refused hflush⟩
    cases hline : decode bytes with
    | none => exact ⟨[], _, _, _, rfl, answered_nil, .invalid hflush hline⟩
    | some line =>
      obtain rfl := decode_eq_some_iff.mp hline
      by_cases hexit : Text.trim line = "exit"
      · exact ⟨[], _, _, _, rfl, answered_nil, .left hflush hexit⟩
      by_cases htold : ∀ e, failure? verbose line = some e → faults.errors = false
      · obtain ⟨earlier, rest, taken, failure, rfl, ha, hl⟩ := ih (asked + 1)
        have hlast : asked + 1 + earlier.length + 1 = asked + (line :: earlier).length + 1 := by
          rw [List.length_cons]
          omega
        exact ⟨line :: earlier, rest, taken, failure, rfl,
          answered_cons.mpr ⟨hflush, hexit, htold, ha⟩, hlast ▸ hl⟩
      · push Not at htold
        obtain ⟨e, hfails, herrors⟩ := htold
        exact ⟨[], _, _, _, rfl, answered_nil,
          .untold hflush (Bool.of_not_eq_false herrors) hfails⟩

theorem exists_course (faults : Faults) (verbose : Bool) (input : List UInt8) :
    ∃ earlier taken failure, Course faults verbose input earlier taken failure := by
  obtain ⟨earlier, rest, taken, failure, hinput, ha, hl⟩ :=
    exists_lastRound faults verbose 0 (cutLines input)
  rw [Nat.zero_add] at hl
  exact ⟨earlier, taken, failure, hinput, ha, hl⟩

variable {input : List UInt8}

theorem run_of_course (houtput : faults.output = false)
    (h : Course faults verbose input earlier taken failure) :
    Session.run faults verbose input =
      ⟨transcript verbose earlier, (encodedLines earlier ++ taken).flatten.length, failure⟩ := by
  obtain ⟨hinput, hanswered, hlast⟩ := h
  have hgranted : faults.refuses .output = false := houtput
  rw [← Nat.zero_add earlier.length] at hlast
  rw [Session.run, write_granted hgranted, hinput, rounds_of_lastRound houtput hanswered hlast,
    transcript]

theorem run_of_output_refused (houtput : faults.output = true) (input : List UInt8) :
    Session.run faults verbose input = ⟨[], 0, some .writeRefused⟩ := if_pos houtput

theorem LastRound.taken_isPrefix (h : LastRound faults verbose n rest taken failure) :
    taken <+: rest := by
  cases h with
  | refused => exact List.nil_prefix
  | finished => exact List.nil_prefix
  | invalid => exact List.prefix_append [_] _
  | left => exact List.prefix_append [_] _
  | untold => exact List.prefix_append [_] _

/-- A last round that is not for want of lines does not look at the lines after it. -/
theorem LastRound.append (h : LastRound faults verbose n rest taken failure) (hne : rest ≠ [])
    (more : List (List UInt8)) : LastRound faults verbose n (rest ++ more) taken failure := by
  cases h with
  | refused hflush => exact .refused hflush
  | finished => exact absurd rfl hne
  | invalid hflush hline => exact .invalid hflush hline
  | left hflush hexit => exact .left hflush hexit
  | untold hflush herrors hfails => exact .untold hflush herrors hfails

theorem textLines_cons (line : String) (lines : List (List UInt8)) :
    textLines (encoded line.toList :: lines) = line :: textLines lines := by
  rw [textLines, decode_encoded]

theorem textLines_append (lines : List String) (rest : List (List UInt8)) :
    textLines (encodedLines lines ++ rest) = lines ++ textLines rest := by
  induction lines with
  | nil => rfl
  | cons line lines ih => exact (textLines_cons line _).trans (congrArg _ ih)

theorem takeWhile_decode (lines : List (List UInt8)) :
    (lines.takeWhile fun line => (decode line).isSome) = encodedLines (textLines lines) := by
  induction lines with
  | nil => rfl
  | cons bytes lines ih =>
    cases hline : decode bytes with
    | none => simp [textLines, encodedLines, hline]
    | some line =>
      obtain rfl := decode_eq_some_iff.mp hline
      rw [List.takeWhile_cons, hline, textLines_cons, Option.isSome_some, if_pos rfl, ih]
      rfl

/-- The session in which nothing fails writes the records of the lines up to the first that is no
text. -/
theorem run_validPart (verbose : Bool) (input : List UInt8) :
    (Session.run .none verbose (validPart input)).writes =
      transcript verbose (textLines (cutLines input)) := by
  have hprefix : ((cutLines input).takeWhile fun line => (decode line).isSome) <+:
      cutAfter 10 input := cutLines_eq input ▸ List.takeWhile_prefix _
  have hcut : cutLines (validPart input) = encodedLines (textLines (cutLines input)) := by
    rw [validPart, cutLines_eq, cutAfter_flatten hprefix, takeWhile_decode]
  rw [Session.run, hcut, encodedLines, rounds_lines]
  rfl

theorem count_prompt_record (verbose : Bool) (line : String) :
    (record verbose line).count ⟨.output, "> "⟩ = 1 := by
  have hresult (text : String) : text ++ "\n" ≠ "> " := by
    intro h
    have := congrArg (fun s => s.toList.getLast?) h
    simp at this
  rw [record, List.count_cons_self, Nat.succ_inj]
  split_ifs
  · rfl
  · cases answer verbose (Text.trim line) <;> simp [hresult]

/-- A session makes a prompt for each record and one more. -/
theorem count_prompt (verbose : Bool) (lines : List String) :
    (transcript verbose lines).count ⟨.output, "> "⟩ = (beforeExit lines).length + 1 := by
  have hbanner : banner ++ "\n" ≠ "> " := by decide
  have hrecord : List.count ⟨.output, "> "⟩ ∘ record verbose = fun _ => 1 := by
    funext line
    rw [Function.comp_apply, count_prompt_record]
  rw [transcript, List.count_cons_of_ne (by simpa using hbanner), List.count_append,
    List.count_flatten, records, List.map_map, hrecord, List.count_singleton_self]
  simp

theorem stay_of_mem_beforeExit {lines : List String} (h : line ∈ beforeExit lines) :
    Text.trim line ≠ "exit" := by
  rw [beforeExit] at h
  have hline := List.mem_takeWhile_imp h
  exact of_decide_eq_true hline

/-- The record of a line tells of a failure if and only if there is one. -/
theorem errors_mem_record (hstay : Text.trim line ≠ "exit") :
    (∃ w ∈ record verbose line, w.stream = .errors) ↔
      ∃ e, failure? verbose line = some e := by
  rw [record, failure?]
  by_cases hblank : Text.trim line = ""
  · simp [hblank]
  rw [if_neg hblank, if_neg (not_or.mpr ⟨hstay, hblank⟩)]
  cases answer verbose (Text.trim line) <;> simp

theorem errors_mem_writes (verbose : Bool) (input : List UInt8) :
    (∃ w ∈ (Session.run .none verbose (validPart input)).writes, w.stream = .errors) ↔
      ∃ line ∈ beforeExit (textLines (cutLines input)), ∃ e, failure? verbose line = some e := by
  rw [run_validPart, transcript, records]
  constructor
  · rintro ⟨w, hw, hstream⟩
    simp only [List.mem_cons, List.mem_append, List.mem_flatten, List.mem_map, List.not_mem_nil,
      or_false] at hw
    obtain rfl | ⟨_, ⟨line, hline, rfl⟩, hw⟩ | rfl := hw
    · cases hstream
    · exact ⟨line, hline, (errors_mem_record (stay_of_mem_beforeExit hline)).mp ⟨w, hw, hstream⟩⟩
    · cases hstream
  · rintro ⟨line, hline, hfailure⟩
    obtain ⟨w, hw, hstream⟩ := (errors_mem_record (stay_of_mem_beforeExit hline)).mpr hfailure
    have hmem : w ∈ ((beforeExit (textLines (cutLines input))).map (record verbose)).flatten :=
      List.mem_flatten_of_mem (List.mem_map_of_mem hline) hw
    exact ⟨w, List.mem_cons_of_mem _ (List.mem_append_left _ hmem), hstream⟩

theorem prompt_isPrefix (verbose : Bool) (lines : List String) :
    [⟨.output, "> "⟩] <+: (records verbose lines).flatten ++ [⟨.output, "> "⟩] := by
  cases lines with
  | nil => exact List.prefix_rfl
  | cons line lines =>
    rw [records_cons]
    split_ifs
    · exact List.prefix_rfl
    · rw [List.flatten_cons, record, List.cons_append, List.cons_append, List.cons_prefix_cons]
      exact ⟨rfl, List.nil_prefix⟩

/-- Where the output can be written to, a session comes to a fault in three ways only. -/
theorem reached_iff (houtput : faults.output = false) :
    Reached faults verbose input ↔
      (faults.errors = true ∧
        ∃ line ∈ beforeExit (textLines (cutLines input)), ∃ e, failure? verbose line = some e) ∨
      (∃ n, 0 < n ∧ n ≤ (beforeExit (textLines (cutLines input))).length + 1 ∧
        faults.flush = some n) ∨
      (∃ line ∈ cutLines input, decode line = none) ∧
        ∀ text ∈ textLines (cutLines input), Text.trim text ≠ "exit" := by
  have hcount := count_prompt verbose (textLines (cutLines input))
  rw [← run_validPart] at hcount
  rw [← errors_mem_writes, ← hcount]
  constructor
  · intro h
    cases h with
    | @write w hmem hrefused =>
      cases hstream : w.stream with
      | output =>
        rw [hstream, Faults.refuses, houtput] at hrefused
        cases hrefused
      | errors =>
        rw [hstream] at hrefused
        exact .inl ⟨hrefused, w, hmem, hstream⟩
    | flush hpos hle hrefused => exact .inr (.inl ⟨_, hpos, hle, hrefused⟩)
    | text hmem hinvalid hstay => exact .inr (.inr ⟨⟨_, hmem, hinvalid⟩, hstay⟩)
  · rintro (⟨herrors, w, hmem, hstream⟩ | ⟨n, hpos, hle, hrefused⟩ | ⟨hinvalid, hstay⟩)
    · exact .write hmem (hstream ▸ herrors)
    · exact .flush hpos hle hrefused
    · obtain ⟨line, hmem, hline⟩ := hinvalid
      exact .text hmem hline hstay

theorem beforeExit_textLines (hstay : ∀ line ∈ earlier, Text.trim line ≠ "exit")
    (hinput : cutLines input = encodedLines earlier ++ rest) :
    beforeExit (textLines (cutLines input)) = earlier ++ beforeExit (textLines rest) := by
  rw [hinput, textLines_append, beforeExit_append hstay]

theorem mem_beforeExit_of_fails {e : LineError} (hfails : failure? verbose line = some e) :
    line ∈ earlier ++ beforeExit (textLines (encoded line.toList :: rest)) := by
  rw [textLines_cons, beforeExit_cons, if_neg (failure?_eq_some_iff.mp hfails).1]
  exact List.mem_append_right _ List.mem_cons_self

theorem LastRound.of_flush (h : LastRound faults verbose n rest taken failure)
    (hflush : faults.flush = some n) : taken = [] ∧ failure = some .flushRefused := by
  cases h with
  | refused => exact ⟨rfl, rfl⟩
  | finished hne => exact absurd hflush hne
  | invalid hne => exact absurd hflush hne
  | left hne => exact absurd hflush hne
  | untold hne => exact absurd hflush hne

theorem LastRound.flush_eq (h : LastRound faults verbose n rest taken (some .flushRefused)) :
    faults.flush = some n := by
  cases h with
  | refused hflush => exact hflush

theorem LastRound.errors_eq (h : LastRound faults verbose n rest taken (some .writeRefused)) :
    faults.errors = true := by
  cases h with
  | untold _ herrors => exact herrors

/-- After a last round with neither a flush nor a write refused, no line is left to answer. -/
theorem LastRound.beforeExit_eq_nil (h : LastRound faults verbose n rest taken failure)
    (hflush : failure ≠ some .flushRefused) (hwrite : failure ≠ some .writeRefused) :
    beforeExit (textLines rest) = [] := by
  cases h with
  | refused => exact absurd rfl hflush
  | finished => rfl
  | invalid _ hline =>
    rw [textLines, hline]
    rfl
  | left _ hexit => rw [textLines_cons, beforeExit_cons, if_pos hexit]
  | untold => exact absurd rfl hwrite

theorem Course.failure_ne_none_iff (houtput : faults.output = false)
    (h : Course faults verbose input earlier taken failure) :
    failure ≠ none ↔ Reached faults verbose input := by
  obtain ⟨hinput, ha, hl⟩ := h
  rw [reached_iff houtput, beforeExit_textLines ha.stay hinput, List.length_append, hinput,
    textLines_append]
  constructor
  · intro hfailure
    cases hl with
    | refused hflush => exact .inr (.inl ⟨earlier.length + 1, by omega, by omega, hflush⟩)
    | finished => exact absurd rfl hfailure
    | invalid _ hline =>
      refine .inr (.inr ⟨⟨_, List.mem_append_right _ List.mem_cons_self, hline⟩, ?_⟩)
      rw [textLines, hline, List.append_nil]
      exact ha.stay
    | left => exact absurd rfl hfailure
    | untold _ herrors hfails =>
      exact .inl ⟨herrors, _, mem_beforeExit_of_fails hfails, _, hfails⟩
  · -- If nothing fails then all lines are answered, and the fault is met in answering one of them.
    rintro hreached rfl
    rw [hl.beforeExit_eq_nil (by simp) (by simp), List.append_nil] at hreached
    obtain ⟨herrors, line, hline, e, hfails⟩ | ⟨n, hpos, hle, hflush⟩ | ⟨hinvalid, hstay⟩ :=
      hreached
    · rw [ha.told line hline e hfails] at herrors
      cases herrors
    · by_cases hn : n = earlier.length + 1
      · cases (hl.of_flush (hn ▸ hflush)).2
      · rw [List.length_nil] at hle
        exact ha.flushed n hpos (by omega) hflush
    · obtain ⟨line, hmem, hinvalid⟩ := hinvalid
      obtain hmem | hmem := List.mem_append.mp hmem
      · obtain ⟨text, _, rfl⟩ := List.mem_map.mp hmem
        rw [decode_encoded] at hinvalid
        cases hinvalid
      · cases hl with
        | finished => cases hmem
        | left _ hexit =>
          rw [textLines_cons] at hstay
          exact hstay _ (List.mem_append_right _ List.mem_cons_self) hexit

/-- Faults that agree on all that would be written and flushed give the session one course. -/
theorem Course.of_agree (h : Course faults verbose input earlier taken failure)
    (herrors : ∀ line ∈ beforeExit (textLines (cutLines input)), ∀ e,
      failure? verbose line = some e → others.errors = faults.errors)
    (hflush : ∀ n, 0 < n → n ≤ (beforeExit (textLines (cutLines input))).length + 1 →
      (others.flush = some n ↔ faults.flush = some n)) :
    Course others verbose input earlier taken failure := by
  obtain ⟨hinput, ha, hl⟩ := h
  rw [beforeExit_textLines ha.stay hinput] at herrors hflush
  -- Of the flushes and lines on which the two agree, the course comes to the first ones.
  have hflush (n : ℕ) (hpos : 0 < n) (hle : n ≤ earlier.length + 1) :
      others.flush = some n ↔ faults.flush = some n := by
    refine hflush n hpos (hle.trans ?_)
    rw [List.length_append]
    omega
  have hlast (hne : faults.flush ≠ some (earlier.length + 1)) :
      others.flush ≠ some (earlier.length + 1) := hne ∘ (hflush _ (Nat.succ_pos _) le_rfl).mp
  refine ⟨hinput, ⟨ha.stay, ?_, ?_⟩, ?_⟩
  · intro line hline e hfails
    rw [herrors line (List.mem_append_left _ hline) e hfails]
    exact ha.told line hline e hfails
  · intro n hpos hle hn
    exact ha.flushed n hpos hle ((hflush n hpos (by omega)).mp hn)
  · cases hl with
    | refused hn => exact .refused ((hflush _ (Nat.succ_pos _) le_rfl).mpr hn)
    | finished hne => exact .finished (hlast hne)
    | invalid hne hline => exact .invalid (hlast hne) hline
    | left hne hexit => exact .left (hlast hne) hexit
    | untold hne htrue hfails =>
      have hsame := herrors _ (mem_beforeExit_of_fails hfails) _ hfails
      exact .untold (hlast hne) (hsame.trans htrue) hfails

/-- Where the only fault is a flush that the session comes to, that flush is its last. -/
theorem Course.of_flush (h : Course faults verbose input earlier taken failure)
    (herrors : faults.errors = false) (hpos : 0 < n)
    (hle : n ≤ (beforeExit (textLines (cutLines input))).length + 1)
    (hflush : faults.flush = some n) :
    earlier.length + 1 = n ∧ taken = [] ∧ failure = some .flushRefused := by
  obtain ⟨hinput, ha, hl⟩ := h
  by_cases hn : n = earlier.length + 1
  · subst hn
    exact ⟨rfl, hl.of_flush hflush⟩
  · -- All prompts are made then, those of the lines and the last, and none of them is the one.
    have hneither : failure ≠ some .flushRefused ∧ failure ≠ some .writeRefused := by
      constructor
      · rintro rfl
        have hlast := hl.flush_eq
        rw [hflush, Option.some.injEq] at hlast
        exact hn hlast
      · rintro rfl
        have htrue := hl.errors_eq
        rw [herrors] at htrue
        cases htrue
    have hend := hl.beforeExit_eq_nil hneither.1 hneither.2
    rw [beforeExit_textLines ha.stay hinput, hend, List.append_nil] at hle
    exact absurd hflush (ha.flushed n hpos (by omega))

/-- What stands after a line that says to leave does not change the course. -/
theorem Course.append {front : List UInt8} (h : Course faults verbose front earlier taken failure)
    (hfront : front.getLast? = some 10)
    (hexit : ∃ line ∈ cutLines front, ∃ text, decode line = some text ∧ Text.trim text = "exit")
    (more : List UInt8) : Course faults verbose (front ++ more) earlier taken failure := by
  obtain ⟨hinput, ha, hl⟩ := h
  have hcut : cutLines (front ++ more) = cutLines front ++ cutLines more := by
    rw [cutLines_eq, cutAfter_append_of_getLast? more hfront, ← cutLines_eq, ← cutLines_eq]
  rw [hinput, List.append_assoc] at hcut
  refine ⟨hcut, ha, hl.append ?_ _⟩
  rintro rfl
  obtain ⟨bytes, hmem, text, htext, htrim⟩ := hexit
  rw [hinput, List.append_nil] at hmem
  obtain ⟨line, hline, rfl⟩ := List.mem_map.mp hmem
  rw [decode_encoded, Option.some.injEq] at htext
  exact ha.stay line hline (htext ▸ htrim)

theorem Course.writes_isPrefix (h : Course faults verbose input earlier taken failure) :
    transcript verbose earlier <+: (Session.run .none verbose (validPart input)).writes := by
  obtain ⟨hinput, ha, hl⟩ := h
  have hstay : ¬ ∃ line ∈ earlier, Text.trim line = "exit" := by
    rintro ⟨line, hline, hexit⟩
    exact ha.stay line hline hexit
  rw [run_validPart, hinput, textLines_append, transcript, transcript, records_append,
    if_neg hstay, List.flatten_append, List.append_assoc, List.cons_prefix_cons,
    List.prefix_append_right_inj]
  exact ⟨rfl, prompt_isPrefix verbose _⟩

theorem Course.lines_isPrefix (h : Course faults verbose input earlier taken failure) :
    encodedLines earlier ++ taken <+: cutLines input := by
  obtain ⟨hinput, ha, hl⟩ := h
  rw [hinput, List.prefix_append_right_inj]
  exact hl.taken_isPrefix

section Run

variable (faults verbose input)

theorem banner_mem_writes : ⟨.output, banner ++ "\n"⟩ ∈
    (Session.run .none verbose (validPart input)).writes := by
  rw [run_validPart]
  exact List.mem_cons_self

/-- A session does nothing or takes a course. -/
theorem run_cases :
    (faults.output = true ∧ Session.run faults verbose input = ⟨[], 0, some .writeRefused⟩) ∨
    faults.output = false ∧ ∃ earlier taken failure,
      Course faults verbose input earlier taken failure ∧
      Session.run faults verbose input =
        ⟨transcript verbose earlier, (encodedLines earlier ++ taken).flatten.length,
          failure⟩ := by
  cases houtput : faults.output with
  | true => exact .inl ⟨rfl, run_of_output_refused houtput input⟩
  | false =>
    obtain ⟨earlier, taken, failure, h⟩ := exists_course faults verbose input
    exact .inr ⟨rfl, earlier, taken, failure, h, run_of_course houtput h⟩

theorem run_writes_isPrefix : (Session.run faults verbose input).writes <+:
    (Session.run .none verbose (validPart input)).writes := by
  obtain ⟨_, hrun⟩ | ⟨_, earlier, taken, failure, h, hrun⟩ := run_cases faults verbose input
  · rw [hrun]
    exact List.nil_prefix
  · rw [hrun]
    exact h.writes_isPrefix

theorem run_consumed_lines : ∃ lines, lines <+: cutLines input ∧
    (Session.run faults verbose input).consumed = lines.flatten.length := by
  obtain ⟨_, hrun⟩ | ⟨_, earlier, taken, failure, h, hrun⟩ := run_cases faults verbose input
  · exact ⟨[], List.nil_prefix, by rw [hrun]; rfl⟩
  · exact ⟨_, h.lines_isPrefix, by rw [hrun]⟩

theorem run_failure_ne_none_iff :
    (Session.run faults verbose input).failure ≠ none ↔ Reached faults verbose input := by
  obtain ⟨houtput, hrun⟩ | ⟨houtput, earlier, taken, failure, h, hrun⟩ :=
    run_cases faults verbose input
  · rw [hrun]
    exact iff_of_true (by simp) (.write (banner_mem_writes verbose input) houtput)
  · rw [hrun]
    exact h.failure_ne_none_iff houtput

end Run

/-- Where the one fault is the refusal of a flush that the session comes to, that flush is its
last. -/
theorem run_of_flush (houtput : faults.output = false) (herrors : faults.errors = false)
    (hflush : faults.flush = some n) (hpos : 0 < n)
    (hle : n ≤ (Session.run .none verbose (validPart input)).writes.count ⟨.output, "> "⟩) :
    (Session.run faults verbose input).failure = some .flushRefused ∧
    (Session.run faults verbose input).writes.count ⟨.output, "> "⟩ = n ∧
    ∃ lines, lines <+: cutLines input ∧ lines.length + 1 = n ∧
      (Session.run faults verbose input).consumed = lines.flatten.length := by
  obtain ⟨earlier, taken, failure, h⟩ := exists_course faults verbose input
  rw [run_validPart, count_prompt] at hle
  obtain ⟨rfl, rfl, rfl⟩ := h.of_flush herrors hpos hle hflush
  rw [run_of_course houtput h]
  obtain ⟨hinput, ha, hl⟩ := h
  refine ⟨rfl, ?_, encodedLines earlier, ?_, ?_, ?_⟩
  · rw [count_prompt, beforeExit_of_forall ha.stay]
  · exact hinput ▸ List.prefix_append _ _
  · rw [encodedLines, List.length_map]
  · rw [List.append_nil]

theorem run_of_agree
    (hwrites : ∀ w ∈ (Session.run .none verbose (validPart input)).writes,
      others.refuses w.stream = faults.refuses w.stream)
    (hflush : ∀ n, 0 < n →
      n ≤ (Session.run .none verbose (validPart input)).writes.count ⟨.output, "> "⟩ →
      (others.flush = some n ↔ faults.flush = some n)) :
    Session.run others verbose input = Session.run faults verbose input := by
  have hsame : others.output = faults.output := hwrites _ (banner_mem_writes verbose input)
  obtain ⟨houtput, hrun⟩ | ⟨houtput, earlier, taken, failure, h, hrun⟩ :=
    run_cases faults verbose input
  · rw [hrun, run_of_output_refused (hsame.trans houtput)]
  · rw [run_validPart, count_prompt] at hflush
    have hothers : Course others verbose input earlier taken failure := by
      refine h.of_agree ?_ hflush
      intro line hline e hfails
      obtain ⟨w, hw, hstream⟩ := (errors_mem_writes verbose input).mpr ⟨line, hline, e, hfails⟩
      have hrefuses := hwrites w hw
      rw [hstream] at hrefuses
      exact hrefuses
    rw [hrun, run_of_course (hsame.trans houtput) hothers]

theorem run_append_of_exit (faults : Faults) (verbose : Bool) {front : List UInt8}
    (more : List UInt8) (hfront : front.getLast? = some 10)
    (hexit : ∃ line ∈ cutLines front, ∃ text, decode line = some text ∧ Text.trim text = "exit") :
    Session.run faults verbose (front ++ more) = Session.run faults verbose front := by
  obtain ⟨houtput, hrun⟩ | ⟨houtput, earlier, taken, failure, h, hrun⟩ :=
    run_cases faults verbose front
  · rw [hrun, run_of_output_refused houtput]
  · rw [hrun, run_of_course houtput (h.append hfront hexit more)]

/-- A session whose streams may fail, next to the one in which nothing fails and which goes on to
the first line that is no text. The input is cut after its line feeds. What the session writes is a
first part of what the other one writes, it has read whole lines, and it fails if and only if it
comes to a fault. Nothing happens if the output is
refused. Otherwise it takes a course, which says what it writes, reads and fails with. Of the faults
only those matter that it comes to, and none that lies after a line that says to leave does. -/
theorem faults_cut_session_short (faults : Faults) (verbose : Bool) (input : List UInt8) :
    let whole := Session.run .none verbose (validPart input)
    let session := Session.run faults verbose input
    Cut 10 input (cutLines input) ∧ session.writes <+: whole.writes ∧
    (∃ lines, lines <+: cutLines input ∧ session.consumed = lines.flatten.length) ∧
    (session.failure ≠ none ↔ Reached faults verbose input) ∧
    (faults.output = true → session = ⟨[], 0, some .writeRefused⟩) ∧
    (faults.output = false →
      (∃ earlier taken failure, Course faults verbose input earlier taken failure) ∧
      ∀ earlier taken failure, Course faults verbose input earlier taken failure →
        session =
          ⟨transcript verbose earlier, (encodedLines earlier ++ taken).flatten.length,
            failure⟩) ∧
    (∀ n, faults = ⟨false, false, some n⟩ → 0 < n →
      n ≤ whole.writes.count ⟨.output, "> "⟩ →
      session.failure = some .flushRefused ∧ session.writes.count ⟨.output, "> "⟩ = n ∧
      ∃ lines, lines <+: cutLines input ∧ lines.length + 1 = n ∧
        session.consumed = lines.flatten.length) ∧
    (∀ others : Faults,
      (∀ w ∈ whole.writes, others.refuses w.stream = faults.refuses w.stream) →
      (∀ n, 0 < n → n ≤ whole.writes.count ⟨.output, "> "⟩ →
        (others.flush = some n ↔ faults.flush = some n)) →
      Session.run others verbose input = session) ∧
    ∀ front more, input = front ++ more → front.getLast? = some 10 →
      (∃ line ∈ cutLines front, ∃ text, decode line = some text ∧ Text.trim text = "exit") →
      session = Session.run faults verbose front := by
  refine ⟨cut_cutLines input, run_writes_isPrefix faults verbose input,
    run_consumed_lines faults verbose input, run_failure_ne_none_iff faults verbose input,
    ?_, ?_, ?_, ?_, ?_⟩
  · intro houtput
    exact run_of_output_refused houtput input
  · intro houtput
    refine ⟨exists_course faults verbose input, ?_⟩
    intro earlier taken failure h
    exact run_of_course houtput h
  · rintro n rfl hpos hle
    exact run_of_flush rfl rfl rfl hpos hle
  · intro others hwrites hflush
    exact run_of_agree hwrites hflush
  · rintro front more rfl hfront hexit
    exact run_append_of_exit faults verbose more hfront hexit

-- Of two faults, the flush comes before the line that fails.
example : Session.run ⟨false, true, some 3⟩ false (encoded "1\n\nsin\n2\n".toList) =
    ⟨[⟨.output, banner ++ "\n"⟩, ⟨.output, "> "⟩, ⟨.output, "Result: 1\n"⟩, ⟨.output, "> "⟩,
      ⟨.output, "> "⟩], 3, some .flushRefused⟩ := by
  decide +kernel

end Calculator
