import Calculator.Proofs.StreamTexts
import Calculator.Proofs.Visible

namespace Calculator

def prompts (n : ℕ) : String := String.join (List.replicate n "> ")

def promptChars : List Char → List Char
  | '>' :: ' ' :: cs => '>' :: ' ' :: promptChars cs
  | _ => []

/-- Whether a line tells a result, right away or behind prompts. -/
def TellsResult (line : String) : Prop :=
  "Result: ".toList <+: line.toList.drop (promptChars line.toList).length

instance : DecidablePred TellsResult := fun line =>
  inferInstanceAs (Decidable ("Result: ".toList <+: line.toList.drop _))

/-- What is left of some lines when those above a result are deleted. A session does not end the
line of a prompt, so the prompts that such a line starts with stay. -/
def withoutTrees : List String → String
  | line :: next :: lines =>
    (if TellsResult next then String.ofList (promptChars line.toList) else line) ++
      withoutTrees (next :: lines)
  | [line] => line
  | [] => ""

/-- The lines of a verbose output for some results, behind so many prompts. -/
def verboseLines : ℕ → List (Option (Expr × Float)) → List String
  | n, [] => [prompts (n + 1)]
  | n, none :: results => verboseLines (n + 1) results
  | n, some (e, x) :: results =>
    (prompts (n + 1) ++ treeText e ++ "\n") :: (resultText x ++ "\n") :: verboseLines 0 results

variable {n : ℕ} {results : List (Option (Expr × Float))} {e : Expr} {x : Float}

theorem prompts_zero : prompts 0 = "" := rfl

theorem prompts_succ (n : ℕ) : prompts (n + 1) = "> " ++ prompts n := by
  rw [prompts, List.replicate_succ, String.join_cons, ← prompts]

theorem prompts_append (n : ℕ) : prompts n ++ "> " = prompts (n + 1) := by
  rw [prompts, prompts, List.replicate_succ', String.join_append]
  simp

theorem clear_prompts (n : ℕ) : Text.Clear (prompts n) := by
  induction n with
  | zero => exact Text.clear_of_plain rfl
  | succ n ih =>
    rw [prompts_succ]
    exact Text.clear_append.mpr ⟨Text.clear_of_plain (by decide), ih⟩

theorem promptChars_append (n : ℕ) (cs : List Char) :
    promptChars ((prompts n).toList ++ cs) = (prompts n).toList ++ promptChars cs := by
  induction n with
  | zero => rfl
  | succ n ih =>
    rw [prompts_succ, String.toList_append]
    exact congrArg ('>' :: ' ' :: ·) ih

theorem tellsResult_append (n : ℕ) (s : String) : TellsResult (prompts n ++ s) ↔ TellsResult s := by
  rw [TellsResult, TellsResult, String.toList_append, promptChars_append, List.length_append,
    List.drop_length_add_append]

/-- A tree begins neither as a prompt does nor as a result. -/
theorem toList_tree (e : Expr) : ∃ cs, (treeText e ++ "\n").toList = 'T' :: cs := by
  refine ⟨("ree: " ++ e.text ++ " [" ++ toString e.size ++ " nodes]" ++ "\n").toList, ?_⟩
  simp only [treeText, String.toList_append]
  rfl

theorem promptChars_tree (n : ℕ) (e : Expr) :
    String.ofList (promptChars (prompts n ++ treeText e ++ "\n").toList) = prompts n := by
  obtain ⟨cs, hcs⟩ := toList_tree e
  have hnone : promptChars ('T' :: cs) = [] := rfl
  rw [String.append_assoc, String.toList_append, hcs, promptChars_append, hnone, List.append_nil,
    String.ofList_toList]

theorem not_tellsResult_tree (n : ℕ) (e : Expr) :
    ¬ TellsResult (prompts n ++ treeText e ++ "\n") := by
  obtain ⟨cs, hcs⟩ := toList_tree e
  rw [String.append_assoc, tellsResult_append, TellsResult, hcs]
  intro h
  exact absurd (List.cons_prefix_cons.mp h).1 (by decide)

theorem not_tellsResult_prompts (n : ℕ) : ¬ TellsResult (prompts n) := by
  rw [← String.append_empty (s := prompts n), tellsResult_append]
  decide

theorem tellsResult_resultText (x : Float) : TellsResult (resultText x ++ "\n") := by
  rw [TellsResult, resultText, String.toList_append, String.toList_append, List.append_assoc]
  exact List.prefix_append _ _

/-- The trees and the results of a verbose output have lines of their own. -/
theorem linesOf_outputFor (hnamed : ∀ e x, some (e, x) ∈ results → e.Named) (n : ℕ) :
    linesOf (prompts n ++ outputFor true results) = verboseLines n results := by
  induction results generalizing n with
  | nil =>
    have hne : prompts (n + 1) ≠ "" := by
      rw [prompts_succ]
      simp
    have houtput : prompts n ++ outputFor true [] = prompts (n + 1) := prompts_append n
    rw [houtput, linesOf_single hne (clear_prompts _).newline_not_mem]
    rfl
  | cons result results ih =>
    have hrest := ih fun e x hmem => hnamed e x (List.mem_cons_of_mem _ hmem)
    cases result with
    | none =>
      -- The prompt stays before the next one.
      rw [outputFor, ← String.append_assoc, prompts_append]
      exact hrest (n + 1)
    | some answer =>
      obtain ⟨e, x⟩ := answer
      have htree : Text.Clear (prompts (n + 1) ++ treeText e) :=
        Text.clear_append.mpr ⟨clear_prompts _, clear_treeText (hnamed e x List.mem_cons_self)⟩
      have hlines : prompts n ++ outputFor true (some (e, x) :: results) =
          prompts (n + 1) ++ treeText e ++ "\n" ++
            (resultText x ++ "\n" ++ (prompts 0 ++ outputFor true results)) := by
        have hanswer : answerText true e x = treeText e ++ "\n" ++ resultText x := rfl
        simp only [outputFor, hanswer, prompts_zero, ← prompts_append, String.append_assoc,
          String.empty_append]
      rw [hlines, linesOf_line _ htree.newline_not_mem,
        linesOf_line _ (clear_resultText x).newline_not_mem, hrest 0]
      rfl

theorem head?_verboseLines (n : ℕ) (results : List (Option (Expr × Float))) :
    ∀ line ∈ (verboseLines n results).head?, ¬ TellsResult line := by
  induction results generalizing n with
  | nil =>
    rintro line ⟨⟩
    exact not_tellsResult_prompts (n + 1)
  | cons result results ih =>
    cases result with
    | none => exact ih (n + 1)
    | some answer =>
      rintro line ⟨⟩
      exact not_tellsResult_tree (n + 1) answer.1

theorem withoutTrees_cons {line : String} {lines : List String}
    (h : ∀ next ∈ lines.head?, ¬ TellsResult next) :
    withoutTrees (line :: lines) = line ++ withoutTrees lines := by
  cases lines with
  | nil => simp [withoutTrees]
  | cons next lines => rw [withoutTrees, if_neg (h next rfl)]

/-- Without the trees, the lines of a verbose output are the output that is not verbose. -/
theorem withoutTrees_verboseLines (n : ℕ) (results : List (Option (Expr × Float))) :
    withoutTrees (verboseLines n results) = prompts n ++ outputFor false results := by
  induction results generalizing n with
  | nil => exact (prompts_append n).symm
  | cons result results ih =>
    cases result with
    | none =>
      rw [outputFor, ← String.append_assoc, prompts_append]
      exact ih (n + 1)
    | some answer =>
      obtain ⟨e, x⟩ := answer
      have hanswer : answerText false e x = resultText x := rfl
      rw [verboseLines, withoutTrees, if_pos (tellsResult_resultText x), promptChars_tree,
        withoutTrees_cons (head?_verboseLines 0 results), ih, outputFor, hanswer, prompts_zero,
        String.empty_append, ← prompts_append]
      simp only [String.append_assoc]

/-- Above each result of a verbose output stands the line of its tree. -/
theorem tree_above_result {before after : List String} {next : String}
    (hlines : verboseLines n results = before ++ next :: after) (hnext : TellsResult next) :
    ∃ earlier m e x, some (e, x) ∈ results ∧
      before = earlier ++ [prompts m ++ treeText e ++ "\n"] ∧ next = resultText x ++ "\n" := by
  induction results generalizing n before with
  | nil =>
    have hlast : next ∈ verboseLines n [] := by simp [hlines]
    obtain rfl : next = prompts (n + 1) := List.mem_singleton.mp hlast
    exact absurd hnext (not_tellsResult_prompts _)
  | cons result results ih =>
    cases result with
    | none =>
      obtain ⟨earlier, m, e, x, hmem, hsplit⟩ := ih hlines
      exact ⟨earlier, m, e, x, List.mem_cons_of_mem _ hmem, hsplit⟩
    | some answer =>
      obtain ⟨e, x⟩ := answer
      rw [verboseLines] at hlines
      -- The line is not that of the tree, so it is that of the result or comes later.
      rcases before with _ | ⟨tree, _ | ⟨told, before⟩⟩
      · obtain ⟨rfl, -⟩ := List.cons.inj hlines
        exact absurd hnext (not_tellsResult_tree _ e)
      · simp only [List.cons_append, List.nil_append, List.cons.injEq] at hlines
        obtain ⟨rfl, rfl, -⟩ := hlines
        exact ⟨[], n + 1, e, x, List.mem_cons_self, rfl, rfl⟩
      · simp only [List.cons_append, List.cons.injEq] at hlines
        obtain ⟨rfl, rfl, hrest⟩ := hlines
        obtain ⟨earlier, m, e', x', hmem, rfl, hresult⟩ := ih hrest
        exact ⟨_ :: _ :: earlier, m, e', x', List.mem_cons_of_mem _ hmem, rfl, hresult⟩

/-- The results that a session shows are the values of lines. -/
theorem of_mem_resultOf {lines : List String} (h : some (e, x) ∈ lines.map resultOf) :
    ∃ line ∈ lines, Expr.parse (Text.trim line) = .ok e ∧ e.eval = .ok x := by
  obtain ⟨line, hmem, hline⟩ := List.mem_map.mp h
  rw [resultOf] at hline
  split_ifs at hline
  refine ⟨line, hmem, ?_⟩
  rcases solved_cases (Text.trim line) with ⟨_, _, hs⟩ | ⟨_, _, _, _, hs⟩ | ⟨e', x', hp, he, hs⟩
  · rw [hs] at hline
    cases hline
  · rw [hs] at hline
    cases hline
  · rw [hs] at hline
    cases hline
    exact ⟨hp, he⟩

theorem linesOf_verbose_transcript {lines : List String}
    (hstay : ∀ line ∈ lines, Text.trim line ≠ "exit") :
    linesOf (shown .output (transcript true lines)) =
      (banner ++ "\n") :: verboseLines 0 (lines.map resultOf) := by
  have hbanner : Text.Clear banner := Text.clear_of_plain (by decide)
  have hnamed : ∀ e x, some (e, x) ∈ lines.map resultOf → e.Named := by
    intro e x hmem
    obtain ⟨line, -, hparse, -⟩ := of_mem_resultOf hmem
    exact named_of_parse hparse
  rw [shown_output_transcript, beforeExit_of_forall hstay, linesOf_line _ hbanner.newline_not_mem,
    ← linesOf_outputFor hnamed 0, prompts_zero, String.empty_append]

/-- A verbose session ends as another does, whatever fails, has read the same and written the same
errors. Its output without the trees is the output of the other. Each result on it stands below the
line that has, behind its prompts, the tree of the expression and the number of its nodes; and each
line that is answered adds these two lines if it has a value, and its prompt if it has none. -/
theorem verbose_only_adds_trees (faults : Faults) (input : List UInt8) :
    let loud := Session.run faults true input
    let quiet := Session.run faults false input
    loud.failure = quiet.failure ∧ loud.consumed = quiet.consumed ∧
    loud.textOf .errors = quiet.textOf .errors ∧
    withoutTrees (linesOf (loud.textOf .output)) = quiet.textOf .output ∧
    (∀ before next after, linesOf (loud.textOf .output) = before ++ next :: after →
      TellsResult next →
      ∃ earlier n e x, before = earlier ++ [prompts n ++ treeText e ++ "\n"] ∧
        next = resultText x ++ "\n" ∧
        ∃ line ∈ textLines (cutLines input), Expr.parse (Text.trim line) = .ok e ∧
          e.eval = .ok x) ∧
    (faults.output = false → ∃ answered taken failure,
      Course faults true input answered taken failure ∧
      linesOf (loud.textOf .output) =
        (banner ++ "\n") :: verboseLines 0 (answered.map resultOf) ∧
      quiet.textOf .output = banner ++ "\n" ++ outputFor false (answered.map resultOf)) := by
  obtain ⟨houtput, hloud⟩ | ⟨houtput, lines, taken, failure, hcourse, hloud⟩ :=
    run_cases faults true input
  · rw [hloud, run_of_output_refused houtput]
    refine ⟨rfl, rfl, rfl, rfl, ?_, ?_⟩
    · intro before next after hlines
      have hnone : linesOf (Session.textOf ⟨[], 0, some .writeRefused⟩ .output) = [] := rfl
      rw [hnone] at hlines
      exact absurd hlines.symm (by simp)
    · intro hgranted
      rw [houtput] at hgranted
      cases hgranted
  · -- Both take one course, and only what they write of the results differs.
    rw [hloud, run_of_course houtput (hcourse.of_verbose false)]
    have ⟨hinput, hanswered, _⟩ := hcourse
    have hlines := linesOf_verbose_transcript hanswered.stay
    have hquiet : shown .output (transcript false lines) =
        banner ++ "\n" ++ outputFor false (lines.map resultOf) := by
      rw [shown_output_transcript, beforeExit_of_forall hanswered.stay]
    refine ⟨rfl, rfl, ?_, ?_, ?_, fun _ => ⟨lines, taken, failure, hcourse, hlines, hquiet⟩⟩
    · rw [textOf_eq_shown, textOf_eq_shown, shown_errors_transcript, shown_errors_transcript,
        failures_eq true false]
    · rw [textOf_eq_shown, textOf_eq_shown, hlines, hquiet,
        withoutTrees_cons (head?_verboseLines _ _), withoutTrees_verboseLines, prompts_zero,
        String.empty_append]
    · intro before next after hsplit hnext
      rw [textOf_eq_shown, hlines] at hsplit
      cases before with
      | nil =>
        obtain ⟨rfl, -⟩ := List.cons.inj hsplit
        exact absurd hnext (by decide)
      | cons first before =>
        obtain ⟨rfl, hrest⟩ := List.cons.inj hsplit
        obtain ⟨earlier, m, e, x, hmem, rfl, hresult⟩ := tree_above_result hrest hnext
        obtain ⟨line, hline, hvalue⟩ := of_mem_resultOf hmem
        have htext : line ∈ textLines (cutLines input) := by
          rw [hinput, textLines_append]
          exact List.mem_append_left _ hline
        exact ⟨_ :: earlier, m, e, x, rfl, hresult, line, htext, hvalue⟩

/-- A blank line leaves its prompt before the next, and so before the tree of the line after it. -/
theorem result_below_tree_behind_prompts :
    linesOf ((Session.run ⟨false, true, some 4⟩ true
      (encoded "\n2-1\nsin\n".toList)).textOf .output) =
        [banner ++ "\n", "> > Tree: (2 - 1) [3 nodes]\n", "Result: 1\n", "> "] ∧
    TellsResult "Result: 1\n" ∧
    (Session.run ⟨false, true, some 4⟩ false (encoded "\n2-1\nsin\n".toList)).textOf .output =
      banner ++ "\n> > Result: 1\n> " ∧
    (∃ earlier n e x, [banner ++ "\n", "> > Tree: (2 - 1) [3 nodes]\n"] =
      earlier ++ [prompts n ++ treeText e ++ "\n"] ∧ "Result: 1\n" = resultText x ++ "\n") ∧
    ∃ answered taken failure,
      Course ⟨false, true, some 4⟩ true (encoded "\n2-1\nsin\n".toList) answered taken failure ∧
      [banner ++ "\n", "> > Tree: (2 - 1) [3 nodes]\n", "Result: 1\n", "> "] =
        (banner ++ "\n") :: verboseLines 0 (answered.map resultOf) := by
  have hlines : linesOf ((Session.run ⟨false, true, some 4⟩ true
      (encoded "\n2-1\nsin\n".toList)).textOf .output) =
        [banner ++ "\n", "> > Tree: (2 - 1) [3 nodes]\n", "Result: 1\n", "> "] := by
    decide +kernel
  have htells : TellsResult "Result: 1\n" := by decide
  obtain ⟨-, -, -, hquiet, htrees, hcourse⟩ :=
    verbose_only_adds_trees ⟨false, true, some 4⟩ (encoded "\n2-1\nsin\n".toList)
  rw [hlines] at hquiet hcourse
  obtain ⟨earlier, n, e, x, hbefore, hnext, -⟩ := htrees [_, _] _ [_] hlines htells
  obtain ⟨answered, taken, failure, hanswered, htold, -⟩ := hcourse rfl
  exact ⟨hlines, htells, hquiet.symm.trans (by decide +kernel), ⟨earlier, n, e, x, hbefore, hnext⟩,
    answered, taken, failure, hanswered, htold⟩

end Calculator
