import Mathlib.Data.List.TakeWhile
import Calculator.Proofs.Pieces
import Calculator.Proofs.Slices

namespace Calculator

/-- How tokens of one kind are recognised at the front of a text: by a character it takes, or by as
many of them as there are. -/
structure Rule where
  kind : Kind
  repeats : Bool
  takes : Char → Bool

def rules : List Rule :=
  [⟨.number, true, fun c => c.isDigit || c = '.'⟩,
   ⟨.identifier, true, fun c => c.isAlpha⟩,
   ⟨.plus, false, fun c => c = '+'⟩,
   ⟨.minus, false, fun c => c = '-'⟩,
   ⟨.star, false, fun c => c = '*'⟩,
   ⟨.slash, false, fun c => c = '/'⟩,
   ⟨.caret, false, fun c => c = '^'⟩,
   ⟨.leftParen, false, fun c => c = '('⟩,
   ⟨.rightParen, false, fun c => c = ')'⟩,
   ⟨.whitespace, true, Text.isBlank⟩,
   ⟨.stray, false, fun _ => true⟩]

def Rule.matched (r : Rule) (cs : List Char) : List Char :=
  if r.repeats then cs.takeWhile r.takes else (cs.take 1).takeWhile r.takes

/-- The longest match at the front of a text, with its kind. Of rules that take equally much the
first one counts. -/
def longest (cs : List Char) : Kind × List Char :=
  rules.foldl (fun best r =>
    if byteLength best.2 < byteLength (r.matched cs) then (r.kind, r.matched cs) else best)
    (.stray, [])

def ruledKinds : List Kind :=
  [.number, .identifier, .plus, .minus, .star, .slash, .caret, .leftParen, .rightParen, .whitespace]

theorem rules_eq : rules =
    ruledKinds.map (fun k => ⟨k, k.runs, fun c => Kind.ofChar c = k⟩) ++
      [⟨.stray, false, fun _ => true⟩] := by
  simp [rules, ruledKinds, Kind.runs, ofChar_eq_iff, Kind.Allows]

theorem longest_cons (c : Char) (cs : List Char) :
    longest (c :: cs) = (Kind.ofChar c,
      if (Kind.ofChar c).runs then (c :: cs).takeWhile (fun x => Kind.ofChar x = Kind.ofChar c)
      else [c]) := by
  have h0 : byteLength [] = 0 := rfl
  have hpos : ∀ cs, 0 < byteLength (c :: cs) := fun cs => byteLength_pos (by simp)
  have hle : ∀ cs, ¬ byteLength (c :: cs) < byteLength [c] := by
    intro cs
    rw [← List.singleton_append, byteLength_append]
    omega
  rw [longest, rules_eq]
  cases hk : Kind.ofChar c <;>
    simp [ruledKinds, Rule.matched, Kind.runs, List.takeWhile_cons, hk, h0, hpos, hle]

/-- Some rule takes at least one character, and all that it takes stands at the front. -/
theorem longest_ne_nil {cs : List Char} (h : cs ≠ []) : (longest cs).2 ≠ [] := by
  obtain ⟨c, cs, rfl⟩ := List.exists_cons_of_ne_nil h
  rw [longest_cons]
  split_ifs <;> simp

theorem exists_longest (c : Char) (cs : List Char) :
    ∃ taken rest, c :: cs = taken ++ rest ∧ longest (c :: cs) = (Kind.ofChar c, taken) ∧
      Lexeme.Proper ⟨Kind.ofChar c, taken⟩ ∧ ¬ Joins taken rest := by
  rw [longest_cons]
  cases hruns : (Kind.ofChar c).runs with
  | true =>
    -- The run ends before a character of another kind.
    let same (x : Char) : Bool := Kind.ofChar x = Kind.ofChar c
    refine ⟨(c :: cs).takeWhile same, (c :: cs).dropWhile same,
      List.takeWhile_append_dropWhile.symm, rfl, ⟨by simp [same], ?_⟩, ?_⟩
    · rw [allows_iff_of_runs hruns]
      intro x hx
      simpa [same] using List.mem_takeWhile_imp hx
    · rintro ⟨a, ha, b, hb, hab, -⟩
      have hsame : Kind.ofChar a = Kind.ofChar c := by
        simpa [same] using List.mem_takeWhile_imp (List.mem_of_getLast? ha)
      have hother := List.head?_dropWhile_not same (c :: cs)
      rw [Option.mem_def.mp hb] at hother
      simp [same, ← hab, hsame] at hother
  | false =>
    refine ⟨[c], cs, rfl, by simp, ⟨by simp, allows_ofChar c⟩, ?_⟩
    rintro ⟨a, ha, b, -, -, hr⟩
    obtain rfl : c = a := by simpa using ha
    simp [hruns] at hr

/-- The longest match is the first piece of a text. -/
theorem lexemes_eq_longest {cs : List Char} (h : cs ≠ []) :
    lexemes cs = ⟨(longest cs).1, (longest cs).2⟩ :: lexemes (cs.drop (longest cs).2.length) := by
  obtain ⟨c, cs, rfl⟩ := List.exists_cons_of_ne_nil h
  obtain ⟨taken, rest, hcs, hlongest, hproper, hcut⟩ := exists_longest c cs
  rw [hlongest, hcs, lexemes_append hcut, List.drop_left]
  rw [show lexemes taken = _ from lexemes_of_proper hproper]
  rfl

theorem longest_isPrefix (cs : List Char) : (longest cs).2 <+: cs := by
  cases cs with
  | nil => exact List.prefix_rfl
  | cons c cs =>
    obtain ⟨taken, rest, hcs, hlongest, -, -⟩ := exists_longest c cs
    rw [hlongest, hcs]
    exact List.prefix_append taken rest

/-- Cuts a text from its front, by the longest match again and again. Each step takes a character at
least, so the text comes to its end. -/
def munch (start : ℕ) : List Char → List Token
  | [] => []
  | c :: cs =>
    let best := longest (c :: cs)
    let token : Token := ⟨best.1, String.ofList best.2, start⟩
    token :: munch token.finish ((c :: cs).drop best.2.length)
termination_by cs => cs.length
decreasing_by
  have htaken : 0 < (longest (c :: cs)).2.length :=
    List.length_pos_iff.mpr (longest_ne_nil (by simp))
  rw [List.length_drop, List.length_cons]
  omega

theorem munch_eq_place (start : ℕ) (cs : List Char) :
    munch start cs = place start (lexemes cs) := by
  induction start, cs using munch.induct with
  | case1 start => rw [munch]; rfl
  | case2 start c cs best token ih =>
    rw [munch, lexemes_eq_longest (by simp), place]
    exact congrArg _ ih

end Calculator
