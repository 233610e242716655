import Calculator.Expr.Eval
import Calculator.Proofs.Height

namespace Calculator

variable {L d n : ℕ} {us : List Token} {e : Expr}

def Expr.tall : ℕ → Expr
  | 0 => .number Number.e
  | n + 1 =>
    let base := Expr.binary .power (.call "f" (tall n)) (.number Number.e)
    ((base.repeated .multiply (n + 1)).repeated .add (n + 1))

def tallChars : ℕ → List Char
  | 0 => ['e']
  | n + 1 =>
    ['f', '('] ++ tallChars n ++ [')', '^', 'e'] ++ repeatedChars .multiply (n + 1) ++
      repeatedChars .add (n + 1)

theorem height_tall (n : ℕ) : (Expr.tall n).height = n * n + 3 * n := by
  induction n with
  | zero => rfl
  | succ n ih =>
    have hsq : (n + 1) * (n + 1) = n * n + 2 * n + 1 := by ring
    rw [Expr.tall, height_repeated, height_repeated]
    simp only [Expr.height, ih, hsq]
    omega

/-- How far down the evaluation of an expression goes. The right side of an operation is visited
only if the left side has a value. -/
def Expr.evalDepth (table : FunctionTable) : Expr → ℕ
  | .number _ => 0
  | .binary _ left right =>
    max (left.evalDepth table)
      (if (left.evalWith table).isOk then right.evalDepth table else 0) + 1
  | .call _ argument => argument.evalDepth table + 1

theorem evalDepth_le_height (table : FunctionTable) (e : Expr) :
    e.evalDepth table ≤ e.height := by
  induction e with
  | number x => exact le_rfl
  | binary o left right ihl ihr =>
    rw [Expr.evalDepth, Expr.height]
    split <;> omega
  | call f argument ih => exact Nat.succ_le_succ ih

theorem evalDepth_repeated (table : FunctionTable) (o : Operator) (first : Expr) (n : ℕ) :
    (first.repeated o n).evalDepth table = first.evalDepth table + n := by
  induction n with
  | zero => rfl
  | succ n ih =>
    rw [Expr.repeated, Expr.evalDepth, ih]
    simp [Expr.evalDepth, Nat.add_assoc]

/-- The longest way down leads through left sides and arguments, which are evaluated first. -/
theorem evalDepth_tall (table : FunctionTable) (n : ℕ) :
    (Expr.tall n).evalDepth table = (Expr.tall n).height := by
  induction n with
  | zero => rfl
  | succ n ih =>
    rw [Expr.tall, evalDepth_repeated, evalDepth_repeated, height_repeated, height_repeated]
    simp [Expr.evalDepth, Expr.height, ih]

theorem wordsOf_tallChars (n : ℕ) : wordsOf (tallChars (n + 1)) =
    [⟨.identifier, ['f']⟩, ⟨.leftParen, ['(']⟩] ++ wordsOf (tallChars n) ++
      [⟨.rightParen, [')']⟩, ⟨.caret, ['^']⟩, ⟨.identifier, ['e']⟩] ++
      wordsOf (repeatedChars .multiply (n + 1)) ++ wordsOf (repeatedChars .add (n + 1)) := by
  have hcall : ¬ Joins ['f', '('] (tallChars n) := not_joins_concat rfl ['f'] _
  have hclosing : ¬ Joins (['f', '('] ++ tallChars n) [')', '^', 'e'] := not_joins_cons rfl _ _
  rw [tallChars, wordsOf_append (not_joins_repeatedChars _ _ _),
    wordsOf_append (not_joins_repeatedChars _ _ _), wordsOf_append hclosing, wordsOf_append hcall]
  rfl

theorem derives_tall (hn : d + n ≤ L) (h : us.map Token.lexeme = wordsOf (tallChars n)) :
    Derives L (.chain .sum) d us (Expr.tall n) := by
  induction n generalizing d us with
  | zero =>
    have hword : us.map Token.lexeme = [⟨.identifier, ['e']⟩] := h
    obtain ⟨t, rfl, ht⟩ := List.map_eq_singleton_iff.mp hword
    exact derives_sum_of_unary (derives_e ht (Nat.cast_le.mpr hn))
  | succ n ih =>
    -- The tokens are taken apart from the right: what is added, what is multiplied, the power.
    rw [wordsOf_tallChars] at h
    obtain ⟨_, added, rfl, h, hadded⟩ := List.map_eq_append_iff.mp h
    obtain ⟨_, multiplied, rfl, h, hmultiplied⟩ := List.map_eq_append_iff.mp h
    simp only [List.map_eq_append_iff, List.map_eq_cons_iff, List.map_eq_nil_iff] at h
    obtain ⟨_, _, rfl, ⟨_, ts, rfl, ⟨f, _, rfl, hf, l, _, rfl, hl, rfl⟩, hts⟩,
      r, _, rfl, hr, t, _, rfl, ht, x, _, rfl, hx, rfl⟩ := h
    have hin : (d : ℕ∞) ≤ L := Nat.cast_le.mpr (by omega)
    obtain ⟨hfk, hftext⟩ := lexeme_eq_iff.mp hf
    have hconst : Number.constant? f.text = none := by
      rw [hftext]
      rfl
    have hcall : Derives L .unary d (f :: l :: (ts ++ [r])) (.call f.text (Expr.tall n)) :=
      .call hin hfk hconst (lexeme_eq_iff.mp hl).1 (ih (by omega) hts) (lexeme_eq_iff.mp hr).1
    have hexponent : Derives L .unary (d + 1) [x] (.number Number.e) :=
      derives_e hx (Nat.cast_le.mpr (by omega))
    have hpower := Derives.power hcall (lexeme_eq_iff.mp ht).1 (.base hexponent)
    have hproduct : Derives L (.chain .product) d _ _ :=
      .chain (derives_repeated (o := .multiply) rfl hpower hn hmultiplied)
    have hsum := derives_repeated (c := .sum) (o := .add) rfl hproduct hn hadded
    rw [hftext] at hsum
    simpa [Expr.tall] using Derives.chain hsum

theorem height_le_of_sum {k : ℕ} {ts rest : List Token} (hk : d + k = L)
    (h : (Level.withRoom (k + 1)).sum ts = .ok (e, rest)) : e.height ≤ k * k + 3 * k := by
  have hsound := (sound_withRoom L (k + 1) d (by omega)).chain .sum ts
  rw [show (Level.withRoom (k + 1)).chain .sum ts = _ from h] at hsound
  obtain ⟨us, -, hd, -⟩ := hsound
  exact hd.height_le hk

theorem exists_tall (n : ℕ) : ∃ s, ∀ d L, d + n ≤ L →
    Derives L (.chain .sum) d (tokens s) (Expr.tall n) := by
  refine ⟨String.ofList (tallChars n), fun d L hn => derives_tall hn ?_⟩
  rw [map_lexeme_tokens, String.toList_ofList]

/-- What is read of a sum at a depth is no higher than the levels left there allow, and some sum is
as high as that. So the highest expressions that any text stands for have 66304 steps from top to
bottom. Whatever visits all of an expression goes as far down, and evaluation goes no further, but
does go all the way down some of them. -/
theorem greatest_heights :
    (∀ d ≤ maxDepth, ∀ k, k = maxDepth - d →
      (∀ ts e rest, (Level.withRoom (maxDepth + 1 - d)).sum ts = .ok (e, rest) →
        e.height ≤ k * k + 3 * k) ∧
      ∃ ts e rest, (Level.withRoom (maxDepth + 1 - d)).sum ts = .ok (e, rest) ∧
        e.height = k * k + 3 * k) ∧
    (∀ s e, Expr.parse s = .ok e → e.height ≤ 66304 ∧
      ∀ table, e.evalDepth table ≤ e.height) ∧
    ∃ s e, Expr.parse s = .ok e ∧ e.height = 66304 ∧ ∀ table, e.evalDepth table = 66304 := by
  refine ⟨?_, ?_, ?_⟩
  · rintro d hd k rfl
    have hroom : maxDepth + 1 - d = maxDepth - d + 1 := by omega
    have hlevels : d + (maxDepth - d) = maxDepth := by omega
    rw [hroom]
    refine ⟨fun ts e rest => height_le_of_sum hlevels, ?_⟩
    obtain ⟨s, htall⟩ := exists_tall (maxDepth - d)
    have hread := readsAs_of_derives (htall d maxDepth hlevels.le) (maxDepth - d + 1) []
      (by omega) (ends_none _)
    exact ⟨_, _, _, hread, height_tall _⟩
  · intro s e h
    exact ⟨(height_of_parse h).2, fun table => evalDepth_le_height table e⟩
  · obtain ⟨s, htall⟩ := exists_tall maxDepth
    have hheight : (Expr.tall maxDepth).height = 66304 := height_tall maxDepth
    refine ⟨s, _, ofTokensWithin_eq_ok_iff.mpr (htall 0 maxDepth (by omega)), hheight, ?_⟩
    intro table
    rw [evalDepth_tall, hheight]

end Calculator
