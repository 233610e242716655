import Mathlib.Tactic.Ring
import Calculator.Proofs.Lexemes
import Calculator.Proofs.Limits

/-!
How high the expressions are that are read. The limit is held against a count that goes down along
the text, where the first operand of a chain is no deeper than the chain. In the expression that
operand lies under all of the links, and a chain may start with a chain in parentheses, so heights
add up to more than the limit. They stay within it exactly for the texts that nest within it when
every operation counts for both of its sides.
-/

namespace Calculator

def Expr.height : Expr → ℕ
  | .number _ => 0
  | .binary _ left right => max left.height right.height + 1
  | .call _ argument => argument.height + 1

theorem height_negated (e : Expr) : e.negated.height = e.height + 1 := by
  simp [Expr.negated, Expr.height]

variable {L : ℕ} {p : Phrase} {d : ℕ} {ts : List Token} {e : Expr}

/-- The greatest height of what a phrase makes with so many levels left below it. -/
def Phrase.tallest : Phrase → ℕ → ℕ
  | .chain .sum, k => k * k + 3 * k
  | .chain .product, k => k * k + 2 * k
  | .links .sum n, k => k * k + 2 * k + n
  | .links .product n, k => k * k + k + n
  | .power, k => k * k + k
  | .unary, k => k * k + k - 1

theorem tallest_links_zero (c : Chain) (k : ℕ) :
    (Phrase.links c 0).tallest k = c.operand.tallest k := by
  cases c <;> rfl

theorem tallest_links_succ (c : Chain) (n k : ℕ) :
    (Phrase.links c (n + 1)).tallest k = (Phrase.links c n).tallest k + 1 := by
  cases c <;> rfl

theorem tallest_links_le {c : Chain} {n k : ℕ} (h : n ≤ k) :
    (Phrase.links c n).tallest k ≤ (Phrase.chain c).tallest k := by
  cases c <;> simp only [Phrase.tallest] <;> omega

theorem tallest_operand_le {c : Chain} {n m k : ℕ} (h : m ≤ k) :
    c.operand.tallest m ≤ (Phrase.links c n).tallest k := by
  have hsq : m * m ≤ k * k := Nat.mul_le_mul h h
  -- Nothing is added for links here, and a power in a product is no taller than a product.
  cases c <;> simp only [Chain.operand, Phrase.tallest] <;> omega

theorem tallest_sum_succ (k : ℕ) :
    (Phrase.chain .sum).tallest k + 1 = Phrase.unary.tallest (k + 1) := by
  have hsq : (k + 1) * (k + 1) = k * k + 2 * k + 1 := by ring
  simp only [Phrase.tallest, hsq]
  omega

theorem tallest_unary_succ (k : ℕ) :
    Phrase.unary.tallest k + 1 ≤ Phrase.unary.tallest (k + 1) := by
  have hsq : (k + 1) * (k + 1) = k * k + 2 * k + 1 := by ring
  simp only [Phrase.tallest, hsq]
  omega

theorem Derives.level_below (h : Derives L p (d + 1) ts e) {k : ℕ} (hk : d + k = L) :
    ∃ j, k = j + 1 ∧ d + 1 + j = L := by
  have hd : d + 1 ≤ L := Nat.cast_le.mp h.le
  exact ⟨k - 1, by omega, by omega⟩

/-- With `k` levels left, a sum of `k` links may start with a product of `k` links, that one with a
power, and its base may be a call of such a sum with one level less. -/
theorem Derives.height_le (h : Derives L p d ts e) {k : ℕ} (hk : d + k = L) :
    e.height ≤ p.tallest k := by
  induction h generalizing k with
  | @chain c n d ts e h ih =>
    -- Its last operand lies within the limit, so a chain has no more links than levels are left.
    have hroom : d + n ≤ L := Nat.cast_le.mp h.depth_le
    exact (ih hk).trans (tallest_links_le (by omega))
  | first _ ih => exact (ih hk).trans_eq (tallest_links_zero _ k).symm
  | @link c n d us t vs o left right _ _ hr ihl ihr =>
    -- The right operand lies one level down for each link, and goes under the last link only.
    have hd : d + (n + 1) ≤ L := Nat.cast_le.mp hr.le
    have hroom : d + (n + 1) + (k - (n + 1)) = L := by omega
    have hright := (ihr hroom).trans (tallest_operand_le (n := n) (Nat.sub_le k (n + 1)))
    rw [tallest_links_succ, Expr.height]
    exact Nat.succ_le_succ (max_le (ihl hk) hright)
  | base _ ih =>
    have hbase := ih hk
    simp only [Phrase.tallest] at hbase ⊢
    omega
  | @power d us t vs base exponent hb _ he ihb ihe =>
    -- The exponent has a level less, so a tall base under the operation is the worst there is.
    obtain ⟨j, rfl, hj⟩ := he.level_below hk
    have hbase := ihb hk
    have hexp := ihe hj
    have hsq : (j + 1) * (j + 1) = j * j + 2 * j + 1 := by ring
    simp only [Phrase.tallest, Expr.height, hsq] at hbase hexp ⊢
    omega
  | @plus d _ _ _ _ _ h ih =>
    obtain ⟨j, rfl, hj⟩ := h.level_below hk
    exact (ih hj).trans ((Nat.le_succ _).trans (tallest_unary_succ j))
  | @minus d _ _ e _ _ h ih =>
    obtain ⟨j, rfl, hj⟩ := h.level_below hk
    rw [height_negated]
    exact (Nat.succ_le_succ (ih hj)).trans (tallest_unary_succ j)
  | number | constant => exact Nat.zero_le _
  | @group d _ _ _ _ _ _ h _ ih =>
    obtain ⟨j, rfl, hj⟩ := h.level_below hk
    exact (Nat.le_succ_of_le (ih hj)).trans_eq (tallest_sum_succ j)
  | @call d _ _ _ _ _ _ _ _ _ h _ ih =>
    obtain ⟨j, rfl, hj⟩ := h.level_below hk
    exact (Nat.succ_le_succ (ih hj)).trans_eq (tallest_sum_succ j)

/-- `Nests limit p m ts` says that the tokens nest within the limit, as the phrase `p`, under `m`
operations. Here every operation counts for all that stands on either side of it, and parentheses
and plus signs, which leave nothing in the expression, count for nothing. -/
inductive Nests (limit : ℕ) : Phrase → ℕ → List Token → Prop
  | chain {c n m ts} (h : Nests limit (.links c n) m ts) : Nests limit (.chain c) m ts
  | first {c m ts} (h : Nests limit c.operand m ts) : Nests limit (.links c 0) m ts
  | link {c n m us t vs o} (hl : Nests limit (.links c n) (m + 1) us)
      (ho : c.operator? t.kind = some o) (hr : Nests limit c.operand (m + 1) vs) :
      Nests limit (.links c (n + 1)) m (us ++ t :: vs)
  | base {m ts} (h : Nests limit .unary m ts) : Nests limit .power m ts
  | power {m us t vs} (hb : Nests limit .unary (m + 1) us) (ht : t.kind = .caret)
      (he : Nests limit .power (m + 1) vs) : Nests limit .power m (us ++ t :: vs)
  | plus {m t ts} (ht : t.kind = .plus) (h : Nests limit .unary m ts) :
      Nests limit .unary m (t :: ts)
  | minus {m t ts} (ht : t.kind = .minus) (h : Nests limit .unary (m + 1) ts) :
      Nests limit .unary m (t :: ts)
  | number {m t x} (hm : m ≤ limit) (ht : t.kind = .number) (hx : Number.ofText? t.text = some x) :
      Nests limit .unary m [t]
  | constant {m t x} (hm : m ≤ limit) (ht : t.kind = .identifier)
      (hx : Number.constant? t.text = some x) : Nests limit .unary m [t]
  | group {m l ts r} (hl : l.kind = .leftParen) (h : Nests limit (.chain .sum) m ts)
      (hr : r.kind = .rightParen) : Nests limit .unary m (l :: (ts ++ [r]))
  | call {m t l ts r} (ht : t.kind = .identifier) (hx : Number.constant? t.text = none)
      (hl : l.kind = .leftParen) (h : Nests limit (.chain .sum) (m + 1) ts)
      (hr : r.kind = .rightParen) : Nests limit .unary m (t :: l :: (ts ++ [r]))

theorem Derives.nests {M : ℕ∞} (h : Derives M p d ts e) {m : ℕ} (hm : m + e.height ≤ L) :
    Nests L p m ts := by
  -- The height of a part, and the operations over it, are within those of the whole.
  induction h generalizing m with
  | chain _ ih => exact .chain (ih hm)
  | first _ ih => exact .first (ih hm)
  | link _ ho _ ihl ihr =>
    rw [Expr.height] at hm
    exact .link (ihl (by omega)) ho (ihr (by omega))
  | base _ ih => exact .base (ih hm)
  | power _ ht _ ihb ihe =>
    rw [Expr.height] at hm
    exact .power (ihb (by omega)) ht (ihe (by omega))
  | plus _ ht _ ih => exact .plus ht (ih hm)
  | minus _ ht _ ih =>
    rw [height_negated] at hm
    exact .minus ht (ih (by omega))
  | number _ ht hx => exact .number (Nat.le_of_add_right_le hm) ht hx
  | constant _ ht hx => exact .constant (Nat.le_of_add_right_le hm) ht hx
  | group _ hl _ hr ih => exact .group hl (ih hm) hr
  | call _ ht hx hl _ hr ih =>
    rw [Expr.height] at hm
    exact .call ht hx hl (ih (by omega)) hr

theorem Nests.derives {m : ℕ} (h : Nests L p m ts) (d : ℕ) :
    ∃ e, Derives ⊤ p d ts e ∧ m + e.height ≤ L := by
  -- Without a limit the parts are derived at any depth, so that only heights are to be added up.
  induction h generalizing d with
  | chain _ ih =>
    obtain ⟨e, h, hm⟩ := ih d
    exact ⟨e, .chain h, hm⟩
  | first _ ih =>
    obtain ⟨e, h, hm⟩ := ih d
    exact ⟨e, .first h, hm⟩
  | @link c n m us t vs o _ ho _ ihl ihr =>
    obtain ⟨left, hl, hml⟩ := ihl d
    obtain ⟨right, hr, hmr⟩ := ihr (d + (n + 1))
    refine ⟨.binary o left right, .link hl ho hr, ?_⟩
    rw [Expr.height]
    omega
  | base _ ih =>
    obtain ⟨e, h, hm⟩ := ih d
    exact ⟨e, .base h, hm⟩
  | @power m us t vs _ ht _ ihb ihe =>
    obtain ⟨base, hb, hmb⟩ := ihb d
    obtain ⟨exponent, he, hme⟩ := ihe (d + 1)
    refine ⟨.binary .power base exponent, .power hb ht he, ?_⟩
    rw [Expr.height]
    omega
  | plus ht _ ih =>
    obtain ⟨e, h, hm⟩ := ih (d + 1)
    exact ⟨e, .plus le_top ht h, hm⟩
  | minus ht _ ih =>
    obtain ⟨e, h, hm⟩ := ih (d + 1)
    refine ⟨e.negated, .minus le_top ht h, ?_⟩
    rw [height_negated]
    omega
  | number hm ht hx => exact ⟨_, .number le_top ht hx, hm⟩
  | constant hm ht hx => exact ⟨_, .constant le_top ht hx, hm⟩
  | group hl _ hr ih =>
    obtain ⟨e, h, hm⟩ := ih (d + 1)
    exact ⟨e, .group le_top hl h hr, hm⟩
  | @call m t l ts r ht hx hl _ hr ih =>
    obtain ⟨e, h, hm⟩ := ih (d + 1)
    refine ⟨.call t.text e, .call le_top ht hx hl h hr, ?_⟩
    rw [Expr.height]
    omega

theorem height_le_iff_nests (h : Derives L (.chain .sum) 0 ts e) :
    e.height ≤ L ↔ Nests L (.chain .sum) 0 ts := by
  constructor
  · intro he
    exact h.nests (by omega)
  · intro hn
    obtain ⟨e', hd, he⟩ := hn.derives 0
    -- Without a limit the tokens make one expression only, the one that is read.
    have hread := readAll_of_derives h
    rcases readAll_or_tooDeep hd L with hok | ⟨rest, herr⟩
    · obtain rfl : e = e' := Except.ok.inj (hread.symm.trans hok)
      omega
    · exact absurd (hread.symm.trans herr) (by simp)

/-- The expression of a text is no higher than the limit exactly when the text nests within the
limit with every operation counted on both of its sides. In any case its height has a bound. -/
theorem height_of_parse {s : String} {t : Expr} (h : Expr.parse s = .ok t) :
    (t.height ≤ maxDepth ↔ Nests maxDepth (.chain .sum) 0 (tokens s)) ∧
      t.height ≤ maxDepth * maxDepth + 3 * maxDepth := by
  have hd : Derives maxDepth (.chain .sum) 0 (tokens s) t := ofTokensWithin_eq_ok_iff.mp h
  exact ⟨height_le_iff_nests hd, hd.height_le (Nat.zero_add maxDepth)⟩

/-- An expression to which `e` is added, or with which it is multiplied, so many times. -/
def Expr.repeated (o : Operator) (first : Expr) : ℕ → Expr
  | 0 => first
  | n + 1 => .binary o (repeated o first n) (.number Number.e)

def repeatedChars (o : Operator) (n : ℕ) : List Char := (List.replicate n [o.symbol, 'e']).flatten

theorem height_repeated (o : Operator) (first : Expr) (n : ℕ) :
    (first.repeated o n).height = first.height + n := by
  induction n with
  | zero => rfl
  | succ n ih =>
    rw [Expr.repeated, Expr.height, ih, Expr.height]
    omega

theorem derives_e {limit : ℕ∞} {t : Token} (h : t.lexeme = ⟨.identifier, ['e']⟩)
    (hd : (d : ℕ∞) ≤ limit) : Derives limit .unary d [t] (.number Number.e) := by
  obtain ⟨hk, ht⟩ := lexeme_eq_iff.mp h
  exact .constant hd hk (by rw [ht]; rfl)

theorem repeatedChars_succ (o : Operator) (n : ℕ) :
    repeatedChars o (n + 1) = repeatedChars o n ++ [o.symbol, 'e'] := by
  simp [repeatedChars, List.replicate_succ']

theorem not_joins_repeatedChars (cs : List Char) (o : Operator) (n : ℕ) :
    ¬ Joins cs (repeatedChars o n) := by
  cases n with
  | zero => simp [Joins, repeatedChars]
  | succ n =>
    rw [repeatedChars, List.replicate_succ, List.flatten_cons, List.cons_append]
    exact not_joins_cons (by cases o <;> rfl) cs _

theorem Derives.operand (h : Derives L .unary d ts e) (c : Chain) : Derives L c.operand d ts e := by
  cases c with
  | sum => exact .chain (.first (.base h))
  | product => exact .base h

/-- An operand is the first of a chain of as many links as there are levels left for. -/
theorem derives_repeated {c : Chain} {o : Operator} {n : ℕ} {us vs : List Token}
    (ho : c.operator? (Kind.ofChar o.symbol) = some o)
    (hfirst : Derives L c.operand d us e) (hn : d + n ≤ L)
    (h : vs.map Token.lexeme = wordsOf (repeatedChars o n)) :
    Derives L (.links c n) d (us ++ vs) (e.repeated o n) := by
  induction n generalizing vs with
  | zero =>
    obtain rfl : vs = [] := List.map_eq_nil_iff.mp h
    rw [List.append_nil]
    exact .first hfirst
  | succ n ih =>
    have hsymbol : (Kind.ofChar o.symbol).runs = false := by cases o <;> rfl
    rw [repeatedChars_succ, wordsOf_append (not_joins_cons hsymbol _ _),
      wordsOf_single _ hsymbol] at h
    obtain ⟨ws, link, rfl, hws, hlink⟩ := List.map_eq_append_iff.mp h
    obtain ⟨s, operand, rfl, hs, hoperand⟩ := List.map_eq_cons_iff.mp hlink
    have hword : operand.map Token.lexeme = [⟨.identifier, ['e']⟩] := hoperand
    obtain ⟨t, rfl, ht⟩ := List.map_eq_singleton_iff.mp hword
    have he : Derives L .unary (d + (n + 1)) [t] (.number Number.e) :=
      derives_e ht (Nat.cast_le.mpr hn)
    rw [← (lexeme_eq_iff.mp hs).1] at ho
    rw [← List.append_assoc]
    exact .link (ih (by omega) hws) ho (he.operand c)

theorem parseWithin_minus_repeated {n : ℕ} (hL : 0 < L) (hn : n ≤ L) :
    Expr.parseWithin L (String.ofList (['-', 'e'] ++ repeatedChars .add n)) =
      .ok ((Expr.negated (.number Number.e)).repeated .add n) := by
  have h := map_lexeme_tokens (String.ofList (['-', 'e'] ++ repeatedChars .add n))
  rw [String.toList_ofList, wordsOf_append (not_joins_repeatedChars _ _ _)] at h
  obtain ⟨first, added, hus, hfirst, hadded⟩ := List.map_eq_append_iff.mp h
  have hwords : first.map Token.lexeme = [⟨.minus, ['-']⟩, ⟨.identifier, ['e']⟩] := hfirst
  simp only [List.map_eq_cons_iff, List.map_eq_nil_iff] at hwords
  obtain ⟨s, _, rfl, hs, t, _, rfl, ht, rfl⟩ := hwords
  have he : Derives L .unary 1 [t] (.number Number.e) := derives_e ht (Nat.cast_le.mpr hL)
  have hminus := Derives.minus zero_le (lexeme_eq_iff.mp hs).1 he
  have hsum : Derives L (.links .sum n) 0 _ _ :=
    derives_repeated rfl (hminus.operand .sum) (by omega) hadded
  rw [← hus] at hsum
  exact ofTokensWithin_eq_ok_iff.mpr (.chain hsum)

/-- A sum with as many links as the limit allows is read, and is higher than the limit. -/
theorem long_sum_too_high :
    let s := String.ofList (['-', 'e'] ++ repeatedChars .add maxDepth)
    let e := (Expr.negated (.number Number.e)).repeated .add maxDepth
    Expr.parse s = .ok e ∧ e.height = maxDepth + 1 ∧
      ¬ Nests maxDepth (.chain .sum) 0 (tokens s) := by
  intro s e
  have hp : Expr.parse s = .ok e := parseWithin_minus_repeated (by decide) le_rfl
  -- The sign puts the first operand one step further down than the links do.
  have hfirst : (Expr.negated (.number Number.e)).height = 1 := height_negated _
  have hheight : e.height = maxDepth + 1 := by
    rw [height_repeated, hfirst, Nat.add_comm]
  refine ⟨hp, hheight, fun hn => ?_⟩
  have hle := (height_of_parse hp).1.mpr hn
  rw [hheight] at hle
  omega

end Calculator
