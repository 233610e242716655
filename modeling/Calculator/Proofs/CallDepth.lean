import Mathlib.Data.List.Nodup
import Mathlib.Data.List.Perm.Subperm
import Calculator.Proofs.Budget
import Calculator.Proofs.Readers

/-!
How deep the calls of procedures nest. The depth is checked only where an operand starts, several
calls below the one that raised it, so a call is bounded by its depth and its procedure together:
with every nested call there is less room, whether it lies deeper or not. What a procedure does is
what the reader that it stands for does, as long as the budget is as large as that room.
-/

namespace Calculator

/-- How many procedures can be called at one depth, from the given one on, each by the last. -/
def Procedure.rank : Procedure → ℕ
  | .chain .sum => 9
  | .operands .sum => 8
  | .chain .product => 7
  | .operands .product => 6
  | .power => 5
  | .unary => 4
  | .primary => 3
  | .name => 2
  | .number | .group => 1

namespace Call

/-- How many calls can be nested from the given one on, itself included. -/
def room (limit : ℕ) (c : Call) : ℕ := 9 * (limit + 1 - c.depth) + c.procedure.rank

/-- Where a call is made. One level below the limit only those are made that lead to the check. -/
structure Fits (limit : ℕ) (ts : List Token) (c : Call) : Prop where
  start : c.start ≤ ts.length
  depth : c.depth ≤ limit + 1
  checked : c.procedure.rank < Procedure.unary.rank → c.depth ≤ limit

end Call

/-- Whether calls, each of them nested in the next, are made where they can be and leave less and
less room. -/
structure Orderly (limit : ℕ) (ts : List Token) (nest : List Call) : Prop where
  fits : ∀ c ∈ nest, c.Fits limit ts
  shrinks : nest.Pairwise fun inner outer => inner.room limit < outer.room limit

section Orderly

variable {limit : ℕ} {ts : List Token} {nest : List Call} {c : Call}

theorem Call.room_pos (c : Call) : 0 < c.room limit := by
  have hrank : 0 < c.procedure.rank := by
    rcases c.procedure with (_ | _) | (_ | _) | _ | _ | _ | _ | _ | _ <;> decide
  exact Nat.add_pos_right _ hrank

theorem Call.room_le (c : Call) : c.room limit ≤ 9 * (limit + 2) := by
  have hrank : c.procedure.rank ≤ 9 := by
    rcases c.procedure with (_ | _) | (_ | _) | _ | _ | _ | _ | _ | _ <;> decide
  unfold Call.room
  omega

theorem orderly_nil : Orderly limit ts [] := ⟨by simp, .nil⟩

theorem orderly_cons (hc : c.Fits limit ts) (h : Orderly limit ts nest)
    (hroom : ∀ outer ∈ nest.head?, c.room limit < outer.room limit) :
    Orderly limit ts (c :: nest) := by
  refine ⟨List.forall_mem_cons.mpr ⟨hc, h.fits⟩, ?_⟩
  cases nest with
  | nil => exact List.pairwise_singleton _ _
  | cons outer nest =>
    have hlt : c.room limit < outer.room limit := hroom outer rfl
    refine List.pairwise_cons.mpr ⟨?_, h.shrinks⟩
    -- What is further out has more room still.
    rintro far (_ | ⟨_, hfar⟩)
    · exact hlt
    · exact hlt.trans ((List.pairwise_cons.mp h.shrinks).1 far hfar)

/-- The rooms of nested calls are different numbers. -/
theorem Orderly.nodup_rooms (h : Orderly limit ts nest) : (nest.map (Call.room limit)).Nodup := by
  rw [List.nodup_iff_pairwise_ne, List.pairwise_map]
  exact h.shrinks.imp fun hlt => hlt.ne

/-- No procedure is called twice at one depth, as that would leave the same room twice. -/
theorem Orderly.nodup (h : Orderly limit ts nest) :
    (nest.map fun c => (c.procedure, c.depth)).Nodup := by
  apply List.Nodup.of_map fun key => 9 * (limit + 1 - key.2) + key.1.rank
  rw [List.map_map]
  exact h.nodup_rooms

theorem Orderly.length_le (h : Orderly limit ts nest) : nest.length ≤ 9 * (limit + 2) := by
  have hsub : nest.map (Call.room limit) ⊆ List.range' 1 (9 * (limit + 2)) := by
    intro room hmem
    obtain ⟨c, -, rfl⟩ := List.mem_map.mp hmem
    have hpos : 0 < c.room limit := c.room_pos
    have hle : c.room limit ≤ 9 * (limit + 2) := c.room_le
    exact List.mem_range'_1.mpr ⟨hpos, by omega⟩
  -- The rooms are different numbers from one up to the bound, so there are no more of them.
  simpa using (List.subperm_of_subset h.nodup_rooms hsub).length_le

end Orderly

/-- What reading from an index on comes to, next to what a reader makes of the tokens from there on.
Only where the budget is short may it be exhausted. -/
inductive Matches {α : Type} (ts : List Token) (i : ℕ) (short : Prop) :
    Except Stop (α × ℕ) → Except Failure (α × List Token) → Prop
  | read {a j} (hi : i ≤ j) (hj : j ≤ ts.length) :
      Matches ts i short (.ok (a, j)) (.ok (a, ts.drop j))
  | failed {f} : Matches ts i short (.error (.failed f)) (.error f)
  | exhausted {o} (h : short) : Matches ts i short (.error .exhausted) o

/-- Whether a run from an index on does what a reader does, and all its calls are orderly. -/
structure Follows {α : Type} (limit : ℕ) (ts : List Token) (i : ℕ) (short : Prop)
    (run : Traced (α × ℕ)) (o : Except Failure (α × List Token)) : Prop where
  outcome : Matches ts i short run.outcome o
  nests : ∀ nest ∈ run.nests, Orderly limit ts nest

section Follows

variable {α β : Type} {limit : ℕ} {ts : List Token} {i j : ℕ} {short : Prop}
  {run : Traced (α × ℕ)} {o : Except Failure (α × List Token)}

theorem Follows.weaken {short' : Prop} (h : Follows limit ts j short run o) (hi : i ≤ j)
    (hs : short → short') : Follows limit ts i short' run o := by
  obtain ⟨outcome, nests⟩ := run
  obtain ⟨hmatch, hnests⟩ := h
  cases hmatch with
  | read hj hk => exact ⟨.read (hi.trans hj) hk, hnests⟩
  | failed => exact ⟨.failed, hnests⟩
  | exhausted hshort => exact ⟨.exhausted (hs hshort), hnests⟩

theorem follows_pure (a : α) (hi : i ≤ j) (hj : j ≤ ts.length) :
    Follows limit ts i short (pure (a, j)) (.ok (a, ts.drop j)) := ⟨.read hi hj, by simp [pure]⟩

theorem follows_failAt (fault : Fault) {us : List Token} (hdrop : ts.drop j = us) :
    Follows limit ts i short (Procedure.failAt (α := α × ℕ) ts fault j) (.error ⟨fault, us⟩) := by
  subst hdrop
  exact ⟨.failed, by simp [Procedure.failAt, Traced.stop]⟩

theorem Follows.bind {k : α × ℕ → Traced (β × ℕ)}
    {k' : α × List Token → Except Failure (β × List Token)} (h : Follows limit ts j short run o)
    (hk : ∀ a m, j ≤ m → m ≤ ts.length → o = .ok (a, ts.drop m) →
      Follows limit ts i short (k (a, m)) (k' (a, ts.drop m))) :
    Follows limit ts i short (run >>= k) (o >>= k') := by
  obtain ⟨outcome, nests⟩ := run
  obtain ⟨hmatch, hnests⟩ := h
  cases hmatch with
  | read hj hm =>
    have hrest := hk _ _ hj hm rfl
    refine ⟨hrest.outcome, ?_⟩
    intro nest hmem
    rcases List.mem_append.mp hmem with hmem | hmem
    · exact hnests nest hmem
    · exact hrest.nests nest hmem
  | failed => exact ⟨.failed, hnests⟩
  | exhausted hshort => exact ⟨.exhausted hshort, hnests⟩

/-- The token at an index and the tokens from there on. -/
theorem drop_cases (hi : i ≤ ts.length) :
    (ts[i]? = none ∧ ts.drop i = []) ∨
      ∃ t, ts[i]? = some t ∧ ts.drop i = t :: ts.drop (i + 1) ∧ i + 1 ≤ ts.length := by
  rcases hi.eq_or_lt with rfl | hlt
  · exact .inl ⟨List.getElem?_eq_none le_rfl, List.drop_length⟩
  · exact .inr ⟨ts[i], List.getElem?_eq_getElem hlt, List.drop_eq_getElem_cons hlt, hlt⟩

theorem follows_expectAt (kind : Kind) (wanted : String) (hi : i ≤ ts.length) :
    Follows limit ts i short (Procedure.expectAt ts kind wanted i)
      (Parser.expect kind wanted (ts.drop i)) := by
  rcases drop_cases hi with ⟨ht, hdrop⟩ | ⟨t, ht, hdrop, hlt⟩
  · rw [hdrop]
    simp only [Procedure.expectAt, ht, Parser.expect]
    exact follows_failAt _ hdrop
  · rw [hdrop]
    simp only [Procedure.expectAt, ht, Parser.expect]
    split
    · exact follows_pure t (Nat.le_succ i) hlt
    · exact follows_failAt _ hdrop

theorem nextIs_drop (kind : Kind) (hi : i ≤ ts.length) :
    Parser.nextIs kind (ts.drop i) = decide (Procedure.kindAt ts i = some kind) := by
  rcases drop_cases hi with ⟨ht, hdrop⟩ | ⟨t, ht, hdrop, -⟩
  · simp [Procedure.kindAt, ht, hdrop, Parser.nextIs]
  · simp [Procedure.kindAt, ht, hdrop, Parser.nextIs]

theorem drop_of_kindAt {k : Kind} (h : Procedure.kindAt ts i = some k) :
    i < ts.length ∧ ∃ t, ts.drop i = t :: ts.drop (i + 1) ∧ t.kind = k := by
  obtain ⟨t, ht, hk⟩ := Option.map_eq_some_iff.mp h
  obtain ⟨hlt, rfl⟩ := List.getElem?_eq_some_iff.mp ht
  exact ⟨hlt, ts[i], List.drop_eq_getElem_cons hlt, hk⟩

theorem head_drop_kind {k : Kind} (h : Procedure.kindAt ts i ≠ some k) :
    ∀ t ∈ (ts.drop i).head?, t.kind ≠ k := by
  intro t hmem hk
  rw [List.head?_drop] at hmem
  exact h (Option.map_eq_some_iff.mpr ⟨t, hmem, hk⟩)

end Follows

def Parser.number : Reader
  | [] => .error ⟨.noOperand, []⟩
  | t :: ts =>
    match Number.ofText? t.text with
    | some x => .ok (.number x, ts)
    | none => .error ⟨.malformed t.text, t :: ts⟩

namespace Parser

variable {below : Level} {t : Token}

theorem primary_eq_number (ht : t.kind = .number) (ts : List Token) :
    primary below (t :: ts) = number (t :: ts) := by
  simp only [primary, ht]
  rfl

theorem primary_eq_name (ht : t.kind = .identifier) (ts : List Token) :
    primary below (t :: ts) = name below (t :: ts) := by
  simp only [primary, ht]

theorem primary_eq_group (ht : t.kind = .leftParen) (ts : List Token) :
    primary below (t :: ts) = group below (t :: ts) := by
  simp only [primary, ht]

theorem primary_eq_error {ts : List Token} (h : ∀ t ∈ ts.head?, t.kind ≠ .number)
    (h' : ∀ t ∈ ts.head?, t.kind ≠ .identifier) (h'' : ∀ t ∈ ts.head?, t.kind ≠ .leftParen) :
    primary below ts = .error ⟨.noOperand, ts⟩ := by
  cases ts with
  | nil => rfl
  | cons t ts => cases hk : t.kind <;> simp_all [primary]

end Parser

def Call.reader (limit : ℕ) (c : Call) : Reader :=
  let level := Level.withRoom (limit + 1 - c.depth)
  let below := Level.withRoom (limit - c.depth)
  match c.procedure with
  | .chain chain | .operands chain => level.chain chain
  | .power => level.power
  | .unary => level.unary
  | .primary => Parser.primary below
  | .number => Parser.number
  | .name => Parser.name below
  | .group => Parser.group below

/-- Whether the calls that leave less than some room do what their readers do. -/
def Serves (limit : ℕ) (ts : List Token) (short : Prop) (call : Call → Traced (Expr × ℕ))
    (room : ℕ) : Prop :=
  ∀ c : Call, c.Fits limit ts → c.room limit < room →
    Follows limit ts c.start short (call c) (c.reader limit (ts.drop c.start))

section Bodies

open Procedure

variable {limit : ℕ} {ts : List Token} {short : Prop} {call : Call → Traced (Expr × ℕ)}
  {i d : ℕ}

theorem Serves.follows {room : ℕ} (hcall : Serves limit ts short call room) (procedure : Procedure)
    {j e : ℕ} (hj : j ≤ ts.length) (hd : e ≤ limit + 1)
    (hchecked : procedure.rank < Procedure.unary.rank → e ≤ limit)
    (hroom : 9 * (limit + 1 - e) + procedure.rank < room) :
    Follows limit ts j short (call ⟨procedure, j, e⟩)
      (Call.reader limit ⟨procedure, j, e⟩ (ts.drop j)) :=
  hcall ⟨procedure, j, e⟩ ⟨hj, hd, hchecked⟩ hroom

theorem reader_operand (c : Chain) (i d : ℕ) :
    Call.reader limit ⟨c.procedure, i, d⟩ = (Level.withRoom (limit + 1 - d)).read c.operand := by
  cases c <;> rfl

theorem rank_operand (c : Chain) :
    c.procedure.rank + 1 = (Procedure.operands c).rank ∧
      (Procedure.operands c).rank + 1 = (Procedure.chain c).rank ∧
        Procedure.unary.rank < c.procedure.rank := by
  cases c <;> decide

theorem loop_of_ends {c : Chain} {j : ℕ} (he : ∀ t ∈ ts[j]?, c.operator? t.kind = none)
    (rounds : ℕ) (left : Expr) : loop ts call c rounds left j d = pure (left, j) := by
  have hnone : (ts[j]?.bind fun t => c.operator? t.kind) = none := Option.bind_eq_none_iff.mpr he
  unfold loop
  rw [hnone]

theorem loop_of_link {c : Chain} {j : ℕ} {t : Token} {o : Operator} (ht : ts[j]? = some t)
    (ho : c.operator? t.kind = some o) (rounds : ℕ) (left : Expr) :
    loop ts call c (rounds + 1) left j d =
      call ⟨c.procedure, j + 1, d + 1⟩ >>= fun r =>
        loop ts call c rounds (.binary o left r.1) r.2 (d + 1) := by
  rw [loop, ht, Option.bind_some, ho]

theorem follows_loop {c : Chain} {d₀ : ℕ}
    (hcall : Serves limit ts short call (Call.room limit ⟨.operands c, i, d₀⟩)) (rounds : ℕ)
    (left : Expr) {j : ℕ} (hd₀ : d₀ ≤ d) (hd : d ≤ limit) (hi : i ≤ j) (hj : j ≤ ts.length)
    (hrounds : ts.length - j ≤ rounds) :
    Follows limit ts i short (loop ts call c rounds left j d)
      ((Level.withRoom (limit + 1 - d)).tail c left (ts.drop j)) := by
  -- Each round takes a token and goes one level deeper, and what it calls leaves less room than
  -- the loop was started with.
  induction rounds generalizing left j d with
  | zero =>
    have hend : ts[j]? = none := List.getElem?_eq_none (by omega)
    have he : ∀ t ∈ ts[j]?, c.operator? t.kind = none := by simp [hend]
    rw [loop_of_ends he, Nat.succ_sub hd, Level.tail_of_ends (by rwa [List.head?_drop])]
    exact follows_pure left hi hj
  | succ rounds ih =>
    by_cases he : ∀ t ∈ ts[j]?, c.operator? t.kind = none
    · rw [loop_of_ends he, Nat.succ_sub hd, Level.tail_of_ends (by rwa [List.head?_drop])]
      exact follows_pure left hi hj
    · push Not at he
      obtain ⟨t, ht, hsome⟩ := he
      obtain ⟨o, ho⟩ := Option.ne_none_iff_exists'.mp hsome
      have hlt : j < ts.length := (List.getElem?_eq_some_iff.mp ht).1
      have hdrop : ts.drop j = t :: ts.drop (j + 1) := by
        rw [List.drop_eq_getElem_cons hlt, (List.getElem?_eq_some_iff.mp ht).2]
      obtain ⟨hrank, -, hchecked⟩ := rank_operand c
      rw [loop_of_link ht ho, hdrop, Nat.succ_sub hd, Level.tail_cons ho]
      have hright := hcall.follows c.procedure (e := d + 1) hlt (by omega)
        (by omega) (by unfold Call.room; dsimp only; omega)
      rw [reader_operand, Nat.add_sub_add_right] at hright
      apply hright.bind
      intro right k hjk hk hread
      have hroom := Level.room_pos_of_read hread
      have hrest := ih (.binary o left right) (Nat.le_succ_of_le hd₀) (by omega)
        (hi.trans (Nat.le_of_succ_le hjk)) hk (by omega)
      rwa [Nat.add_sub_add_right] at hrest

theorem follows_operands {c : Chain}
    (hcall : Serves limit ts short call (Call.room limit ⟨.operands c, i, d⟩))
    (hi : i ≤ ts.length) (hd : d ≤ limit + 1) :
    Follows limit ts i short (body limit ts call ⟨.operands c, i, d⟩)
      (Call.reader limit ⟨.operands c, i, d⟩ (ts.drop i)) := by
  obtain ⟨hrank, -, hchecked⟩ := rank_operand c
  change Follows limit ts i short _ ((Level.withRoom (limit + 1 - d)).chain c (ts.drop i))
  rw [Level.withRoom_chain]
  have hfirst := hcall.follows c.procedure hi hd (by omega)
    (by unfold Call.room; dsimp only; omega)
  rw [reader_operand] at hfirst
  apply hfirst.bind
  intro first j hij hj hread
  -- The first operand was read, so it was not too deep, and the loop starts within the limit.
  have hroom := Level.room_pos_of_read hread
  exact follows_loop hcall _ first le_rfl (by omega) hij hj (Nat.sub_le _ _)

theorem follows_power (hcall : Serves limit ts short call (Call.room limit ⟨.power, i, d⟩))
    (hi : i ≤ ts.length) (hd : d ≤ limit + 1) :
    Follows limit ts i short (body limit ts call ⟨.power, i, d⟩)
      (Call.reader limit ⟨.power, i, d⟩ (ts.drop i)) := by
  change Follows limit ts i short _ ((Level.withRoom (limit + 1 - d)).power (ts.drop i))
  rw [Level.withRoom_power]
  have hbase := hcall.follows .unary hi hd (by simp)
    (by simp only [Call.room, Procedure.rank]; omega)
  apply hbase.bind
  intro base j hij hj hread
  -- The base was held against the limit, so its exponent is at most one level below that.
  have hroom : 0 < limit + 1 - d := Level.room_pos_of_read (p := .unary) hread
  rw [nextIs_drop _ hj, List.tail_drop, Nat.sub_sub]
  by_cases hk : kindAt ts j = some .caret
  · have hexponent := hcall.follows .power (e := d + 1) (drop_of_kindAt hk).1
      (by omega) (by simp [Procedure.rank]) (by simp only [Call.room, Procedure.rank]; omega)
    simp only [hk, if_true, decide_true]
    apply hexponent.bind
    intro exponent k hjk hk _
    exact follows_pure _ (by omega) hk
  · simp only [hk, if_false, decide_false]
    exact follows_pure base hij hj

theorem follows_unary (hcall : Serves limit ts short call (Call.room limit ⟨.unary, i, d⟩))
    (hi : i ≤ ts.length) (hd : d ≤ limit + 1) :
    Follows limit ts i short (body limit ts call ⟨.unary, i, d⟩)
      (Call.reader limit ⟨.unary, i, d⟩ (ts.drop i)) := by
  change Follows limit ts i short _ ((Level.withRoom (limit + 1 - d)).unary (ts.drop i))
  -- One level below the limit there is no level of readers left, and this check fails.
  by_cases hdeep : limit < d
  · simp only [body, if_pos hdeep, Nat.sub_eq_zero_of_le hdeep]
    exact follows_failAt .tooDeep rfl
  have hle : d ≤ limit := Nat.le_of_not_lt hdeep
  rw [Nat.succ_sub hle]
  change Follows limit ts i short _ (Parser.unary (Level.withRoom (limit - d)) (ts.drop i))
  have hsign (hlt : i + 1 ≤ ts.length) : Follows limit ts (i + 1) short
      (call ⟨.unary, i + 1, d + 1⟩) ((Level.withRoom (limit - d)).unary (ts.drop (i + 1))) := by
    have h := hcall.follows .unary (e := d + 1) hlt (by omega) (by simp)
      (by simp only [Call.room, Procedure.rank]; omega)
    rwa [Call.reader, Nat.add_sub_add_right] at h
  by_cases hplus : kindAt ts i = some .plus
  · obtain ⟨hlt, t, hdrop, ht⟩ := drop_of_kindAt hplus
    simp only [body, if_neg hdeep, hplus]
    rw [hdrop, Parser.unary_plus ht]
    exact (hsign hlt).weaken (Nat.le_succ i) id
  by_cases hminus : kindAt ts i = some .minus
  · obtain ⟨hlt, t, hdrop, ht⟩ := drop_of_kindAt hminus
    simp only [body, if_neg hdeep, hminus]
    rw [hdrop, Parser.unary_minus ht]
    apply (hsign hlt).bind
    intro operand j hij hj _
    exact follows_pure _ (by omega) hj
  · have hprimary := hcall.follows .primary hi hd (fun _ => hle)
      (by simp only [Call.room, Procedure.rank]; omega)
    have hsigns : ∀ t ∈ (ts.drop i).head?, t.kind ≠ .plus ∧ t.kind ≠ .minus :=
      fun t hmem => ⟨head_drop_kind hplus t hmem, head_drop_kind hminus t hmem⟩
    rw [Parser.unary_of_not_sign hsigns]
    simp only [body, if_neg hdeep]
    exact hprimary

theorem follows_primary (hcall : Serves limit ts short call (Call.room limit ⟨.primary, i, d⟩))
    (hi : i ≤ ts.length) (hd : d ≤ limit) :
    Follows limit ts i short (body limit ts call ⟨.primary, i, d⟩)
      (Call.reader limit ⟨.primary, i, d⟩ (ts.drop i)) := by
  change Follows limit ts i short _ (Parser.primary (Level.withRoom (limit - d)) (ts.drop i))
  have hinner (procedure : Procedure) (hrank : procedure.rank < Procedure.primary.rank) :=
    hcall.follows procedure hi (Nat.le_succ_of_le hd) (fun _ => hd)
      (Nat.add_lt_add_left hrank _)
  simp only [body]
  split
  next hk =>
    obtain ⟨-, t, hdrop, ht⟩ := drop_of_kindAt hk
    rw [hdrop, Parser.primary_eq_number ht, ← hdrop]
    exact hinner .number (by decide)
  next hk =>
    obtain ⟨-, t, hdrop, ht⟩ := drop_of_kindAt hk
    rw [hdrop, Parser.primary_eq_name ht, ← hdrop]
    exact hinner .name (by decide)
  next hk =>
    obtain ⟨-, t, hdrop, ht⟩ := drop_of_kindAt hk
    rw [hdrop, Parser.primary_eq_group ht, ← hdrop]
    exact hinner .group (by decide)
  next hnumber hname hgroup =>
    rw [Parser.primary_eq_error (head_drop_kind hnumber) (head_drop_kind hname)
      (head_drop_kind hgroup)]
    exact follows_failAt .noOperand rfl

theorem follows_number (hi : i ≤ ts.length) :
    Follows limit ts i short (body limit ts call ⟨.number, i, d⟩)
      (Call.reader limit ⟨.number, i, d⟩ (ts.drop i)) := by
  change Follows limit ts i short _ (Parser.number (ts.drop i))
  rcases drop_cases hi with ⟨ht, hdrop⟩ | ⟨t, ht, hdrop, hlt⟩
  · rw [hdrop]
    simp only [body, ht, Parser.number]
    exact follows_failAt _ hdrop
  · rw [hdrop]
    simp only [body, ht, Parser.number]
    cases Number.ofText? t.text with
    | some x => exact follows_pure _ (Nat.le_succ i) hlt
    | none => exact follows_failAt _ hdrop

theorem follows_name (hcall : Serves limit ts short call (Call.room limit ⟨.name, i, d⟩))
    (hi : i ≤ ts.length) (hd : d ≤ limit) :
    Follows limit ts i short (body limit ts call ⟨.name, i, d⟩)
      (Call.reader limit ⟨.name, i, d⟩ (ts.drop i)) := by
  change Follows limit ts i short _ (Parser.name (Level.withRoom (limit - d)) (ts.drop i))
  apply (follows_expectAt .identifier "identifier" hi).bind
  intro t j hij hj _
  cases hx : Number.constant? t.text with
  | some x =>
    simp only [hx]
    exact follows_pure _ hij hj
  | none =>
    simp only [hx]
    rw [nextIs_drop _ hj]
    by_cases hk : kindAt ts j = some .leftParen
    · have hgroup := hcall.follows .group hj (Nat.le_succ_of_le hd) (fun _ => hd)
        (Nat.add_lt_add_left Nat.one_lt_two _)
      simp only [hk, if_true, decide_true]
      apply hgroup.bind
      intro argument k hjk hk _
      exact follows_pure _ (hij.trans hjk) hk
    · simp only [hk, if_false, decide_false]
      exact follows_failAt _ rfl

theorem follows_group (hcall : Serves limit ts short call (Call.room limit ⟨.group, i, d⟩))
    (hi : i ≤ ts.length) (hd : d ≤ limit) :
    Follows limit ts i short (body limit ts call ⟨.group, i, d⟩)
      (Call.reader limit ⟨.group, i, d⟩ (ts.drop i)) := by
  change Follows limit ts i short _ (Parser.group (Level.withRoom (limit - d)) (ts.drop i))
  apply (follows_expectAt .leftParen "(" hi).bind
  intro l j hij hj _
  -- Only here does a sum start inside another, and always one level deeper.
  have hsum := hcall.follows (.chain .sum) (e := d + 1) hj (by omega)
    (by simp [Procedure.rank]) (by simp only [Call.room, Procedure.rank]; omega)
  rw [Call.reader, Nat.add_sub_add_right] at hsum
  apply hsum.bind
  intro e k hjk hk _
  apply (follows_expectAt .rightParen ")" hk).bind
  intro r m hkm hm _
  exact follows_pure e (by omega) hm

/-- A procedure does what its reader does, as far as the calls that it makes do. -/
theorem follows_body {c : Call} (hc : c.Fits limit ts)
    (hcall : Serves limit ts short call (c.room limit)) :
    Follows limit ts c.start short (body limit ts call c)
      (c.reader limit (ts.drop c.start)) := by
  obtain ⟨procedure, i, d⟩ := c
  obtain ⟨hi, hd, hchecked⟩ := hc
  dsimp only at hi hd hchecked
  cases procedure with
  | chain c =>
    obtain ⟨hoperands, hchain, hunary⟩ := rank_operand c
    exact hcall.follows (.operands c) hi hd (by omega)
      (by simp only [Call.room]; omega)
  | operands c => exact follows_operands hcall hi hd
  | power => exact follows_power hcall hi hd
  | unary => exact follows_unary hcall hi hd
  | primary => exact follows_primary hcall hi (hchecked (by decide))
  | number => exact follows_number hi
  | name => exact follows_name hcall hi (hchecked (by decide))
  | group => exact follows_group hcall hi (hchecked (by decide))

end Bodies

/-- A call does what its reader does, and is exhausted only if the budget is less than the room that
the call has. -/
theorem follows_callWithin {limit : ℕ} {ts : List Token} (budget : ℕ) {outer : List Call} {c : Call}
    (hnest : Orderly limit ts (c :: outer)) :
    Follows limit ts c.start (budget < c.room limit) (callWithin limit ts budget outer c)
      (c.reader limit (ts.drop c.start)) := by
  -- A nested call has one less of the budget, but also less room, so it is short of the budget only
  -- if the call around it is.
  induction budget generalizing outer c with
  | zero => exact ⟨.exhausted c.room_pos, by simp [callWithin, Traced.stop]⟩
  | succ budget ih =>
    have hc : c.Fits limit ts := hnest.fits c (by simp)
    have hcalls : Serves limit ts (budget + 1 < c.room limit)
        (callWithin limit ts budget (c :: outer)) (c.room limit) := by
      intro inner hinner hroom
      have hnested := orderly_cons hinner hnest (by simpa using hroom)
      exact (ih hnested).weaken le_rfl (by omega)
    have hbody := follows_body hc hcalls
    exact ⟨hbody.outcome, List.forall_mem_cons.mpr ⟨hnest, hbody.nests⟩⟩

section Reading

variable {limit : ℕ} {ts : List Token}

theorem follows_start (limit budget : ℕ) (ts : List Token) :
    Follows limit ts 0 (budget < 9 * (limit + 2))
      (callWithin limit ts budget [] ⟨.chain .sum, 0, 0⟩)
      ((Level.withRoom (limit + 1)).sum ts) := by
  have hfits : Call.Fits limit ts ⟨.chain .sum, 0, 0⟩ :=
    ⟨Nat.zero_le _, Nat.zero_le _, fun _ => Nat.zero_le _⟩
  have hnest : Orderly limit ts [⟨.chain .sum, 0, 0⟩] := orderly_cons hfits orderly_nil (by simp)
  exact follows_callWithin budget hnest

/-- All calls that are made in reading are orderly. With a budget that is large enough for the first
of them the tokens are read as by the readers. -/
theorem readWithin_spec (limit budget : ℕ) (ts : List Token) :
    (∀ nest ∈ (readWithin limit budget ts).nests, Orderly limit ts nest) ∧
      (9 * (limit + 2) ≤ budget →
        (readWithin limit budget ts).outcome = (readAll limit ts).mapError .failed) := by
  have hstart := follows_start limit budget ts
  unfold readWithin readAll
  generalize callWithin limit ts budget [] ⟨.chain .sum, 0, 0⟩ = run at hstart ⊢
  generalize (Level.withRoom (limit + 1)).sum ts = o at hstart ⊢
  obtain ⟨outcome, nests⟩ := run
  obtain ⟨hmatch, hnests⟩ := hstart
  cases hmatch with
  | @read e i _ hi =>
    -- Where the sum ends either the tokens end as well, or the next one trails.
    rcases drop_cases hi with ⟨ht, hdrop⟩ | ⟨t, ht, hdrop, -⟩
    · simpa [bind, Except.bind, ht, hdrop, pure, Except.pure, Except.mapError] using hnests
    · simpa [bind, Except.bind, ht, hdrop, Procedure.failAt, Traced.stop, Except.mapError]
        using hnests
  | failed => exact ⟨hnests, fun _ => rfl⟩
  | exhausted hshort => exact ⟨hnests, fun henough => absurd hshort (Nat.not_lt.mpr henough)⟩

/-- However many tokens there are, calls are made only up to the end of them and one level below the
limit, none of them inside another of the same procedure at the same depth. So a fixed budget for
nested calls is never exhausted: any larger one leads to the same calls, and to what is read
without a budget. -/
theorem nested_calls_bounded (ts : List Token) :
    (∀ budget, ∀ nest ∈ (readWithin maxDepth budget ts).nests,
      (∀ c ∈ nest, c.start ≤ ts.length ∧ c.depth ≤ maxDepth + 1) ∧
        (nest.map fun c => (c.procedure, c.depth)).Nodup ∧ nest.length ≤ 9 * 258) ∧
      (readWithin maxDepth (9 * 258) ts).outcome ≠ .error .exhausted ∧
      (∀ more, readWithin maxDepth (9 * 258 + more) ts = readWithin maxDepth (9 * 258) ts) ∧
      (readWithin maxDepth (9 * 258) ts).outcome = (readAll maxDepth ts).mapError .failed := by
  have hread := (readWithin_spec maxDepth (9 * 258) ts).2 le_rfl
  have henough : (readWithin maxDepth (9 * 258) ts).outcome ≠ .error .exhausted := by
    rw [hread]
    cases readAll maxDepth ts <;> simp [Except.mapError]
  refine ⟨?_, henough, ?_, hread⟩
  · intro budget nest hmem
    have hnest := (readWithin_spec maxDepth budget ts).1 nest hmem
    exact ⟨fun c hc => ⟨(hnest.fits c hc).start, (hnest.fits c hc).depth⟩, hnest.nodup,
      hnest.length_le⟩
  · intro more
    exact readWithin_eq_of_le (Nat.le_add_right _ more) henough

/-- Eight procedures lead to an opened parenthesis, and seven more to what is missing inside. -/
example : (readWithin maxDepth (9 * 258) [⟨.leftParen, "(", 0⟩]).nests.map List.length =
    List.range' 1 15 := by decide

end Reading

end Calculator
