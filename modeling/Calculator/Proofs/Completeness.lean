import Calculator.Proofs.Readers

namespace Calculator

variable {limit : ℕ} {p : Phrase} {d : ℕ} {us : List Token}

/-- What a derivation means for the readers, if no token that follows carries the phrase on. After
the links of a chain the reader is where the tail of some lower level would start. -/
def Phrase.ReadsAs (limit : ℕ) : Phrase → ℕ → List Token → Expr → Prop
  | .links c n, d, us, e => ∀ room rest, d + room = limit + 1 → c.operand.Ends rest.head? →
      (Level.withRoom room).chain c (us ++ rest) = (Level.withRoom (room - n)).tail c e rest
  | p, d, us, e => ∀ room rest, d + room = limit + 1 → p.Ends rest.head? →
      (Level.withRoom room).read p (us ++ rest) = .ok (e, rest)

/-- A depth within the limit has a level, and the next depth the level below it. -/
theorem exists_room {room : ℕ} (hd : (d : ℕ∞) ≤ limit) (hr : d + room = limit + 1) :
    ∃ r, room = r + 1 ∧ d + 1 + r = limit + 1 := by
  have hle : d ≤ limit := by exact_mod_cast hd
  exact ⟨room - 1, by omega, by omega⟩

theorem readsAs_operand {c : Chain} {e : Expr} (h : c.operand.ReadsAs limit d us e) {room : ℕ}
    {rest : List Token} (hr : d + room = limit + 1) (he : c.operand.Ends rest.head?) :
    (Level.withRoom room).read c.operand (us ++ rest) = .ok (e, rest) := by
  cases c with
  | sum => exact h room rest hr he
  | product => exact h room rest hr he

theorem sum_ends_of_rightParen {r : Token} (hr : r.kind = .rightParen) :
    (Phrase.chain .sum).Ends (some r) := by
  simp [Phrase.Ends, Phrase.operators, hr]

theorem readsAs_of_derives {e : Expr} (h : Derives limit p d us e) : p.ReadsAs limit d us e := by
  -- By induction on the derivation, for all that may follow: each part of a phrase is followed by
  -- a token that does not carry it on, so its reader stops where the derivation does.
  induction h with
  | @chain c n d us e h ih =>
    intro room rest hr he
    obtain ⟨ho, hn⟩ := ends_chain.mp he
    have hle : d + n ≤ limit := by exact_mod_cast h.depth_le
    obtain ⟨room, rfl⟩ : ∃ r, room = r + 1 + n := ⟨room - 1 - n, by omega⟩
    -- After its last link the chain is at a tail, and no operator follows.
    have hread := ih (room + 1 + n) rest hr ho
    rw [Nat.add_sub_cancel, Level.tail_of_ends hn] at hread
    exact hread
  | @first c d us e h ih =>
    intro room rest hr he
    have hread := readsAs_operand ih hr he
    obtain ⟨room, rfl, -⟩ := exists_room h.le hr
    rw [Level.withRoom] at hread ⊢
    rw [Level.above_chain, hread]
    rfl
  | @link c n d us t vs o left right hl ho hd ihl ihr =>
    intro room rest hr he
    have hle : d + (n + 1) ≤ limit := by exact_mod_cast hd.le
    obtain ⟨room, rfl⟩ : ∃ r, room = r + (n + 1) := ⟨room - (n + 1), by omega⟩
    -- The operands so far end before the operator; their tail takes it and one level with it.
    have hends : c.operand.Ends (t :: (vs ++ rest)).head? := operand_ends_of_operator ho
    rw [List.append_assoc, List.cons_append, ihl _ _ hr hends,
      show room + (n + 1) - n = room + 1 by omega,
      Level.tail_of_link ho (readsAs_operand ihr (by omega) he), Nat.add_sub_cancel]
  | @base d us e h ih =>
    intro room rest hr he
    have hread := ih room rest hr (by simp [Phrase.Ends, Phrase.operators])
    obtain ⟨room, rfl, -⟩ := exists_room h.le hr
    exact Parser.power_of_base hread (by simpa [Phrase.Ends, Phrase.operators] using he)
  | @power d us t vs base exponent hb ht he ihb ihe =>
    intro room rest hr hends
    have hread := ihb room (t :: (vs ++ rest)) hr (by simp [Phrase.Ends, Phrase.operators])
    obtain ⟨room, rfl, hr'⟩ := exists_room hb.le hr
    have hex : (Level.withRoom room).power (vs ++ rest) = _ := ihe room rest hr' hends
    rw [List.append_assoc]
    refine (Parser.power_caret hread ht).trans ?_
    rw [hex]
    rfl
  | @plus d t us e hd ht h ih =>
    intro room rest hr he
    obtain ⟨room, rfl, hr'⟩ := exists_room hd hr
    exact (Parser.unary_plus ht _).trans (ih room rest hr' he)
  | @minus d t us e hd ht h ih =>
    intro room rest hr he
    obtain ⟨room, rfl, hr'⟩ := exists_room hd hr
    have hread : (Level.withRoom room).unary (us ++ rest) = _ := ih room rest hr' he
    rw [List.cons_append]
    refine (Parser.unary_minus ht _).trans ?_
    rw [hread]
    rfl
  | @number d t x hd ht hx =>
    intro room rest hr he
    obtain ⟨room, rfl, -⟩ := exists_room hd hr
    exact (Parser.unary_of_not_sign (by simp [ht])).trans (Parser.primary_number ht hx rest)
  | @constant d t x hd ht hx =>
    intro room rest hr he
    obtain ⟨room, rfl, -⟩ := exists_room hd hr
    exact (Parser.unary_of_not_sign (by simp [ht])).trans (Parser.primary_constant ht hx rest)
  | @group d l us r e hd hl h hr ih =>
    intro room rest hroom he
    obtain ⟨room, rfl, hr'⟩ := exists_room hd hroom
    have hread := ih room (r :: rest) hr' (sum_ends_of_rightParen hr)
    rw [List.cons_append, List.append_assoc]
    exact (Parser.unary_of_not_sign (by simp [hl])).trans
      ((Parser.primary_group hl _).trans (Parser.enclosed_of_sum hread hr))
  | @call d t l us r e hd ht hx hl h hr ih =>
    intro room rest hroom he
    obtain ⟨room, rfl, hr'⟩ := exists_room hd hroom
    have hread := ih room (r :: rest) hr' (sum_ends_of_rightParen hr)
    rw [List.cons_append, List.cons_append, List.append_assoc]
    exact (Parser.unary_of_not_sign (by simp [ht])).trans
      ((Parser.primary_call ht hx hl _).trans (Parser.enclosed_of_sum hread hr))

theorem read_of_breaks {next : Option Token} {f : Fault} (h : Breaks limit p d us next f) :
    ∀ room rest, d + room = limit + 1 → rest.head? = next →
      (Level.withRoom room).read p (us ++ rest) = .error ⟨f, rest⟩ := by
  -- What was read before the fault is derived, so the readers get as far as it, and there they
  -- look at no more than the next token.
  induction h with
  | @first c d us next f h ih =>
    intro room rest hr hn
    have hread := ih room rest hr hn
    cases room with
    | zero => cases c <;> exact hread
    | succ room =>
      rw [Level.withRoom] at hread ⊢
      refine (Level.above_chain _ c _).trans ?_
      rw [hread]
      rfl
  | @link c n d us t vs o left next f hl ho h ih =>
    intro room rest hr hn
    have hle : d + n ≤ limit := by exact_mod_cast hl.depth_le
    obtain ⟨room, rfl⟩ : ∃ r, room = r + 1 + n := ⟨room - 1 - n, by omega⟩
    have hends : c.operand.Ends (t :: (vs ++ rest)).head? := operand_ends_of_operator ho
    -- The fault is in an operand behind the last operator that was taken.
    have hchain := readsAs_of_derives hl _ _ hr hends
    rw [Nat.add_sub_cancel, Level.withRoom, Level.above_tail] at hchain
    rw [List.append_assoc]
    refine hchain.trans ?_
    simp only [Parser.links, ho, ih room rest (by omega) hn]
    rfl
  | @base d us next f h ih =>
    intro room rest hr hn
    have hread := ih room rest hr hn
    cases room with
    | zero => exact hread
    | succ room => exact Parser.power_of_break hread
  | @exponent d us t vs base next f hb ht h ih =>
    intro room rest hr hn
    have hbase := readsAs_of_derives hb room (t :: (vs ++ rest)) hr
      (by simp [Phrase.Ends, Phrase.operators])
    obtain ⟨room, rfl, hr'⟩ := exists_room hb.le hr
    have hread : (Level.withRoom room).power (vs ++ rest) = _ := ih room rest hr' hn
    rw [List.append_assoc]
    refine (Parser.power_caret hbase ht).trans ?_
    rw [hread]
    rfl
  | @tooDeep d next hd =>
    intro room rest hr hn
    -- Beyond the limit there is only the bottom level.
    have hlt : limit < d := by exact_mod_cast hd
    obtain rfl : room = 0 := by omega
    rfl
  | @sign d t us next f hd ht h ih =>
    intro room rest hr hn
    obtain ⟨room, rfl, hr'⟩ := exists_room hd hr
    have hread : (Level.withRoom room).unary (us ++ rest) = _ := ih room rest hr' hn
    rw [List.cons_append]
    rcases ht with ht | ht
    · exact (Parser.unary_plus ht _).trans hread
    · refine (Parser.unary_minus ht _).trans ?_
      rw [hread]
      rfl
  | @noOperand d next hd hk =>
    intro room rest hr hn
    obtain ⟨room, rfl, -⟩ := exists_room hd hr
    subst hn
    refine (Parser.unary_of_not_sign ?_).trans (Parser.primary_noOperand hk)
    intro t ht
    have hmem := hk t ht
    simp only [operandKinds, List.mem_cons, not_or] at hmem
    exact ⟨hmem.2.2.2.1, hmem.2.2.2.2.1⟩
  | @malformed d t hd ht hx =>
    intro room rest hr hn
    obtain ⟨room, rfl, -⟩ := exists_room hd hr
    obtain ⟨rest, rfl⟩ := List.head?_eq_some_iff.mp hn
    exact (Parser.unary_of_not_sign (by simp [ht])).trans (Parser.primary_malformed ht hx rest)
  | @noArgument d t next hd ht hx hl =>
    intro room rest hr hn
    obtain ⟨room, rfl, -⟩ := exists_room hd hr
    subst hn
    exact (Parser.unary_of_not_sign (by simp [ht])).trans (Parser.primary_noArgument ht hx hl)
  | @inside d us vs next f hd ho h ih =>
    intro room rest hr hn
    obtain ⟨room, rfl, hr'⟩ := exists_room hd hr
    obtain ⟨wrap, hwrap⟩ := Parser.unary_of_opens (Level.withRoom room) ho (vs ++ rest)
    rw [List.append_assoc]
    exact hwrap.trans (Parser.enclosed_of_break (ih room rest hr' hn))
  | @unclosed d us vs e next hd ho h he hc =>
    intro room rest hr hn
    obtain ⟨room, rfl, hr'⟩ := exists_room hd hr
    obtain ⟨wrap, hwrap⟩ := Parser.unary_of_opens (Level.withRoom room) ho (vs ++ rest)
    have hread := readsAs_of_derives h room rest hr' (hn ▸ he)
    rw [List.append_assoc]
    exact hwrap.trans (Parser.enclosed_of_unclosed hread (hn ▸ hc))

end Calculator
