import Calculator.Proofs.Readers

namespace Calculator

variable {limit : ℕ} {p q : Phrase} {d m : ℕ} {below : Level} {seen ts us : List Token}

/-- Whether the grammar accounts for the outcome of reading on in `ts` after the tokens `seen`. -/
def Explains (limit : ℕ) (p : Phrase) (d : ℕ) (seen ts : List Token) :
    Except Failure (Expr × List Token) → Prop
  | .ok (e, rest) => ∃ us, ts = us ++ rest ∧ Derives limit p d (seen ++ us) e ∧ p.Ends rest.head?
  | .error f => ∃ us, ts = us ++ f.rest ∧ Breaks limit p d (seen ++ us) f.rest.head? f.fault

theorem explains_append (us : List Token) {o : Except Failure (Expr × List Token)}
    (h : Explains limit p d (seen ++ us) ts o) : Explains limit p d seen (us ++ ts) o := by
  cases o with
  | error f =>
    obtain ⟨vs, hts, hb⟩ := h
    exact ⟨us ++ vs, by rw [hts, List.append_assoc], by rwa [← List.append_assoc]⟩
  | ok r =>
    obtain ⟨vs, hts, hd, he⟩ := h
    exact ⟨us ++ vs, by rw [hts, List.append_assoc], by rwa [← List.append_assoc], he⟩

/-- Two readers in a row. A break of the first must be one of the whole, and the second must be
explained from whatever the first derives. -/
theorem explains_bind {o : Except Failure (Expr × List Token)}
    {k : Expr × List Token → Except Failure (Expr × List Token)}
    (ho : Explains limit p d [] ts o)
    (hb : ∀ us next f, Breaks limit p d us next f → Breaks limit q m (seen ++ us) next f)
    (hk : ∀ us rest e, Derives limit p d us e → p.Ends rest.head? →
      Explains limit q m (seen ++ us) rest (k (e, rest))) :
    Explains limit q m seen ts (o >>= k) := by
  cases o with
  | error f =>
    obtain ⟨us, hts, hbr⟩ := ho
    exact ⟨us, hts, hb _ _ _ hbr⟩
  | ok r =>
    obtain ⟨us, hts, hd, he⟩ := ho
    rw [hts]
    exact explains_append us (hk us r.2 r.1 hd he)

/-- The grammar accounts for every reader of a level at a depth. A tail goes on with a chain that
has so many links already, and starts as many levels above that depth. -/
structure Level.Sound (limit : ℕ) (level : Level) (d : ℕ) : Prop where
  unary : ∀ ts, Explains limit .unary d [] ts (level.unary ts)
  power : ∀ ts, Explains limit .power d [] ts (level.power ts)
  chain : ∀ c ts, Explains limit (.chain c) d [] ts (level.chain c ts)
  tail : ∀ {c n m seen left ts}, m + n = d → Derives limit (.links c n) m seen left →
    c.operand.Ends ts.head? → Explains limit (.chain c) m seen ts (level.tail c left ts)

theorem Level.Sound.operand {level : Level} (h : level.Sound limit d) (c : Chain)
    (ts : List Token) : Explains limit c.operand d [] ts (level.read c.operand ts) := by
  cases c with
  | sum => exact h.chain .product ts
  | product => exact h.power ts

theorem explains_enclosed {wrap : Expr → Expr} (hd : (d : ℕ∞) ≤ limit) (ho : Opens seen)
    (h : ∀ us r e, Derives limit (.chain .sum) (d + 1) us e → r.kind = .rightParen →
      Derives limit .unary d (seen ++ us ++ [r]) (wrap e))
    (hb : below.Sound limit (d + 1)) (ts : List Token) :
    Explains limit .unary d seen ts (Parser.enclosed below wrap ts) := by
  apply explains_bind (hb.chain .sum ts)
  · intro us next f hbr
    exact .inside hd ho hbr
  · intro us rest e hde he
    -- The sum ended before the next token, which closes the parenthesis or is at fault.
    cases rest with
    | nil => exact ⟨[], rfl, by simpa using .unclosed hd ho hde he (by simp)⟩
    | cons r rest =>
      by_cases hr : r.kind = .rightParen
      · simp only [Parser.expect, hr, if_true]
        exact ⟨[r], rfl, h us r e hde hr, by simp [Phrase.Ends, Phrase.operators]⟩
      · simp only [Parser.expect, hr, if_false]
        exact ⟨[], rfl, by simpa using .unclosed hd ho hde he (by simpa using hr)⟩

theorem explains_name (hd : (d : ℕ∞) ≤ limit) (hb : below.Sound limit (d + 1)) {t : Token}
    (ts : List Token) (hk : t.kind = .identifier) :
    Explains limit .unary d [] (t :: ts) (Parser.primary below (t :: ts)) := by
  cases hx : Number.constant? t.text with
  | some x =>
    rw [Parser.primary_constant hk hx]
    exact ⟨[t], rfl, .constant hd hk hx, by simp [Phrase.Ends, Phrase.operators]⟩
  | none =>
    by_cases hn : ∀ l ∈ ts.head?, l.kind ≠ .leftParen
    · rw [Parser.primary_noArgument hk hx hn]
      exact ⟨[t], rfl, .noArgument hd hk hx hn⟩
    · push Not at hn
      obtain ⟨l, hmem, hl⟩ := hn
      obtain ⟨us, rfl⟩ := List.head?_eq_some_iff.mp hmem
      rw [Parser.primary_call hk hx hl]
      apply explains_append [t, l]
      apply explains_enclosed hd (.call hk hx hl) _ hb
      intro us r e hde hr
      exact .call hd hk hx hl hde hr

theorem explains_primary (hd : (d : ℕ∞) ≤ limit) (hb : below.Sound limit (d + 1)) (ts : List Token)
    (hs : ∀ t ∈ ts.head?, t.kind ≠ .plus ∧ t.kind ≠ .minus) :
    Explains limit .unary d [] ts (Parser.primary below ts) := by
  by_cases hn : ∀ t ∈ ts.head?, t.kind ∉ operandKinds
  · rw [Parser.primary_noOperand hn]
    exact ⟨[], rfl, .noOperand hd hn⟩
  · push Not at hn
    obtain ⟨t, hmem, hk⟩ := hn
    obtain ⟨ts, rfl⟩ := List.head?_eq_some_iff.mp hmem
    obtain ⟨hp, hm⟩ := hs t hmem
    -- The signs are read elsewhere, which leaves three kinds of token to start with.
    have hkind : t.kind = .number ∨ t.kind = .identifier ∨ t.kind = .leftParen := by
      simpa [operandKinds, hp, hm] using hk
    rcases hkind with hk | hk | hk
    · cases hx : Number.ofText? t.text with
      | none =>
        rw [Parser.primary_malformed hk hx]
        exact ⟨[], rfl, .malformed hd hk hx⟩
      | some x =>
        rw [Parser.primary_number hk hx]
        exact ⟨[t], rfl, .number hd hk hx, by simp [Phrase.Ends, Phrase.operators]⟩
    · exact explains_name hd hb ts hk
    · rw [Parser.primary_group hk]
      apply explains_append [t]
      apply explains_enclosed hd (.group hk) _ hb
      intro us r e hde hr
      exact .group hd hk hde hr

theorem explains_unary (hd : (d : ℕ∞) ≤ limit) (hb : below.Sound limit (d + 1)) (ts : List Token) :
    Explains limit .unary d [] ts (Parser.unary below ts) := by
  by_cases hs : ∀ t ∈ ts.head?, t.kind ≠ .plus ∧ t.kind ≠ .minus
  · rw [Parser.unary_of_not_sign hs]
    exact explains_primary hd hb ts hs
  · push Not at hs
    obtain ⟨t, hmem, hk⟩ := hs
    obtain ⟨ts, rfl⟩ := List.head?_eq_some_iff.mp hmem
    by_cases hp : t.kind = .plus
    · rw [Parser.unary_plus hp, ← bind_pure (below.unary ts)]
      apply explains_append [t]
      apply explains_bind (hb.unary ts)
      · intro us next f hbr
        exact .sign hd (.inl hp) hbr
      · intro us rest e hde he
        exact ⟨[], rfl, by simpa using .plus hd hp hde, he⟩
    · have hm := hk hp
      rw [Parser.unary_minus hm]
      apply explains_append [t]
      apply explains_bind (hb.unary ts)
      · intro us next f hbr
        exact .sign hd (.inr hm) hbr
      · intro us rest e hde he
        exact ⟨[], rfl, by simpa using .minus hd hm hde, he⟩

theorem explains_power (hd : (d : ℕ∞) ≤ limit) (hb : below.Sound limit (d + 1)) (ts : List Token) :
    Explains limit .power d [] ts (Parser.power below ts) := by
  apply explains_bind (explains_unary hd hb ts)
  · intro us next f hbr
    exact .base hbr
  · intro us rest base hde he
    cases rest with
    | nil => exact ⟨[], rfl, by simpa using .base hde, ends_none _⟩
    | cons t rest =>
      by_cases ht : t.kind = .caret
      · simp only [ht, if_true]
        apply explains_append [t]
        apply explains_bind (hb.power rest)
        · intro vs next f hbr
          simpa using .exponent hde ht hbr
        · intro vs rest exponent hex he
          exact ⟨[], rfl, by simpa using .power hde ht hex, he⟩
      · simp only [ht, if_false]
        exact ⟨[], rfl, by simpa using .base hde, by simpa [Phrase.Ends, Phrase.operators] using ht⟩

theorem explains_links {c : Chain} {n : ℕ} {left : Expr} (hb : below.Sound limit (m + n + 1))
    (hl : Derives limit (.links c n) m seen left) (he : c.operand.Ends ts.head?) :
    Explains limit (.chain c) m seen ts
      (Parser.links c.operator? (below.read c.operand) (below.tail c) left ts) := by
  -- The invariant is that the operands so far derive `n` links: with one more link there is one
  -- level less, so the chain is gone on with by the tail of the level below.
  cases ts with
  | nil => exact ⟨[], rfl, by simpa using .chain hl, ends_none _⟩
  | cons t ts =>
    simp only [Parser.links]
    cases ho : c.operator? t.kind with
    | none => exact ⟨[], rfl, by simpa using .chain hl, ends_chain.mpr ⟨he, by simpa using ho⟩⟩
    | some o =>
      apply explains_append [t]
      apply explains_bind (hb.operand c ts)
      · intro us next f hbr
        simpa using .link hl ho hbr
      · intro us rest right hde he
        exact hb.tail rfl (by simpa using .link hl ho hde) he

theorem sound_above (hd : (d : ℕ∞) ≤ limit) (hb : below.Sound limit (d + 1)) :
    (Level.above below).Sound limit d := by
  have htail {c n m seen left ts} (hm : m + n = d) (hl : Derives limit (.links c n) m seen left)
      (he : c.operand.Ends ts.head?) :
      Explains limit (.chain c) m seen ts ((Level.above below).tail c left ts) := by
    subst hm
    rw [Level.above_tail]
    exact explains_links hb hl he
  have hchain {c : Chain}
      (ho : ∀ ts, Explains limit c.operand d [] ts ((Level.above below).read c.operand ts))
      (ts : List Token) : Explains limit (.chain c) d [] ts ((Level.above below).chain c ts) := by
    rw [Level.above_chain]
    apply explains_bind (ho ts)
    · intro us next f hbr
      exact .first hbr
    · intro us rest e hde he
      exact htail rfl (.first hde) he
  -- The operands of a sum are the products of the same level, and their operands its powers.
  have hpower := explains_power hd hb
  have hproduct := hchain (c := .product) hpower
  refine ⟨explains_unary hd hb, hpower, ?_, htail⟩
  intro c
  cases c with
  | sum => exact hchain (c := .sum) hproduct
  | product => exact hproduct

theorem sound_bottom : Level.bottom.Sound limit (limit + 1) := by
  have hd : (limit : ℕ∞) < (limit + 1 : ℕ) := by exact_mod_cast Nat.lt_succ_self limit
  have hunary {next : Option Token} : Breaks limit .unary (limit + 1) [] next .tooDeep :=
    .tooDeep hd
  have hproduct {next : Option Token} :
      Breaks limit (.chain .product) (limit + 1) [] next .tooDeep := .first (.base hunary)
  refine ⟨fun ts => ⟨[], rfl, hunary⟩, fun ts => ⟨[], rfl, .base hunary⟩, ?_, ?_⟩
  · intro c ts
    cases c with
    | sum => exact ⟨[], rfl, .first hproduct⟩
    | product => exact ⟨[], rfl, hproduct⟩
  · -- No chain gets as far as the bottom level: its last operand would have been too deep.
    intro c n m seen left ts hm hl _
    have hle := hl.depth_le
    rw [Phrase.count, hm] at hle
    exact absurd hle (not_le.mpr hd)

theorem sound_withRoom (limit room d : ℕ) (h : d + room = limit + 1) :
    (Level.withRoom room).Sound limit d := by
  -- From the bottom level, which is one below the limit, up to the level asked for.
  induction room generalizing d with
  | zero =>
    obtain rfl : d = limit + 1 := h
    exact sound_bottom
  | succ room ih =>
    have hd : (d : ℕ∞) ≤ limit := Nat.cast_le.mpr (by omega)
    exact sound_above hd (ih (d + 1) (by omega))

end Calculator
