import Calculator.Proofs.Acceptance

namespace Calculator

variable {L M : ℕ∞} {p : Phrase} {d : ℕ} {ts : List Token} {e : Expr}

/-- What is derived at one depth is derived at another where no less room is left below it. -/
theorem Derives.of_room {m : ℕ} (h : Derives M p m ts e) {d : ℕ}
    (hroom : ∀ j : ℕ, ((m + j : ℕ) : ℕ∞) ≤ M → ((d + j : ℕ) : ℕ∞) ≤ L) : Derives L p d ts e := by
  have hbelow {m d : ℕ} (hroom : ∀ j : ℕ, ((m + j : ℕ) : ℕ∞) ≤ M → ((d + j : ℕ) : ℕ∞) ≤ L)
      (k : ℕ) : ∀ j : ℕ, ((m + k + j : ℕ) : ℕ∞) ≤ M → ((d + k + j : ℕ) : ℕ∞) ≤ L := by
    intro j hj
    rw [Nat.add_assoc] at hj ⊢
    exact hroom (k + j) hj
  induction h generalizing d with
  | chain _ ih => exact .chain (ih hroom)
  | first _ ih => exact .first (ih hroom)
  | link _ ho _ ihl ihr => exact .link (ihl hroom) ho (ihr (hbelow hroom _))
  | base _ ih => exact .base (ih hroom)
  | power _ ht _ ihb ihe => exact .power (ihb hroom) ht (ihe (hbelow hroom 1))
  | plus hm ht _ ih => exact .plus (hroom 0 hm) ht (ih (hbelow hroom 1))
  | minus hm ht _ ih => exact .minus (hroom 0 hm) ht (ih (hbelow hroom 1))
  | number hm ht hx => exact .number (hroom 0 hm) ht hx
  | constant hm ht hx => exact .constant (hroom 0 hm) ht hx
  | group hm hl _ hr ih => exact .group (hroom 0 hm) hl (ih (hbelow hroom 1)) hr
  | call hm ht hx hl _ hr ih => exact .call (hroom 0 hm) ht hx hl (ih (hbelow hroom 1)) hr

theorem Derives.mono (h : Derives L p d ts e) (hle : L ≤ M) : Derives M p d ts e :=
  h.of_room fun _ hj => hj.trans hle

def Phrase.whole : Phrase → Phrase
  | .links c _ => .chain c
  | p => p

/-- Whether a phrase is found too deep at one of the tokens. -/
def TooDeep (L : ℕ∞) (p : Phrase) (d : ℕ) (ts : List Token) : Prop :=
  ∃ us t vs, ts = us ++ t :: vs ∧ Breaks L p d us (some t) .tooDeep

theorem tooDeep_first {t : Token} (h : L < d) : TooDeep L .unary d (t :: ts) :=
  ⟨[], t, ts, rfl, .tooDeep h⟩

theorem tooDeep_append {us : List Token} (vs : List Token) (h : TooDeep L p d us) :
    TooDeep L p d (us ++ vs) := by
  obtain ⟨us, t, ws, rfl, hb⟩ := h
  exact ⟨us, t, ws ++ vs, by simp, hb⟩

theorem tooDeep_of_part {q : Phrase} {m : ℕ} (us : List Token) {vs : List Token}
    (h : TooDeep L q m vs)
    (hb : ∀ ws t, Breaks L q m ws (some t) .tooDeep → Breaks L p d (us ++ ws) (some t) .tooDeep) :
    TooDeep L p d (us ++ vs) := by
  obtain ⟨ws, t, vs, rfl, hbr⟩ := h
  exact ⟨us ++ ws, t, vs, by simp, hb ws t hbr⟩

theorem tooDeep_after {q : Phrase} {m : ℕ} (us : List Token) (t : Token) {vs : List Token}
    (h : TooDeep L q m vs)
    (hb : ∀ ws s, Breaks L q m ws (some s) .tooDeep →
      Breaks L p d (us ++ t :: ws) (some s) .tooDeep) : TooDeep L p d (us ++ t :: vs) := by
  rw [List.append_cons]
  exact tooDeep_of_part _ h fun ws s hbr => List.append_cons us t ws ▸ hb ws s hbr

theorem tooDeep_of_opens {us vs : List Token} (hd : (d : ℕ∞) ≤ L) (ho : Opens us)
    (h : TooDeep L (.chain .sum) (d + 1) vs) (r : Token) : TooDeep L .unary d (us ++ (vs ++ [r])) :=
  tooDeep_of_part us (tooDeep_append [r] h) fun _ _ hb => .inside hd ho hb

/-- Under another limit tokens that are derived still are, or are too deep for it. -/
theorem Derives.or_tooDeep (h : Derives M p d ts e) (L : ℕ∞) :
    Derives L p d ts e ∨ TooDeep L p.whole d ts := by
  -- A phrase is read from the left, so the first of its parts that is too deep makes it so. A part
  -- before that is derived under the other limit as well, and the break is put behind it.
  induction h with
  | chain _ ih => exact ih.imp .chain id
  | @first c d ts e _ ih =>
    refine ih.imp .first fun h => ?_
    exact tooDeep_of_part [] h fun ws t hb => .first (by cases c <;> exact hb)
  | @link c n d us t vs o left right _ ho _ ihl ihr =>
    rcases ihl with hl | hl
    · refine ihr.imp (.link hl ho) fun hr => ?_
      exact tooDeep_after us t hr fun ws s hb => .link hl ho (by cases c <;> exact hb)
    · exact .inr (tooDeep_append _ hl)
  | base _ ih => exact ih.imp .base fun h => tooDeep_of_part [] h fun _ _ hb => .base hb
  | @power d us t vs _ _ _ ht _ ihb ihe =>
    rcases ihb with hb | hb
    · refine ihe.imp (.power hb ht) fun he => ?_
      exact tooDeep_after us t he fun _ _ hbr => .exponent hb ht hbr
    · exact .inr (tooDeep_append _ (tooDeep_of_part [] hb fun _ _ hbr => .base hbr))
  | @plus d t _ _ _ ht _ ih =>
    rcases le_or_gt (d : ℕ∞) L with hd | hd
    · exact ih.imp (.plus hd ht) fun h => tooDeep_of_part [t] h fun _ _ hb => .sign hd (.inl ht) hb
    · exact .inr (tooDeep_first hd)
  | @minus d t _ _ _ ht _ ih =>
    rcases le_or_gt (d : ℕ∞) L with hd | hd
    · exact ih.imp (.minus hd ht) fun h => tooDeep_of_part [t] h fun _ _ hb => .sign hd (.inr ht) hb
    · exact .inr (tooDeep_first hd)
  | @number d _ _ _ ht hx =>
    rcases le_or_gt (d : ℕ∞) L with hd | hd
    · exact .inl (.number hd ht hx)
    · exact .inr (tooDeep_first hd)
  | @constant d _ _ _ ht hx =>
    rcases le_or_gt (d : ℕ∞) L with hd | hd
    · exact .inl (.constant hd ht hx)
    · exact .inr (tooDeep_first hd)
  | @group d l _ r _ _ hl _ hr ih =>
    rcases le_or_gt (d : ℕ∞) L with hd | hd
    · exact ih.imp (.group hd hl · hr) fun h => tooDeep_of_opens hd (.group hl) h r
    · exact .inr (tooDeep_first hd)
  | @call d t l _ r _ _ ht hx hl _ hr ih =>
    rcases le_or_gt (d : ℕ∞) L with hd | hd
    · exact ih.imp (.call hd ht hx hl · hr) fun h => tooDeep_of_opens hd (.call ht hx hl) h r
    · exact .inr (tooDeep_first hd)

theorem readAll_of_tooDeep {limit : ℕ} (h : TooDeep limit (.chain .sum) 0 ts) :
    ∃ rest, readAll limit ts = .error ⟨.tooDeep, rest⟩ := by
  obtain ⟨us, t, vs, rfl, hb⟩ := h
  exact ⟨t :: vs, readAll_of_fails (.breaks hb)⟩

/-- A text of the grammar is read as its expression, or fails for its depth alone. -/
theorem readAll_or_tooDeep (h : Derives ⊤ (.chain .sum) 0 ts e) (limit : ℕ) :
    readAll limit ts = .ok e ∨ ∃ rest, readAll limit ts = .error ⟨.tooDeep, rest⟩ :=
  (h.or_tooDeep limit).imp readAll_of_derives readAll_of_tooDeep

theorem ofTokensWithin_of_tooDeep {limit : ℕ} (h : TooDeep limit (.chain .sum) 0 ts) :
    ∃ p, Expr.ofTokensWithin limit ts = .error (.tooDeep p) := by
  obtain ⟨rest, hread⟩ := readAll_of_tooDeep h
  exact ⟨_, ofTokensWithin_eq_error_iff.mpr ⟨_, hread, rfl⟩⟩

end Calculator
