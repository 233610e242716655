import Calculator.Proofs.Acceptance
import Calculator.Proofs.StackMachine

namespace Calculator

/-- Whether a name that is not a constant stands among some tokens, with an opened parenthesis
behind it. -/
def CalledIn (ts : List Token) (f : String) : Prop :=
  f ≠ "pi" ∧ f ≠ "e" ∧ ∃ before t l after, ts = before ++ t :: l :: after ∧
    t.kind = .identifier ∧ t.text = f ∧ l.kind = .leftParen

/-- Whether a node of an expression is there for one of some tokens. -/
def StemsFrom (ts : List Token) : Expr → Prop
  | .number x =>
    (∃ t ∈ ts, t.kind = .number ∧ Number.ofText? t.text = some x) ∨
      (∃ t ∈ ts, t.kind = .identifier ∧ Number.constant? t.text = some x) ∨
      x = -1 ∧ ∃ t ∈ ts, t.kind = .minus
  | .binary o left _ =>
    (∃ t ∈ ts, t.kind = Kind.ofChar o.symbol) ∨
      o = .multiply ∧ left = .number (-1) ∧ ∃ t ∈ ts, t.kind = .minus
  | .call f _ => CalledIn ts f

variable {limit : ℕ∞} {p : Phrase} {d : ℕ} {ts : List Token} {e node : Expr}

/-- More tokens on either side take nothing away. -/
theorem StemsFrom.append (h : StemsFrom ts node) (us vs : List Token) :
    StemsFrom (us ++ ts ++ vs) node := by
  have hmem {P : Token → Prop} (h : ∃ t ∈ ts, P t) : ∃ t ∈ us ++ ts ++ vs, P t := by
    obtain ⟨t, ht, hP⟩ := h
    exact ⟨t, by simp [ht], hP⟩
  cases node with
  | number x =>
    rcases h with h | h | ⟨hx, h⟩
    · exact .inl (hmem h)
    · exact .inr (.inl (hmem h))
    · exact .inr (.inr ⟨hx, hmem h⟩)
  | binary o left right =>
    rcases h with h | ⟨ho, hl, h⟩
    · exact .inl (hmem h)
    · exact .inr ⟨ho, hl, hmem h⟩
  | call f argument =>
    obtain ⟨hpi, he, before, t, l, after, rfl, h⟩ := h
    exact ⟨hpi, he, us ++ before, t, l, after ++ vs, by simp, h⟩

/-- The nodes of an operation stem from tokens if its own token and those of both sides do. -/
theorem stemsFrom_binary {us vs : List Token} {t : Token} {o : Operator} {left right : Expr}
    (ht : t.kind = Kind.ofChar o.symbol) (hl : ∀ node ∈ left.postorder, StemsFrom us node)
    (hr : ∀ node ∈ right.postorder, StemsFrom vs node) :
    ∀ node ∈ (Expr.binary o left right).postorder, StemsFrom (us ++ t :: vs) node := by
  simp only [Expr.postorder, List.mem_append, List.mem_singleton]
  rintro node ((h | h) | rfl)
  · simpa using (hl node h).append [] (t :: vs)
  · simpa using (hr node h).append (us ++ [t]) []
  · exact .inl ⟨t, by simp, ht⟩

/-- Every node of an expression that is derived stems from the tokens it is derived from. -/
theorem Derives.stemsFrom (h : Derives limit p d ts e) :
    ∀ node ∈ e.postorder, StemsFrom ts node := by
  induction h with
  | chain _ ih | first _ ih | base _ ih => exact ih
  | link _ ho _ ihl ihr => exact stemsFrom_binary (kind_of_operator ho) ihl ihr
  | power _ ht _ ihb ihe => exact stemsFrom_binary ht ihb ihe
  | @plus d t ts e _ _ _ ih =>
    intro node hnode
    simpa using (ih node hnode).append [t] []
  | @minus d t ts e _ ht _ ih =>
    -- The sign brings two nodes of its own.
    simp only [Expr.negated, Expr.postorder, List.mem_append, List.mem_singleton]
    rintro node ((rfl | h) | rfl)
    · exact .inr (.inr ⟨rfl, t, by simp, ht⟩)
    · simpa using (ih node h).append [t] []
    · exact .inr ⟨rfl, rfl, t, by simp, ht⟩
  | @number d t x _ ht hx =>
    simp only [Expr.postorder, List.mem_singleton, forall_eq]
    exact .inl ⟨t, by simp, ht, hx⟩
  | @constant d t x _ ht hx =>
    simp only [Expr.postorder, List.mem_singleton, forall_eq]
    exact .inr (.inl ⟨t, by simp, ht, hx⟩)
  | @group d l ts r e _ _ _ _ ih =>
    intro node hnode
    simpa using (ih node hnode).append [l] [r]
  | @call d t l ts r e _ ht hx hl _ _ ih =>
    simp only [Expr.postorder, List.mem_append, List.mem_singleton]
    rintro node (h | rfl)
    · simpa using (ih node h).append [t, l] [r]
    · obtain ⟨hpi, he⟩ := Number.constant?_eq_none_iff.mp hx
      exact ⟨hpi, he, [], t, l, ts ++ [r], rfl, ht, rfl, hl⟩

theorem stemsFrom_of_parse {s : String} (h : Expr.parse s = .ok e) :
    ∀ node ∈ e.postorder, StemsFrom (tokens s) node :=
  (ofTokensWithin_eq_ok_iff.mp h).stemsFrom

end Calculator
