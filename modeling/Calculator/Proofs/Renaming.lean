import Mathlib.Data.List.Forall2
import Calculator.Proofs.ErrorPlaces

/-!
Names and literals play no part in how tokens are read, beyond which names are constants and which
literals are numerals. So whatever is read of some tokens, an expression or an error, has blanks
where texts of tokens stand in it, and the same with the blanks filled in otherwise is read of
tokens that are renamed.
-/

namespace Calculator

variable {limit : ℕ∞} {p q : Phrase} {d m n : ℕ} {ts us vs ws : List Token} {e : Expr}

/-- Whether a token is another of the same kind and place, renamed. A constant keeps its name and
any other name stays one that is no constant, a numeral becomes a numeral and a malformed literal a
malformed one, and tokens of other kinds keep their texts. -/
structure Token.Renames (t u : Token) : Prop where
  kind : u.kind = t.kind
  position : u.position = t.position
  constant : t.kind = .identifier → t.text = "pi" ∨ t.text = "e" → u.text = t.text
  name : t.kind = .identifier → t.text ≠ "pi" ∧ t.text ≠ "e" → u.text ≠ "pi" ∧ u.text ≠ "e"
  literal : t.kind = .number →
    ((Number.ofText? u.text).isSome ↔ (Number.ofText? t.text).isSome)
  other : t.kind ≠ .identifier → t.kind ≠ .number → u.text = t.text

abbrev Renamed (ts us : List Token) : Prop := List.Forall₂ Token.Renames ts us

def Token.value? (t : Token) : Option Float :=
  match t.kind with
  | .number => Number.ofText? t.text
  | .identifier => Number.constant? t.text
  | _ => none

/-- An expression with a blank for each number and name that a token brings into it. A blank gives
the index of the token. -/
inductive Outline
  | value (i : ℕ)
  | minusOne
  | binary (o : Operator) (left right : Outline)
  | call (i : ℕ) (argument : Outline)
deriving DecidableEq, Repr

def Outline.fill (ts : List Token) : Outline → Option Expr
  | .value i => (ts[i]?.bind Token.value?).map .number
  | .minusOne => some (.number (-1))
  | .binary o left right => do
    let l ← left.fill ts
    let r ← right.fill ts
    return .binary o l r
  | .call i argument => do
    let t ← ts[i]?
    let a ← argument.fill ts
    return .call t.text a

inductive Complaint
  | noOperand
  | expected (wanted : String)
  | noArgument
  | malformed
  | trailing
  | tooDeep
deriving DecidableEq, Repr

/-- The error that a complaint about the token of an index, or about the end, becomes with the texts
and places of some tokens. A name without an argument is that of the token before. -/
def Complaint.fill (ts : List Token) (i : ℕ) : Complaint → Option SyntaxError
  | .noOperand =>
    match ts[i]? with
    | none => some .unexpectedEnd
    | some t => some (.unexpectedToken t.text (placeOf ts i))
  | .expected wanted => some (.expectedToken wanted (ts[i]?.map Token.text) (placeOf ts i))
  | .noArgument =>
    match i with
    | 0 => none
    | j + 1 => ts[j]?.map fun t => .missingArgument t.text (placeOf ts (j + 1))
  | .malformed => ts[i]?.map fun t => .malformedNumber t.text (placeOf ts i)
  | .trailing => ts[i]?.map fun t => .trailingInput t.text (placeOf ts i)
  | .tooDeep => some (.tooDeep (placeOf ts i))

inductive Outcome
  | expression (outline : Outline)
  | error (complaint : Complaint) (index : ℕ)
deriving DecidableEq, Repr

/-- What an outcome becomes with the texts of some tokens, if it is one about so many tokens. -/
def Outcome.fill (ts : List Token) : Outcome → Option (Except SyntaxError Expr)
  | .expression outline => (outline.fill ts).map .ok
  | .error complaint i =>
    if i ≤ ts.length then (complaint.fill ts i).map .error else none

section Renames

variable {t u : Token}

theorem Token.Renames.refl (t : Token) : t.Renames t :=
  ⟨rfl, rfl, fun _ _ => rfl, fun _ h => h, fun _ => Iff.rfl, fun _ _ => rfl⟩

theorem renamed_refl (ts : List Token) : Renamed ts ts :=
  List.forall₂_same.mpr fun t _ => .refl t

theorem Token.Renames.constant?_eq (h : t.Renames u) (ht : t.kind = .identifier) :
    Number.constant? u.text = Number.constant? t.text := by
  by_cases hconst : t.text = "pi" ∨ t.text = "e"
  · rw [h.constant ht hconst]
  · rw [not_or] at hconst
    rw [Number.constant?_eq_none_iff.mpr hconst, Number.constant?_eq_none_iff]
    exact h.name ht hconst

theorem Token.Renames.exists_ofText? (h : t.Renames u) (ht : t.kind = .number) {x : Float}
    (hx : Number.ofText? t.text = some x) : ∃ y, Number.ofText? u.text = some y := by
  have hsome := h.literal ht
  rw [hx] at hsome
  exact Option.isSome_iff_exists.mp (hsome.mpr rfl)

theorem Token.Renames.ofText?_eq_none (h : t.Renames u) (ht : t.kind = .number)
    (hx : Number.ofText? t.text = none) : Number.ofText? u.text = none := by
  have hsome := h.literal ht
  rw [hx] at hsome
  simpa using hsome

theorem renamed_append (h : Renamed (us ++ vs) ws) :
    ∃ us' vs', ws = us' ++ vs' ∧ Renamed us us' ∧ Renamed vs vs' := by
  induction us generalizing ws with
  | nil => exact ⟨[], ws, rfl, .nil, h⟩
  | cons u us ih =>
    obtain ⟨w, ws, hw, hws, rfl⟩ := List.forall₂_cons_left_iff.mp h
    obtain ⟨us', vs', rfl, hu, hv⟩ := ih hws
    exact ⟨w :: us', vs', rfl, .cons hw hu, hv⟩

theorem renamed_cons (h : Renamed (t :: ts) ws) :
    ∃ u us, ws = u :: us ∧ t.Renames u ∧ Renamed ts us := by
  obtain ⟨u, us, hu, hus, rfl⟩ := List.forall₂_cons_left_iff.mp h
  exact ⟨u, us, rfl, hu, hus⟩

theorem renamed_singleton (h : Renamed [t] ws) : ∃ u, ws = [u] ∧ t.Renames u := by
  obtain ⟨u, us, rfl, hu, hus⟩ := renamed_cons h
  obtain rfl := List.forall₂_nil_left_iff.mp hus
  exact ⟨u, rfl, hu⟩

/-- Tokens before the end stand where they stood. -/
theorem placeOf_renamed (h : Renamed ts us) {i : ℕ} (hi : i < ts.length) :
    placeOf us i = placeOf ts i := by
  have hi' : i < us.length := h.length_eq ▸ hi
  have hget := h.get hi hi'
  rw [placeOf, placeOf, List.getElem?_eq_getElem hi, List.getElem?_eq_getElem hi']
  exact hget.position

end Renames

section Outlines

/-- Whether an outline becomes an expression with tokens of which the first has the given index,
whatever tokens stand around them. -/
def Outline.Fits (o : Outline) (n : ℕ) (us : List Token) (e : Expr) : Prop :=
  ∀ before after, before.length = n → o.fill (before ++ us ++ after) = some e

variable {o : Outline}

theorem Outline.Fits.within (h : o.Fits m us e) (vs ws : List Token) (hm : m = n + vs.length) :
    o.Fits n (vs ++ us ++ ws) e := by
  intro before after hn
  have hfill := h (before ++ vs) (ws ++ after) (by rw [List.length_append, hn, hm])
  simpa using hfill

theorem Outline.fits_value {t : Token} {x : Float} (ht : t.value? = some x) :
    (Outline.value n).Fits n [t] (.number x) := by
  rintro before after rfl
  simp [Outline.fill, ht]

theorem Outline.fits_binary {op : Operator} {l r : Outline} {left right : Expr}
    (hl : l.Fits n us left) (hr : r.Fits n us right) :
    (Outline.binary op l r).Fits n us (.binary op left right) := by
  intro before after hn
  rw [Outline.fill, hl before after hn, hr before after hn]
  rfl

theorem Outline.fits_call {t : Token} (h : o.Fits n (t :: us) e) :
    (Outline.call n o).Fits n (t :: us) (.call t.text e) := by
  rintro before after rfl
  have hget : (before ++ t :: us ++ after)[before.length]? = some t := by simp
  rw [Outline.fill, h before after rfl, hget]
  rfl

/-- Whether there is one outline for all that some tokens and renamed ones are derived to make. -/
def Outlined (limit : ℕ∞) (p : Phrase) (d n : ℕ) (ts : List Token) : Prop :=
  ∃ o : Outline, ∀ us, Renamed ts us → ∃ e, Derives limit p d us e ∧ o.Fits n us e

theorem Outlined.imp (h : Outlined limit p d n ts)
    (himp : ∀ us e, Derives limit p d us e → Derives limit q m us e) : Outlined limit q m n ts := by
  obtain ⟨o, ho⟩ := h
  refine ⟨o, fun us hr => ?_⟩
  obtain ⟨e, he, hfits⟩ := ho us hr
  exact ⟨e, himp us e he, hfits⟩

/-- The tokens of an operation have an outline if those of both sides do. -/
theorem outlined_binary {p₁ p₂ : Phrase} {d₁ d₂ : ℕ} {t : Token} (op : Operator)
    (hl : Outlined limit p₁ d₁ n us) (hr : Outlined limit p₂ d₂ (n + (us.length + 1)) vs)
    (h : ∀ us' t' vs' left right, t.Renames t' → Derives limit p₁ d₁ us' left →
      Derives limit p₂ d₂ vs' right →
      Derives limit q m (us' ++ t' :: vs') (.binary op left right)) :
    Outlined limit q m n (us ++ t :: vs) := by
  obtain ⟨l, hl⟩ := hl
  obtain ⟨r, hr⟩ := hr
  refine ⟨.binary op l r, fun ws hws => ?_⟩
  obtain ⟨us', ws', rfl, hus, hws⟩ := renamed_append hws
  obtain ⟨t', vs', rfl, ht, hvs⟩ := renamed_cons hws
  obtain ⟨left, hleft, hlfits⟩ := hl us' hus
  obtain ⟨right, hright, hrfits⟩ := hr vs' hvs
  refine ⟨.binary op left right, h us' t' vs' left right ht hleft hright, Outline.fits_binary ?_ ?_⟩
  · simpa using hlfits.within [] (t' :: vs') rfl
  · have hlength : n + (us.length + 1) = n + (us' ++ [t']).length := by
      rw [hus.length_eq, List.length_append, List.length_singleton]
    simpa using hrfits.within (us' ++ [t']) [] hlength

/-- What is derived of some tokens and of any renamed ones has one outline. -/
theorem Derives.outlined (h : Derives limit p d ts e) (n : ℕ) : Outlined limit p d n ts := by
  -- Renamed tokens are split where the phrase is. The outline of a part counts tokens from its own
  -- first one, and fits also with the tokens around it.
  induction h generalizing n with
  | chain _ ih => exact (ih n).imp fun _ _ => .chain
  | first _ ih => exact (ih n).imp fun _ _ => .first
  | base _ ih => exact (ih n).imp fun _ _ => .base
  | @link c k d us t vs op left right _ ho _ ihl ihr =>
    refine outlined_binary op (ihl n) (ihr _) fun us' t' vs' left right ht hl hr => ?_
    exact .link hl (ht.kind ▸ ho) hr
  | power _ ht _ ihb ihe =>
    refine outlined_binary .power (ihb n) (ihe _) fun us' t' vs' base exponent ht' hb he => ?_
    exact .power hb (ht'.kind.trans ht) he
  | @plus d t ts e hd ht _ ih =>
    obtain ⟨o, ho⟩ := ih (n + 1)
    refine ⟨o, fun ws hws => ?_⟩
    obtain ⟨t', us, rfl, ht', hus⟩ := renamed_cons hws
    obtain ⟨e, he, hfits⟩ := ho us hus
    exact ⟨e, .plus hd (ht'.kind.trans ht) he, by simpa using hfits.within [t'] [] rfl⟩
  | @minus d t ts e hd ht _ ih =>
    obtain ⟨o, ho⟩ := ih (n + 1)
    refine ⟨.binary .multiply .minusOne o, fun ws hws => ?_⟩
    obtain ⟨t', us, rfl, ht', hus⟩ := renamed_cons hws
    obtain ⟨e, he, hfits⟩ := ho us hus
    refine ⟨e.negated, .minus hd (ht'.kind.trans ht) he, Outline.fits_binary (fun _ _ _ => rfl) ?_⟩
    simpa using hfits.within [t'] [] rfl
  | @number d t x hd ht hx =>
    refine ⟨.value n, fun ws hws => ?_⟩
    obtain ⟨t', rfl, ht'⟩ := renamed_singleton hws
    obtain ⟨y, hy⟩ := ht'.exists_ofText? ht hx
    have hk := ht'.kind.trans ht
    exact ⟨.number y, .number hd hk hy, Outline.fits_value (by rw [Token.value?, hk, hy])⟩
  | @constant d t x hd ht hx =>
    refine ⟨.value n, fun ws hws => ?_⟩
    obtain ⟨t', rfl, ht'⟩ := renamed_singleton hws
    have hk := ht'.kind.trans ht
    have hx' := (ht'.constant?_eq ht).trans hx
    exact ⟨.number x, .constant hd hk hx', Outline.fits_value (by rw [Token.value?, hk, hx'])⟩
  | @group d l ts r e hd hl _ hr ih =>
    obtain ⟨o, ho⟩ := ih (n + 1)
    refine ⟨o, fun ws hws => ?_⟩
    obtain ⟨l', ws', rfl, hl', hws⟩ := renamed_cons hws
    obtain ⟨us, rs, rfl, hus, hrs⟩ := renamed_append hws
    obtain ⟨r', rfl, hr'⟩ := renamed_singleton hrs
    obtain ⟨e, he, hfits⟩ := ho us hus
    refine ⟨e, .group hd (hl'.kind.trans hl) he (hr'.kind.trans hr), ?_⟩
    simpa using hfits.within [l'] [r'] rfl
  | @call d t l ts r e hd ht hx hl _ hr ih =>
    obtain ⟨o, ho⟩ := ih (n + 2)
    refine ⟨.call n o, fun ws hws => ?_⟩
    obtain ⟨t', ws', rfl, ht', hws⟩ := renamed_cons hws
    obtain ⟨l', ws', rfl, hl', hws⟩ := renamed_cons hws
    obtain ⟨us, rs, rfl, hus, hrs⟩ := renamed_append hws
    obtain ⟨r', rfl, hr'⟩ := renamed_singleton hrs
    obtain ⟨e, he, hfits⟩ := ho us hus
    refine ⟨.call t'.text e, .call hd (ht'.kind.trans ht) ((ht'.constant?_eq ht).trans hx)
      (hl'.kind.trans hl) he (hr'.kind.trans hr), Outline.fits_call ?_⟩
    simpa using hfits.within [t', l'] [r'] rfl

end Outlines

section Complaints

variable {next next' : Option Token} {f : Fault} {rest : List Token}

def Fault.complaint : Fault → Complaint
  | .noOperand => .noOperand
  | .expected wanted => .expected wanted
  | .noArgument _ => .noArgument
  | .malformed _ => .malformed
  | .trailing _ => .trailing
  | .tooDeep => .tooDeep

theorem rel_head? (h : Renamed ts us) : Option.Rel Token.Renames ts.head? us.head? := by
  cases h with
  | nil => exact .none
  | cons ht _ => exact .some ht

theorem forall_kind_of_rel {P : Kind → Prop} (hr : Option.Rel Token.Renames next next')
    (h : ∀ t ∈ next, P t.kind) : ∀ t ∈ next', P t.kind := by
  cases hr with
  | none => simp
  | some ht => simpa [ht.kind] using h

theorem Derives.exists_renamed (h : Derives limit p d ts e) (hr : Renamed ts us) :
    ∃ e', Derives limit p d us e' := by
  obtain ⟨o, ho⟩ := h.outlined 0
  obtain ⟨e', he', -⟩ := ho us hr
  exact ⟨e', he'⟩

theorem Opens.renamed (h : Opens ts) (hr : Renamed ts us) : Opens us := by
  cases h with
  | group hl =>
    obtain ⟨l', rfl, hl'⟩ := renamed_singleton hr
    exact .group (hl'.kind.trans hl)
  | call ht hx hl =>
    obtain ⟨t', us, rfl, ht', hr⟩ := renamed_cons hr
    obtain ⟨l', rfl, hl'⟩ := renamed_singleton hr
    exact .call (ht'.kind.trans ht) ((ht'.constant?_eq ht).trans hx) (hl'.kind.trans hl)

/-- Where some tokens break, renamed ones do, and with the same complaint. -/
theorem Breaks.renamed (h : Breaks limit p d ts next f) (hr : Renamed ts us)
    (hn : Option.Rel Token.Renames next next') :
    ∃ f', Breaks limit p d us next' f' ∧ f'.complaint = f.complaint := by
  -- The fault may be another one, but only in the text that it quotes.
  induction h generalizing us with
  | first _ ih =>
    obtain ⟨f', h, hf⟩ := ih hr hn
    exact ⟨f', .first h, hf⟩
  | link hl ho _ ih =>
    obtain ⟨us, vs, rfl, hus, hvs⟩ := renamed_append hr
    obtain ⟨t', vs, rfl, ht', hvs⟩ := renamed_cons hvs
    obtain ⟨left, hl⟩ := hl.exists_renamed hus
    obtain ⟨f', h, hf⟩ := ih hvs hn
    exact ⟨f', .link hl (ht'.kind ▸ ho) h, hf⟩
  | base _ ih =>
    obtain ⟨f', h, hf⟩ := ih hr hn
    exact ⟨f', .base h, hf⟩
  | exponent hb ht _ ih =>
    obtain ⟨us, vs, rfl, hus, hvs⟩ := renamed_append hr
    obtain ⟨t', vs, rfl, ht', hvs⟩ := renamed_cons hvs
    obtain ⟨base, hb⟩ := hb.exists_renamed hus
    obtain ⟨f', h, hf⟩ := ih hvs hn
    exact ⟨f', .exponent hb (ht'.kind.trans ht) h, hf⟩
  | tooDeep hd =>
    obtain rfl := List.forall₂_nil_left_iff.mp hr
    exact ⟨.tooDeep, .tooDeep hd, rfl⟩
  | sign hd ht _ ih =>
    obtain ⟨t', us, rfl, ht', hus⟩ := renamed_cons hr
    obtain ⟨f', h, hf⟩ := ih hus hn
    exact ⟨f', .sign hd (ht'.kind ▸ ht) h, hf⟩
  | noOperand hd hk =>
    obtain rfl := List.forall₂_nil_left_iff.mp hr
    exact ⟨.noOperand, .noOperand hd (forall_kind_of_rel (P := (· ∉ operandKinds)) hn hk), rfl⟩
  | malformed hd ht hx =>
    obtain rfl := List.forall₂_nil_left_iff.mp hr
    cases hn with
    | some ht' =>
      exact ⟨_, .malformed hd (ht'.kind.trans ht) (ht'.ofText?_eq_none ht hx), rfl⟩
  | noArgument hd ht hx hk =>
    obtain ⟨t', rfl, ht'⟩ := renamed_singleton hr
    exact ⟨_, .noArgument hd (ht'.kind.trans ht) ((ht'.constant?_eq ht).trans hx)
      (forall_kind_of_rel (P := (· ≠ .leftParen)) hn hk), rfl⟩
  | inside hd ho _ ih =>
    obtain ⟨us, vs, rfl, hus, hvs⟩ := renamed_append hr
    obtain ⟨f', h, hf⟩ := ih hvs hn
    exact ⟨f', .inside hd (ho.renamed hus) h, hf⟩
  | unclosed hd ho h he hk =>
    obtain ⟨us, vs, rfl, hus, hvs⟩ := renamed_append hr
    obtain ⟨e', h⟩ := h.exists_renamed hvs
    exact ⟨_, .unclosed hd (ho.renamed hus) h
      (forall_kind_of_rel (P := (· ∉ (Phrase.chain .sum).operators)) hn he)
      (forall_kind_of_rel (P := (· ≠ .rightParen)) hn hk), rfl⟩

theorem Fails.renamed (h : Fails limit ts next f) (hr : Renamed ts us)
    (hn : Option.Rel Token.Renames next next') :
    ∃ f', Fails limit us next' f' ∧ f'.complaint = f.complaint := by
  cases h with
  | breaks h =>
    obtain ⟨f', h, hf⟩ := h.renamed hr hn
    exact ⟨f', .breaks h, hf⟩
  | trailing h he =>
    obtain ⟨e', h⟩ := h.exists_renamed hr
    have hends := forall_kind_of_rel (P := (· ∉ (Phrase.chain .sum).operators)) hn he
    cases hn with
    | some ht' => exact ⟨_, .trailing h hends, rfl⟩

/-- The texts that a fault quotes are those of tokens around it, so its complaint, filled in with
these, is the error that it amounts to. -/
theorem fill_complaint (h : f.Tells us rest.head?) :
    f.complaint.fill (us ++ rest) us.length =
      some (Failure.toError ⟨f, rest⟩ (endOf (us ++ rest))) := by
  have hget : (us ++ rest)[us.length]? = rest.head? := by
    rw [List.getElem?_append_right le_rfl, Nat.sub_self, List.head?_eq_getElem?]
  have hplace (f : Fault) : Failure.position ⟨f, rest⟩ (endOf (us ++ rest)) =
      placeOf (us ++ rest) us.length := (placeOf_append us rest).symm
  cases f with
  | noOperand =>
    cases rest with
    | nil => simp only [Fault.complaint, Complaint.fill, hget]; rfl
    | cons t rest => simp [Fault.complaint, Complaint.fill, Failure.toError, placeOf]
  | expected wanted =>
    simp [Fault.complaint, Complaint.fill, hget, Failure.toError, hplace]
  | noArgument function =>
    obtain ⟨t, hlast, -, rfl, -⟩ := h
    obtain ⟨before, rfl⟩ := List.getLast?_eq_some_iff.mp hlast
    have hlength : (before ++ [t]).length = before.length + 1 := by simp
    simp only [Failure.toError, hplace]
    rw [hlength]
    simp [Fault.complaint, Complaint.fill]
  | malformed found | trailing found =>
    obtain ⟨t, ht, rfl⟩ := h
    rw [Option.mem_def] at ht
    simp [Fault.complaint, Complaint.fill, hget, Failure.toError, hplace, ht]
  | tooDeep => simp [Fault.complaint, Complaint.fill, Failure.toError, hplace]

end Complaints

/-- What is read of some tokens is an outcome with blanks for their texts, and all renamed tokens
fill in the same one. So an expression stays grouped as it was, with other names and numbers in it,
and an error stays one of its kind about the same token, which has kept its place unless it is the
end. No name of a function changes what is accepted. -/
theorem reading_blind_to_texts (ts : List Token) :
    ∃ outcome : Outcome, outcome.fill ts = some (Expr.ofTokens ts) ∧
      ∀ us, Renamed ts us → outcome.fill us = some (Expr.ofTokens us) ∧
        ∀ i < ts.length, placeOf us i = placeOf ts i := by
  suffices h : ∃ outcome : Outcome, ∀ us, Renamed ts us →
      outcome.fill us = some (Expr.ofTokens us) by
    obtain ⟨outcome, houtcome⟩ := h
    exact ⟨outcome, houtcome ts (renamed_refl ts), fun us hr =>
      ⟨houtcome us hr, fun i => placeOf_renamed hr⟩⟩
  -- What is read of these tokens gives the outcome, an outline or a complaint about one place.
  rcases readAll_sound maxDepth ts with ⟨e, -, hd⟩ | ⟨seen, f, hts, -, hfails⟩
  · obtain ⟨o, ho⟩ := hd.outlined 0
    refine ⟨.expression o, fun us hr => ?_⟩
    obtain ⟨e', hd', hfits⟩ := ho us hr
    have hfill : o.fill us = some e' := by simpa using hfits [] [] rfl
    have hread : Expr.ofTokens us = .ok e' := ofTokensWithin_eq_ok_iff.mpr hd'
    rw [Outcome.fill, hfill, hread]
    rfl
  · refine ⟨.error f.fault.complaint seen.length, fun us hr => ?_⟩
    rw [hts] at hr
    obtain ⟨seen', rest', rfl, hseen, hrest⟩ := renamed_append hr
    obtain ⟨f', hfails', hsame⟩ := hfails.renamed hseen (rel_head? hrest)
    have hread : Expr.ofTokens (seen' ++ rest') =
        .error (Failure.toError ⟨f', rest'⟩ (endOf (seen' ++ rest'))) :=
      ofTokensWithin_eq_error_iff.mpr ⟨_, readAll_of_fails hfails', rfl⟩
    have hle : seen'.length ≤ (seen' ++ rest').length := by simp
    rw [Outcome.fill, hseen.length_eq, if_pos hle, ← hsame, fill_complaint hfails'.tells, hread]
    rfl

/-- A call lacks its closing parenthesis at the end, whatever it calls, and the end is further on
when the names and numbers are longer. -/
theorem unclosed_call_renamed :
    Renamed [⟨.identifier, "f", 0⟩, ⟨.leftParen, "(", 1⟩, ⟨.number, "1", 2⟩]
      [⟨.identifier, "sqrt", 0⟩, ⟨.leftParen, "(", 1⟩, ⟨.number, "2.50", 2⟩] ∧
    ∃ outcome : Outcome,
      outcome.fill [⟨.identifier, "f", 0⟩, ⟨.leftParen, "(", 1⟩, ⟨.number, "1", 2⟩] =
        some (.error (.expectedToken ")" none 3)) ∧
      outcome.fill [⟨.identifier, "sqrt", 0⟩, ⟨.leftParen, "(", 1⟩, ⟨.number, "2.50", 2⟩] =
        some (.error (.expectedToken ")" none 6)) := by
  have hname : Token.Renames ⟨.identifier, "f", 0⟩ ⟨.identifier, "sqrt", 0⟩ :=
    ⟨rfl, rfl, by decide, by decide, by decide, by decide⟩
  have hnumber : Token.Renames ⟨.number, "1", 2⟩ ⟨.number, "2.50", 2⟩ :=
    ⟨rfl, rfl, by decide, by decide, fun _ => iff_of_true (by decide +kernel) (by decide +kernel),
      by decide⟩
  have h : Renamed [⟨.identifier, "f", 0⟩, ⟨.leftParen, "(", 1⟩, ⟨.number, "1", 2⟩]
      [⟨.identifier, "sqrt", 0⟩, ⟨.leftParen, "(", 1⟩, ⟨.number, "2.50", 2⟩] :=
    .cons hname (.cons (.refl _) (.cons hnumber .nil))
  obtain ⟨outcome, hfill, hrenamed⟩ := reading_blind_to_texts _
  exact ⟨h, outcome, hfill.trans (by decide +kernel), (hrenamed _ h).1.trans (by decide +kernel)⟩

end Calculator
