import Calculator.Proofs.FirstFault
import Calculator.Proofs.Lexemes

namespace Calculator

variable {limit : ℕ∞} {p : Phrase} {d : ℕ} {ts us vs : List Token} {t : Token}

def Token.unplaced (t : Token) : Token := { t with position := 0 }

theorem lexeme_inj_iff {t u : Token} : t.lexeme = u.lexeme ↔ t.kind = u.kind ∧ t.text = u.text := by
  rw [Token.lexeme, Token.lexeme, Lexeme.mk.injEq, String.toList_inj]

theorem map_unplaced_eq_iff :
    ts.map Token.unplaced = us.map Token.unplaced ↔ ts.map Token.lexeme = us.map Token.lexeme := by
  have hlexeme (t u : Token) : t.unplaced = u.unplaced ↔ t.lexeme = u.lexeme := by
    simp [Token.unplaced, lexeme_inj_iff]
  induction ts generalizing us with
  | nil => simp [eq_comm]
  | cons t ts ih => cases us <;> simp [hlexeme, ih]

theorem lexemes_eq_cons (h : us.map Token.lexeme = (t :: ts).map Token.lexeme) :
    ∃ u us', us = u :: us' ∧ u.kind = t.kind ∧ u.text = t.text ∧
      us'.map Token.lexeme = ts.map Token.lexeme := by
  obtain ⟨u, us', rfl, hu, hus⟩ := List.map_eq_cons_iff.mp h
  obtain ⟨hkind, htext⟩ := lexeme_inj_iff.mp hu
  exact ⟨u, us', rfl, hkind, htext, hus⟩

theorem lexemes_eq_append {xs : List Token}
    (h : xs.map Token.lexeme = (us ++ vs).map Token.lexeme) :
    ∃ us' vs', xs = us' ++ vs' ∧ us'.map Token.lexeme = us.map Token.lexeme ∧
      vs'.map Token.lexeme = vs.map Token.lexeme := by
  rw [List.map_append] at h
  exact List.map_eq_append_iff.mp h

theorem lexemes_eq_singleton (h : us.map Token.lexeme = [t].map Token.lexeme) :
    ∃ u, us = [u] ∧ u.kind = t.kind ∧ u.text = t.text := by
  obtain ⟨u, us, rfl, hkind, htext, hus⟩ := lexemes_eq_cons h
  obtain rfl := List.map_eq_nil_iff.mp hus
  exact ⟨u, rfl, hkind, htext⟩

/-- Tokens of the same kinds and texts are derived alike, wherever they stand. -/
theorem Derives.congr {e : Expr} (h : Derives limit p d ts e)
    (hus : us.map Token.lexeme = ts.map Token.lexeme) : Derives limit p d us e := by
  -- The tokens are split where the others are, so the same constructor applies to the parts.
  induction h generalizing us with
  | chain _ ih => exact .chain (ih hus)
  | first _ ih => exact .first (ih hus)
  | base _ ih => exact .base (ih hus)
  | link _ ho _ ihl ihr =>
    obtain ⟨us, rest, rfl, hl, hrest⟩ := lexemes_eq_append hus
    obtain ⟨t', vs, rfl, hk, -, hr⟩ := lexemes_eq_cons hrest
    exact .link (ihl hl) (hk ▸ ho) (ihr hr)
  | power _ ht _ ihb ihe =>
    obtain ⟨us, rest, rfl, hb, hrest⟩ := lexemes_eq_append hus
    obtain ⟨t', vs, rfl, hk, -, he⟩ := lexemes_eq_cons hrest
    exact .power (ihb hb) (hk.trans ht) (ihe he)
  | plus hd ht _ ih =>
    obtain ⟨t', us, rfl, hk, -, hus⟩ := lexemes_eq_cons hus
    exact .plus hd (hk.trans ht) (ih hus)
  | minus hd ht _ ih =>
    obtain ⟨t', us, rfl, hk, -, hus⟩ := lexemes_eq_cons hus
    exact .minus hd (hk.trans ht) (ih hus)
  | number hd ht hx =>
    obtain ⟨t', rfl, hk, htext⟩ := lexemes_eq_singleton hus
    exact .number hd (hk.trans ht) (htext ▸ hx)
  | constant hd ht hx =>
    obtain ⟨t', rfl, hk, htext⟩ := lexemes_eq_singleton hus
    exact .constant hd (hk.trans ht) (htext ▸ hx)
  | group hd hl _ hr ih =>
    obtain ⟨l', rest, rfl, hkl, -, hrest⟩ := lexemes_eq_cons hus
    obtain ⟨inner, rest, rfl, hinner, hlast⟩ := lexemes_eq_append hrest
    obtain ⟨r', rfl, hkr, -⟩ := lexemes_eq_singleton hlast
    exact .group hd (hkl.trans hl) (ih hinner) (hkr.trans hr)
  | call hd ht hx hl _ hr ih =>
    obtain ⟨t', rest, rfl, hk, htext, hrest⟩ := lexemes_eq_cons hus
    obtain ⟨l', rest, rfl, hkl, -, hrest⟩ := lexemes_eq_cons hrest
    obtain ⟨inner, rest, rfl, hinner, hlast⟩ := lexemes_eq_append hrest
    obtain ⟨r', rfl, hkr, -⟩ := lexemes_eq_singleton hlast
    rw [← htext]
    exact .call hd (hk.trans ht) (htext ▸ hx) (hkl.trans hl) (ih hinner) (hkr.trans hr)

theorem Derives.unplaced {e : Expr} (h : Derives limit p d ts e) :
    Derives limit p d (ts.map Token.unplaced) e := by
  refine h.congr ?_
  rw [List.map_map]
  rfl

theorem Opens.unplaced (h : Opens us) : Opens (us.map Token.unplaced) := by
  cases h with
  | group hl => exact .group hl
  | call ht hx hl => exact .call ht hx hl

theorem Breaks.unplaced {next : Option Token} {f : Fault} (h : Breaks limit p d us next f) :
    Breaks limit p d (us.map Token.unplaced) (next.map Token.unplaced) f := by
  have hnext (P : Kind → Prop) {next : Option Token} (h : ∀ t ∈ next, P t.kind) :
      ∀ t ∈ next.map Token.unplaced, P t.kind := by
    simpa [Token.unplaced] using h
  induction h with
  | first _ ih => exact .first ih
  | link hl ho _ ih =>
    rw [List.map_append, List.map_cons]
    exact .link hl.unplaced ho ih
  | base _ ih => exact .base ih
  | exponent hb ht _ ih =>
    rw [List.map_append, List.map_cons]
    exact .exponent hb.unplaced ht ih
  | tooDeep hd => exact .tooDeep hd
  | sign hd ht _ ih => exact .sign hd ht ih
  | noOperand hd hn => exact .noOperand hd (hnext (· ∉ operandKinds) hn)
  | @malformed d t hd ht hx => exact .malformed (t := t.unplaced) hd ht hx
  | @noArgument d t next hd ht hx hn =>
    exact .noArgument (t := t.unplaced) hd ht hx (hnext (· ≠ .leftParen) hn)
  | inside hd ho _ ih =>
    rw [List.map_append]
    exact .inside hd ho.unplaced ih
  | unclosed hd ho h he hn =>
    rw [List.map_append]
    exact .unclosed hd ho.unplaced h.unplaced (hnext (· ∉ (Phrase.chain .sum).operators) he)
      (hnext (· ≠ .rightParen) hn)

theorem Fails.unplaced {next : Option Token} {f : Fault} (h : Fails limit us next f) :
    Fails limit (us.map Token.unplaced) (next.map Token.unplaced) f := by
  cases h with
  | breaks h => exact .breaks h.unplaced
  | @trailing e t h he =>
    exact .trailing (t := t.unplaced) h.unplaced (by simpa [Phrase.Ends, Token.unplaced] using he)

def Failure.unplaced (f : Failure) : Failure := ⟨f.fault, f.rest.map Token.unplaced⟩

theorem readAll_map_unplaced (limit : ℕ) (ts : List Token) :
    readAll limit (ts.map Token.unplaced) = (readAll limit ts).mapError Failure.unplaced := by
  rcases readAll_sound limit ts with ⟨e, he, hd⟩ | ⟨seen, f, hts, hf, hfails⟩
  · rw [he]
    exact readAll_of_derives hd.unplaced
  · have hread : readAll limit (seen.map Token.unplaced ++ f.rest.map Token.unplaced) = _ :=
      readAll_of_fails (by simpa using hfails.unplaced)
    rw [hf]
    rw [hts, List.map_append, hread]
    rfl

/-- The place of the token of an index, or the end of the last token where there is none. -/
def placeOf (ts : List Token) (i : ℕ) : ℕ := (ts[i]?.map Token.position).getD (endOf ts)

theorem placeOf_append (seen rest : List Token) :
    placeOf (seen ++ rest) seen.length =
      (rest.head?.map Token.position).getD (endOf (seen ++ rest)) := by
  rw [placeOf, List.getElem?_append_right (le_refl _), Nat.sub_self, List.head?_eq_getElem?]

/-- An error with its place, where it has one, put elsewhere. -/
def SyntaxError.movedTo (p : ℕ) : SyntaxError → SyntaxError
  | .unexpectedToken found _ => .unexpectedToken found p
  | .unexpectedEnd => .unexpectedEnd
  | .expectedToken wanted found _ => .expectedToken wanted found p
  | .missingArgument function _ => .missingArgument function p
  | .malformedNumber found _ => .malformedNumber found p
  | .trailingInput found _ => .trailingInput found p
  | .tooDeep _ => .tooDeep p

theorem toError_eq_movedTo (f : Failure) (finish : ℕ) :
    f.toError finish = (f.unplaced.toError 0).movedTo (f.position finish) := by
  obtain ⟨fault, rest⟩ := f
  cases fault <;> cases rest <;> rfl

theorem movedTo_movedTo (p q : ℕ) (err : SyntaxError) :
    (err.movedTo p).movedTo q = err.movedTo q := by
  cases err <;> rfl

/-- Whether two readings come to the same: to one expression, or to one error, which gives the place
of the same token in both, or the end of either's own last one. -/
def Agree (ts us : List Token) : Except SyntaxError Expr → Except SyntaxError Expr → Prop
  | .ok e, .ok e' => e = e'
  | .error err, .error err' =>
    ∃ i ≤ ts.length, err = err.movedTo (placeOf ts i) ∧ err' = err.movedTo (placeOf us i)
  | _, _ => False

/-- Failures that differ in places only are at the same token of either text. -/
theorem exists_place {limit : ℕ} {f g : Failure} (h : ts.map Token.lexeme = us.map Token.lexeme)
    (hf : readAll limit ts = .error f) (hg : readAll limit us = .error g)
    (hfg : f.unplaced = g.unplaced) :
    ∃ i ≤ ts.length, f.position (endOf ts) = placeOf ts i ∧
      g.position (endOf us) = placeOf us i := by
  obtain ⟨seen, hts, -⟩ := readAll_eq_error_iff.mp hf
  obtain ⟨seen', hus, -⟩ := readAll_eq_error_iff.mp hg
  have hlength : seen'.length = seen.length := by
    have hall := congrArg List.length h
    have hrest := congrArg (fun f => f.rest.length) hfg
    simp only [Failure.unplaced, List.length_map] at hall hrest
    rw [hts, hus, List.length_append, List.length_append, hrest] at hall
    omega
  refine ⟨seen.length, by simp [hts], ?_, ?_⟩
  · rw [hts]
    exact (placeOf_append seen f.rest).symm
  · rw [hus, ← hlength]
    exact (placeOf_append seen' g.rest).symm

theorem ofTokensWithin_agree (limit : ℕ) (h : ts.map Token.lexeme = us.map Token.lexeme) :
    Agree ts us (Expr.ofTokensWithin limit ts) (Expr.ofTokensWithin limit us) := by
  -- Without their places the tokens are the same, so what is read of them differs in places only.
  have hread : (readAll limit ts).mapError Failure.unplaced =
      (readAll limit us).mapError Failure.unplaced := by
    rw [← readAll_map_unplaced, ← readAll_map_unplaced, map_unplaced_eq_iff.mpr h]
  rw [Expr.ofTokensWithin, Expr.ofTokensWithin]
  cases hts : readAll limit ts with
  | ok e =>
    cases hus : readAll limit us with
    | ok e' =>
      rw [hts, hus] at hread
      exact Except.ok.inj hread
    | error g => simp [hts, hus, Except.mapError] at hread
  | error f =>
    cases hus : readAll limit us with
    | ok e' => simp [hts, hus, Except.mapError] at hread
    | error g =>
      rw [hts, hus] at hread
      have hfg : f.unplaced = g.unplaced := Except.error.inj hread
      obtain ⟨i, hi, hf, hg⟩ := exists_place h hts hus hfg
      refine ⟨i, hi, ?_, ?_⟩
      · change f.toError (endOf ts) = (f.toError (endOf ts)).movedTo (placeOf ts i)
        rw [← hf, toError_eq_movedTo, movedTo_movedTo]
      · change g.toError (endOf us) = (f.toError (endOf ts)).movedTo (placeOf us i)
        rw [← hg, toError_eq_movedTo g, toError_eq_movedTo f, movedTo_movedTo, hfg]

end Calculator
