import Calculator.Proofs.Places
import Calculator.Proofs.Tokenisation

namespace Calculator

/-- Tokens with gaps: one before each of them, and one behind the last. -/
def spaced (gap : ℕ → String) : List Token → String
  | [] => gap 0
  | t :: ts => gap 0 ++ t.text ++ spaced (fun i => gap (i + 1)) ts

/-- Whether gaps are of white space alone and keep apart the tokens that would run together. -/
structure Spacing (gap : ℕ → String) (ts : List Token) : Prop where
  blank : ∀ i ≤ ts.length, ∀ c ∈ (gap i).toList, Text.isBlank c = true
  apart : ∀ i t u, ts[i]? = some t → ts[i + 1]? = some u → t.kind = u.kind →
    t.kind = .number ∨ t.kind = .identifier → gap (i + 1) ≠ ""

theorem Spacing.tail {gap : ℕ → String} {t : Token} {ts : List Token} (h : Spacing gap (t :: ts)) :
    Spacing (fun i => gap (i + 1)) ts where
  blank i hi := h.blank (i + 1) (by simpa using hi)
  apart i u v hu hv := h.apart (i + 1) u v hu hv

/-- What a spaced text begins with: white space, or else its first token. -/
theorem head_spaced {gap : ℕ → String} {ts : List Token} (hg : Spacing gap ts)
    (hp : ∀ t ∈ ts, t.lexeme.Proper) {c : Char} (hc : c ∈ (spaced gap ts).toList.head?) :
    Kind.ofChar c = .whitespace ∨ gap 0 = "" ∧ ∃ t ∈ ts.head?, Kind.ofChar c = t.kind := by
  have hblank : ∀ c ∈ (gap 0).toList, Kind.ofChar c = .whitespace := fun c hc =>
    ofChar_of_isBlank (hg.blank 0 (Nat.zero_le _) c hc)
  cases ts with
  | nil => exact .inl (hblank c (List.mem_of_mem_head? hc))
  | cons t ts =>
    by_cases hgap : gap 0 = ""
    · have ht : t.lexeme.Proper := hp t (by simp)
      have hne : t.text.toList ≠ [] := ht.ne_nil
      have hfirst : c ∈ t.text.toList.head? := by
        simpa [spaced, hgap, List.head?_append_of_ne_nil _ hne] using hc
      exact .inr ⟨hgap, t, rfl, ht.ofChar c (List.mem_of_mem_head? hfirst)⟩
    · have hne : (gap 0).toList ≠ [] := by simpa using hgap
      have hfirst : c ∈ (gap 0).toList.head? := by
        simpa [spaced, List.head?_append_of_ne_nil _ hne] using hc
      exact .inl (hblank c (List.mem_of_mem_head? hfirst))

theorem not_joins_spaced {gap : ℕ → String} {t : Token} {ts : List Token}
    (hg : Spacing gap (t :: ts)) (hp : ∀ u ∈ t :: ts, u.lexeme.Proper)
    (ht : t.kind ≠ .whitespace) :
    ¬ Joins t.text.toList (spaced (fun i => gap (i + 1)) ts).toList := by
  rintro ⟨a, ha, b, hb, hab, hruns⟩
  have hkind : Kind.ofChar a = t.kind :=
    (hp t (by simp)).ofChar a (List.mem_of_getLast? ha)
  rw [hkind] at hab hruns
  rcases head_spaced hg.tail (fun u hu => hp u (by simp [hu])) hb with hblank | ⟨hgap, u, hu, hbu⟩
  · exact ht (hab.trans hblank)
  · -- Without white space between them the two tokens would have to be of different kinds.
    have hsame : t.kind = .number ∨ t.kind = .identifier := by
      simpa [runs_iff, ht] using hruns
    exact hg.apart 0 t u rfl (List.head?_eq_getElem? .. ▸ hu) (hab.trans hbu) hsame hgap

theorem wordsOf_blanks {bs : List Char} (h : ∀ c ∈ bs, Text.isBlank c = true) (cs : List Char) :
    wordsOf (bs ++ cs) = wordsOf cs := by
  induction bs with
  | nil => rfl
  | cons b bs ih =>
    rw [List.cons_append, wordsOf_blank _ (ofChar_of_isBlank (h b (by simp)))]
    exact ih fun c hc => h c (by simp [hc])

/-- A spaced text is cut into the tokens that it was put together from. -/
theorem wordsOf_spaced {gap : ℕ → String} {ts : List Token} (hg : Spacing gap ts)
    (hp : ∀ t ∈ ts, t.lexeme.Proper) (hk : ∀ t ∈ ts, t.kind ≠ .whitespace) :
    wordsOf (spaced gap ts).toList = ts.map Token.lexeme := by
  induction ts generalizing gap with
  | nil =>
    have hblank := wordsOf_blanks (hg.blank 0 (le_refl _)) []
    simpa [spaced, wordsOf, lexemes] using hblank
  | cons t ts ih =>
    have htail := ih hg.tail (fun u hu => hp u (by simp [hu])) fun u hu => hk u (by simp [hu])
    have hword : wordsOf t.text.toList = [t.lexeme] := by
      rw [wordsOf, show lexemes t.text.toList = _ from lexemes_of_proper (hp t (by simp))]
      simpa [Token.lexeme] using hk t (by simp)
    have hcut := not_joins_spaced hg hp (hk t (by simp))
    rw [spaced, String.toList_append, String.toList_append, List.append_assoc,
      wordsOf_blanks (hg.blank 0 (Nat.zero_le _)), wordsOf_append hcut, hword, htail]
    rfl

theorem map_lexeme_tokens_spaced {s : String} {gap : ℕ → String} (h : Spacing gap (tokens s)) :
    (tokens (spaced gap (tokens s))).map Token.lexeme = (tokens s).map Token.lexeme := by
  rw [map_lexeme_tokens, wordsOf_spaced h]
  · exact fun t ht => (proper_of_mem_tokens ht).1
  · exact fun t ht => (proper_of_mem_tokens ht).2

/-- White space separates tokens and does nothing else. Texts with the same tokens in the same
order, and white space where two of them would otherwise run together, make the same expression, or
the same error at the same token; and so do any two lists of tokens that differ in places alone. -/
theorem reading_ignores_spacing :
    (∀ s gap, Spacing gap (tokens s) →
      (tokens (spaced gap (tokens s))).map Token.lexeme = (tokens s).map Token.lexeme ∧
      Agree (tokens s) (tokens (spaced gap (tokens s))) (Expr.parse s)
        (Expr.parse (spaced gap (tokens s)))) ∧
    ∀ ts us : List Token, ts.map Token.lexeme = us.map Token.lexeme →
      Agree ts us (Expr.ofTokens ts) (Expr.ofTokens us) := by
  refine ⟨fun s gap h => ?_, fun ts us => ofTokensWithin_agree maxDepth⟩
  have hsame := map_lexeme_tokens_spaced h
  exact ⟨hsame, ofTokensWithin_agree maxDepth hsame.symm⟩

/-- A difference that lacks its second operand lacks it however wide the gaps are. -/
theorem unfinished_difference_widened :
    Spacing (fun _ => "\u00a0\n") (tokens "2-") ∧
      Agree (tokens "2-") (tokens (spaced (fun _ => "\u00a0\n") (tokens "2-"))) (Expr.parse "2-")
        (Expr.parse (spaced (fun _ => "\u00a0\n") (tokens "2-"))) :=
  have h : Spacing (fun _ => "\u00a0\n") (tokens "2-") :=
    ⟨fun _ _ => List.all_eq_true.mp (by decide), fun _ _ _ _ _ _ _ => by decide⟩
  ⟨h, (reading_ignores_spacing.1 _ _ h).2⟩

end Calculator
