import Calculator.Proofs.Places
import Calculator.Proofs.Tokenisation

namespace Calculator

variable {limit : ℕ∞} {p : Phrase} {d : ℕ} {us : List Token}

/-- The kinds of token behind which an operand lies a level deeper. -/
def deepeningKinds : List Kind := [.plus, .minus, .star, .slash, .caret, .leftParen]

/-- What a fault tells of the tokens before it and of the one that it is found at. -/
def Fault.Tells (us : List Token) (next : Option Token) : Fault → Prop
  | .noOperand => True
  | .expected wanted => wanted = ")" ∧ us ≠ []
  | .noArgument function => ∃ t ∈ us.getLast?, t.kind = .identifier ∧ t.text = function ∧
      Number.constant? function = none ∧ ∀ l ∈ next, l.kind ≠ .leftParen
  | .malformed found | .trailing found => ∃ t ∈ next, t.text = found
  | .tooDeep => ∃ t ∈ us.getLast?, t.kind ∈ deepeningKinds

theorem Fault.Tells.append {vs : List Token} {next : Option Token} {f : Fault}
    (h : f.Tells vs next) (us : List Token) : f.Tells (us ++ vs) next := by
  have hlast {t : Token} (ht : t ∈ vs.getLast?) : t ∈ (us ++ vs).getLast? := by
    rw [List.getLast?_append, Option.mem_def.mp ht]
    rfl
  cases f with
  | expected wanted => exact ⟨h.1, by simp [h.2]⟩
  | noArgument function =>
    obtain ⟨t, ht, hrest⟩ := h
    exact ⟨t, hlast ht, hrest⟩
  | tooDeep =>
    obtain ⟨t, ht, hk⟩ := h
    exact ⟨t, hlast ht, hk⟩
  | _ => exact h

/-- What is known of a fault where a phrase breaks: what it tells, or else that the phrase itself
lies too deep. -/
def Known (limit : ℕ∞) (d : ℕ) (us : List Token) (next : Option Token) (f : Fault) : Prop :=
  f.Tells us next ∨ us = [] ∧ f = .tooDeep ∧ limit < d

theorem known_after {m : ℕ} {t : Token} {vs : List Token} {next : Option Token} {f : Fault}
    (h : Known limit m vs next f) (us : List Token) (ht : t.kind ∈ deepeningKinds) :
    Known limit d (us ++ t :: vs) next f := by
  rcases h with htells | ⟨rfl, rfl, -⟩
  · rw [List.append_cons]
    exact .inl (htells.append _)
  · exact .inl ⟨t, by simp, ht⟩

theorem Breaks.known {next : Option Token} {f : Fault} (h : Breaks limit p d us next f) :
    Known limit d us next f := by
  -- By induction on the way to the fault. A phrase that is too deep at its first token has a token
  -- before it in the phrase around it, and that one opened a level.
  induction h with
  | first _ ih | base _ ih => exact ih
  | @link c n d us t vs o left next f _ ho _ ih =>
    refine known_after ih us ?_
    cases c <;> cases hk : t.kind <;>
      simp_all [Chain.operator?, deepeningKinds]
  | exponent _ ht _ ih => exact known_after ih _ (by simp [ht, deepeningKinds])
  | tooDeep hd => exact .inr ⟨rfl, rfl, hd⟩
  | sign _ ht _ ih =>
    refine known_after ih [] ?_
    rcases ht with ht | ht <;> simp [ht, deepeningKinds]
  | noOperand => exact .inl trivial
  | @malformed d t => exact .inl ⟨t, rfl, rfl⟩
  | @noArgument d t next _ ht hx hn => exact .inl ⟨t, rfl, ht, rfl, hx, hn⟩
  | inside _ ho _ ih =>
    cases ho with
    | group hl => exact known_after ih [] (by simp [hl, deepeningKinds])
    | @call t l _ _ hl => exact known_after ih [t] (by simp [hl, deepeningKinds])
  | unclosed _ ho _ _ _ => exact .inl ⟨rfl, by cases ho <;> simp⟩

theorem Fails.tells {next : Option Token} {f : Fault} (h : Fails limit us next f) :
    f.Tells us next := by
  cases h with
  | breaks h =>
    -- The whole text lies at depth zero, which is never too deep.
    rcases h.known with htells | ⟨-, -, hdeep⟩
    · exact htells
    · exact absurd hdeep (by simp)
  | @trailing e t => exact ⟨t, rfl, rfl⟩

theorem blank_joined {s : String} {ts : List Token} (hscan : ∀ t ∈ ts, t ∈ scan s)
    (hkind : ∀ t ∈ ts, t.kind = .whitespace) : ∀ c ∈ (joined ts).toList, Text.isBlank c = true := by
  intro c hc
  rw [joined, String.toList_join, List.flatMap_map] at hc
  obtain ⟨t, ht, hct⟩ := List.mem_flatMap.mp hc
  have hallows := (isTokenisation_scan s).allows t (hscan t ht)
  rw [hkind t ht] at hallows
  exact hallows c hct

/-- What follows a token that means something: white space, and then the next one or the end. -/
theorem gap_after {s : String} {before after : List Token} {t : Token}
    (h : tokens s = before ++ t :: after) :
    ∃ x gap r, s = x ++ (gap ++ r) ∧ x.utf8ByteSize = t.finish ∧
      (∀ c ∈ gap.toList, Text.isBlank c = true) ∧
      (after = [] ∧ r = "" ∨
        ∃ u more rest, after = u :: more ∧ r = u.text ++ rest ∧
          u.position = t.finish + gap.utf8ByteSize) := by
  obtain ⟨l₀, l, hscan, -, hl⟩ := List.filter_eq_append_iff.mp h
  obtain ⟨l₁, l₂, rfl, -, -, hl₂⟩ := List.filter_eq_cons_iff.mp hl
  have hat : scan s = (l₀ ++ l₁) ++ t :: l₂ := by simpa using hscan
  have hbehind : scan s = (l₀ ++ l₁ ++ [t]) ++ l₂ := by simpa using hscan
  have hfinish : (joined (l₀ ++ l₁ ++ [t])).utf8ByteSize = t.finish := by
    rw [joined_append, String.utf8ByteSize_append, ← (split_of_scan hat).2 t rfl]
    simp [joined, Token.finish]
  cases after with
  | nil =>
    -- Whatever the text goes on with is white space.
    have hblank : ∀ u ∈ l₂, u.kind = .whitespace := by
      simpa using List.filter_eq_nil_iff.mp hl₂
    refine ⟨joined (l₀ ++ l₁ ++ [t]), joined l₂, "", ?_, hfinish, ?_, .inl ⟨rfl, rfl⟩⟩
    · rw [String.append_empty]
      exact (split_of_scan hbehind).1
    · exact blank_joined (fun u hu => by rw [hbehind]; simp [hu]) hblank
  | cons u more =>
    obtain ⟨mid, l₃, rfl, hmid, -, -⟩ := List.filter_eq_cons_iff.mp hl₂
    have hblank : ∀ v ∈ mid, v.kind = .whitespace := by simpa using hmid
    have hnext : scan s = (l₀ ++ l₁ ++ [t] ++ mid) ++ u :: l₃ := by simpa using hscan
    refine ⟨joined (l₀ ++ l₁ ++ [t]), joined mid, u.text ++ joined l₃, ?_, hfinish, ?_,
      .inr ⟨u, more, _, rfl, rfl, ?_⟩⟩
    · rw [← joined_cons, ← joined_append]
      exact (split_of_scan hbehind).1
    · exact blank_joined (fun v hv => by rw [hbehind]; simp [hv]) hblank
    · rw [(split_of_scan hnext).2 u rfl, joined_append _ mid, String.utf8ByteSize_append, hfinish]

def IsTokenAt (s found : String) (p : ℕ) : Prop :=
  ∃ t ∈ tokens s, t.text = found ∧ t.position = p ∧ StandsAt s found p

def BlankBetween (s : String) (p q : ℕ) : Prop :=
  ∃ gap, StandsAt s gap p ∧ q = p + gap.utf8ByteSize ∧ ∀ c ∈ gap.toList, Text.isBlank c = true

def SyntaxError.TrueOf (s : String) : SyntaxError → Prop
  | .unexpectedEnd => True
  | .unexpectedToken found p | .malformedNumber found p | .trailingInput found p =>
    IsTokenAt s found p
  | .expectedToken wanted (some found) p => wanted = ")" ∧ IsTokenAt s found p
  | .expectedToken wanted none p => wanted = ")" ∧ ∃ t ∈ (tokens s).getLast?, p = t.finish
  | .missingArgument function p =>
    ∃ t ∈ tokens s, t.kind = .identifier ∧ t.text = function ∧ function ≠ "pi" ∧ function ≠ "e" ∧
      BlankBetween s t.finish p ∧ ¬ StandsAt s "(" p
  | .tooDeep p =>
    ∃ before t after, tokens s = before ++ t :: after ∧ t.kind ∈ deepeningKinds ∧
      p = (after.head?.map Token.position).getD t.finish

theorem isTokenAt_of_mem {s : String} {t : Token} (h : t ∈ tokens s) :
    IsTokenAt s t.text t.position :=
  ⟨t, h, rfl, rfl, standsAt_of_mem_scan (List.mem_filter.mp h).1⟩

/-- Behind a token no parenthesis is opened if the next token opens none. -/
theorem gap_without_paren {s : String} {before after : List Token} {t : Token}
    (h : tokens s = before ++ t :: after) (hn : ∀ u ∈ after.head?, u.kind ≠ .leftParen) :
    BlankBetween s t.finish ((after.head?.map Token.position).getD t.finish) ∧
      ¬ StandsAt s "(" ((after.head?.map Token.position).getD t.finish) := by
  obtain ⟨x, gap, r, hs, hx, hblank, hnext⟩ := gap_after h
  rcases hnext with ⟨rfl, rfl⟩ | ⟨u, more, rest, rfl, rfl, hplace⟩
  · refine ⟨⟨"", ⟨x, gap ++ "", by simpa using hs, hx⟩, by simp, by simp⟩, ?_⟩
    -- The text goes on with white space, if at all.
    intro hparen
    change StandsAt s "(" t.finish at hparen
    rw [hs, ← hx] at hparen
    obtain ⟨rest, hrest⟩ := hparen.of_append
    have hmem : '(' ∈ gap.toList := by
      rw [← String.append_empty (s := gap), hrest]
      simp
    exact absurd (hblank _ hmem) (by decide)
  · refine ⟨⟨gap, ⟨x, u.text ++ rest, by rw [hs, String.append_assoc], hx⟩, hplace, hblank⟩, ?_⟩
    -- The next token stands there, and it starts with no parenthesis.
    intro hparen
    have hu : u ∈ tokens s := by simp [h]
    obtain ⟨-, -, -, -, hstands⟩ := isTokenAt_of_mem hu
    have hproper : u.lexeme.Proper := (proper_of_mem_tokens hu).1
    have hne : u.text ≠ "" := by simpa [Token.lexeme] using hproper.ne_nil
    have hfirst : '(' ∈ u.text.toList.head? := by
      rw [hstands.head_eq hparen hne (by decide)]
      decide
    have hkind : Kind.ofChar '(' = u.kind := hproper.ofChar _ (List.mem_of_mem_head? hfirst)
    exact hn u rfl hkind.symm

theorem position_eq_getD {s : String} {us rest : List Token} (h : tokens s = us ++ rest)
    {t : Token} (hlast : t ∈ us.getLast?) (f : Fault) :
    Failure.position ⟨f, rest⟩ (endOf (tokens s)) =
      (rest.head?.map Token.position).getD t.finish := by
  cases rest with
  | nil =>
    rw [h, List.append_nil, endOf, Option.mem_def.mp hlast]
    rfl
  | cons u rest => rfl

/-- An error is true of the text if it is made of a fault that tells the tokens around it. -/
theorem trueOf_of_tells {s : String} {us rest : List Token} {f : Fault}
    (h : tokens s = us ++ rest) (ht : f.Tells us rest.head?) :
    (Failure.toError ⟨f, rest⟩ (endOf (tokens s))).TrueOf s := by
  have hmem : ∀ t ∈ rest.head?, IsTokenAt s t.text t.position := fun t ht =>
    isTokenAt_of_mem (h ▸ List.mem_append_right us (List.mem_of_mem_head? ht))
  cases f with
  | noOperand =>
    cases rest with
    | nil => trivial
    | cons t rest => exact hmem t rfl
  | expected wanted =>
    obtain ⟨rfl, hne⟩ := ht
    cases rest with
    | nil =>
      have hlast : us.getLast hne ∈ us.getLast? := List.getLast?_eq_some_getLast hne
      refine ⟨rfl, us.getLast hne, ?_, position_eq_getD h hlast (.expected ")")⟩
      rw [h, List.append_nil]
      exact hlast
    | cons t rest => exact ⟨rfl, hmem t rfl⟩
  | noArgument function =>
    obtain ⟨t, hlast, hk, rfl, hconst, hn⟩ := ht
    obtain ⟨before, rfl⟩ := List.getLast?_eq_some_iff.mp hlast
    have hsplit : tokens s = before ++ t :: rest := by simpa using h
    change SyntaxError.TrueOf s (.missingArgument t.text (Failure.position _ _))
    rw [position_eq_getD h hlast]
    obtain ⟨hpi, he⟩ := Number.constant?_eq_none_iff.mp hconst
    exact ⟨t, by simp [hsplit], hk, rfl, hpi, he, gap_without_paren hsplit hn⟩
  | malformed found | trailing found =>
    obtain ⟨t, hfirst, rfl⟩ := ht
    obtain ⟨rest, rfl⟩ := List.head?_eq_some_iff.mp hfirst
    exact hmem t rfl
  | tooDeep =>
    obtain ⟨t, hlast, hk⟩ := ht
    obtain ⟨before, rfl⟩ := List.getLast?_eq_some_iff.mp hlast
    exact ⟨before, t, rest, by simpa using h, hk, position_eq_getD h hlast .tooDeep⟩

/-- Tokens end within their text. -/
theorem finish_le {s : String} {t : Token} (h : t ∈ scan s) : t.finish ≤ s.utf8ByteSize :=
  (standsAt_of_mem_scan h).end_le

/-- The place of a failure is that of a token, or the end of the last one, or else the start. -/
theorem isValid_position {s : String} {us : List Token} {f : Failure}
    (h : tokens s = us ++ f.rest) :
    (⟨f.position (endOf (tokens s))⟩ : String.Pos.Raw).IsValid s := by
  have hstands : ∀ t ∈ tokens s, StandsAt s t.text t.position := fun t ht =>
    standsAt_of_mem_scan (List.mem_filter.mp ht).1
  obtain ⟨fault, rest⟩ := f
  cases rest with
  | cons t rest => exact (hstands t (by simp [h])).isValid
  | nil =>
    change (⟨endOf (tokens s)⟩ : String.Pos.Raw).IsValid s
    cases hlast : (tokens s).getLast? with
    | none =>
      rw [endOf, hlast]
      exact String.Pos.Raw.isValid_zero
    | some t =>
      rw [endOf, hlast]
      exact (hstands t (List.mem_of_getLast? hlast)).after.isValid

/-- What a syntax error says of a text is true of it. Its place is the start of a character of the
text, or the end of the text, and no sum that a place is made of exceeds the text's length. -/
theorem syntaxError_true_of_text {s : String} {err : SyntaxError} (h : Expr.parse s = .error err) :
    err.TrueOf s ∧
    (∀ p ∈ err.position?, p ≤ s.utf8ByteSize ∧ (⟨p⟩ : String.Pos.Raw).IsValid s) ∧
    (∀ t ∈ scan s, t.position + t.text.utf8ByteSize ≤ s.utf8ByteSize) := by
  obtain ⟨f, hf, rfl⟩ := ofTokensWithin_eq_error_iff.mp h
  obtain ⟨us, hts, hfails⟩ := readAll_eq_error_iff.mp hf
  refine ⟨trueOf_of_tells hts hfails.tells, ?_, fun t => finish_le⟩
  intro p hp
  have hvalid := isValid_position hts
  rw [← position_of_toError hp] at hvalid
  exact ⟨hvalid.le_utf8ByteSize, hvalid⟩

/-- A name that is followed by no parenthesis, but by a letter that means nothing here, lacks its
argument there. -/
theorem name_before_foreign_letter :
    Expr.parse "\u00a0f é" = .error (.missingArgument "f" 4) ∧
      (SyntaxError.missingArgument "f" 4).TrueOf "\u00a0f é" :=
  have h : Expr.parse "\u00a0f é" = .error (.missingArgument "f" 4) := rfl
  ⟨h, (syntaxError_true_of_text h).1⟩

end Calculator
