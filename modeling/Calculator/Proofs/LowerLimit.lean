import Calculator.Proofs.Places

namespace Calculator

variable {L M : ℕ∞} {p : Phrase} {d : ℕ} {us vs : List Token} {next : Option Token} {f : Fault}

/-- Whether a phrase is found too deep at one of the tokens, or at the one after them. -/
def TooDeepBy (L : ℕ∞) (p : Phrase) (d : ℕ) (us : List Token) (next : Option Token) : Prop :=
  ∃ seen rest, us = seen ++ rest ∧ Breaks L p d seen (rest.head?.or next) .tooDeep

theorem tooDeepBy_first (us : List Token) (next : Option Token) (h : L < d) :
    TooDeepBy L .unary d us next :=
  ⟨[], us, rfl, .tooDeep h⟩

theorem TooDeep.by_append (h : TooDeep L p d us) (vs : List Token) (next : Option Token) :
    TooDeepBy L p d (us ++ vs) next := by
  obtain ⟨seen, t, rest, hts, hb⟩ := tooDeep_append vs h
  exact ⟨seen, t :: rest, hts, hb⟩

theorem tooDeepBy_of_part {q : Phrase} {m : ℕ} (us : List Token) (h : TooDeepBy L q m vs next)
    (hb : ∀ ws t, Breaks L q m ws t .tooDeep → Breaks L p d (us ++ ws) t .tooDeep) :
    TooDeepBy L p d (us ++ vs) next := by
  obtain ⟨seen, rest, rfl, hbr⟩ := h
  exact ⟨us ++ seen, rest, by simp, hb seen _ hbr⟩

theorem tooDeepBy_after {q : Phrase} {m : ℕ} (us : List Token) (t : Token)
    (h : TooDeepBy L q m vs next)
    (hb : ∀ ws s, Breaks L q m ws s .tooDeep → Breaks L p d (us ++ t :: ws) s .tooDeep) :
    TooDeepBy L p d (us ++ t :: vs) next := by
  rw [List.append_cons]
  apply tooDeepBy_of_part _ h
  intro ws s hbr
  rw [← List.append_cons]
  exact hb ws s hbr

/-- A phrase that breaks under one limit breaks in the same way under a lower one, unless it is
found too deep by then. -/
theorem Breaks.or_tooDeepBy (h : Breaks M p d us next f) (hle : L ≤ M) :
    Breaks L p d us next f ∨ TooDeepBy L p d us next := by
  -- By induction on the way to the fault. What was derived before it still is, or is too deep; and
  -- where an operand starts the lower limit may be met before the token there is looked at.
  induction h with
  | first _ ih =>
    apply ih.imp .first
    intro h
    exact tooDeepBy_of_part [] h fun _ _ hb => .first hb
  | @link c n d us t vs o left next f hl ho _ ih =>
    rcases hl.or_tooDeep L with hl | hl
    · apply ih.imp (.link hl ho)
      intro h
      exact tooDeepBy_after us t h fun _ _ hb => .link hl ho hb
    · exact .inr (hl.by_append (t :: vs) next)
  | base _ ih =>
    apply ih.imp .base
    intro h
    exact tooDeepBy_of_part [] h fun _ _ hb => .base hb
  | @exponent d us t vs base next f hb ht _ ih =>
    rcases hb.or_tooDeep L with hb | hb
    · apply ih.imp (.exponent hb ht)
      intro h
      exact tooDeepBy_after us t h fun _ _ hbr => .exponent hb ht hbr
    · have hpower : TooDeep L .power d us := tooDeep_of_part [] hb fun _ _ hbr => .base hbr
      exact .inr (hpower.by_append (t :: vs) next)
  | tooDeep hd => exact .inl (.tooDeep (hle.trans_lt hd))
  | @sign d t ts next f _ ht _ ih =>
    rcases le_or_gt (d : ℕ∞) L with hd | hd
    · apply ih.imp (.sign hd ht)
      intro h
      exact tooDeepBy_of_part [t] h fun _ _ hb => .sign hd ht hb
    · exact .inr (tooDeepBy_first _ _ hd)
  | @noOperand d next _ hn =>
    rcases le_or_gt (d : ℕ∞) L with hd | hd
    · exact .inl (.noOperand hd hn)
    · exact .inr (tooDeepBy_first _ _ hd)
  | @malformed d t _ ht hx =>
    rcases le_or_gt (d : ℕ∞) L with hd | hd
    · exact .inl (.malformed hd ht hx)
    · exact .inr (tooDeepBy_first _ _ hd)
  | @noArgument d t next _ ht hx hn =>
    rcases le_or_gt (d : ℕ∞) L with hd | hd
    · exact .inl (.noArgument hd ht hx hn)
    · exact .inr (tooDeepBy_first _ _ hd)
  | @inside d us vs next f _ ho _ ih =>
    rcases le_or_gt (d : ℕ∞) L with hd | hd
    · apply ih.imp (.inside hd ho)
      intro h
      exact tooDeepBy_of_part us h fun _ _ hb => .inside hd ho hb
    · exact .inr (tooDeepBy_first _ _ hd)
  | @unclosed d us vs e next _ ho h he hn =>
    rcases le_or_gt (d : ℕ∞) L with hd | hd
    · rcases h.or_tooDeep L with h | h
      · exact .inl (.unclosed hd ho h he hn)
      · have hinside : TooDeep L .unary d (us ++ vs) :=
          tooDeep_of_part us h fun _ _ hb => .inside hd ho hb
        have hby := hinside.by_append [] next
        rw [List.append_nil] at hby
        exact .inr hby
    · exact .inr (tooDeepBy_first _ _ hd)

theorem Fails.or_tooDeep (h : Fails M us next f) (hle : L ≤ M) :
    Fails L us next f ∨
      ∃ seen rest, us = seen ++ rest ∧ Fails L seen (rest.head?.or next) .tooDeep := by
  cases h with
  | breaks h =>
    apply (h.or_tooDeepBy hle).imp .breaks
    rintro ⟨seen, rest, hus, hb⟩
    exact ⟨seen, rest, hus, .breaks hb⟩
  | @trailing e t h he =>
    apply (h.or_tooDeep L).imp (Fails.trailing · he)
    rintro ⟨seen, s, rest, hus, hb⟩
    exact ⟨seen, s :: rest, hus, .breaks hb⟩

theorem readAll_error_or_tooDeep {L M : ℕ} {ts : List Token} {f : Failure} (hle : L ≤ M)
    (h : readAll M ts = .error f) :
    readAll L ts = .error f ∨ ∃ between, readAll L ts = .error ⟨.tooDeep, between ++ f.rest⟩ := by
  obtain ⟨us, rfl, hfails⟩ := readAll_eq_error_iff.mp h
  rcases hfails.or_tooDeep (Nat.cast_le.mpr hle) with hsame | ⟨seen, between, rfl, hdeep⟩
  · exact .inl (readAll_of_fails hsame)
  · refine .inr ⟨between, ?_⟩
    rw [← List.head?_append] at hdeep
    rw [List.append_assoc]
    exact readAll_of_fails hdeep

/-- Each link of a chain has an operator of its own. -/
theorem Derives.count_le {ts : List Token} {e : Expr} (h : Derives L p d ts e) :
    p.count ≤ ts.length := by
  induction h with
  | @link c n d us t vs o left right _ _ _ ihl _ =>
    simp only [Phrase.count, List.length_append, List.length_cons] at ihl ⊢
    omega
  | _ => exact Nat.zero_le _

theorem Breaks.lt_of_tooDeep (h : Breaks L p d us next f) (hf : f = .tooDeep) :
    L < (d + us.length : ℕ) := by
  have hmono {m n : ℕ} (hm : L < (m : ℕ∞)) (hmn : m ≤ n) : L < (n : ℕ∞) :=
    hm.trans_le (Nat.cast_le.mpr hmn)
  -- Whatever lies deeper lies behind the sign, the operator or the parenthesis that takes it there.
  induction h with
  | first _ ih | base _ ih => exact ih hf
  | @link c n d us t vs o left next f hl _ _ ih =>
    apply hmono (ih hf)
    have hcount := hl.count_le
    simp only [Phrase.count, List.length_append, List.length_cons] at hcount ⊢
    omega
  | exponent _ _ _ ih =>
    apply hmono (ih hf)
    simp only [List.length_append, List.length_cons]
    omega
  | tooDeep hd => exact hd
  | sign _ _ _ ih =>
    apply hmono (ih hf)
    simp only [List.length_cons]
    omega
  | @inside d us vs next f _ ho _ ih =>
    apply hmono (ih hf)
    have hopen : 0 < us.length := by cases ho <;> simp
    simp only [List.length_append]
    omega
  | noOperand | malformed | noArgument | unclosed => simp at hf

theorem readAll_tooDeep_or_eq {L M : ℕ} (hle : L ≤ M) (ts : List Token) :
    (∃ rest, readAll L ts = .error ⟨.tooDeep, rest⟩) ∨ readAll L ts = readAll M ts := by
  cases hM : readAll M ts with
  | ok e =>
    have hd : Derives ⊤ (.chain .sum) 0 ts e := (readAll_eq_ok_iff.mp hM).mono le_top
    exact (readAll_or_tooDeep hd L).symm
  | error f =>
    rcases readAll_error_or_tooDeep hle hM with hsame | ⟨between, hdeep⟩
    · exact .inr hsame
    · exact .inl ⟨_, hdeep⟩

theorem length_gt_of_tooDeep {L : ℕ} {ts rest : List Token}
    (h : readAll L ts = .error ⟨.tooDeep, rest⟩) : L < ts.length := by
  obtain ⟨us, rfl, hfails⟩ := readAll_eq_error_iff.mp h
  -- Tokens that follow a whole sum are left over, and that is no nesting error.
  generalize rest.head? = next at hfails
  dsimp only at hfails
  cases hfails with
  | breaks h =>
    have hlt := Nat.cast_lt.mp (h.lt_of_tooDeep rfl)
    simp only [List.length_append]
    omega

theorem fault_of_toError {f : Failure} {finish p : ℕ} (h : f.toError finish = .tooDeep p) :
    f.fault = .tooDeep := by
  obtain ⟨fault, rest⟩ := f
  cases fault <;> cases rest <;> simp_all [Failure.toError]

theorem ofTokensWithin_eq_tooDeep_iff {L : ℕ} {ts : List Token} {p : ℕ} :
    Expr.ofTokensWithin L ts = .error (.tooDeep p) ↔
      ∃ i ≤ ts.length, readAll L ts = .error ⟨.tooDeep, ts.drop i⟩ ∧ p = placeOf ts i := by
  rw [ofTokensWithin_eq_error_iff]
  constructor
  · rintro ⟨⟨fault, rest⟩, hread, herr⟩
    obtain rfl : fault = .tooDeep := fault_of_toError herr
    obtain ⟨seen, rfl, -⟩ := readAll_eq_error_iff.mp hread
    refine ⟨seen.length, by simp, by simpa using hread, ?_⟩
    rw [placeOf_append]
    exact (SyntaxError.tooDeep.inj herr).symm
  · rintro ⟨i, hi, hread, rfl⟩
    refine ⟨_, hread, congrArg SyntaxError.tooDeep ?_⟩
    have hplace := placeOf_append (ts.take i) (ts.drop i)
    rw [List.take_append_drop, List.length_take_of_le hi] at hplace
    exact hplace.symm

/-- A lower limit turns what is read into a nesting error or leaves it as it is. What nests too
deeply for a limit nests too deeply for every lower one, at the same token or before it; and no
tokens nest too deeply for a limit that is no less than their number. -/
theorem lower_limit_only_refuses {L M : ℕ} (h : L ≤ M) (ts : List Token) :
    ((∃ p, Expr.ofTokensWithin L ts = .error (.tooDeep p)) ∨
      Expr.ofTokensWithin L ts = Expr.ofTokensWithin M ts) ∧
    (∀ q, Expr.ofTokensWithin M ts = .error (.tooDeep q) →
      ∃ i j, i ≤ j ∧ j ≤ ts.length ∧
        readAll L ts = .error ⟨.tooDeep, ts.drop i⟩ ∧
        readAll M ts = .error ⟨.tooDeep, ts.drop j⟩ ∧
        Expr.ofTokensWithin L ts = .error (.tooDeep (placeOf ts i)) ∧ q = placeOf ts j) ∧
    (ts.length ≤ L → ∀ p, Expr.ofTokensWithin L ts ≠ .error (.tooDeep p)) := by
  refine ⟨?_, ?_, ?_⟩
  · rcases readAll_tooDeep_or_eq h ts with ⟨rest, hdeep⟩ | hsame
    · exact .inl ⟨_, ofTokensWithin_eq_error_iff.mpr ⟨_, hdeep, rfl⟩⟩
    · right
      rw [Expr.ofTokensWithin, Expr.ofTokensWithin, hsame]
  · intro q hq
    obtain ⟨j, hj, hreadM, hplace⟩ := ofTokensWithin_eq_tooDeep_iff.mp hq
    -- The lower limit is met at the same token, or some of the tokens before it are left as well.
    obtain ⟨between, hreadL⟩ :
        ∃ between, readAll L ts = .error ⟨.tooDeep, between ++ ts.drop j⟩ := by
      rcases readAll_error_or_tooDeep h hreadM with hsame | hdeep
      · exact ⟨[], hsame⟩
      · exact hdeep
    obtain ⟨seen, hts, -⟩ := readAll_eq_error_iff.mp hreadL
    have hdrop : between ++ ts.drop j = ts.drop seen.length := by
      have hall := congrArg (List.drop seen.length) hts
      rw [List.drop_left] at hall
      exact hall.symm
    have hlength : seen.length + between.length = j := by
      have hall := congrArg List.length hts
      simp only [List.length_append, List.length_drop] at hall
      omega
    rw [hdrop] at hreadL
    have hij : seen.length ≤ j := by omega
    refine ⟨seen.length, j, hij, hj, hreadL, hreadM, ?_, hplace⟩
    exact ofTokensWithin_eq_tooDeep_iff.mpr ⟨_, hij.trans hj, hreadL, rfl⟩
  · intro hlength p hp
    obtain ⟨i, -, hread, -⟩ := ofTokensWithin_eq_tooDeep_iff.mp hp
    exact absurd (length_gt_of_tooDeep hread) (not_lt.mpr hlength)

/-- In `--2` the operand lies two levels down. A limit of one is met there, and a limit of zero is
met at the second sign. -/
theorem two_signs_under_lower_limits :
    0 ≤ 1 ∧
      (∃ i j, i ≤ j ∧ j ≤ (tokens "--2").length ∧
        readAll 0 (tokens "--2") = .error ⟨.tooDeep, (tokens "--2").drop i⟩ ∧
        readAll 1 (tokens "--2") = .error ⟨.tooDeep, (tokens "--2").drop j⟩ ∧
        Expr.ofTokensWithin 0 (tokens "--2") = .error (.tooDeep (placeOf (tokens "--2") i)) ∧
        2 = placeOf (tokens "--2") j) :=
  have hfirst : 0 ≤ 1 := by decide
  have hsecond : Expr.ofTokensWithin 1 (tokens "--2") = .error (.tooDeep 2) := by decide +kernel
  ⟨hfirst, (lower_limit_only_refuses hfirst (tokens "--2")).2.1 2 hsecond⟩

end Calculator
