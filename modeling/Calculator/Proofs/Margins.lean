import Mathlib.Data.List.DropRight
import Calculator.Program
import Calculator.Proofs.Pieces
import Calculator.Proofs.Places
import Calculator.Proofs.Slices
import Calculator.Proofs.Transcript

namespace Calculator

def Token.shifted (n : ℕ) (t : Token) : Token := { t with position := n + t.position }

/-- An error with its place, where it has one, so many bytes further on. -/
def SyntaxError.shifted (n : ℕ) : SyntaxError → SyntaxError
  | .unexpectedToken found p => .unexpectedToken found (n + p)
  | .unexpectedEnd => .unexpectedEnd
  | .expectedToken wanted found p => .expectedToken wanted found (n + p)
  | .missingArgument function p => .missingArgument function (n + p)
  | .malformedNumber found p => .malformedNumber found (n + p)
  | .trailingInput found p => .trailingInput found (n + p)
  | .tooDeep p => .tooDeep (n + p)

def LineError.shifted (n : ℕ) : LineError → LineError
  | .parse e => .parse (e.shifted n)
  | .eval e => .eval e

def margin (s : String) : ℕ := byteLength (s.toList.takeWhile Text.isBlank)

section Tokens

theorem place_add (n start : ℕ) (ls : List Lexeme) :
    place (n + start) ls = (place start ls).map (Token.shifted n) := by
  induction ls generalizing start with
  | nil => rfl
  | cons l ls ih =>
    rw [place, place, List.map_cons, ← ih, Token.finish, Token.finish, Nat.add_assoc]
    rfl

theorem place_append (start : ℕ) (ls ms : List Lexeme) :
    place start (ls ++ ms) =
      place start ls ++ place (start + byteLength (ls.flatMap Lexeme.chars)) ms := by
  induction ls generalizing start with
  | nil => rfl
  | cons l ls ih =>
    rw [List.cons_append, place, place, ih, List.flatMap_cons, byteLength_append, Token.finish,
      ← Nat.add_assoc]
    rfl

/-- The tokens of some characters that mean something, if the characters start at a byte. -/
def tokensFrom (start : ℕ) (cs : List Char) : List Token :=
  (place start (lexemes cs)).filter (·.kind ≠ .whitespace)

theorem tokens_eq (s : String) : tokens s = tokensFrom 0 s.toList := rfl

theorem tokensFrom_add (n start : ℕ) (cs : List Char) :
    tokensFrom (n + start) cs = (tokensFrom start cs).map (Token.shifted n) := by
  rw [tokensFrom, place_add, List.filter_map]
  rfl

theorem tokensFrom_blank {c : Char} (start : ℕ) (cs : List Char) (hc : Text.isBlank c = true) :
    tokensFrom start (c :: cs) = tokensFrom (start + byteLength [c]) cs := by
  have hkind : Kind.ofChar c = .whitespace := ofChar_of_isBlank hc
  change (place start (attach c (lexemes cs))).filter _ = _
  rw [tokensFrom]
  cases lexemes cs with
  | nil => simp [attach, hkind, place]
  | cons l rest =>
    by_cases hl : l.kind = .whitespace
    · -- White space runs on into white space, and the two together are as long as each was.
      simp [attach, hkind, hl, Kind.runs, place, Token.finish, byteLength, Nat.add_assoc]
    · simp [attach, hkind, hl, place, Token.finish, byteLength]

theorem tokensFrom_blanks {bs : List Char} (start : ℕ) (cs : List Char)
    (h : ∀ c ∈ bs, Text.isBlank c = true) :
    tokensFrom start (bs ++ cs) = tokensFrom (start + byteLength bs) cs := by
  induction bs generalizing start with
  | nil => rfl
  | cons b bs ih =>
    have hlength : byteLength (b :: bs) = byteLength [b] + byteLength bs :=
      byteLength_append [b] bs
    rw [List.cons_append, tokensFrom_blank _ _ (h b (by simp)), ih _ fun c hc => h c (by simp [hc]),
      hlength, Nat.add_assoc]

theorem tokensFrom_append_blanks {cs bs : List Char} (start : ℕ)
    (hbs : ∀ c ∈ bs, Text.isBlank c = true) (hcs : ∀ c ∈ cs.getLast?, Text.isBlank c = false) :
    tokensFrom start (cs ++ bs) = tokensFrom start cs := by
  have hcut : ¬ Joins cs bs := by
    rintro ⟨a, ha, b, hb, hab, -⟩
    have hblank := ofChar_of_isBlank (hbs b (List.mem_of_mem_head? hb))
    have ha' := ofChar_eq_iff.mp (hab.trans hblank) a (by simp)
    simp [hcs a ha] at ha'
  have hrest := tokensFrom_blanks (start + byteLength cs) [] hbs
  rw [List.append_nil] at hrest
  rw [tokensFrom, lexemes_append hcut, place_append, flatMap_chars_lexemes, List.filter_append]
  change tokensFrom start cs ++ tokensFrom (start + byteLength cs) bs = _
  rw [hrest]
  exact List.append_nil _

end Tokens

/-- A text is what it is trimmed to, with white space before and after. -/
theorem exists_margins (cs : List Char) :
    ∃ after, cs = cs.takeWhile Text.isBlank ++ (Text.trimChars cs ++ after) ∧
      (∀ c ∈ after, Text.isBlank c = true) ∧
      ∀ c ∈ (Text.trimChars cs).getLast?, Text.isBlank c = false := by
  have htrim : Text.trimChars cs = (cs.dropWhile Text.isBlank).rdropWhile Text.isBlank := rfl
  refine ⟨(cs.dropWhile Text.isBlank).rtakeWhile Text.isBlank, ?_, ?_, ?_⟩
  · rw [htrim, List.rdropWhile_append_rtakeWhile, List.takeWhile_append_dropWhile]
  · intro c hc
    exact List.mem_rtakeWhile_imp hc
  · intro c hc
    obtain ⟨hne, rfl⟩ := List.mem_getLast?_eq_getLast hc
    exact Bool.eq_false_iff.mpr (List.rdropWhile_last_not _ _ hne)

theorem trimChars_concat (cs : List Char) {c : Char} (hc : Text.isBlank c = true) :
    Text.trimChars (cs ++ [c]) = Text.trimChars cs := by
  change ((cs ++ [c]).dropWhile Text.isBlank).rdropWhile Text.isBlank =
    (cs.dropWhile Text.isBlank).rdropWhile Text.isBlank
  rw [List.dropWhile_append]
  split_ifs with h
  · simp [hc, List.isEmpty_iff.mp h]
  · exact List.rdropWhile_concat_pos _ _ _ hc

/-- A text has the tokens of what it is trimmed to, further on by the white space before them. -/
theorem tokens_eq_shifted (s : String) :
    tokens s = (tokens (Text.trim s)).map (Token.shifted (margin s)) := by
  obtain ⟨after, hs, hafter, hlast⟩ := exists_margins s.toList
  have hbefore : ∀ c ∈ s.toList.takeWhile Text.isBlank, Text.isBlank c = true := by
    intro c hc
    exact List.mem_takeWhile_imp hc
  calc
    tokens s = tokensFrom 0 (s.toList.takeWhile Text.isBlank ++
        (Text.trimChars s.toList ++ after)) := by rw [← hs, tokens_eq]
    _ = tokensFrom (0 + margin s) (Text.trimChars s.toList) := by
      rw [tokensFrom_blanks _ _ hbefore, tokensFrom_append_blanks _ hafter hlast, margin]
    _ = tokensFrom (margin s + 0) (Text.trim s).toList := by
      rw [Nat.zero_add, Nat.add_zero, Text.trim, String.toList_ofList]
    _ = (tokens (Text.trim s)).map (Token.shifted (margin s)) := tokensFrom_add _ _ _

section Readings

variable (n : ℕ) {ts : List Token}

theorem map_lexeme_shifted (ts : List Token) :
    (ts.map (Token.shifted n)).map Token.lexeme = ts.map Token.lexeme := by
  rw [List.map_map]
  rfl

theorem placeOf_shifted (h : ts ≠ []) (i : ℕ) :
    placeOf (ts.map (Token.shifted n)) i = n + placeOf ts i := by
  have hend : endOf (ts.map (Token.shifted n)) = n + endOf ts := by
    rw [endOf, endOf, List.getLast?_map, List.getLast?_eq_some_getLast h]
    exact Nat.add_assoc ..
  rw [placeOf, placeOf, hend, List.getElem?_map]
  cases ts[i]? <;> rfl

theorem movedTo_shifted (p : ℕ) (err : SyntaxError) :
    (err.movedTo p).shifted n = err.movedTo (n + p) := by
  cases err <;> rfl

/-- Tokens that stand further on make the same expression, or the same error further on. -/
theorem ofTokensWithin_shifted (limit : ℕ) (ts : List Token) :
    Expr.ofTokensWithin limit (ts.map (Token.shifted n)) =
      (Expr.ofTokensWithin limit ts).mapError (SyntaxError.shifted n) := by
  rcases eq_or_ne ts [] with rfl | hne
  · rfl
  have h := ofTokensWithin_agree limit (map_lexeme_shifted n ts).symm
  cases hts : Expr.ofTokensWithin limit ts with
  | ok e =>
    cases hus : Expr.ofTokensWithin limit (ts.map (Token.shifted n)) with
    | ok e' =>
      rw [hts, hus] at h
      exact congrArg Except.ok (Eq.symm h)
    | error err' => simp [hts, hus, Agree] at h
  | error err =>
    cases hus : Expr.ofTokensWithin limit (ts.map (Token.shifted n)) with
    | ok e' => simp [hts, hus, Agree] at h
    | error err' =>
      rw [hts, hus] at h
      obtain ⟨i, -, herr, herr'⟩ := h
      rw [placeOf_shifted n hne, ← movedTo_shifted, ← herr] at herr'
      exact congrArg Except.error herr'

end Readings

theorem parse_eq_shifted (s : String) :
    Expr.parse s = (Expr.parse (Text.trim s)).mapError (SyntaxError.shifted (margin s)) := by
  change Expr.ofTokensWithin maxDepth (tokens s) = _
  rw [tokens_eq_shifted, ofTokensWithin_shifted]
  rfl

theorem answer_eq_shifted (verbose : Bool) (s : String) :
    answer verbose s =
      (answer verbose (Text.trim s)).mapError (LineError.shifted (margin s)) := by
  rw [answer, answer, parse_eq_shifted]
  cases Expr.parse (Text.trim s) with
  | error err => rfl
  | ok e =>
    change (e.eval.mapError LineError.eval).bind _ =
      ((e.eval.mapError LineError.eval).bind _).mapError _
    cases e.eval <;> rfl

theorem trim_append_newline (s : String) : Text.trim (s ++ "\n") = Text.trim s := by
  rw [Text.trim, Text.trim, String.toList_append]
  exact congrArg String.ofList (trimChars_concat s.toList (by decide))

/-- The writes of a session about a line that is answered, whatever lines are around it. -/
theorem writes_around {verbose : Bool} {text line : String} {earlier later : List String}
    (htext : linesOf text = earlier ++ line :: later)
    (hearlier : ∀ l ∈ earlier, Text.trim l ≠ "exit") (hline : Text.trim line ≠ "exit") :
    (Session.run .none verbose (encoded text.toList)).writes =
      ⟨.output, banner ++ "\n"⟩ :: ((records verbose earlier).flatten ++ record verbose line ++
        (records verbose later).flatten ++ [⟨.output, "> "⟩]) := by
  have hstay : ¬ ∃ l ∈ earlier, Text.trim l = "exit" := by
    rintro ⟨l, hl, hexit⟩
    exact hearlier l hl hexit
  rw [run_encoded, htext, records_append, if_neg hstay, records_cons, if_neg hline]
  simp

/-- What a session writes about a line is the answer that the same text gets as a single expression:
the same text, or the same error with its place counted from the first character that is not white
space. -/
theorem session_answers_as_once {s : String} (verbose : Bool) (hline : '\n' ∉ s.toList)
    (hblank : Text.trim s ≠ "") (hexit : Text.trim s ≠ "exit") :
    ∃ w : Write,
      Session.run .none verbose (encoded s.toList) =
        ⟨[⟨.output, banner ++ "\n"⟩, ⟨.output, "> "⟩, w, ⟨.output, "> "⟩], s.utf8ByteSize, none⟩ ∧
      (∀ text earlier line later, linesOf text = earlier ++ line :: later →
        (∀ l ∈ earlier, Text.trim l ≠ "exit") → line = s ∨ line = s ++ "\n" →
        (Session.run .none verbose (encoded text.toList)).writes =
          ⟨.output, banner ++ "\n"⟩ :: ((records verbose earlier).flatten ++
            [⟨.output, "> "⟩, w] ++ (records verbose later).flatten ++ [⟨.output, "> "⟩])) ∧
      ((∃ text, answer verbose s = .ok text ∧
          Program.once verbose s = .finished 0 (text ++ "\n") "" ∧ w = ⟨.output, text ++ "\n"⟩) ∨
        ∃ err : LineError, answer verbose s = .error (err.shifted (margin s)) ∧
          Program.once verbose s =
            .finished 1 "" ("Error: " ++ (err.shifted (margin s)).message ++ "\n") ∧
          w = ⟨.errors, "Error: " ++ err.message ++ "\n"⟩) := by
  have hne : s ≠ "" := by
    rintro rfl
    exact hblank rfl
  have honce := answer_eq_shifted verbose s
  -- The record of the line is a prompt and one more write, which tells the stripped line's answer.
  obtain ⟨w, hw, hanswer⟩ : ∃ w, record verbose s = [⟨.output, "> "⟩, w] ∧
      ((∃ text, answer verbose (Text.trim s) = .ok text ∧ w = ⟨.output, text ++ "\n"⟩) ∨
        ∃ err, answer verbose (Text.trim s) = .error err ∧
          w = ⟨.errors, "Error: " ++ err.message ++ "\n"⟩) := by
    rw [record, if_neg hblank]
    cases answer verbose (Text.trim s) with
    | ok text => exact ⟨_, rfl, .inl ⟨text, rfl, rfl⟩⟩
    | error err => exact ⟨_, rfl, .inr ⟨err, rfl, rfl⟩⟩
  refine ⟨w, ?_, ?_, ?_⟩
  · have hstay : ∀ line ∈ [s], Text.trim line ≠ "exit" := by simpa using hexit
    rw [run_encoded, linesOf_single hne hline, throughExit_of_forall hstay, records_cons,
      if_neg hexit, hw]
    simp [records, beforeExit]
  · intro text earlier line later htext hearlier hs
    have htrim : Text.trim line = Text.trim s := by
      rcases hs with rfl | rfl
      · rfl
      · exact trim_append_newline s
    have hrecord : record verbose line = [⟨.output, "> "⟩, w] := by
      rw [← hw, record, record, htrim]
    rw [writes_around htext hearlier (htrim ▸ hexit), hrecord]
  · rcases hanswer with ⟨text, htext, rfl⟩ | ⟨err, herr, rfl⟩
    · rw [htext] at honce
      refine .inl ⟨text, honce, ?_, rfl⟩
      rw [Program.once, honce]
      rfl
    · rw [herr] at honce
      refine .inr ⟨err, honce, ?_, rfl⟩
      rw [Program.once, honce]
      rfl

/-- Between a no-break space of two bytes and a line separator, an open parenthesis is missed at the
end of the last token, which a session counts from behind the space. -/
theorem unclosed_group_between_margins :
    ('\n' ∉ "\u00a0(2\u2028".toList ∧ Text.trim "\u00a0(2\u2028" ≠ "" ∧
      Text.trim "\u00a0(2\u2028" ≠ "exit") ∧
    ∃ w, Session.run .none true (encoded "\u00a0(2\u2028".toList) =
        ⟨[⟨.output, banner ++ "\n"⟩, ⟨.output, "> "⟩, w, ⟨.output, "> "⟩], 7, none⟩ ∧
      ∃ err : LineError, answer true "\u00a0(2\u2028" = .error (err.shifted 2) ∧
        w = ⟨.errors, "Error: " ++ err.message ++ "\n"⟩ := by
  have hline : '\n' ∉ "\u00a0(2\u2028".toList := by decide
  have hblank : Text.trim "\u00a0(2\u2028" ≠ "" := by decide
  have hexit : Text.trim "\u00a0(2\u2028" ≠ "exit" := by decide
  have hmargin : margin "\u00a0(2\u2028" = 2 := by decide
  have honce : answer true "\u00a0(2\u2028" = .error (.parse (.expectedToken ")" none 4)) := by
    decide +kernel
  obtain ⟨w, hrun, -, ⟨text, htext, -⟩ | ⟨err, herr, -, hw⟩⟩ :=
    session_answers_as_once true hline hblank hexit
  · exact absurd (honce.symm.trans htext) (by simp)
  · rw [hmargin] at herr
    exact ⟨⟨hline, hblank, hexit⟩, w, hrun, err, herr, hw⟩

end Calculator
