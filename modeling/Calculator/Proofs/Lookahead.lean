import Calculator.Proofs.CallDepth
import Calculator.Proofs.Places

namespace Calculator

variable {limit : ℕ∞} {p : Phrase} {d : ℕ} {ts us rest : List Token} {e : Expr}

/-- Whether a reader takes a token at least when it succeeds, and goes by the kinds and texts of the
tokens that it takes and the kind of the one behind them. -/
def LooksOneAhead (read : Reader) : Prop :=
  ∀ ts e rest, read ts = .ok (e, rest) →
    ∃ us, us ≠ [] ∧ ts = us ++ rest ∧
      ∀ us' rest', us'.map Token.lexeme = us.map Token.lexeme →
        rest'.head?.map Token.kind = rest.head?.map Token.kind →
          read (us' ++ rest') = .ok (e, rest')

theorem Derives.ne_nil (h : Derives limit p d ts e) : ts ≠ [] := by
  induction h with
  | chain _ ih | first _ ih | base _ ih => exact ih
  | _ => simp

theorem ends_of_kind {next next' : Option Token} (h : next'.map Token.kind = next.map Token.kind)
    (he : p.Ends next) : p.Ends next' := by
  have hends (next : Option Token) : p.Ends next ↔ ∀ k ∈ next.map Token.kind, k ∉ p.operators := by
    simp [Phrase.Ends]
  rw [hends] at he ⊢
  rwa [h]

theorem Level.Sound.read {level : Level} {limit : ℕ} (h : level.Sound limit d) (p : Phrase)
    (ts : List Token) : Explains limit p.whole d [] ts (level.read p ts) := by
  cases p with
  | chain c | links c n => exact h.chain c ts
  | power => exact h.power ts
  | unary => exact h.unary ts

theorem read_of_derives {limit room : ℕ} (hd : Derives limit p.whole d us e)
    (hroom : d + room = limit + 1) (he : p.whole.Ends rest.head?) :
    (Level.withRoom room).read p (us ++ rest) = .ok (e, rest) := by
  cases p <;> exact readsAs_of_derives hd room rest hroom he

/-- The readers of a level look one token ahead. -/
theorem looksOneAhead_read (room : ℕ) (p : Phrase) :
    LooksOneAhead ((Level.withRoom room).read p) := by
  intro ts e rest h
  -- Any level but the bottom one is that of depth zero under some limit.
  obtain ⟨limit, rfl⟩ : ∃ limit, room = limit + 1 :=
    ⟨room - 1, (Nat.succ_pred_eq_of_pos (Level.room_pos_of_read h)).symm⟩
  have hread := (sound_withRoom limit (limit + 1) 0 (Nat.zero_add _)).read p ts
  rw [h] at hread
  obtain ⟨us, hts, hd, he⟩ := hread
  refine ⟨us, hd.ne_nil, hts, fun us' rest' hus hnext => ?_⟩
  exact read_of_derives (hd.congr hus) (Nat.zero_add _) (ends_of_kind hnext he)

/-- A reader looks one token ahead if it does what another does that looks one ahead, but reads only
from tokens of certain kinds on. -/
theorem LooksOneAhead.startingWith {read read' : Reader} (h : LooksOneAhead read)
    (kinds : List Kind) (hsame : ∀ t ts, t.kind ∈ kinds → read' (t :: ts) = read (t :: ts))
    (hstarts : ∀ ts r, read' ts = .ok r → ∃ t ∈ ts.head?, t.kind ∈ kinds) :
    LooksOneAhead read' := by
  intro ts e rest hread
  obtain ⟨t, ht, hk⟩ := hstarts ts _ hread
  obtain ⟨ts, rfl⟩ := List.head?_eq_some_iff.mp ht
  rw [hsame t ts hk] at hread
  obtain ⟨us, hne, hts, hlocal⟩ := h _ _ _ hread
  refine ⟨us, hne, hts, fun us' rest' hus hnext => ?_⟩
  have hsplit := hlocal us' rest' hus hnext
  -- The other tokens start with one of the same kind.
  obtain ⟨u, us, rfl⟩ := List.exists_cons_of_ne_nil hne
  obtain ⟨rfl, -⟩ := List.cons.inj hts
  obtain ⟨u', us', rfl, hkind, -, -⟩ := lexemes_eq_cons hus
  rw [List.cons_append] at hsplit ⊢
  rw [hsame u' _ (hkind ▸ hk), hsplit]

namespace Parser

variable {below : Level}

theorem head_of_expect {α : Type} {kind : Kind} {wanted : String} {r : α}
    {k : Token × List Token → Except Failure α}
    (h : (expect kind wanted ts >>= k) = .ok r) : ∃ t ∈ ts.head?, t.kind = kind := by
  cases ts with
  | nil => cases h
  | cons t ts =>
    by_cases ht : t.kind = kind
    · exact ⟨t, rfl, ht⟩
    · rw [expect, if_neg ht] at h
      cases h

theorem looksOneAhead_primary (room : ℕ) : LooksOneAhead (primary (Level.withRoom room)) := by
  have hunary := looksOneAhead_read (room + 1) .unary
  refine hunary.startingWith [.number, .identifier, .leftParen] ?_ ?_
  · intro t ts hk
    exact (unary_of_not_sign (by rintro _ ⟨⟩; cases ht : t.kind <;> simp_all)).symm
  · intro ts r h
    by_contra hstart
    rw [primary_eq_error] at h
    · cases h
    all_goals
      intro t ht hk
      exact hstart ⟨t, ht, by simp [hk]⟩

/-- What a primary does that starts with a token of one kind looks one token ahead. -/
theorem looksOneAhead_of_primary (room : ℕ) {read : Reader} (kind : Kind)
    (hsame : ∀ t ts, t.kind = kind → primary (Level.withRoom room) (t :: ts) = read (t :: ts))
    (hstarts : ∀ ts r, read ts = .ok r → ∃ t ∈ ts.head?, t.kind = kind) : LooksOneAhead read := by
  refine (looksOneAhead_primary room).startingWith [kind] ?_ ?_
  · intro t ts hk
    exact (hsame t ts (List.mem_singleton.mp hk)).symm
  · intro ts r h
    obtain ⟨t, ht, hk⟩ := hstarts ts r h
    exact ⟨t, ht, List.mem_singleton.mpr hk⟩

theorem looksOneAhead_name (room : ℕ) : LooksOneAhead (name (Level.withRoom room)) := by
  apply looksOneAhead_of_primary room .identifier
  · exact fun t ts hk => primary_eq_name hk ts
  · exact fun ts r h => head_of_expect h

theorem looksOneAhead_group (room : ℕ) : LooksOneAhead (group (Level.withRoom room)) := by
  apply looksOneAhead_of_primary room .leftParen
  · exact fun t ts hk => primary_eq_group hk ts
  · exact fun ts r h => head_of_expect h

theorem looksOneAhead_number : LooksOneAhead number := by
  intro ts e rest h
  cases ts with
  | nil => cases h
  | cons t ts =>
    cases hx : Number.ofText? t.text with
    | none =>
      rw [number, hx] at h
      cases h
    | some x =>
      rw [number, hx] at h
      cases h
      refine ⟨[t], by simp, rfl, fun us' rest' hus _ => ?_⟩
      obtain ⟨t', rfl, -, htext⟩ := lexemes_eq_singleton hus
      simp only [List.singleton_append, number, htext, hx]

end Parser

/-- Whatever a call stands for, its reader looks one token ahead. -/
theorem looksOneAhead_reader (limit : ℕ) (c : Call) : LooksOneAhead (c.reader limit) := by
  obtain ⟨procedure, i, d⟩ := c
  cases procedure with
  | chain c | operands c => exact looksOneAhead_read _ (.chain c)
  | power => exact looksOneAhead_read _ .power
  | unary => exact looksOneAhead_read _ .unary
  | primary => exact Parser.looksOneAhead_primary _
  | number => exact Parser.looksOneAhead_number
  | name => exact Parser.looksOneAhead_name _
  | group => exact Parser.looksOneAhead_group _

/-- Whether so many tokens from an index on are of the same kinds and texts as others from another
index on, and what follows them is of the same kind or is the end for both. -/
structure Alike (n : ℕ) (ts : List Token) (i : ℕ) (us : List Token) (i' : ℕ) : Prop where
  taken : ((us.drop i').take n).map Token.lexeme = ((ts.drop i).take n).map Token.lexeme
  next : us[i' + n]?.map Token.kind = ts[i + n]?.map Token.kind

theorem Alike.length_le {n i i' : ℕ} (h : Alike n ts i us i') (hpos : 0 < n)
    (hn : i + n ≤ ts.length) : i' + n ≤ us.length := by
  have hlength := congrArg List.length h.taken
  simp only [List.length_map, List.length_take, List.length_drop] at hlength
  omega

theorem Alike.next_drop {n i i' : ℕ} (h : Alike n ts i us i') :
    ((us.drop i').drop n).head?.map Token.kind = (ts.drop (i + n)).head?.map Token.kind := by
  rw [List.drop_drop, List.head?_drop, List.head?_drop]
  exact h.next

/-- From whatever token and at whatever depth a procedure reads, when it succeeds it has gone on by
a token at least and no further than to the end. From tokens that are alike as far as it went, it
reads the same and goes on by as many, whatever stands before them and behind the next token. -/
theorem procedures_look_one_ahead {limit : ℕ} {procedure : Procedure} {i d : ℕ}
    (h : Call.reader limit ⟨procedure, i, d⟩ (ts.drop i) = .ok (e, rest)) :
    ∃ j, i < j ∧ j ≤ ts.length ∧ rest = ts.drop j ∧
      ∀ us i', Alike (j - i) ts i us i' →
        i' + (j - i) ≤ us.length ∧
        Call.reader limit ⟨procedure, i', d⟩ (us.drop i') =
          .ok (e, us.drop (i' + (j - i))) := by
  obtain ⟨us, hne, hts, hlocal⟩ := looksOneAhead_reader limit ⟨procedure, i, d⟩ _ _ _ h
  have hpos : 0 < us.length := List.length_pos_iff.mpr hne
  have hlength : us.length + rest.length = ts.length - i := by
    rw [← List.length_append, ← hts, List.length_drop]
  have hrest : rest = ts.drop (i + us.length) := by
    rw [← List.drop_drop, hts, List.drop_left]
  have htaken : (ts.drop i).take us.length = us := by
    rw [hts, List.take_left]
  refine ⟨i + us.length, by omega, by omega, hrest, ?_⟩
  rw [Nat.add_sub_cancel_left]
  intro vs i' halike
  -- What is alike splits where the reader stopped. The place where a procedure starts is no part of
  -- its reader.
  have hsame : ((vs.drop i').take us.length).map Token.lexeme = us.map Token.lexeme := by
    rw [halike.taken, htaken]
  have hnext : ((vs.drop i').drop us.length).head?.map Token.kind = rest.head?.map Token.kind := by
    rw [halike.next_drop, hrest]
  have hread := hlocal _ _ hsame hnext
  rw [List.take_append_drop, List.drop_drop] at hread
  exact ⟨halike.length_le hpos (by omega), hread⟩

/-- A power is read alike behind an operator and at the start, though what follows the next token
could not be read. -/
theorem power_read_elsewhere :
    Call.reader maxDepth ⟨.power, 2, 7⟩ ((tokens "1*pi^f(e)+2").drop 2) =
      .ok (.binary .power (.number Number.pi) (.call "f" (.number Number.e)),
        (tokens "1*pi^f(e)+2").drop 8) ∧
    Alike 6 (tokens "1*pi^f(e)+2") 2 (tokens "pi ^ f(e) + )") 0 ∧
    Call.reader maxDepth ⟨.power, 0, 7⟩ (tokens "pi ^ f(e) + )") =
      .ok (.binary .power (.number Number.pi) (.call "f" (.number Number.e)),
        (tokens "pi ^ f(e) + )").drop 6) := by
  have h : Call.reader maxDepth ⟨.power, 2, 7⟩ ((tokens "1*pi^f(e)+2").drop 2) =
      .ok (.binary .power (.number Number.pi) (.call "f" (.number Number.e)),
        (tokens "1*pi^f(e)+2").drop 8) := rfl
  have halike : Alike 6 (tokens "1*pi^f(e)+2") 2 (tokens "pi ^ f(e) + )") 0 :=
    ⟨by decide +kernel, by decide +kernel⟩
  obtain ⟨j, -, hj, hrest, hsame⟩ := procedures_look_one_ahead h
  have hlength : (tokens "1*pi^f(e)+2").length = 10 := by decide +kernel
  have hleft := congrArg List.length hrest
  rw [List.length_drop, List.length_drop] at hleft
  obtain rfl : j = 8 := by omega
  exact ⟨h, halike, (hsame _ 0 halike).2⟩

end Calculator
