import Calculator.Line
import Calculator.Proofs.Origins
import Calculator.Proofs.Tokenisation
import Calculator.Proofs.Unambiguous

namespace Calculator

namespace Text

/-- Whether a character can be seen, and is drawn on its own. -/
def Visible (c : Char) : Prop := isCombining c = false ∧ isUnprintable c = false

def isPlain (c : Char) : Bool := 0x20 ≤ c.toNat && c.toNat < 0x7F

def Clear (s : String) : Prop := ∀ c ∈ s.toList, Visible c

variable {c : Char} {s t : String}

theorem visible_of_isPlain (h : isPlain c = true) : Visible c := by
  simp only [isPlain, Bool.and_eq_true, decide_eq_true_eq] at h
  obtain ⟨hlow, hhigh⟩ := h
  constructor
  · -- The first combining mark comes later.
    rw [isCombining, combiningRanges, Ranges.has_cons, decide_eq_false (by omega), Bool.false_and]
  · rw [isUnprintable, unprintableRanges, Ranges.has_cons, Ranges.has_cons,
      decide_eq_false (by omega : ¬ c.toNat ≤ 0x1F), decide_eq_false (by omega : ¬ 0x7F ≤ c.toNat),
      Bool.false_and, Bool.or_false, Bool.and_false]

theorem visible_of_isDigit (h : c.isDigit = true) : Visible c := by
  rw [Char.isDigit_iff_toNat] at h
  simp only [Char.reduceToNat] at h
  have hplain : 0x20 ≤ c.toNat ∧ c.toNat < 0x7F := by omega
  exact visible_of_isPlain (by simpa [isPlain] using hplain)

theorem visible_of_isAlpha (h : c.isAlpha = true) : Visible c := by
  rw [isAlpha_iff_toNat] at h
  simp only [Char.reduceToNat] at h
  have hplain : 0x20 ≤ c.toNat ∧ c.toNat < 0x7F := by omega
  exact visible_of_isPlain (by simpa [isPlain] using hplain)

theorem visible_of_mem_plain {cs : List Char} (hcs : cs.all isPlain = true) (h : c ∈ cs) :
    Visible c := visible_of_isPlain (List.all_eq_true.mp hcs c h)

theorem clear_of_plain (h : s.toList.all isPlain = true) : Clear s := fun _ hc =>
  visible_of_mem_plain h hc

theorem Visible.ne_newline (h : Visible c) : c ≠ '\n' := by
  rintro rfl
  exact absurd h.2 (by decide)

theorem clear_append : Clear (s ++ t) ↔ Clear s ∧ Clear t := by
  rw [Clear, String.toList_append, List.forall_mem_append]
  rfl

theorem Clear.newline_not_mem (h : Clear s) : '\n' ∉ s.toList := fun hmem =>
  (h _ hmem).ne_newline rfl

theorem clear_toString (n : ℕ) : Clear (toString n) := by
  intro c hc
  have hdigits : c ∈ Nat.toDigits 10 n := by simpa using hc
  exact visible_of_isDigit (Number.isDigit_of_mem_toDigits hdigits)

theorem visible_of_mem_toDigits {n : ℕ} (h : c ∈ Nat.toDigits 16 n) : Visible c := by
  induction n using Nat.strong_induction_on with
  | _ n ih =>
    have hdigit : ∀ m < 16, Visible m.digitChar := by
      have hplain : ∀ m < 16, isPlain m.digitChar = true := by decide
      exact fun m hm => visible_of_isPlain (hplain m hm)
    rw [Nat.toDigits_eq_if (by decide)] at h
    split_ifs at h with hlt
    · rw [List.mem_singleton.mp h]
      exact hdigit n hlt
    · rcases List.mem_append.mp h with h | h
      · exact ih _ (Nat.div_lt_self (by omega) (by decide)) h
      · rw [List.mem_singleton.mp h]
        exact hdigit _ (Nat.mod_lt _ (by decide))

/-- What stands for a character between quotation marks can be seen. -/
theorem visible_of_mem_escape {d : Char} (h : d ∈ escape c) : Visible d := by
  rw [escape] at h
  split_ifs at h with _ _ _ _ _ _ hhidden
  · exact visible_of_mem_plain (by decide) h
  · exact visible_of_mem_plain (by decide) h
  · exact visible_of_mem_plain (by decide) h
  · exact visible_of_mem_plain (by decide) h
  · exact visible_of_mem_plain (by decide) h
  · exact visible_of_mem_plain (by decide) h
  · rw [codePoint, List.mem_append, List.mem_append] at h
    rcases h with (h | h) | h
    · exact visible_of_mem_plain (by decide) h
    · exact visible_of_mem_toDigits h
    · exact visible_of_mem_plain (by decide) h
  · rw [List.mem_singleton.mp h]
    simpa [Visible] using hhidden

theorem clear_quoted (s : String) : Clear (quoted s) := by
  have hmark : Visible '"' := visible_of_isPlain (by decide)
  intro c hc
  rw [quoted, String.toList_ofList] at hc
  simp only [List.cons_append, List.mem_cons, List.mem_append, List.mem_flatMap, List.not_mem_nil,
    or_false] at hc
  rcases hc with rfl | ⟨d, -, hd⟩ | rfl
  · exact hmark
  · exact visible_of_mem_escape hd
  · exact hmark

end Text

open Text (Visible Clear)

theorem clear_name {f : String} (h : ∀ c ∈ f.toList, c.isAlpha = true) : Clear f := fun c hc =>
  Text.visible_of_isAlpha (h c hc)

theorem visible_of_mem_number (x : Float) : ∀ c ∈ Number.chars x, Visible c := by
  intro c hc
  rcases Number.isDigit_or_mem_of_mem_chars hc with hdigit | hmem
  · exact Text.visible_of_isDigit hdigit
  · exact Text.visible_of_mem_plain (by decide) hmem

theorem clear_number (x : Float) : Clear (Number.text x) := by
  intro c hc
  rw [Number.text, String.toList_ofList] at hc
  exact visible_of_mem_number x c hc

theorem isAlpha_of_identifier {s : String} {t : Token} (ht : t ∈ tokens s)
    (hk : t.kind = .identifier) : t.text ≠ "" ∧ ∀ c ∈ t.text.toList, c.isAlpha = true := by
  have hproper : t.lexeme.Proper := (proper_of_mem_tokens ht).1
  have hallows : Kind.identifier.Allows t.text.toList := hk ▸ hproper.allows
  exact ⟨by simpa [Token.lexeme] using hproper.ne_nil, hallows⟩

/-- The name of a function that a line calls is made of letters. -/
theorem isAlpha_of_calledIn {s f : String} (h : CalledIn (tokens s) f) :
    f ≠ "" ∧ ∀ c ∈ f.toList, c.isAlpha = true := by
  obtain ⟨-, -, before, t, l, after, hts, hk, rfl, -⟩ := h
  have ht : t ∈ tokens s := by simp [hts]
  exact isAlpha_of_identifier ht hk

theorem named_of_stemsFrom {s : String} {e : Expr}
    (h : ∀ node ∈ e.postorder, StemsFrom (tokens s) node) : e.Named := by
  induction e with
  | number x => trivial
  | binary o left right ihl ihr =>
    exact ⟨ihl fun node hnode => h node (by simp [Expr.postorder, hnode]),
      ihr fun node hnode => h node (by simp [Expr.postorder, hnode])⟩
  | call f argument ih =>
    have hf := isAlpha_of_calledIn (h (.call f argument) (by simp [Expr.postorder]))
    exact ⟨hf.1, hf.2, ih fun node hnode => h node (by simp [Expr.postorder, hnode])⟩

theorem named_of_parse {s : String} {e : Expr} (h : Expr.parse s = .ok e) : e.Named :=
  named_of_stemsFrom (stemsFrom_of_parse h)

theorem visible_of_mem_expr {e : Expr} (h : e.Named) : ∀ c ∈ e.chars, Visible c := by
  have hparen : Visible '(' ∧ Visible ')' :=
    ⟨Text.visible_of_isPlain (by decide), Text.visible_of_isPlain (by decide)⟩
  induction e with
  | number x => exact visible_of_mem_number x
  | binary o left right ihl ihr =>
    have hsymbol : [' ', o.symbol, ' '].all Text.isPlain = true := by cases o <;> decide
    rw [Expr.chars, List.forall_mem_append, List.forall_mem_append, List.forall_mem_append,
      List.forall_mem_cons]
    exact ⟨⟨⟨⟨hparen.1, ihl h.1⟩, fun c => Text.visible_of_mem_plain hsymbol⟩, ihr h.2⟩,
      List.forall_mem_singleton.mpr hparen.2⟩
  | call f argument ih =>
    obtain ⟨-, halpha, hargument⟩ := h
    rw [Expr.chars, List.forall_mem_append, List.forall_mem_append, List.forall_mem_cons]
    exact ⟨⟨clear_name halpha, hparen.1, ih hargument⟩, List.forall_mem_singleton.mpr hparen.2⟩

theorem clear_treeText {e : Expr} (h : e.Named) : Clear (treeText e) := by
  have htext : Clear e.text := by
    intro c hc
    rw [Expr.toList_text] at hc
    exact visible_of_mem_expr h c hc
  simp only [treeText, Text.clear_append]
  exact ⟨⟨⟨⟨Text.clear_of_plain (by decide), htext⟩, Text.clear_of_plain (by decide)⟩,
    Text.clear_toString _⟩, Text.clear_of_plain (by decide)⟩

theorem clear_resultText (x : Float) : Clear (resultText x) :=
  Text.clear_append.mpr ⟨Text.clear_of_plain (by decide), clear_number x⟩

end Calculator
