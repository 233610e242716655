import Mathlib.Data.ENat.Basic
import Calculator.Expr.Parser

/-!
The grammar of expressions, with a limit on nesting. A phrase derives some tokens at a depth, and
with them the expression that they make. A chain is described from its right end, as a shorter chain
and one more operand, so that chains group to the left and the operands of a chain lie one level
deeper each. Without a limit the depth counts for nothing.
-/

namespace Calculator

inductive Chain
  | sum
  | product
deriving DecidableEq, Repr

def Chain.operator? : Chain → Kind → Option Operator
  | .sum, .plus => some .add
  | .sum, .minus => some .subtract
  | .product, .star => some .multiply
  | .product, .slash => some .divide
  | _, _ => none

theorem kind_of_operator {c : Chain} {k : Kind} {o : Operator} (h : c.operator? k = some o) :
    k = Kind.ofChar o.symbol := by
  cases c <;> cases k <;> simp_all [Chain.operator?] <;> subst h <;> rfl

/-- What some tokens may be taken for: a chain, a chain of so many links, a power, or an operand
with its signs. -/
inductive Phrase
  | chain (c : Chain)
  | links (c : Chain) (count : ℕ)
  | power
  | unary
deriving DecidableEq, Repr

def Chain.operand : Chain → Phrase
  | .sum => .chain .product
  | .product => .power

/-- `Derives limit p d ts e` says that the phrase `p` at depth `d` derives the tokens `ts`, and that
they make the expression `e`. Every operand and every sign is held against the limit. -/
inductive Derives (limit : ℕ∞) : Phrase → ℕ → List Token → Expr → Prop
  | chain {c n d ts e} (h : Derives limit (.links c n) d ts e) : Derives limit (.chain c) d ts e
  | first {c d ts e} (h : Derives limit c.operand d ts e) : Derives limit (.links c 0) d ts e
  | link {c n d us t vs o left right} (hl : Derives limit (.links c n) d us left)
      (ho : c.operator? t.kind = some o) (hr : Derives limit c.operand (d + (n + 1)) vs right) :
      Derives limit (.links c (n + 1)) d (us ++ t :: vs) (.binary o left right)
  | base {d ts e} (h : Derives limit .unary d ts e) : Derives limit .power d ts e
  | power {d us t vs base exponent} (hb : Derives limit .unary d us base) (ht : t.kind = .caret)
      (he : Derives limit .power (d + 1) vs exponent) :
      Derives limit .power d (us ++ t :: vs) (.binary .power base exponent)
  | plus {d : ℕ} {t ts e} (hd : d ≤ limit) (ht : t.kind = .plus)
      (h : Derives limit .unary (d + 1) ts e) : Derives limit .unary d (t :: ts) e
  | minus {d : ℕ} {t ts e} (hd : d ≤ limit) (ht : t.kind = .minus)
      (h : Derives limit .unary (d + 1) ts e) : Derives limit .unary d (t :: ts) e.negated
  | number {d : ℕ} {t x} (hd : d ≤ limit) (ht : t.kind = .number)
      (hx : Number.ofText? t.text = some x) : Derives limit .unary d [t] (.number x)
  | constant {d : ℕ} {t x} (hd : d ≤ limit) (ht : t.kind = .identifier)
      (hx : Number.constant? t.text = some x) : Derives limit .unary d [t] (.number x)
  | group {d : ℕ} {l ts r e} (hd : d ≤ limit) (hl : l.kind = .leftParen)
      (h : Derives limit (.chain .sum) (d + 1) ts e) (hr : r.kind = .rightParen) :
      Derives limit .unary d (l :: (ts ++ [r])) e
  | call {d : ℕ} {t l ts r e} (hd : d ≤ limit) (ht : t.kind = .identifier)
      (hx : Number.constant? t.text = none) (hl : l.kind = .leftParen)
      (h : Derives limit (.chain .sum) (d + 1) ts e) (hr : r.kind = .rightParen) :
      Derives limit .unary d (t :: l :: (ts ++ [r])) (.call t.text e)

theorem derives_sum_of_unary {limit : ℕ∞} {d : ℕ} {ts : List Token} {e : Expr}
    (h : Derives limit .unary d ts e) : Derives limit (.chain .sum) d ts e :=
  .chain (.first (.chain (.first (.base h))))

def Phrase.count : Phrase → ℕ
  | .links _ n => n
  | _ => 0

theorem Derives.depth_le {limit : ℕ∞} {p : Phrase} {d : ℕ} {ts : List Token} {e : Expr}
    (h : Derives limit p d ts e) : ((d + p.count : ℕ) : ℕ∞) ≤ limit := by
  have hmono {m n : ℕ} (hmn : m ≤ n) (hn : (n : ℕ∞) ≤ limit) : (m : ℕ∞) ≤ limit :=
    le_trans (Nat.cast_le.mpr hmn) hn
  -- Each operand was held against the limit where it stands, the last one deepest of all.
  induction h with
  | chain _ ih => exact hmono (by simp [Phrase.count]) ih
  | first _ ih => exact hmono (by simp [Phrase.count]) ih
  | link _ _ _ _ ih => exact hmono (by simp [Phrase.count]) ih
  | base _ ih => exact ih
  | power _ _ _ ih _ => exact ih
  | _ => assumption

theorem Derives.le {limit : ℕ∞} {p : Phrase} {d : ℕ} {ts : List Token} {e : Expr}
    (h : Derives limit p d ts e) : (d : ℕ∞) ≤ limit :=
  le_trans (Nat.cast_le.mpr (Nat.le_add_right d p.count)) h.depth_le

/-- Whether a token can stand in an expression at all. -/
def Token.Usable (t : Token) : Prop :=
  t.kind ≠ .stray ∧ t.kind ≠ .whitespace ∧ (t.kind = .number → (Number.ofText? t.text).isSome)

theorem usable_of_kind {t : Token} {k : Kind} (ht : t.kind = k)
    (hk : k ≠ .stray ∧ k ≠ .whitespace ∧ k ≠ .number) : t.Usable := by
  subst ht
  exact ⟨hk.1, hk.2.1, fun hnumber => absurd hnumber hk.2.2⟩

/-- No phrase takes a stray character, white space, or a number that is malformed. -/
theorem Derives.usable {limit : ℕ∞} {p : Phrase} {d : ℕ} {ts : List Token} {e : Expr}
    (h : Derives limit p d ts e) : ∀ t ∈ ts, t.Usable := by
  induction h with
  | chain _ ih | first _ ih | base _ ih => exact ih
  | @link c n d us t vs o left right _ ho _ ihl ihr =>
    simp only [List.mem_append, List.mem_cons]
    rintro s (hs | rfl | hs)
    · exact ihl s hs
    · exact usable_of_kind (kind_of_operator ho) (by cases o <;> decide)
    · exact ihr s hs
  | power _ ht _ ihb ihe =>
    simp only [List.mem_append, List.mem_cons]
    rintro s (hs | rfl | hs)
    · exact ihb s hs
    · exact usable_of_kind ht (by decide)
    · exact ihe s hs
  | plus _ ht _ ih | minus _ ht _ ih =>
    exact List.forall_mem_cons.mpr ⟨usable_of_kind ht (by decide), ih⟩
  | number _ ht hx => simp [Token.Usable, ht, hx]
  | constant _ ht _ => simp [Token.Usable, ht]
  | group _ hl _ hr ih =>
    simp only [List.mem_cons, List.mem_append, List.not_mem_nil, or_false]
    rintro s (rfl | hs | rfl)
    · exact usable_of_kind hl (by decide)
    · exact ih s hs
    · exact usable_of_kind hr (by decide)
  | call _ ht _ hl _ hr ih =>
    simp only [List.mem_cons, List.mem_append, List.not_mem_nil, or_false]
    rintro s (rfl | rfl | hs | rfl)
    · exact usable_of_kind ht (by decide)
    · exact usable_of_kind hl (by decide)
    · exact ih s hs
    · exact usable_of_kind hr (by decide)

/-- The kinds of token that carry a phrase on, so that it cannot end before one of them. -/
def Phrase.operators : Phrase → List Kind
  | .chain .sum | .links .sum _ => [.plus, .minus, .star, .slash, .caret]
  | .chain .product | .links .product _ => [.star, .slash, .caret]
  | .power => [.caret]
  | .unary => []

def Phrase.Ends (p : Phrase) (next : Option Token) : Prop := ∀ t ∈ next, t.kind ∉ p.operators

theorem ends_none (p : Phrase) : p.Ends none := by
  simp [Phrase.Ends]

theorem ends_chain {c : Chain} {next : Option Token} :
    (Phrase.chain c).Ends next ↔
      c.operand.Ends next ∧ ∀ t ∈ next, c.operator? t.kind = none := by
  cases next with
  | none => simp [Phrase.Ends]
  | some t =>
    cases c <;> cases hk : t.kind <;>
      simp [Phrase.Ends, Phrase.operators, Chain.operand, Chain.operator?, hk]

theorem operand_ends_of_operator {c : Chain} {t : Token} {o : Operator}
    (h : c.operator? t.kind = some o) : c.operand.Ends (some t) := by
  cases c <;> cases hk : t.kind <;>
    simp_all [Phrase.Ends, Phrase.operators, Chain.operand, Chain.operator?]

def operandKinds : List Kind := [.number, .identifier, .leftParen, .plus, .minus]

/-- Tokens that open a parenthesis: one alone, or one after the name of a function. -/
inductive Opens : List Token → Prop
  | group {l} (hl : l.kind = .leftParen) : Opens [l]
  | call {t l} (ht : t.kind = .identifier) (hx : Number.constant? t.text = none)
      (hl : l.kind = .leftParen) : Opens [t, l]

/-- `Breaks limit p d ts next f` says that the phrase `p` at depth `d` can take the tokens `ts`, and
that the token after them, or the end, is then at fault with `f`. What follows that token does not
matter. -/
inductive Breaks (limit : ℕ∞) : Phrase → ℕ → List Token → Option Token → Fault → Prop
  | first {c d ts next f} (h : Breaks limit c.operand d ts next f) :
      Breaks limit (.chain c) d ts next f
  | link {c n d us t vs o left next f} (hl : Derives limit (.links c n) d us left)
      (ho : c.operator? t.kind = some o) (h : Breaks limit c.operand (d + (n + 1)) vs next f) :
      Breaks limit (.chain c) d (us ++ t :: vs) next f
  | base {d ts next f} (h : Breaks limit .unary d ts next f) : Breaks limit .power d ts next f
  | exponent {d us t vs base next f} (hb : Derives limit .unary d us base) (ht : t.kind = .caret)
      (h : Breaks limit .power (d + 1) vs next f) : Breaks limit .power d (us ++ t :: vs) next f
  | tooDeep {d : ℕ} {next} (hd : limit < d) : Breaks limit .unary d [] next .tooDeep
  | sign {d : ℕ} {t ts next f} (hd : d ≤ limit) (ht : t.kind = .plus ∨ t.kind = .minus)
      (h : Breaks limit .unary (d + 1) ts next f) : Breaks limit .unary d (t :: ts) next f
  | noOperand {d : ℕ} {next : Option Token} (hd : d ≤ limit)
      (hn : ∀ t ∈ next, t.kind ∉ operandKinds) : Breaks limit .unary d [] next .noOperand
  | malformed {d : ℕ} {t} (hd : d ≤ limit) (ht : t.kind = .number)
      (hx : Number.ofText? t.text = none) : Breaks limit .unary d [] (some t) (.malformed t.text)
  | noArgument {d : ℕ} {t} {next : Option Token} (hd : d ≤ limit) (ht : t.kind = .identifier)
      (hx : Number.constant? t.text = none) (hn : ∀ l ∈ next, l.kind ≠ .leftParen) :
      Breaks limit .unary d [t] next (.noArgument t.text)
  | inside {d : ℕ} {us vs next f} (hd : d ≤ limit) (ho : Opens us)
      (h : Breaks limit (.chain .sum) (d + 1) vs next f) : Breaks limit .unary d (us ++ vs) next f
  | unclosed {d : ℕ} {us vs e} {next : Option Token} (hd : d ≤ limit) (ho : Opens us)
      (h : Derives limit (.chain .sum) (d + 1) vs e) (he : (Phrase.chain .sum).Ends next)
      (hn : ∀ r ∈ next, r.kind ≠ .rightParen) :
      Breaks limit .unary d (us ++ vs) next (.expected ")")

end Calculator
