import Calculator.Expr.Eval
import Calculator.Proofs.FloatBits

/-!
Evaluation on a stack. The nodes of an expression are listed with operands before what is done to
them, and each is an instruction of a machine that keeps the values it still needs on a stack. The
machine takes one instruction after the other and halts at the first that fails. What it comes to is
what the expression comes to, whatever stood on the stack before and whatever code follows.
-/

namespace Calculator

inductive Instruction
  | push (x : Float)
  | apply (operator : Operator)
  | call (function : String)
deriving DecidableEq, Repr

/-- Why the machine halts before its code ends: a value is missing, or a step fails. -/
inductive Halt
  | underflow
  | failed (error : EvalError)
deriving DecidableEq, Repr

/-- The top of the stack comes first. -/
abbrev Stack := List Float

def Stack.settle (stack : Stack) : Except EvalError Float → Except Halt Stack
  | .ok x => .ok (x :: stack)
  | .error e => .error (.failed e)

/-- What a step does to the stack. An operation takes its right operand off first, and a call its
argument; only then is the function looked up. -/
def Instruction.step (table : FunctionTable) : Instruction → Stack → Except Halt Stack
  | .push x, stack => .ok (x :: stack)
  | .apply o, y :: x :: stack => Stack.settle stack (o.apply x y)
  | .call f, x :: stack =>
    match table.get? f with
    | some g => Stack.settle stack (g x)
    | none => .error (.failed (.unknownFunction f))
  | _, _ => .error .underflow

def runCode (table : FunctionTable) : List Instruction → Stack → Except Halt Stack
  | [], stack => .ok stack
  | i :: code, stack => do
    let stack ← i.step table stack
    runCode table code stack

namespace Expr

/-- The nodes of an expression, operands before what is done to them. -/
def postorder : Expr → List Expr
  | .number x => [.number x]
  | .binary o left right => left.postorder ++ right.postorder ++ [.binary o left right]
  | .call f argument => argument.postorder ++ [.call f argument]

def instruction : Expr → Instruction
  | .number x => .push x
  | .binary o _ _ => .apply o
  | .call f _ => .call f

def code (e : Expr) : List Instruction := e.postorder.map instruction

theorem code_binary (o : Operator) (left right : Expr) :
    (Expr.binary o left right).code = left.code ++ (right.code ++ [.apply o]) := by
  simp [code, postorder, instruction]

theorem code_call (f : String) (argument : Expr) :
    (Expr.call f argument).code = argument.code ++ [.call f] := by
  simp [code, postorder, instruction]

end Expr

variable {table : FunctionTable}

theorem step_call_eq_settle (f : String) (x : Float) (stack : Stack) :
    (Instruction.call f).step table (x :: stack) = stack.settle (table.call f x) := by
  rw [Instruction.step, FunctionTable.call]
  cases table.get? f <;> rfl

/-- The code for an expression comes to what the expression comes to, on top of any stack. -/
theorem runCode_code_append (table : FunctionTable) (e : Expr) (more : List Instruction)
    (stack : Stack) : runCode table (e.code ++ more) stack =
      (stack.settle (e.evalWith table)).bind (runCode table more) := by
  induction e generalizing more stack with
  | number x => rfl
  | binary o left right ihl ihr =>
    rw [Expr.code_binary, List.append_assoc, ihl, Expr.evalWith]
    cases left.evalWith table with
    | error err => rfl
    | ok x =>
      -- The right operand is evaluated with the left one waiting on the stack.
      change runCode table (right.code ++ [.apply o] ++ more) (x :: stack) = _
      rw [List.append_assoc, ihr]
      cases right.evalWith table with
      | error err => rfl
      | ok y => rfl
  | call f argument ih =>
    rw [Expr.code_call, List.append_assoc, ih, Expr.evalWith]
    cases argument.evalWith table with
    | error err => rfl
    | ok x =>
      change ((Instruction.call f).step table (x :: stack)).bind (runCode table more) = _
      rw [step_call_eq_settle]
      rfl

theorem runCode_code (table : FunctionTable) (e : Expr) :
    runCode table e.code [] = Stack.settle [] (e.evalWith table) := by
  have h := runCode_code_append table e [] []
  rw [List.append_nil] at h
  rw [h]
  cases e.evalWith table <;> rfl

theorem settle_eq_error_iff {stack : Stack} {r : Except EvalError Float} {err : EvalError} :
    stack.settle r = .error (.failed err) ↔ r = .error err := by
  cases r <;> simp [Stack.settle]

section Steps

variable {i : Instruction} {code : List Instruction} {stack stack' : Stack} {halt : Halt}

theorem runCode_cons_of_ok (code : List Instruction) (h : i.step table stack = .ok stack') :
    runCode table (i :: code) stack = runCode table code stack' := by
  rw [runCode, h]
  rfl

theorem runCode_cons_of_error (code : List Instruction) (h : i.step table stack = .error halt) :
    runCode table (i :: code) stack = .error halt := by
  rw [runCode, h]
  rfl

/-- The machine halts where the steps before go well and the next one fails. -/
theorem runCode_eq_error_iff :
    runCode table code stack = .error halt ↔
      ∃ before i after rest, code = before ++ i :: after ∧
        runCode table before stack = .ok rest ∧ i.step table rest = .error halt := by
  constructor
  · -- The first instruction that fails is found from the left.
    intro h
    induction code generalizing stack with
    | nil => exact absurd h (by simp [runCode])
    | cons i code ih =>
      cases hstep : i.step table stack with
      | error halt' =>
        rw [runCode_cons_of_error code hstep] at h
        exact ⟨[], i, code, stack, rfl, rfl, hstep.trans h⟩
      | ok stack' =>
        rw [runCode_cons_of_ok code hstep] at h
        obtain ⟨before, j, after, rest, rfl, hbefore, hj⟩ := ih h
        exact ⟨i :: before, j, after, rest, rfl, (runCode_cons_of_ok _ hstep).trans hbefore, hj⟩
  · -- Nothing before the instruction fails, so the machine gets there.
    rintro ⟨before, i, after, rest, rfl, hbefore, hi⟩
    induction before generalizing stack with
    | nil =>
      obtain rfl := Except.ok.inj hbefore
      exact runCode_cons_of_error after hi
    | cons j before ih =>
      rw [List.cons_append]
      cases hstep : j.step table stack with
      | error halt' =>
        rw [runCode_cons_of_error before hstep] at hbefore
        exact absurd hbefore (by simp)
      | ok stack' =>
        rw [runCode_cons_of_ok _ hstep] at hbefore ⊢
        exact ih hbefore

theorem step_apply_fails_iff {o : Operator} {x y : Float} {err : EvalError} :
    (Instruction.apply o).step table (y :: x :: stack) = .error (.failed err) ↔
      o = .divide ∧ (y = 0 ∨ y = -0) ∧ err = .divisionByZero := by
  rw [Instruction.step, settle_eq_error_iff, ← Number.beq_zero_iff]
  cases o with
  | divide =>
    rw [Operator.apply]
    by_cases hy : (y == 0) = true
    · simp [hy, eq_comm]
    · simp [hy]
  | add | subtract | multiply | power => simp [Operator.apply]

theorem step_call_fails_iff {f : String} {x : Float} {err : EvalError} :
    (Instruction.call f).step table (x :: stack) = .error (.failed err) ↔
      table.get? f = none ∧ err = .unknownFunction f ∨
        ∃ g, table.get? f = some g ∧ g x = .error err := by
  rw [Instruction.step]
  cases table.get? f with
  | none => simp [eq_comm]
  | some g => simp [settle_eq_error_iff]

end Steps

/-- An expression has the value that its code leaves alone on the stack when no step fails, and the
error of the first of its nodes, operands before what is done to them, whose step fails. Division is
the only operation that can fail, and does for zeros of either sign. A call fails if its argument
has a value and there is no function of its name, or the function fails. -/
theorem evaluation_on_stack (table : FunctionTable) (e : Expr) :
    runCode table e.code [] = Stack.settle [] (e.evalWith table) ∧
    (∀ x, e.evalWith table = .ok x ↔ runCode table e.code [] = .ok [x]) ∧
    (∀ err, e.evalWith table = .error err ↔
      ∃ before node after stack, e.postorder = before ++ node :: after ∧
        runCode table (before.map Expr.instruction) [] = .ok stack ∧
        node.instruction.step table stack = .error (.failed err)) ∧
    (∀ o x y stack err,
      (Instruction.apply o).step table (y :: x :: stack) = .error (.failed err) ↔
      o = .divide ∧ (y = 0 ∨ y = -0) ∧ err = .divisionByZero) ∧
    (∀ f x stack err,
      (Instruction.call f).step table (x :: stack) = .error (.failed err) ↔
      table.get? f = none ∧ err = .unknownFunction f ∨
        ∃ g, table.get? f = some g ∧ g x = .error err) := by
  have hrun := runCode_code table e
  refine ⟨hrun, ?_, ?_, ?_, ?_⟩
  · intro x
    rw [hrun]
    cases e.evalWith table <;> simp [Stack.settle]
  · intro err
    have hfails :
        runCode table e.code [] = .error (.failed err) ↔ e.evalWith table = .error err := by
      rw [hrun, settle_eq_error_iff]
    rw [← hfails, runCode_eq_error_iff]
    constructor
    · rintro ⟨before, i, after, stack, hcode, hbefore, hi⟩
      -- Each instruction is that of a node, in the same order.
      obtain ⟨nodes, rest, hnodes, rfl, hrest⟩ := List.map_eq_append_iff.mp hcode
      obtain ⟨node, later, rfl, rfl, rfl⟩ := List.map_eq_cons_iff.mp hrest
      exact ⟨nodes, node, later, stack, hnodes, hbefore, hi⟩
    · rintro ⟨before, node, after, stack, hnodes, hbefore, hnode⟩
      refine ⟨_, _, after.map Expr.instruction, stack, ?_, hbefore, hnode⟩
      rw [Expr.code, hnodes, List.map_append, List.map_cons]
  · intro o x y stack err
    exact step_apply_fails_iff
  · intro f x stack err
    exact step_call_fails_iff

end Calculator
