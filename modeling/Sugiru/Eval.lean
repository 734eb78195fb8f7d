import Sugiru.Store
import Sugiru.Eval.Fault

/-!
# The evaluator

`Program.run` evaluates a program in the global scope of a store. Evaluation works on a
whole tree at once, and a node may give no value at all (`none`): a hole, a `let`, an empty
block. A `return` wraps its value so that the blocks around it stop; a call and the program
itself unwrap it once, so it never leaves them. An `if` hands its block's value on as it
is, so a `return` inside an `if` that stands as the value of a `let` stays wrapped.

Integer operators compute on whole integers and wrap the result into the signed 64-bit
range (`wrapInt64`); `/` rounds toward zero (`truncatedDiv`). `==` and `!=`
compare two of true, false and null by identity; any other operands that are not both
integers give null. Only null, false and no value are false as a condition; `!` gives true
for false only, and `-` of anything but an integer is null.

A call evaluates its callee, then its arguments from left to right, and only then checks
that the callee is a function and that the number of arguments fits. Its body runs in a
new scope enclosed by the scope the function was made in, with each parameter bound to
its argument (null for no value). Calls may be nested `callDepthLimit` deep; one more is
a fault. That bound, with the size of the tree, is the measure evaluation ends by.
-/

namespace Sugiru

/-- The evaluation monad: a computation over the scope store that may stop with a fault,
    keeping the store as it was at that point. -/
abbrev Eval := ExceptT Fault (StateM Store)

/-- How deep calls may be nested. The interpreter's stack holds 10000 frames and one call
    of the language takes about ten of them, so calls nest roughly a thousand deep; this
    bound stands for that limit. A program nested no more than 500 calls deep always runs,
    and one that recurses without end always stops with a fault. -/
def callDepthLimit : Nat := 1000

namespace Value

/-- Whether a condition holds: anything but null, false and no value. -/
def isTruthy : Option Value → Bool
  | none => false
  | some .null => false
  | some (.bool false) => false
  | some _ => true

/-- Whether a statement's value is a returned one, which ends its block. -/
def isReturned : Option Value → Bool
  | some (.returned _) => true
  | _ => false

/-- A returned value unwrapped once; any other value as it is. -/
def unwrap : Option Value → Option Value
  | some (.returned v) => some v
  | v => v

/-- Whether a value is one of the constants true, false and null. -/
def isConstant : Option Value → Bool
  | some (.bool _) => true
  | some .null => true
  | _ => false

/-- Whether two of the constants true, false and null are the same one. -/
def sameConstant : Option Value → Option Value → Bool
  | some (.bool a), some (.bool b) => a == b
  | some .null, some .null => true
  | _, _ => false

end Value

/-- `2 ^ 64`, the modulus integers wrap by. -/
def int64Modulus : Int := 18446744073709551616

/-- `2 ^ 63`, the least integer above the signed 64-bit range. -/
def int64Sign : Int := 9223372036854775808

/-- An integer reduced into the signed 64-bit range, two's-complement style: its
    remainder modulo `2 ^ 64`, less `2 ^ 64` when that remainder is `2 ^ 63` or more. -/
def wrapInt64 (value : Int) : Int :=
  let r := value % int64Modulus
  if r ≥ int64Sign then r - int64Modulus else r

/-- Integer division rounding toward zero: the quotient of the magnitudes, negated when
    exactly one operand is negative. -/
def truncatedDiv (left right : Int) : Int :=
  let quotient : Int := (left.natAbs / right.natAbs : Nat)
  if decide (left < 0) = decide (right < 0) then quotient else -quotient

/-- The value of a prefix operator applied to an operand. -/
def PrefixOp.apply : PrefixOp → Option Value → Value
  | .not, some (.bool false) => .bool true
  | .not, _ => .bool false
  | .neg, some (.int n) => .int (wrapInt64 (-n))
  | .neg, _ => .null

/-- The value of an infix operator on two integers; `none` for a division by zero. -/
def InfixOp.applyInt : InfixOp → Int → Int → Option Value
  | .add, a, b => some (.int (wrapInt64 (a + b)))
  | .sub, a, b => some (.int (wrapInt64 (a - b)))
  | .mul, a, b => some (.int (wrapInt64 (a * b)))
  | .div, a, b => if b = 0 then none else some (.int (wrapInt64 (truncatedDiv a b)))
  | .lt, a, b => some (.bool (decide (a < b)))
  | .gt, a, b => some (.bool (decide (b < a)))
  | .eq, a, b => some (.bool (decide (a = b)))
  | .ne, a, b => some (.bool (!decide (a = b)))

/-- The value of an infix operator on two operands; `none` for a division by zero. -/
def InfixOp.apply (op : InfixOp) : Option Value → Option Value → Option Value
  | some (.int a), some (.int b) => op.applyInt a b
  | l, r =>
    if Value.isConstant l && Value.isConstant r then
      match op with
      | .eq => some (.bool (Value.sameConstant l r))
      | .ne => some (.bool (!Value.sameConstant l r))
      | _ => some .null
    else some .null

mutual

/-- The value of an expression in scope `scope`, with `depth` more calls allowed. -/
def Expr.eval (depth scope : Nat) : Expr → Eval (Option Value)
  | .hole => pure none
  | .ident name => do
    match (← get).lookup scope name with
    | some v => pure (some v)
    | none => throw (.unbound name)
  | .int _ n => pure (some (.int n))
  | .bool b => pure (some (.bool b))
  | .unary op e => do
    let v ← Expr.eval depth scope e
    pure (some (op.apply v))
  | .binary op l r => do
    let lv ← Expr.eval depth scope l
    let rv ← Expr.eval depth scope r
    match op.apply lv rv with
    | some v => pure (some v)
    | none => throw (.divByZero (.binary op l r))
  | .cond c t none => do
    let cv ← Expr.eval depth scope c
    if Value.isTruthy cv then Stmt.evalBlock depth scope t else pure (some .null)
  | .cond c t (some e) => do
    let cv ← Expr.eval depth scope c
    if Value.isTruthy cv then Stmt.evalBlock depth scope t else Stmt.evalBlock depth scope e
  | .fn ps body => pure (some (.closure ps body scope))
  | .call f args => do
    let fv ← Expr.eval depth scope f
    let avs ← Expr.evalAll depth scope args
    match fv with
    | some (.closure ps body home) =>
      if ps.length = avs.length then
        match depth with
        | 0 => throw .tooDeep
        | d + 1 => do
          let inner ← modifyGet (·.newScope home (ps.zip (avs.map (·.getD .null))))
          let r ← Stmt.evalBlock d inner body
          pure (Value.unwrap r)
      else throw (.arity (.call f args) ps.length avs.length)
    | v => throw (.notCallable f (v.map Value.kind))
termination_by e => (depth, sizeOf e)

/-- The values of a list of expressions, from left to right. -/
def Expr.evalAll (depth scope : Nat) : List Expr → Eval (List (Option Value))
  | [] => pure []
  | e :: es => do
    let v ← Expr.eval depth scope e
    let vs ← Expr.evalAll depth scope es
    pure (v :: vs)
termination_by es => (depth, sizeOf es)

/-- The value of a statement: none for a `let`, a returned value for a `return`. -/
def Stmt.eval (depth scope : Nat) : Stmt → Eval (Option Value)
  | .bind name e => do
    let v ← Expr.eval depth scope e
    modify (·.bind scope name (v.getD .null))
    pure none
  | .ret e => do
    let v ← Expr.eval depth scope e
    pure (some (.returned (v.getD .null)))
  | .expr e => Expr.eval depth scope e
termination_by s => (depth, sizeOf s)

/-- The value of a block: that of its last statement, or the first returned value,
    still wrapped. -/
def Stmt.evalBlock (depth scope : Nat) : List Stmt → Eval (Option Value)
  | [] => pure none
  | s :: ss => do
    let r ← Stmt.eval depth scope s
    if ss.isEmpty || Value.isReturned r then pure r else Stmt.evalBlock depth scope ss
termination_by ss => (depth, sizeOf ss)

end

/-- The value of a program's statements: that of the last one, or the first returned
    value, unwrapped. -/
def Stmt.evalProgram (depth scope : Nat) : List Stmt → Eval (Option Value)
  | [] => pure none
  | s :: ss => do
    let r ← Stmt.eval depth scope s
    match r with
    | some (.returned v) => pure (some v)
    | _ => if ss.isEmpty then pure r else Stmt.evalProgram depth scope ss

/-- Runs a program in the global scope of a store: its value or the fault that stopped
    it, and the store afterwards. -/
def Program.run (p : Program) (store : Store) : Except Fault (Option Value) × Store :=
  (Stmt.evalProgram callDepthLimit Store.global p.stmts).run.run store

end Sugiru
