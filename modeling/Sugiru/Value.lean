import Sugiru.Syntax

/-!
# Values

What evaluation produces: integers, the two booleans, null, a returned value on its way
out of the blocks a `return` leaves, and closures. An integer is held as it is; the
evaluator keeps integers in the signed 64-bit range by wrapping what its operators
compute (`wrapInt64`), and the parser admits no literal above that range. A
closure holds its parameters, its body and the scope it was made in, named by that
scope's place in the store (`Store`), so that bindings made there later are seen by it.
-/

namespace Sugiru

/-- Runtime values. -/
inductive Value where
  | int (n : Int)
  | bool (b : Bool)
  | null
  | returned (v : Value)
  | closure (params : List String) (body : List Stmt) (scope : Nat)
  deriving Inhabited

/-- The kinds of value, as error messages name them. -/
inductive ValueKind where
  | integer | boolean | null | function | returnValue
  deriving DecidableEq, Repr, Inhabited

/-- The name of a kind of value. -/
def ValueKind.name : ValueKind → String
  | .integer => "INTEGER" | .boolean => "BOOLEAN" | .null => "NULL"
  | .function => "FUNCTION" | .returnValue => "RETURN_VALUE"

namespace Value

/-- The kind of a value. -/
def kind : Value → ValueKind
  | int _ => .integer
  | bool _ => .boolean
  | null => .null
  | returned _ => .returnValue
  | closure .. => .function

/-- The text of a value: decimal for integers, `true`, `false`, `null`, the inner value
    of a returned value, and `fn(params) ` followed by the body's text between braces on
    lines of their own for a closure. -/
def inspect : Value → String
  | int n => toString n
  | bool b => if b then "true" else "false"
  | null => "null"
  | returned v => v.inspect
  | closure ps body _ => "fn(" ++ ", ".intercalate ps ++ ") \x7b\n" ++ Stmt.renderAll body ++ "\n\x7d"

end Value

end Sugiru
