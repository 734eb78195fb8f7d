import Sugiru.Value

/-!
# Runtime faults

The faults that stop an evaluation. Operators applied to values of the wrong kind give
null rather than a fault; what is left is division by zero, a name bound nowhere, a call
of something that is not a function, a call with the wrong number of arguments, and calls
nested deeper than the evaluator allows.

Each fault but depth is an evaluation error, whose message is a template (`Fault.template`)
filled with the text of the node at fault and the fault's details (`Fault.details`).
-/

namespace Sugiru

/-- Why an evaluation stopped. -/
inductive Fault where
  /-- The right operand of the division `expr` was zero. -/
  | divByZero (expr : Expr)
  /-- The name is bound in no enclosing scope. -/
  | unbound (name : String)
  /-- The callee gave a value of this kind, or no value at all (`none`). -/
  | notCallable (callee : Expr) (got : Option ValueKind)
  /-- The function called by `call` takes `expected` arguments and was given `given`. -/
  | arity (call : Expr) (expected given : Nat)
  /-- Calls were nested deeper than the evaluator's limit. -/
  | tooDeep
  deriving Inhabited

namespace Fault

/-- What a call got in place of a function: the kind of the callee's value, or `nothing`
    when the callee gave no value. -/
def gotText : Option ValueKind → String
  | some k => k.name
  | none => "nothing"

/-- The source text a fault points at: the expression at fault, empty for depth. -/
def culprit : Fault → String
  | divByZero e => e.render
  | unbound name => name
  | notCallable callee _ => callee.render
  | arity call _ _ => call.render
  | tooDeep => ""

/-- The text of a fault. -/
def message : Fault → String
  | divByZero e => "division by zero: '" ++ e.render ++ "'"
  | unbound name => "identifier not found: '" ++ name ++ "'"
  | notCallable callee got =>
    "'" ++ callee.render ++ "' is not a function, got " ++ gotText got
  | arity call expected given =>
    "'" ++ call.render ++ "' expects " ++ toString expected ++ " argument(s), got " ++
      toString given
  | tooDeep => "maximum recursion depth exceeded"

/-- The template an evaluation error fills to give a fault's message: the first field takes
    the node at fault, the later ones the details. Depth is no evaluation error; its
    message has no field. -/
def template : Fault → String
  | divByZero _ => "division by zero: '\x7b\x7d'"
  | unbound _ => "identifier not found: '\x7b\x7d'"
  | notCallable _ _ => "'\x7b\x7d' is not a function, got \x7b\x7d"
  | arity _ _ _ => "'\x7b\x7d' expects \x7b\x7d argument(s), got \x7b\x7d"
  | tooDeep => "maximum recursion depth exceeded"

/-- What fills a fault's template after the node: the kind of the value called, or the
    numbers of arguments expected and given. -/
def details : Fault → List String
  | notCallable _ got => [gotText got]
  | arity _ expected given => [toString expected, toString given]
  | _ => []

end Fault

end Sugiru
