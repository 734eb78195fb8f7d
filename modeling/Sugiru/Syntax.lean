/-!
# Syntax trees

A Sugiru program is a list of statements; statements hold expressions, and `if` and `fn`
hold blocks of statements again. Where the parser could not build a piece it leaves a
`hole`, which prints as nothing and evaluates to no value.

`Expr.render` and `Stmt.render` give the canonical text of a tree: every prefix and infix
expression in parentheses, so that the way operators bind can be read off the text.
-/

namespace Sugiru

/-- Prefix operators: logical not `!` and negation `-`. -/
inductive PrefixOp where
  | not | neg
  deriving DecidableEq, Repr, Inhabited

/-- Infix operators, four of arithmetic and four of comparison. -/
inductive InfixOp where
  | add | sub | mul | div | lt | gt | eq | ne
  deriving DecidableEq, Repr, Inhabited

/-- The symbol a prefix operator is written with. -/
def PrefixOp.symbol : PrefixOp → String
  | .not => "!" | .neg => "-"

/-- The symbol an infix operator is written with. -/
def InfixOp.symbol : InfixOp → String
  | .add => "+" | .sub => "-" | .mul => "*" | .div => "/"
  | .lt => "<" | .gt => ">" | .eq => "==" | .ne => "!="

mutual

/-- Expressions. An integer literal keeps its source text beside the number it denotes. -/
inductive Expr where
  | hole
  | ident (name : String)
  | int (text : String) (value : Nat)
  | bool (value : Bool)
  | unary (op : PrefixOp) (operand : Expr)
  | binary (op : InfixOp) (lhs rhs : Expr)
  | cond (test : Expr) (thenBranch : List Stmt) (elseBranch : Option (List Stmt))
  | fn (params : List String) (body : List Stmt)
  | call (callee : Expr) (args : List Expr)
  deriving Inhabited

/-- Statements: a `let` binding, a `return`, or an expression standing alone. -/
inductive Stmt where
  | bind (name : String) (value : Expr)
  | ret (value : Expr)
  | expr (value : Expr)
  deriving Inhabited

end

/-- A whole program: its statements in order. -/
structure Program where
  stmts : List Stmt
  deriving Inhabited

/-! ## Canonical text -/

mutual

/-- The canonical text of an expression. -/
def Expr.render : Expr → String
  | .hole => ""
  | .ident name => name
  | .int text _ => text
  | .bool b => if b then "true" else "false"
  | .unary op e => "(" ++ op.symbol ++ e.render ++ ")"
  | .binary op l r => "(" ++ l.render ++ " " ++ op.symbol ++ " " ++ r.render ++ ")"
  | .cond c t e => "if" ++ c.render ++ " " ++ Stmt.renderAll t ++ Stmt.renderElse e
  | .fn ps body => "fn(" ++ ", ".intercalate ps ++ ") " ++ Stmt.renderAll body
  | .call f args => f.render ++ "(" ++ ", ".intercalate (Expr.renderAll args) ++ ")"

/-- The canonical texts of a list of expressions. -/
def Expr.renderAll : List Expr → List String
  | [] => []
  | e :: es => e.render :: Expr.renderAll es

/-- The canonical text of a statement. -/
def Stmt.render : Stmt → String
  | .bind name v => "let " ++ name ++ " = " ++ v.render ++ ";"
  | .ret v => "return " ++ v.render ++ ";"
  | .expr v => v.render

/-- The texts of a block's statements, written one after the other. -/
def Stmt.renderAll : List Stmt → String
  | [] => ""
  | s :: ss => s.render ++ Stmt.renderAll ss

/-- The text of an `else` branch, empty when there is none. -/
def Stmt.renderElse : Option (List Stmt) → String
  | none => ""
  | some b => "else " ++ Stmt.renderAll b

end

/-- The canonical text of a program: its statements one after the other. -/
def Program.render (p : Program) : String := Stmt.renderAll p.stmts

end Sugiru
