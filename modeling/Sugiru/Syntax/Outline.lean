import Sugiru.Syntax

/-!
# The tree view of a program

`Program.display` shows a syntax tree one node per line. A node is written
`Kind(expr='text')`, where `text` is the node's canonical text; a node with children adds
`, nodes=[`, each child on its own line one level deeper (four spaces a level), the
children separated by commas, and `]` on a line of its own at the node's level. Holes are
left out of the children.

The view is built in two steps: `Expr.outline` and its siblings turn the tree into a plain
`Outline` (kind, text, children), and `Outline.display` writes any outline.
-/

namespace Sugiru

/-- A node of the tree view: its kind, its text and its children. -/
inductive Outline where
  | node (kind : String) (text : String) (children : List Outline)
  deriving Inhabited

namespace Outline

/-- The indentation of a level: four spaces a level. -/
def pad (depth : Nat) : String := String.ofList (List.replicate (4 * depth) ' ')

mutual

/-- An outline written at `depth`. -/
def display (depth : Nat) : Outline → String
  | node kind text [] => pad depth ++ kind ++ "(expr='" ++ text ++ "')"
  | node kind text (c :: cs) =>
    pad depth ++ kind ++ "(expr='" ++ text ++ "', nodes=[" ++
      ",".intercalate (displayAll (depth + 1) (c :: cs)) ++ "\n" ++ pad depth ++ "])"

/-- Each outline of a list written at `depth` on a line of its own. -/
def displayAll (depth : Nat) : List Outline → List String
  | [] => []
  | o :: os => ("\n" ++ display depth o) :: displayAll depth os

end

end Outline

/-- An identifier as a leaf of the tree view. -/
def Outline.name (n : String) : Outline := .node "Identifier" n []

mutual

/-- The tree view of an expression; `none` for a hole. -/
def Expr.outline : Expr → Option Outline
  | .hole => none
  | .ident n => some (Outline.name n)
  | .int text v => some (.node "IntegerLiteral" (Expr.int text v).render [])
  | .bool b => some (.node "Boolean" (Expr.bool b).render [])
  | .unary op e => some (.node "PrefixExpression" (Expr.unary op e).render e.outline.toList)
  | .binary op l r =>
    some (.node "InfixExpression" (Expr.binary op l r).render
      (l.outline.toList ++ r.outline.toList))
  | .cond c t e =>
    some (.node "IfExpression" (Expr.cond c t e).render
      (c.outline.toList ++ [Stmt.blockOutline t] ++ Stmt.elseOutline e))
  | .fn ps body =>
    some (.node "FunctionLiteral" (Expr.fn ps body).render
      (ps.map Outline.name ++ [Stmt.blockOutline body]))
  | .call f args =>
    some (.node "CallExpression" (Expr.call f args).render
      (f.outline.toList ++ Expr.outlineAll args))

/-- The tree views of the expressions of a list that are not holes. -/
def Expr.outlineAll : List Expr → List Outline
  | [] => []
  | e :: es => e.outline.toList ++ Expr.outlineAll es

/-- The tree view of a statement. -/
def Stmt.outline : Stmt → Outline
  | .bind n v =>
    .node "LetStatement" (Stmt.bind n v).render (Outline.name n :: v.outline.toList)
  | .ret v => .node "ReturnStatement" (Stmt.ret v).render v.outline.toList
  | .expr v => .node "ExpressionStatement" (Stmt.expr v).render v.outline.toList

/-- The tree views of a list of statements. -/
def Stmt.outlineAll : List Stmt → List Outline
  | [] => []
  | s :: ss => s.outline :: Stmt.outlineAll ss

/-- The tree view of a block. -/
def Stmt.blockOutline (b : List Stmt) : Outline :=
  .node "BlockStatement" (Stmt.renderAll b) (Stmt.outlineAll b)

/-- The tree view of an `else` branch, as a list of at most one node. -/
def Stmt.elseOutline : Option (List Stmt) → List Outline
  | none => []
  | some b => [Stmt.blockOutline b]

end

/-- The tree view of a program. -/
def Program.outline (p : Program) : Outline :=
  .node "Program" p.render (Stmt.outlineAll p.stmts)

/-- The tree view of a program as text, starting at the left margin. -/
def Program.display (p : Program) : String := p.outline.display 0

end Sugiru
