import Sugiru.Proofs.Grammar

/-!
# The reference grammar

Sugiru's syntax as its reference documentation writes it, with no precedence, no
associativity and every `;` optional:

    program    ::= statement*
    statement  ::= "let" ident "=" expression [";"]
                 | "return" expression [";"]
                 | expression [";"]
    block      ::= "{" statement* "}"
    expression ::= ident | int | "true" | "false"
                 | ("!" | "-") expression
                 | expression operator expression
                 | "(" expression ")"
                 | "if" "(" expression ")" block ["else" block]
                 | "fn" "(" [ident ("," ident)*] ")" block
                 | expression "(" [expression ("," expression)*] ")"

An integer literal denotes at most `2^63 - 1`, and no other kind of token stands in a
sentence: no illegal character, no end of input. The grammar is ambiguous (`a - b` is one
statement or two, `-a + b` negates `a` or the sum), so it fixes which token lists are
programs and says nothing of their trees.

Every run the stratified grammar of `Sugiru.Grammar` derives with its blocks closed is a
sentence here: that grammar only chooses one of the trees.

Main results:

* `IsExpr`, `IsArgs`, `IsBlock`, `IsStmt`, `IsStmts`, `IsProgram`: the grammar.
* `Grammar.Derives.isExpr`, `Grammar.Statements.isStmts`: the stratified grammar's closed
  runs are sentences of it.
-/

namespace Sugiru.Reference

open Grammar

mutual

/-- `expression`. -/
inductive IsExpr : List Token → Prop
  | ident {t : Token} : t.kind = .ident → IsExpr [t]
  | int {t : Token} : t.kind = .int → digitsValue t.text ≤ intLiteralLimit → IsExpr [t]
  | trueLit {t : Token} : t.kind = .kwTrue → IsExpr [t]
  | falseLit {t : Token} : t.kind = .kwFalse → IsExpr [t]
  | unary {o : Token} {xs : List Token} :
      (o.kind = .bang ∨ o.kind = .minus) → IsExpr xs → IsExpr (o :: xs)
  | binary {xs ys : List Token} {o : Token} :
      o.kind.infixOp?.isSome = true → IsExpr xs → IsExpr ys → IsExpr (xs ++ o :: ys)
  | group {xs : List Token} {lp rp : Token} :
      lp.kind = .lparen → IsExpr xs → rp.kind = .rparen → IsExpr (lp :: xs ++ [rp])
  | cond {cs bs : List Token} {i lp rp : Token} :
      i.kind = .kwIf → lp.kind = .lparen → IsExpr cs → rp.kind = .rparen → IsBlock bs →
      IsExpr (i :: lp :: cs ++ rp :: bs)
  | condElse {cs bs es : List Token} {i lp rp el : Token} :
      i.kind = .kwIf → lp.kind = .lparen → IsExpr cs → rp.kind = .rparen → IsBlock bs →
      el.kind = .kwElse → IsBlock es → IsExpr (i :: lp :: cs ++ rp :: bs ++ el :: es)
  | fn {ps bs : List Token} {names : List String} {f lp : Token} :
      f.kind = .kwFn → lp.kind = .lparen → Params ps names → IsBlock bs →
      IsExpr (f :: lp :: ps ++ bs)
  | call {xs ys : List Token} {lp : Token} :
      IsExpr xs → lp.kind = .lparen → IsArgs ys → IsExpr (xs ++ lp :: ys)

/-- The arguments of a call after its `(`, closing `)` included. -/
inductive IsArgs : List Token → Prop
  | close {rp : Token} : rp.kind = .rparen → IsArgs [rp]
  | list {xs : List Token} : IsArgList xs → IsArgs xs

/-- One argument or more, separated by `,`, then the `)`. -/
inductive IsArgList : List Token → Prop
  | last {xs : List Token} {rp : Token} : IsExpr xs → rp.kind = .rparen → IsArgList (xs ++ [rp])
  | cons {xs ys : List Token} {c : Token} :
      IsExpr xs → c.kind = .comma → IsArgList ys → IsArgList (xs ++ c :: ys)

/-- `block`. -/
inductive IsBlock : List Token → Prop
  | mk {xs : List Token} {lb rb : Token} :
      lb.kind = .lbrace → IsStmts xs → rb.kind = .rbrace → IsBlock (lb :: xs ++ [rb])

/-- `statement`, without its optional `;`. -/
inductive IsStmt : List Token → Prop
  | bind {xs : List Token} {l x a : Token} :
      l.kind = .kwLet → x.kind = .ident → a.kind = .assign → IsExpr xs →
      IsStmt (l :: x :: a :: xs)
  | ret {xs : List Token} {r : Token} : r.kind = .kwReturn → IsExpr xs → IsStmt (r :: xs)
  | expr {xs : List Token} : IsExpr xs → IsStmt xs

/-- `statement*`, each statement with or without its `;`. -/
inductive IsStmts : List Token → Prop
  | nil : IsStmts []
  | cons {xs ys : List Token} : IsStmt xs → IsStmts ys → IsStmts (xs ++ ys)
  | semi {xs ys : List Token} {sc : Token} :
      IsStmt xs → sc.kind = .semicolon → IsStmts ys → IsStmts (xs ++ sc :: ys)

end

/-- `program`: a sentence of the grammar. -/
def IsProgram (ts : List Token) : Prop := IsStmts ts

end Sugiru.Reference

namespace Sugiru.Grammar

open Reference

theorem prefixOp?_kind {k : TokenKind} {op : PrefixOp} (h : prefixOp? k = some op) :
    k = .bang ∨ k = .minus := by
  cases k <;> simp_all [prefixOp?]

theorem infixOp?_isSome {k : TokenKind} {m : Nat} (h : binLevel? k = some m) :
    k.infixOp?.isSome = true := by
  cases k <;> simp_all [binLevel?, TokenKind.infixOp?]

theorem Ending.ofBlock_ne_unclosed {u : Bool} (h : Ending.ofBlock u ≠ .unclosed) :
    u = false := by
  cases u
  · rfl
  · exact absurd rfl h

mutual

/-- A run the stratified grammar derives, ending outside every block, is an expression. -/
theorem Derives.isExpr {n : Nat} {xs : List Token} {e : Expr} {k : Ending}
    (D : Derives n xs e k) (hk : k ≠ .unclosed) : IsExpr xs := by
  match D with
  | .lift _ D => exact Derives.isExpr D hk
  | .binary hb _ Dl hkl Dr =>
    exact .binary (infixOp?_isSome hb) (Derives.isExpr Dl hkl) (Derives.isExpr Dr hk)
  | .unary ho D => exact .unary (prefixOp?_kind ho) (Derives.isExpr D hk)
  | .callee D => exact Derives.isExpr D hk
  | .call hlp D hkf A => exact .call (Derives.isExpr D hkf) hlp (Args.isArgs A)
  | .atom A => exact Atom.isExpr A hk
termination_by structural D

theorem Atom.isExpr {xs : List Token} {e : Expr} {k : Ending} (A : Atom xs e k)
    (hk : k ≠ .unclosed) : IsExpr xs := by
  match A with
  | .ident h => exact .ident h
  | .int h hv => exact .int h hv
  | .true h => exact .trueLit h
  | .false h => exact .falseLit h
  | .group hlp hrp D hkd => exact .group hlp (Derives.isExpr D hkd) hrp
  | @Atom.cond _ _ _ _ _ u _ _ _ hi hlp hrp D hkc B =>
    -- an `if` without `else` ends outside its block only when the block is closed
    have hu : u = false := by cases u <;> simp_all
    exact .cond hi hlp (Derives.isExpr D hkc) hrp (Block.isBlock B hu)
  | .condElse hi hlp hrp D hkc B hel B' =>
    exact .condElse hi hlp (Derives.isExpr D hkc) hrp (Block.isBlock B rfl) hel
      (Block.isBlock B' (Ending.ofBlock_ne_unclosed hk))
  | .fn hf hlp P B => exact .fn hf hlp P (Block.isBlock B (Ending.ofBlock_ne_unclosed hk))
termination_by structural A

theorem Args.isArgs {xs : List Token} {as : List Expr} (A : Args xs as) : IsArgs xs := by
  match A with
  | .nil hrp => exact .close hrp
  | .one D hk hrp => exact .list (.last (Derives.isExpr D hk) hrp)
  | .cons D hk hc A hne => exact .list (.cons (Derives.isExpr D hk) hc (Args.isArgList A hne))
termination_by structural A

theorem Args.isArgList {xs : List Token} {as : List Expr} (A : Args xs as) (hne : as ≠ []) :
    IsArgList xs := by
  match A with
  | .nil _ => exact absurd rfl hne
  | .one D hk hrp => exact .last (Derives.isExpr D hk) hrp
  | .cons D hk hc A hne' => exact .cons (Derives.isExpr D hk) hc (Args.isArgList A hne')
termination_by structural A

theorem Block.isBlock {xs : List Token} {ss : List Stmt} {u : Bool} (B : Block xs ss u)
    (hu : u = false) : IsBlock xs := by
  match B with
  | .closed hlb hrb S => exact .mk hlb (Statements.isStmts S rfl) hrb
  | .unclosed _ _ => exact absurd hu (by simp)
termination_by structural B

/-- Statements the stratified grammar derives, ending outside every block, are statements
    of the reference grammar. -/
theorem Statements.isStmts {xs : List Token} {ss : List Stmt} {u : Bool}
    (S : Statements xs ss u) (hu : u = false) : IsStmts xs := by
  match S with
  | .nil => exact .nil
  | .semi St hsc S => exact .semi (Statement.isStmt St rfl) hsc (Statements.isStmts S hu)
  | .cons St _ S => exact .cons (Statement.isStmt St rfl) (Statements.isStmts S hu)
  | .last _ => exact absurd hu (by simp)
termination_by structural S

theorem Statement.isStmt {xs : List Token} {s : Stmt} {u : Bool} (St : Statement xs s u)
    (hu : u = false) : IsStmt xs := by
  match St with
  | .bind hl hx ha D =>
    exact .bind hl hx ha (Derives.isExpr D fun hk => by simp [hk, Ending.isOpen] at hu)
  | .ret hr D => exact .ret hr (Derives.isExpr D fun hk => by simp [hk, Ending.isOpen] at hu)
  | .expr D => exact .expr (Derives.isExpr D fun hk => by simp [hk, Ending.isOpen] at hu)
termination_by structural St

end

end Sugiru.Grammar
