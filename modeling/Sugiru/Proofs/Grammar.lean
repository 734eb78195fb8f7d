import Mathlib
import Sugiru.Syntax.Parser

/-!
# The grammar of expressions by levels

The parser reads expressions by precedence climbing. This module states, independently
of it, the grammar those expressions follow, one level per binding power:

```
E0 ::= E0 ('==' | '!=') E1 | E1
E1 ::= E1 ('<' | '>') E2 | E2
E2 ::= E2 ('+' | '-') E3 | E3
E3 ::= E3 ('*' | '/') E4 | E4
E4 ::= ('!' | '-') E4 | E5
E5 ::= E5 '(' [E0 (',' E0)*] ')' | atom
atom ::= IDENT | INT | true | false | '(' E0 ')' | if-expression | function literal
```

with the statements and blocks of the language around them. `Derives n xs e k` says that
the token run `xs` is an `E_n` whose tree is `e`. Every binary level is left-recursive, so
operators group to the left, and the levels bind in the order listed.

Two readings of the input decide what may follow a run, and `Ending` records them:

* A block may be left open when the input ends inside it: `{ stmts` with no `}`. A run
  that ends inside such a block is `unclosed`, and only the end of the input may follow.
* An `if` without `else` takes an `else` that follows it, so a run that ends with one is
  `dangling`, and no `else` may follow it.

Inside a block the statements are read over their longest runs: an expression statement
not closed by `;` is followed by a token that cannot continue it (`Separates`).
-/

namespace Sugiru.Grammar

/-- The level of a binary operator: `==` `!=` at 0, `<` `>` at 1, `+` `-` at 2 and `*` `/`
    at 3. -/
def binLevel? : TokenKind → Option Nat
  | .eq | .notEq => some 0
  | .lt | .gt => some 1
  | .plus | .minus => some 2
  | .asterisk | .slash => some 3
  | _ => none

/-- The prefix operator a token kind stands for. -/
def prefixOp? : TokenKind → Option PrefixOp
  | .bang => some .not
  | .minus => some .neg
  | _ => none

/-- A token continues an expression of level `n`: it is a binary operator of level `n` or
    above, or the `(` of a call, which binds at level 5. -/
def Continues (n : Nat) (t : Token) : Prop :=
  (∃ m, binLevel? t.kind = some m ∧ n ≤ m) ∨ (t.kind = .lparen ∧ n ≤ 5)

/-- What follows a statement that is not closed by `;`: the end, or a token that neither
    continues its expression nor is a `;` the statement would have taken. -/
def Separates (ys : List Token) : Prop :=
  ∀ t ∈ ys.head?, ¬ Continues 0 t ∧ t.kind ≠ .semicolon

/-- How a run ends, which decides what may follow it. -/
inductive Ending where
  /-- Any token may follow. -/
  | closed
  /-- The run ends with an `if` that has no `else`: no `else` may follow. -/
  | dangling
  /-- The run ends inside a block left open: only the end of the input may follow. -/
  | unclosed
  deriving DecidableEq, Repr

/-- Whether a run ends inside a block left open. -/
def Ending.isOpen : Ending → Bool
  | .unclosed => true
  | _ => false

/-- The ending of a run that ends with a block: open when the block is. -/
def Ending.ofBlock (u : Bool) : Ending := if u then .unclosed else .closed

/-- The parameter list of a function literal after its `(`, closing `)` included. -/
inductive Params : List Token → List String → Prop
  | nil {rp : Token} : rp.kind = .rparen → Params [rp] []
  | one {x rp : Token} : x.kind = .ident → rp.kind = .rparen → Params [x, rp] [x.text]
  | cons {xs : List Token} {names : List String} {x c : Token} :
      x.kind = .ident → c.kind = .comma → Params xs names → names ≠ [] →
      Params (x :: c :: xs) (x.text :: names)

mutual

/-- `Derives n xs e k`: the tokens `xs` are an expression of level `n` with tree `e`,
    ending as `k` says. -/
inductive Derives : Nat → List Token → Expr → Ending → Prop
  /-- `E_n ::= E_(n+1)`, for the four binary levels. -/
  | lift {n : Nat} {xs : List Token} {e : Expr} {k : Ending} :
      n < 4 → Derives (n + 1) xs e k → Derives n xs e k
  /-- `E_n ::= E_n op E_(n+1)`. -/
  | binary {n : Nat} {xs ys : List Token} {l r : Expr} {kl k : Ending} {o : Token}
      {op : InfixOp} :
      binLevel? o.kind = some n → o.kind.infixOp? = some op →
      Derives n xs l kl → kl ≠ .unclosed → Derives (n + 1) ys r k →
      Derives n (xs ++ o :: ys) (.binary op l r) k
  /-- `E4 ::= ('!' | '-') E4`. -/
  | unary {xs : List Token} {e : Expr} {k : Ending} {o : Token} {op : PrefixOp} :
      prefixOp? o.kind = some op → Derives 4 xs e k → Derives 4 (o :: xs) (.unary op e) k
  /-- `E4 ::= E5`. -/
  | callee {xs : List Token} {e : Expr} {k : Ending} : Derives 5 xs e k → Derives 4 xs e k
  /-- `E5 ::= E5 '(' [E0 (',' E0)*] ')'`; the argument run ends with the `)`. -/
  | call {xs ys : List Token} {f : Expr} {args : List Expr} {kf : Ending} {lp : Token} :
      lp.kind = .lparen → Derives 5 xs f kf → kf ≠ .unclosed → Args ys args →
      Derives 5 (xs ++ lp :: ys) (.call f args) .closed
  /-- `E5 ::= atom`. -/
  | atom {xs : List Token} {e : Expr} {k : Ending} : Atom xs e k → Derives 5 xs e k

/-- The atoms: names, literals, parenthesised expressions, `if` and `fn`. -/
inductive Atom : List Token → Expr → Ending → Prop
  | ident {t : Token} : t.kind = .ident → Atom [t] (.ident t.text) .closed
  | int {t : Token} : t.kind = .int → digitsValue t.text ≤ intLiteralLimit →
      Atom [t] (.int t.text (digitsValue t.text)) .closed
  | true {t : Token} : t.kind = .kwTrue → Atom [t] (.bool true) .closed
  | false {t : Token} : t.kind = .kwFalse → Atom [t] (.bool false) .closed
  | group {xs : List Token} {e : Expr} {k : Ending} {lp rp : Token} :
      lp.kind = .lparen → rp.kind = .rparen → Derives 0 xs e k → k ≠ .unclosed →
      Atom (lp :: xs ++ [rp]) e .closed
  | cond {cs bs : List Token} {c : Expr} {body : List Stmt} {kc : Ending} {u : Bool}
      {i lp rp : Token} :
      i.kind = .kwIf → lp.kind = .lparen → rp.kind = .rparen →
      Derives 0 cs c kc → kc ≠ .unclosed → Block bs body u →
      Atom (i :: lp :: cs ++ rp :: bs) (.cond c body none) (if u then .unclosed else .dangling)
  | condElse {cs bs es : List Token} {c : Expr} {body alt : List Stmt} {kc : Ending}
      {u : Bool} {i lp rp el : Token} :
      i.kind = .kwIf → lp.kind = .lparen → rp.kind = .rparen →
      Derives 0 cs c kc → kc ≠ .unclosed → Block bs body false → el.kind = .kwElse →
      Block es alt u →
      Atom (i :: lp :: cs ++ rp :: bs ++ el :: es) (.cond c body (some alt)) (.ofBlock u)
  | fn {ps bs : List Token} {names : List String} {body : List Stmt} {u : Bool}
      {f lp : Token} :
      f.kind = .kwFn → lp.kind = .lparen → Params ps names → Block bs body u →
      Atom (f :: lp :: ps ++ bs) (.fn names body) (.ofBlock u)

/-- The arguments of a call after its `(`, closing `)` included. -/
inductive Args : List Token → List Expr → Prop
  | nil {rp : Token} : rp.kind = .rparen → Args [rp] []
  | one {xs : List Token} {e : Expr} {k : Ending} {rp : Token} :
      Derives 0 xs e k → k ≠ .unclosed → rp.kind = .rparen → Args (xs ++ [rp]) [e]
  | cons {xs ys : List Token} {e : Expr} {es : List Expr} {k : Ending} {c : Token} :
      Derives 0 xs e k → k ≠ .unclosed → c.kind = .comma → Args ys es → es ≠ [] →
      Args (xs ++ c :: ys) (e :: es)

/-- A block: `{`, statements, `}`; or, open at the end of the input, without its `}`. -/
inductive Block : List Token → List Stmt → Bool → Prop
  | closed {xs : List Token} {ss : List Stmt} {lb rb : Token} :
      lb.kind = .lbrace → rb.kind = .rbrace → Statements xs ss false →
      Block (lb :: xs ++ [rb]) ss false
  | unclosed {xs : List Token} {ss : List Stmt} {u : Bool} {lb : Token} :
      lb.kind = .lbrace → Statements xs ss u → Block (lb :: xs) ss true

/-- A sequence of statements, each read over its longest run; open when the last one is. -/
inductive Statements : List Token → List Stmt → Bool → Prop
  | nil : Statements [] [] false
  | semi {xs ys : List Token} {s : Stmt} {ss : List Stmt} {u : Bool} {sc : Token} :
      Statement xs s false → sc.kind = .semicolon → Statements ys ss u →
      Statements (xs ++ sc :: ys) (s :: ss) u
  | cons {xs ys : List Token} {s : Stmt} {ss : List Stmt} {u : Bool} :
      Statement xs s false → Separates ys → Statements ys ss u →
      Statements (xs ++ ys) (s :: ss) u
  | last {xs : List Token} {s : Stmt} : Statement xs s true → Statements xs [s] true

/-- One statement without its optional `;`: `let`, `return` or an expression. -/
inductive Statement : List Token → Stmt → Bool → Prop
  | bind {xs : List Token} {e : Expr} {k : Ending} {l x a : Token} :
      l.kind = .kwLet → x.kind = .ident → a.kind = .assign → Derives 0 xs e k →
      Statement (l :: x :: a :: xs) (.bind x.text e) k.isOpen
  | ret {xs : List Token} {e : Expr} {k : Ending} {r : Token} :
      r.kind = .kwReturn → Derives 0 xs e k → Statement (r :: xs) (.ret e) k.isOpen
  | expr {xs : List Token} {e : Expr} {k : Ending} :
      Derives 0 xs e k → Statement xs (.expr e) k.isOpen

end

/-! ## Levels and binding powers

The parser keeps the same table as binding powers: an operator of level `m` has power
`m + 2`, and a parser reading at power `p` takes exactly the operators that continue an
expression of level `p - 1`.
-/

theorem power_of_binLevel {k : TokenKind} {m : Nat} (h : binLevel? k = some m) :
    k.power = m + 2 := by
  cases k <;> simp_all [binLevel?, TokenKind.power] <;> omega

theorem infixOp?_of_binLevel {k : TokenKind} {m : Nat} (h : binLevel? k = some m) :
    ∃ op, k.infixOp? = some op := by
  cases k <;> simp_all [binLevel?, TokenKind.infixOp?]

theorem binLevel_of_infixOp? {k : TokenKind} {op : InfixOp} (h : k.infixOp? = some op) :
    ∃ m, binLevel? k = some m := by
  cases k <;> simp_all [binLevel?, TokenKind.infixOp?]

theorem continues_iff_power {n : Nat} {t : Token} (hn : n ≤ 5) :
    Continues n t ↔ n + 1 < t.kind.power := by
  unfold Continues
  cases h : t.kind <;> simp [binLevel?, TokenKind.power] <;> omega

theorem Continues.mono {n m : Nat} {t : Token} (h : Continues m t) (hnm : n ≤ m) :
    Continues n t := by
  rcases h with ⟨k, hk, hmk⟩ | ⟨hk, hm⟩
  · exact .inl ⟨k, hk, by omega⟩
  · exact .inr ⟨hk, by omega⟩

/-- Only operators and `(` continue an expression. -/
theorem not_continues_of_binLevel {n : Nat} {t : Token} (hb : binLevel? t.kind = none)
    (hl : t.kind ≠ .lparen) : ¬ Continues n t := by
  rintro (⟨m, hm, -⟩ | ⟨hk, -⟩)
  · rw [hb] at hm; cases hm
  · exact hl hk

theorem prefixOp?_eq_some {k : TokenKind} {op : PrefixOp} :
    prefixOp? k = some op ↔ (k = .bang ∧ op = .not) ∨ (k = .minus ∧ op = .neg) := by
  cases k <;> cases op <;> simp [prefixOp?]

theorem binLevel_le {k : TokenKind} {m : Nat} (h : binLevel? k = some m) : m ≤ 3 := by
  cases k <;> simp_all [binLevel?] <;> omega

/-- An operator of level `n` does not continue an expression of a higher level. -/
theorem not_continues_succ_of_binLevel {n : Nat} {t : Token} (h : binLevel? t.kind = some n) :
    ¬ Continues (n + 1) t := by
  rintro (⟨m, hm, hnm⟩ | ⟨hk, -⟩)
  · rw [h, Option.some.injEq] at hm
    omega
  · simp [hk, binLevel?] at h

/-- Nothing continues an expression past level 5. -/
theorem not_continues_six (t : Token) : ¬ Continues 6 t := by
  rintro (⟨m, hm, h6⟩ | ⟨-, h6⟩)
  · have := binLevel_le hm
    omega
  · omega

theorem Ending.isOpen_eq_true {k : Ending} : k.isOpen = true ↔ k = .unclosed := by
  cases k <;> simp [Ending.isOpen]

theorem Ending.isOpen_eq_false {k : Ending} (h : k ≠ .unclosed) : k.isOpen = false := by
  cases k <;> simp_all [Ending.isOpen]

@[simp] theorem Ending.isOpen_closed : Ending.closed.isOpen = false := rfl

@[simp] theorem Ending.isOpen_dangling : Ending.dangling.isOpen = false := rfl

@[simp] theorem Ending.isOpen_unclosed : Ending.unclosed.isOpen = true := rfl

@[simp] theorem Ending.isOpen_ofBlock (u : Bool) : (Ending.ofBlock u).isOpen = u := by
  cases u <;> rfl

@[simp] theorem Ending.isOpen_ite (u : Bool) :
    (if u then Ending.unclosed else .dangling).isOpen = u := by
  cases u <;> rfl

/-! ## What a run starts with -/

/-- The kinds a statement can start with. -/
def StartsStatement (k : TokenKind) : Prop :=
  k = .kwLet ∨ k = .kwReturn ∨ k.startsOperand = true

theorem StartsStatement.ne {k : TokenKind} (h : StartsStatement k) :
    k ≠ .rbrace ∧ k ≠ .kwElse ∧ k ≠ .semicolon := by
  rcases h with rfl | rfl | h
  · simp
  · simp
  · cases k <;> simp_all [TokenKind.startsOperand]

theorem startsOperand_of_prefixOp? {k : TokenKind} {op : PrefixOp} (h : prefixOp? k = some op) :
    k.startsOperand = true := by
  rcases prefixOp?_eq_some.1 h with ⟨rfl, -⟩ | ⟨rfl, -⟩ <;> rfl

/-- The kinds that cannot start an expression. -/
theorem ne_of_startsOperand {k : TokenKind} (h : k.startsOperand = true) :
    k ≠ .kwLet ∧ k ≠ .kwReturn ∧ k ≠ .rparen ∧ k ≠ .rbrace := by
  cases k <;> simp_all [TokenKind.startsOperand]

theorem Atom.head {xs : List Token} {e : Expr} {k : Ending} (A : Atom xs e k) :
    ∃ t rest, xs = t :: rest ∧ t.kind.startsOperand := by
  cases A <;> exact ⟨_, _, rfl, by simp_all [TokenKind.startsOperand]⟩

/-- An expression run starts with a token that starts an operand. -/
theorem Derives.head {n : Nat} {xs : List Token} {e : Expr} {k : Ending} :
    Derives n xs e k → ∃ t rest, xs = t :: rest ∧ t.kind.startsOperand = true
  | .lift _ D => D.head
  | .binary _ _ D _ _ => by
    obtain ⟨t, rest, rfl, h⟩ := D.head
    exact ⟨t, _, rfl, h⟩
  | .unary ho _ => ⟨_, _, rfl, startsOperand_of_prefixOp? ho⟩
  | .callee D => D.head
  | .call _ D _ _ => by
    obtain ⟨t, rest, rfl, h⟩ := D.head
    exact ⟨t, _, rfl, h⟩
  | .atom A => A.head

theorem Derives.ne_nil {n : Nat} {xs : List Token} {e : Expr} {k : Ending}
    (D : Derives n xs e k) : xs ≠ [] := by
  obtain ⟨t, rest, rfl, -⟩ := D.head
  exact List.cons_ne_nil t rest

theorem Args.ne_nil {xs : List Token} {as : List Expr} (A : Args xs as) : xs ≠ [] := by
  cases A <;> simp

theorem Params.ne_nil {xs : List Token} {names : List String} (P : Params xs names) :
    xs ≠ [] := by
  cases P <;> simp

theorem Block.ne_nil {xs : List Token} {ss : List Stmt} {u : Bool} (B : Block xs ss u) :
    xs ≠ [] := by
  cases B <;> simp

theorem Block.head {xs : List Token} {ss : List Stmt} {u : Bool} (B : Block xs ss u) :
    ∃ lb rest, xs = lb :: rest ∧ lb.kind = .lbrace := by
  cases B <;> exact ⟨_, _, rfl, by assumption⟩

theorem Statement.head {xs : List Token} {s : Stmt} {u : Bool} (S : Statement xs s u) :
    ∃ t rest, xs = t :: rest ∧ StartsStatement t.kind := by
  cases S with
  | bind h _ _ _ => exact ⟨_, _, rfl, .inl h⟩
  | ret h _ => exact ⟨_, _, rfl, .inr (.inl h)⟩
  | expr D =>
    obtain ⟨t, rest, rfl, h⟩ := D.head
    exact ⟨t, rest, rfl, .inr (.inr h)⟩

theorem Statements.head {xs : List Token} {ss : List Stmt} {u : Bool} (S : Statements xs ss u) :
    ∀ t ∈ xs.head?, StartsStatement t.kind := by
  cases S with
  | nil => simp
  | semi St _ _ | cons St _ _ | last St =>
    obtain ⟨t, rest, rfl, h⟩ := St.head
    simpa using h

theorem Statement.ne_nil {xs : List Token} {s : Stmt} {u : Bool} (S : Statement xs s u) :
    xs ≠ [] := by
  obtain ⟨t, rest, rfl, -⟩ := S.head
  exact List.cons_ne_nil t rest

/-- Statements with no tokens are none. -/
theorem Statements.nil_eq {xs : List Token} {ss : List Stmt} {u : Bool}
    (S : Statements xs ss u) (hx : xs = []) : ss = [] ∧ u = false := by
  cases S with
  | nil => exact ⟨rfl, rfl⟩
  | semi _ _ _ => simp at hx
  | cons St _ _ => exact absurd (List.append_eq_nil_iff.1 hx).1 St.ne_nil
  | last St => exact absurd hx St.ne_nil

theorem Params.head {xs : List Token} {names : List String} (P : Params xs names)
    (hne : names ≠ []) :
    ∃ x rest ns, xs = x :: rest ∧ names = x.text :: ns ∧ x.kind = .ident := by
  cases P with
  | nil _ => exact absurd rfl hne
  | one hx _ | cons hx _ _ _ => exact ⟨_, _, _, rfl, rfl, hx⟩

/-- Lifting a derivation to a lower level: `E_n ::= E_(n+1)` and `E4 ::= E5`. -/
theorem Derives.down {m : Nat} {xs : List Token} {e : Expr} {k : Ending}
    (D : Derives (m + 1) xs e k) (hm : m + 1 ≤ 5) : Derives m xs e k := by
  rcases Nat.lt_or_ge m 4 with h | h
  · exact .lift h D
  · obtain rfl : m = 4 := by omega
    exact .callee D

theorem Derives.lower {m n : Nat} {xs : List Token} {e : Expr} {k : Ending}
    (D : Derives m xs e k) (hnm : n ≤ m) (hm : m ≤ 5) : Derives n xs e k := by
  obtain ⟨d, rfl⟩ := Nat.exists_eq_add_of_le hnm
  induction d with
  | zero => exact D
  | succ d ih => exact ih (D.down (by omega)) (by omega) (by omega)

end Sugiru.Grammar
