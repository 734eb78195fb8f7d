import Sugiru.Token.Lexer
import Sugiru.Syntax
import Sugiru.Syntax.Issue

/-!
# The parser

`Program.parse` reads a token list into a program by precedence climbing. It never fails:
an issue is recorded, the piece that could not be built becomes a hole (a `let` without
its name or `=` is dropped), and parsing goes on with the next statement.

The parser works on a cursor: a token list whose head is the current token, and whose
second token is the one it looks ahead at; past the end the current token is end of
input. Each step starts on the first token of its construct and stops on the last one,
so the enclosing loop moves one token on after each statement. Every step returns what is
left together with a proof that it is no longer than what it was given; with the rank of
the step as a second component this gives the measure the mutual recursion ends by.

Binding powers, lowest first: `==` `!=`, then `<` `>`, then `+` `-`, then `*` `/`, then
the prefix operators, then call. An operator's right operand is read at the operator's own
power, so all infix operators group to the left.
-/

namespace Sugiru

namespace TokenKind

/-- The binding power of the infix operator a token kind stands for; `1` for any other
    kind. -/
def power : TokenKind → Nat
  | eq | notEq => 2
  | lt | gt => 3
  | plus | minus => 4
  | asterisk | slash => 5
  | lparen => 7
  | _ => 1

/-- Whether an expression can start with a token of this kind. -/
def startsOperand : TokenKind → Bool
  | ident | int | kwTrue | kwFalse | bang | minus | lparen | kwIf | kwFn => true
  | _ => false

/-- The infix operator a token kind stands for, if any. -/
def infixOp? : TokenKind → Option InfixOp
  | plus => some .add | minus => some .sub | asterisk => some .mul | slash => some .div
  | lt => some .lt | gt => some .gt | eq => some .eq | notEq => some .ne
  | _ => none

end TokenKind

/-- The number a run of decimal digits denotes. -/
def digitsValue (text : String) : Nat :=
  text.foldl (fun n c => 10 * n + (c.toNat - '0'.toNat)) 0

/-- The largest signed 64-bit integer, `2 ^ 63 - 1`, the largest value an integer literal
    may denote. -/
def intLiteralLimit : Nat := 9223372036854775807

namespace Parser

/-- The binding power below every operator, at which a whole expression is read. -/
def lowest : Nat := 1

/-- The binding power of the prefix operators' operand. -/
def prefixPower : Nat := 6

/-- The token at the cursor; end of input when none is left. -/
def current : List Token → Token
  | t :: _ => t
  | [] => Token.eof

/-- The token after the cursor; end of input when there is none. -/
def peek : List Token → Token
  | _ :: t :: _ => t
  | _ => Token.eof

/-- The cursor moved onto the next token, when that token has kind `k`. -/
def advance? (k : TokenKind) : (ts : List Token) → Option {r : List Token // r.length < ts.length}
  | _ :: t :: more => if t.kind = k then some ⟨t :: more, by simp⟩ else none
  | _ => none

/-- The cursor moved past an optional `;` after a statement. -/
def skipSemicolon (ts : List Token) : List Token :=
  if (peek ts).kind = .semicolon then ts.tail else ts

theorem length_skipSemicolon_le (ts : List Token) : (skipSemicolon ts).length ≤ ts.length := by
  unfold skipSemicolon
  split
  · simp
  · exact Nat.le_refl _

/-- The outcome of one step started on the cursor `ts`: what it built, the cursor it
    stopped on, and the issues it met in order. -/
structure Step (ts : List Token) (α : Type) where
  value : α
  rest : List Token
  issues : List Issue
  rest_le : rest.length ≤ ts.length

/-- Parameter names after the last one read, the cursor on that name: `none` when a
    name or the closing `)` is missing. -/
def paramsTail (acc : List String) (ts : List Token) : Step ts (Option (List String)) :=
  match advance? .comma ts with
  | some ⟨r, h⟩ =>
    match advance? .ident r with
    | none => ⟨none, r, [.expected .ident (peek r)], Nat.le_of_lt h⟩
    | some ⟨r2, h2⟩ =>
      let s := paramsTail (acc ++ [(current r2).text]) r2
      ⟨s.value, s.rest, s.issues, by have := s.rest_le; omega⟩
  | none =>
    match advance? .rparen ts with
    | some ⟨r, h⟩ => ⟨some acc, r, [], Nat.le_of_lt h⟩
    | none => ⟨none, ts, [.expected .rparen (peek ts)], Nat.le_refl _⟩
termination_by ts.length

/-- The parameter list of a function literal, the cursor on its `(`. -/
def params (ts : List Token) : Step ts (Option (List String)) :=
  match advance? .rparen ts with
  | some ⟨r, h⟩ => ⟨some [], r, [], Nat.le_of_lt h⟩
  | none =>
    match advance? .ident ts with
    | none => ⟨none, ts, [.expected .ident (peek ts)], Nat.le_refl _⟩
    | some ⟨r, h⟩ =>
      let s := paramsTail [(current r).text] r
      ⟨s.value, s.rest, s.issues, by have := s.rest_le; omega⟩

mutual

/-- The statements of a block, from the token after its `{` up to its `}` or the end of
    input. -/
def stmts (ts : List Token) : Step ts (List Stmt) :=
  match ts with
  | [] => ⟨[], [], [], Nat.le_refl _⟩
  | t :: more =>
    if t.kind = .rbrace then ⟨[], t :: more, [], Nat.le_refl _⟩
    else
      let ⟨sv, sr, si, hs⟩ := stmt (t :: more)
      let r := stmts sr.tail
      ⟨sv.toList ++ r.value, r.rest, si ++ r.issues, by
        have := r.rest_le; simp only [List.length_tail, List.length_cons] at *; omega⟩
termination_by (ts.length, 6)
decreasing_by
  all_goals
    simp only [Prod.lex_def, List.length_tail, List.length_cons, true_and] at *
    omega

/-- One statement: `none` when a `let` lacks its name or its `=`. -/
def stmt (ts : List Token) : Step ts (Option Stmt) :=
  match ts with
  | t :: more =>
    if t.kind = .kwLet then
      match advance? .ident (t :: more) with
      | none => ⟨none, t :: more, [.expected .ident (peek (t :: more))], Nat.le_refl _⟩
      | some ⟨r1, h1⟩ =>
        match advance? .assign r1 with
        | none => ⟨none, r1, [.expected .assign (peek r1)], Nat.le_of_lt h1⟩
        | some ⟨r2, h2⟩ =>
          let v := expr lowest r2.tail
          have hv : v.rest.length ≤ r2.tail.length := v.rest_le
          ⟨some (.bind (current r1).text v.value), skipSemicolon v.rest, v.issues, by
            have := length_skipSemicolon_le v.rest
            simp only [List.length_tail] at *; omega⟩
    else if t.kind = .kwReturn then
      let v := expr lowest more
      have hv : v.rest.length ≤ more.length := v.rest_le
      ⟨some (.ret v.value), skipSemicolon v.rest, v.issues, by
        have := length_skipSemicolon_le v.rest; simp only [List.length_cons]; omega⟩
    else
      let v := expr lowest (t :: more)
      ⟨some (.expr v.value), skipSemicolon v.rest, v.issues,
        Nat.le_trans (length_skipSemicolon_le v.rest) v.rest_le⟩
  | [] =>
    let v := expr lowest []
    ⟨some (.expr v.value), skipSemicolon v.rest, v.issues,
      Nat.le_trans (length_skipSemicolon_le v.rest) v.rest_le⟩
termination_by (ts.length, 5)
decreasing_by
  all_goals
    simp only [Prod.lex_def, List.length_tail, List.length_cons, true_and] at *
    omega

/-- An expression whose infix operators bind tighter than `power`. -/
def expr (power : Nat) (ts : List Token) : Step ts Expr :=
  if (current ts).kind.startsOperand then
    let ⟨pv, pr, pi, hp⟩ := operand ts
    let l := infixTail power pv pr
    ⟨l.value, l.rest, pi ++ l.issues, Nat.le_trans l.rest_le hp⟩
  else ⟨.hole, ts, [.noOperand (current ts).kind], Nat.le_refl _⟩
termination_by (ts.length, 4)
decreasing_by
  all_goals
    simp only [Prod.lex_def, true_and] at *
    omega

/-- The expression that starts at the cursor, before any infix operator. -/
def operand (ts : List Token) : Step ts Expr :=
  match ts with
  | [] => ⟨.hole, [], [], Nat.le_refl _⟩
  | t :: more =>
    match t.kind with
    | .ident => ⟨.ident t.text, t :: more, [], Nat.le_refl _⟩
    | .int =>
      if digitsValue t.text ≤ intLiteralLimit then
        ⟨.int t.text (digitsValue t.text), t :: more, [], Nat.le_refl _⟩
      else ⟨.hole, t :: more, [.intRange t.text], Nat.le_refl _⟩
    | .kwTrue => ⟨.bool true, t :: more, [], Nat.le_refl _⟩
    | .kwFalse => ⟨.bool false, t :: more, [], Nat.le_refl _⟩
    | .bang =>
      let r := expr prefixPower more
      ⟨.unary .not r.value, r.rest, r.issues, by have := r.rest_le; simp; omega⟩
    | .minus =>
      let r := expr prefixPower more
      ⟨.unary .neg r.value, r.rest, r.issues, by have := r.rest_le; simp; omega⟩
    | .lparen =>
      let r := expr lowest more
      have hr : r.rest.length ≤ more.length := r.rest_le
      match advance? .rparen r.rest with
      | some ⟨c, hc⟩ => ⟨r.value, c, r.issues, by simp; omega⟩
      | none => ⟨.hole, r.rest, r.issues ++ [.expected .rparen (peek r.rest)], by simp; omega⟩
    | .kwIf => conditional (t :: more)
    | .kwFn => function (t :: more)
    | _ => ⟨.hole, t :: more, [], Nat.le_refl _⟩
termination_by (ts.length, 3)
decreasing_by
  all_goals
    simp only [Prod.lex_def, List.length_cons, true_and] at *
    omega

/-- An `if` expression, the cursor on `if`: a hole when `(`, `)` or a `{` is missing. -/
def conditional (ts : List Token) : Step ts Expr :=
  match advance? .lparen ts with
  | none => ⟨.hole, ts, [.expected .lparen (peek ts)], Nat.le_refl _⟩
  | some ⟨r1, h1⟩ =>
    let ⟨cv, cr, ci, hc⟩ := expr lowest r1.tail
    have h1' : r1.tail.length < ts.length := by simp only [List.length_tail]; omega
    match advance? .rparen cr with
    | none => ⟨.hole, cr, ci ++ [.expected .rparen (peek cr)], by omega⟩
    | some ⟨r2, h2⟩ =>
      match advance? .lbrace r2 with
      | none => ⟨.hole, r2, ci ++ [.expected .lbrace (peek r2)], by omega⟩
      | some ⟨r3, h3⟩ =>
        have h3' : r3.tail.length < ts.length := by simp only [List.length_tail]; omega
        let ⟨bv, br, bi, hb⟩ := stmts r3.tail
        match advance? .kwElse br with
        | none => ⟨.cond cv bv none, br, ci ++ bi, by omega⟩
        | some ⟨r4, h4⟩ =>
          match advance? .lbrace r4 with
          | none =>
            ⟨.hole, r4, ci ++ bi ++ [.expected .lbrace (peek r4)], by omega⟩
          | some ⟨r5, h5⟩ =>
            have h5' : r5.tail.length < ts.length := by simp only [List.length_tail]; omega
            let e := stmts r5.tail
            ⟨.cond cv bv (some e.value), e.rest, ci ++ bi ++ e.issues, by
              have := e.rest_le; omega⟩
termination_by (ts.length, 2)
decreasing_by
  all_goals
    simp only [Prod.lex_def, List.length_tail] at *
    omega

/-- A function literal, the cursor on `fn`: a hole when its parameter list or `{` is
    malformed. -/
def function (ts : List Token) : Step ts Expr :=
  match advance? .lparen ts with
  | none => ⟨.hole, ts, [.expected .lparen (peek ts)], Nat.le_refl _⟩
  | some ⟨r1, h1⟩ =>
    let ps := params r1
    have hps : ps.rest.length ≤ r1.length := ps.rest_le
    match ps.value with
    | none => ⟨.hole, ps.rest, ps.issues, by omega⟩
    | some names =>
      match advance? .lbrace ps.rest with
      | none => ⟨.hole, ps.rest, ps.issues ++ [.expected .lbrace (peek ps.rest)], by omega⟩
      | some ⟨r2, h2⟩ =>
        let b := stmts r2.tail
        have h2' : r2.tail.length < ts.length := by simp only [List.length_tail]; omega
        ⟨.fn names b.value, b.rest, ps.issues ++ b.issues, by have := b.rest_le; omega⟩
termination_by (ts.length, 2)
decreasing_by
  all_goals
    simp only [Prod.lex_def, List.length_tail] at *
    omega

/-- The infix operators and calls that follow `left` while they bind tighter than
    `power`, the cursor on the last token of `left`. -/
def infixTail (power : Nat) (left : Expr) (ts : List Token) : Step ts Expr :=
  match ts with
  | t :: o :: more =>
    if o.kind ≠ .semicolon ∧ power < o.kind.power then
      if o.kind = .lparen then
        let ⟨av, ar, ai, ha⟩ := args more
        let callee := match av with
          | some xs => Expr.call left xs
          | none => Expr.hole
        let r := infixTail power callee ar
        ⟨r.value, r.rest, ai ++ r.issues, by have := r.rest_le; simp; omega⟩
      else
        match o.kind.infixOp? with
        | some op =>
          let ⟨rv, rr, ri, hr⟩ := expr o.kind.power more
          let l := infixTail power (.binary op left rv) rr
          ⟨l.value, l.rest, ri ++ l.issues, by have := l.rest_le; simp; omega⟩
        | none => ⟨left, t :: o :: more, [], Nat.le_refl _⟩
    else ⟨left, t :: o :: more, [], Nat.le_refl _⟩
  | ts => ⟨left, ts, [], Nat.le_refl _⟩
termination_by (ts.length, 1)
decreasing_by
  all_goals
    simp only [Prod.lex_def, List.length_cons] at *
    omega

/-- The arguments of a call, from the token after its `(`: `none` when the closing `)` is
    missing. -/
def args (ts : List Token) : Step ts (Option (List Expr)) :=
  match ts with
  | t :: more =>
    if t.kind = .rparen then ⟨some [], t :: more, [], Nat.le_refl _⟩
    else
      let ⟨av, ar, ai, ha⟩ := expr lowest (t :: more)
      let r := argsTail [av] ar
      ⟨r.value, r.rest, ai ++ r.issues, by have := r.rest_le; simp at *; omega⟩
  | [] =>
    let ⟨av, ar, ai, ha⟩ := expr lowest []
    let r := argsTail [av] ar
    ⟨r.value, r.rest, ai ++ r.issues, by
      have := r.rest_le; simp only [List.length_nil] at *; omega⟩
termination_by (ts.length, 5)
decreasing_by
  all_goals
    simp only [Prod.lex_def, List.length_cons, true_and] at *
    omega

/-- The arguments after the last one read, the cursor on its last token. -/
def argsTail (acc : List Expr) (ts : List Token) : Step ts (Option (List Expr)) :=
  match ts with
  | t :: c :: more =>
    if c.kind = .comma then
      let ⟨av, ar, ai, ha⟩ := expr lowest more
      let r := argsTail (acc ++ [av]) ar
      ⟨r.value, r.rest, ai ++ r.issues, by have := r.rest_le; simp; omega⟩
    else
      match advance? .rparen (t :: c :: more) with
      | some ⟨r, h⟩ => ⟨some acc, r, [], Nat.le_of_lt h⟩
      | none => ⟨none, t :: c :: more, [.expected .rparen (peek (t :: c :: more))],
          Nat.le_refl _⟩
  | ts =>
    match advance? .rparen ts with
    | some ⟨r, h⟩ => ⟨some acc, r, [], Nat.le_of_lt h⟩
    | none => ⟨none, ts, [.expected .rparen (peek ts)], Nat.le_refl _⟩
termination_by (ts.length, 0)
decreasing_by
  all_goals
    simp only [Prod.lex_def, List.length_cons] at *
    omega

end

end Parser

/-- What parsing a token list gives: the program, the issues met in order, and the text
    of the token the first kept statement began with (empty when none was kept). -/
structure Parsed where
  program : Program
  issues : List Issue
  lead : String

namespace Parser

/-- The statements of a program from the cursor to the end of input, with the issues
    met and the first token text of the first kept statement. -/
def program (ts : List Token) : List Stmt × List Issue × Option String :=
  match ts with
  | [] => ([], [], none)
  | t :: more =>
    let ⟨sv, sr, si, _hs⟩ := Parser.stmt (t :: more)
    let (ss, issues, lead) := program sr.tail
    (sv.toList ++ ss, si ++ issues, if sv.isSome then some t.text else lead)
termination_by ts.length
decreasing_by simp only [List.length_tail, List.length_cons] at *; omega

end Parser

/-- Parses a token list (without the end-of-input token) into a program. -/
def Program.ofTokens (ts : List Token) : Parsed :=
  let (stmts, issues, lead) := Parser.program ts
  ⟨⟨stmts⟩, issues, lead.getD ""⟩

/-- Parses source text into a program. -/
def Program.parse (source : String) : Parsed := Program.ofTokens (Token.scan source)

end Sugiru
