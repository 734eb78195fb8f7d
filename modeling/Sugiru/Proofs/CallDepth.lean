import Sugiru.Proofs.ParserSteps

/-!
# The parser ends, within a number of nested calls linear in its input

The parser's steps call each other and themselves with no bound of their own: a block
reads statements until it meets `}` or the end of the input, an operator loop reads
operands while the next operator binds tighter, and the end of the input answers every
look with the end of the input again. `Program.ofTokens` is defined by well-founded
recursion on what is left of the input, so it has an answer for every token list; this
module shows that the recursion itself never needs more than `8 * n + 8` nested calls on
`n` tokens.

The steps are run here with a budget `n` of nested calls: each call of a step, and each
turn of a loop, spends one unit, and a step whose budget is spent gives up (`none`).
Every loop turn and every call into a statement or an expression from inside a construct
comes after at least one token was consumed, and the steps called on the same cursor form
a fixed order (a statement calls an expression, which calls an operand, which may call an
`if` or a function, which come back with a shorter input), so a step of rank `r` started
on `L` tokens needs a budget of `8 * L + r + 1` only. Given that, every step gives what
the parser gives.

Main results:

* `Within`: with the budget `n`, every step started on few enough tokens for its rank
  gives the parser's result; `within` says this for every budget.
* `programWithin_eq`: a budget of `8 * n + 8` calls is enough for a whole program of `n`
  tokens, and any larger budget gives the same.
* `Program.parse_within`: parsing a text ends within `8 * n + 8` nested calls, `n` the
  number of its tokens, and gives `Program.parse`.
-/

namespace Sugiru.Parser

/-! ## The steps with a budget of nested calls -/

/-- `paramsTail` with at most `n` nested calls; `none` when they run out. -/
def paramsTailWithin : Nat → List String → List Token →
    Option (Option (List String) × List Token × List Issue)
  | 0, _, _ => none
  | n + 1, acc, ts =>
    match advance? .comma ts with
    | some ⟨r, _⟩ =>
      match advance? .ident r with
      | none => some (none, r, [.expected .ident (peek r)])
      | some ⟨r2, _⟩ => paramsTailWithin n (acc ++ [(current r2).text]) r2
    | none =>
      match advance? .rparen ts with
      | some ⟨r, _⟩ => some (some acc, r, [])
      | none => some (none, ts, [.expected .rparen (peek ts)])

/-- `params` with at most `n` nested calls. -/
def paramsWithin : Nat → List Token → Option (Option (List String) × List Token × List Issue)
  | 0, _ => none
  | n + 1, ts =>
    match advance? .rparen ts with
    | some ⟨r, _⟩ => some (some [], r, [])
    | none =>
      match advance? .ident ts with
      | none => some (none, ts, [.expected .ident (peek ts)])
      | some ⟨r, _⟩ => paramsTailWithin n [(current r).text] r

mutual

/-- `stmts` with at most `n` nested calls. -/
def stmtsWithin : Nat → List Token → Option (List Stmt × List Token × List Issue)
  | 0, _ => none
  | _ + 1, [] => some ([], [], [])
  | n + 1, t :: more =>
    if t.kind = .rbrace then some ([], t :: more, [])
    else do
      let (sv, sr, si) ← stmtWithin n (t :: more)
      let (rv, rr, ri) ← stmtsWithin n sr.tail
      return (sv.toList ++ rv, rr, si ++ ri)

/-- `stmt` with at most `n` nested calls. -/
def stmtWithin : Nat → List Token → Option (Option Stmt × List Token × List Issue)
  | 0, _ => none
  | n + 1, t :: more =>
    if t.kind = .kwLet then
      match advance? .ident (t :: more) with
      | none => some (none, t :: more, [.expected .ident (peek (t :: more))])
      | some ⟨r1, _⟩ =>
        match advance? .assign r1 with
        | none => some (none, r1, [.expected .assign (peek r1)])
        | some ⟨r2, _⟩ => do
          let (v, vr, vi) ← exprWithin n lowest r2.tail
          return (some (.bind (current r1).text v), skipSemicolon vr, vi)
    else if t.kind = .kwReturn then do
      let (v, vr, vi) ← exprWithin n lowest more
      return (some (.ret v), skipSemicolon vr, vi)
    else do
      let (v, vr, vi) ← exprWithin n lowest (t :: more)
      return (some (.expr v), skipSemicolon vr, vi)
  | n + 1, [] => do
    let (v, vr, vi) ← exprWithin n lowest []
    return (some (.expr v), skipSemicolon vr, vi)

/-- `expr` with at most `n` nested calls. -/
def exprWithin : Nat → Nat → List Token → Option (Expr × List Token × List Issue)
  | 0, _, _ => none
  | n + 1, power, ts =>
    if (current ts).kind.startsOperand then do
      let (pv, pr, pi) ← operandWithin n ts
      let (lv, lr, li) ← infixTailWithin n power pv pr
      return (lv, lr, pi ++ li)
    else some (.hole, ts, [.noOperand (current ts).kind])

/-- `operand` with at most `n` nested calls. -/
def operandWithin : Nat → List Token → Option (Expr × List Token × List Issue)
  | 0, _ => none
  | _ + 1, [] => some (.hole, [], [])
  | n + 1, t :: more =>
    match t.kind with
    | .ident => some (.ident t.text, t :: more, [])
    | .int =>
      if digitsValue t.text ≤ intLiteralLimit then
        some (.int t.text (digitsValue t.text), t :: more, [])
      else some (.hole, t :: more, [.intRange t.text])
    | .kwTrue => some (.bool true, t :: more, [])
    | .kwFalse => some (.bool false, t :: more, [])
    | .bang => do
      let (v, r, i) ← exprWithin n prefixPower more
      return (.unary .not v, r, i)
    | .minus => do
      let (v, r, i) ← exprWithin n prefixPower more
      return (.unary .neg v, r, i)
    | .lparen => do
      let (v, r, i) ← exprWithin n lowest more
      match advance? .rparen r with
      | some ⟨c, _⟩ => return (v, c, i)
      | none => return (.hole, r, i ++ [.expected .rparen (peek r)])
    | .kwIf => conditionalWithin n (t :: more)
    | .kwFn => functionWithin n (t :: more)
    | _ => some (.hole, t :: more, [])

/-- `conditional` with at most `n` nested calls. -/
def conditionalWithin : Nat → List Token → Option (Expr × List Token × List Issue)
  | 0, _ => none
  | n + 1, ts =>
    match advance? .lparen ts with
    | none => some (.hole, ts, [.expected .lparen (peek ts)])
    | some ⟨r1, _⟩ => do
      let (cv, cr, ci) ← exprWithin n lowest r1.tail
      match advance? .rparen cr with
      | none => return (.hole, cr, ci ++ [.expected .rparen (peek cr)])
      | some ⟨r2, _⟩ =>
        match advance? .lbrace r2 with
        | none => return (.hole, r2, ci ++ [.expected .lbrace (peek r2)])
        | some ⟨r3, _⟩ => do
          let (bv, br, bi) ← stmtsWithin n r3.tail
          match advance? .kwElse br with
          | none => return (.cond cv bv none, br, ci ++ bi)
          | some ⟨r4, _⟩ =>
            match advance? .lbrace r4 with
            | none => return (.hole, r4, ci ++ bi ++ [.expected .lbrace (peek r4)])
            | some ⟨r5, _⟩ => do
              let (ev, er, ei) ← stmtsWithin n r5.tail
              return (.cond cv bv (some ev), er, ci ++ bi ++ ei)

/-- `function` with at most `n` nested calls. -/
def functionWithin : Nat → List Token → Option (Expr × List Token × List Issue)
  | 0, _ => none
  | n + 1, ts =>
    match advance? .lparen ts with
    | none => some (.hole, ts, [.expected .lparen (peek ts)])
    | some ⟨r1, _⟩ => do
      let (pv, pr, pi) ← paramsWithin n r1
      match pv with
      | none => return (.hole, pr, pi)
      | some names =>
        match advance? .lbrace pr with
        | none => return (.hole, pr, pi ++ [.expected .lbrace (peek pr)])
        | some ⟨r2, _⟩ => do
          let (bv, br, bi) ← stmtsWithin n r2.tail
          return (.fn names bv, br, pi ++ bi)

/-- `infixTail` with at most `n` nested calls. -/
def infixTailWithin : Nat → Nat → Expr → List Token → Option (Expr × List Token × List Issue)
  | 0, _, _, _ => none
  | n + 1, power, left, t :: o :: more =>
    if o.kind ≠ .semicolon ∧ power < o.kind.power then
      if o.kind = .lparen then do
        let (av, ar, ai) ← argsWithin n more
        let callee := match av with
          | some xs => Expr.call left xs
          | none => Expr.hole
        let (rv, rr, ri) ← infixTailWithin n power callee ar
        return (rv, rr, ai ++ ri)
      else
        match o.kind.infixOp? with
        | some op => do
          let (rv, rr, ri) ← exprWithin n o.kind.power more
          let (lv, lr, li) ← infixTailWithin n power (.binary op left rv) rr
          return (lv, lr, ri ++ li)
        | none => some (left, t :: o :: more, [])
    else some (left, t :: o :: more, [])
  | _ + 1, _, left, ts => some (left, ts, [])

/-- `args` with at most `n` nested calls. -/
def argsWithin : Nat → List Token → Option (Option (List Expr) × List Token × List Issue)
  | 0, _ => none
  | n + 1, t :: more =>
    if t.kind = .rparen then some (some [], t :: more, [])
    else do
      let (av, ar, ai) ← exprWithin n lowest (t :: more)
      let (rv, rr, ri) ← argsTailWithin n [av] ar
      return (rv, rr, ai ++ ri)
  | n + 1, [] => do
    let (av, ar, ai) ← exprWithin n lowest []
    let (rv, rr, ri) ← argsTailWithin n [av] ar
    return (rv, rr, ai ++ ri)

/-- `argsTail` with at most `n` nested calls. -/
def argsTailWithin : Nat → List Expr → List Token →
    Option (Option (List Expr) × List Token × List Issue)
  | 0, _, _ => none
  | n + 1, acc, t :: c :: more =>
    if c.kind = .comma then do
      let (av, ar, ai) ← exprWithin n lowest more
      let (rv, rr, ri) ← argsTailWithin n (acc ++ [av]) ar
      return (rv, rr, ai ++ ri)
    else
      match advance? .rparen (t :: c :: more) with
      | some ⟨r, _⟩ => some (some acc, r, [])
      | none => some (none, t :: c :: more, [.expected .rparen (peek (t :: c :: more))])
  | _ + 1, acc, ts =>
    match advance? .rparen ts with
    | some ⟨r, _⟩ => some (some acc, r, [])
    | none => some (none, ts, [.expected .rparen (peek ts)])

end

/-- `program` with at most `n` nested calls. -/
def programWithin : Nat → List Token → Option (List Stmt × List Issue × Option String)
  | 0, _ => none
  | _ + 1, [] => some ([], [], none)
  | n + 1, t :: more => do
    let (sv, sr, si) ← stmtWithin n (t :: more)
    let (ss, issues, lead) ← programWithin n sr.tail
    return (sv.toList ++ ss, si ++ issues, if sv.isSome then some t.text else lead)

/-! ## Enough budget gives the parser's result -/

variable {α : Type} {ts : List Token}

/-- The value, cursor and issues a step ends with. -/
def Step.result (s : Step ts α) : α × List Token × List Issue := (s.value, s.rest, s.issues)

theorem Step.Gives.result {s : Step ts α} {v : α} {r : List Token} {i : List Issue}
    (h : s.Gives v r i) : s.result = (v, r, i) := by
  obtain ⟨rfl, rfl, rfl⟩ := h
  rfl

theorem paramsTailWithin_eq (n : Nat) (acc : List String) (ts : List Token)
    (h : ts.length + 1 ≤ n) : paramsTailWithin n acc ts = some (paramsTail acc ts).result := by
  induction n generalizing acc ts with
  | zero => omega
  | succ m ih =>
    rw [paramsTailWithin, paramsTail.eq_1]
    -- one case split on each cursor move settles the budgeted step's match and the
    -- parser's together
    rcases advance? .comma ts with _ | ⟨r, hr⟩
    · rcases advance? .rparen ts with _ | ⟨r, hr⟩ <;> rfl
    · dsimp only
      rcases advance? .ident r with _ | ⟨r2, hr2⟩
      · rfl
      · dsimp only
        rw [ih _ _ (by omega)]
        rfl

theorem paramsWithin_eq (n : Nat) (ts : List Token) (h : ts.length + 1 ≤ n) :
    paramsWithin n ts = some (params ts).result := by
  match n with
  | 0 => omega
  | m + 1 =>
    rw [paramsWithin, params.eq_1]
    rcases advance? .rparen ts with _ | ⟨r, hr⟩
    · rcases advance? .ident ts with _ | ⟨r, hr⟩
      · rfl
      · dsimp only
        rw [paramsTailWithin_eq m _ r (by omega)]
        rfl
    · rfl

/-- With the budget `n`, every step started on `ts` gives the parser's result once `n`
    covers `8 * ts.length` and the step's rank: the rank of its termination measure plus
    one. -/
structure Within (n : Nat) : Prop where
  stmts : ∀ ts, 8 * ts.length + 7 ≤ n → stmtsWithin n ts = some (stmts ts).result
  stmt : ∀ ts, 8 * ts.length + 6 ≤ n → stmtWithin n ts = some (stmt ts).result
  args : ∀ ts, 8 * ts.length + 6 ≤ n → argsWithin n ts = some (args ts).result
  expr : ∀ p ts, 8 * ts.length + 5 ≤ n → exprWithin n p ts = some (expr p ts).result
  operand : ∀ ts, 8 * ts.length + 4 ≤ n → operandWithin n ts = some (operand ts).result
  conditional : ∀ ts, 8 * ts.length + 3 ≤ n →
    conditionalWithin n ts = some (conditional ts).result
  function : ∀ ts, 8 * ts.length + 3 ≤ n → functionWithin n ts = some (function ts).result
  infixTail : ∀ p left ts, 8 * ts.length + 2 ≤ n →
    infixTailWithin n p left ts = some (infixTail p left ts).result
  argsTail : ∀ acc ts, 8 * ts.length + 1 ≤ n →
    argsTailWithin n acc ts = some (argsTail acc ts).result

theorem within_zero : Within 0 where
  stmts _ h := absurd h (by omega)
  stmt _ h := absurd h (by omega)
  args _ h := absurd h (by omega)
  expr _ _ h := absurd h (by omega)
  operand _ h := absurd h (by omega)
  conditional _ h := absurd h (by omega)
  function _ h := absurd h (by omega)
  infixTail _ _ _ h := absurd h (by omega)
  argsTail _ _ h := absurd h (by omega)

variable {m : Nat}

theorem stmtsWithin_succ (h : Within m) (ts : List Token) (hn : 8 * ts.length + 7 ≤ m + 1) :
    stmtsWithin (m + 1) ts = some (stmts ts).result := by
  match ts with
  | [] => rw [stmts_nil.result]; rfl
  | t :: more =>
    by_cases hr : t.kind = .rbrace
    · rw [(stmts_rbrace hr).result, stmtsWithin, if_pos hr]
    · have hle := (stmt (t :: more)).rest_le
      rw [(stmts_cons hr).result, stmtsWithin, if_neg hr, h.stmt _ (by simp at hn ⊢; omega)]
      simp only [Option.bind_eq_bind, Option.bind_some, Step.result]
      rw [h.stmts _ (by simp at hn hle ⊢; omega)]
      rfl

theorem stmtWithin_succ (h : Within m) (ts : List Token) (hn : 8 * ts.length + 6 ≤ m + 1) :
    stmtWithin (m + 1) ts = some (stmt ts).result := by
  match ts with
  | [] =>
    rw [stmt_nil.result, stmtWithin, h.expr _ _ (by simp; omega)]
    rfl
  | t :: more =>
    by_cases hl : t.kind = .kwLet
    · rw [stmtWithin, if_pos hl, stmt.eq_1, if_pos hl]
      rcases advance? .ident (t :: more) with _ | ⟨r1, hr1⟩
      · rfl
      · dsimp only
        rcases advance? .assign r1 with _ | ⟨r2, hr2⟩
        · rfl
        · dsimp only
          rw [h.expr _ _ (by simp at hn hr1 hr2 ⊢; omega)]
          rfl
    · by_cases hret : t.kind = .kwReturn
      · rw [(stmt_ret hret).result, stmtWithin, if_neg hl, if_pos hret,
          h.expr _ _ (by simp at hn ⊢; omega)]
        rfl
      · rw [(stmt_expr hl hret).result, stmtWithin, if_neg hl, if_neg hret,
          h.expr _ _ (by omega)]
        rfl

theorem exprWithin_succ (h : Within m) (p : Nat) (ts : List Token) (hn : 8 * ts.length + 5 ≤ m + 1) :
    exprWithin (m + 1) p ts = some (expr p ts).result := by
  rw [exprWithin]
  by_cases ho : (current ts).kind.startsOperand
  · have hle := (operand ts).rest_le
    rw [if_pos ho, (expr_operand ho).result, h.operand _ (by omega)]
    simp only [Option.bind_eq_bind, Option.bind_some, Step.result]
    rw [h.infixTail _ _ _ (by omega)]
    rfl
  · rw [if_neg ho, (expr_noOperand (Bool.eq_false_iff.2 ho)).result]

theorem operandWithin_succ (h : Within m) (ts : List Token) (hn : 8 * ts.length + 4 ≤ m + 1) :
    operandWithin (m + 1) ts = some (operand ts).result := by
  match ts with
  | [] => rw [operand.eq_1]; rfl
  | t :: more =>
    have hb : 8 * more.length + 5 ≤ m := by simp at hn; omega
    rw [operandWithin, operand.eq_2]
    cases hk : t.kind
    case int =>
      by_cases hv : digitsValue t.text ≤ intLiteralLimit
      · rw [if_pos hv, if_pos hv]; rfl
      · rw [if_neg hv, if_neg hv]; rfl
    case bang => rw [h.expr prefixPower more hb]; rfl
    case minus => rw [h.expr prefixPower more hb]; rfl
    case lparen =>
      rw [h.expr lowest more hb]
      simp only [Option.bind_eq_bind, Option.bind_some, Step.result]
      rcases advance? .rparen (expr lowest more).rest with _ | ⟨c, hc⟩ <;> rfl
    case kwIf => rw [h.conditional _ (by omega)]
    case kwFn => rw [h.function _ (by omega)]
    all_goals rfl

theorem conditionalWithin_succ (h : Within m) (ts : List Token)
    (hn : 8 * ts.length + 3 ≤ m + 1) :
    conditionalWithin (m + 1) ts = some (conditional ts).result := by
  rw [conditionalWithin, conditional.eq_1]
  rcases advance? .lparen ts with _ | ⟨r1, hr1⟩
  · rfl
  · dsimp only
    rw [h.expr lowest r1.tail (by simp; omega)]
    -- the parser takes the condition's step apart into its fields: with the step
    -- generalized, both sides reduce to the same fields
    generalize expr lowest r1.tail = c
    obtain ⟨cv, cr, ci, hc⟩ := c
    simp only [List.length_tail] at hc
    simp only [Option.bind_eq_bind, Option.bind_some, Step.result]
    rcases advance? .rparen cr with _ | ⟨r2, hr2⟩
    · rfl
    · dsimp only
      rcases advance? .lbrace r2 with _ | ⟨r3, hr3⟩
      · rfl
      · dsimp only
        rw [h.stmts r3.tail (by simp; omega)]
        generalize stmts r3.tail = b
        obtain ⟨bv, br, bi, hb⟩ := b
        simp only [List.length_tail] at hb
        simp only [Option.bind_some, Step.result]
        rcases advance? .kwElse br with _ | ⟨r4, hr4⟩
        · rfl
        · dsimp only
          rcases advance? .lbrace r4 with _ | ⟨r5, hr5⟩
          · rfl
          · dsimp only
            rw [h.stmts r5.tail (by simp; omega)]
            rfl

theorem functionWithin_succ (h : Within m) (ts : List Token) (hn : 8 * ts.length + 3 ≤ m + 1) :
    functionWithin (m + 1) ts = some (function ts).result := by
  rw [functionWithin, function.eq_1]
  rcases advance? .lparen ts with _ | ⟨r1, hr1⟩
  · rfl
  · dsimp only
    have hp := (params r1).rest_le
    rw [paramsWithin_eq m r1 (by omega)]
    simp only [Option.bind_eq_bind, Option.bind_some, Step.result]
    rcases (params r1).value with _ | names
    · rfl
    · dsimp only
      rcases advance? .lbrace (params r1).rest with _ | ⟨r2, hr2⟩
      · rfl
      · dsimp only
        rw [h.stmts r2.tail (by simp; omega)]
        rfl

theorem infixTailWithin_succ (h : Within m) (p : Nat) (left : Expr) (ts : List Token)
    (hn : 8 * ts.length + 2 ≤ m + 1) :
    infixTailWithin (m + 1) p left ts = some (infixTail p left ts).result := by
  match ts with
  | [] => rw [(infixTail_stop (by simp)).result]; rfl
  | [t] => rw [(infixTail_stop (by simp)).result]; rfl
  | t :: o :: more =>
    have hb : 8 * more.length + 6 ≤ m := by simp at hn; omega
    rw [infixTailWithin, infixTail.eq_1]
    by_cases hc : o.kind ≠ .semicolon ∧ p < o.kind.power
    · rw [if_pos hc, if_pos hc]
      by_cases hlp : o.kind = .lparen
      · rw [if_pos hlp, if_pos hlp, h.args more hb]
        have ha := (args more).rest_le
        generalize args more = a at ha
        obtain ⟨av, ar, ai, ha'⟩ := a
        simp only [Option.bind_eq_bind, Option.bind_some, Step.result]
        rw [h.infixTail _ _ ar (by omega)]
        rfl
      · rw [if_neg hlp, if_neg hlp]
        rcases o.kind.infixOp? with _ | op
        · rfl
        · dsimp only
          rw [h.expr o.kind.power more (by omega)]
          generalize expr o.kind.power more = r
          obtain ⟨rv, rr, ri, hr⟩ := r
          simp only [Option.bind_eq_bind, Option.bind_some, Step.result]
          rw [h.infixTail _ _ rr (by omega)]
          rfl
    · rw [if_neg hc, if_neg hc]; rfl

theorem argsWithin_succ (h : Within m) (ts : List Token) (hn : 8 * ts.length + 6 ≤ m + 1) :
    argsWithin (m + 1) ts = some (args ts).result := by
  match ts with
  | t :: more =>
    by_cases hr : t.kind = .rparen
    · rw [(args_close hr).result, argsWithin, if_pos hr]
    · have hle := (expr lowest (t :: more)).rest_le
      rw [(args_first hr).result, argsWithin, if_neg hr, h.expr _ _ (by omega)]
      simp only [Option.bind_eq_bind, Option.bind_some, Step.result]
      rw [h.argsTail _ _ (by omega)]
      rfl
  | [] =>
    have hle := (expr lowest []).rest_le
    rw [args_nil.result, argsWithin, h.expr _ _ (by simp; omega)]
    simp only [Option.bind_eq_bind, Option.bind_some, Step.result]
    rw [h.argsTail _ _ (by simp only [List.length_nil] at hle; omega)]
    rfl

theorem argsTailWithin_succ (h : Within m) (acc : List Expr) (ts : List Token)
    (hn : 8 * ts.length + 1 ≤ m + 1) :
    argsTailWithin (m + 1) acc ts = some (argsTail acc ts).result := by
  match ts with
  | [] => rw [(argsTail_bad (by simp)).result]; rfl
  | [t] => rw [(argsTail_bad (by simp)).result]; rfl
  | t :: c :: more =>
    by_cases hc : c.kind = .comma
    · have hle := (expr lowest more).rest_le
      rw [(argsTail_next hc).result, argsTailWithin, if_pos hc,
        h.expr _ _ (by simp at hn; omega)]
      simp only [Option.bind_eq_bind, Option.bind_some, Step.result]
      rw [h.argsTail _ _ (by simp at hn; omega)]
      rfl
    · by_cases hrp : c.kind = .rparen
      · rw [(argsTail_close hrp).result, argsTailWithin, if_neg hc, advance?_cons_cons hrp]
      · rw [(argsTail_bad (by simp [hc, hrp])).result, argsTailWithin, if_neg hc,
          advance?_eq_none_iff.2 (by simp [hrp])]

/-- A step given the budget `m + 1` makes its calls with the budget `m`, each on fewer
    tokens or of a lower rank, so what `m` covers carries over to `m + 1`. -/
theorem Within.succ (h : Within m) : Within (m + 1) where
  stmts := stmtsWithin_succ h
  stmt := stmtWithin_succ h
  args := argsWithin_succ h
  expr := exprWithin_succ h
  operand := operandWithin_succ h
  conditional := conditionalWithin_succ h
  function := functionWithin_succ h
  infixTail := infixTailWithin_succ h
  argsTail := argsTailWithin_succ h

/-- Every budget is enough for every step started on few enough tokens for its rank. -/
theorem within (n : Nat) : Within n := by
  induction n with
  | zero => exact within_zero
  | succ m ih => exact ih.succ

/-- A program of `L` tokens is read within `8 * L + 8` nested calls, and with any larger
    budget gives the same. -/
theorem programWithin_eq (n : Nat) (ts : List Token) (h : 8 * ts.length + 8 ≤ n) :
    programWithin n ts = some (program ts) := by
  induction n generalizing ts with
  | zero => omega
  | succ m ih =>
    match ts with
    | [] => rw [program.eq_1]; rfl
    | t :: more =>
      have hle := (stmt (t :: more)).rest_le
      rw [program_cons, programWithin, (within m).stmt _ (by simp at h ⊢; omega)]
      simp only [Option.bind_eq_bind, Option.bind_some, Step.result]
      rw [ih _ (by simp at h hle ⊢; omega)]
      rfl

end Sugiru.Parser

namespace Sugiru

/-- Parsing a text of `L` tokens ends within `8 * L + 8` nested calls of the parser's
    steps, whatever the text: every loop turn and every nested call past the first token
    of a construct comes after a token was consumed, and at the end of the input every
    step returns at once. Every budget at least that large gives `Program.parse`. -/
theorem Program.parse_within (s : String) (n : Nat) (h : 8 * (Token.scan s).length + 8 ≤ n) :
    (Parser.programWithin n (Token.scan s)).map
        (fun (stmts, issues, lead) => (⟨⟨stmts⟩, issues, lead.getD ""⟩ : Parsed)) =
      some (Program.parse s) := by
  rw [Parser.programWithin_eq n _ h]
  rfl

/-- A function literal bound by a `let` and called: its 21 tokens are read within 176
    nested calls. -/
theorem Program.parse_within_fn :
    8 * (Token.scan "let add = fn(a, b) \x7b a + b \x7d; add(1, 2)").length + 8 ≤ 176 ∧
      (Parser.programWithin 176 (Token.scan "let add = fn(a, b) \x7b a + b \x7d; add(1, 2)")).map
          (fun (stmts, issues, lead) => (⟨⟨stmts⟩, issues, lead.getD ""⟩ : Parsed)) =
        some (Program.parse "let add = fn(a, b) \x7b a + b \x7d; add(1, 2)") := by
  have h : 8 * (Token.scan "let add = fn(a, b) \x7b a + b \x7d; add(1, 2)").length + 8 ≤ 176 := by
    cbv
  exact ⟨h, Program.parse_within _ 176 h⟩

end Sugiru
