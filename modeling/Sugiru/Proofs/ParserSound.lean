import Sugiru.Proofs.ParserComplete

/-!
# What the parser reads is a derivation

Soundness of the parser for the grammar of `Sugiru.Grammar`: a step that meets no issue has
read a run of the grammar, and its value is that run's tree. A step of the expression
parser read at power `p` returns an expression of level `levelAt p` followed by a token
that does not continue level `p - 1` (`Reads`): precedence climbing stops exactly where the
grammar says the expression cannot go on.

The steps call each other on the same token list or a shorter one: `expr` calls `operand`
and `infixTail` on its own input, `operand` calls `conditional` and `function`, `stmts`
calls `stmt`. The proof follows the parser's own termination measure: by strong induction
on the length of the input, and at each length in the order of the steps' ranks
(`sound_of_length`).

Main results:

* `Derives.lower`, `Args.of_more`, `Params.of_more`, `block_of_stmts`: building derivations
  from the pieces the parser reads.
* `params_sound`: parameter lists.
* `sound`: every step that meets no issue has read a derivation.
-/

namespace Sugiru.Grammar

open Sugiru.Parser

variable {α : Type}

/-! ## Levels, runs and what follows them -/

/-- The grammar level of an expression the parser reads at power `p`: a right operand of an
    operator of level `l` is read at power `l + 2` and has level `l + 1`; the operand of a
    prefix operator is read at power 6 and has level 4. -/
def levelAt (p : Nat) : Nat := min (p - 1) 4

/-- The token list `ts` starts with an expression of level `n` with tree `e`, which the
    cursor `r` stands after and which no token continuing level `m` follows. -/
def Reads (n m : Nat) (ts : List Token) (e : Expr) (r : List Token) : Prop :=
  ∃ xs ys k, ts = xs ++ ys ∧ Derives n xs e k ∧ r = cursorAfter xs ys k.isOpen ∧
    Follows m k ys

/-- An operator that binds tighter than `p` has a level at least `levelAt p`. -/
theorem levelAt_le_of_power {p l : Nat} {t : Token} (hl : binLevel? t.kind = some l)
    (hp : p < t.kind.power) : levelAt p ≤ l := by
  rw [power_of_binLevel hl] at hp
  unfold levelAt
  omega

/-- A token the loop at power `p` does not take does not continue level `p - 1`. -/
theorem not_continues_of_stop {p : Nat} {t : Token} (hp : 1 ≤ p) (hp6 : p ≤ 6)
    (h : t.kind = .semicolon ∨ t.kind.power ≤ p) : ¬ Continues (p - 1) t := by
  rcases h with h | h
  · exact not_continues_of_binLevel (by simp [h, binLevel?]) (by simp [h])
  · intro hc
    have := (continues_iff_power (by omega)).1 hc
    omega

/-- Every token that binds tighter than the lowest power is `(` or a binary operator. -/
theorem lparen_or_infixOp {k : TokenKind} (h : 1 < k.power) :
    k = .lparen ∨ ∃ op, k.infixOp? = some op := by
  cases k <;> simp_all [TokenKind.power, TokenKind.infixOp?]

theorem startsOperand_cases {k : TokenKind} (h : k.startsOperand = true) :
    k = .ident ∨ k = .int ∨ k = .kwTrue ∨ k = .kwFalse ∨ k = .bang ∨ k = .minus ∨
      k = .lparen ∨ k = .kwIf ∨ k = .kwFn := by
  cases k <;> simp_all [TokenKind.startsOperand]

theorem Reads.tail {n m : Nat} {ts r : List Token} {e : Expr} (h : Reads n m ts e r) :
    ∃ xs ys k, ts = xs ++ ys ∧ Derives n xs e k ∧ r = cursorAfter xs ys k.isOpen ∧
      Follows m k ys ∧ r.tail = ys := by
  obtain ⟨xs, ys, k, rfl, D, rfl, hf⟩ := h
  exact ⟨xs, ys, k, rfl, D, rfl, hf,
    tail_cursorAfter D.ne_nil _ fun hk => hf.1 (Ending.isOpen_eq_true.1 hk)⟩

/-! ## Argument and parameter lists

After the first argument of a call, or the first name of a parameter list, comes either the
closing `)` or a `,` and the rest of the list. -/

/-- What follows the first argument of a call: `)`, or `,` and more arguments. -/
def MoreArgs (xs : List Token) (as : List Expr) : Prop :=
  (∃ rp, xs = [rp] ∧ rp.kind = .rparen ∧ as = []) ∨
    (∃ c ys, xs = c :: ys ∧ c.kind = .comma ∧ Args ys as ∧ as ≠ [])

theorem Args.of_more {xs ys : List Token} {e : Expr} {as : List Expr} {k : Ending}
    (D : Derives 0 xs e k) (hk : k ≠ .unclosed) (M : MoreArgs ys as) :
    Args (xs ++ ys) (e :: as) := by
  rcases M with ⟨rp, rfl, hrp, rfl⟩ | ⟨c, ys, rfl, hc, A, hne⟩
  · exact .one D hk hrp
  · exact .cons D hk hc A hne

/-- What follows the first name of a parameter list: `)`, or `,` and more names. -/
def MoreParams (xs : List Token) (names : List String) : Prop :=
  (∃ rp, xs = [rp] ∧ rp.kind = .rparen ∧ names = []) ∨
    (∃ c ys, xs = c :: ys ∧ c.kind = .comma ∧ Params ys names ∧ names ≠ [])

theorem Params.of_more {x : Token} {xs : List Token} {names : List String}
    (hx : x.kind = .ident) (M : MoreParams xs names) : Params (x :: xs) (x.text :: names) := by
  rcases M with ⟨rp, rfl, hrp, rfl⟩ | ⟨c, ys, rfl, hc, P, hne⟩
  · exact .one hx hrp
  · exact .cons hx hc P hne

theorem MoreParams.ne_nil {xs : List Token} {names : List String} (M : MoreParams xs names) :
    xs ≠ [] := by
  rcases M with ⟨rp, rfl, -⟩ | ⟨c, ys, rfl, -⟩ <;> simp

/-- The names after the first one, read up to the closing `)`. -/
theorem paramsTail_sound (acc : List String) (ts : List Token)
    (h : (paramsTail acc ts).issues = []) :
    ∃ xs ys names, ts.tail = xs ++ ys ∧ MoreParams xs names ∧
      (paramsTail acc ts).value = some (acc ++ names) ∧
      (paramsTail acc ts).rest = cursorAfter xs ys false := by
  match ts with
  | [] =>
    have hb : (paramsTail acc []).Gives _ _ _ := paramsTail_bad (by simp)
    exact absurd (hb.issues_nil h) (by simp)
  | [z] =>
    have hb : (paramsTail acc [z]).Gives _ _ _ := paramsTail_bad (by simp)
    exact absurd (hb.issues_nil h) (by simp)
  | z :: c :: more =>
    by_cases hc : c.kind = .comma
    · -- a name must follow the comma
      match more, h with
      | x :: more, h =>
        by_cases hx : x.kind = .ident
        · have hs : (paramsTail acc (z :: c :: x :: more)).Same _ := paramsTail_next hc hx
          obtain ⟨xs, ys, names, rfl, M, hv, hr⟩ :=
            paramsTail_sound (acc ++ [x.text]) (x :: more) (hs.2.2 ▸ h)
          refine ⟨c :: x :: xs, ys, x.text :: names, rfl,
            .inr ⟨c, _, rfl, hc, Params.of_more hx M, by simp⟩, by simp [hs.1, hv], ?_⟩
          rw [hs.2.1, hr, cursorAfter_cons _ _ _ (List.cons_ne_nil _ _),
            cursorAfter_cons _ _ _ M.ne_nil]
        · have hb : (paramsTail acc (z :: c :: x :: more)).Gives _ _ _ :=
            paramsTail_noName hc (by simpa using hx)
          exact absurd (hb.issues_nil h) (by simp)
      | [], h =>
        have hb : (paramsTail acc [z, c]).Gives _ _ _ := paramsTail_noName hc (by simp)
        exact absurd (hb.issues_nil h) (by simp)
    · by_cases hrp : c.kind = .rparen
      · have hs : (paramsTail acc (z :: c :: more)).Gives _ _ _ := paramsTail_close hrp
        exact ⟨[c], more, [], rfl, .inl ⟨c, rfl, hrp, rfl⟩, by simp [hs.1],
          by simp [hs.2.1, cursorAfter]⟩
      · have hb : (paramsTail acc (z :: c :: more)).Gives _ _ _ :=
          paramsTail_bad (by simp [hc, hrp])
        exact absurd (hb.issues_nil h) (by simp)
termination_by ts.length

/-- A parameter list, read from its `(` up to its `)`. -/
theorem params_sound (ts : List Token) (h : (params ts).issues = []) :
    ∃ xs ys names, ts.tail = xs ++ ys ∧ Params xs names ∧ (params ts).value = some names ∧
      (params ts).rest = cursorAfter xs ys false := by
  match ts with
  | lp :: x :: more =>
    by_cases hrp : x.kind = .rparen
    · have hs : (params (lp :: x :: more)).Gives _ _ _ := params_empty hrp
      exact ⟨[x], more, [], rfl, .nil hrp, hs.1, by simp [hs.2.1, cursorAfter]⟩
    · by_cases hx : x.kind = .ident
      · have hs : (params (lp :: x :: more)).Same _ := params_first hx
        obtain ⟨xs, ys, names, rfl, M, hv, hr⟩ :=
          paramsTail_sound [x.text] (x :: more) (hs.2.2 ▸ h)
        exact ⟨x :: xs, ys, x.text :: names, rfl, Params.of_more hx M, by simp [hs.1, hv],
          by rw [hs.2.1, hr, cursorAfter_cons _ _ _ M.ne_nil]⟩
      · have hb : (params (lp :: x :: more)).Gives _ _ _ := params_bad (by simp [hrp, hx])
        exact absurd (hb.issues_nil h) (by simp)
  | [lp] =>
    have hb : (params [lp]).Gives _ _ _ := params_bad (by simp)
    exact absurd (hb.issues_nil h) (by simp)
  | [] =>
    have hb : (params []).Gives _ _ _ := params_bad (by simp)
    exact absurd (hb.issues_nil h) (by simp)

/-! ## Soundness of each step on one token list -/

/-- `expr p` read an expression of level `levelAt p`, which no token continuing level
    `p - 1` follows. -/
def ExprSound (ts : List Token) : Prop :=
  ∀ p, 1 ≤ p → p ≤ 6 → (expr p ts).issues = [] →
    Reads (levelAt p) (p - 1) ts (expr p ts).value (expr p ts).rest

/-- The operator loop, started after an expression of level `m` read from `ts0`, ends after
    an expression of level `levelAt p`. -/
def InfixSound (ts : List Token) : Prop :=
  ∀ p m ts0 left, 1 ≤ p → p ≤ 6 → levelAt p ≤ m → m ≤ 5 →
    Reads m (m + 1) ts0 left ts →
    (infixTail p left ts).issues = [] →
    Reads (levelAt p) (p - 1) ts0 (infixTail p left ts).value (infixTail p left ts).rest

/-- `operand` read an atom, or a prefix operator and its operand. -/
def OperandSound (ts : List Token) : Prop :=
  (current ts).kind.startsOperand = true → (operand ts).issues = [] →
    ∃ m, 4 ≤ m ∧ m ≤ 5 ∧ Reads m (m + 1) ts (operand ts).value (operand ts).rest

/-- `conditional` read an `if` expression. -/
def CondSound (ts : List Token) : Prop :=
  (current ts).kind = .kwIf → (conditional ts).issues = [] →
    Reads 5 6 ts (conditional ts).value (conditional ts).rest

/-- `function` read a function literal. -/
def FnSound (ts : List Token) : Prop :=
  (current ts).kind = .kwFn → (function ts).issues = [] →
    Reads 5 6 ts (function ts).value (function ts).rest

/-- `args` read the arguments of a call up to its `)`. -/
def ArgsSound (ts : List Token) : Prop :=
  (args ts).issues = [] → ∃ xs ys as, ts = xs ++ ys ∧ Args xs as ∧
    (args ts).value = some as ∧ (args ts).rest = cursorAfter xs ys false

/-- `argsTail` read the arguments after the first one up to the `)`. -/
def ArgsTailSound (ts : List Token) : Prop :=
  ∀ acc, (argsTail acc ts).issues = [] → ∃ xs ys as, ts.tail = xs ++ ys ∧ MoreArgs xs as ∧
    (argsTail acc ts).value = some (acc ++ as) ∧
    (argsTail acc ts).rest = cursorAfter xs ys false

/-- `stmt` read a statement, which no token continuing its expression follows. -/
def StmtSound (ts : List Token) : Prop :=
  (stmt ts).issues = [] → ∃ s xs ys u, (stmt ts).value = some s ∧ ts = xs ++ ys ∧
    Statement xs s u ∧ (stmt ts).rest = skipSemicolon (cursorAfter xs ys u) ∧
    (u → ys = []) ∧
    ∀ y ∈ ys.head?, ¬ Continues 0 y

/-- `stmts` read statements up to a `}` or the end of the input. -/
def StmtsSound (ts : List Token) : Prop :=
  (stmts ts).issues = [] → ∃ xs ys u, ts = xs ++ ys ∧ Statements xs (stmts ts).value u ∧
    (stmts ts).rest = ys ∧ (u → ys = []) ∧ ∀ y ∈ ys.head?, y.kind = .rbrace

/-- Every step is sound on `ts`. -/
structure Sound (ts : List Token) : Prop where
  infixTail : InfixSound ts
  argsTail : ArgsTailSound ts
  conditional : CondSound ts
  function : FnSound ts
  operand : OperandSound ts
  expr : ExprSound ts
  args : ArgsSound ts
  stmt : StmtSound ts
  stmts : StmtsSound ts

theorem ExprSound.at_lowest {ts : List Token} (h : ExprSound ts)
    (hi : (expr lowest ts).issues = []) :
    Reads 0 0 ts (expr lowest ts).value (expr lowest ts).rest :=
  h lowest (by decide) (by decide) hi

theorem ExprSound.at_prefix {ts : List Token} (h : ExprSound ts)
    (hi : (expr prefixPower ts).issues = []) :
    Reads 4 5 ts (expr prefixPower ts).value (expr prefixPower ts).rest :=
  h prefixPower (by decide) (by decide) hi

theorem Reads.of_same {n m : Nat} {ts ts0 ts' : List Token} {s : Step ts Expr}
    {s' : Step ts' Expr} (h : s.Same s') (hr : Reads n m ts0 s'.value s'.rest) :
    Reads n m ts0 s.value s.rest := by
  rw [h.1, h.2.1]
  exact hr

theorem MoreArgs.ne_nil {xs : List Token} {as : List Expr} (M : MoreArgs xs as) : xs ≠ [] := by
  rcases M with ⟨rp, rfl, -⟩ | ⟨c, ys, rfl, -⟩ <;> simp

theorem follows_six_closed (ys : List Token) : Follows 6 .closed ys :=
  ⟨(fun h => nomatch h), fun y _ => ⟨not_continues_six y, fun h => nomatch h⟩⟩

theorem expr_nil_issues (p : Nat) : (expr p []).issues ≠ [] := by
  have hg : (expr p []).Gives _ _ _ := expr_noOperand (by rfl)
  rw [hg.2.2]
  simp

/-- A token list either starts with a token of kind `k` or it does not. -/
theorem head_kind_cases (l : List Token) (k : TokenKind) :
    (∃ t rest, l = t :: rest ∧ t.kind = k) ∨ ∀ u ∈ l.head?, u.kind ≠ k := by
  cases l with
  | nil => exact .inr (by simp)
  | cons t rest =>
    by_cases h : t.kind = k
    · exact .inl ⟨t, rest, rfl, h⟩
    · exact .inr (by simpa using h)

/-- The statements read after a `{` form a block: closed by the `}` the reading stopped on,
    or left open at the end of the input. -/
theorem block_of_stmts {lb : Token} {ws ys : List Token} {ss : List Stmt} {u : Bool}
    (hlb : lb.kind = .lbrace) (S : Statements ws ss u) (hu : u → ys = [])
    (hy : ∀ y ∈ ys.head?, y.kind = .rbrace) :
    ∃ bs zs v, lb :: (ws ++ ys) = bs ++ zs ∧ Block bs ss v ∧ ys = cursorAfter bs zs v ∧
      (v → zs = []) := by
  cases ys with
  | nil => exact ⟨lb :: ws, [], true, by simp, .unclosed hlb S, rfl, fun _ => rfl⟩
  | cons rb zs =>
    obtain rfl : u = false := by cases u <;> simp_all
    exact ⟨lb :: ws ++ [rb], zs, false, by simp, .closed hlb (hy rb rfl) S,
      (cursorAfter_append_singleton _ _ _).symm, nofun⟩

theorem follows_ofBlock {v : Bool} {zs : List Token} (hv : v → zs = []) :
    Follows 6 (.ofBlock v) zs :=
  ⟨fun h => hv (by cases v <;> simp_all [Ending.ofBlock]),
    fun y _ => ⟨not_continues_six y, by cases v <;> simp [Ending.ofBlock]⟩⟩

/-- An `if` whose condition is closed by `)` and followed by `{` meets the issues of its
    condition and of its `then` block first. -/
theorem conditional_issues {i lp rp lb : Token} {more rest : List Token}
    (hlp : lp.kind = .lparen) (hct : (expr lowest more).rest.tail = rp :: lb :: rest)
    (hrp : rp.kind = .rparen) (hlb : lb.kind = .lbrace)
    (h : (conditional (i :: lp :: more)).issues = []) :
    (expr lowest more).issues = [] ∧ (stmts rest).issues = [] := by
  rcases head_kind_cases (stmts rest).rest.tail .kwElse with ⟨el, rest4, hst, hel⟩ | hne
  · rcases head_kind_cases rest4 .lbrace with ⟨lb', rest5, rfl, hlb'⟩ | hnb'
    · have hg : (conditional (i :: lp :: more)).Gives _ _ _ :=
        conditional_else hlp hct hrp hlb hst hel hlb'
      exact List.append_eq_nil_iff.1 (hg.issues_append h).1
    · have hg : (conditional (i :: lp :: more)).Gives _ _ _ :=
        conditional_noElseBlock hlp hct hrp hlb hst hel hnb'
      exact List.append_eq_nil_iff.1 (hg.issues_append h).1
  · have hg : (conditional (i :: lp :: more)).Gives _ _ _ := conditional_noElse hlp hct hrp hlb hne
    exact hg.issues_append h

/-- A statement read over `xs`, with the reading stopped after it or past its `;`, followed by
    statements read over `ws` from there: together they are statements. -/
theorem Statements.cons_of_read {s : Stmt} {ss : List Stmt} {xs ys ws zs : List Token}
    {u v : Bool} (St : Statement xs s u) (hu : u → ys = [])
    (hy : ∀ y ∈ ys.head?, ¬ Continues 0 y)
    (hws : (skipSemicolon (cursorAfter xs ys u)).tail = ws ++ zs) (S : Statements ws ss v)
    (hv : v → zs = []) :
    ∃ w, xs ++ ys = w ++ zs ∧ Statements w (s :: ss) (u || v) ∧ (u → zs = []) := by
  cases u with
  | true =>
    -- the statement ran to the end of the input
    obtain rfl := hu rfl
    rw [cursorAfter_open, skipSemicolon_nil, List.tail_nil] at hws
    obtain ⟨rfl, rfl⟩ := List.append_eq_nil_iff.1 hws.symm
    obtain ⟨rfl, -⟩ := S.nil_eq rfl
    exact ⟨xs, by simp, .last St, fun _ => rfl⟩
  | false =>
    rw [cursorAfter_closed St.ne_nil] at hws
    rcases head_kind_cases ys .semicolon with ⟨sc, ys, rfl, hsc⟩ | hns
    · -- a `;` closes the statement
      rw [skipSemicolon_of_semicolon hsc, List.tail_cons] at hws
      subst hws
      exact ⟨xs ++ sc :: ws, by simp, .semi St hsc S, fun h => absurd h Bool.false_ne_true⟩
    · -- the next statement starts right after this one
      rw [skipSemicolon_of_not_semicolon hns, List.tail_cons] at hws
      subst hws
      have hsep : Separates ws := by
        intro y hy''
        have hys : y ∈ (ws ++ zs).head? := by
          cases ws with
          | nil => exact absurd hy'' (by simp)
          | cons w ws => simpa using hy''
        exact ⟨hy y hys, hns y hys⟩
      exact ⟨xs ++ ws, by simp, .cons St hsep S, fun h => absurd h Bool.false_ne_true⟩

/-! ## The steps, one rank at a time

Each lemma proves one step sound on `ts` from the soundness of every step on shorter lists
(`ih`) and of the steps of lower rank on lists of the same length. -/

section Steps

variable {ts : List Token} (ih : ∀ ts', ts'.length < ts.length → Sound ts')
include ih

theorem argsTail_sound_step : ArgsTailSound ts := by
  intro acc h
  match ts, ih with
  | [], _ =>
    have hb : (argsTail acc []).Gives _ _ _ := argsTail_bad (by simp)
    exact absurd (hb.issues_nil h) (by simp)
  | [z], _ =>
    have hb : (argsTail acc [z]).Gives _ _ _ := argsTail_bad (by simp)
    exact absurd (hb.issues_nil h) (by simp)
  | z :: c :: more, ih =>
    by_cases hc : c.kind = .comma
    · have hg : (argsTail acc (z :: c :: more)).Gives _ _ _ := argsTail_next hc
      obtain ⟨hei, hti⟩ := hg.issues_append h
      obtain ⟨xs, ys, k, rfl, D, hr, hf, hys⟩ :=
        ((ih more (by simp only [List.length_cons]; omega)).expr.at_lowest hei).tail
      have hlen : ((expr lowest (xs ++ ys)).rest).length < (z :: c :: (xs ++ ys)).length := by
        have := (expr lowest (xs ++ ys)).rest_le
        simp only [List.length_cons] at *
        omega
      obtain ⟨xs', ys', as, hys', M, hv, hr'⟩ := (ih _ hlen).argsTail _ hti
      rw [hys] at hys'
      subst hys'
      have hk : k ≠ .unclosed := fun hk => M.ne_nil (List.append_eq_nil_iff.1 (hf.1 hk)).1
      refine ⟨c :: (xs ++ xs'), ys', _ :: as, by simp, .inr ⟨c, _, rfl, hc,
        Args.of_more D hk M, by simp⟩, by simp [hg.1, hv], ?_⟩
      rw [hg.2.1, hr', cursorAfter_cons _ _ _ (by simp [M.ne_nil]),
        cursorAfter_append _ _ _ M.ne_nil]
    · by_cases hrp : c.kind = .rparen
      · have hg : (argsTail acc (z :: c :: more)).Gives _ _ _ := argsTail_close hrp
        exact ⟨[c], more, [], rfl, .inl ⟨c, rfl, hrp, rfl⟩, by simp [hg.1],
          by simp [hg.2.1, cursorAfter]⟩
      · have hb : (argsTail acc (z :: c :: more)).Gives _ _ _ := argsTail_bad (by simp [hc, hrp])
        exact absurd (hb.issues_nil h) (by simp)

/-- The operator loop: each operator it takes binds no looser than `p` and no tighter than
    the level of the left operand allows, so the left operand keeps a derivation. -/
theorem infixTail_sound_step : InfixSound ts := by
  intro p m ts0 left hp1 hp6 hpm hm5 hr h
  obtain ⟨xs0, ys0, k0, rfl, D0, rfl, hf0, htail⟩ := hr.tail
  match ys0, ih, h, hf0, htail with
  | [], _, h, _, htail =>
    -- the loop stops at the end of the input
    have hs : (infixTail p left (cursorAfter xs0 [] k0.isOpen)).Gives _ _ _ :=
      infixTail_stop (by simp [htail])
    rw [hs.1, hs.2.1]
    exact ⟨xs0, [], k0, rfl, D0.lower hpm hm5, rfl, fun _ => rfl, by simp⟩
  | o :: more, ih, h, hf0, _ =>
    have hk0 : k0 ≠ .unclosed := fun hk => nomatch hf0.1 hk
    have hc0 : cursorAfter xs0 (o :: more) false = xs0.getLast D0.ne_nil :: o :: more :=
      cursorAfter_closed D0.ne_nil
    rw [Ending.isOpen_eq_false hk0, hc0] at ih h ⊢
    have hlen : ∀ r : List Token, r.length ≤ more.length →
        r.length < (xs0.getLast D0.ne_nil :: o :: more).length := by
      intro r hr
      simp only [List.length_cons]
      omega
    have ho := hf0.2 o (by simp)
    by_cases hgo : o.kind ≠ .semicolon ∧ p < o.kind.power
    · rcases lparen_or_infixOp (by omega : 1 < o.kind.power) with hlp | ⟨op, hop⟩
      · -- a call: the left operand is an atom or a call, of level 5
        have hm : m = 5 := by
          have : ¬ m + 1 ≤ 5 := fun hle => ho.1 (.inr ⟨hlp, hle⟩)
          omega
        subst hm
        have hg : (infixTail p left (xs0.getLast D0.ne_nil :: o :: more)).Gives _ _ _ :=
          infixTail_call hlp (by omega)
        have hai := (hg.issues_append h).1
        obtain ⟨xs, ys, as, rfl, A, hv, har⟩ := (ih more (hlen more (Nat.le_refl _))).args hai
        have hs : (infixTail p left (xs0.getLast D0.ne_nil :: o :: (xs ++ ys))).Same _ :=
          infixTail_call_of hlp (by omega) ⟨hv, har, hai⟩
        have hlen' := hlen _ (length_cursorAfter_le xs ys false)
        exact Reads.of_same hs ((ih _ hlen').infixTail p 5 _ (left.call as) hp1 hp6 hpm
          (Nat.le_refl 5) ⟨xs0 ++ o :: xs, ys, .closed, by simp, .call hlp D0 hk0 A, by
            rw [cursorAfter_append _ _ _ (List.cons_ne_nil _ _), cursorAfter_cons _ _ _ A.ne_nil]
            rfl, follows_six_closed ys⟩ (hs.2.2 ▸ h))
      · -- a binary operator of level `l`: the left operand lifts to level `l`, the right
        -- operand is read at level `l + 1`
        obtain ⟨l, hlev⟩ := binLevel_of_infixOp? hop
        have hlm : l ≤ m := by
          have : ¬ m + 1 ≤ l := fun hle => ho.1 (.inl ⟨l, hlev, hle⟩)
          omega
        have hpow := power_of_binLevel hlev
        have hl3 := binLevel_le hlev
        have hg : (infixTail p left (xs0.getLast D0.ne_nil :: o :: more)).Gives _ _ _ :=
          infixTail_binary hop hgo.2
        obtain ⟨hei, hti⟩ := hg.issues_append h
        obtain ⟨xs, ys, kr, rfl, Dr, hrr, hfr⟩ :=
          (ih more (hlen more (Nat.le_refl _))).expr o.kind.power (by omega) (by omega) hei
        rw [show levelAt o.kind.power = l + 1 by unfold levelAt; omega] at Dr
        rw [show o.kind.power - 1 = l + 1 by omega] at hfr
        have hs : (infixTail p left (xs0.getLast D0.ne_nil :: o :: (xs ++ ys))).Same _ :=
          infixTail_binary_of hop hgo.2 ⟨rfl, rfl, hei⟩
        exact Reads.of_same hs ((ih _ (hlen _ (expr o.kind.power (xs ++ ys)).rest_le)).infixTail
          p l _ _ hp1 hp6 (levelAt_le_of_power hlev hgo.2) (by omega)
          ⟨xs0 ++ o :: xs, ys, kr, by simp, .binary hlev hop (D0.lower hlm hm5) hk0 Dr, by
            rw [hrr, cursorAfter_append _ _ _ (List.cons_ne_nil _ _),
              cursorAfter_cons _ _ _ Dr.ne_nil], hfr⟩ (hs.2.2 ▸ h))
    · -- the loop stops before `o`, which does not continue level `p - 1`
      have hstop : o.kind = .semicolon ∨ o.kind.power ≤ p := by
        by_cases hsc : o.kind = .semicolon
        · exact .inl hsc
        · exact .inr (Nat.le_of_not_lt fun hlt => hgo ⟨hsc, hlt⟩)
      have hs : (infixTail p left (xs0.getLast D0.ne_nil :: o :: more)).Gives _ _ _ :=
        infixTail_stop (by simpa using hstop)
      rw [hs.1, hs.2.1, ← hc0]
      exact ⟨xs0, o :: more, k0, rfl, D0.lower hpm hm5, by rw [Ending.isOpen_eq_false hk0],
        fun hk => absurd hk hk0, by simpa using ⟨not_continues_of_stop hp1 hp6 hstop, ho.2⟩⟩

/-- An `if` expression: its condition is a whole expression closed by `)`, and its blocks
    are read by `stmts`. -/
theorem conditional_sound_step : CondSound ts := by
  intro hi h
  match ts, ih, hi, h with
  | [], _, hi, _ => exact absurd hi (by simp [current, Token.eof])
  | [i], _, _, h =>
    have hb : (conditional [i]).Gives _ _ _ := conditional_noParen (by simp)
    exact absurd (hb.issues_nil h) (by simp)
  | i :: lp :: more, ih, hi, h =>
    have hshort : ∀ r : List Token, r.length ≤ more.length →
        r.length < (i :: lp :: more).length := by
      intro r hr
      simp only [List.length_cons]
      omega
    by_cases hlp : lp.kind = .lparen
    · rcases head_kind_cases (expr lowest more).rest.tail .rparen with
        ⟨rp, rest, hct, hrp⟩ | hno
      · rcases head_kind_cases rest .lbrace with ⟨lb, rest, rfl, hlb⟩ | hnb
        · -- the condition and the `then` block are read
          obtain ⟨hci, hsi⟩ := conditional_issues hlp hct hrp hlb h
          obtain ⟨cs, ys, kc, rfl, Dc, -, hfc, hys⟩ :=
            ((ih more (hshort more (Nat.le_refl _))).expr.at_lowest hci).tail
          rw [hct] at hys
          subst hys
          have hkc : kc ≠ .unclosed := fun hk => nomatch hfc.1 hk
          have hrl : rest.length ≤ (cs ++ rp :: lb :: rest).length := by
            simp only [List.length_append, List.length_cons]
            omega
          obtain ⟨ws, zs, u, rfl, S, hsr, hu, hy⟩ := (ih rest (hshort rest hrl)).stmts hsi
          rcases head_kind_cases (stmts (ws ++ zs)).rest.tail .kwElse with
            ⟨el, rest4, hst, hel⟩ | hne
          · rcases head_kind_cases rest4 .lbrace with ⟨lb', rest5, rfl, hlb'⟩ | hnb'
            · -- `else` and its block: the `then` block was closed by a `}`
              have hg : (conditional (i :: lp :: (cs ++ rp :: lb :: (ws ++ zs)))).Gives _ _ _ :=
                conditional_else hlp hct hrp hlb hst hel hlb'
              rw [hsr] at hst
              obtain ⟨rb, rfl⟩ : ∃ rb, zs = rb :: el :: lb' :: rest5 := by
                cases zs with
                | nil => exact nomatch hst
                | cons rb zs => exact ⟨rb, by rw [List.tail_cons] at hst; rw [hst]⟩
              obtain rfl : u = false := by cases u <;> simp_all
              have hr5 : rest5.length < (i :: lp :: (cs ++ rp :: lb ::
                  (ws ++ rb :: el :: lb' :: rest5))).length := by
                simp only [List.length_append, List.length_cons]
                omega
              obtain ⟨ws5, zs5, u5, rfl, S5, hsr5, hu5, hy5⟩ :=
                (ih _ hr5).stmts (List.append_eq_nil_iff.1 (hg.issues_nil h)).2
              obtain ⟨es, zs', v, hes, B', hcur, hv⟩ := block_of_stmts hlb' S5 hu5 hy5
              rw [hg.1, hg.2.1, hsr5]
              refine ⟨i :: lp :: cs ++ rp :: (lb :: ws ++ [rb]) ++ el :: es, zs', .ofBlock v,
                by simp [← hes], .atom (.condElse hi hlp hrp Dc hkc
                  (.closed hlb (hy rb rfl) S) hel B'), ?_, follows_ofBlock hv⟩
              rw [Ending.isOpen_ofBlock, cursorAfter_append _ _ _ (List.cons_ne_nil _ _),
                cursorAfter_cons _ _ _ B'.ne_nil]
              exact hcur
            · have hb : (conditional (i :: lp :: (cs ++ rp :: lb :: (ws ++ zs)))).Gives _ _ _ :=
                conditional_noElseBlock hlp hct hrp hlb hst hel hnb'
              exact absurd (hb.issues_nil h) (by simp)
          · -- no `else`: the `if` is dangling unless its block was left open
            have hg : (conditional (i :: lp :: (cs ++ rp :: lb :: (ws ++ zs)))).Gives _ _ _ :=
              conditional_noElse hlp hct hrp hlb hne
            obtain ⟨bs, zs', v, hbs, B, hcur, hv⟩ := block_of_stmts hlb S hu hy
            rw [hg.1, hg.2.1, hsr]
            refine ⟨i :: lp :: cs ++ rp :: bs, zs', if v then .unclosed else .dangling,
              by simp [← hbs], .atom (.cond hi hlp hrp Dc hkc B), ?_, ?_⟩
            · rw [Ending.isOpen_ite, cursorAfter_append _ _ _ (List.cons_ne_nil _ _),
                cursorAfter_cons _ _ _ B.ne_nil]
              exact hcur
            · refine ⟨fun hk => hv (by cases v <;> simp_all),
                fun y hy' => ⟨not_continues_six y, fun hd => ?_⟩⟩
              obtain rfl : v = false := by cases v <;> simp_all
              rw [hsr, hcur, tail_cursorAfter B.ne_nil false (by simp)] at hne
              exact hne y hy'
        · have hb : (conditional (i :: lp :: more)).Gives _ _ _ :=
            conditional_noBlock hlp hct hrp hnb
          exact absurd (hb.issues_nil h) (by simp)
      · have hb : (conditional (i :: lp :: more)).Gives _ _ _ := conditional_noClose hlp hno
        exact absurd (hb.issues_nil h) (by simp)
    · have hb : (conditional (i :: lp :: more)).Gives _ _ _ :=
        conditional_noParen (by simpa using hlp)
      exact absurd (hb.issues_nil h) (by simp)

/-- A function literal: a parameter list and a block. -/
theorem function_sound_step : FnSound ts := by
  intro hf h
  match ts, ih, hf, h with
  | [], _, hf, _ => exact absurd hf (by simp [current, Token.eof])
  | [f], _, _, h =>
    have hb : (function [f]).Gives _ _ _ := function_noParen (by simp)
    exact absurd (hb.issues_nil h) (by simp)
  | f :: lp :: more, ih, hf, h =>
    by_cases hlp : lp.kind = .lparen
    · cases hpv : (params (lp :: more)).value with
      | none =>
        -- a parameter list without issues has a value
        have hg : (function (f :: lp :: more)).Gives _ _ _ := function_noParams hlp hpv
        obtain ⟨_, _, _, _, _, hv, _⟩ := params_sound _ (hg.issues_nil h)
        exact nomatch hpv.symm.trans hv
      | some names =>
        rcases head_kind_cases (params (lp :: more)).rest.tail .lbrace with
          ⟨lb, rest, hpr, hlb⟩ | hnb
        · have hg : (function (f :: lp :: more)).Gives _ _ _ := function_ok hlp hpv hpr hlb
          obtain ⟨hpi, hbi⟩ := hg.issues_append h
          obtain ⟨ps, ys, names', hmore, P, hv, hrest⟩ := params_sound _ hpi
          obtain rfl : names' = names := Option.some.inj (hv.symm.trans hpv)
          rw [List.tail_cons] at hmore
          subst hmore
          rw [hrest, tail_cursorAfter P.ne_nil false (by simp)] at hpr
          subst hpr
          have hrl : rest.length < (f :: lp :: (ps ++ lb :: rest)).length := by
            simp only [List.length_append, List.length_cons]
            omega
          obtain ⟨ws, zs, u, rfl, S, hsr, hu, hy⟩ := (ih rest hrl).stmts hbi
          obtain ⟨bs, zs', v, hbs, B, hcur, hv'⟩ := block_of_stmts hlb S hu hy
          rw [hg.1, hg.2.1, hsr]
          refine ⟨f :: lp :: ps ++ bs, zs', .ofBlock v, by simp [← hbs],
            .atom (.fn hf hlp P B), ?_, follows_ofBlock hv'⟩
          rw [Ending.isOpen_ofBlock, cursorAfter_append _ _ _ B.ne_nil]
          exact hcur
        · have hb : (function (f :: lp :: more)).Gives _ _ _ := function_noBlock hlp hpv hnb
          exact absurd (hb.issues_nil h) (by simp)
    · have hb : (function (f :: lp :: more)).Gives _ _ _ := function_noParen (by simpa using hlp)
      exact absurd (hb.issues_nil h) (by simp)

/-- An operand: an atom, or a prefix operator and its operand of level 4. -/
theorem operand_sound_step (hc : CondSound ts) (hf : FnSound ts) : OperandSound ts := by
  intro hs h
  match ts, ih, hc, hf, hs, h with
  | [], _, _, _, hs, _ => exact absurd hs (by simp [current, Token.eof, TokenKind.startsOperand])
  | t :: more, ih, hc, hf, hs, h =>
    have hshort : more.length < (t :: more).length := by
      simp only [List.length_cons]
      omega
    -- a single-token atom
    have htoken : ∀ {e : Expr}, Atom [t] e .closed →
        (operand (t :: more)).Gives e (t :: more) [] → ∃ m, 4 ≤ m ∧ m ≤ 5 ∧
          Reads m (m + 1) (t :: more) (operand (t :: more)).value (operand (t :: more)).rest := by
      intro e A hg
      rw [hg.1, hg.2.1]
      exact ⟨5, by omega, Nat.le_refl 5, [t], more, .closed, rfl, .atom A, rfl,
        follows_six_closed more⟩
    -- a prefix operator and its operand, read at the prefix power
    have hprefix : ∀ op : PrefixOp, prefixOp? t.kind = some op → ∃ m, 4 ≤ m ∧ m ≤ 5 ∧
        Reads m (m + 1) (t :: more) (operand (t :: more)).value (operand (t :: more)).rest := by
      intro op ho
      have hg : (operand (t :: more)).Gives _ _ _ :=
        operand_prefix_of ho (⟨rfl, rfl, rfl⟩ : (expr prefixPower more).Gives _ _ _)
      obtain ⟨xs, ys, k, rfl, D, hr, hfl⟩ := (ih more hshort).expr.at_prefix (hg.issues_nil h)
      rw [hg.1, hg.2.1]
      exact ⟨4, Nat.le_refl 4, by omega, t :: xs, ys, k, rfl, .unary ho D,
        by rw [hr, cursorAfter_cons _ _ _ D.ne_nil], hfl⟩
    rw [current] at hs
    rcases startsOperand_cases hs with hk | hk | hk | hk | hk | hk | hk | hk | hk
    · exact htoken (.ident hk) (operand_ident hk)
    · by_cases hv : digitsValue t.text ≤ intLiteralLimit
      · exact htoken (.int hk hv) (operand_int hk hv)
      · exact absurd ((operand_int_range hk hv).issues_nil h) (by simp)
    · exact htoken (.true hk) (operand_true hk)
    · exact htoken (.false hk) (operand_false hk)
    · exact hprefix .not (by simp [hk, prefixOp?])
    · exact hprefix .neg (by simp [hk, prefixOp?])
    · -- a parenthesised expression
      rcases head_kind_cases (expr lowest more).rest.tail .rparen with
        ⟨rp, rest, hct, hrp⟩ | hno
      · have hg : (operand (t :: more)).Gives _ _ _ := operand_group hk hct hrp
        obtain ⟨xs, ys, k, rfl, D, -, hfl, hys⟩ :=
          ((ih more hshort).expr.at_lowest (hg.issues_nil h)).tail
        rw [hct] at hys
        subst hys
        have hk' : k ≠ .unclosed := by
          rintro rfl
          exact absurd hfl.1 (by simp)
        rw [hg.1, hg.2.1]
        refine ⟨5, by omega, Nat.le_refl 5, t :: xs ++ [rp], rest, .closed, by simp,
          .atom (.group hk hrp D hk'), ?_, follows_six_closed rest⟩
        rw [Ending.isOpen_closed, cursorAfter_append_singleton]
      · have hb : (operand (t :: more)).Gives _ _ _ := operand_group_unclosed hk hno
        exact absurd (hb.issues_nil h) (by simp)
    · have hr := hc (by simp [current, hk]) (by rw [← operand_cond hk]; exact h)
      rw [operand_cond hk]
      exact ⟨5, by omega, Nat.le_refl 5, hr⟩
    · have hr := hf (by simp [current, hk]) (by rw [← operand_fn hk]; exact h)
      rw [operand_fn hk]
      exact ⟨5, by omega, Nat.le_refl 5, hr⟩

/-- A statement: `let`, `return` or an expression, with its optional `;`. -/
theorem stmt_sound_step (he : ExprSound ts) : StmtSound ts := by
  intro h
  match ts, ih, he, h with
  | [], _, _, h =>
    have hg : (stmt []).Gives _ _ _ := stmt_nil
    exact absurd (hg.issues_nil h) (expr_nil_issues _)
  | t :: more, ih, he, h =>
    by_cases hl : t.kind = .kwLet
    · -- `let`, a name, `=` and an expression
      rcases head_kind_cases more .ident with ⟨x, more, rfl, hx⟩ | hnx
      · rcases head_kind_cases more .assign with ⟨a, more, rfl, ha⟩ | hna
        · have hg : (stmt (t :: x :: a :: more)).Gives _ _ _ := stmt_bind hl hx ha
          obtain ⟨xs, ys, k, rfl, D, hr, hfl⟩ :=
            (ih _ (by simp only [List.length_cons]; omega)).expr.at_lowest (hg.issues_nil h)
          refine ⟨_, t :: x :: a :: xs, ys, k.isOpen, hg.1, rfl, .bind hl hx ha D, ?_,
            fun hu => hfl.1 (Ending.isOpen_eq_true.1 hu), fun y hy => (hfl.2 y hy).1⟩
          rw [hg.2.1, hr, cursorAfter_cons _ _ _ (by simp), cursorAfter_cons _ _ _ (by simp),
            cursorAfter_cons _ _ _ D.ne_nil]
        · have hb : (stmt (t :: x :: more)).Gives _ _ _ := stmt_bind_noAssign hl hx hna
          exact absurd (hb.issues_nil h) (by simp)
      · have hb : (stmt (t :: more)).Gives _ _ _ := stmt_bind_noName hl hnx
        exact absurd (hb.issues_nil h) (by simp)
    · by_cases hr : t.kind = .kwReturn
      · have hg : (stmt (t :: more)).Gives _ _ _ := stmt_ret hr
        obtain ⟨xs, ys, k, rfl, D, hr', hfl⟩ :=
          (ih more (by simp only [List.length_cons]; omega)).expr.at_lowest (hg.issues_nil h)
        refine ⟨_, t :: xs, ys, k.isOpen, hg.1, rfl, .ret hr D, ?_,
          fun hu => hfl.1 (Ending.isOpen_eq_true.1 hu), fun y hy => (hfl.2 y hy).1⟩
        rw [hg.2.1, hr', cursorAfter_cons _ _ _ D.ne_nil]
      · have hg : (stmt (t :: more)).Gives _ _ _ := stmt_expr hl hr
        obtain ⟨xs, ys, k, hts, D, hr', hfl⟩ := he.at_lowest (hg.issues_nil h)
        exact ⟨_, xs, ys, k.isOpen, hg.1, hts, .expr D, by rw [hg.2.1, hr'],
          fun hu => hfl.1 (Ending.isOpen_eq_true.1 hu), fun y hy => (hfl.2 y hy).1⟩

/-- The statements of a block or a program, up to a `}` or the end of the input. -/
theorem stmts_sound_step (hs : StmtSound ts) : StmtsSound ts := by
  intro h
  match ts, ih, hs, h with
  | [], _, _, _ =>
    have hg : (stmts []).Gives _ _ _ := stmts_nil
    exact ⟨[], [], false, rfl, by rw [hg.1]; exact .nil, hg.2.1, nofun, by simp⟩
  | t :: more, ih, hs, h =>
    by_cases hb : t.kind = .rbrace
    · have hg : (stmts (t :: more)).Gives _ _ _ := stmts_rbrace hb
      exact ⟨[], t :: more, false, rfl, by rw [hg.1]; exact .nil, hg.2.1, nofun,
        by simpa using hb⟩
    · have hg : (stmts (t :: more)).Gives _ _ _ := stmts_cons hb
      obtain ⟨hsi, hri⟩ := hg.issues_append h
      obtain ⟨s, xs, ys, u, hsv, hts, St, hsr, hu, hy⟩ := hs hsi
      have hlen : (stmt (t :: more)).rest.tail.length < (t :: more).length := by
        have := (stmt (t :: more)).rest_le
        rw [List.length_tail]
        simp only [List.length_cons] at *
        omega
      obtain ⟨ws, zs, v, hws, S, hsr', hv, hy'⟩ := (ih _ hlen).stmts hri
      rw [hsr] at hws
      obtain ⟨w, hw, S', hzs⟩ := Statements.cons_of_read St hu hy hws S hv
      rw [hg.1, hg.2.1, hsv, hsr']
      exact ⟨w, zs, u || v, by rw [hts, hw], S', rfl,
        fun h => (Bool.or_eq_true_iff.1 h).elim hzs hv, hy'⟩

end Steps

/-- An expression: an operand, then the operator loop. -/
theorem expr_sound_step {ts : List Token} (ho : OperandSound ts)
    (hinf : ∀ ts', ts'.length ≤ ts.length → InfixSound ts') : ExprSound ts := by
  intro p hp1 hp6 h
  by_cases hs : (current ts).kind.startsOperand = true
  · have hg : (expr p ts).Gives _ _ _ := expr_operand hs
    obtain ⟨hoi, hti⟩ := hg.issues_append h
    obtain ⟨m, hm4, hm5, hr⟩ := ho hs hoi
    rw [hg.1, hg.2.1]
    exact hinf _ (operand ts).rest_le p m ts _ hp1 hp6 (by unfold levelAt; omega) hm5 hr hti
  · have hb : (expr p ts).Gives _ _ _ := expr_noOperand (by simpa using hs)
    exact absurd (hb.issues_nil h) (by simp)

/-- The arguments of a call: `)`, or a first argument and the rest read by `argsTail`. -/
theorem args_sound_step {ts : List Token} (he : ExprSound ts)
    (htl : ∀ ts', ts'.length ≤ ts.length → ArgsTailSound ts') : ArgsSound ts := by
  intro h
  match ts, he, htl, h with
  | [], _, _, h =>
    have hg : (args []).Gives _ _ _ := args_nil
    exact absurd (hg.issues_append h).1 (expr_nil_issues _)
  | t :: more, he, htl, h =>
    by_cases hrp : t.kind = .rparen
    · have hg : (args (t :: more)).Gives _ _ _ := args_close hrp
      exact ⟨[t], more, [], rfl, .nil hrp, hg.1, by rw [hg.2.1]; rfl⟩
    · have hg : (args (t :: more)).Gives _ _ _ := args_first hrp
      obtain ⟨hei, hti⟩ := hg.issues_append h
      obtain ⟨xs, ys, k, hts, D, -, hfl, hys⟩ := (he.at_lowest hei).tail
      obtain ⟨xs', ys', as, hys', M, hv, hr'⟩ := htl _ (expr lowest (t :: more)).rest_le _ hti
      rw [hys] at hys'
      subst hys'
      have hk : k ≠ .unclosed := fun hk' => M.ne_nil (List.append_eq_nil_iff.1 (hfl.1 hk')).1
      exact ⟨xs ++ xs', ys', _ :: as, by rw [hts]; simp, Args.of_more D hk M,
        by rw [hg.1, hv]; rfl, by rw [hg.2.1, hr', cursorAfter_append _ _ _ M.ne_nil]⟩

/-- Every step is sound on every token list of length `n`, given that they are on every
    shorter one: the steps are taken in the order of their ranks. -/
theorem sound_of_length (n : Nat) : ∀ ts : List Token, ts.length = n → Sound ts := by
  induction n using Nat.strongRecOn with
  | ind n ih =>
    have short : ∀ ts : List Token, ts.length = n →
        ∀ ts' : List Token, ts'.length < ts.length → Sound ts' :=
      fun ts hts ts' h => ih _ (hts ▸ h) ts' rfl
    have hTail : ∀ ts : List Token, ts.length = n → ArgsTailSound ts :=
      fun ts h => argsTail_sound_step (short ts h)
    have hInfix : ∀ ts : List Token, ts.length = n → InfixSound ts :=
      fun ts h => infixTail_sound_step (short ts h)
    -- a list no longer than one of length `n` is shorter or of length `n`
    have upTo : ∀ {P : List Token → Prop}, (∀ ts : List Token, ts.length = n → P ts) →
        (∀ ts : List Token, ts.length < n → Sound ts → P ts) →
        ∀ ts : List Token, ts.length = n → ∀ ts', ts'.length ≤ ts.length → P ts' := by
      intro P heq hlt ts hts ts' hle
      rcases Nat.lt_or_ge ts'.length n with h | h
      · exact hlt ts' h (ih _ h ts' rfl)
      · exact heq ts' (by omega)
    intro ts hts
    have hc := conditional_sound_step (short ts hts)
    have hf := function_sound_step (short ts hts)
    have ho := operand_sound_step (short ts hts) hc hf
    have he := expr_sound_step ho (upTo hInfix (fun _ _ s => s.infixTail) ts hts)
    have hst := stmt_sound_step (short ts hts) he
    exact ⟨hInfix ts hts, hTail ts hts, hc, hf, ho, he,
      args_sound_step he (upTo hTail (fun _ _ s => s.argsTail) ts hts), hst,
      stmts_sound_step (short ts hts) hst⟩

/-- Every step of the parser that meets no issue has read a derivation of the grammar. -/
theorem sound (ts : List Token) : Sound ts := sound_of_length _ ts rfl

/-- A program read with no issue is a sequence of statements over the whole input. -/
theorem program_sound : ∀ ts : List Token, (program ts).2.1 = [] →
    ∃ u, Statements ts (program ts).1 u
  | [], _ => ⟨false, by simp only [Parser.program]; exact .nil⟩
  | t :: more, h => by
    rw [program_cons] at h ⊢
    obtain ⟨hsi, hpi⟩ := List.append_eq_nil_iff.1 h
    obtain ⟨s, xs, ys, u, hsv, hts, St, hsr, hu, hy⟩ := (sound _).stmt hsi
    obtain ⟨v, S⟩ := program_sound _ hpi
    have hws : (skipSemicolon (cursorAfter xs ys u)).tail =
        (stmt (t :: more)).rest.tail ++ [] := by rw [hsr, List.append_nil]
    obtain ⟨w, hw, S', -⟩ := Statements.cons_of_read St hu hy hws S (fun _ => rfl)
    simp only [hsv, Option.toList_some, List.singleton_append]
    generalize (program (stmt (t :: more)).rest.tail).1 = rest at S' ⊢
    rw [List.append_nil] at hw
    exact ⟨u || v, hts ▸ hw ▸ S'⟩
termination_by ts => ts.length
decreasing_by
  have := (stmt (t :: more)).rest_le
  simp only [List.length_tail, List.length_cons] at *
  omega

end Sugiru.Grammar
