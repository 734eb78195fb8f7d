import Sugiru.Proofs.ParserSound

/-!
# Precedence: an expression is the longest run the grammar derives

`Parser.expr lowest` is how every whole expression is read: the expression of a statement,
a `let` or `return` value, a parenthesised expression, the condition of an `if`, each
argument of a call. Whenever it meets no issue, the tree it builds is the tree the
stratified grammar of `Sugiru.Grammar` gives the longest run at the front of its input
that the grammar derives as an expression, that run has no other tree, and the parser
stops on the run's last token. In that grammar every binary operator is left-associative,
the binary levels bind in the order `==`/`!=`, `<`/`>`, `+`/`-`, `*`/`/`, prefix `!` and
`-` bind looser than calls and tighter than every binary operator, and calls chain left to
right.

The grammar lets a block still open at the end of the input go without its `}`, as the
parser does. With blocks that must be closed, `fn() {` parses with no issue although no
run at its front is an expression.

Main results:

* `Derives.unique`: a run has one tree, and ends inside an open block or does not.
* `Derives.not_extended`: no run extends a run the parser stops after.
* `expr_reads_longest_run`: an expression read with no issue is the only tree of the
  longest expression run at the front of the input.
* `open_block_parses_without_brace`: `fn() {` parses with no issue, yet no run at its
  front derives an expression whose blocks are all closed.
-/

namespace Sugiru.Grammar

open Sugiru.Parser

/-! ## One run, one tree -/

/-- The grammar is unambiguous: a run has one tree, and either ends inside a block left open
    or does not. -/
theorem Derives.unique {xs : List Token} {e e' : Expr} {k k' : Ending}
    (D : Derives 0 xs e k) (D' : Derives 0 xs e' k') : e = e' ∧ k.isOpen = k'.isOpen := by
  obtain ⟨he, hr, -⟩ := D.read
  obtain ⟨he', hr', -⟩ := D'.read
  refine ⟨he.symm.trans he', ?_⟩
  have hc : cursorAfter xs [] k.isOpen = cursorAfter xs [] k'.isOpen := hr.symm.trans hr'
  -- the parser stops on the last token of a closed run and past the end of an open one
  cases hk : k.isOpen <;> cases hk' : k'.isOpen
  · rfl
  · rw [hk, hk'] at hc
    exact absurd (hc.trans (cursorAfter_open _ _)) (by simp [cursorAfter_closed D.ne_nil])
  · rw [hk, hk'] at hc
    exact absurd (hc.symm.trans (cursorAfter_open _ _)) (by simp [cursorAfter_closed D.ne_nil])
  · rfl

/-- A run the parser stops after, with a token after it, extends to no longer run: the one
    call `expr lowest` would stop both on the shorter run's last token, with the token after
    it still ahead, and on the last token of the longer one or past the end of the input. -/
theorem Derives.not_extended {xs ws : List Token} {y : Token} {e e' : Expr} {k k' : Ending}
    (D : Derives 0 xs e k) (hf : Follows 0 k (y :: ws))
    (D' : Derives 0 (xs ++ y :: ws) e' k') : False := by
  have hk : k.isOpen = false := Ending.isOpen_eq_false fun hu => List.cons_ne_nil _ _ (hf.1 hu)
  have hr := D'.read.2.1
  rw [(expr_of_derives D hf).2.1, hk, cursorAfter_closed D.ne_nil] at hr
  cases hk' : k'.isOpen
  · rw [hk', cursorAfter_closed (by simp)] at hr
    simp at hr
  · rw [hk', cursorAfter_open] at hr
    exact List.cons_ne_nil _ _ hr

/-! ## The longest run -/

/-- `e` is the tree of the longest run at the front of `ts` that derives an expression, that
    run has no other tree, and `r` is the cursor after it. Only the end of the input follows
    a run that ends inside an open block. -/
def LongestRun (ts : List Token) (e : Expr) (r : List Token) : Prop :=
  ∃ xs ys k, ts = xs ++ ys ∧ Derives 0 xs e k ∧ r = cursorAfter xs ys k.isOpen ∧
    (k = .unclosed → ys = []) ∧
    (∀ xs' ys' e' k', ts = xs' ++ ys' → Derives 0 xs' e' k' → xs'.length ≤ xs.length) ∧
    (∀ e' k', Derives 0 xs e' k' → e' = e)

/-- An expression read with no issue is the tree of the longest expression run at the front
    of the input, and of no other run. -/
theorem expr_reads_longest_run (ts : List Token) (h : (expr lowest ts).issues = []) :
    LongestRun ts (expr lowest ts).value (expr lowest ts).rest := by
  obtain ⟨xs, ys, k, hts, D, hr, hf⟩ := (sound ts).expr.at_lowest h
  refine ⟨xs, ys, k, hts, D, hr, hf.1, ?_, fun e' k' D' => (D'.unique D).1⟩
  intro xs' ys' e' k' hts' D'
  rcases Nat.lt_or_ge xs.length xs'.length with hlt | hle
  · -- a longer run is the parser's run followed by the first tokens after it
    rcases List.append_eq_append_iff.1 (hts.symm.trans hts') with
      ⟨w, rfl, rfl⟩ | ⟨w, rfl, -⟩
    · cases w with
      | nil => simp at hlt
      | cons y ws => exact (D.not_extended hf.of_append D').elim
    · simp only [List.length_append] at hlt
      omega
  · exact hle

/-- `a + b * c` is read whole, the product as the right operand of the sum. -/
theorem longest_run_sum_of_product :
    (expr lowest
        [⟨.ident, "a"⟩, ⟨.plus, "+"⟩, ⟨.ident, "b"⟩, ⟨.asterisk, "*"⟩, ⟨.ident, "c"⟩]).issues =
        [] ∧
      LongestRun
        [⟨.ident, "a"⟩, ⟨.plus, "+"⟩, ⟨.ident, "b"⟩, ⟨.asterisk, "*"⟩, ⟨.ident, "c"⟩]
        (.binary .add (.ident "a") (.binary .mul (.ident "b") (.ident "c")))
        [⟨.ident, "c"⟩] := by
  have hb : Derives 3 [⟨.ident, "b"⟩] (.ident "b") .closed :=
    (Derives.atom (Atom.ident rfl)).lower (by omega) (Nat.le_refl 5)
  have hc : Derives 4 [⟨.ident, "c"⟩] (.ident "c") .closed :=
    (Derives.atom (Atom.ident rfl)).lower (by omega) (Nat.le_refl 5)
  have ha : Derives 2 [⟨.ident, "a"⟩] (.ident "a") .closed :=
    (Derives.atom (Atom.ident rfl)).lower (by omega) (Nat.le_refl 5)
  have hbc := Derives.binary (o := ⟨.asterisk, "*"⟩) rfl rfl hb (by decide) hc
  have D := (Derives.binary (o := ⟨.plus, "+"⟩) rfl rfl ha (by decide) hbc).lower
    (Nat.zero_le 2) (by omega)
  obtain ⟨hv, hr, hi⟩ := D.read
  have h := expr_reads_longest_run _ hi
  rw [hv, hr] at h
  exact ⟨hi, h⟩

/-! ## A block left open at the end of the input -/

/-- The tokens of `fn() {`. -/
theorem scan_fn_open :
    Token.scan "fn() \x7b" =
      [⟨.kwFn, "fn"⟩, ⟨.lparen, "("⟩, ⟨.rparen, ")"⟩, ⟨.lbrace, "\x7b"⟩] := by
  simp [Token.scan, Token.scanChars, Token.next, Token.read, Token.isWordChar, TokenKind.ofWord,
    TokenKind.ofSymbol?, Token.eof]

/-- The grammar reads `fn() {` as a function literal whose block is left open. -/
theorem derives_fn_open : Derives 0 (Token.scan "fn() \x7b") (.fn [] []) .unclosed := by
  rw [scan_fn_open]
  exact (Derives.atom (Atom.fn rfl rfl (Params.nil rfl) (Block.unclosed rfl Statements.nil))).lower
    (Nat.zero_le 5) (Nat.le_refl 5)

/-- An expression that starts with `fn` and whose function literal meets an issue meets it. -/
theorem expr_issues_of_function {p : Nat} {f : Token} {more : List Token}
    (hf : f.kind = .kwFn) (h : (function (f :: more)).issues ≠ []) :
    (expr p (f :: more)).issues ≠ [] := by
  rw [(expr_operand (by simp [current, hf, TokenKind.startsOperand])).2.2, operand_fn hf]
  exact fun hn => h (List.append_eq_nil_iff.1 hn).1

/-- No run at the front of `fn() {` derives an expression that ends outside every block: the
    shorter runs stop before the block, and the whole input only derives with its block
    open. -/
theorem no_closed_run_fn_open {xs ys : List Token} {e : Expr} {k : Ending}
    (hts : Token.scan "fn() \x7b" = xs ++ ys) (hk : k ≠ .unclosed) (D : Derives 0 xs e k) :
    False := by
  have hi := D.read.2.2
  rw [scan_fn_open] at hts
  rcases xs with _ | ⟨f, _ | ⟨lp, _ | ⟨rp, _ | ⟨lb, _ | ⟨z, zs⟩⟩⟩⟩⟩ <;>
    simp only [List.cons_append, List.nil_append, List.cons.injEq] at hts
  · exact D.ne_nil rfl
  · -- `fn` with no `(` after it
    obtain ⟨rfl, -⟩ := hts
    exact expr_issues_of_function rfl (by rw [(function_noParen (by simp)).2.2]; simp) hi
  · -- `fn (` with no parameter list after it
    obtain ⟨rfl, rfl, -⟩ := hts
    have hp : (params [⟨.lparen, "("⟩]).Gives none _ _ := params_bad (by simp)
    exact expr_issues_of_function rfl (by rw [(function_noParams rfl hp.1).2.2, hp.2.2]; simp) hi
  · -- `fn ( )` with no block after it
    obtain ⟨rfl, rfl, rfl, -⟩ := hts
    have hp : (params [⟨.lparen, "("⟩, ⟨.rparen, ")"⟩]).Gives (some []) _ [] :=
      params_empty rfl
    exact expr_issues_of_function rfl
      (by rw [(function_noBlock rfl hp.1 (by rw [hp.2.1]; simp)).2.2]; simp) hi
  · -- the whole input, whose only derivation leaves the block open
    obtain ⟨rfl, rfl, rfl, rfl, -⟩ := hts
    have D' := derives_fn_open
    rw [scan_fn_open] at D'
    exact hk (Ending.isOpen_eq_true.1 (D.unique D').2)
  · simp at hts

/-- With blocks that must be closed, the precedence grammar does not describe what the
    parser accepts: `fn() {` parses with no issue, yet no run at its front derives an
    expression. -/
theorem open_block_parses_without_brace :
    (Program.parse "fn() \x7b").issues = [] ∧
      ¬ ∃ xs ys e k,
        Token.scan "fn() \x7b" = xs ++ ys ∧ k ≠ .unclosed ∧ Derives 0 xs e k := by
  refine ⟨?_, fun ⟨xs, ys, e, k, hts, hk, D⟩ => no_closed_run_fn_open hts hk D⟩
  have hs := Statement.complete (Statement.expr derives_fn_open) [] (fun _ => rfl) (by simp)
  rw [List.append_nil, scan_fn_open] at hs
  simp [Program.parse, Program.ofTokens, scan_fn_open, program_cons, hs.1, hs.2.1, hs.2.2,
    skipSemicolon, peek, Token.eof, program.eq_1]

end Sugiru.Grammar
