import Mathlib
import Sugiru.Syntax.Parser

/-!
# One equation per branch of the parser

Each parse step returns a value, the cursor it stopped on and the issues it met.
`Step.Gives s v r i` names those three, and `Step.Same s s'` says that `s` ends as `s'`
does; the lemmas of this module give them for every
branch of every step, in terms of the steps it calls, so that later proofs never unfold
the parser. A branch that reports an issue is stated with that issue.

The cursor after a construct is `cursorAfter xs ys u`: on the last token of the run `xs`,
with `ys` after it; or past the end of the input when the run ended inside a block left
open (`u`).
-/

namespace Sugiru.Parser

variable {α : Type} {ts : List Token}

/-- A step read `v`, stopped on the cursor `r` and met the issues `i`. -/
def Step.Gives (s : Step ts α) (v : α) (r : List Token) (i : List Issue) : Prop :=
  s.value = v ∧ s.rest = r ∧ s.issues = i

/-- Two steps end alike: same value, same cursor, same issues. -/
def Step.Same {ts' : List Token} (s : Step ts α) (s' : Step ts' α) : Prop :=
  s.Gives s'.value s'.rest s'.issues

theorem Step.Same.gives {ts' : List Token} {s : Step ts α} {s' : Step ts' α} {v : α}
    {r : List Token} {i : List Issue} (h : s.Same s') (h' : s'.Gives v r i) : s.Gives v r i := by
  obtain ⟨h1, h2, h3⟩ := h
  obtain ⟨h1', h2', h3'⟩ := h'
  exact ⟨h1.trans h1', h2.trans h2', h3.trans h3'⟩

theorem Step.Gives.issues_nil {s : Step ts α} {v : α} {r : List Token} {i : List Issue}
    (hg : s.Gives v r i) (h : s.issues = []) : i = [] :=
  hg.2.2.symm.trans h

theorem Step.Gives.issues_append {s : Step ts α} {v : α} {r : List Token} {i j : List Issue}
    (hg : s.Gives v r (i ++ j)) (h : s.issues = []) : i = [] ∧ j = [] :=
  List.append_eq_nil_iff.1 (hg.issues_nil h)

theorem Step.Same.trans {ts' ts'' : List Token} {s : Step ts α} {s' : Step ts' α}
    {s'' : Step ts'' α} (h : s.Same s') (h' : s'.Same s'') : s.Same s'' :=
  h.gives h'

/-- The cursor after the run `xs` when `ys` follows it: on its last token, or past the end
    of the input when the run ended inside a block left open. -/
def cursorAfter (xs ys : List Token) (u : Bool) : List Token :=
  if u then [] else (xs ++ ys).drop (xs.length - 1)

theorem cursorAfter_closed {xs ys : List Token} (h : xs ≠ []) :
    cursorAfter xs ys false = xs.getLast h :: ys := by
  obtain ⟨init, z, rfl⟩ := (List.eq_nil_or_concat xs).resolve_left h
  simp [cursorAfter]

theorem cursorAfter_append_singleton (xs ys : List Token) (z : Token) :
    cursorAfter (xs ++ [z]) ys false = z :: ys := by
  simp [cursorAfter]

/-- The cursor after a run depends only on the run's last token. -/
theorem cursorAfter_append (xs : List Token) {zs : List Token} (ys : List Token) (u : Bool)
    (h : zs ≠ []) : cursorAfter (xs ++ zs) ys u = cursorAfter zs ys u := by
  cases u
  · rw [cursorAfter_closed (List.append_ne_nil_of_right_ne_nil xs h), cursorAfter_closed h,
      List.getLast_append_of_ne_nil _ h]
  · rfl

theorem cursorAfter_cons (x : Token) {zs : List Token} (ys : List Token) (u : Bool)
    (h : zs ≠ []) : cursorAfter (x :: zs) ys u = cursorAfter zs ys u :=
  cursorAfter_append [x] ys u h

theorem length_cursorAfter_le (xs ys : List Token) (u : Bool) :
    (cursorAfter xs ys u).length ≤ (xs ++ ys).length := by
  unfold cursorAfter
  split <;> simp

@[simp] theorem cursorAfter_open (xs ys : List Token) : cursorAfter xs ys true = [] := rfl

theorem tail_cursorAfter {xs ys : List Token} (h : xs ≠ []) (u : Bool) (hu : u → ys = []) :
    (cursorAfter xs ys u).tail = ys := by
  cases u
  · simp [cursorAfter_closed h]
  · simp [hu rfl]

/-! ## Moving and looking ahead -/

theorem advance?_eq_none_iff {k : TokenKind} :
    advance? k ts = none ↔ ∀ u ∈ ts.tail.head?, u.kind ≠ k := by
  match ts with
  | [] => simp [advance?]
  | [_] => simp [advance?]
  | _ :: u :: more => by_cases h : u.kind = k <;> simp [advance?, h]

theorem advance?_eq_some {k : TokenKind} {c : {r : List Token // r.length < ts.length}}
    (h : advance? k ts = some c) : c.1 = ts.tail ∧ ∃ u ∈ ts.tail.head?, u.kind = k := by
  match ts with
  | [] => simp [advance?] at h
  | [_] => simp [advance?] at h
  | _ :: u :: more =>
    by_cases hu : u.kind = k
    · simp only [advance?, hu, if_true, Option.some.injEq] at h
      subst h
      exact ⟨rfl, u, rfl, hu⟩
    · simp [advance?, hu] at h

theorem advance?_cons_cons {k : TokenKind} {t u : Token} {more : List Token} (h : u.kind = k) :
    advance? k (t :: u :: more) = some ⟨u :: more, Nat.lt_succ_self _⟩ := by
  simp [advance?, h]

@[simp] theorem peek_cons_cons (t u : Token) (more : List Token) : peek (t :: u :: more) = u :=
  rfl

theorem skipSemicolon_of_semicolon {t sc : Token} {more : List Token}
    (h : sc.kind = .semicolon) : skipSemicolon (t :: sc :: more) = sc :: more := by
  simp [skipSemicolon, h]

@[simp] theorem skipSemicolon_nil : skipSemicolon [] = [] := rfl

theorem skipSemicolon_of_not_semicolon {t : Token} {more : List Token}
    (h : ∀ u ∈ more.head?, u.kind ≠ .semicolon) : skipSemicolon (t :: more) = t :: more := by
  cases more with
  | nil => simp [skipSemicolon, peek, Token.eof]
  | cons u more => simp_all [skipSemicolon]

/-! ## Statements -/

theorem stmts_nil : (stmts []).Gives [] [] [] := by
  rw [stmts.eq_1]
  exact ⟨rfl, rfl, rfl⟩

theorem stmts_rbrace {t : Token} {more : List Token} (h : t.kind = .rbrace) :
    (stmts (t :: more)).Gives [] (t :: more) [] := by
  rw [stmts.eq_2, if_pos h]
  exact ⟨rfl, rfl, rfl⟩

theorem stmts_cons {t : Token} {more : List Token} (h : t.kind ≠ .rbrace) :
    (stmts (t :: more)).Gives
      ((stmt (t :: more)).value.toList ++ (stmts (stmt (t :: more)).rest.tail).value)
      (stmts (stmt (t :: more)).rest.tail).rest
      ((stmt (t :: more)).issues ++ (stmts (stmt (t :: more)).rest.tail).issues) := by
  rw [stmts.eq_2, if_neg h]
  exact ⟨rfl, rfl, rfl⟩

theorem stmt_bind {l x a : Token} {more : List Token} (hl : l.kind = .kwLet)
    (hx : x.kind = .ident) (ha : a.kind = .assign) :
    (stmt (l :: x :: a :: more)).Gives
      (some (.bind x.text (expr lowest more).value))
      (skipSemicolon (expr lowest more).rest) (expr lowest more).issues := by
  rw [stmt.eq_1, if_pos hl, advance?_cons_cons hx]
  simp only [advance?_cons_cons ha]
  exact ⟨rfl, rfl, rfl⟩

theorem stmt_bind_noName {l : Token} {more : List Token} (hl : l.kind = .kwLet)
    (hx : ∀ u ∈ more.head?, u.kind ≠ .ident) :
    (stmt (l :: more)).Gives none (l :: more) [.expected .ident (peek (l :: more))] := by
  have hn : advance? .ident (l :: more) = none := advance?_eq_none_iff.2 hx
  rw [stmt.eq_1, if_pos hl]
  simp only [hn]
  exact ⟨rfl, rfl, rfl⟩

theorem stmt_bind_noAssign {l x : Token} {more : List Token} (hl : l.kind = .kwLet)
    (hx : x.kind = .ident) (ha : ∀ u ∈ more.head?, u.kind ≠ .assign) :
    (stmt (l :: x :: more)).Gives none (x :: more) [.expected .assign (peek (x :: more))] := by
  have hn : advance? .assign (x :: more) = none := advance?_eq_none_iff.2 ha
  rw [stmt.eq_1, if_pos hl, advance?_cons_cons hx]
  simp only [hn]
  exact ⟨rfl, rfl, rfl⟩

theorem stmt_ret {r : Token} {more : List Token} (hr : r.kind = .kwReturn) :
    (stmt (r :: more)).Gives (some (.ret (expr lowest more).value))
      (skipSemicolon (expr lowest more).rest) (expr lowest more).issues := by
  rw [stmt.eq_1, if_neg (by rw [hr]; decide), if_pos hr]
  exact ⟨rfl, rfl, rfl⟩

theorem stmt_expr {t : Token} {more : List Token} (hl : t.kind ≠ .kwLet)
    (hr : t.kind ≠ .kwReturn) :
    (stmt (t :: more)).Gives (some (.expr (expr lowest (t :: more)).value))
      (skipSemicolon (expr lowest (t :: more)).rest) (expr lowest (t :: more)).issues := by
  rw [stmt.eq_1, if_neg hl, if_neg hr]
  exact ⟨rfl, rfl, rfl⟩

theorem stmt_nil : (stmt []).Gives (some (.expr (expr lowest []).value))
    (skipSemicolon (expr lowest []).rest) (expr lowest []).issues := by
  rw [stmt.eq_2]
  exact ⟨rfl, rfl, rfl⟩

/-! ## Expressions -/

theorem expr_operand {p : Nat} (h : (current ts).kind.startsOperand = true) :
    (expr p ts).Gives (infixTail p (operand ts).value (operand ts).rest).value
      (infixTail p (operand ts).value (operand ts).rest).rest
      ((operand ts).issues ++ (infixTail p (operand ts).value (operand ts).rest).issues) := by
  rw [expr.eq_1, if_pos h]
  exact ⟨rfl, rfl, rfl⟩

theorem expr_noOperand {p : Nat} (h : (current ts).kind.startsOperand = false) :
    (expr p ts).Gives .hole ts [.noOperand (current ts).kind] := by
  rw [expr.eq_1, if_neg (by rw [h]; decide)]
  exact ⟨rfl, rfl, rfl⟩

theorem operand_ident {t : Token} {more : List Token} (h : t.kind = .ident) :
    (operand (t :: more)).Gives (.ident t.text) (t :: more) [] := by
  rw [operand.eq_2]; simp only [h]; exact ⟨rfl, rfl, rfl⟩

theorem operand_int {t : Token} {more : List Token} (h : t.kind = .int)
    (hv : digitsValue t.text ≤ intLiteralLimit) :
    (operand (t :: more)).Gives (.int t.text (digitsValue t.text)) (t :: more) [] := by
  rw [operand.eq_2]; simp only [h, if_pos hv]; exact ⟨rfl, rfl, rfl⟩

theorem operand_int_range {t : Token} {more : List Token} (h : t.kind = .int)
    (hv : ¬ digitsValue t.text ≤ intLiteralLimit) :
    (operand (t :: more)).Gives .hole (t :: more) [.intRange t.text] := by
  rw [operand.eq_2]; simp only [h, if_neg hv]; exact ⟨rfl, rfl, rfl⟩

theorem operand_true {t : Token} {more : List Token} (h : t.kind = .kwTrue) :
    (operand (t :: more)).Gives (.bool true) (t :: more) [] := by
  rw [operand.eq_2]; simp only [h]; exact ⟨rfl, rfl, rfl⟩

theorem operand_false {t : Token} {more : List Token} (h : t.kind = .kwFalse) :
    (operand (t :: more)).Gives (.bool false) (t :: more) [] := by
  rw [operand.eq_2]; simp only [h]; exact ⟨rfl, rfl, rfl⟩

theorem operand_not {t : Token} {more : List Token} (h : t.kind = .bang) :
    (operand (t :: more)).Gives (.unary .not (expr prefixPower more).value)
      (expr prefixPower more).rest (expr prefixPower more).issues := by
  rw [operand.eq_2]; simp only [h]; exact ⟨rfl, rfl, rfl⟩

theorem operand_neg {t : Token} {more : List Token} (h : t.kind = .minus) :
    (operand (t :: more)).Gives (.unary .neg (expr prefixPower more).value)
      (expr prefixPower more).rest (expr prefixPower more).issues := by
  rw [operand.eq_2]; simp only [h]; exact ⟨rfl, rfl, rfl⟩

theorem operand_group {t u : Token} {more rest : List Token} (h : t.kind = .lparen)
    (hr : (expr lowest more).rest.tail = u :: rest) (hu : u.kind = .rparen) :
    (operand (t :: more)).Gives (expr lowest more).value (u :: rest)
      (expr lowest more).issues := by
  rw [operand.eq_2]; simp only [h]
  split
  · next c _ heq => exact ⟨rfl, by rw [← hr, ← (advance?_eq_some heq).1], rfl⟩
  · next heq => simp [advance?_eq_none_iff, hr, hu] at heq

theorem operand_group_unclosed {t : Token} {more : List Token} (h : t.kind = .lparen)
    (hr : ∀ u ∈ (expr lowest more).rest.tail.head?, u.kind ≠ .rparen) :
    (operand (t :: more)).Gives .hole (expr lowest more).rest
      ((expr lowest more).issues ++ [.expected .rparen (peek (expr lowest more).rest)]) := by
  have ha : advance? .rparen (expr lowest more).rest = none := advance?_eq_none_iff.2 hr
  rw [operand.eq_2]; simp only [h]
  split
  · next heq => simp [ha] at heq
  · exact ⟨rfl, rfl, rfl⟩

theorem operand_cond {t : Token} {more : List Token} (h : t.kind = .kwIf) :
    operand (t :: more) = conditional (t :: more) := by
  rw [operand.eq_2]; simp only [h]

theorem operand_fn {t : Token} {more : List Token} (h : t.kind = .kwFn) :
    operand (t :: more) = function (t :: more) := by
  rw [operand.eq_2]; simp only [h]

/-! ## `if` and `fn` -/

theorem conditional_noParen {i : Token} {more : List Token}
    (h : ∀ u ∈ more.head?, u.kind ≠ .lparen) :
    (conditional (i :: more)).Gives .hole (i :: more) [.expected .lparen (peek (i :: more))] := by
  have ha : advance? .lparen (i :: more) = none := advance?_eq_none_iff.2 h
  rw [conditional.eq_1]; simp only [ha]; exact ⟨rfl, rfl, rfl⟩

theorem conditional_noClose {i lp : Token} {more : List Token} (hlp : lp.kind = .lparen)
    (h : ∀ u ∈ (expr lowest more).rest.tail.head?, u.kind ≠ .rparen) :
    (conditional (i :: lp :: more)).Gives .hole (expr lowest more).rest
      ((expr lowest more).issues ++ [.expected .rparen (peek (expr lowest more).rest)]) := by
  have ha : advance? .rparen (expr lowest more).rest = none := advance?_eq_none_iff.2 h
  rw [conditional.eq_1]; simp only [advance?_cons_cons hlp, List.tail_cons]
  split
  · exact ⟨rfl, rfl, rfl⟩
  · next heq => simp [ha] at heq

theorem conditional_noBlock {i lp rp : Token} {more rest : List Token}
    (hlp : lp.kind = .lparen) (hc : (expr lowest more).rest.tail = rp :: rest)
    (hrp : rp.kind = .rparen) (h : ∀ u ∈ rest.head?, u.kind ≠ .lbrace) :
    (conditional (i :: lp :: more)).Gives .hole (rp :: rest)
      ((expr lowest more).issues ++ [.expected .lbrace (peek (rp :: rest))]) := by
  have ha : advance? .lbrace (rp :: rest) = none := advance?_eq_none_iff.2 h
  rw [conditional.eq_1]; simp only [advance?_cons_cons hlp, List.tail_cons]
  split
  · next heq => simp [advance?_eq_none_iff, hc, hrp] at heq
  · next r2 _ heq =>
    have e2 : r2 = rp :: rest := (advance?_eq_some heq).1.trans hc
    subst e2
    simp only [ha]
    exact ⟨rfl, rfl, rfl⟩

/-- An `if` whose condition and `then` block are read, and which no `else` follows. -/
theorem conditional_noElse {i lp rp lb : Token} {more rest : List Token}
    (hlp : lp.kind = .lparen) (hc : (expr lowest more).rest.tail = rp :: lb :: rest)
    (hrp : rp.kind = .rparen) (hlb : lb.kind = .lbrace)
    (h : ∀ u ∈ (stmts rest).rest.tail.head?, u.kind ≠ .kwElse) :
    (conditional (i :: lp :: more)).Gives
      (.cond (expr lowest more).value (stmts rest).value none) (stmts rest).rest
      ((expr lowest more).issues ++ (stmts rest).issues) := by
  have ha : advance? .kwElse (stmts rest).rest = none := advance?_eq_none_iff.2 h
  rw [conditional.eq_1]; simp only [advance?_cons_cons hlp, List.tail_cons]
  split
  · next heq => simp [advance?_eq_none_iff, hc, hrp] at heq
  · next r2 _ heq =>
    have e2 : r2 = rp :: lb :: rest := (advance?_eq_some heq).1.trans hc
    subst e2
    simp only [advance?_cons_cons hlb, List.tail_cons]
    split
    · exact ⟨rfl, rfl, rfl⟩
    · next heq2 => simp [ha] at heq2

theorem conditional_noElseBlock {i lp rp lb el : Token} {more rest rest4 : List Token}
    (hlp : lp.kind = .lparen) (hc : (expr lowest more).rest.tail = rp :: lb :: rest)
    (hrp : rp.kind = .rparen) (hlb : lb.kind = .lbrace)
    (he : (stmts rest).rest.tail = el :: rest4) (hel : el.kind = .kwElse)
    (h : ∀ u ∈ rest4.head?, u.kind ≠ .lbrace) :
    (conditional (i :: lp :: more)).Gives .hole (el :: rest4)
      ((expr lowest more).issues ++ (stmts rest).issues ++
        [.expected .lbrace (peek (el :: rest4))]) := by
  have ha : advance? .lbrace (el :: rest4) = none := advance?_eq_none_iff.2 h
  rw [conditional.eq_1]; simp only [advance?_cons_cons hlp, List.tail_cons]
  split
  · next heq => simp [advance?_eq_none_iff, hc, hrp] at heq
  · next r2 _ heq =>
    have e2 : r2 = rp :: lb :: rest := (advance?_eq_some heq).1.trans hc
    subst e2
    simp only [advance?_cons_cons hlb, List.tail_cons]
    split
    · next heq2 => simp [advance?_eq_none_iff, he, hel] at heq2
    · next r4 _ heq2 =>
      have e4 : r4 = el :: rest4 := (advance?_eq_some heq2).1.trans he
      subst e4
      simp only [ha]
      exact ⟨rfl, rfl, rfl⟩

/-- An `if` with an `else` block. -/
theorem conditional_else {i lp rp lb el lb' : Token} {more rest rest5 : List Token}
    (hlp : lp.kind = .lparen) (hc : (expr lowest more).rest.tail = rp :: lb :: rest)
    (hrp : rp.kind = .rparen) (hlb : lb.kind = .lbrace)
    (he : (stmts rest).rest.tail = el :: lb' :: rest5) (hel : el.kind = .kwElse)
    (hlb' : lb'.kind = .lbrace) :
    (conditional (i :: lp :: more)).Gives
      (.cond (expr lowest more).value (stmts rest).value (some (stmts rest5).value))
      (stmts rest5).rest
      ((expr lowest more).issues ++ (stmts rest).issues ++ (stmts rest5).issues) := by
  rw [conditional.eq_1]; simp only [advance?_cons_cons hlp, List.tail_cons]
  split
  · next heq => simp [advance?_eq_none_iff, hc, hrp] at heq
  · next r2 _ heq =>
    have e2 : r2 = rp :: lb :: rest := (advance?_eq_some heq).1.trans hc
    subst e2
    simp only [advance?_cons_cons hlb, List.tail_cons]
    split
    · next heq2 => simp [advance?_eq_none_iff, he, hel] at heq2
    · next r4 _ heq2 =>
      have e4 : r4 = el :: lb' :: rest5 := (advance?_eq_some heq2).1.trans he
      subst e4
      simp only [advance?_cons_cons hlb', List.tail_cons]
      exact ⟨rfl, rfl, rfl⟩

theorem function_noParen {f : Token} {more : List Token}
    (h : ∀ u ∈ more.head?, u.kind ≠ .lparen) :
    (function (f :: more)).Gives .hole (f :: more) [.expected .lparen (peek (f :: more))] := by
  have ha : advance? .lparen (f :: more) = none := advance?_eq_none_iff.2 h
  rw [function.eq_1]; simp only [ha]; exact ⟨rfl, rfl, rfl⟩

theorem function_noParams {f lp : Token} {more : List Token} (hlp : lp.kind = .lparen)
    (h : (params (lp :: more)).value = none) :
    (function (f :: lp :: more)).Gives .hole (params (lp :: more)).rest
      (params (lp :: more)).issues := by
  rw [function.eq_1]; simp only [advance?_cons_cons hlp]
  split
  · exact ⟨rfl, rfl, rfl⟩
  · next heq => simp [h] at heq

theorem function_noBlock {f lp : Token} {more : List Token} {names : List String}
    (hlp : lp.kind = .lparen) (hp : (params (lp :: more)).value = some names)
    (h : ∀ u ∈ (params (lp :: more)).rest.tail.head?, u.kind ≠ .lbrace) :
    (function (f :: lp :: more)).Gives .hole (params (lp :: more)).rest
      ((params (lp :: more)).issues ++
        [.expected .lbrace (peek (params (lp :: more)).rest)]) := by
  have ha : advance? .lbrace (params (lp :: more)).rest = none := advance?_eq_none_iff.2 h
  rw [function.eq_1]; simp only [advance?_cons_cons hlp]
  split
  · next heq => simp [hp] at heq
  · split
    · exact ⟨rfl, rfl, rfl⟩
    · next heq2 => simp [ha] at heq2

/-- A function literal whose parameters and `{` are read. -/
theorem function_ok {f lp lb : Token} {more rest : List Token} {names : List String}
    (hlp : lp.kind = .lparen) (hp : (params (lp :: more)).value = some names)
    (hr : (params (lp :: more)).rest.tail = lb :: rest) (hlb : lb.kind = .lbrace) :
    (function (f :: lp :: more)).Gives (.fn names (stmts rest).value) (stmts rest).rest
      ((params (lp :: more)).issues ++ (stmts rest).issues) := by
  rw [function.eq_1]; simp only [advance?_cons_cons hlp]
  split
  · next heq => simp [hp] at heq
  · next names' heq =>
    rw [hp, Option.some.injEq] at heq
    subst heq
    split
    · next heq2 => simp [advance?_eq_none_iff, hr, hlb] at heq2
    · next r2 _ heq2 =>
      have e2 : r2 = lb :: rest := (advance?_eq_some heq2).1.trans hr
      subst e2
      exact ⟨rfl, rfl, rfl⟩

theorem params_empty {lp rp : Token} {rest : List Token} (hrp : rp.kind = .rparen) :
    (params (lp :: rp :: rest)).Gives (some []) (rp :: rest) [] := by
  rw [params.eq_1]; simp only [advance?_cons_cons hrp]; exact ⟨rfl, rfl, rfl⟩

theorem params_first {lp x : Token} {rest : List Token} (hx : x.kind = .ident) :
    (params (lp :: x :: rest)).Same (paramsTail [x.text] (x :: rest)) := by
  have ha : advance? .rparen (lp :: x :: rest) = none :=
    advance?_eq_none_iff.2 (by simp [hx])
  rw [params.eq_1]; simp only [ha, advance?_cons_cons hx]; exact ⟨rfl, rfl, rfl⟩

theorem params_bad (h : ∀ u ∈ ts.tail.head?, u.kind ≠ .rparen ∧ u.kind ≠ .ident) :
    (params ts).Gives none ts [.expected .ident (peek ts)] := by
  have ha : advance? .rparen ts = none := advance?_eq_none_iff.2 fun u hu => (h u hu).1
  have hb : advance? .ident ts = none := advance?_eq_none_iff.2 fun u hu => (h u hu).2
  rw [params.eq_1]; simp only [ha, hb]; exact ⟨rfl, rfl, rfl⟩

theorem paramsTail_next {z c x : Token} {acc : List String} {rest : List Token}
    (hc : c.kind = .comma) (hx : x.kind = .ident) :
    (paramsTail acc (z :: c :: x :: rest)).Same (paramsTail (acc ++ [x.text]) (x :: rest)) := by
  rw [paramsTail.eq_1]; simp only [advance?_cons_cons hc, advance?_cons_cons hx]
  exact ⟨rfl, rfl, rfl⟩

theorem paramsTail_noName {z c : Token} {acc : List String} {rest : List Token}
    (hc : c.kind = .comma) (hx : ∀ u ∈ rest.head?, u.kind ≠ .ident) :
    (paramsTail acc (z :: c :: rest)).Gives none (c :: rest)
      [.expected .ident (peek (c :: rest))] := by
  have hb : advance? .ident (c :: rest) = none := advance?_eq_none_iff.2 hx
  rw [paramsTail.eq_1]; simp only [advance?_cons_cons hc, hb]; exact ⟨rfl, rfl, rfl⟩

theorem paramsTail_close {z rp : Token} {acc : List String} {rest : List Token}
    (hrp : rp.kind = .rparen) :
    (paramsTail acc (z :: rp :: rest)).Gives (some acc) (rp :: rest) [] := by
  have ha : advance? .comma (z :: rp :: rest) = none :=
    advance?_eq_none_iff.2 (by simp [hrp])
  rw [paramsTail.eq_1]; simp only [ha, advance?_cons_cons hrp]; exact ⟨rfl, rfl, rfl⟩

theorem paramsTail_bad {acc : List String}
    (h : ∀ u ∈ ts.tail.head?, u.kind ≠ .comma ∧ u.kind ≠ .rparen) :
    (paramsTail acc ts).Gives none ts [.expected .rparen (peek ts)] := by
  have ha : advance? .comma ts = none := advance?_eq_none_iff.2 fun u hu => (h u hu).1
  have hb : advance? .rparen ts = none := advance?_eq_none_iff.2 fun u hu => (h u hu).2
  rw [paramsTail.eq_1]; simp only [ha, hb]; exact ⟨rfl, rfl, rfl⟩

/-! ## Infix operators and calls -/

/-- The loop stops where the next token binds no tighter than `p`, or is a `;`, or at the
    end of the input. -/
theorem infixTail_stop {p : Nat} {left : Expr}
    (h : ∀ o ∈ ts.tail.head?, o.kind = .semicolon ∨ o.kind.power ≤ p) :
    (infixTail p left ts).Gives left ts [] := by
  match ts with
  | [] => rw [infixTail.eq_2 _ _ _ (by simp)]; exact ⟨rfl, rfl, rfl⟩
  | [_] => rw [infixTail.eq_2 _ _ _ (by simp)]; exact ⟨rfl, rfl, rfl⟩
  | z :: o :: more =>
    have ho : ¬ (o.kind ≠ .semicolon ∧ p < o.kind.power) := by
      rintro ⟨hsc, hlt⟩
      rcases h o (by simp) with hs | hle
      · exact hsc hs
      · omega
    rw [infixTail.eq_1, if_neg ho]
    exact ⟨rfl, rfl, rfl⟩

/-- A call: the arguments are read and the loop goes on with the call as left operand. -/
theorem infixTail_call {p : Nat} {left : Expr} {z o : Token} {more : List Token}
    (hlp : o.kind = .lparen) (hp : p < 7) :
    (infixTail p left (z :: o :: more)).Gives
      (infixTail p ((args more).value.elim .hole left.call) (args more).rest).value
      (infixTail p ((args more).value.elim .hole left.call) (args more).rest).rest
      ((args more).issues ++
        (infixTail p ((args more).value.elim .hole left.call) (args more).rest).issues) := by
  have hc : o.kind ≠ .semicolon ∧ p < o.kind.power := by simp [hlp, TokenKind.power, hp]
  rw [infixTail.eq_1, if_pos hc, if_pos hlp]
  cases h : (args more).value <;> simp only [h] <;> exact ⟨rfl, rfl, rfl⟩

/-- A binary operator: its right operand is read at the operator's own power and the loop
    goes on with the new left operand. -/
theorem infixTail_binary {p : Nat} {left : Expr} {z o : Token} {more : List Token}
    {op : InfixOp} (hop : o.kind.infixOp? = some op) (hp : p < o.kind.power) :
    (infixTail p left (z :: o :: more)).Gives
      (infixTail p (.binary op left (expr o.kind.power more).value)
        (expr o.kind.power more).rest).value
      (infixTail p (.binary op left (expr o.kind.power more).value)
        (expr o.kind.power more).rest).rest
      ((expr o.kind.power more).issues ++
        (infixTail p (.binary op left (expr o.kind.power more).value)
          (expr o.kind.power more).rest).issues) := by
  have hsc : o.kind ≠ .semicolon := by intro h; simp [h, TokenKind.infixOp?] at hop
  have hlp : o.kind ≠ .lparen := by intro h; simp [h, TokenKind.infixOp?] at hop
  rw [infixTail.eq_1, if_pos ⟨hsc, hp⟩, if_neg hlp]
  simp only [hop]
  exact ⟨rfl, rfl, rfl⟩

theorem args_close {t : Token} {more : List Token} (h : t.kind = .rparen) :
    (args (t :: more)).Gives (some []) (t :: more) [] := by
  rw [args.eq_1, if_pos h]; exact ⟨rfl, rfl, rfl⟩

theorem args_first {t : Token} {more : List Token} (h : t.kind ≠ .rparen) :
    (args (t :: more)).Gives
      (argsTail [(expr lowest (t :: more)).value] (expr lowest (t :: more)).rest).value
      (argsTail [(expr lowest (t :: more)).value] (expr lowest (t :: more)).rest).rest
      ((expr lowest (t :: more)).issues ++
        (argsTail [(expr lowest (t :: more)).value] (expr lowest (t :: more)).rest).issues) := by
  rw [args.eq_1, if_neg h]; exact ⟨rfl, rfl, rfl⟩

theorem args_nil :
    (args []).Gives (argsTail [(expr lowest []).value] (expr lowest []).rest).value
      (argsTail [(expr lowest []).value] (expr lowest []).rest).rest
      ((expr lowest []).issues ++
        (argsTail [(expr lowest []).value] (expr lowest []).rest).issues) := by
  rw [args.eq_2]; exact ⟨rfl, rfl, rfl⟩

theorem argsTail_next {acc : List Expr} {z c : Token} {more : List Token}
    (hc : c.kind = .comma) :
    (argsTail acc (z :: c :: more)).Gives
      (argsTail (acc ++ [(expr lowest more).value]) (expr lowest more).rest).value
      (argsTail (acc ++ [(expr lowest more).value]) (expr lowest more).rest).rest
      ((expr lowest more).issues ++
        (argsTail (acc ++ [(expr lowest more).value]) (expr lowest more).rest).issues) := by
  rw [argsTail.eq_1, if_pos hc]; exact ⟨rfl, rfl, rfl⟩

theorem argsTail_close {acc : List Expr} {z rp : Token} {more : List Token}
    (hrp : rp.kind = .rparen) :
    (argsTail acc (z :: rp :: more)).Gives (some acc) (rp :: more) [] := by
  have hc : rp.kind ≠ .comma := by rw [hrp]; decide
  rw [argsTail.eq_1, if_neg hc]; simp only [advance?_cons_cons hrp]; exact ⟨rfl, rfl, rfl⟩

theorem argsTail_bad {acc : List Expr}
    (h : ∀ u ∈ ts.tail.head?, u.kind ≠ .comma ∧ u.kind ≠ .rparen) :
    (argsTail acc ts).Gives none ts [.expected .rparen (peek ts)] := by
  have ha : advance? .rparen ts = none := advance?_eq_none_iff.2 fun u hu => (h u hu).2
  match ts with
  | [] => rw [argsTail.eq_2 _ _ (by simp)]; simp only [ha]; exact ⟨rfl, rfl, rfl⟩
  | [_] => rw [argsTail.eq_2 _ _ (by simp)]; simp only [ha]; exact ⟨rfl, rfl, rfl⟩
  | z :: c :: more =>
    have hc : c.kind ≠ .comma := (h c (by simp)).1
    rw [argsTail.eq_1, if_neg hc]; simp only [ha]; exact ⟨rfl, rfl, rfl⟩

/-! ## Programs -/

theorem program_cons {t : Token} {more : List Token} :
    program (t :: more) =
      ((stmt (t :: more)).value.toList ++ (program (stmt (t :: more)).rest.tail).1,
       (stmt (t :: more)).issues ++ (program (stmt (t :: more)).rest.tail).2.1,
       if (stmt (t :: more)).value.isSome then some t.text
       else (program (stmt (t :: more)).rest.tail).2.2) := by
  rw [program.eq_2]

end Sugiru.Parser

namespace Sugiru

theorem Program.ofTokens_issues (ts : List Token) :
    (Program.ofTokens ts).issues = (Parser.program ts).2.1 := rfl

theorem Program.ofTokens_stmts (ts : List Token) :
    (Program.ofTokens ts).program.stmts = (Parser.program ts).1 := rfl

end Sugiru
