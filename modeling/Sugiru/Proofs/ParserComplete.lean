import Sugiru.Proofs.Grammar
import Sugiru.Proofs.ParserSteps

/-!
# The parser reads every derivation

A token run the grammar of `Sugiru.Grammar` derives is read by the parser with no issue,
into the derivation's tree, and the parser stops on the run's last token, or past the end
of the input when the run ended inside a block left open.

For expressions this is stated the way precedence climbing works. A run of level `n` read
at a binding power `p` that takes every token continuing level `n` (`TakesAt p n`) leaves
the parser exactly where `infixTail p e` starts on the run's tree `e`: what follows the run
may still extend it, as the right operand of the next operator or the callee of a call.
What keeps the parser from reading past a run is what follows it (`Follows`): no token
that continues a subexpression the parser reads at a higher power, no `else` after an `if`
that has none, and nothing after a block left open.

Main results:

* `Derives.complete`: an expression run, read at any power that takes its level.
* `Atom.complete`, `Args.complete`, `Block.complete`, `Statements.complete`,
  `Statement.complete`, `Params.complete`: the other constructs, each read cleanly.
* `expr_of_derives`: a whole expression followed by a token that cannot continue it.
-/

namespace Sugiru.Parser

open Grammar

variable {α : Type} {ts : List Token}

/-- A step that ends like an operator loop the next token stops ends on that loop's left
    operand. -/
theorem Step.Same.of_stop {p : Nat} {e : Expr} {c : List Token} {s : Step ts Expr}
    (h : s.Same (infixTail p e c)) (hc : ∀ o ∈ c.tail.head?, o.kind.power ≤ p) :
    s.Gives e c [] :=
  h.gives (infixTail_stop fun o ho => .inr (hc o ho))

/-! ## Steps whose parts read cleanly

Each step of the parser, given that the steps it calls read cleanly, reads cleanly. -/

theorem expr_of_operand {p : Nat} {e : Expr} {c : List Token}
    (h : (current ts).kind.startsOperand = true) (ho : (operand ts).Gives e c []) :
    (expr p ts).Same (infixTail p e c) := by
  obtain ⟨hv, hr, hi⟩ := ho
  have := expr_operand (p := p) h
  rw [hv, hr, hi, List.nil_append] at this
  exact this

theorem infixTail_binary_of {p : Nat} {left r : Expr} {z o : Token} {more c : List Token}
    {op : InfixOp} (hop : o.kind.infixOp? = some op) (hp : p < o.kind.power)
    (hr : (expr o.kind.power more).Gives r c []) :
    (infixTail p left (z :: o :: more)).Same (infixTail p (.binary op left r) c) := by
  obtain ⟨hv, hc, hi⟩ := hr
  have : (infixTail p left (z :: o :: more)).Gives _ _ _ := infixTail_binary hop hp
  rw [hv, hc, hi, List.nil_append] at this
  exact this

theorem infixTail_call_of {p : Nat} {left : Expr} {as : List Expr} {z o : Token}
    {more c : List Token} (hlp : o.kind = .lparen) (hp : p < 7)
    (ha : (args more).Gives (some as) c []) :
    (infixTail p left (z :: o :: more)).Same (infixTail p (left.call as) c) := by
  obtain ⟨hv, hc, hi⟩ := ha
  have : (infixTail p left (z :: o :: more)).Gives _ _ _ := infixTail_call hlp hp
  rw [hv, hc, hi, List.nil_append] at this
  exact this

theorem operand_prefix_of {t : Token} {more c : List Token} {op : PrefixOp} {e : Expr}
    {i : List Issue} (ho : prefixOp? t.kind = some op)
    (he : (expr prefixPower more).Gives e c i) :
    (operand (t :: more)).Gives (.unary op e) c i := by
  obtain ⟨hv, hc, hi⟩ := he
  rcases prefixOp?_eq_some.1 ho with ⟨hk, rfl⟩ | ⟨hk, rfl⟩
  · have : (operand (t :: more)).Gives _ _ _ := operand_not hk
    rwa [hv, hc, hi] at this
  · have : (operand (t :: more)).Gives _ _ _ := operand_neg hk
    rwa [hv, hc, hi] at this

theorem operand_group_of {t z rp : Token} {more rest : List Token} {e : Expr}
    (h : t.kind = .lparen) (he : (expr lowest more).Gives e (z :: rp :: rest) [])
    (hrp : rp.kind = .rparen) : (operand (t :: more)).Gives e (rp :: rest) [] := by
  obtain ⟨hv, hc, hi⟩ := he
  have := operand_group h (by rw [hc]; rfl) hrp
  rwa [hv, hi] at this

theorem conditional_noElse_of {i lp z rp lb : Token} {more rest r : List Token} {c : Expr}
    {body : List Stmt} (hlp : lp.kind = .lparen)
    (hc : (expr lowest more).Gives c (z :: rp :: lb :: rest) []) (hrp : rp.kind = .rparen)
    (hlb : lb.kind = .lbrace) (hb : (stmts rest).Gives body r [])
    (h : ∀ u ∈ r.tail.head?, u.kind ≠ .kwElse) :
    (conditional (i :: lp :: more)).Gives (.cond c body none) r [] := by
  obtain ⟨hcv, hcr, hci⟩ := hc
  obtain ⟨hbv, hbr, hbi⟩ := hb
  have := conditional_noElse (i := i) hlp (by rw [hcr]; rfl) hrp hlb (by rw [hbr]; exact h)
  rwa [hcv, hbv, hbr, hci, hbi] at this

theorem conditional_else_of {i lp z rp lb rb el lb' : Token} {more rest rest5 r : List Token}
    {c : Expr} {body alt : List Stmt} (hlp : lp.kind = .lparen)
    (hc : (expr lowest more).Gives c (z :: rp :: lb :: rest) []) (hrp : rp.kind = .rparen)
    (hlb : lb.kind = .lbrace) (hb : (stmts rest).Gives body (rb :: el :: lb' :: rest5) [])
    (hel : el.kind = .kwElse) (hlb' : lb'.kind = .lbrace)
    (ha : (stmts rest5).Gives alt r []) :
    (conditional (i :: lp :: more)).Gives (.cond c body (some alt)) r [] := by
  obtain ⟨hcv, hcr, hci⟩ := hc
  obtain ⟨hbv, hbr, hbi⟩ := hb
  obtain ⟨hav, har, hai⟩ := ha
  have := conditional_else (i := i) hlp (by rw [hcr]; rfl) hrp hlb (by rw [hbr]; rfl) hel hlb'
  rwa [hcv, hbv, hav, har, hci, hbi, hai] at this

theorem function_of {f lp z lb : Token} {more rest r : List Token} {names : List String}
    {body : List Stmt} (hlp : lp.kind = .lparen)
    (hp : (params (lp :: more)).Gives (some names) (z :: lb :: rest) [])
    (hlb : lb.kind = .lbrace) (hb : (stmts rest).Gives body r []) :
    (function (f :: lp :: more)).Gives (.fn names body) r [] := by
  obtain ⟨hpv, hpr, hpi⟩ := hp
  obtain ⟨hbv, hbr, hbi⟩ := hb
  have := function_ok (f := f) hlp hpv (by rw [hpr]; rfl) hlb
  rwa [hbv, hbr, hpi, hbi] at this

theorem args_first_of {t : Token} {more c : List Token} {e : Expr} {v : Option (List Expr)}
    {r : List Token} {i : List Issue} (h : t.kind ≠ .rparen)
    (he : (expr lowest (t :: more)).Gives e c []) (hr : (argsTail [e] c).Gives v r i) :
    (args (t :: more)).Gives v r i := by
  obtain ⟨hv, hc, hi⟩ := he
  have : (args (t :: more)).Gives _ _ _ := args_first h
  rw [hv, hc, hi, List.nil_append] at this
  exact Step.Same.gives (this : (args (t :: more)).Same (argsTail [e] c)) hr

theorem argsTail_next_of {acc : List Expr} {z c : Token} {more cur : List Token} {e : Expr}
    {v : Option (List Expr)} {r : List Token} {i : List Issue} (hc : c.kind = .comma)
    (he : (expr lowest more).Gives e cur []) (hr : (argsTail (acc ++ [e]) cur).Gives v r i) :
    (argsTail acc (z :: c :: more)).Gives v r i := by
  obtain ⟨hv, hcur, hi⟩ := he
  have : (argsTail acc (z :: c :: more)).Gives _ _ _ := argsTail_next hc
  rw [hv, hcur, hi, List.nil_append] at this
  exact Step.Same.gives
    (this : (argsTail acc (z :: c :: more)).Same (argsTail (acc ++ [e]) cur)) hr

theorem stmts_cons_of {t : Token} {more c r : List Token} {s : Stmt} {ss : List Stmt}
    (h : t.kind ≠ .rbrace) (hs : (stmt (t :: more)).Gives (some s) c [])
    (hr : (stmts c.tail).Gives ss r []) : (stmts (t :: more)).Gives (s :: ss) r [] := by
  obtain ⟨hsv, hsc, hsi⟩ := hs
  obtain ⟨hrv, hrr, hri⟩ := hr
  have : (stmts (t :: more)).Gives _ _ _ := stmts_cons h
  rw [hsv, hsc, hsi, hrv, hrr, hri] at this
  exact this

theorem stmt_bind_of {l x a : Token} {more c : List Token} {e : Expr} (hl : l.kind = .kwLet)
    (hx : x.kind = .ident) (ha : a.kind = .assign) (he : (expr lowest more).Gives e c []) :
    (stmt (l :: x :: a :: more)).Gives (some (.bind x.text e)) (skipSemicolon c) [] := by
  obtain ⟨hv, hc, hi⟩ := he
  have : (stmt (l :: x :: a :: more)).Gives _ _ _ := stmt_bind hl hx ha
  rwa [hv, hc, hi] at this

theorem stmt_ret_of {r : Token} {more c : List Token} {e : Expr} (hr : r.kind = .kwReturn)
    (he : (expr lowest more).Gives e c []) :
    (stmt (r :: more)).Gives (some (.ret e)) (skipSemicolon c) [] := by
  obtain ⟨hv, hc, hi⟩ := he
  have : (stmt (r :: more)).Gives _ _ _ := stmt_ret hr
  rwa [hv, hc, hi] at this

theorem stmt_expr_of {t : Token} {more c : List Token} {e : Expr} (hl : t.kind ≠ .kwLet)
    (hr : t.kind ≠ .kwReturn) (he : (expr lowest (t :: more)).Gives e c []) :
    (stmt (t :: more)).Gives (some (.expr e)) (skipSemicolon c) [] := by
  obtain ⟨hv, hc, hi⟩ := he
  have : (stmt (t :: more)).Gives _ _ _ := stmt_expr hl hr
  rwa [hv, hc, hi] at this

end Sugiru.Parser

namespace Sugiru.Grammar

open Sugiru.Parser

/-! ## Reading power and what follows a run -/

/-- A parser reading at power `p` takes every token that continues an expression of
    level `n`. -/
def TakesAt (p n : Nat) : Prop := ∀ t, Continues n t → p < t.kind.power

/-- What may follow a run ending as `k` inside an expression that stops before level `m`:
    nothing after a block left open, no `else` after an `if` that has none, and no token
    that continues level `m`. -/
def Follows (m : Nat) (k : Ending) (ys : List Token) : Prop :=
  (k = .unclosed → ys = []) ∧
    ∀ y ∈ ys.head?, ¬ Continues m y ∧ (k = .dangling → y.kind ≠ .kwElse)

theorem TakesAt.mono {p n m : Nat} (h : TakesAt p n) (hnm : n ≤ m) : TakesAt p m :=
  fun t ht => h t (ht.mono hnm)

theorem takesAt_of_le {p n : Nat} (h : p ≤ n + 1) (hn : n ≤ 5) : TakesAt p n := by
  intro t ht
  have := (continues_iff_power hn).1 ht
  omega

/-- The operand of a prefix operator is read at a power that still takes calls. -/
theorem takesAt_prefix : TakesAt prefixPower 4 := by
  rintro t (⟨m, hm, h4⟩ | ⟨hk, -⟩)
  · have := binLevel_le hm
    omega
  · simp [hk, TokenKind.power, prefixPower]

theorem Follows.mono {m n : Nat} {k : Ending} {ys : List Token} (h : Follows m k ys)
    (hmn : m ≤ n) : Follows n k ys :=
  ⟨h.1, fun y hy => ⟨fun hc => (h.2 y hy).1 (hc.mono hmn), (h.2 y hy).2⟩⟩

/-- Anything may follow a run at the end of the input. -/
theorem follows_nil (m : Nat) (k : Ending) : Follows m k [] := ⟨fun _ => rfl, by simp⟩

/-- Past its first token, what follows a run does not matter. -/
theorem Follows.of_append {m : Nat} {k : Ending} {y : Token} {ws zs : List Token}
    (h : Follows m k (y :: ws ++ zs)) : Follows m k (y :: ws) :=
  ⟨fun hk => absurd (h.1 hk) (List.cons_ne_nil _ _), by simpa using h.2⟩

/-- A token that neither continues level `m` nor is an `else` may follow any run that is
    not open. -/
theorem follows_cons {m : Nat} {k : Ending} {y : Token} {ys : List Token} (hk : k ≠ .unclosed)
    (hc : ¬ Continues m y) (he : y.kind ≠ .kwElse) : Follows m k (y :: ys) :=
  ⟨fun h => absurd h hk, by simpa using ⟨hc, fun _ => he⟩⟩

/-- After a run that a token of level `m` may not follow, the operator loop at power
    `m + 1` stops. -/
theorem Follows.stops {m : Nat} {k : Ending} {xs ys : List Token} (h : Follows m k ys)
    (hm : m ≤ 5) (hxs : xs ≠ []) :
    ∀ o ∈ (cursorAfter xs ys k.isOpen).tail.head?, o.kind.power ≤ m + 1 := by
  rw [tail_cursorAfter hxs _ fun hk => h.1 (Ending.isOpen_eq_true.1 hk)]
  intro o ho
  have := mt (continues_iff_power hm).2 (h.2 o ho).1
  omega

/-- A closing token follows any expression that is not open. -/
theorem follows_closer {m : Nat} {k : Ending} {y : Token} {ys : List Token}
    (hk : k ≠ .unclosed) (hb : binLevel? y.kind = none) (hl : y.kind ≠ .lparen)
    (he : y.kind ≠ .kwElse) : Follows m k (y :: ys) :=
  follows_cons hk (not_continues_of_binLevel hb hl) he

/-! ## Parameter lists -/

/-- After a parameter name, the rest of the list is read onto the names so far. -/
theorem Params.complete_tail {xs : List Token} {names : List String} (P : Params xs names)
    (hne : names ≠ []) (acc : List String) (z : Token) (ys : List Token) :
    (paramsTail acc (z :: xs.tail ++ ys)).Gives (some (acc ++ names.tail))
      (cursorAfter xs ys false) [] := by
  induction P generalizing acc z with
  | nil _ => exact absurd rfl hne
  | one _ hrp =>
    have : (paramsTail acc (z :: _ :: ys)).Gives _ _ _ := paramsTail_close hrp
    simpa [cursorAfter] using this
  | cons hx hc P hne' ih =>
    obtain ⟨y, rest, ns, rfl, rfl, hy⟩ := P.head hne'
    have := ih hne' (acc ++ [y.text]) y
    rw [cursorAfter_cons _ _ _ (List.cons_ne_nil _ _),
      cursorAfter_cons _ _ _ (List.cons_ne_nil _ _)]
    exact (paramsTail_next hc hy).gives (by simpa using this)

theorem Params.complete {xs : List Token} {names : List String} (P : Params xs names)
    (lp : Token) (ys : List Token) :
    (params (lp :: xs ++ ys)).Gives (some names) (cursorAfter xs ys false) [] := by
  cases P with
  | nil hrp =>
    have : (params (lp :: _ :: ys)).Gives _ _ _ := params_empty hrp
    simpa [cursorAfter] using this
  | one hx hrp => exact (params_first hx).gives ((Params.one hx hrp).complete_tail (by simp) _ _ _)
  | cons hx hc P hne =>
    exact (params_first hx).gives ((Params.cons hx hc P hne).complete_tail (by simp) _ _ _)

/-! ## Whole expressions and statements -/

theorem takesAt_lowest : TakesAt lowest 0 := takesAt_of_le (by decide) (by decide)

/-- A whole expression that a token of level 0 may not follow is read up to its end. -/
theorem Follows.read {s : Step ts Expr} {xs ys : List Token} {e : Expr} {k : Ending}
    (hf : Follows 0 k ys) (hxs : xs ≠ [])
    (h : s.Same (infixTail lowest e (cursorAfter xs ys k.isOpen))) :
    s.Gives e (cursorAfter xs ys k.isOpen) [] :=
  h.of_stop (hf.stops (Nat.zero_le 5) hxs)

/-- What may follow the expression of a statement: the end of the input, a `;`, the next
    statement or the `}` of the block. -/
theorem follows_of_statement {k : Ending} {ys : List Token} (hu : k.isOpen = true → ys = [])
    (hy : ∀ y ∈ ys.head?, ¬ Continues 0 y ∧ y.kind ≠ .kwElse) : Follows 0 k ys :=
  ⟨fun h => hu (Ending.isOpen_eq_true.2 h),
    fun y hy' => ⟨(hy y hy').1, fun _ => (hy y hy').2⟩⟩

/-- A statement not closed by `;` is followed by the next statement or by the `}`, neither
    of which continues it or is a `;` or an `else`. -/
theorem follows_separated {ws ys : List Token} {ss : List Stmt} {u : Bool}
    (S : Statements ws ss u) (hsep : Separates ws) (hy : ∀ y ∈ ys.head?, y.kind = .rbrace) :
    ∀ y ∈ (ws ++ ys).head?,
      ¬ Continues 0 y ∧ y.kind ≠ .kwElse ∧ y.kind ≠ .semicolon := by
  intro y hy'
  cases ws with
  | nil =>
    have hk := hy y (by simpa using hy')
    exact ⟨not_continues_of_binLevel (by simp [hk, binLevel?]) (by simp [hk]), by simp [hk],
      by simp [hk]⟩
  | cons w ws =>
    have hw : y = w := by simpa [eq_comm] using hy'
    subst hw
    exact ⟨(hsep y rfl).1, (S.head y rfl).ne.2.1, (hsep y rfl).2⟩

mutual

/-- An expression run of level `n`, read at a power that takes its level, leaves the
    parser where the operator loop starts on the run's tree. -/
theorem Derives.complete {n : Nat} {xs : List Token} {e : Expr} {k : Ending}
    (D : Derives n xs e k) {p : Nat} {ys : List Token} (hp : TakesAt p n)
    (hf : Follows (n + 1) k ys) :
    (expr p (xs ++ ys)).Same (infixTail p e (cursorAfter xs ys k.isOpen)) := by
  match D with
  | .lift _ D => exact Derives.complete D (hp.mono (Nat.le_succ n)) (hf.mono (Nat.le_succ _))
  | @Derives.binary _ xs zs l r kl _ o op hlev hop Dl hkl Dr =>
    have hn := binLevel_le hlev
    -- the right operand is read at the operator's power, which stops where the run ends
    have hr : (expr o.kind.power (zs ++ ys)).Gives r (cursorAfter zs ys k.isOpen) [] := by
      rw [power_of_binLevel hlev]
      exact (Derives.complete Dr (takesAt_of_le (Nat.le_refl _) (by omega))
        (hf.mono (by omega))).of_stop (hf.stops (by omega) Dr.ne_nil)
    have hl : (expr p (xs ++ o :: (zs ++ ys))).Same
        (infixTail p l (cursorAfter xs (o :: (zs ++ ys)) kl.isOpen)) :=
      Derives.complete Dl hp (follows_cons hkl (not_continues_succ_of_binLevel hlev)
        fun h => by simp [h, binLevel?] at hlev)
    rw [Ending.isOpen_eq_false hkl, cursorAfter_closed Dl.ne_nil] at hl
    rw [cursorAfter_append _ _ _ (List.cons_ne_nil _ _), cursorAfter_cons _ _ _ Dr.ne_nil,
      List.append_assoc, List.cons_append]
    exact hl.trans (infixTail_binary_of hop (hp o (.inl ⟨n, hlev, Nat.le_refl n⟩)) hr)
  | @Derives.unary xs e' _ o op ho D =>
    have he : (expr prefixPower (xs ++ ys)).Gives e' (cursorAfter xs ys k.isOpen) [] :=
      (Derives.complete D takesAt_prefix hf).of_stop (hf.stops (by omega) D.ne_nil)
    rw [cursorAfter_cons _ _ _ D.ne_nil, List.cons_append]
    exact expr_of_operand (startsOperand_of_prefixOp? ho) (operand_prefix_of ho he)
  | .callee D => exact Derives.complete D (hp.mono (Nat.le_succ 4)) (hf.mono (Nat.le_succ _))
  | @Derives.call xs zs f as kf lp hlp Df hkf A =>
    have hpl : p < 7 := by simpa [hlp, TokenKind.power] using hp lp (.inr ⟨hlp, Nat.le_refl 5⟩)
    have ha := Args.complete A ys
    have hl : (expr p (xs ++ lp :: (zs ++ ys))).Same
        (infixTail p f (cursorAfter xs (lp :: (zs ++ ys)) kf.isOpen)) :=
      Derives.complete Df hp (follows_cons hkf (not_continues_six lp) (by simp [hlp]))
    rw [Ending.isOpen_eq_false hkf, cursorAfter_closed Df.ne_nil] at hl
    rw [cursorAfter_append _ _ _ (List.cons_ne_nil _ _), cursorAfter_cons _ _ _ A.ne_nil,
      List.append_assoc, List.cons_append]
    exact hl.trans (infixTail_call_of hlp hpl ha)
  | .atom A =>
    have ha := Atom.complete A hf
    obtain ⟨t, rest, rfl, ht⟩ := A.head
    exact expr_of_operand ht ha
termination_by structural D

/-- An atom is read whole by `operand`. -/
theorem Atom.complete {xs : List Token} {e : Expr} {k : Ending} (A : Atom xs e k)
    {ys : List Token} (hf : Follows 6 k ys) :
    (operand (xs ++ ys)).Gives e (cursorAfter xs ys k.isOpen) [] := by
  match A with
  | .ident h => exact operand_ident h
  | .int h hv => exact operand_int h hv
  | .true h => exact operand_true h
  | .false h => exact operand_false h
  | @Atom.group xs e k lp rp hlp hrp D hk =>
    have hfr : Follows 0 k (rp :: ys) :=
      follows_closer hk (by simp [hrp, binLevel?]) (by simp [hrp]) (by simp [hrp])
    have he := hfr.read D.ne_nil (Derives.complete D takesAt_lowest (hfr.mono (Nat.zero_le 1)))
    rw [Ending.isOpen_eq_false hk, cursorAfter_closed D.ne_nil] at he
    rw [Ending.isOpen_closed, cursorAfter_append_singleton, List.append_assoc, List.cons_append,
      List.singleton_append]
    exact operand_group_of hlp he hrp
  | @Atom.cond cs bs c body kc u i lp rp hi hlp hrp Dc hkc B =>
    have hfc : Follows 0 kc (rp :: (bs ++ ys)) :=
      follows_closer hkc (by simp [hrp, binLevel?]) (by simp [hrp]) (by simp [hrp])
    have hc := hfc.read Dc.ne_nil (Derives.complete Dc takesAt_lowest (hfc.mono (Nat.zero_le 1)))
    have hb := Block.complete B ys fun hu => hf.1 (by simp [hu])
    obtain ⟨lb, bs, rfl, hlb⟩ := B.head
    rw [Ending.isOpen_eq_false hkc, cursorAfter_closed Dc.ne_nil] at hc
    -- no `else` follows the block: the `if` ends here
    have hne : ∀ y ∈ (cursorAfter (lb :: bs) ys u).tail.head?, y.kind ≠ .kwElse := by
      cases u
      · rw [tail_cursorAfter (List.cons_ne_nil _ _) false (by simp)]
        exact fun y hy => (hf.2 y hy).2 rfl
      · simp
    rw [Ending.isOpen_ite, cursorAfter_append _ _ _ (List.cons_ne_nil _ _),
      cursorAfter_cons _ _ _ (List.cons_ne_nil _ _),
      show (i :: lp :: cs ++ rp :: lb :: bs) ++ ys = i :: lp :: (cs ++ rp :: lb :: (bs ++ ys))
        by simp, operand_cond hi]
    exact conditional_noElse_of hlp hc hrp hlb hb hne
  | @Atom.condElse cs bs es c body alt kc u i lp rp el hi hlp hrp Dc hkc B hel B' =>
    have hfc : Follows 0 kc (rp :: (bs ++ el :: (es ++ ys))) :=
      follows_closer hkc (by simp [hrp, binLevel?]) (by simp [hrp]) (by simp [hrp])
    have hc := hfc.read Dc.ne_nil (Derives.complete Dc takesAt_lowest (hfc.mono (Nat.zero_le 1)))
    have hb := Block.complete B (el :: (es ++ ys)) (by simp)
    have ha := Block.complete B' ys fun hu => hf.1 (by simp [Ending.ofBlock, hu])
    obtain ⟨lb, bs, rfl, hlb⟩ := B.head
    obtain ⟨lb', es, rfl, hlb'⟩ := B'.head
    rw [Ending.isOpen_eq_false hkc, cursorAfter_closed Dc.ne_nil] at hc
    rw [cursorAfter_closed (List.cons_ne_nil _ _)] at hb
    rw [Ending.isOpen_ofBlock, cursorAfter_append _ _ _ (List.cons_ne_nil _ _),
      cursorAfter_cons _ _ _ (List.cons_ne_nil _ _),
      show (i :: lp :: cs ++ rp :: lb :: bs ++ el :: lb' :: es) ++ ys =
        i :: lp :: (cs ++ rp :: lb :: (bs ++ el :: lb' :: (es ++ ys))) by simp, operand_cond hi]
    exact conditional_else_of hlp hc hrp hlb hb hel hlb' ha
  | @Atom.fn ps bs names body u f lp hk hlp P B =>
    have hp := P.complete lp (bs ++ ys)
    have hb := Block.complete B ys fun hu => hf.1 (by simp [Ending.ofBlock, hu])
    obtain ⟨lb, bs, rfl, hlb⟩ := B.head
    rw [cursorAfter_closed P.ne_nil] at hp
    rw [Ending.isOpen_ofBlock, cursorAfter_append _ _ _ (List.cons_ne_nil _ _),
      show (f :: lp :: ps ++ lb :: bs) ++ ys = f :: lp :: (ps ++ lb :: (bs ++ ys)) by simp,
      operand_fn hk]
    exact function_of hlp hp hlb hb
termination_by structural A

/-- The arguments of a call are read up to its `)`. -/
theorem Args.complete {xs : List Token} {as : List Expr} (A : Args xs as) (ys : List Token) :
    (args (xs ++ ys)).Gives (some as) (cursorAfter xs ys false) [] := by
  match A with
  | .nil hrp => exact args_close hrp
  | @Args.one xs e k rp D hk hrp =>
    have hfr : Follows 0 k (rp :: ys) :=
      follows_closer hk (by simp [hrp, binLevel?]) (by simp [hrp]) (by simp [hrp])
    have he := hfr.read D.ne_nil (Derives.complete D takesAt_lowest (hfr.mono (Nat.zero_le 1)))
    rw [Ending.isOpen_eq_false hk, cursorAfter_closed D.ne_nil] at he
    obtain ⟨t, rest, rfl, ht⟩ := D.head
    rw [cursorAfter_append_singleton, List.append_assoc, List.singleton_append]
    exact args_first_of (ne_of_startsOperand ht).2.2.1 he (argsTail_close hrp)
  | @Args.cons xs zs e es k c D hk hc A hne =>
    have hfc : Follows 0 k (c :: (zs ++ ys)) :=
      follows_closer hk (by simp [hc, binLevel?]) (by simp [hc]) (by simp [hc])
    have he := hfc.read D.ne_nil (Derives.complete D takesAt_lowest (hfc.mono (Nat.zero_le 1)))
    have ha := Args.complete_tail A hne [e] (xs.getLast D.ne_nil) c ys hc
    rw [Ending.isOpen_eq_false hk, cursorAfter_closed D.ne_nil] at he
    obtain ⟨t, rest, rfl, ht⟩ := D.head
    rw [cursorAfter_append _ _ _ (List.cons_ne_nil _ _), cursorAfter_cons _ _ _ A.ne_nil,
      List.append_assoc, List.cons_append]
    exact args_first_of (ne_of_startsOperand ht).2.2.1 he (by simpa using ha)
termination_by structural A

/-- After an argument and a `,`, the remaining arguments are read onto those so far. -/
theorem Args.complete_tail {xs : List Token} {as : List Expr} (A : Args xs as) (hne : as ≠ [])
    (acc : List Expr) (z c : Token) (ys : List Token) (hc : c.kind = .comma) :
    (argsTail acc (z :: c :: (xs ++ ys))).Gives (some (acc ++ as)) (cursorAfter xs ys false)
      [] := by
  match A with
  | .nil _ => exact absurd rfl hne
  | @Args.one xs e k rp D hk hrp =>
    have hfr : Follows 0 k (rp :: ys) :=
      follows_closer hk (by simp [hrp, binLevel?]) (by simp [hrp]) (by simp [hrp])
    have he := hfr.read D.ne_nil (Derives.complete D takesAt_lowest (hfr.mono (Nat.zero_le 1)))
    rw [Ending.isOpen_eq_false hk, cursorAfter_closed D.ne_nil] at he
    rw [cursorAfter_append_singleton, List.append_assoc, List.singleton_append]
    exact argsTail_next_of hc he (argsTail_close hrp)
  | @Args.cons xs zs e es k c' D hk hc' A hne' =>
    have hfc : Follows 0 k (c' :: (zs ++ ys)) :=
      follows_closer hk (by simp [hc', binLevel?]) (by simp [hc']) (by simp [hc'])
    have he := hfc.read D.ne_nil (Derives.complete D takesAt_lowest (hfc.mono (Nat.zero_le 1)))
    have ha := Args.complete_tail A hne' (acc ++ [e]) (xs.getLast D.ne_nil) c' ys hc'
    rw [Ending.isOpen_eq_false hk, cursorAfter_closed D.ne_nil] at he
    rw [cursorAfter_append _ _ _ (List.cons_ne_nil _ _), cursorAfter_cons _ _ _ A.ne_nil,
      List.append_assoc, List.cons_append]
    exact argsTail_next_of hc he (by simpa using ha)
termination_by structural A

/-- The statements of a block are read from after its `{`. -/
theorem Block.complete {xs : List Token} {ss : List Stmt} {u : Bool} (B : Block xs ss u)
    (ys : List Token) (hu : u → ys = []) :
    (stmts (xs.tail ++ ys)).Gives ss (cursorAfter xs ys u) [] := by
  match B with
  | @Block.closed zs ss lb rb hlb hrb S =>
    have h := Statements.complete S (rb :: ys) (by simp) (by simp [hrb])
    rw [cursorAfter_append_singleton,
      show (lb :: zs ++ [rb]).tail ++ ys = zs ++ rb :: ys by simp]
    exact h
  | @Block.unclosed zs ss u lb hlb S =>
    have h := Statements.complete S [] (by simp) (by simp)
    rw [hu rfl, List.tail_cons, List.append_nil] at *
    exact h
termination_by structural B

/-- A sequence of statements is read up to the `}` or the end of the input after it. -/
theorem Statements.complete {xs : List Token} {ss : List Stmt} {u : Bool}
    (S : Statements xs ss u) (ys : List Token) (hu : u → ys = [])
    (hy : ∀ y ∈ ys.head?, y.kind = .rbrace) : (stmts (xs ++ ys)).Gives ss ys [] := by
  match S with
  | .nil =>
    cases ys with
    | nil => exact stmts_nil
    | cons y ys => exact stmts_rbrace (hy y (by simp))
  | @Statements.semi zs ws s ss u sc St hsc S =>
    have hs := Statement.complete St (sc :: (ws ++ ys)) (by simp)
      (by simp [hsc, not_continues_of_binLevel, binLevel?])
    have hr := Statements.complete S ys hu hy
    obtain ⟨t, rest, rfl, ht⟩ := St.head
    rw [cursorAfter_closed (List.cons_ne_nil _ _), skipSemicolon_of_semicolon hsc] at hs
    rw [List.append_assoc, List.cons_append]
    exact stmts_cons_of ht.ne.1 hs hr
  | @Statements.cons zs ws s ss u St hsep S =>
    have hfw := follows_separated S hsep hy
    have hs := Statement.complete St (ws ++ ys) (by simp)
      fun y hy' => ⟨(hfw y hy').1, (hfw y hy').2.1⟩
    have hr := Statements.complete S ys hu hy
    obtain ⟨t, rest, rfl, ht⟩ := St.head
    rw [cursorAfter_closed (List.cons_ne_nil _ _),
      skipSemicolon_of_not_semicolon fun y hy' => (hfw y hy').2.2] at hs
    rw [List.append_assoc, List.cons_append]
    exact stmts_cons_of ht.ne.1 hs hr
  | @Statements.last zs s St =>
    obtain rfl := hu rfl
    have hs := Statement.complete St [] (fun _ => rfl) (by simp)
    obtain ⟨t, rest, rfl, ht⟩ := St.head
    rw [cursorAfter_open, skipSemicolon_nil] at hs
    exact stmts_cons_of ht.ne.1 hs stmts_nil
termination_by structural S

/-- A statement is read over its run, and past a `;` that follows it. -/
theorem Statement.complete {xs : List Token} {s : Stmt} {u : Bool} (St : Statement xs s u)
    (ys : List Token) (hu : u → ys = [])
    (hy : ∀ y ∈ ys.head?, ¬ Continues 0 y ∧ y.kind ≠ .kwElse) :
    (stmt (xs ++ ys)).Gives (some s) (skipSemicolon (cursorAfter xs ys u)) [] := by
  match St with
  | @Statement.bind zs e k l x a hl hx ha D =>
    have hf := follows_of_statement hu hy
    have he := hf.read D.ne_nil (Derives.complete D takesAt_lowest (hf.mono (Nat.zero_le 1)))
    rw [cursorAfter_cons _ _ _ (by simp), cursorAfter_cons _ _ _ (by simp),
      cursorAfter_cons _ _ _ D.ne_nil]
    exact stmt_bind_of hl hx ha he
  | @Statement.ret zs e k r hr D =>
    have hf := follows_of_statement hu hy
    have he := hf.read D.ne_nil (Derives.complete D takesAt_lowest (hf.mono (Nat.zero_le 1)))
    rw [cursorAfter_cons _ _ _ D.ne_nil]
    exact stmt_ret_of hr he
  | @Statement.expr zs e k D =>
    have hf := follows_of_statement hu hy
    have he := hf.read D.ne_nil (Derives.complete D takesAt_lowest (hf.mono (Nat.zero_le 1)))
    obtain ⟨t, rest, rfl, ht⟩ := D.head
    exact stmt_expr_of (ne_of_startsOperand ht).1 (ne_of_startsOperand ht).2.1 he
termination_by structural St

end

/-- A whole expression, followed by what may follow one, is read to its end with no issue. -/
theorem expr_of_derives {xs ys : List Token} {e : Expr} {k : Ending} (D : Derives 0 xs e k)
    (hf : Follows 0 k ys) : (expr lowest (xs ++ ys)).Gives e (cursorAfter xs ys k.isOpen) [] :=
  hf.read D.ne_nil (Derives.complete D takesAt_lowest (hf.mono (Nat.zero_le 1)))

/-- A whole expression that is all of the input is read to its end with no issue. -/
theorem Derives.read {xs : List Token} {e : Expr} {k : Ending} (D : Derives 0 xs e k) :
    (expr lowest xs).Gives e (cursorAfter xs [] k.isOpen) [] := by
  have h := expr_of_derives D (follows_nil 0 k)
  rwa [List.append_nil] at h

/-- The statements of a whole input are read as a program, with no issue. -/
theorem Statements.program {xs : List Token} {ss : List Stmt} {u : Bool}
    (S : Statements xs ss u) : (program xs).1 = ss ∧ (program xs).2.1 = [] := by
  -- induction on the length of the input: the statements after the first are read from
  -- the shorter input that follows it
  induction hlen : xs.length using Nat.strong_induction_on generalizing xs ss u with
  | _ m ih =>
  cases S with
  | last St =>
    have hs := Statement.complete St [] (fun _ => rfl) (by simp)
    obtain ⟨t, rest, rfl, -⟩ := St.head
    rw [cursorAfter_open, skipSemicolon_nil, List.append_nil] at hs
    rw [program_cons, hs.1, hs.2.1, hs.2.2]
    simp [Parser.program]
  | nil => simp [Parser.program]
  | @semi zs ws s ss u sc St hsc S =>
    have hs := Statement.complete St (sc :: ws) (by simp)
      (by simp [hsc, not_continues_of_binLevel, binLevel?])
    have ih := ih ws.length (by rw [← hlen]; simp; omega) S rfl
    obtain ⟨t, rest, rfl, -⟩ := St.head
    rw [cursorAfter_closed (List.cons_ne_nil _ _), skipSemicolon_of_semicolon hsc,
      List.cons_append] at hs
    rw [List.cons_append, program_cons, hs.1, hs.2.1, hs.2.2]
    simpa using ih
  | @cons zs ws s ss u St hsep S =>
    have hfw := follows_separated S hsep
      (by simp : ∀ y ∈ ([] : List Token).head?, y.kind = .rbrace)
    have hs := Statement.complete St ws (by simp)
      fun y hy' => ⟨(hfw y (by simpa using hy')).1, (hfw y (by simpa using hy')).2.1⟩
    obtain ⟨t, rest, rfl, -⟩ := St.head
    have ih := ih ws.length (by rw [← hlen]; simp) S rfl
    rw [cursorAfter_closed (List.cons_ne_nil _ _),
      skipSemicolon_of_not_semicolon fun y hy' => (hfw y (by simpa using hy')).2.2,
      List.cons_append] at hs
    rw [List.cons_append, program_cons, hs.1, hs.2.1, hs.2.2]
    simpa using ih

end Sugiru.Grammar
