import Sugiru.Proofs.Braces
import Sugiru.Proofs.ParserSound
import Sugiru.Proofs.Reference

/-!
# What the parser accepts

A program parses with no issue exactly when its tokens, followed by some number of `}`, are
a sentence of the reference grammar of `Sugiru.Reference`: the parser accepts that grammar,
except that the blocks still open at the end of the input may leave out their `}`.

One direction goes through the stratified grammar of `Sugiru.Grammar`: what the parser
reads with no issue is derived there, `}` appended close its open blocks, and a closed run
of it is a sentence. The other direction shows that the stratified grammar derives every
sentence, although the reference grammar has no levels: `a - b * c` is
`expression operator expression` however it is split, and `f (x)` is one call or the
statement `f` followed by the statement `(x)`.

Two facts carry that direction. An expression run is a chain of operands of level 4 joined
by binary operators, and every chain is a run of level 0 whatever the levels of its
operators: the next operator and operand always fit under the rightmost operator of lower
level. And where a statement of a sentence is followed by one that starts with `-` or `(`,
the stratified grammar reads the two as one statement, which again is a chain: the `-` is
the binary minus, and the parenthesised operand is a call on the last operand before it.

Main results:

* `Chain.derives`: every chain of operands is an expression run of level 0.
* `Chain.glue`: a chain followed by a chain that starts with `-` or `(` is one chain.
* `Reference.IsExpr.chain`, `Reference.IsStmts.statements`: every expression of the
  reference grammar is a chain, and every sentence is a run of statements of the stratified
  grammar with all its blocks closed.
* `parse_accepts_reference_sentences`: a program parses with no issue exactly when its
  tokens, with some `}` appended, are a sentence.
-/

namespace Sugiru.Grammar

/-! ## Operator chains -/

/-- A run of operands of level 4 joined by binary operators, every operand but the last
    ending outside every block. -/
inductive Chain : List Token → Ending → Prop
  | single {xs : List Token} {e : Expr} {k : Ending} : Derives 4 xs e k → Chain xs k
  | cons {xs ys : List Token} {e : Expr} {ka k : Ending} {o : Token} {m : Nat} :
      Derives 4 xs e ka → ka ≠ .unclosed → binLevel? o.kind = some m → Chain ys k →
      Chain (xs ++ o :: ys) k

theorem Chain.append {xs ys : List Token} {k1 k : Ending} {o : Token} {m : Nat}
    (C : Chain xs k1) (hk1 : k1 ≠ .unclosed) (hb : binLevel? o.kind = some m)
    (C' : Chain ys k) : Chain (xs ++ o :: ys) k := by
  induction C with
  | single D => exact .cons D hk1 hb C'
  | cons D hka hb' _ ih => simpa using Chain.cons D hka hb' (ih hk1)

/-- An atom is a chain of one operand. -/
theorem Chain.ofAtom {xs : List Token} {e : Expr} {k : Ending} (A : Atom xs e k) : Chain xs k :=
  .single (.callee (.atom A))

/-- Every expression run is a chain: its operators, read left to right, at any level. -/
theorem Derives.chain {n : Nat} {xs : List Token} {e : Expr} {k : Ending} :
    Derives n xs e k → Chain xs k
  | .atom A => .ofAtom A
  | .lift _ D => D.chain
  | .binary hb _ Dl hkl Dr => Dl.chain.append hkl hb Dr.chain
  | .unary ho D => .single (.unary ho D)
  | .callee D => .single (.callee D)
  | .call hlp D hkf A => .single (.callee (.call hlp D hkf A))

theorem Chain.head {xs : List Token} {k : Ending} (C : Chain xs k) :
    ∃ t rest, xs = t :: rest ∧ t.kind.startsOperand = true := by
  cases C with
  | single D => exact D.head
  | cons D _ _ _ =>
    obtain ⟨t, rest, rfl, h⟩ := D.head
    exact ⟨t, _, rfl, h⟩

/-! ## Regrouping a chain by levels -/

/-- A run of level `n` ending outside every block, an operator of level `m ≥ n` and an
    operand of level `m + 1` make a run of level `n`: the operator takes as its left operand
    the part of the run after the rightmost operator of level below `m`. -/
theorem Derives.extend {n m : Nat} {xs ys : List Token} {l r : Expr} {kl k : Ending}
    {o : Token} (D : Derives n xs l kl) (hkl : kl ≠ .unclosed)
    (hb : binLevel? o.kind = some m) (hnm : n ≤ m) (R : Derives (m + 1) ys r k) :
    ∃ e, Derives n (xs ++ o :: ys) e k := by
  obtain ⟨op, hop⟩ := infixOp?_of_binLevel hb
  match D with
  | .lift hn D' =>
    rcases Nat.eq_or_lt_of_le hnm with h | h
    · subst h
      exact ⟨_, .binary hb hop (.lift hn D') hkl R⟩
    · obtain ⟨e, D''⟩ := D'.extend hkl hb h R
      exact ⟨e, .lift hn D''⟩
  | .binary hb' hop' Dl hkl' Dr =>
    rcases Nat.eq_or_lt_of_le hnm with h | h
    · subst h
      exact ⟨_, .binary hb hop (.binary hb' hop' Dl hkl' Dr) hkl R⟩
    · -- the new operator binds tighter: it extends the right operand
      obtain ⟨e, Dr'⟩ := Dr.extend hkl hb h R
      exact ⟨_, by simpa using Derives.binary hb' hop' Dl hkl' Dr'⟩
  | .unary _ _ | .callee _ | .call .. | .atom _ =>
    have := binLevel_le hb
    omega
termination_by structural D

/-- A run of level 0 followed by an operator and a chain is a run of level 0. -/
theorem Chain.extend {ys : List Token} {k : Ending} (C : Chain ys k) :
    ∀ {xs : List Token} {l : Expr} {kl : Ending} {o : Token} {m : Nat},
      Derives 0 xs l kl → kl ≠ .unclosed → binLevel? o.kind = some m →
      ∃ e, Derives 0 (xs ++ o :: ys) e k := by
  induction C with
  | single R =>
    intro xs l kl o m D hkl hb
    have := binLevel_le hb
    exact D.extend hkl hb (Nat.zero_le m) (R.lower (by omega) (by omega))
  | cons Ra hka hb' _ ih =>
    intro xs l kl o m D hkl hb
    have := binLevel_le hb
    obtain ⟨e, D'⟩ := D.extend hkl hb (Nat.zero_le m) (Ra.lower (by omega) (by omega))
    obtain ⟨e', D''⟩ := ih D' hka hb'
    exact ⟨e', by simpa using D''⟩

/-- Every chain is an expression run of level 0. -/
theorem Chain.derives {xs : List Token} {k : Ending} : Chain xs k → ∃ e, Derives 0 xs e k
  | .single D => ⟨_, D.lower (Nat.zero_le 4) (by omega)⟩
  | .cons D hka hb C => C.extend (D.lower (Nat.zero_le 4) (by omega)) hka hb

/-! ## Prefix operators and calls on a chain -/

theorem Chain.unary {xs : List Token} {k : Ending} {o : Token} {op : PrefixOp}
    (ho : prefixOp? o.kind = some op) : Chain xs k → Chain (o :: xs) k
  | .single D => .single (.unary ho D)
  | .cons D hka hb C => .cons (.unary ho D) hka hb C

/-- A call suffix applies to any run of level 4 or 5, under its prefix operators. -/
theorem Derives.callSuffix {n : Nat} {xs ys : List Token} {f : Expr} {as : List Expr}
    {k : Ending} {lp : Token} (D : Derives n xs f k) (hn : 4 ≤ n) (hk : k ≠ .unclosed)
    (hlp : lp.kind = .lparen) (A : Args ys as) : ∃ e, Derives n (xs ++ lp :: ys) e .closed := by
  match D with
  | .lift h _ => omega
  | .binary hb .. =>
    have := binLevel_le hb
    omega
  | .unary ho D' =>
    obtain ⟨e, D''⟩ := D'.callSuffix (Nat.le_refl 4) hk hlp A
    exact ⟨_, .unary ho D''⟩
  | .callee D' => exact ⟨_, .callee (.call hlp D' hk A)⟩
  | .call hlp' F hkf A' => exact ⟨_, .call hlp (.call hlp' F hkf A') hk A⟩
  | .atom A' => exact ⟨_, .call hlp (.atom A') hk A⟩
termination_by structural D

/-- A call applies to the last operand of a chain. -/
theorem Chain.call {xs ys : List Token} {k : Ending} {as : List Expr} {lp : Token}
    (hlp : lp.kind = .lparen) (A : Args ys as) (C : Chain xs k) (hk : k ≠ .unclosed) :
    Chain (xs ++ lp :: ys) .closed := by
  induction C with
  | single D =>
    obtain ⟨e, D'⟩ := D.callSuffix (Nat.le_refl 4) hk hlp A
    exact .single D'
  | cons D hka hb _ ih => simpa using Chain.cons D hka hb (ih hk)

/-! ## What an operand starts with -/

theorem head?_append_of_ne_nil {α : Type} {xs ys : List α} (h : xs ≠ []) :
    (xs ++ ys).head? = xs.head? := by
  cases xs with
  | nil => exact absurd rfl h
  | cons x xs => rfl

theorem Atom.head_not_prefix {xs : List Token} {e : Expr} {k : Ending} (A : Atom xs e k) :
    ∀ t ∈ xs.head?, prefixOp? t.kind = none := by
  cases A <;> simp_all [prefixOp?]

/-- A run of level 5 does not start with a prefix operator. -/
theorem Derives.head_not_prefix {n : Nat} {xs : List Token} {e : Expr} {k : Ending}
    (D : Derives n xs e k) (hn : 5 ≤ n) : ∀ t ∈ xs.head?, prefixOp? t.kind = none := by
  match D with
  | .lift h _ | .unary .. | .callee _ => omega
  | .binary hb .. =>
    have := binLevel_le hb
    omega
  | .call _ F _ _ =>
    rw [head?_append_of_ne_nil F.ne_nil]
    exact F.head_not_prefix (Nat.le_refl 5)
  | .atom A => exact A.head_not_prefix
termination_by structural D

/-- An operand that starts with a prefix operator applies it to an operand. -/
theorem Derives.of_unary {xs : List Token} {e : Expr} {k : Ending} {o : Token}
    {op : PrefixOp} (ho : prefixOp? o.kind = some op) (D : Derives 4 (o :: xs) e k) :
    ∃ e', Derives 4 xs e' k := by
  generalize hys : o :: xs = ys at D
  cases D with
  | lift h _ => omega
  | binary hb =>
    have := binLevel_le hb
    omega
  | unary _ D' =>
    obtain ⟨-, rfl⟩ := List.cons.inj hys
    exact ⟨_, D'⟩
  | callee D' =>
    subst hys
    simpa [ho] using D'.head_not_prefix (Nat.le_refl 5) o (by simp)

/-- An operand that starts with `(` is a run of level 5. -/
theorem Derives.callee_of_lparen {xs : List Token} {e : Expr} {k : Ending} (D : Derives 4 xs e k)
    (hy : ∀ t ∈ xs.head?, t.kind = .lparen) : Derives 5 xs e k := by
  cases D with
  | lift h _ => omega
  | binary hb =>
    have := binLevel_le hb
    omega
  | unary ho _ =>
    have := hy _ rfl
    simp_all [prefixOp?]
  | callee D' => exact D'

theorem Chain.of_unary {zs : List Token} {k : Ending} {o : Token} {op : PrefixOp}
    (ho : prefixOp? o.kind = some op) (C : Chain (o :: zs) k) : Chain zs k := by
  generalize hys : o :: zs = ys at C
  cases C with
  | single D =>
    subst hys
    obtain ⟨_, D'⟩ := D.of_unary ho
    exact .single D'
  | @cons a rest _ _ _ _ _ D hka hb C' =>
    -- the operator starts the first operand
    cases a with
    | nil => exact absurd rfl D.ne_nil
    | cons t a =>
      obtain ⟨rfl, rfl⟩ : o = t ∧ zs = a ++ _ :: rest := by simpa using hys
      obtain ⟨_, D'⟩ := D.of_unary ho
      exact .cons D' hka hb C'

/-! ## Gluing a parenthesised operand as a call -/

/-- A run of level 5 that starts with `(` is a call on any callee it follows: its group is
    the first argument list, and the calls after it apply in turn. -/
theorem Atom.callTail {ys fs : List Token} {e f : Expr} {k kf : Ending} (A : Atom ys e k)
    (hy : ∀ t ∈ ys.head?, t.kind = .lparen) (F : Derives 5 fs f kf) (hkf : kf ≠ .unclosed) :
    ∃ e', Derives 5 (fs ++ ys) e' k := by
  cases A with
  | group hlp hrp D hk => exact ⟨_, Derives.call hlp F hkf (.one D hk hrp)⟩
  | ident h | int h _ | true h | false h | cond h | condElse h | fn h => simp_all

theorem Derives.callTail {n : Nat} {ys fs : List Token} {e f : Expr} {k kf : Ending}
    (Y : Derives n ys e k) (hn : 5 ≤ n) (hy : ∀ t ∈ ys.head?, t.kind = .lparen)
    (F : Derives 5 fs f kf) (hkf : kf ≠ .unclosed) : ∃ e', Derives 5 (fs ++ ys) e' k := by
  match Y with
  | .lift h _ | .unary .. | .callee _ => omega
  | .binary hb .. =>
    have := binLevel_le hb
    omega
  | .call hlp Y' hky A =>
    rw [head?_append_of_ne_nil Y'.ne_nil] at hy
    obtain ⟨e', F'⟩ := Y'.callTail (Nat.le_refl 5) hy F hkf
    exact ⟨_, by simpa using Derives.call hlp F' hky A⟩
  | .atom A => exact A.callTail hy F hkf
termination_by structural Y

/-- A run of level 5 that starts with `(` continues an operand as a call on its callee. -/
theorem Derives.glue {n : Nat} {b ys : List Token} {eb e : Expr} {kb k : Ending}
    (B : Derives n b eb kb) (hn : 4 ≤ n) (hkb : kb ≠ .unclosed) (Y : Derives 5 ys e k)
    (hy : ∀ t ∈ ys.head?, t.kind = .lparen) : ∃ e', Derives n (b ++ ys) e' k := by
  match B with
  | .lift h _ => omega
  | .binary hb .. =>
    have := binLevel_le hb
    omega
  | .unary ho B' =>
    obtain ⟨e', B''⟩ := B'.glue (Nat.le_refl 4) hkb Y hy
    exact ⟨_, .unary ho B''⟩
  | .callee B' =>
    obtain ⟨e', B''⟩ := Y.callTail (Nat.le_refl 5) hy B' hkb
    exact ⟨_, .callee B''⟩
  | .call hlp F hkf A => exact Y.callTail (Nat.le_refl 5) hy (.call hlp F hkf A) hkb
  | .atom A => exact Y.callTail (Nat.le_refl 5) hy (.atom A) hkb
termination_by structural B

theorem Chain.glueOperand {xs ys : List Token} {k1 k : Ending} {e : Expr} (C : Chain xs k1)
    (hk1 : k1 ≠ .unclosed) (Y : Derives 5 ys e k) (hy : ∀ t ∈ ys.head?, t.kind = .lparen) :
    Chain (xs ++ ys) k := by
  induction C with
  | single B =>
    obtain ⟨e', B'⟩ := B.glue (Nat.le_refl 4) hk1 Y hy
    exact .single B'
  | cons B hka hb _ ih => simpa using Chain.cons B hka hb (ih hk1)

theorem continues_of_startsOperand {t : Token} (hs : t.kind.startsOperand = true)
    (hc : Continues 0 t) : t.kind = .minus ∨ t.kind = .lparen := by
  rcases hc with ⟨m, hm, -⟩ | ⟨hl, -⟩
  · left
    cases h : t.kind <;> simp_all [binLevel?, TokenKind.startsOperand]
  · exact .inr hl

/-- A chain followed by a chain that starts with `(` is one chain, the first operand after
    the `(` a call on the last operand before it. -/
theorem Chain.glueCall {xs ys : List Token} {k1 k : Ending} (C : Chain xs k1)
    (hk1 : k1 ≠ .unclosed) (C' : Chain ys k) (hy : ∀ t ∈ ys.head?, t.kind = .lparen) :
    Chain (xs ++ ys) k := by
  cases C' with
  | single D => exact C.glueOperand hk1 (D.callee_of_lparen hy) hy
  | cons D hka hb C'' =>
    rw [head?_append_of_ne_nil D.ne_nil] at hy
    simpa using (C.glueOperand hk1 (D.callee_of_lparen hy) hy).append hka hb C''

/-- A chain followed by a chain that starts with a token continuing it is one chain: a `-`
    is the binary minus, and a `(` makes the first operand after it a call on the last
    operand before it. -/
theorem Chain.glue {xs ys : List Token} {k1 k : Ending} (C : Chain xs k1)
    (hk1 : k1 ≠ .unclosed) (C' : Chain ys k) (hy : ∀ t ∈ ys.head?, Continues 0 t) :
    Chain (xs ++ ys) k := by
  obtain ⟨t, zs, hys, ht⟩ := C'.head
  rcases continues_of_startsOperand ht (hy t (by simp [hys])) with hm | hl
  · subst hys
    have hb : binLevel? t.kind = some 2 := by rw [hm]; rfl
    have ho : prefixOp? t.kind = some .neg := by rw [hm]; rfl
    exact C.append hk1 hb (C'.of_unary ho)
  · exact C.glueCall hk1 C' (by simp [hys, hl])

/-! ## Statements as a lead and a chain -/

/-- What stands before the expression of a statement: `let x =`, `return`, or nothing. -/
inductive Lead : List Token → Prop
  | bind {l x a : Token} :
      l.kind = .kwLet → x.kind = .ident → a.kind = .assign → Lead [l, x, a]
  | ret {r : Token} : r.kind = .kwReturn → Lead [r]
  | expr : Lead []

theorem Lead.statement {pre xs : List Token} {e : Expr} {k : Ending} (L : Lead pre)
    (D : Derives 0 xs e k) : ∃ s, Statement (pre ++ xs) s k.isOpen := by
  cases L with
  | bind hl hx ha => exact ⟨_, .bind hl hx ha D⟩
  | ret hr => exact ⟨_, .ret hr D⟩
  | expr => exact ⟨_, .expr D⟩

/-- A lead and a chain that ends outside every block make a statement. -/
theorem Lead.closedStatement {pre w : List Token} {k : Ending} (L : Lead pre) (C : Chain w k)
    (hk : k ≠ .unclosed) : ∃ s, Statement (pre ++ w) s false := by
  obtain ⟨e, D⟩ := C.derives
  obtain ⟨s, St⟩ := L.statement D
  rw [Ending.isOpen_eq_false hk] at St
  exact ⟨s, St⟩

/-- A statement whose expression is followed by a statement starting with a token that
    continues it reads the two as one statement. -/
theorem Lead.merge {pre w ys : List Token} {s : Stmt} {k : Ending} {u : Bool} (L : Lead pre)
    (C : Chain w k) (hk : k ≠ .unclosed) (St : Statement ys s u) (hu : u = false)
    (hy : ∀ t ∈ ys.head?, Continues 0 t) : ∃ s', Statement (pre ++ w ++ ys) s' false := by
  cases St with
  | bind hl => exact absurd (hy _ rfl) (not_continues_of_binLevel (by simp [hl, binLevel?])
      (by simp [hl]))
  | ret hr => exact absurd (hy _ rfl) (not_continues_of_binLevel (by simp [hr, binLevel?])
      (by simp [hr]))
  | expr D =>
    obtain ⟨e, D'⟩ := (C.glue hk D.chain hy).derives
    obtain ⟨s', St'⟩ := L.statement D'
    rw [hu] at St'
    exact ⟨s', by simpa using St'⟩

/-- Statements whose first token does not continue an expression are separated from the
    statement before them. -/
theorem Statements.separates {ys : List Token} {ss : List Stmt} {u : Bool}
    (S : Statements ys ss u) (hy : ¬ ∀ t ∈ ys.head?, Continues 0 t) : Separates ys := by
  intro t ht
  refine ⟨fun hc => hy fun t' ht' => ?_, (S.head t ht).ne.2.2⟩
  rwa [← Option.mem_unique ht ht']

/-- A statement, as its lead and its chain, before statements of the stratified grammar:
    where the next statement continues its expression the two are one statement. -/
theorem Statements.prepend {pre w ys : List Token} {ss : List Stmt} {k : Ending}
    (L : Lead pre) (C : Chain w k) (hk : k ≠ .unclosed) (S : Statements ys ss false) :
    ∃ ss', Statements (pre ++ w ++ ys) ss' false := by
  obtain ⟨s, St⟩ := L.closedStatement C hk
  by_cases hy : ∀ t ∈ ys.head?, Continues 0 t
  · cases S with
    | nil => exact ⟨[s], .cons St (by simp [Separates]) .nil⟩
    | semi St1 hsc S' =>
      rw [head?_append_of_ne_nil St1.ne_nil] at hy
      obtain ⟨s', St'⟩ := L.merge C hk St1 rfl hy
      exact ⟨_, by simpa using Statements.semi St' hsc S'⟩
    | cons St1 hsep S' =>
      rw [head?_append_of_ne_nil St1.ne_nil] at hy
      obtain ⟨s', St'⟩ := L.merge C hk St1 rfl hy
      exact ⟨_, by simpa using Statements.cons St' hsep S'⟩
  · exact ⟨_, .cons St (S.separates hy) S⟩

theorem prefixOp?_of_kind {k : TokenKind} (h : k = .bang ∨ k = .minus) :
    ∃ op, prefixOp? k = some op := by
  rcases h with rfl | rfl
  · exact ⟨_, rfl⟩
  · exact ⟨_, rfl⟩

theorem binLevel_of_isSome {k : TokenKind} (h : k.infixOp?.isSome = true) :
    ∃ m, binLevel? k = some m := by
  obtain ⟨op, hop⟩ := Option.isSome_iff_exists.1 h
  exact binLevel_of_infixOp? hop

theorem derives_of_chain {xs : List Token} (h : ∃ k, k ≠ .unclosed ∧ Chain xs k) :
    ∃ e k, k ≠ .unclosed ∧ Derives 0 xs e k := by
  obtain ⟨k, hk, C⟩ := h
  obtain ⟨e, D⟩ := C.derives
  exact ⟨e, k, hk, D⟩

end Sugiru.Grammar

namespace Sugiru.Reference

open Grammar

mutual

/-- Every expression of the reference grammar is a chain that ends outside every block. -/
theorem IsExpr.chain {xs : List Token} (E : IsExpr xs) : ∃ k, k ≠ .unclosed ∧ Chain xs k := by
  match E with
  | .ident h => exact ⟨_, by simp, .ofAtom (.ident h)⟩
  | .int h hv => exact ⟨_, by simp, .ofAtom (.int h hv)⟩
  | .trueLit h => exact ⟨_, by simp, .ofAtom (.true h)⟩
  | .falseLit h => exact ⟨_, by simp, .ofAtom (.false h)⟩
  | .unary ho E' =>
    obtain ⟨k, hk, C⟩ := IsExpr.chain E'
    obtain ⟨op, hop⟩ := prefixOp?_of_kind ho
    exact ⟨k, hk, C.unary hop⟩
  | .binary hi E1 E2 =>
    obtain ⟨k1, hk1, left⟩ := IsExpr.chain E1
    obtain ⟨k, hk, right⟩ := IsExpr.chain E2
    obtain ⟨m, hb⟩ := binLevel_of_isSome hi
    exact ⟨k, hk, left.append hk1 hb right⟩
  | .group hlp E' hrp =>
    obtain ⟨e, k, hk, D⟩ := derives_of_chain (IsExpr.chain E')
    exact ⟨_, by simp, .ofAtom (.group hlp hrp D hk)⟩
  | .cond hi hlp E' hrp B =>
    obtain ⟨e, k, hk, D⟩ := derives_of_chain (IsExpr.chain E')
    obtain ⟨body, B'⟩ := IsBlock.block B
    exact ⟨_, by simp, .ofAtom (.cond hi hlp hrp D hk B')⟩
  | .condElse hi hlp E' hrp B hel B2 =>
    obtain ⟨e, k, hk, D⟩ := derives_of_chain (IsExpr.chain E')
    obtain ⟨body, B'⟩ := IsBlock.block B
    obtain ⟨alt, B2'⟩ := IsBlock.block B2
    exact ⟨_, by simp [Ending.ofBlock], .ofAtom (.condElse hi hlp hrp D hk B' hel B2')⟩
  | .fn hf hlp P B =>
    obtain ⟨body, B'⟩ := IsBlock.block B
    exact ⟨_, by simp [Ending.ofBlock], .ofAtom (.fn hf hlp P B')⟩
  | .call E' hlp A =>
    obtain ⟨k, hk, C⟩ := IsExpr.chain E'
    obtain ⟨as, A'⟩ := IsArgs.args A
    exact ⟨_, by simp, C.call hlp A' hk⟩
termination_by structural E

theorem IsArgs.args {xs : List Token} (A : IsArgs xs) : ∃ as, Args xs as := by
  match A with
  | .close hrp => exact ⟨[], .nil hrp⟩
  | .list L =>
    obtain ⟨as, -, A'⟩ := IsArgList.args L
    exact ⟨as, A'⟩
termination_by structural A

theorem IsArgList.args {xs : List Token} (L : IsArgList xs) : ∃ as, as ≠ [] ∧ Args xs as := by
  match L with
  | .last E hrp =>
    obtain ⟨e, k, hk, D⟩ := derives_of_chain (IsExpr.chain E)
    exact ⟨[e], by simp, .one D hk hrp⟩
  | .cons E hc L' =>
    obtain ⟨e, k, hk, D⟩ := derives_of_chain (IsExpr.chain E)
    obtain ⟨as, hne, A⟩ := IsArgList.args L'
    exact ⟨e :: as, by simp, .cons D hk hc A hne⟩
termination_by structural L

theorem IsBlock.block {xs : List Token} (B : IsBlock xs) : ∃ ss, Block xs ss false := by
  match B with
  | .mk hlb S hrb =>
    obtain ⟨ss, S'⟩ := IsStmts.statements S
    exact ⟨ss, .closed hlb hrb S'⟩
termination_by structural B

/-- A statement of the reference grammar is a lead followed by a chain. -/
theorem IsStmt.lead {xs : List Token} (St : IsStmt xs) :
    ∃ pre w k, xs = pre ++ w ∧ Lead pre ∧ k ≠ .unclosed ∧ Chain w k := by
  match St with
  | @IsStmt.bind w l x a hl hx ha E =>
    obtain ⟨k, hk, C⟩ := IsExpr.chain E
    exact ⟨[l, x, a], w, k, rfl, .bind hl hx ha, hk, C⟩
  | @IsStmt.ret w r hr E =>
    obtain ⟨k, hk, C⟩ := IsExpr.chain E
    exact ⟨[r], w, k, rfl, .ret hr, hk, C⟩
  | @IsStmt.expr w E =>
    obtain ⟨k, hk, C⟩ := IsExpr.chain E
    exact ⟨[], w, k, rfl, .expr, hk, C⟩
termination_by structural St

/-- Every sentence of the reference grammar is a run of statements of the stratified
    grammar, with all its blocks closed. -/
theorem IsStmts.statements {xs : List Token} (S : IsStmts xs) :
    ∃ ss, Statements xs ss false := by
  match S with
  | .nil => exact ⟨[], .nil⟩
  | .cons St S' =>
    obtain ⟨ss, S''⟩ := IsStmts.statements S'
    obtain ⟨pre, w, k, hxs, L, hk, C⟩ := IsStmt.lead St
    rw [hxs]
    exact Statements.prepend L C hk S''
  | .semi St hsc S' =>
    obtain ⟨ss, S''⟩ := IsStmts.statements S'
    obtain ⟨pre, w, k, hxs, L, hk, C⟩ := IsStmt.lead St
    obtain ⟨s, St'⟩ := L.closedStatement C hk
    rw [hxs]
    exact ⟨_, .semi St' hsc S''⟩
termination_by structural S

end

end Sugiru.Reference

namespace Sugiru

open Grammar Sugiru.Parser

/-- A program parses with no issue exactly when its tokens, followed by some number of `}`,
    are a sentence of the reference grammar. -/
theorem parse_accepts_reference_sentences (s : String) :
    (Program.parse s).issues = [] ↔
      ∃ k, Reference.IsProgram (Token.scan s ++ List.replicate k ⟨.rbrace, "\x7d"⟩) := by
  have hrb : (⟨.rbrace, "\x7d"⟩ : Token).kind = .rbrace := rfl
  rw [Program.parse, Program.ofTokens_issues]
  constructor
  · -- the parser's statements, their open blocks closed, are a sentence
    intro h
    obtain ⟨u, S⟩ := program_sound (Token.scan s) h
    obtain ⟨j, S'⟩ := S.close hrb
    exact ⟨j, S'.isStmts rfl⟩
  · -- a sentence is a run of statements; without its `}` the parser reads it
    rintro ⟨k, P⟩
    obtain ⟨ss, S⟩ := Reference.IsStmts.statements P
    obtain ⟨v, S'⟩ := Statements.unbraceAll hrb k S
    exact S'.program.2

end Sugiru
