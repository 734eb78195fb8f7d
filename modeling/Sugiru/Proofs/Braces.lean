import Sugiru.Proofs.Grammar

/-!
# Blocks left open at the end of the input

The stratified grammar lets the blocks still open at the end of the input go without
their `}`. Such a run, with as many `}` appended as blocks are open, is a run whose blocks
are all closed, with the same tree; and a run that ends with a `}` is, without it, a run
whose last block is open, again with the same tree. So a run with open blocks is a closed
run with some `}` taken off its end.

Main results:

* `Statements.close`: `}` appended to statements close every block left open.
* `Statements.unbrace`: statements that end with a `}` are, without it, statements whose
  last block is open.
* `Statements.unbraceAll`: the same for any number of `}`.
-/

namespace Sugiru.Grammar

variable {rb : Token}

/-- A `}` neither continues an expression nor is a `;`, so it separates statements. -/
theorem Separates.append_braces (hrb : rb.kind = .rbrace) {ys : List Token}
    (h : Separates ys) (j : Nat) : Separates (ys ++ List.replicate j rb) := by
  intro t ht
  cases ys with
  | cons y ys => exact h t (by simpa using ht)
  | nil =>
    cases j with
    | zero => exact nomatch ht
    | succ j =>
      obtain rfl : t = rb := by simpa [List.replicate_succ] using ht.symm
      exact ⟨not_continues_of_binLevel (by simp [hrb, binLevel?]) (by simp [hrb]),
        by simp [hrb]⟩

theorem Separates.of_append {ws : List Token} {z : Token} (h : Separates (ws ++ [z])) :
    Separates ws := by
  intro t ht
  cases ws with
  | nil => exact nomatch ht
  | cons w ws => exact h t (by simpa using ht)

/-! ## Closing every open block -/

mutual

/-- An expression run, with `}` appended for its open blocks, ends outside every block. -/
theorem Derives.close (hrb : rb.kind = .rbrace) {n : Nat} {xs : List Token} {e : Expr}
    {k : Ending} (D : Derives n xs e k) :
    ∃ j k', k' ≠ .unclosed ∧ Derives n (xs ++ List.replicate j rb) e k' := by
  match D with
  | .lift hn D =>
    obtain ⟨j, k', hk', D'⟩ := Derives.close hrb D
    exact ⟨j, k', hk', .lift hn D'⟩
  | .binary hb ho Dl hkl Dr =>
    obtain ⟨j, k', hk', Dr'⟩ := Derives.close hrb Dr
    exact ⟨j, k', hk', by simpa using Derives.binary hb ho Dl hkl Dr'⟩
  | .unary ho D =>
    obtain ⟨j, k', hk', D'⟩ := Derives.close hrb D
    exact ⟨j, k', hk', by simpa using Derives.unary ho D'⟩
  | .callee D =>
    obtain ⟨j, k', hk', D'⟩ := Derives.close hrb D
    exact ⟨j, k', hk', .callee D'⟩
  | .call hlp D hkf A => exact ⟨0, .closed, by simp, by simpa using Derives.call hlp D hkf A⟩
  | .atom A =>
    obtain ⟨j, k', hk', A'⟩ := Atom.close hrb A
    exact ⟨j, k', hk', .atom A'⟩
termination_by structural D

theorem Atom.close (hrb : rb.kind = .rbrace) {xs : List Token} {e : Expr} {k : Ending}
    (A : Atom xs e k) : ∃ j k', k' ≠ .unclosed ∧ Atom (xs ++ List.replicate j rb) e k' := by
  match A with
  | .ident h => exact ⟨0, .closed, by simp, by simpa using Atom.ident h⟩
  | .int h hv => exact ⟨0, .closed, by simp, by simpa using Atom.int h hv⟩
  | .true h => exact ⟨0, .closed, by simp, by simpa using Atom.true h⟩
  | .false h => exact ⟨0, .closed, by simp, by simpa using Atom.false h⟩
  | .group hlp hrp D hk => exact ⟨0, .closed, by simp, by simpa using Atom.group hlp hrp D hk⟩
  | .cond hi hlp hrp D hkc B =>
    obtain ⟨j, B'⟩ := Block.close hrb B
    exact ⟨j, .dangling, by simp, by simpa using Atom.cond hi hlp hrp D hkc B'⟩
  | .condElse hi hlp hrp D hkc B hel B' =>
    obtain ⟨j, B''⟩ := Block.close hrb B'
    exact ⟨j, .closed, by simp,
      by simpa [Ending.ofBlock] using Atom.condElse hi hlp hrp D hkc B hel B''⟩
  | .fn hf hlp P B =>
    obtain ⟨j, B'⟩ := Block.close hrb B
    exact ⟨j, .closed, by simp, by simpa [Ending.ofBlock] using Atom.fn hf hlp P B'⟩
termination_by structural A

/-- A block left open is closed by the `}` of the blocks open in it, then its own. -/
theorem Block.close (hrb : rb.kind = .rbrace) {xs : List Token} {ss : List Stmt} {u : Bool}
    (B : Block xs ss u) : ∃ j, Block (xs ++ List.replicate j rb) ss false := by
  match B with
  | .closed hlb hrb' S => exact ⟨0, by simpa using Block.closed hlb hrb' S⟩
  | .unclosed hlb S =>
    obtain ⟨j, S'⟩ := Statements.close hrb S
    exact ⟨j + 1, by simpa [List.replicate_succ'] using Block.closed hlb hrb S'⟩
termination_by structural B

/-- Statements, with `}` appended for their open blocks, end outside every block. -/
theorem Statements.close (hrb : rb.kind = .rbrace) {xs : List Token} {ss : List Stmt}
    {u : Bool} (S : Statements xs ss u) :
    ∃ j, Statements (xs ++ List.replicate j rb) ss false := by
  match S with
  | .nil => exact ⟨0, .nil⟩
  | .semi St hsc S =>
    obtain ⟨j, S'⟩ := Statements.close hrb S
    exact ⟨j, by simpa using Statements.semi St hsc S'⟩
  | .cons St hsep S =>
    obtain ⟨j, S'⟩ := Statements.close hrb S
    exact ⟨j, by simpa using Statements.cons St (hsep.append_braces hrb j) S'⟩
  | .last St =>
    obtain ⟨j, St'⟩ := Statement.close hrb St
    exact ⟨j, by simpa using Statements.cons St' (fun _ h => nomatch h : Separates []) .nil⟩
termination_by structural S

theorem Statement.close (hrb : rb.kind = .rbrace) {xs : List Token} {s : Stmt} {u : Bool}
    (St : Statement xs s u) : ∃ j, Statement (xs ++ List.replicate j rb) s false := by
  match St with
  | .bind hl hx ha D =>
    obtain ⟨j, k', hk', D'⟩ := Derives.close hrb D
    exact ⟨j, by simpa [Ending.isOpen_eq_false hk'] using Statement.bind hl hx ha D'⟩
  | .ret hr D =>
    obtain ⟨j, k', hk', D'⟩ := Derives.close hrb D
    exact ⟨j, by simpa [Ending.isOpen_eq_false hk'] using Statement.ret hr D'⟩
  | .expr D =>
    obtain ⟨j, k', hk', D'⟩ := Derives.close hrb D
    exact ⟨j, by simpa [Ending.isOpen_eq_false hk'] using Statement.expr D'⟩
termination_by structural St

end

/-! ## Taking off a final `}` -/

/-- A list with a last element, split in two with the right part not empty: the right part
    holds that last element. -/
theorem eq_append_singleton_of_append {l r xs : List Token} {z : Token}
    (h : l ++ r = xs ++ [z]) (hr : r ≠ []) : ∃ r', r = r' ++ [z] ∧ xs = l ++ r' := by
  obtain ⟨r', z', rfl⟩ := (List.eq_nil_or_concat r).resolve_left hr
  rw [List.concat_eq_append, ← List.append_assoc] at h
  obtain ⟨h1, h2⟩ := List.append_inj' h rfl
  obtain rfl : z' = z := by simpa using h2
  exact ⟨r', List.concat_eq_append .., h1.symm⟩

/-- The arguments of a call end with its `)`. -/
theorem Args.last {xs : List Token} {as : List Expr} (A : Args xs as) :
    ∃ init rp, xs = init ++ [rp] ∧ rp.kind = .rparen := by
  match A with
  | .nil hrp => exact ⟨[], _, rfl, hrp⟩
  | .one _ _ hrp => exact ⟨_, _, rfl, hrp⟩
  | @Args.cons xs _ _ _ _ c _ _ _ A _ =>
    obtain ⟨init, rp, rfl, hrp⟩ := Args.last A
    exact ⟨xs ++ c :: init, rp, by simp, hrp⟩
termination_by structural A

theorem ne_of_singleton_eq {t z : Token} {xs : List Token} (h : [t] = xs ++ [z])
    (hk : t.kind ≠ z.kind) : False := by
  obtain ⟨-, h2⟩ := List.append_inj' (show [] ++ [t] = xs ++ [z] from h) rfl
  exact hk (by simp at h2; rw [h2])

mutual

/-- An expression run that ends with a `}` is, without it, a run ending inside a block
    left open, with the same tree. -/
theorem Derives.unbrace (hrb : rb.kind = .rbrace) {n : Nat} {ys xs : List Token} {e : Expr}
    {k : Ending} (D : Derives n ys e k) (h : ys = xs ++ [rb]) : Derives n xs e .unclosed := by
  match D, h with
  | .lift hn D, h => exact .lift hn (Derives.unbrace hrb D h)
  | @Derives.binary _ l r _ _ _ _ o _ hb ho Dl hkl Dr, h =>
    obtain ⟨r', hr, rfl⟩ := eq_append_singleton_of_append
      (show (l ++ [o]) ++ r = xs ++ [rb] by simpa using h) Dr.ne_nil
    simpa using Derives.binary hb ho Dl hkl (Derives.unbrace hrb Dr hr)
  | @Derives.unary r _ _ o _ ho D, h =>
    obtain ⟨r', hr, rfl⟩ := eq_append_singleton_of_append
      (show [o] ++ r = xs ++ [rb] by simpa using h) D.ne_nil
    exact .unary ho (Derives.unbrace hrb D hr)
  | .callee D, h => exact .callee (Derives.unbrace hrb D h)
  | @Derives.call l r _ _ _ lp _ D _ A, h =>
    -- a call ends with its `)`
    obtain ⟨init, rp, rfl, hrp⟩ := A.last
    obtain ⟨-, h2⟩ :=
      List.append_inj' (show (l ++ lp :: init) ++ [rp] = xs ++ [rb] by simpa using h) rfl
    obtain rfl : rp = rb := by simpa using h2
    exact absurd (hrp.symm.trans hrb) (by simp)
  | .atom A, h => exact .atom (Atom.unbrace hrb A h)
termination_by structural D

theorem Atom.unbrace (hrb : rb.kind = .rbrace) {ys xs : List Token} {e : Expr} {k : Ending}
    (A : Atom ys e k) (h : ys = xs ++ [rb]) : Atom xs e .unclosed := by
  match A, h with
  | .ident ht, h => exact (ne_of_singleton_eq h (by simp [ht, hrb])).elim
  | .int ht _, h => exact (ne_of_singleton_eq h (by simp [ht, hrb])).elim
  | .true ht, h => exact (ne_of_singleton_eq h (by simp [ht, hrb])).elim
  | .false ht, h => exact (ne_of_singleton_eq h (by simp [ht, hrb])).elim
  | @Atom.group ws _ _ lp rp _ hrp _ _, h =>
    -- a parenthesised expression ends with its `)`
    obtain ⟨-, h2⟩ :=
      List.append_inj' (show (lp :: ws) ++ [rp] = xs ++ [rb] by simpa using h) rfl
    obtain rfl : rp = rb := by simpa using h2
    exact absurd (hrp.symm.trans hrb) (by simp)
  | @Atom.cond cs bs _ _ _ _ i lp rp hi hlp hrp D hkc B, h =>
    obtain ⟨bs', hbs, rfl⟩ := eq_append_singleton_of_append
      (show (i :: lp :: cs ++ [rp]) ++ bs = xs ++ [rb] by simpa using h) B.ne_nil
    simpa using Atom.cond hi hlp hrp D hkc (Block.unbrace hrb B hbs)
  | @Atom.condElse cs bs es _ _ _ _ _ i lp rp el hi hlp hrp D hkc B hel B', h =>
    obtain ⟨es', hes, rfl⟩ := eq_append_singleton_of_append
      (show (i :: lp :: cs ++ rp :: bs ++ [el]) ++ es = xs ++ [rb] by simpa using h) B'.ne_nil
    simpa [Ending.ofBlock] using Atom.condElse hi hlp hrp D hkc B hel (Block.unbrace hrb B' hes)
  | @Atom.fn ps bs _ _ _ f lp hf hlp P B, h =>
    obtain ⟨bs', hbs, rfl⟩ := eq_append_singleton_of_append
      (show (f :: lp :: ps) ++ bs = xs ++ [rb] by simpa using h) B.ne_nil
    simpa [Ending.ofBlock] using Atom.fn hf hlp P (Block.unbrace hrb B hbs)
termination_by structural A

/-- A block that ends with a `}` is, without it, a block left open: its own `}` taken off,
    or the last `}` of the statements of a block already open. -/
theorem Block.unbrace (hrb : rb.kind = .rbrace) {ys xs : List Token} {ss : List Stmt}
    {u : Bool} (B : Block ys ss u) (h : ys = xs ++ [rb]) : Block xs ss true := by
  match B, h with
  | @Block.closed ws _ lb rb' hlb _ S, h =>
    obtain ⟨h1, -⟩ :=
      List.append_inj' (show (lb :: ws) ++ [rb'] = xs ++ [rb] by simpa using h) rfl
    exact h1 ▸ .unclosed hlb S
  | @Block.unclosed ws _ _ lb hlb S, h =>
    by_cases hws0 : ws = []
    · exact (ne_of_singleton_eq (by simpa [hws0] using h) (by simp [hlb, hrb])).elim
    · obtain ⟨ws', hws, rfl⟩ := eq_append_singleton_of_append
        (show [lb] ++ ws = xs ++ [rb] by simpa using h) hws0
      exact .unclosed hlb (Statements.unbrace hrb S hws)
termination_by structural B

/-- Statements that end with a `}` are, without it, statements whose last block is open. -/
theorem Statements.unbrace (hrb : rb.kind = .rbrace) {ys xs : List Token} {ss : List Stmt}
    {u : Bool} (S : Statements ys ss u) (h : ys = xs ++ [rb]) : Statements xs ss true := by
  match S, h with
  | .nil, h => exact absurd h (by simp)
  | @Statements.semi zs ws _ _ _ sc St hsc S, h =>
    by_cases hws0 : ws = []
    · -- the input would end with the `;`
      obtain ⟨-, h2⟩ :=
        List.append_inj' (show zs ++ [sc] = xs ++ [rb] by simpa [hws0] using h) rfl
      obtain rfl : sc = rb := by simpa using h2
      exact absurd (hsc.symm.trans hrb) (by simp)
    · obtain ⟨ws', hws, rfl⟩ := eq_append_singleton_of_append
        (show (zs ++ [sc]) ++ ws = xs ++ [rb] by simpa using h) hws0
      simpa using Statements.semi St hsc (Statements.unbrace hrb S hws)
  | @Statements.cons zs ws _ _ _ St hsep S, h =>
    by_cases hws0 : ws = []
    · -- the `}` ends the last statement
      have hst := Statement.unbrace hrb St (by simpa [hws0] using h)
      obtain ⟨rfl, -⟩ := S.nil_eq hws0
      exact .last hst
    · obtain ⟨ws', hws, rfl⟩ := eq_append_singleton_of_append h hws0
      exact .cons St (Separates.of_append (hws ▸ hsep)) (Statements.unbrace hrb S hws)
  | .last St, h => exact .last (Statement.unbrace hrb St h)
termination_by structural S

theorem Statement.unbrace (hrb : rb.kind = .rbrace) {ys xs : List Token} {s : Stmt} {u : Bool}
    (St : Statement ys s u) (h : ys = xs ++ [rb]) : Statement xs s true := by
  match St, h with
  | @Statement.bind zs _ _ l x a hl hx ha D, h =>
    obtain ⟨zs', hzs, rfl⟩ := eq_append_singleton_of_append
      (show [l, x, a] ++ zs = xs ++ [rb] by simpa using h) D.ne_nil
    exact .bind hl hx ha (Derives.unbrace hrb D hzs)
  | @Statement.ret zs _ _ r hr D, h =>
    obtain ⟨zs', hzs, rfl⟩ := eq_append_singleton_of_append
      (show [r] ++ zs = xs ++ [rb] by simpa using h) D.ne_nil
    exact .ret hr (Derives.unbrace hrb D hzs)
  | .expr D, h => exact .expr (Derives.unbrace hrb D h)
termination_by structural St

end

/-- Statements followed by any number of `}` are, without them, statements. -/
theorem Statements.unbraceAll (hrb : rb.kind = .rbrace) {xs : List Token} {ss : List Stmt}
    {u : Bool} : ∀ j : Nat, Statements (xs ++ List.replicate j rb) ss u →
      ∃ v, Statements xs ss v
  | 0, S => ⟨u, by simpa using S⟩
  | j + 1, S =>
    Statements.unbraceAll hrb j
      (Statements.unbrace hrb S (by rw [List.replicate_succ', List.append_assoc]))

end Sugiru.Grammar
