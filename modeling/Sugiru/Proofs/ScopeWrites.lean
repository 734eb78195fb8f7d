import Sugiru.Proofs.Scopes

/-!
# An evaluation writes only to its own scope

Scopes are shared: a block and the branches of an `if` run in the scope of the code
around them, and a function's body runs in a new scope enclosed by the scope the function
was made in, which its closures keep. Yet an evaluation changes the store in two ways
only. It binds names in the scope it runs in, by the `let`s of its own tree that stand
outside every function literal (`Expr.letNames`); and it adds new scopes, in which the
bodies of calls run. Every other scope the store had when it started is left as it was,
and its own scope keeps its enclosing scope and every name it bound (`Store.Touches`).

So the scope a call makes is written only while the call's body runs in it. Every later
evaluation runs in some other scope: a program in the global one, a later call, even of a
closure that kept that scope, in a new scope of its own. Along a session, every scope but
the global one stays as it was once it exists between two programs.

Main results:

* `Store.Touches`, with `Store.Touches.trans`: what a computation may do to the store.
* `WritesOnly`, `WritesOnly.bind`, `WritesOnly.call`: computations that touch only one
  scope, composed along the evaluator's steps.
* `Expr.eval_writesOnly`, `Stmt.evalBlock_writesOnly`, `Stmt.evalProgram_writesOnly`: every
  evaluation writes only to its own scope, at the names its `let`s bind.
* `Stmt.eval_bind_binds`: a `let` whose expression has a value binds its name to it.
* `Program.runAll_keeps_scopes`: programs run one after another leave every scope but the
  global one as it was.
* `eval_writes_only_own_scope`: the above for every kind of tree and for sessions.
-/

namespace Sugiru

/-! ## Names bound by `let`s -/

mutual

/-- The names the `let`s of an expression bind, leaving out the `let`s inside function
    literals, whose bodies run in scopes of their own. -/
def Expr.letNames : Expr → List String
  | .hole | .ident _ | .int _ _ | .bool _ => []
  | .unary _ e => e.letNames
  | .binary _ l r => l.letNames ++ r.letNames
  | .cond c t none => c.letNames ++ Stmt.allLetNames t
  | .cond c t (some e) => c.letNames ++ Stmt.allLetNames t ++ Stmt.allLetNames e
  | .fn _ _ => []
  | .call f args => f.letNames ++ Expr.allLetNames args

/-- The names the `let`s of a list of expressions bind, outside function literals. -/
def Expr.allLetNames : List Expr → List String
  | [] => []
  | e :: es => e.letNames ++ Expr.allLetNames es

/-- The names the `let`s of a statement bind, outside function literals. -/
def Stmt.letNames : Stmt → List String
  | .bind name e => name :: e.letNames
  | .ret e | .expr e => e.letNames

/-- The names the `let`s of a block bind, outside function literals. -/
def Stmt.allLetNames : List Stmt → List String
  | [] => []
  | s :: ss => s.letNames ++ Stmt.allLetNames ss

end

example : (Stmt.allLetNames [.bind "f" (.fn ["x"] [.bind "y" (.ident "x")]),
    .expr (.cond (.bool true) [.bind "z" (.int "1" 1)] none)]) = ["f", "z"] := by
  decide

/-! ## Bindings of one scope -/

/-- The value scope `id` binds `name` to itself, without looking in enclosing scopes. -/
def Store.boundHere (s : Store) (id : Nat) (name : String) : Option Value :=
  s.scopes[id]?.bind fun sc => sc.bindings.lookup name

/-- A look-up in bindings finds the first binding of the name. -/
theorem lookup_cons_ite (m k : String) (b : Value) (l : List (String × Value)) :
    ((k, b) :: l).lookup m = if m = k then some b else l.lookup m := by
  by_cases h : m = k
  · subst h
    rw [List.lookup_cons_self, if_pos rfl]
  · rw [List.lookup_cons, beq_false_of_ne h, if_neg h]

/-- A binding replaces the value of its own name and no other. -/
theorem lookup_bindIn (name : String) (v : Value) (l : List (String × Value)) (m : String) :
    (bindIn name v l).lookup m = if m = name then some v else l.lookup m := by
  induction l with
  | nil => simp [bindIn, lookup_cons_ite, List.lookup_nil]
  | cons b rest ih =>
    obtain ⟨n, w⟩ := b
    by_cases hn : n = name
    · subst hn
      by_cases h : m = n <;> simp [bindIn, lookup_cons_ite, h]
    · by_cases h : m = n
      · subst h
        simp [bindIn, hn]
      · simp [bindIn, lookup_cons_ite, hn, h, ih]

theorem Store.boundHere_bind_self (s : Store) (id : Nat) (name : String) (v : Value) (m : String) :
    (s.bind id name v).boundHere id m =
      s.scopes[id]?.bind fun _ => if m = name then some v else s.boundHere id m := by
  unfold boundHere Store.bind
  rw [Array.getElem?_modify, if_pos rfl]
  cases s.scopes[id]? <;> simp [lookup_bindIn]

/-- A new scope leaves the scopes before it as they were. -/
theorem Store.newScope_scopes_lt {s : Store} {parent i : Nat} {bs : List (String × Value)}
    (hi : i < s.scopes.size) : (s.newScope parent bs).2.scopes[i]? = s.scopes[i]? := by
  simp [Store.newScope, Array.getElem?_push, Nat.ne_of_lt hi]

/-! ## What a computation may do to the store -/

/-- `Touches sc N σ σ'`: from `σ` to `σ'` the store only grew, no scope of `σ` other than
    `sc` changed, and scope `sc` kept its enclosing scope and every name it bound, its
    bindings changing only at names of `N`. -/
structure Store.Touches (sc : Nat) (N : List String) (σ σ' : Store) : Prop where
  size_le : σ.scopes.size ≤ σ'.scopes.size
  frame : ∀ i < σ.scopes.size, i ≠ sc → σ'.scopes[i]? = σ.scopes[i]?
  parent_eq : σ'.scopes[sc]?.map Scope.parent = σ.scopes[sc]?.map Scope.parent
  keeps : ∀ name, (σ.boundHere sc name).isSome → (σ'.boundHere sc name).isSome
  changed_in : ∀ name, σ'.boundHere sc name ≠ σ.boundHere sc name → name ∈ N

namespace Store.Touches

variable {sc : Nat} {N M : List String} {σ σ₁ σ₂ : Store}

theorem refl (σ : Store) : Touches sc N σ σ :=
  ⟨Nat.le_refl _, fun _ _ _ => rfl, rfl, fun _ h => h, fun _ h => absurd rfl h⟩

theorem trans (h₁ : Touches sc N σ σ₁) (h₂ : Touches sc N σ₁ σ₂) : Touches sc N σ σ₂ where
  size_le := Nat.le_trans h₁.size_le h₂.size_le
  frame i hi hne := (h₂.frame i (Nat.lt_of_lt_of_le hi h₁.size_le) hne).trans (h₁.frame i hi hne)
  parent_eq := h₂.parent_eq.trans h₁.parent_eq
  keeps name h := h₂.keeps name (h₁.keeps name h)
  changed_in name h := by
    by_cases h' : σ₁.boundHere sc name = σ.boundHere sc name
    · exact h₂.changed_in name (h'.symm ▸ h)
    · exact h₁.changed_in name h'

theorem mono (h : Touches sc N σ σ₁) (hN : N ⊆ M) : Touches sc M σ σ₁ :=
  { h with changed_in := fun name h' => hN (h.changed_in name h') }

/-- A binding in scope `sc` touches `sc` at the bound name. -/
theorem bind (σ : Store) (name : String) (v : Value) : Touches sc [name] σ (σ.bind sc name v) where
  size_le := Nat.le_of_eq (σ.size_bind sc name v).symm
  frame i _ hne := by
    simp only [Store.bind, Array.getElem?_modify, if_neg (Ne.symm hne)]
  parent_eq := by
    simp only [Store.bind, Array.getElem?_modify]
    cases σ.scopes[sc]? <;> rfl
  keeps m h := by
    rw [Store.boundHere_bind_self]
    unfold boundHere at h ⊢
    cases hs : σ.scopes[sc]? with
    | none => simp [hs] at h
    | some s => by_cases hm : m = name <;> simp_all
  changed_in m h := by
    rw [Store.boundHere_bind_self] at h
    by_cases hm : m = name
    · exact List.mem_singleton.2 hm
    · cases hs : σ.scopes[sc]? <;> simp_all [boundHere]

/-- A store that only grew, with every old scope as it was, is touched nowhere. -/
theorem of_keep (hsc : sc < σ.scopes.size) (hle : σ.scopes.size ≤ σ₁.scopes.size)
    (hold : ∀ i < σ.scopes.size, σ₁.scopes[i]? = σ.scopes[i]?) : Touches sc N σ σ₁ where
  size_le := hle
  frame i hi _ := hold i hi
  parent_eq := by rw [hold sc hsc]
  keeps name h := by rwa [boundHere, hold sc hsc]
  changed_in name h := absurd (by rw [boundHere, boundHere, hold sc hsc]) h

/-- What happens in a new scope, the last of the store, touches no scope the store had
    before it was made. -/
theorem fresh {M : List String} (hsc : sc < σ.scopes.size) {parent : Nat}
    {bs : List (String × Value)} (h : Touches σ.scopes.size M (σ.newScope parent bs).2 σ₂) :
    Touches sc N σ σ₂ := by
  have hle : σ.scopes.size ≤ (σ.newScope parent bs).2.scopes.size := by
    simp [Store.size_newScope]
  -- every scope of `σ` comes before the new one, so the work in it leaves them alone
  refine of_keep hsc (Nat.le_trans hle h.size_le) fun i hi => ?_
  rw [h.frame i (Nat.lt_of_lt_of_le hi hle) (Nat.ne_of_lt hi)]
  exact Store.newScope_scopes_lt hi

end Store.Touches

/-! ## Computations that write only to one scope -/

variable {α β : Type}

/-- Run from any store that has scope `sc`, the computation touches only `sc`, and there
    only the names of `N`, whether it ends with a fault or not. -/
def WritesOnly (sc : Nat) (N : List String) (x : Eval α) : Prop :=
  ∀ σ : Store, sc < σ.scopes.size → Store.Touches sc N σ (x.run.run σ).2

namespace WritesOnly

variable {sc : Nat} {N M : List String}

theorem pure (a : α) : WritesOnly sc N (pure a : Eval α) :=
  fun σ _ => Store.Touches.refl σ

theorem throw (e : Fault) : WritesOnly sc N (throw e : Eval α) :=
  fun σ _ => Store.Touches.refl σ

theorem get : WritesOnly sc N (get : Eval Store) :=
  fun σ _ => Store.Touches.refl σ

theorem mono {x : Eval α} (h : WritesOnly sc N x) (hN : N ⊆ M) : WritesOnly sc M x :=
  fun σ hσ => (h σ hσ).mono hN

/-- A step, then one from each of its results: their writes add up. -/
theorem bind {x : Eval α} {f : α → Eval β} (hx : WritesOnly sc N x)
    (hf : ∀ a, WritesOnly sc N (f a)) : WritesOnly sc N (x >>= f) := by
  intro σ hσ
  have h₁ := hx σ hσ
  rw [Eval.run_bind]
  rcases h : x.run.run σ with ⟨_ | a, σ₁⟩ <;> rw [h] at h₁
  · -- a fault leaves the store as the first step left it
    exact h₁
  · exact h₁.trans (hf a σ₁ (Nat.lt_of_lt_of_le hσ h₁.size_le))

/-- A `let` writes its name into the scope it runs in. -/
theorem bindName (name : String) (v : Value) :
    WritesOnly sc [name] (modify (·.bind sc name v) : Eval PUnit) :=
  fun σ _ => Store.Touches.bind σ name v

/-- A call's body, run in a new scope, writes to no scope that was there before. -/
theorem call {parent : Nat} {bs : List (String × Value)} {g : Nat → Eval β}
    (hg : ∀ inner, WritesOnly inner M (g inner)) :
    WritesOnly sc N (modifyGet (·.newScope parent bs) >>= g) := by
  intro σ hσ
  rw [Eval.run_bind]
  exact Store.Touches.fresh hσ (hg σ.scopes.size _ (by simp [Store.size_newScope]))

end WritesOnly

/-! ## Every evaluation writes only to its own scope -/

/-- An `if` writes what its condition and the branch it takes write. -/
theorem WritesOnly.cond {d sc : Nat} {N : List String} {c : Expr} {t : List Stmt}
    {alt : Option (List Stmt)} (hc : WritesOnly sc N (Expr.eval d sc c))
    (ht : WritesOnly sc N (Stmt.evalBlock d sc t))
    (he : ∀ b, alt = some b → WritesOnly sc N (Stmt.evalBlock d sc b)) :
    WritesOnly sc N (Expr.eval d sc (.cond c t alt)) := by
  cases alt with
  | none =>
    rw [Expr.eval]
    refine hc.bind fun _ => ?_
    split
    · exact ht
    · exact WritesOnly.pure _
  | some b =>
    rw [Expr.eval]
    refine hc.bind fun _ => ?_
    split
    · exact ht
    · exact he b rfl

mutual

/-- An expression writes only to the scope it runs in, and there only the names its
    `let`s bind outside function literals. -/
theorem Expr.eval_writesOnly (d sc : Nat) :
    ∀ e : Expr, WritesOnly sc e.letNames (Expr.eval d sc e)
  | .hole | .int _ _ | .bool _ | .fn _ _ => by
    rw [Expr.eval]
    exact WritesOnly.pure _
  | .ident name => by
    rw [Expr.eval]
    refine WritesOnly.get.bind fun _ => ?_
    split
    · exact WritesOnly.pure _
    · exact WritesOnly.throw _
  | .unary op e => by
    rw [Expr.eval, Expr.letNames]
    exact (Expr.eval_writesOnly d sc e).bind fun _ => WritesOnly.pure _
  | .binary op l r => by
    rw [Expr.eval, Expr.letNames]
    refine ((Expr.eval_writesOnly d sc l).mono (List.subset_append_left _ _)).bind fun _ =>
      ((Expr.eval_writesOnly d sc r).mono (List.subset_append_right _ _)).bind fun _ => ?_
    split
    · exact WritesOnly.pure _
    · exact WritesOnly.throw _
  | .cond c t none => by
    rw [Expr.letNames]
    exact WritesOnly.cond ((Expr.eval_writesOnly d sc c).mono (List.subset_append_left _ _))
      ((Stmt.evalBlock_writesOnly d sc t).mono (List.subset_append_right _ _)) (by simp)
  | .cond c t (some b) => by
    rw [Expr.letNames]
    exact WritesOnly.cond ((Expr.eval_writesOnly d sc c).mono (by simp))
      ((Stmt.evalBlock_writesOnly d sc t).mono (by simp))
      fun b' hb => Option.some.inj hb ▸ (Stmt.evalBlock_writesOnly d sc b).mono (by simp)
  | .call f args => by
    rw [Expr.eval, Expr.letNames]
    refine ((Expr.eval_writesOnly d sc f).mono (List.subset_append_left _ _)).bind fun _ =>
      ((Expr.evalAll_writesOnly d sc args).mono (List.subset_append_right _ _)).bind
        fun _ => ?_
    split
    · next ps body home =>
      split
      · split
        · exact WritesOnly.throw _
        · next d' =>
          -- the body runs in a scope of its own, made for this call
          exact WritesOnly.call fun inner =>
            (Stmt.evalBlock_writesOnly d' inner body).bind fun _ => WritesOnly.pure _
      · exact WritesOnly.throw _
    · exact WritesOnly.throw _
termination_by e => (d, sizeOf e)

/-- Arguments write only to the scope they run in. -/
theorem Expr.evalAll_writesOnly (d sc : Nat) :
    ∀ es : List Expr, WritesOnly sc (Expr.allLetNames es) (Expr.evalAll d sc es)
  | [] => by
    rw [Expr.evalAll]
    exact WritesOnly.pure _
  | e :: es => by
    rw [Expr.evalAll, Expr.allLetNames]
    exact ((Expr.eval_writesOnly d sc e).mono (List.subset_append_left _ _)).bind fun _ =>
      ((Expr.evalAll_writesOnly d sc es).mono (List.subset_append_right _ _)).bind fun _ =>
        WritesOnly.pure _
termination_by es => (d, sizeOf es)

/-- A statement writes only to the scope it runs in; a `let` binds its own name there. -/
theorem Stmt.eval_writesOnly (d sc : Nat) :
    ∀ s : Stmt, WritesOnly sc s.letNames (Stmt.eval d sc s)
  | .bind name e => by
    rw [Stmt.eval, Stmt.letNames]
    exact ((Expr.eval_writesOnly d sc e).mono (List.subset_cons_self _ _)).bind fun _ =>
      ((WritesOnly.bindName name _).mono (by simp)).bind fun _ => WritesOnly.pure _
  | .ret e => by
    rw [Stmt.eval, Stmt.letNames]
    exact (Expr.eval_writesOnly d sc e).bind fun _ => WritesOnly.pure _
  | .expr e => by
    rw [Stmt.eval, Stmt.letNames]
    exact Expr.eval_writesOnly d sc e
termination_by s => (d, sizeOf s)

/-- A block writes only to the scope it runs in, which it shares with the code around it. -/
theorem Stmt.evalBlock_writesOnly (d sc : Nat) :
    ∀ ss : List Stmt, WritesOnly sc (Stmt.allLetNames ss) (Stmt.evalBlock d sc ss)
  | [] => by
    rw [Stmt.evalBlock]
    exact WritesOnly.pure _
  | s :: ss => by
    rw [Stmt.evalBlock, Stmt.allLetNames]
    refine ((Stmt.eval_writesOnly d sc s).mono (List.subset_append_left _ _)).bind fun _ => ?_
    split
    · exact WritesOnly.pure _
    · exact (Stmt.evalBlock_writesOnly d sc ss).mono (List.subset_append_right _ _)
termination_by ss => (d, sizeOf ss)

end

/-- A `let` whose expression has a value binds its name to that value in the scope it runs
    in. -/
theorem Stmt.eval_bind_binds {d sc : Nat} {name : String} {e : Expr} {σ σ₁ : Store}
    {v : Option Value} (hσ : sc < σ.scopes.size)
    (he : (Expr.eval d sc e).run.run σ = (.ok v, σ₁)) :
    ((Stmt.eval d sc (.bind name e)).run.run σ).2.boundHere sc name = some (v.getD .null) := by
  -- the expression keeps scope `sc`, which the binding then writes
  have hσ₁ : sc < σ₁.scopes.size := by
    have hle := (Expr.eval_writesOnly d sc e σ hσ).size_le
    rw [he] at hle
    exact Nat.lt_of_lt_of_le hσ hle
  rw [Stmt.eval, Eval.run_bind, he]
  show ((modify (·.bind sc name (v.getD .null)) >>= fun _ => pure none :
    Eval (Option Value)).run.run σ₁).2.boundHere sc name = _
  rw [Eval.run_bind]
  show (σ₁.bind sc name (v.getD .null)).boundHere sc name = _
  rw [Store.boundHere_bind_self, Array.getElem?_eq_getElem hσ₁]
  simp

/-- A program's statements write only to the scope they run in. -/
theorem Stmt.evalProgram_writesOnly (d sc : Nat) :
    ∀ ss : List Stmt, WritesOnly sc (Stmt.allLetNames ss) (Stmt.evalProgram d sc ss)
  | [] => by
    rw [Stmt.evalProgram]
    exact WritesOnly.pure _
  | s :: ss => by
    rw [Stmt.evalProgram, Stmt.allLetNames]
    refine ((Stmt.eval_writesOnly d sc s).mono (List.subset_append_left _ _)).bind fun _ => ?_
    split
    · exact WritesOnly.pure _
    · split
      · exact WritesOnly.pure _
      · exact (Stmt.evalProgram_writesOnly d sc ss).mono (List.subset_append_right _ _)

/-! ## Programs run one after another -/

/-- A program writes only to the global scope, at the names its `let`s bind. -/
theorem Program.run_touches (p : Program) {σ : Store} (hσ : Store.global < σ.scopes.size) :
    Store.Touches Store.global (Stmt.allLetNames p.stmts) σ (p.run σ).2 :=
  Stmt.evalProgram_writesOnly _ _ _ σ hσ

/-- Programs run one after another, faults included, write only to the global scope, at
    the names their `let`s bind. -/
theorem Program.runAll_touches : ∀ (ps : List Program) {σ : Store},
    Store.global < σ.scopes.size →
      Store.Touches Store.global (ps.flatMap fun p => Stmt.allLetNames p.stmts) σ
        (Program.runAll ps σ).2
  | [], σ, _ => Store.Touches.refl σ
  | p :: ps, σ, hσ => by
    have h₁ := Program.run_touches p hσ
    have h₂ := Program.runAll_touches ps (Nat.lt_of_lt_of_le hσ h₁.size_le)
    rw [List.flatMap_cons]
    exact (h₁.mono (List.subset_append_left _ _)).trans (h₂.mono (List.subset_append_right _ _))

/-- Programs run one after another leave every scope but the global one as it was, so a
    call's scope never changes once its program has ended, whatever closures that kept it
    do later. -/
theorem Program.runAll_keeps_scopes (ps : List Program) {σ : Store}
    (hσ : Store.global < σ.scopes.size) :
    ∀ i < σ.scopes.size, i ≠ Store.global → (Program.runAll ps σ).2.scopes[i]? = σ.scopes[i]? :=
  (Program.runAll_touches ps hσ).frame

/-- Evaluating any tree in an existing scope, whether it ends with a fault or not, leaves
    every other scope of the store as it was; its own scope keeps its enclosing scope and
    every name it bound, and changes only at the names its `let`s bind outside function
    literals, where a `let` whose expression has a value binds its name to it. So a scope
    newer than the running one, as the scope of a call that has returned always is, stays
    as it was, and so does every scope but the global one along a session. -/
theorem eval_writes_only_own_scope :
    (∀ (d sc : Nat) (e : Expr) (σ : Store), sc < σ.scopes.size →
      Store.Touches sc e.letNames σ ((Expr.eval d sc e).run.run σ).2) ∧
    (∀ (d sc : Nat) (s : Stmt) (σ : Store), sc < σ.scopes.size →
      Store.Touches sc s.letNames σ ((Stmt.eval d sc s).run.run σ).2) ∧
    (∀ (d sc : Nat) (ss : List Stmt) (σ : Store), sc < σ.scopes.size →
      Store.Touches sc (Stmt.allLetNames ss) σ ((Stmt.evalBlock d sc ss).run.run σ).2) ∧
    (∀ (d sc : Nat) (ss : List Stmt) (σ : Store), sc < σ.scopes.size →
      Store.Touches sc (Stmt.allLetNames ss) σ ((Stmt.evalProgram d sc ss).run.run σ).2) ∧
    (∀ (d sc : Nat) (name : String) (e : Expr) (σ σ₁ : Store) (v : Option Value),
      sc < σ.scopes.size → (Expr.eval d sc e).run.run σ = (.ok v, σ₁) →
        ((Stmt.eval d sc (.bind name e)).run.run σ).2.boundHere sc name = some (v.getD .null)) ∧
    (∀ (d sc : Nat) (e : Expr) (σ : Store), ∀ i, sc < i → i < σ.scopes.size →
      ((Expr.eval d sc e).run.run σ).2.scopes[i]? = σ.scopes[i]?) ∧
    (∀ (ps : List Program) (σ : Store), Store.global < σ.scopes.size →
      ∀ i < σ.scopes.size, i ≠ Store.global →
        (Program.runAll ps σ).2.scopes[i]? = σ.scopes[i]?) := by
  refine ⟨fun d sc e => Expr.eval_writesOnly d sc e, fun d sc s => Stmt.eval_writesOnly d sc s,
    fun d sc ss => Stmt.evalBlock_writesOnly d sc ss,
    fun d sc ss => Stmt.evalProgram_writesOnly d sc ss,
    fun _ _ _ _ _ _ _ hσ he => Stmt.eval_bind_binds hσ he, ?_,
    fun ps _ hσ => Program.runAll_keeps_scopes ps hσ⟩
  intro d sc e σ i hsc hi
  exact (Expr.eval_writesOnly d sc e σ (Nat.lt_trans hsc hi)).frame i hi (Nat.ne_of_gt hsc)

end Sugiru
