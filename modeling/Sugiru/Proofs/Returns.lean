import Sugiru.Eval
import Sugiru.Proofs.ParserComplete

/-!
# Returned values and where they stop

A `return` wraps its value (`Value.returned`) so that the blocks around it stop, and a
call and the program itself unwrap it once. An `if` hands on the value of its block as it
is, wrapped or not. So when the value of an `if` whose block runs a `return` is used, the
wrapper goes on: `return if (true) { return 5; };` wraps `5` twice, and the program unwraps
it only once.

The wrapper does stay inside when no such value is used. `Expr.confined` says that of an
expression: the blocks of each `if` in it run no `return` (`Stmt.quiet`), while an `if`
that stands as a statement of its own may run one (`Stmt.confined`), and so may the body
of a function literal. From a store whose values are all settled (`Store.Settled`: none
wrapped, and every function's body confined), a confined expression gives a settled value,
a confined statement a value wrapped at most once, and a confined program or call a
settled value again.

Main results:

* `Keeps`: run from any settled store, a computation leaves a settled store and a result
  with a given property; `Keeps.bind` composes it along the evaluator's steps.
* `Expr.eval_keeps`, `Stmt.eval_keeps`, `Stmt.evalBlock_keeps`: each step of the
  evaluator, by well-founded recursion on the evaluator's own measure.
* `returns_stay_inside`: a confined program, and every confined call, gives a settled
  value.
* `return_of_if_escapes`: `return if (true) { return 5; };` parses with no issue and runs
  to a returned value.
-/

namespace Sugiru

/-! ## Where a `return` may stand -/

mutual

/-- The expression uses the value of no `if` that may run a `return`: the blocks of each
    `if` in it are quiet, and the body of each function literal in it is confined. -/
def Expr.confined : Expr → Bool
  | .hole | .ident _ | .int _ _ | .bool _ => true
  | .unary _ e => e.confined
  | .binary _ l r => l.confined && r.confined
  | .cond c t none => c.confined && Stmt.allQuiet t
  | .cond c t (some e) => c.confined && Stmt.allQuiet t && Stmt.allQuiet e
  | .fn _ body => Stmt.allConfined body
  | .call f args => f.confined && Expr.allConfined args

/-- Every expression of the list is confined. -/
def Expr.allConfined : List Expr → Bool
  | [] => true
  | e :: es => e.confined && Expr.allConfined es

/-- The statement runs no `return`, outside the function literals in it, and its
    expression is confined. -/
def Stmt.quiet : Stmt → Bool
  | .bind _ e => e.confined
  | .ret _ => false
  | .expr e => e.confined

/-- Every statement of the block is quiet. -/
def Stmt.allQuiet : List Stmt → Bool
  | [] => true
  | s :: ss => s.quiet && Stmt.allQuiet ss

/-- The statement uses the value of no `if` that may run a `return`. An `if` that stands
    as a statement of its own may run one in its blocks. -/
def Stmt.confined : Stmt → Bool
  | .bind _ e => e.confined
  | .ret e => e.confined
  | .expr (.cond c t none) => c.confined && Stmt.allConfined t
  | .expr (.cond c t (some e)) => c.confined && Stmt.allConfined t && Stmt.allConfined e
  | .expr e => e.confined

/-- Every statement of the block is confined. -/
def Stmt.allConfined : List Stmt → Bool
  | [] => true
  | s :: ss => s.confined && Stmt.allConfined ss

end

/-! ## Settled values and stores -/

/-- A value that is not wrapped by a `return`, and a function only if its body is
    confined. -/
def Value.settled : Value → Bool
  | .returned _ => false
  | .closure _ body _ => Stmt.allConfined body
  | _ => true

/-- Every value bound in every scope of the store is settled. -/
def Store.Settled (s : Store) : Prop :=
  ∀ (id : Nat) (sc : Scope), s.scopes[id]? = some sc → ∀ p ∈ sc.bindings, p.2.settled = true

/-- No value, or a settled one. -/
def Unwrapped (o : Option Value) : Prop := ∀ v ∈ o, v.settled = true

/-- The value of a statement: unwrapped, or a settled value wrapped once. -/
def WrappedOnce (o : Option Value) : Prop :=
  Unwrapped o ∨ ∃ v, o = some (.returned v) ∧ v.settled = true

theorem unwrapped_none : Unwrapped none := by simp [Unwrapped]

theorem Unwrapped.wrappedOnce {o : Option Value} (h : Unwrapped o) : WrappedOnce o := .inl h

/-- Unwrapping a value wrapped at most once, as a call does, leaves it unwrapped. -/
theorem WrappedOnce.unwrap {o : Option Value} (h : WrappedOnce o) :
    Unwrapped (Value.unwrap o) := by
  rcases h with h | ⟨v, rfl, hv⟩
  · rcases o with _ | ⟨_ | _ | _ | w | _⟩
    · exact unwrapped_none
    all_goals first | exact h | exact absurd (h _ rfl) (by simp [Value.settled])
  · simpa [Unwrapped, Value.unwrap] using hv

theorem Unwrapped.getD_null {o : Option Value} (h : Unwrapped o) :
    (o.getD .null).settled = true := by
  cases o with
  | none => rfl
  | some v => exact h v rfl

theorem bindIn_settled {name : String} {v : Value} (hv : v.settled = true) :
    ∀ {l : List (String × Value)}, (∀ p ∈ l, p.2.settled = true) →
      ∀ p ∈ bindIn name v l, p.2.settled = true
  | [], _ => by simp [bindIn, hv]
  | (n, w) :: rest, hl => by
    unfold bindIn
    split
    · intro p hp
      rcases List.mem_cons.1 hp with rfl | hp
      · exact hv
      · exact hl p (List.mem_cons_of_mem _ hp)
    · intro p hp
      rcases List.mem_cons.1 hp with rfl | hp
      · exact hl _ List.mem_cons_self
      · exact bindIn_settled hv (fun q hq => hl q (List.mem_cons_of_mem _ hq)) p hp

theorem Store.Settled.lookup {s : Store} (hs : s.Settled) {id : Nat} {name : String}
    {v : Value} (h : s.lookup id name = some v) : v.settled = true := by
  induction id using Nat.strongRecOn with
  | ind id ih =>
    rw [Store.lookup] at h
    split at h
    · exact absurd h (by simp)
    · next sc hsc =>
      split at h
      · next w hw =>
        obtain ⟨l₁, l₂, hl, -⟩ := List.lookup_eq_some_iff.1 hw
        obtain rfl := Option.some.inj h
        exact hs id sc hsc (name, w) (by simp [hl])
      · split at h
        · split at h
          · exact ih _ ‹_› h
          · exact absurd h (by simp)
        · exact absurd h (by simp)

theorem Store.Settled.bind {s : Store} (hs : s.Settled) (id : Nat) (name : String)
    {v : Value} (hv : v.settled = true) : (s.bind id name v).Settled := by
  intro j sc hsc
  simp only [Store.bind, Array.getElem?_modify] at hsc
  split at hsc
  · obtain ⟨sc0, h0, rfl⟩ := Option.map_eq_some_iff.1 hsc
    exact bindIn_settled hv (hs j sc0 h0)
  · exact hs j sc hsc

theorem Store.Settled.newScope {s : Store} (hs : s.Settled) (parent : Nat)
    {bs : List (String × Value)} (hb : ∀ p ∈ bs, p.2.settled = true) :
    (s.newScope parent bs).2.Settled := by
  -- the bindings of the new scope are bound one by one into an empty list
  have hfold : ∀ (l acc : List (String × Value)), (∀ p ∈ l, p.2.settled = true) →
      (∀ p ∈ acc, p.2.settled = true) →
      ∀ p ∈ l.foldl (fun acc q => bindIn q.1 q.2 acc) acc, p.2.settled = true := by
    intro l
    induction l with
    | nil => intro acc _ hacc; exact hacc
    | cons q l ih =>
      intro acc hl hacc
      exact ih _ (fun p hp => hl p (List.mem_cons_of_mem _ hp))
        (bindIn_settled (hl q List.mem_cons_self) hacc)
  intro j sc hsc
  simp only [Store.newScope, Array.getElem?_push] at hsc
  split at hsc
  · obtain rfl := Option.some.inj hsc
    exact hfold bs [] hb (by simp)
  · exact hs j sc hsc

theorem Store.empty_settled : Store.empty.Settled := by
  intro j sc hsc
  simp only [Store.empty] at hsc
  rcases j with _ | j
  · obtain rfl := Option.some.inj hsc
    simp
  · simp at hsc

/-! ## Computations that keep the store settled -/

variable {α β : Type}

/-- Run from any settled store, the computation leaves a settled store and, when it ends
    without a fault, a result that satisfies `P`. -/
def Keeps (P : α → Prop) (x : Eval α) : Prop :=
  ∀ s : Store, s.Settled → (x.run.run s).2.Settled ∧ ∀ a, (x.run.run s).1 = .ok a → P a

theorem Eval.run_bind (x : Eval α) (f : α → Eval β) (s : Store) :
    (x >>= f).run.run s = match x.run.run s with
      | (.ok a, s') => (f a).run.run s'
      | (.error e, s') => (.error e, s') := by
  simp only [bind, ExceptT.bind, ExceptT.mk, ExceptT.run, StateT.run, StateT.bind,
    ExceptT.bindCont]
  rcases x s with ⟨_ | a, s'⟩ <;> rfl

theorem Keeps.pure {P : α → Prop} {a : α} (h : P a) : Keeps P (pure a) :=
  fun _ hs => ⟨hs, fun _ hb => Except.ok.inj hb ▸ h⟩

theorem Keeps.throw {P : α → Prop} (e : Fault) : Keeps P (throw e) :=
  fun _ hs => ⟨hs, fun _ hb => nomatch hb⟩

theorem Keeps.mono {P Q : α → Prop} {x : Eval α} (h : Keeps P x) (hPQ : ∀ a, P a → Q a) :
    Keeps Q x :=
  fun s hs => ⟨(h s hs).1, fun a ha => hPQ a ((h s hs).2 a ha)⟩

/-- A step that keeps the store settled, then one that does from every result of the
    first. -/
theorem Keeps.bind {P : α → Prop} {Q : β → Prop} {x : Eval α} {f : α → Eval β}
    (hx : Keeps P x) (hf : ∀ a, P a → Keeps Q (f a)) : Keeps Q (x >>= f) := by
  intro s hs
  obtain ⟨hs', hP⟩ := hx s hs
  rw [Eval.run_bind]
  rcases h : x.run.run s with ⟨_ | a, s'⟩
  · -- a fault leaves the store as the first step left it
    rw [h] at hs'
    exact ⟨hs', fun _ hb => nomatch hb⟩
  · rw [h] at hs' hP
    exact hf a (hP a rfl) s' hs'

theorem Keeps.get : Keeps Store.Settled (get : Eval Store) :=
  fun _ hs => ⟨hs, fun _ hb => Except.ok.inj hb ▸ hs⟩

theorem Keeps.modify {g : Store → Store} (h : ∀ s, s.Settled → (g s).Settled) :
    Keeps (fun _ => True) (modify g : Eval PUnit) :=
  fun s hs => ⟨h s hs, fun _ _ => trivial⟩

theorem Keeps.modifyGet {g : Store → β × Store} (h : ∀ s, s.Settled → (g s).2.Settled) :
    Keeps (fun _ => True) (modifyGet g : Eval β) :=
  fun s hs => ⟨h s hs, fun _ _ => trivial⟩

/-! ## The evaluator's steps -/

/-- An operator never gives a returned value or a function. -/
theorem PrefixOp.apply_settled (op : PrefixOp) (o : Option Value) :
    (op.apply o).settled = true := by
  cases op <;> unfold PrefixOp.apply <;> split <;> rfl

theorem InfixOp.apply_settled {op : InfixOp} {l r : Option Value} {v : Value}
    (h : op.apply l r = some v) : v.settled = true := by
  unfold InfixOp.apply at h
  split at h
  · cases op <;> simp only [InfixOp.applyInt] at h <;>
      first | (split at h <;> simp at h; subst h; rfl) | (simp at h; subst h; rfl)
  · split at h
    · cases op <;> simp at h <;> subst h <;> rfl
    · simp at h; subst h; rfl

/-- An `if` keeps any property of its blocks' values that null has. -/
theorem Keeps.cond {P : Option Value → Prop} {d sc : Nat} {c : Expr} {t : List Stmt}
    {alt : Option (List Stmt)} (hc : Keeps Unwrapped (Expr.eval d sc c))
    (ht : Keeps P (Stmt.evalBlock d sc t))
    (he : ∀ b, alt = some b → Keeps P (Stmt.evalBlock d sc b)) (hn : P (some .null)) :
    Keeps P (Expr.eval d sc (.cond c t alt)) := by
  cases alt with
  | none =>
    rw [Expr.eval]
    refine hc.bind fun _ _ => ?_
    split
    · exact ht
    · exact Keeps.pure hn
  | some b =>
    rw [Expr.eval]
    refine hc.bind fun _ _ => ?_
    split
    · exact ht
    · exact he b rfl

/-- A `let` gives no value and binds a settled one. -/
theorem Keeps.bindStmt {d sc : Nat} {name : String} {e : Expr}
    (he : Keeps Unwrapped (Expr.eval d sc e)) :
    Keeps Unwrapped (Stmt.eval d sc (.bind name e)) := by
  rw [Stmt.eval]
  exact he.bind fun v hv =>
    (Keeps.modify fun st hst => hst.bind sc name hv.getD_null).bind fun _ _ =>
      Keeps.pure unwrapped_none

/-- A block keeps any property of its statements' values that no value has. -/
theorem Keeps.block {P : Option Value → Prop} {d sc : Nat} {s : Stmt} {ss : List Stmt}
    (hs : Keeps P (Stmt.eval d sc s)) (hss : Keeps P (Stmt.evalBlock d sc ss)) :
    Keeps P (Stmt.evalBlock d sc (s :: ss)) := by
  rw [Stmt.evalBlock]
  refine hs.bind fun r hr => ?_
  split
  · exact Keeps.pure hr
  · exact hss

theorem Unwrapped.some_null : Unwrapped (some .null) := by simp [Unwrapped, Value.settled]

/-- The arguments of a call, bound to its parameters, are settled. -/
theorem zip_args_settled {ps : List String} {avs : List (Option Value)}
    (h : ∀ o ∈ avs, Unwrapped o) :
    ∀ p ∈ ps.zip (avs.map (·.getD .null)), p.2.settled = true := by
  intro p hp
  obtain ⟨o, ho, hpo⟩ := List.mem_map.1 (List.of_mem_zip hp).2
  rw [← hpo]
  exact (h o ho).getD_null

mutual

/-- A confined expression gives an unwrapped value. -/
theorem Expr.eval_keeps (d sc : Nat) :
    ∀ e : Expr, e.confined = true → Keeps Unwrapped (Expr.eval d sc e)
  | .hole, _ => by rw [Expr.eval]; exact Keeps.pure unwrapped_none
  | .ident name, _ => by
    rw [Expr.eval]
    refine Keeps.get.bind fun st hst => ?_
    split
    · next v hv => exact Keeps.pure fun w hw => Option.some.inj hw ▸ hst.lookup hv
    · exact Keeps.throw _
  | .int _ _, _ => by rw [Expr.eval]; exact Keeps.pure (by simp [Unwrapped, Value.settled])
  | .bool _, _ => by rw [Expr.eval]; exact Keeps.pure (by simp [Unwrapped, Value.settled])
  | .unary op e, h => by
    rw [Expr.eval]
    exact (Expr.eval_keeps d sc e h).bind fun v _ =>
      Keeps.pure (by simp [Unwrapped, op.apply_settled])
  | .binary op l r, h => by
    simp only [Expr.confined, Bool.and_eq_true] at h
    rw [Expr.eval]
    refine (Expr.eval_keeps d sc l h.1).bind fun lv _ =>
      (Expr.eval_keeps d sc r h.2).bind fun rv _ => ?_
    split
    · next v hv => exact Keeps.pure fun w hw => Option.some.inj hw ▸ InfixOp.apply_settled hv
    · exact Keeps.throw _
  | .cond c t none, h => by
    simp only [Expr.confined, Bool.and_eq_true] at h
    exact Keeps.cond (Expr.eval_keeps d sc c h.1) (Stmt.evalBlock_quiet d sc t h.2)
      (by simp) Unwrapped.some_null
  | .cond c t (some b), h => by
    simp only [Expr.confined, Bool.and_eq_true] at h
    exact Keeps.cond (Expr.eval_keeps d sc c h.1.1) (Stmt.evalBlock_quiet d sc t h.1.2)
      (fun b' hb => Option.some.inj hb ▸ Stmt.evalBlock_quiet d sc b h.2) Unwrapped.some_null
  | .fn ps body, h => by
    rw [Expr.eval]
    exact Keeps.pure fun w hw => Option.some.inj hw ▸ h
  | .call f args, h => by
    simp only [Expr.confined, Bool.and_eq_true] at h
    rw [Expr.eval]
    refine (Expr.eval_keeps d sc f h.1).bind fun fv hfv =>
      (Expr.evalAll_keeps d sc args h.2).bind fun avs havs => ?_
    split
    · next ps body home =>
      -- the function is settled, so its body is confined
      have hbody : Stmt.allConfined body = true := hfv _ rfl
      split
      · split
        · exact Keeps.throw _
        · next d' =>
          refine (Keeps.modifyGet fun st hst => hst.newScope home (zip_args_settled havs)).bind
            fun inner _ => ?_
          exact (Stmt.evalBlock_keeps d' inner body hbody).bind fun r hr =>
            Keeps.pure hr.unwrap
      · exact Keeps.throw _
    · exact Keeps.throw _
termination_by e => (d, sizeOf e)

/-- Confined expressions give unwrapped values. -/
theorem Expr.evalAll_keeps (d sc : Nat) :
    ∀ es : List Expr, Expr.allConfined es = true →
      Keeps (fun vs => ∀ o ∈ vs, Unwrapped o) (Expr.evalAll d sc es)
  | [], _ => by rw [Expr.evalAll]; exact Keeps.pure (by simp)
  | e :: es, h => by
    simp only [Expr.allConfined, Bool.and_eq_true] at h
    rw [Expr.evalAll]
    exact (Expr.eval_keeps d sc e h.1).bind fun v hv =>
      (Expr.evalAll_keeps d sc es h.2).bind fun vs hvs =>
        Keeps.pure (List.forall_mem_cons.2 ⟨hv, hvs⟩)
termination_by es => (d, sizeOf es)

/-- A confined statement gives a value wrapped at most once. -/
theorem Stmt.eval_keeps (d sc : Nat) :
    ∀ s : Stmt, s.confined = true → Keeps WrappedOnce (Stmt.eval d sc s)
  | .bind _ e, h => (Keeps.bindStmt (Expr.eval_keeps d sc e h)).mono fun _ h => h.wrappedOnce
  | .ret e, h => by
    rw [Stmt.eval]
    exact (Expr.eval_keeps d sc e h).bind fun v hv => Keeps.pure (.inr ⟨_, rfl, hv.getD_null⟩)
  | .expr e, h => by
    rw [Stmt.eval]
    -- an `if` that stands as a statement may run a `return`; any other expression is
    -- confined
    cases e with
    | cond c t alt =>
      cases alt with
      | none =>
        simp only [Stmt.confined, Bool.and_eq_true] at h
        exact Keeps.cond (Expr.eval_keeps d sc c h.1) (Stmt.evalBlock_keeps d sc t h.2)
          (by simp) Unwrapped.some_null.wrappedOnce
      | some b =>
        simp only [Stmt.confined, Bool.and_eq_true] at h
        exact Keeps.cond (Expr.eval_keeps d sc c h.1.1) (Stmt.evalBlock_keeps d sc t h.1.2)
          (fun b' hb => Option.some.inj hb ▸ Stmt.evalBlock_keeps d sc b h.2)
          Unwrapped.some_null.wrappedOnce
    | _ => exact (Expr.eval_keeps d sc _ h).mono fun _ h => h.wrappedOnce
termination_by s => (d, sizeOf s)

/-- A quiet statement gives an unwrapped value. -/
theorem Stmt.eval_quiet (d sc : Nat) :
    ∀ s : Stmt, s.quiet = true → Keeps Unwrapped (Stmt.eval d sc s)
  | .bind _ e, h => Keeps.bindStmt (Expr.eval_keeps d sc e h)
  | .ret _, h => absurd h (by simp [Stmt.quiet])
  | .expr e, h => by rw [Stmt.eval]; exact Expr.eval_keeps d sc e h
termination_by s => (d, sizeOf s)

/-- A confined block gives a value wrapped at most once. -/
theorem Stmt.evalBlock_keeps (d sc : Nat) :
    ∀ ss : List Stmt, Stmt.allConfined ss = true → Keeps WrappedOnce (Stmt.evalBlock d sc ss)
  | [], _ => by rw [Stmt.evalBlock]; exact Keeps.pure unwrapped_none.wrappedOnce
  | s :: ss, h => by
    simp only [Stmt.allConfined, Bool.and_eq_true] at h
    exact Keeps.block (Stmt.eval_keeps d sc s h.1) (Stmt.evalBlock_keeps d sc ss h.2)
termination_by ss => (d, sizeOf ss)

/-- A quiet block gives an unwrapped value. -/
theorem Stmt.evalBlock_quiet (d sc : Nat) :
    ∀ ss : List Stmt, Stmt.allQuiet ss = true → Keeps Unwrapped (Stmt.evalBlock d sc ss)
  | [], _ => by rw [Stmt.evalBlock]; exact Keeps.pure unwrapped_none
  | s :: ss, h => by
    simp only [Stmt.allQuiet, Bool.and_eq_true] at h
    exact Keeps.block (Stmt.eval_quiet d sc s h.1) (Stmt.evalBlock_quiet d sc ss h.2)
termination_by ss => (d, sizeOf ss)

end

/-! ## Programs -/

/-- A statement's value that is not a returned one is unwrapped. -/
theorem WrappedOnce.of_not_returned {o : Option Value} (h : WrappedOnce o)
    (hr : ∀ v, o = some (.returned v) → False) : Unwrapped o := by
  rcases h with h | ⟨v, rfl, _⟩
  · exact h
  · exact absurd rfl (hr v)

/-- A confined program gives an unwrapped value: the first returned value is unwrapped
    once, and any other value of a statement is not wrapped at all. -/
theorem Stmt.evalProgram_keeps (d sc : Nat) :
    ∀ ss : List Stmt, Stmt.allConfined ss = true → Keeps Unwrapped (Stmt.evalProgram d sc ss)
  | [], _ => by rw [Stmt.evalProgram]; exact Keeps.pure unwrapped_none
  | s :: ss, h => by
    simp only [Stmt.allConfined, Bool.and_eq_true] at h
    rw [Stmt.evalProgram]
    refine (Stmt.eval_keeps d sc s h.1).bind fun r hr => ?_
    split
    · exact Keeps.pure hr.unwrap
    · split
      · exact Keeps.pure (hr.of_not_returned ‹_›)
      · exact Stmt.evalProgram_keeps d sc ss h.2

/-- No returned value leaves a confined program or a confined call. Run from a settled
    store, a program whose statements are confined leaves a settled store and gives no
    value or a settled one, which is never a returned one; and so does a call whose callee
    and arguments are confined. -/
theorem returns_stay_inside (p : Program) (s : Store) (hs : s.Settled) :
    (Stmt.allConfined p.stmts = true →
      (p.run s).2.Settled ∧ ∀ v, (p.run s).1 = .ok (some v) → v.settled = true) ∧
    ∀ (d sc : Nat) (f : Expr) (args : List Expr), (Expr.call f args).confined = true →
      ((Expr.eval d sc (.call f args)).run.run s).2.Settled ∧
        ∀ r, ((Expr.eval d sc (.call f args)).run.run s).1 = .ok r → Unwrapped r := by
  refine ⟨fun hp => ?_, fun d sc f args h => Expr.eval_keeps d sc _ h s hs⟩
  obtain ⟨hs', hv⟩ := Stmt.evalProgram_keeps callDepthLimit Store.global p.stmts hp s hs
  exact ⟨hs', fun v h => hv _ h v rfl⟩

/-- An `if` that stands as a statement may run a `return`. -/
theorem returns_stay_inside_of_branch :
    Stmt.allConfined [.expr (.cond (.bool true) [.ret (.int "5" 5)] none)] = true ∧
      Store.empty.Settled ∧
      ((Program.run ⟨[.expr (.cond (.bool true) [.ret (.int "5" 5)] none)]⟩
          Store.empty).2.Settled ∧
        ∀ v, (Program.run ⟨[.expr (.cond (.bool true) [.ret (.int "5" 5)] none)]⟩
          Store.empty).1 = .ok (some v) → v.settled = true) :=
  ⟨rfl, Store.empty_settled, (returns_stay_inside _ _ Store.empty_settled).1 rfl⟩

/-! ## An `if` that runs a `return`, used as a returned value -/

theorem scan_return_if :
    Token.scan "return if (true) \x7b return 5; \x7d;" =
      [⟨.kwReturn, "return"⟩, ⟨.kwIf, "if"⟩, ⟨.lparen, "("⟩, ⟨.kwTrue, "true"⟩,
        ⟨.rparen, ")"⟩, ⟨.lbrace, "\x7b"⟩, ⟨.kwReturn, "return"⟩, ⟨.int, "5"⟩,
        ⟨.semicolon, ";"⟩, ⟨.rbrace, "\x7d"⟩, ⟨.semicolon, ";"⟩] := by
  simp [Token.scan, Token.scanChars, Token.next, Token.read, Token.isWordChar, TokenKind.ofWord,
    TokenKind.ofSymbol?, Token.eof]

/-- The grammar reads `return if (true) { return 5; };` as one `return` of an `if`. -/
theorem statements_return_if :
    Grammar.Statements (Token.scan "return if (true) \x7b return 5; \x7d;")
      [.ret (.cond (.bool true) [.ret (.int "5" (digitsValue "5"))] none)] false := by
  rw [scan_return_if]
  have h5 : Grammar.Derives 0 [⟨.int, "5"⟩] (.int "5" (digitsValue "5")) .closed :=
    (Grammar.Derives.atom (.int rfl (by simp [digitsValue, intLiteralLimit]))).lower
      (Nat.zero_le 5) (Nat.le_refl 5)
  have ht : Grammar.Derives 0 [⟨.kwTrue, "true"⟩] (.bool true) .closed :=
    (Grammar.Derives.atom (.true rfl)).lower (Nat.zero_le 5) (Nat.le_refl 5)
  have hb : Grammar.Block [⟨.lbrace, "\x7b"⟩, ⟨.kwReturn, "return"⟩, ⟨.int, "5"⟩,
      ⟨.semicolon, ";"⟩, ⟨.rbrace, "\x7d"⟩] [.ret (.int "5" (digitsValue "5"))] false :=
    .closed rfl rfl (.semi (.ret rfl h5) rfl .nil)
  have hif : Grammar.Derives 0 [⟨.kwIf, "if"⟩, ⟨.lparen, "("⟩, ⟨.kwTrue, "true"⟩,
      ⟨.rparen, ")"⟩, ⟨.lbrace, "\x7b"⟩, ⟨.kwReturn, "return"⟩, ⟨.int, "5"⟩,
      ⟨.semicolon, ";"⟩, ⟨.rbrace, "\x7d"⟩]
      (.cond (.bool true) [.ret (.int "5" (digitsValue "5"))] none) .dangling :=
    (Grammar.Derives.atom (.cond rfl rfl rfl ht (by decide) hb)).lower
      (Nat.zero_le 5) (Nat.le_refl 5)
  exact .semi (.ret rfl hif) rfl .nil

/-- A returned value leaves a program: `return if (true) { return 5; };` parses with no
    issue, the `if` gives `5` wrapped by the inner `return`, the outer `return` wraps it
    again, and the program unwraps it only once. -/
theorem return_of_if_escapes :
    (Program.parse "return if (true) \x7b return 5; \x7d;").issues = [] ∧
      (Program.run (Program.parse "return if (true) \x7b return 5; \x7d;").program
        Store.empty).1 = .ok (some (.returned (.int 5))) := by
  obtain ⟨hss, hi⟩ := statements_return_if.program
  refine ⟨by rw [Program.parse, Program.ofTokens_issues, hi], ?_⟩
  have hp : (Program.parse "return if (true) \x7b return 5; \x7d;").program =
      ⟨[.ret (.cond (.bool true) [.ret (.int "5" (digitsValue "5"))] none)]⟩ := by
    rw [← hss]
    rfl
  rw [hp]
  simp [Program.run, Stmt.evalProgram, Stmt.eval, Expr.eval, Stmt.evalBlock, Value.isTruthy,
    digitsValue]
  rfl

end Sugiru
