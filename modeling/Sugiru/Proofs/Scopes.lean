import Sugiru.Proofs.Arithmetic
import Sugiru.Proofs.WellFormed

/-!
# Stores stay well scoped along a session

A session runs program after program against one store, and a program may stop with a
fault halfway, leaving the store as it was at that point. Along every such sequence of
programs parsed with no issue the store stays well scoped (`Store.WellScoped`): each
scope's enclosing scope was made before it, and every value bound anywhere is sound
(`Value.Sound`): an integer lies in the signed 64-bit range, a function names a scope the
store has and has a well-formed body, and a returned value wraps a sound one. Integers
enter the store in two ways only: as literals, which the parser keeps below `2 ^ 63`, and
as results of the integer operators, which wrap what they compute into the range.

So a look-up never stops short: `Store.lookup` finds a value exactly when the chain of
scopes binds the name (`Store.Binds`), and finds none exactly when no scope of the chain
binds it.

Main results:

* `Store.lookup_eq_some_iff`: in a store whose scopes enclose only earlier ones, a look-up
  finds what the chain of scopes binds.
* `Scoped`, with `Expr.eval_scoped`, `Stmt.eval_scoped` and `Stmt.evalBlock_scoped`: each
  step of the evaluator keeps the store well scoped, never shrinks it, and gives a sound
  value.
* `Program.runAll_wellScoped`: along any sequence of parsed programs run from the empty
  store, faults included, every result and every binding is sound and look-ups are exact.
-/

namespace Sugiru

/-! ## Integer literals -/

mutual

/-- The values of the integer literals of an expression, in order. -/
def Expr.literals : Expr → List Nat
  | .hole | .ident _ | .bool _ => []
  | .int _ n => [n]
  | .unary _ e => e.literals
  | .binary _ l r => l.literals ++ r.literals
  | .cond c t none => c.literals ++ Stmt.allLiterals t
  | .cond c t (some e) => c.literals ++ Stmt.allLiterals t ++ Stmt.allLiterals e
  | .fn _ body => Stmt.allLiterals body
  | .call f args => f.literals ++ Expr.allLiterals args

/-- The values of the integer literals of a list of expressions. -/
def Expr.allLiterals : List Expr → List Nat
  | [] => []
  | e :: es => e.literals ++ Expr.allLiterals es

/-- The values of the integer literals of a statement. -/
def Stmt.literals : Stmt → List Nat
  | .bind _ e | .ret e | .expr e => e.literals

/-- The values of the integer literals of a list of statements. -/
def Stmt.allLiterals : List Stmt → List Nat
  | [] => []
  | s :: ss => s.literals ++ Stmt.allLiterals ss

end

mutual

theorem Expr.literals_le : ∀ e : Expr, e.wellFormed = true →
    ∀ n ∈ e.literals, n ≤ intLiteralLimit
  | .hole, h => absurd h (by simp [Expr.wellFormed])
  | .ident _, _ | .bool _, _ => by simp [Expr.literals]
  | .int _ _, h => by
    simp only [Expr.wellFormed, Bool.and_eq_true, decide_eq_true_eq] at h
    simpa [Expr.literals] using h.2
  | .unary _ e, h => Expr.literals_le e h
  | .binary _ l r, h => by
    simp only [Expr.wellFormed, Bool.and_eq_true] at h
    simp only [Expr.literals, List.mem_append]
    rintro n (hn | hn)
    · exact Expr.literals_le l h.1 n hn
    · exact Expr.literals_le r h.2 n hn
  | .cond c t none, h => by
    simp only [Expr.wellFormed, Bool.and_eq_true] at h
    simp only [Expr.literals, List.mem_append]
    rintro n (hn | hn)
    · exact Expr.literals_le c h.1 n hn
    · exact Stmt.allLiterals_le t h.2 n hn
  | .cond c t (some b), h => by
    simp only [Expr.wellFormed, Bool.and_eq_true] at h
    simp only [Expr.literals, List.mem_append]
    rintro n ((hn | hn) | hn)
    · exact Expr.literals_le c h.1.1 n hn
    · exact Stmt.allLiterals_le t h.1.2 n hn
    · exact Stmt.allLiterals_le b h.2 n hn
  | .fn _ body, h => by
    simp only [Expr.wellFormed, Bool.and_eq_true] at h
    exact Stmt.allLiterals_le body h.2
  | .call f args, h => by
    simp only [Expr.wellFormed, Bool.and_eq_true] at h
    simp only [Expr.literals, List.mem_append]
    rintro n (hn | hn)
    · exact Expr.literals_le f h.1 n hn
    · exact Expr.allLiterals_le args h.2 n hn

theorem Expr.allLiterals_le : ∀ es : List Expr, Expr.allWellFormed es = true →
    ∀ n ∈ Expr.allLiterals es, n ≤ intLiteralLimit
  | [], _ => by simp [Expr.allLiterals]
  | e :: es, h => by
    simp only [Expr.allWellFormed, Bool.and_eq_true] at h
    simp only [Expr.allLiterals, List.mem_append]
    rintro n (hn | hn)
    · exact Expr.literals_le e h.1 n hn
    · exact Expr.allLiterals_le es h.2 n hn

theorem Stmt.literals_le : ∀ s : Stmt, s.wellFormed = true →
    ∀ n ∈ s.literals, n ≤ intLiteralLimit
  | .bind _ e, h => by
    simp only [Stmt.wellFormed, Bool.and_eq_true] at h
    exact Expr.literals_le e h.2
  | .ret e, h | .expr e, h => Expr.literals_le e h

theorem Stmt.allLiterals_le : ∀ ss : List Stmt, Stmt.allWellFormed ss = true →
    ∀ n ∈ Stmt.allLiterals ss, n ≤ intLiteralLimit
  | [], _ => by simp [Stmt.allLiterals]
  | s :: ss, h => by
    simp only [Stmt.allWellFormed, Bool.and_eq_true] at h
    simp only [Stmt.allLiterals, List.mem_append]
    rintro n (hn | hn)
    · exact Stmt.literals_le s h.1 n hn
    · exact Stmt.allLiterals_le ss h.2 n hn

end

/-- A literal the parser admits lies in the signed 64-bit range. -/
theorem literal_range {n : Nat} (h : n ≤ intLiteralLimit) :
    -2 ^ 63 ≤ (n : Int) ∧ (n : Int) ≤ 2 ^ 63 - 1 := by
  unfold intLiteralLimit at h
  omega

/-! ## Sound values and well-scoped stores -/

/-- A value that a store of `n` scopes may hold: an integer within the signed 64-bit range,
    a function whose scope is one of the `n` and whose body is well formed, or a returned
    sound value. -/
def Value.Sound (n : Nat) : Value → Prop
  | .int k => -2 ^ 63 ≤ k ∧ k ≤ 2 ^ 63 - 1
  | .bool _ | .null => True
  | .returned v => v.Sound n
  | .closure _ body home => home < n ∧ Stmt.allWellFormed body = true

/-- A wrapped integer is sound. -/
theorem Value.sound_wrap (k : Int) (n : Nat) : (Value.int (wrapInt64 k)).Sound n :=
  wrapInt64_range k

/-- A value stays sound as the store grows. -/
theorem Value.Sound.mono {n m : Nat} (hnm : n ≤ m) {v : Value} (h : v.Sound n) : v.Sound m := by
  induction v with
  | int _ | bool _ | null => exact h
  | returned _ ih => exact ih h
  | closure _ _ _ => exact ⟨Nat.lt_of_lt_of_le h.1 hnm, h.2⟩

theorem Value.sound_getD_null {n : Nat} {o : Option Value} (h : ∀ v ∈ o, v.Sound n) :
    (o.getD .null).Sound n := by
  cases o with
  | none => trivial
  | some v => exact h v rfl

theorem Value.sound_unwrap {n : Nat} {o : Option Value} (h : ∀ v ∈ o, v.Sound n) :
    ∀ v ∈ Value.unwrap o, v.Sound n := by
  unfold Value.unwrap
  split
  · next w =>
    intro v hv
    obtain rfl := Option.some.inj hv
    exact h (.returned w) rfl
  · exact h

/-- Every scope is enclosed only by one made before it, and every value bound in the
    store is sound in it. -/
structure Store.WellScoped (s : Store) : Prop where
  global_lt : Store.global < s.scopes.size
  parent_lt : ∀ (i : Nat) (sc : Scope), s.scopes[i]? = some sc → ∀ p ∈ sc.parent, p < i
  bound : ∀ (i : Nat) (sc : Scope), s.scopes[i]? = some sc →
    ∀ b ∈ sc.bindings, b.2.Sound s.scopes.size

theorem Store.empty_wellScoped : Store.empty.WellScoped where
  global_lt := by decide
  parent_lt i sc h := by
    rcases i with _ | i
    · simp [Store.empty] at h
      subst h
      simp
    · simp [Store.empty] at h
  bound i sc h := by
    rcases i with _ | i
    · simp [Store.empty] at h
      subst h
      simp
    · simp [Store.empty] at h

theorem mem_bindIn {name : String} {v : Value} {l : List (String × Value)}
    {b : String × Value} (h : b ∈ bindIn name v l) : b = (name, v) ∨ b ∈ l := by
  induction l with
  | nil => simpa [bindIn] using h
  | cons q rest ih =>
    obtain ⟨n, w⟩ := q
    unfold bindIn at h
    split at h
    · rcases List.mem_cons.1 h with rfl | h
      · exact .inl rfl
      · exact .inr (List.mem_cons_of_mem _ h)
    · rcases List.mem_cons.1 h with rfl | h
      · exact .inr List.mem_cons_self
      · exact (ih h).imp_right (List.mem_cons_of_mem _)

/-- The bindings a new scope starts with come from the list it was given. -/
theorem mem_foldl_bindIn {l acc : List (String × Value)} {b : String × Value}
    (h : b ∈ l.foldl (fun acc (n, v) => bindIn n v acc) acc) : b ∈ l ∨ b ∈ acc := by
  induction l generalizing acc with
  | nil => exact .inr h
  | cons q l ih =>
    obtain ⟨n, v⟩ := q
    rcases ih h with h | h
    · exact .inl (List.mem_cons_of_mem _ h)
    · rcases mem_bindIn h with rfl | h
      · exact .inl List.mem_cons_self
      · exact .inr h

theorem Store.size_bind (s : Store) (id : Nat) (name : String) (v : Value) :
    (s.bind id name v).scopes.size = s.scopes.size :=
  Array.size_modify

/-- Binding a sound value keeps a store well scoped. -/
theorem Store.WellScoped.bind {s : Store} (hs : s.WellScoped) (id : Nat) (name : String)
    {v : Value} (hv : v.Sound s.scopes.size) : (s.bind id name v).WellScoped := by
  have hsize := s.size_bind id name v
  refine ⟨hsize ▸ hs.global_lt, fun j sc hsc => ?_, fun j sc hsc b hb => ?_⟩
  · simp only [Store.bind, Array.getElem?_modify] at hsc
    split at hsc
    · obtain ⟨sc0, h0, rfl⟩ := Option.map_eq_some_iff.1 hsc
      exact hs.parent_lt j sc0 h0
    · exact hs.parent_lt j sc hsc
  · rw [hsize]
    simp only [Store.bind, Array.getElem?_modify] at hsc
    split at hsc
    · obtain ⟨sc0, h0, rfl⟩ := Option.map_eq_some_iff.1 hsc
      rcases mem_bindIn hb with rfl | hb
      · exact hv
      · exact hs.bound j sc0 h0 b hb
    · exact hs.bound j sc hsc b hb

theorem Store.size_newScope (s : Store) (parent : Nat) (bs : List (String × Value)) :
    (s.newScope parent bs).2.scopes.size = s.scopes.size + 1 :=
  Array.size_push _

/-- A new scope enclosed by an existing one and holding sound values keeps a store well
    scoped. -/
theorem Store.WellScoped.newScope {s : Store} (hs : s.WellScoped) {parent : Nat}
    (hp : parent < s.scopes.size) {bs : List (String × Value)}
    (hb : ∀ b ∈ bs, b.2.Sound s.scopes.size) : (s.newScope parent bs).2.WellScoped := by
  have hsize := s.size_newScope parent bs
  refine ⟨hsize ▸ Nat.lt_succ_of_lt hs.global_lt, fun j sc hsc => ?_, fun j sc hsc b hb' => ?_⟩
  · simp only [Store.newScope, Array.getElem?_push] at hsc
    split at hsc
    · next hj =>
      obtain rfl := Option.some.inj hsc
      intro p hp'
      obtain rfl := Option.some.inj hp'
      exact hj ▸ hp
    · exact hs.parent_lt j sc hsc
  · rw [hsize]
    simp only [Store.newScope, Array.getElem?_push] at hsc
    split at hsc
    · obtain rfl := Option.some.inj hsc
      rcases mem_foldl_bindIn hb' with hb' | hb'
      · exact (hb b hb').mono (Nat.le_succ _)
      · simp at hb'
    · exact (hs.bound j sc hsc b hb').mono (Nat.le_succ _)

/-! ## Look-ups -/

/-- `Binds s id name v`: seen from scope `id`, `name` is bound to `v`, in that scope or,
    when that scope does not bind it, as seen from its enclosing scope. -/
inductive Store.Binds (s : Store) : Nat → String → Value → Prop
  | here {id : Nat} {sc : Scope} {name : String} {v : Value} :
      s.scopes[id]? = some sc → sc.bindings.lookup name = some v → Binds s id name v
  | outer {id p : Nat} {sc : Scope} {name : String} {v : Value} :
      s.scopes[id]? = some sc → sc.bindings.lookup name = none → sc.parent = some p →
        Binds s p name v → Binds s id name v

/-- In a store whose scopes are enclosed only by earlier ones, a look-up finds exactly
    what the chain of scopes binds. -/
theorem Store.lookup_eq_some_iff {s : Store}
    (hp : ∀ (i : Nat) (sc : Scope), s.scopes[i]? = some sc → ∀ p ∈ sc.parent, p < i)
    {id : Nat} {name : String}
    {v : Value} : s.lookup id name = some v ↔ s.Binds id name v := by
  constructor
  · intro h
    -- along the look-up's own recursion, on the place of the scope
    induction id using Nat.strongRecOn with
    | ind id ih =>
      rw [Store.lookup] at h
      split at h
      · exact absurd h (by simp)
      · next sc hsc =>
        split at h
        · next w hw =>
          obtain rfl := Option.some.inj h
          exact .here hsc hw
        · next hw =>
          split at h
          · next p hpar =>
            split at h
            · next hlt => exact .outer hsc hw hpar (ih p hlt h)
            · exact absurd h (by simp)
          · exact absurd h (by simp)
  · intro h
    induction h with
    | here hsc hw =>
      rw [Store.lookup]
      simp only [hsc, hw]
    | outer hsc hw hpar _ ih =>
      rw [Store.lookup]
      simp only [hsc, hw, hpar, if_pos (hp _ _ hsc _ hpar), ih]

theorem Store.Binds.mem {s : Store} {id : Nat} {name : String} {v : Value}
    (h : s.Binds id name v) :
    ∃ (i : Nat) (sc : Scope), s.scopes[i]? = some sc ∧ (name, v) ∈ sc.bindings := by
  induction h with
  | @here id sc name v hsc hw =>
    obtain ⟨l₁, l₂, hl, -⟩ := List.lookup_eq_some_iff.1 hw
    exact ⟨id, sc, hsc, by simp [hl]⟩
  | outer _ _ _ _ ih => exact ih

/-- A look-up in a well-scoped store finds a sound value. -/
theorem Store.WellScoped.lookup {s : Store} (hs : s.WellScoped) {id : Nat} {name : String}
    {v : Value} (h : s.lookup id name = some v) : v.Sound s.scopes.size := by
  obtain ⟨i, sc, hsc, hmem⟩ := ((Store.lookup_eq_some_iff hs.parent_lt).1 h).mem
  exact hs.bound i sc hsc _ hmem

/-! ## Computations that keep the store well scoped -/

variable {α β : Type}

/-- Run from any well-scoped store of at least `n` scopes, the computation leaves a
    well-scoped store no smaller and, when it ends without a fault, a result that
    satisfies `P` at the size of that store. -/
def Scoped (n : Nat) (P : Nat → α → Prop) (x : Eval α) : Prop :=
  ∀ s : Store, s.WellScoped → n ≤ s.scopes.size →
    (x.run.run s).2.WellScoped ∧ s.scopes.size ≤ (x.run.run s).2.scopes.size ∧
      ∀ a, (x.run.run s).1 = .ok a → P (x.run.run s).2.scopes.size a

section Scoped

variable {n m : Nat} {P Q : Nat → α → Prop}

theorem Scoped.pure {a : α} (h : ∀ m, n ≤ m → P m a) : Scoped n P (pure a) :=
  fun _ hs hn => ⟨hs, Nat.le_refl _, fun _ hb => Except.ok.inj hb ▸ h _ hn⟩

theorem Scoped.throw (e : Fault) : Scoped n P (throw e : Eval α) :=
  fun _ hs _ => ⟨hs, Nat.le_refl _, fun _ hb => nomatch hb⟩

theorem Scoped.mono {x : Eval α} (h : Scoped n P x) (hnm : n ≤ m) : Scoped m P x :=
  fun s hs hm => h s hs (Nat.le_trans hnm hm)

/-- A step that keeps the store well scoped, then one that does from every result of the
    first, at any size the first may leave. -/
theorem Scoped.bind {P : Nat → α → Prop} {Q : Nat → β → Prop} {x : Eval α} {f : α → Eval β}
    (hx : Scoped n P x) (hf : ∀ m a, n ≤ m → P m a → Scoped m Q (f a)) :
    Scoped n Q (x >>= f) := by
  intro s hs hn
  obtain ⟨hs', hle, hP⟩ := hx s hs hn
  rw [Eval.run_bind]
  rcases h : x.run.run s with ⟨_ | a, s'⟩
  · -- a fault leaves the store as the first step left it
    rw [h] at hs' hle
    exact ⟨hs', hle, fun _ hb => nomatch hb⟩
  · rw [h] at hs' hle hP
    obtain ⟨hs'', hle', hQ⟩ :=
      hf s'.scopes.size a (Nat.le_trans hn hle) (hP a rfl) s' hs' (Nat.le_refl _)
    exact ⟨hs'', Nat.le_trans hle hle', hQ⟩

theorem Scoped.get : Scoped n (fun m st => st.WellScoped ∧ st.scopes.size = m)
    (get : Eval Store) :=
  fun _ hs _ => ⟨hs, Nat.le_refl _, fun _ hb => Except.ok.inj hb ▸ ⟨hs, rfl⟩⟩

theorem Scoped.modify {g : Store → Store}
    (h : ∀ s, s.WellScoped → n ≤ s.scopes.size →
      (g s).WellScoped ∧ s.scopes.size ≤ (g s).scopes.size) :
    Scoped n (fun _ _ => True) (modify g : Eval PUnit) :=
  fun s hs hn => ⟨(h s hs hn).1, (h s hs hn).2, fun _ _ => trivial⟩

theorem Scoped.modifyGet {R : Nat → β → Prop} {g : Store → β × Store}
    (h : ∀ s, s.WellScoped → n ≤ s.scopes.size →
      (g s).2.WellScoped ∧ s.scopes.size ≤ (g s).2.scopes.size ∧ R (g s).2.scopes.size (g s).1) :
    Scoped n R (modifyGet g : Eval β) :=
  fun s hs hn => ⟨(h s hs hn).1, (h s hs hn).2.1, fun _ hb => Except.ok.inj hb ▸ (h s hs hn).2.2⟩

end Scoped

/-! ## The evaluator's steps -/

/-- An operator gives an integer, a boolean or null. -/
theorem PrefixOp.apply_sound (op : PrefixOp) (o : Option Value) (n : Nat) :
    (op.apply o).Sound n := by
  unfold PrefixOp.apply
  split
  · trivial
  · trivial
  · exact Value.sound_wrap _ n
  · trivial

/-- An integer operator gives a wrapped integer or a boolean. -/
theorem InfixOp.applyInt_sound {op : InfixOp} {a b : Int} {v : Value}
    (h : op.applyInt a b = some v) (n : Nat) : v.Sound n := by
  cases op
  case add | sub | mul =>
    simp only [InfixOp.applyInt, Option.some.injEq] at h
    subst h
    exact Value.sound_wrap _ n
  case div =>
    simp only [InfixOp.applyInt] at h
    split at h
    · cases h
    · simp only [Option.some.injEq] at h
      subst h
      exact Value.sound_wrap _ n
  case lt | gt | eq | ne =>
    simp only [InfixOp.applyInt, Option.some.injEq] at h
    subst h
    trivial

theorem InfixOp.apply_sound {op : InfixOp} {l r : Option Value} {v : Value}
    (h : op.apply l r = some v) (n : Nat) : v.Sound n := by
  unfold InfixOp.apply at h
  split at h
  · exact InfixOp.applyInt_sound h n
  · -- operands that are not both integers give a boolean or null
    split at h
    · cases op <;> simp at h <;> subst h <;> trivial
    · simp at h; subst h; trivial

/-- An `if` keeps any property of its blocks' values that null has. -/
theorem Scoped.cond {P : Nat → Option Value → Prop} {d sc : Nat} {c : Expr} {t : List Stmt}
    {alt : Option (List Stmt)}
    (hc : Scoped (sc + 1) (fun m o => ∀ v ∈ o, v.Sound m) (Expr.eval d sc c))
    (ht : Scoped (sc + 1) P (Stmt.evalBlock d sc t))
    (he : ∀ b, alt = some b → Scoped (sc + 1) P (Stmt.evalBlock d sc b))
    (hn : ∀ m, P m (some .null)) :
    Scoped (sc + 1) P (Expr.eval d sc (.cond c t alt)) := by
  cases alt with
  | none =>
    rw [Expr.eval]
    refine hc.bind fun m _ hm _ => ?_
    split
    · exact ht.mono hm
    · exact Scoped.pure fun m _ => hn m
  | some b =>
    rw [Expr.eval]
    refine hc.bind fun m _ hm _ => ?_
    split
    · exact ht.mono hm
    · exact (he b rfl).mono hm

/-- The arguments of a call, bound to its parameters, are sound. -/
theorem zip_args_sound {n : Nat} {ps : List String} {avs : List (Option Value)}
    (h : ∀ o ∈ avs, ∀ v ∈ o, v.Sound n) :
    ∀ b ∈ ps.zip (avs.map (·.getD .null)), b.2.Sound n := by
  intro b hb
  obtain ⟨o, ho, hbo⟩ := List.mem_map.1 (List.of_mem_zip hb).2
  rw [← hbo]
  exact Value.sound_getD_null (h o ho)

mutual

/-- A well-formed expression, evaluated in an existing scope, keeps the store well scoped
    and gives a sound value. -/
theorem Expr.eval_scoped (d sc : Nat) : ∀ e : Expr, e.wellFormed = true →
    Scoped (sc + 1) (fun m o => ∀ v ∈ o, v.Sound m) (Expr.eval d sc e)
  | .hole, h => absurd h (by simp [Expr.wellFormed])
  | .ident name, _ => by
    rw [Expr.eval]
    refine Scoped.get.bind fun m st _ ⟨hst, hm⟩ => ?_
    split
    · next v hv =>
      exact Scoped.pure fun m' hm' w hw =>
        Option.some.inj hw ▸ (hst.lookup hv).mono (hm ▸ hm')
    · exact Scoped.throw _
  | .int _ n, h => by
    simp only [Expr.wellFormed, Bool.and_eq_true, decide_eq_true_eq] at h
    rw [Expr.eval]
    exact Scoped.pure fun _ _ w hw => Option.some.inj hw ▸ literal_range h.2
  | .bool _, _ => by
    rw [Expr.eval]
    exact Scoped.pure fun _ _ w hw => Option.some.inj hw ▸ trivial
  | .unary op e, h => by
    rw [Expr.eval]
    exact (Expr.eval_scoped d sc e h).bind fun _ v _ _ =>
      Scoped.pure fun m _ w hw => Option.some.inj hw ▸ op.apply_sound v m
  | .binary op l r, h => by
    simp only [Expr.wellFormed, Bool.and_eq_true] at h
    rw [Expr.eval]
    refine (Expr.eval_scoped d sc l h.1).bind fun _ lv hm _ =>
      ((Expr.eval_scoped d sc r h.2).mono hm).bind fun _ rv _ _ => ?_
    split
    · next v hv => exact Scoped.pure fun m _ w hw => Option.some.inj hw ▸ InfixOp.apply_sound hv m
    · exact Scoped.throw _
  | .cond c t none, h => by
    simp only [Expr.wellFormed, Bool.and_eq_true] at h
    exact Scoped.cond (Expr.eval_scoped d sc c h.1) (Stmt.evalBlock_scoped d sc t h.2)
      (by simp) fun _ w hw => Option.some.inj hw ▸ trivial
  | .cond c t (some b), h => by
    simp only [Expr.wellFormed, Bool.and_eq_true] at h
    exact Scoped.cond (Expr.eval_scoped d sc c h.1.1) (Stmt.evalBlock_scoped d sc t h.1.2)
      (fun b' hb => Option.some.inj hb ▸ Stmt.evalBlock_scoped d sc b h.2)
      fun _ w hw => Option.some.inj hw ▸ trivial
  | .fn ps body, h => by
    simp only [Expr.wellFormed, Bool.and_eq_true] at h
    rw [Expr.eval]
    exact Scoped.pure fun _ hm w hw => Option.some.inj hw ▸ ⟨hm, h.2⟩
  | .call f args, h => by
    simp only [Expr.wellFormed, Bool.and_eq_true] at h
    rw [Expr.eval]
    refine (Expr.eval_scoped d sc f h.1).bind fun m fv hm hfv =>
      ((Expr.evalAll_scoped d sc args h.2).mono hm).bind fun m' avs hm' havs => ?_
    split
    · next ps body home =>
      -- the function names a scope of the store and has a well-formed body
      have hclo : home < m' ∧ Stmt.allWellFormed body = true := (hfv _ rfl).mono hm'
      split
      · split
        · exact Scoped.throw _
        · next d' =>
          -- its body runs in a new scope, the last of the store
          refine (Scoped.modifyGet (R := fun k inner => inner + 1 ≤ k) fun st hst hsz =>
            ⟨hst.newScope (Nat.lt_of_lt_of_le hclo.1 hsz)
              (zip_args_sound fun o ho v hv => (havs o ho v hv).mono hsz),
             by rw [Store.size_newScope]; exact Nat.le_succ _,
             by rw [Store.size_newScope]; exact Nat.le_refl _⟩).bind fun _ inner _ hinner => ?_
          exact ((Stmt.evalBlock_scoped d' inner body hclo.2).mono hinner).bind fun _ r _ hr =>
            Scoped.pure fun _ hk => Value.sound_unwrap fun v hv => (hr v hv).mono hk
      · exact Scoped.throw _
    · exact Scoped.throw _
termination_by e => (d, sizeOf e)

/-- Well-formed expressions give sound values. -/
theorem Expr.evalAll_scoped (d sc : Nat) : ∀ es : List Expr, Expr.allWellFormed es = true →
    Scoped (sc + 1) (fun m vs => ∀ o ∈ vs, ∀ v ∈ o, v.Sound m) (Expr.evalAll d sc es)
  | [], _ => by
    rw [Expr.evalAll]
    exact Scoped.pure fun _ _ => by simp
  | e :: es, h => by
    simp only [Expr.allWellFormed, Bool.and_eq_true] at h
    rw [Expr.evalAll]
    exact (Expr.eval_scoped d sc e h.1).bind fun _ v hm hv =>
      ((Expr.evalAll_scoped d sc es h.2).mono hm).bind fun _ vs hm' hvs =>
        Scoped.pure fun _ hk => List.forall_mem_cons.2
          ⟨fun w hw => (hv w hw).mono (Nat.le_trans hm' hk), fun o ho w hw => (hvs o ho w hw).mono hk⟩
termination_by es => (d, sizeOf es)

/-- A well-formed statement keeps the store well scoped and gives a sound value; a `let`
    binds one. -/
theorem Stmt.eval_scoped (d sc : Nat) : ∀ s : Stmt, s.wellFormed = true →
    Scoped (sc + 1) (fun m o => ∀ v ∈ o, v.Sound m) (Stmt.eval d sc s)
  | .bind name e, h => by
    simp only [Stmt.wellFormed, Bool.and_eq_true] at h
    rw [Stmt.eval]
    exact (Expr.eval_scoped d sc e h.2).bind fun _ v _ hv =>
      (Scoped.modify fun st hst hsz =>
        ⟨hst.bind sc name ((Value.sound_getD_null hv).mono hsz),
          Nat.le_of_eq (st.size_bind sc name _).symm⟩).bind fun _ _ _ _ =>
        Scoped.pure fun _ _ w hw => nomatch hw
  | .ret e, h => by
    rw [Stmt.eval]
    exact (Expr.eval_scoped d sc e h).bind fun _ v _ hv =>
      Scoped.pure fun _ hk w hw => Option.some.inj hw ▸ (Value.sound_getD_null hv).mono hk
  | .expr e, h => by
    rw [Stmt.eval]
    exact Expr.eval_scoped d sc e h
termination_by s => (d, sizeOf s)

/-- A well-formed block keeps the store well scoped and gives a sound value. -/
theorem Stmt.evalBlock_scoped (d sc : Nat) : ∀ ss : List Stmt, Stmt.allWellFormed ss = true →
    Scoped (sc + 1) (fun m o => ∀ v ∈ o, v.Sound m) (Stmt.evalBlock d sc ss)
  | [], _ => by
    rw [Stmt.evalBlock]
    exact Scoped.pure fun _ _ w hw => nomatch hw
  | s :: ss, h => by
    simp only [Stmt.allWellFormed, Bool.and_eq_true] at h
    rw [Stmt.evalBlock]
    refine (Stmt.eval_scoped d sc s h.1).bind fun _ r hm hr => ?_
    split
    · exact Scoped.pure fun _ hk w hw => (hr w hw).mono hk
    · exact (Stmt.evalBlock_scoped d sc ss h.2).mono hm
termination_by ss => (d, sizeOf ss)

end

/-- A well-formed program's statements keep the store well scoped and give a sound
    value. -/
theorem Stmt.evalProgram_scoped (d sc : Nat) : ∀ ss : List Stmt, Stmt.allWellFormed ss = true →
    Scoped (sc + 1) (fun m o => ∀ v ∈ o, v.Sound m) (Stmt.evalProgram d sc ss)
  | [], _ => by
    rw [Stmt.evalProgram]
    exact Scoped.pure fun _ _ w hw => nomatch hw
  | s :: ss, h => by
    simp only [Stmt.allWellFormed, Bool.and_eq_true] at h
    rw [Stmt.evalProgram]
    refine (Stmt.eval_scoped d sc s h.1).bind fun _ r hm hr => ?_
    split
    · next v =>
      exact Scoped.pure fun _ hk w hw => Option.some.inj hw ▸ (hr _ rfl).mono hk
    · split
      · exact Scoped.pure fun _ hk w hw => (hr w hw).mono hk
      · exact (Stmt.evalProgram_scoped d sc ss h.2).mono hm

/-- A well-formed program run from a well-scoped store leaves one no smaller and gives a
    sound value, whether it finishes or stops with a fault. -/
theorem Program.run_scoped {p : Program} (hp : Stmt.allWellFormed p.stmts = true) {s : Store}
    (hs : s.WellScoped) :
    (p.run s).2.WellScoped ∧ s.scopes.size ≤ (p.run s).2.scopes.size ∧
      ∀ o, (p.run s).1 = .ok o → ∀ v ∈ o, v.Sound (p.run s).2.scopes.size :=
  Stmt.evalProgram_scoped callDepthLimit Store.global p.stmts hp s hs hs.global_lt

/-! ## Sessions -/

/-- Programs run one after another against one store, each from the store the one before
    it left, whether that one finished or stopped with a fault: their outcomes in order,
    and the store at the end. -/
def Program.runAll : List Program → Store → List (Except Fault (Option Value)) × Store
  | [], s => ([], s)
  | p :: ps, s =>
    let rest := Program.runAll ps (p.run s).2
    ((p.run s).1 :: rest.1, rest.2)

/-- Well-formed programs run one after another keep the store well scoped, and every
    value they give is sound in the store at the end. -/
theorem Program.runAll_scoped :
    ∀ (ps : List Program), (∀ p ∈ ps, Stmt.allWellFormed p.stmts = true) →
      ∀ s : Store, s.WellScoped →
        (Program.runAll ps s).2.WellScoped ∧ s.scopes.size ≤ (Program.runAll ps s).2.scopes.size ∧
          ∀ r ∈ (Program.runAll ps s).1, ∀ v, r = .ok (some v) →
            v.Sound (Program.runAll ps s).2.scopes.size
  | [], _, s, hs => ⟨hs, Nat.le_refl _, by simp [Program.runAll]⟩
  | p :: ps, hp, s, hs => by
    obtain ⟨hs₁, hle₁, hv₁⟩ := Program.run_scoped (hp p List.mem_cons_self) hs
    obtain ⟨hs₂, hle₂, hv₂⟩ :=
      Program.runAll_scoped ps (fun q hq => hp q (List.mem_cons_of_mem _ hq)) _ hs₁
    refine ⟨hs₂, Nat.le_trans hle₁ hle₂, ?_⟩
    simp only [Program.runAll, List.mem_cons, forall_eq_or_imp]
    exact ⟨fun v hv => (hv₁ _ hv v rfl).mono hle₂, hv₂⟩

/-- Programs parsed with no issue, run one after another from the empty store, faults
    included: their integer literals lie in the signed 64-bit range, every value they give
    and every value bound in any scope is sound (integers within that range, wrapped or
    read from a literal, whether returned, wrapped in a returned value or bound),
    and a look-up from any scope finds a value exactly when the chain of scopes binds the
    name, so it finds none exactly when the name is bound nowhere along it. -/
theorem Program.runAll_wellScoped (srcs : List String)
    (h : ∀ src ∈ srcs, (Program.parse src).issues = []) :
    let run := Program.runAll (srcs.map fun src => (Program.parse src).program) Store.empty
    (∀ src ∈ srcs, ∀ n ∈ Stmt.allLiterals (Program.parse src).program.stmts,
      -2 ^ 63 ≤ (n : Int) ∧ (n : Int) ≤ 2 ^ 63 - 1) ∧
    (∀ r ∈ run.1, ∀ v, r = .ok (some v) → v.Sound run.2.scopes.size) ∧
    run.2.WellScoped ∧
    ∀ id name, (∀ v, run.2.lookup id name = some v ↔ run.2.Binds id name v) ∧
      (run.2.lookup id name = none ↔ ∀ v, ¬ run.2.Binds id name v) := by
  intro run
  have hw : ∀ src ∈ srcs, Stmt.allWellFormed (Program.parse src).program.stmts = true :=
    fun src hsrc => Program.parse_wellFormed src (h src hsrc)
  have hps : ∀ p ∈ srcs.map fun src => (Program.parse src).program,
      Stmt.allWellFormed p.stmts = true := by
    simpa using hw
  obtain ⟨hs, -, hv⟩ := Program.runAll_scoped _ hps Store.empty Store.empty_wellScoped
  have hlookup : ∀ id name v, run.2.lookup id name = some v ↔ run.2.Binds id name v :=
    fun _ _ _ => Store.lookup_eq_some_iff hs.parent_lt
  refine ⟨fun src hsrc n hn => literal_range (Stmt.allLiterals_le _ (hw src hsrc) n hn),
    hv, hs, fun id name => ⟨hlookup id name, ?_⟩⟩
  rw [Option.eq_none_iff_forall_ne_some]
  exact forall_congr' fun v => not_congr (hlookup id name v)

/-- A session of three chunks, the second of which stops at an unbound name. -/
theorem Program.runAll_wellScoped_session :
    (∀ src ∈ ["let x = 5;", "y", "let z = x * 2;"], (Program.parse src).issues = []) ∧
    let run := Program.runAll
      (["let x = 5;", "y", "let z = x * 2;"].map fun src => (Program.parse src).program) Store.empty
    (∀ src ∈ ["let x = 5;", "y", "let z = x * 2;"], ∀ n ∈ Stmt.allLiterals (Program.parse src).program.stmts,
      -2 ^ 63 ≤ (n : Int) ∧ (n : Int) ≤ 2 ^ 63 - 1) ∧
    (∀ r ∈ run.1, ∀ v, r = .ok (some v) → v.Sound run.2.scopes.size) ∧
    run.2.WellScoped ∧
    ∀ id name, (∀ v, run.2.lookup id name = some v ↔ run.2.Binds id name v) ∧
      (run.2.lookup id name = none ↔ ∀ v, ¬ run.2.Binds id name v) := by
  have h : ∀ src ∈ ["let x = 5;", "y", "let z = x * 2;"], (Program.parse src).issues = [] := by
    simp only [List.forall_mem_cons, List.not_mem_nil, false_imp_iff, forall_const, and_true]
    exact ⟨by cbv, by cbv, by cbv⟩
  exact ⟨h, Program.runAll_wellScoped _ h⟩

end Sugiru
