import Mathlib
import Sugiru.Session

/-!
# The laws of an evaluating session

A session in `eval` mode keeps four things between calls: its pending programs by line
number, its queued results, one store for all its programs, and, in its reporter, the
line its file is working on. This module says what each of the calls `add`, `run` and
`pop` does to those four, and shows that every session reached by any sequence of calls
from a new one obeys these laws.

The laws rest on one invariant: the pending line numbers are distinct. A run drops each
program it evaluates by its line number, so with two programs under one number it would
drop one it has not yet evaluated.

Main results:

* `keys_putPending`, `lookup_putPending`: a program added under a new line number goes
  last, and one added under a pending line number takes that program's place.
* `Reporter.lineOf_setLine`, `Reporter.setLine_setLine`: a reporter keeps one line for
  each file, the last one set.
* `Session.runPending_spec`: a run evaluates the pending programs in order from the
  session's store; either all of them finish, or it stops at the first fault, with the
  programs after it still pending and the store as the faulty program left it.
* `Session.laws_of_evaluating`, `Session.performAll_laws`: every session reached by calls
  from a new evaluating session obeys the laws.
-/

namespace Sugiru

/-! ## Pending programs -/

section Pending

variable {ps : List (Int × Program)} {n m : Int} {p : Program}

theorem any_key_iff : ps.any (·.1 == n) = true ↔ n ∈ ps.map Prod.fst := by
  simp [List.any_eq_true, List.mem_map]

/-- Line numbers stay in the order they were first added: a new one goes last. -/
theorem keys_putPending :
    (putPending ps n p).map Prod.fst =
      if n ∈ ps.map Prod.fst then ps.map Prod.fst else ps.map Prod.fst ++ [n] := by
  unfold putPending
  by_cases h : n ∈ ps.map Prod.fst
  · rw [if_pos (any_key_iff.2 h), if_pos h, List.map_map]
    refine List.map_congr_left fun q _ => ?_
    by_cases hq : q.1 = n <;> simp [hq]
  · rw [if_neg (mt any_key_iff.1 h), if_neg h, List.map_append]
    rfl

theorem lookup_replace_ne (h : m ≠ n) :
    (ps.map fun q => if q.1 == n then (n, p) else q).lookup m = ps.lookup m := by
  induction ps with
  | nil => rfl
  | cons q qs ih =>
    obtain ⟨k, b⟩ := q
    by_cases hk : k = n
    · have hmk : (m == k) = false := by simpa [hk] using h
      simp only [List.map_cons, hk, beq_self_eq_true, if_true, List.lookup_cons]
      simp only [hk] at hmk
      simp only [hmk, ih]
    · have hkn : (k == n) = false := by simpa using hk
      simp only [List.map_cons, hkn, Bool.false_eq_true, if_false, List.lookup_cons, ih]

theorem lookup_replace_self (h : n ∈ ps.map Prod.fst) :
    (ps.map fun q => if q.1 == n then (n, p) else q).lookup n = some p := by
  induction ps with
  | nil => simp at h
  | cons q qs ih =>
    obtain ⟨k, b⟩ := q
    by_cases hk : k = n
    · simp only [List.map_cons, hk, beq_self_eq_true, if_true, List.lookup_cons]
    · have hqs : n ∈ qs.map Prod.fst := by simpa [Ne.symm hk] using h
      have hkn : (k == n) = false := by simpa using hk
      have hnk : (n == k) = false := by simpa using Ne.symm hk
      simp only [List.map_cons, hkn, Bool.false_eq_true, if_false, List.lookup_cons, hnk,
        ih hqs]

theorem lookup_append_new (h : n ∉ ps.map Prod.fst) :
    (ps ++ [(n, p)]).lookup m = if m = n then some p else ps.lookup m := by
  induction ps with
  | nil =>
    by_cases hm : m = n
    · simp [hm]
    · have hmn : (m == n) = false := by simpa using hm
      simp [List.lookup_cons, hm, hmn]
  | cons q qs ih =>
    obtain ⟨k, b⟩ := q
    have hk : k ≠ n := fun hk => h (by simp [hk])
    have hqs : n ∉ qs.map Prod.fst := fun hqs => h (by simp_all)
    by_cases hm : m = k
    · simp [hm, hk]
    · have hmk : (m == k) = false := by simpa using hm
      simp only [List.cons_append, List.lookup_cons, hmk, ih hqs]

/-- The program under a line number is the last one added under it. -/
theorem lookup_putPending :
    (putPending ps n p).lookup m = if m = n then some p else ps.lookup m := by
  unfold putPending
  by_cases h : n ∈ ps.map Prod.fst
  · rw [if_pos (any_key_iff.2 h)]
    by_cases hm : m = n
    · rw [if_pos hm, hm, lookup_replace_self h]
    · rw [if_neg hm, lookup_replace_ne hm]
  · rw [if_neg (mt any_key_iff.1 h)]
    exact lookup_append_new h

theorem nodup_putPending (h : (ps.map Prod.fst).Nodup) :
    ((putPending ps n p).map Prod.fst).Nodup := by
  rw [keys_putPending]
  split
  · exact h
  · rename_i hn
    refine List.nodup_append.2 ⟨h, by simp, ?_⟩
    intro a ha b hb hab
    rw [List.mem_singleton] at hb
    exact hn (hb ▸ hab ▸ ha)

end Pending

/-! ## The lines of a reporter -/

namespace Reporter

/-- The frame of `file`: the line that file is working on, with its number. -/
def lineOf (r : Reporter) (file : String) : Option Frame := r.frames.find? (·.file == file)

theorem find?_replace_ne {fs : List Frame} {f g : String} {fr : Frame} (hfr : fr.file = f)
    (h : g ≠ f) :
    (fs.map fun x => if x.file == f then fr else x).find? (·.file == g) =
      fs.find? (·.file == g) := by
  induction fs with
  | nil => rfl
  | cons x xs ih =>
    by_cases hx : x.file = f
    · have hxg : (x.file == g) = false := by simpa [hx] using Ne.symm h
      have hfg : (fr.file == g) = false := by simpa [hfr] using Ne.symm h
      have hxf : (x.file == f) = true := by simpa using hx
      simp only [List.map_cons, hxf, if_true, List.find?_cons, hxg, hfg, ih]
    · have hxf : (x.file == f) = false := by simpa using hx
      simp only [List.map_cons, hxf, Bool.false_eq_true, if_false, List.find?_cons, ih]

theorem find?_replace_self {fs : List Frame} {f : String} {fr : Frame} (hfr : fr.file = f)
    (h : fs.any (·.file == f) = true) :
    (fs.map fun x => if x.file == f then fr else x).find? (·.file == f) = some fr := by
  induction fs with
  | nil => simp at h
  | cons x xs ih =>
    by_cases hx : x.file = f
    · have hxf : (x.file == f) = true := by simpa using hx
      have hff : (fr.file == f) = true := by simpa using hfr
      simp only [List.map_cons, hxf, if_true, List.find?_cons, hff]
    · have hxf : (x.file == f) = false := by simpa using hx
      have hxs : xs.any (·.file == f) = true := by simpa [hx] using h
      simp only [List.map_cons, hxf, Bool.false_eq_true, if_false, List.find?_cons, ih hxs]

/-- Setting the line of a file changes the frame of that file only. -/
theorem lineOf_setLine (r : Reporter) (f g l : String) (num : Option Int) :
    (r.setLine f l num).lineOf g = if g = f then some ⟨f, l, num⟩ else r.lineOf g := by
  unfold setLine lineOf
  split
  · rename_i h
    by_cases hg : g = f
    · rw [if_pos hg, hg]
      exact find?_replace_self rfl h
    · rw [if_neg hg]
      exact find?_replace_ne rfl hg
  · rename_i h
    have hnone : r.frames.find? (·.file == f) = none := by
      simpa [List.find?_eq_none, List.any_eq_true] using h
    by_cases hg : g = f
    · subst hg
      simp [List.find?_append, hnone]
    · have hfg : (f == g) = false := by simp [Ne.symm hg]
      simp [List.find?_append, hg, hfg]

/-- A line set over another for the same file leaves no trace of the first. -/
theorem setLine_setLine (r : Reporter) (f l l' : String) (num num' : Option Int) :
    (r.setLine f l num).setLine f l' num' = r.setLine f l' num' := by
  obtain ⟨fatal, fs⟩ := r
  unfold setLine
  by_cases h : fs.any (·.file == f) = true
  · have h' : (fs.map fun x => if x.file == f then (⟨f, l, num⟩ : Frame) else x).any
        (·.file == f) = true := by
      obtain ⟨x, hx, hxf⟩ := List.any_eq_true.1 h
      rw [List.any_map]
      exact List.any_eq_true.2 ⟨x, hx, by simp_all⟩
    simp only [h, h', if_true, List.map_map, Reporter.mk.injEq, true_and]
    refine List.map_congr_left fun x _ => ?_
    by_cases hx : x.file = f <;> simp [hx]
  · have h0 : fs.any (·.file == f) = false := by simpa using h
    have h' : (fs ++ [(⟨f, l, num⟩ : Frame)]).any (·.file == f) = true := by simp
    have hfs : ∀ x ∈ fs, x.file ≠ f := by
      simpa [List.any_eq_true] using h
    simp only [h0, h', Bool.false_eq_true, if_false, if_true, List.map_append, Reporter.mk.injEq,
      true_and]
    have hkeep : (fs.map fun x => if x.file == f then (⟨f, l', num'⟩ : Frame) else x) = fs := by
      refine (List.map_congr_left fun x hx => ?_).trans (List.map_id fs)
      simp [hfs x hx]
    rw [hkeep]
    simp

end Reporter

/-! ## Runs -/

/-- `Runs σ ps σ' out`: the programs `ps`, evaluated one after another from the store
    `σ`, all finish without a fault, leave the store `σ'`, and give the values whose texts
    are `out`, in order; a program with no value gives no text. -/
inductive Program.Runs : Store → List Program → Store → List String → Prop
  | nil (σ : Store) : Runs σ [] σ []
  | cons {σ σ₁ σ₂ : Store} {p : Program} {ps : List Program} {v : Option Value}
      {out : List String} :
      p.run σ = (.ok v, σ₁) → Runs σ₁ ps σ₂ out →
        Runs σ (p :: ps) σ₂ ((v.map Value.inspect).toList ++ out)

namespace Session

theorem filter_pending_cons {ps rest : List (Int × Program)} {n : Int} {p : Program}
    (hps : ps = (n, p) :: rest) (hk : (ps.map Prod.fst).Nodup) :
    ps.filter (·.1 != n) = rest := by
  subst hps
  have hn : n ∉ rest.map Prod.fst := (List.nodup_cons.1 hk).1
  have hrest : ∀ q ∈ rest, (q.1 != n) = true := fun q hq => by
    have : q.1 ≠ n := fun h => hn (List.mem_map.2 ⟨q, hq, h⟩)
    simpa using this
  simp [List.filter_eq_self.2 hrest]

/-- A run over the pending programs, in order: either they all finish, and the session
    keeps their values' texts and their last store, with nothing pending; or there is a
    first fault, and the session keeps the values before it and the store the faulty
    program left, the programs after it still pending and the faulty one its reporter's
    line. -/
theorem runPending_spec (qs : List (Int × Program)) (s : Session) (hq : s.pending = qs)
    (hk : (qs.map Prod.fst).Nodup) :
    (∃ σ out, Program.Runs s.store (qs.map Prod.snd) σ out ∧
      s.runPending qs =
        ({ s with
            store := σ, pending := [], results := s.results ++ out,
            reporter := if qs = [] then s.reporter else s.reporter.removeLine s.path },
          none)) ∨
    (∃ done n p later σ out f σ', qs = done ++ (n, p) :: later ∧
      Program.Runs s.store (done.map Prod.snd) σ out ∧ p.run σ = (.error f, σ') ∧
      s.runPending qs =
        ({ s with
            store := σ', pending := later, results := s.results ++ out,
            reporter := s.reporter.registerLine s.path p.render (some n) },
          some (.fault f))) := by
  -- induction on the pending programs still to run; the session's queue is that list
  induction qs generalizing s with
  | nil =>
    refine .inl ⟨s.store, [], .nil _, ?_⟩
    obtain ⟨path, mode, store, pending, results, reporter⟩ := s
    simp_all [runPending]
  | cons q rest ih =>
    obtain ⟨n, p⟩ := q
    have hfilter := filter_pending_cons hq (hq ▸ hk)
    have hkr : (rest.map Prod.fst).Nodup := (List.nodup_cons.1 hk).2
    rcases hrun : p.run s.store with ⟨res, σ₁⟩
    cases res with
    | error f =>
      refine .inr ⟨[], n, p, rest, s.store, [], f, σ₁, rfl, .nil _, hrun, ?_⟩
      simp [runPending, hrun, hfilter]
    | ok v =>
      -- the session after the first program, from which the rest of the run goes on
      let s' : Session := { s with
        store := σ₁, pending := rest, results := s.results ++ (v.map Value.inspect).toList,
        reporter := (s.reporter.registerLine s.path p.render (some n)).removeLine s.path }
      have hstep : s.runPending ((n, p) :: rest) = s'.runPending rest := by
        simp [runPending, hrun, hfilter, s']
      have hrep : s'.reporter = s.reporter.removeLine s.path :=
        Reporter.setLine_setLine _ _ _ _ _ _
      rcases ih s' rfl hkr with ⟨σ, out, hR, heq⟩ | ⟨done, m, q, later, σ, out, f, σ', hsplit,
        hR, hq', heq⟩
      · refine .inl ⟨σ, (v.map Value.inspect).toList ++ out, .cons hrun hR, ?_⟩
        rw [hstep, heq]
        have hrep' : (if rest = [] then s'.reporter else s'.reporter.removeLine s'.path) =
            s.reporter.removeLine s.path := by
          split
          · exact hrep
          · rw [hrep]
            exact Reporter.setLine_setLine _ _ _ _ _ _
        simp only [hrep', s', List.append_assoc, List.cons_ne_nil, if_false]
      · refine .inr ⟨(n, p) :: done, m, q, later, σ, (v.map Value.inspect).toList ++ out, f, σ',
          by rw [hsplit, List.cons_append], .cons hrun hR, hq', ?_⟩
        rw [hstep, heq]
        have hrep' : s'.reporter.registerLine s'.path q.render (some m) =
            s.reporter.registerLine s.path q.render (some m) := by
          rw [hrep]
          exact Reporter.setLine_setLine _ _ _ _ _ _
        simp only [hrep', s', List.append_assoc]

/-! ## Adding, running and taking -/

section Calls

variable {s : Session} {src : String} {n : Int}

/-- In `eval` mode a chunk that parses joins the pending programs under its line number,
    and the session's file is done with its line. -/
theorem add_of_parsed (hm : s.mode = .eval) (hi : (Program.parse src).issues = []) :
    s.add src n =
      ({ s with
          pending := putPending s.pending n (Program.parse src).program,
          reporter := s.reporter.removeLine s.path }, "", none) := by
  have hr : (s.reporter.registerLine s.path src (some n)).removeLine s.path =
      s.reporter.removeLine s.path :=
    Reporter.setLine_setLine _ _ _ _ _ _
  have hi' : (Program.ofTokens (Token.scan src)).issues.isEmpty = true := by
    simpa [Program.parse] using hi
  simp only [add, hm, hi', if_true, hr, Program.parse]

/-- In `eval` mode a chunk that does not parse fails with the parser's issues, and only
    the reporter changes: the chunk is its file's line. -/
theorem add_of_unparsed (hm : s.mode = .eval) (hi : (Program.parse src).issues ≠ []) :
    s.add src n =
      ({ s with reporter := s.reporter.registerLine s.path src (some n) }, "",
        some (.parse src (Program.parse src).issues)) := by
  have hi' : (Program.ofTokens (Token.scan src)).issues.isEmpty = false := by
    simpa [Program.parse, List.isEmpty_iff] using hi
  simp only [add, hm, hi', Bool.false_eq_true, if_false]
  rfl

/-- A run evaluates the pending programs, as `runPending_spec` says. -/
theorem run_spec (hk : s.pendingLines.Nodup) :
    (∃ σ out, Program.Runs s.store (s.pending.map Prod.snd) σ out ∧
      s.run =
        ({ s with
            store := σ, pending := [], results := s.results ++ out,
            reporter := if s.pending = [] then s.reporter else s.reporter.removeLine s.path },
          none)) ∨
    (∃ done n p later σ out f σ', s.pending = done ++ (n, p) :: later ∧
      Program.Runs s.store (done.map Prod.snd) σ out ∧ p.run σ = (.error f, σ') ∧
      s.run =
        ({ s with
            store := σ', pending := later, results := s.results ++ out,
            reporter := s.reporter.registerLine s.path p.render (some n) },
          some (.fault f))) :=
  runPending_spec s.pending s rfl hk

/-- A pop takes the oldest result, or fails when there is none. -/
theorem pop_spec (s : Session) :
    (∃ r rest, s.results = r :: rest ∧ s.pop = .ok (r, { s with results := rest })) ∨
      (s.results = [] ∧ s.pop = .error .noResult) := by
  unfold pop
  cases h : s.results with
  | nil => exact .inr ⟨rfl, rfl⟩
  | cons r rest => exact .inl ⟨r, rest, rfl, rfl⟩

end Calls

/-! ## Sequences of calls -/

/-- A call on a session. -/
inductive Call where
  | add (source : String) (n : Int)
  | run
  | pop

/-- The session after a call, whether the call completes or fails; a failed pop leaves
    the session as it was. -/
def perform (s : Session) : Call → Session
  | .add source n => (s.add source n).1
  | .run => s.run.1
  | .pop =>
    match s.pop with
    | .ok (_, s') => s'
    | .error _ => s

/-- The session after calls made one after another. -/
def performAll (s : Session) (cs : List Call) : Session := cs.foldl perform s

/-- A session that evaluates its chunks and whose pending line numbers are distinct. -/
structure Evaluating (s : Session) : Prop where
  mode_eq : s.mode = .eval
  lines_nodup : s.pendingLines.Nodup

theorem new_evaluating (path : String) (r : Reporter) : (Session.new path .eval r).Evaluating :=
  ⟨rfl, List.nodup_nil⟩

section Evaluating

variable {s : Session}

theorem Evaluating.add (h : s.Evaluating) (src : String) (n : Int) :
    (s.add src n).1.Evaluating := by
  by_cases hi : (Program.parse src).issues = []
  · rw [add_of_parsed h.mode_eq hi]
    exact ⟨h.mode_eq, nodup_putPending h.lines_nodup⟩
  · rw [add_of_unparsed h.mode_eq hi]
    exact ⟨h.mode_eq, h.lines_nodup⟩

theorem Evaluating.run (h : s.Evaluating) : s.run.1.Evaluating := by
  rcases run_spec h.lines_nodup with ⟨σ, out, -, heq⟩ |
    ⟨done, n, p, later, σ, out, f, σ', hsplit, -, -, heq⟩
  · rw [heq]
    exact ⟨h.mode_eq, List.nodup_nil⟩
  · rw [heq]
    -- the programs left pending are a suffix of those that were
    have hk : (s.pending.map Prod.fst).Nodup := h.lines_nodup
    rw [hsplit, List.map_append, List.map_cons] at hk
    exact ⟨h.mode_eq, (List.nodup_cons.1 (List.nodup_append.1 hk).2.1).2⟩

/-- Every call keeps a session evaluating, with distinct pending line numbers. -/
theorem Evaluating.perform (h : s.Evaluating) : ∀ c, (s.perform c).Evaluating
  | .add src n => h.add src n
  | .run => h.run
  | .pop => by
    rcases pop_spec s with ⟨r, rest, -, hp⟩ | ⟨-, hp⟩
    · simp only [Session.perform, hp]
      exact ⟨h.mode_eq, h.lines_nodup⟩
    · simp only [Session.perform, hp]
      exact h

theorem Evaluating.performAll (h : s.Evaluating) (cs : List Call) :
    (s.performAll cs).Evaluating := by
  induction cs generalizing s with
  | nil => exact h
  | cons c cs ih => exact ih (h.perform c)

end Evaluating

/-- What each call does to a session. A chunk that parses joins the pending programs,
    in the place of the program under its line number if there is one and last
    otherwise, and completes with nothing printed; one that does not parse fails with the
    parser's issues and changes nothing but the reporter, whose line for the session's
    file is the chunk. A run evaluates the pending programs in order from the session's
    store and queues the texts of their values: either all finish, and nothing is left
    pending, or it stops at the first fault, the programs after it still pending and the
    store as the faulty program left it. A pop takes the oldest result, or fails when
    there is none. After an add that completes, and after a run that completes having
    evaluated some program, the session's file has no line in the reporter. -/
structure Laws (s : Session) : Prop where
  lines_nodup : s.pendingLines.Nodup
  add_lines : ∀ src n, (Program.parse src).issues = [] →
    (s.add src n).1.pendingLines =
      if n ∈ s.pendingLines then s.pendingLines else s.pendingLines ++ [n]
  add_lookup : ∀ src n m, (Program.parse src).issues = [] →
    (s.add src n).1.pending.lookup m =
      if m = n then some (Program.parse src).program else s.pending.lookup m
  add_completes : ∀ src n, (Program.parse src).issues = [] →
    (s.add src n).2 = ("", none) ∧ (s.add src n).1.results = s.results ∧
      (s.add src n).1.store = s.store ∧
      ∀ g, (s.add src n).1.reporter.lineOf g =
        if g = s.path then some ⟨s.path, "", none⟩ else s.reporter.lineOf g
  add_fails : ∀ src n, (Program.parse src).issues ≠ [] →
    (s.add src n).2 = ("", some (.parse src (Program.parse src).issues)) ∧
      (s.add src n).1.pending = s.pending ∧ (s.add src n).1.results = s.results ∧
      (s.add src n).1.store = s.store ∧
      ∀ g, (s.add src n).1.reporter.lineOf g =
        if g = s.path then some ⟨s.path, src, some n⟩ else s.reporter.lineOf g
  run_order :
    (∃ σ out, Program.Runs s.store (s.pending.map Prod.snd) σ out ∧
      s.run =
        ({ s with
            store := σ, pending := [], results := s.results ++ out,
            reporter := if s.pending = [] then s.reporter else s.reporter.removeLine s.path },
          none)) ∨
    (∃ done n p later σ out f σ', s.pending = done ++ (n, p) :: later ∧
      Program.Runs s.store (done.map Prod.snd) σ out ∧ p.run σ = (.error f, σ') ∧
      s.run =
        ({ s with
            store := σ', pending := later, results := s.results ++ out,
            reporter := s.reporter.registerLine s.path p.render (some n) },
          some (.fault f)))
  run_completes : s.pending ≠ [] → s.run.2 = none →
    ∀ g, s.run.1.reporter.lineOf g =
      if g = s.path then some ⟨s.path, "", none⟩ else s.reporter.lineOf g
  pop_oldest :
    (∃ r rest, s.results = r :: rest ∧ s.pop = .ok (r, { s with results := rest })) ∨
      (s.results = [] ∧ s.pop = .error .noResult)

/-- An evaluating session with distinct pending line numbers obeys the laws. -/
theorem laws_of_evaluating {s : Session} (h : s.Evaluating) : s.Laws where
  lines_nodup := h.lines_nodup
  add_lines src n hi := by
    rw [add_of_parsed h.mode_eq hi]
    exact keys_putPending
  add_lookup src n m hi := by
    rw [add_of_parsed h.mode_eq hi]
    exact lookup_putPending
  add_completes src n hi := by
    rw [add_of_parsed h.mode_eq hi]
    exact ⟨rfl, rfl, rfl, fun g => Reporter.lineOf_setLine _ _ _ _ _⟩
  add_fails src n hi := by
    rw [add_of_unparsed h.mode_eq hi]
    exact ⟨rfl, rfl, rfl, rfl, fun g => Reporter.lineOf_setLine _ _ _ _ _⟩
  run_order := run_spec h.lines_nodup
  run_completes hne hdone g := by
    rcases run_spec h.lines_nodup with ⟨σ, out, -, heq⟩ |
      ⟨done, m, p, later, σ, out, f, σ', -, -, -, heq⟩
    · rw [heq]
      simp only [hne, if_false]
      exact Reporter.lineOf_setLine _ _ _ _ _
    · rw [heq] at hdone
      exact absurd hdone (by simp)
  pop_oldest := pop_spec s

/-- Every session reached from a new evaluating session by any sequence of adds, runs
    and pops obeys the laws. -/
theorem performAll_laws (path : String) (r : Reporter) (cs : List Call) :
    ((Session.new path .eval r).performAll cs).Laws :=
  laws_of_evaluating ((new_evaluating path r).performAll cs)

-- a program added again under line 3 keeps the first place
example : ((Session.new "f" .eval (Reporter.empty false)).performAll
    [.add "1" 3, .add "2" 1, .add "5" 3]).pendingLines = [3, 1] := by cbv

-- the run stops at the unbound `y`: the program after it stays pending
example : ((Session.new "f" .eval (Reporter.empty false)).performAll
    [.add "let x = 2;" 1, .add "x * 3" 2, .add "y" 3, .add "x + 1" 4, .run]).pendingLines =
      [4] := by cbv

end Session

end Sugiru
