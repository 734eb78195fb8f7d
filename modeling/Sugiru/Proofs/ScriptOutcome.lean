import Sugiru.Proofs.FrontEnds
import Sugiru.Proofs.WellFormed

/-!
# What a script prints, and how it exits

`Script.run` in `eval` mode adds every chunk of the file to a session before it runs any
of them. So a chunk that does not parse stops the file before anything is evaluated:
only its report is printed, headed by its first line's number and its text, even when
the chunks before it parse. When every chunk parses, the programs run in order; the texts
of the values of those that finish are printed one a line, up to the first program that
stops with a fault, whose report follows, headed by its first line's number and the
program's canonical text. Nothing after that program runs. The exit status is 1 exactly
when a report was printed.

Main results:

* `Reporter.errorText_single`: a reporter that knows one file, working on one line,
  heads its reports with that line (`Diagnostic.reportAt`).
* `Script.addAll_eval_append`: adding chunks that parse changes neither the mode nor the
  reporter's lines, so what follows is added as if they were not there.
* `Program.Runs.eq_of_fault`: programs that run one after another have at most one first
  fault.
* `Script.run_eval_outcome`: every file falls in one of three cases, and in each the
  output and the exit status of the script are as said above.
-/

namespace Sugiru

/-! ## Reports headed by one line -/

/-- The report of an error met on one line of one file: the file and the line's number,
    the line itself indented by four spaces, then the error's message and its detail. -/
def Diagnostic.reportAt (d : Diagnostic) (file : String) (n : Int) (line : String) : String :=
  "  File '" ++ file ++ "', line " ++ toString n ++ ":\n    " ++ line ++ "\n" ++
    "error: " ++ d.message ++ "\n" ++ d.detail

namespace Reporter

/-- A reporter that knows one file goes on knowing that file alone. -/
theorem setLine_single (fatal : Bool) (file line line' : String) (num num' : Option Int) :
    (⟨fatal, [⟨file, line, num⟩]⟩ : Reporter).setLine file line' num' =
      ⟨fatal, [⟨file, line', num'⟩]⟩ := by
  simp [setLine]

/-- What a reporter reports is its error text, whatever happens next. -/
theorem handle_fst (r : Reporter) (x : Raised) : (r.handle x).1 = r.errorText x.toDiagnostic := by
  unfold handle
  split
  · rfl
  · split <;> rfl

/-- Of a reporter that knows one file, working on a line, that file is active. -/
theorem active_single {fatal : Bool} {file line : String} {n : Option Int} (hl : line ≠ "") :
    (⟨fatal, [⟨file, line, n⟩]⟩ : Reporter).active = [⟨file, line, n⟩] := by
  have he : line.isEmpty = false := by simpa [String.isEmpty_iff] using hl
  simp only [active, List.filter_cons, he, Bool.not_false, if_true, List.filter_nil]

/-- A reporter that knows one file, working on a line, heads an error with that line. -/
theorem errorText_single {fatal : Bool} {file line : String} {n : Int} {d : Diagnostic}
    (hl : line ≠ "") (hi : d.internal = false) :
    (⟨fatal, [⟨file, line, some n⟩]⟩ : Reporter).errorText d = d.reportAt file n line := by
  unfold errorText
  rw [active_single hl]
  simp only [List.map_cons, List.map_nil, String.join_cons, String.join_nil, String.append_empty,
    List.length_singleton, hi, Bool.false_eq_true, if_false, gt_iff_lt, Frame.numText]
  -- one file: no `Traceback:` line
  rw [if_neg (Nat.lt_irrefl 1)]
  rfl

end Reporter

/-- Parse errors and faults are reported as errors of the program, never of the
    interpreter. -/
theorem Failure.internal_eq_false {f : Failure} (h : f ≠ .noResult) :
    f.toRaised.toDiagnostic.internal = false := by
  rcases f with _ | f | _
  · rfl
  · cases f <;> rfl
  · exact absurd rfl h

/-! ## Chunks and programs that have a text -/

namespace Chunk

/-- No chunk of numbered lines is blank. -/
theorem gatherFrom_not_blank (prev : String) (start : Nat) (nls : List (Nat × String)) :
    ∀ q ∈ gatherFrom prev start nls, Text.isBlankText q.1 = false := by
  induction nls generalizing prev start with
  | nil =>
    intro q hq
    by_cases hb : Text.isBlankText prev
    · simp [gatherFrom, hb] at hq
    · simp only [gatherFrom, hb, Bool.false_eq_true, if_false, List.mem_singleton] at hq
      subst hq
      simpa using hb
  | cons nl rest ih =>
    obtain ⟨n, line⟩ := nl
    intro q hq
    rcases hj : join line prev with ⟨text, more⟩
    cases more with
    | true =>
      simp only [gatherFrom, hj, if_true] at hq
      exact ih _ _ q hq
    | false =>
      by_cases hb : Text.isBlankText text
      · simp only [gatherFrom, hj, hb, Bool.false_eq_true, if_false, if_true] at hq
        exact ih _ _ q hq
      · simp only [gatherFrom, hj, hb, Bool.false_eq_true, if_false, List.mem_cons] at hq
        rcases hq with rfl | hq
        · simpa using hb
        · exact ih _ _ q hq

/-- Every chunk of a file has a text. -/
theorem ofText_ne_empty {text : String} {q : String × Nat} (hq : q ∈ ofText text) : q.1 ≠ "" := by
  intro h
  have hb := gatherFrom_not_blank _ _ _ q hq
  rw [h] at hb
  exact Bool.false_ne_true (hb.symm.trans (isBlankText_of_isEmpty rfl))

end Chunk

/-- A well-formed expression has a text: it is no hole and its names and numerals are not
    empty. -/
theorem Expr.render_ne_empty {e : Expr} (h : e.wellFormed = true) : e.render ≠ "" := by
  cases e with
  | hole => simp [Expr.wellFormed] at h
  | ident name =>
    have hn := (Token.isName_iff.1 h).1
    simpa [Expr.render] using fun h' : name = "" => hn (by simp [h'])
  | int text n =>
    simp only [Expr.wellFormed, Bool.and_eq_true] at h
    have hn := (Token.isNumeral_iff.1 h.1.1).1
    simpa [Expr.render] using fun h' : text = "" => hn (by simp [h'])
  | bool b => cases b <;> simp [Expr.render]
  | unary op e => simp [Expr.render, String.append_eq_empty_iff]
  | binary op l r => simp [Expr.render, String.append_eq_empty_iff]
  | cond c t alt => simp [Expr.render, String.append_eq_empty_iff]
  | fn ps body => simp [Expr.render, String.append_eq_empty_iff]
  | call f args => simp [Expr.render, String.append_eq_empty_iff]

theorem Stmt.render_ne_empty {s : Stmt} (h : s.wellFormed = true) : s.render ≠ "" := by
  cases s with
  | bind name e => simp [Stmt.render, String.append_eq_empty_iff]
  | ret e => simp [Stmt.render, String.append_eq_empty_iff]
  | expr e => exact Expr.render_ne_empty h

/-- A program with no statement gives no value and touches nothing. -/
theorem Program.run_nil (σ : Store) : Program.run ⟨[]⟩ σ = (.ok none, σ) := by
  simp [Program.run, Stmt.evalProgram]
  rfl

/-- A well-formed program that stops with a fault has a text. -/
theorem Program.render_ne_empty_of_fault {p : Program} (hw : Stmt.allWellFormed p.stmts = true)
    {σ σ' : Store} {f : Fault} (hf : p.run σ = (.error f, σ')) : p.render ≠ "" := by
  obtain ⟨stmts⟩ := p
  cases stmts with
  | nil => rw [Program.run_nil] at hf; simp at hf
  | cons s ss =>
    simp only [Stmt.allWellFormed, Bool.and_eq_true] at hw
    simp [Program.render, Stmt.renderAll, String.append_eq_empty_iff, Stmt.render_ne_empty hw.1]

/-! ## The first fault -/

namespace Program.Runs

/-- A program that follows programs that all finish, among programs that all finish,
    finishes from the store they leave. -/
theorem run_ok_of_prefix {σ σ₁ σ₂ : Store} {A B : List Program} {p : Program}
    {o o₁ : List String} (h : Runs σ (A ++ p :: B) σ₂ o) (hA : Runs σ A σ₁ o₁) :
    ∃ v τ, p.run σ₁ = (.ok v, τ) := by
  obtain ⟨σ', o', o'', h₁, h₂, -⟩ := of_append h
  obtain ⟨rfl, -⟩ := det hA h₁
  cases h₂ with
  | cons hp _ => exact ⟨_, _, hp⟩

/-- Programs that run one after another have one first fault: two ways to split them at
    a program that faults after the programs before it finish are the same. -/
theorem eq_of_fault {σ σ₁ σ₁' τ τ' : Store} {A A' B B' : List Program} {p p' : Program}
    {o o' : List String} {f f' : Fault} (h : A ++ p :: B = A' ++ p' :: B')
    (hA : Runs σ A σ₁ o) (hp : p.run σ₁ = (.error f, τ))
    (hA' : Runs σ A' σ₁' o') (hp' : p'.run σ₁' = (.error f', τ')) :
    A = A' := by
  rcases List.append_eq_append_iff.1 h with ⟨a, rfl, ha⟩ | ⟨c, rfl, hc⟩
  · cases a with
    | nil => exact (List.append_nil A).symm
    | cons x a =>
      -- the faulty `p` would be among the programs before `p'`, which all finish
      obtain ⟨rfl, -⟩ := List.cons.inj ha
      obtain ⟨v, τ₁, hok⟩ := run_ok_of_prefix hA' hA
      rw [hp] at hok
      simp at hok
  · cases c with
    | nil => exact List.append_nil A'
    | cons x c =>
      obtain ⟨rfl, -⟩ := List.cons.inj hc
      obtain ⟨v, τ₁, hok⟩ := run_ok_of_prefix hA hA'
      rw [hp'] at hok
      simp at hok

/-- Programs run one after another from a store either all finish, or some of them finish
    and the next one stops with a fault. -/
theorem all_or_fault (σ : Store) (ps : List Program) :
    (∃ σ' o, Runs σ ps σ' o) ∨
      ∃ A p B σ₁ o f τ, ps = A ++ p :: B ∧ Runs σ A σ₁ o ∧ p.run σ₁ = (.error f, τ) := by
  -- induction on the programs, from the store the first one leaves
  induction ps generalizing σ with
  | nil => exact .inl ⟨σ, [], .nil σ⟩
  | cons p ps ih =>
    rcases hp : p.run σ with ⟨_ | v, σ₁⟩
    · exact .inr ⟨[], p, ps, σ, [], _, σ₁, rfl, .nil σ, hp⟩
    · rcases ih σ₁ with ⟨σ', o, h⟩ | ⟨A, q, B, σ₂, o, f, τ, rfl, h, hq⟩
      · exact .inl ⟨σ', _, .cons hp h⟩
      · exact .inr ⟨p :: A, q, B, σ₂, _, f, τ, rfl, .cons hp h, hq⟩

end Program.Runs

/-- Either every chunk parses, or one does not, after chunks that all do. -/
theorem Chunk.all_parsed_or_first_unparsed (cs : List (String × Nat)) :
    (∀ q ∈ cs, (Program.parse q.1).issues = []) ∨
      ∃ pre c n post, cs = pre ++ (c, n) :: post ∧ (∀ q ∈ pre, (Program.parse q.1).issues = []) ∧
        (Program.parse c).issues ≠ [] := by
  rcases h : cs.find? (fun q => !(Program.parse q.1).issues.isEmpty) with _ | ⟨c, n⟩
  · refine .inl fun q hq => ?_
    simpa using List.find?_eq_none.1 h q hq
  · obtain ⟨hc, pre, post, rfl, hpre⟩ := List.find?_eq_some_iff_append.1 h
    exact .inr ⟨pre, c, n, post, rfl, fun q hq => by simpa using hpre q hq, by simpa using hc⟩

/-! ## Adding and running the chunks of a file -/

namespace Session

/-- What a session reports is its reporter's error text. -/
theorem report_fst (s : Session) (f : Failure) :
    (s.report f).1 = s.reporter.errorText f.toRaised.toDiagnostic :=
  Reporter.handle_fst _ _

/-- A file's session starts with a reporter that knows the file alone, with no line. -/
theorem new_reporter (path : String) (m : Mode) :
    (Session.new path m ((Reporter.empty true).registerFile path)).reporter =
      ⟨true, [⟨path, "", none⟩]⟩ := by
  simp [Session.new, Reporter.registerFile, Reporter.setLine, Reporter.empty]

/-- A run whose pending programs reach a fault at `p`, after programs that all finish,
    stops there: their values are queued, `p` is dropped and its text is the reporter's
    line, and the programs after it stay pending. -/
theorem run_of_fault {s : Session} {pre post : List (Int × Program)} {n : Int} {p : Program}
    {σ σ' : Store} {outs : List String} {f : Fault} (hk : s.pendingLines.Nodup)
    (hs : s.pending = pre ++ (n, p) :: post)
    (hR : Program.Runs s.store (pre.map Prod.snd) σ outs) (hf : p.run σ = (.error f, σ')) :
    s.run =
      ({ s with
          store := σ', pending := post, results := s.results ++ outs,
          reporter := s.reporter.registerLine s.path p.render (some n) }, some (.fault f)) := by
  rcases run_spec hk with ⟨σ₂, out, hR', -⟩ |
    ⟨done, m, q, later, σ₁, out₁, f₁, τ₁, hsplit, hdone, hq, hrun⟩
  · -- the programs all finishing would run `p` without a fault
    rw [hs, List.map_append, List.map_cons] at hR'
    obtain ⟨v, τ, hok⟩ := Program.Runs.run_ok_of_prefix hR' hR
    rw [hf] at hok
    simp at hok
  · -- the run stops at the first fault, which is `p`'s
    have heq := hsplit.symm.trans hs
    have hA : done.map Prod.snd = pre.map Prod.snd :=
      Program.Runs.eq_of_fault (by simpa using congrArg (List.map Prod.snd) heq) hdone hq hR hf
    obtain ⟨-, hmq⟩ := List.append_inj heq (by simpa using congrArg List.length hA)
    simp only [List.cons.injEq, Prod.mk.injEq] at hmq
    obtain ⟨⟨rfl, rfl⟩, rfl⟩ := hmq
    rw [hA] at hdone
    obtain ⟨rfl, rfl⟩ := Program.Runs.det hdone hR
    rw [hf] at hq
    simp only [Prod.mk.injEq, Except.error.injEq] at hq
    obtain ⟨rfl, rfl⟩ := hq
    exact hrun

end Session

namespace Script

open Session

variable {s : Session} {fatal : Bool}

/-- Adding chunks that all parse, in `eval` mode, to a session whose reporter knows its
    own file alone with no line, leaves a session of the same kind: what is added after
    them is added as if they were not there. -/
theorem addAll_eval_append (hm : s.mode = .eval)
    (hr : s.reporter = ⟨fatal, [⟨s.path, "", none⟩]⟩) {pre : List (String × Nat)}
    (hpre : ∀ q ∈ pre, (Program.parse q.1).issues = []) (rest : List (String × Nat)) :
    ∃ s', s'.mode = .eval ∧ s'.path = s.path ∧ s'.reporter = s.reporter ∧
      addAll s (pre ++ rest) = addAll s' rest := by
  -- induction on the chunks that parse, with the session they are added to
  induction pre generalizing s with
  | nil => exact ⟨s, hm, rfl, rfl, rfl⟩
  | cons q pre ih =>
    obtain ⟨text, k⟩ := q
    have hadd := add_of_parsed (n := k) hm (hpre (text, k) List.mem_cons_self)
    have hr₁ : (s.add text k).1.reporter = s.reporter := by
      rw [hadd]
      simp only [hr, Reporter.removeLine]
      exact Reporter.setLine_single _ _ _ _ _ _
    obtain ⟨s', hm', hp', hr', heq⟩ := ih (s := (s.add text k).1) (by rw [hadd]; exact hm)
      (by rw [hr₁, hr, hadd]) (fun q hq => hpre q (List.mem_cons_of_mem _ hq))
    refine ⟨s', hm', by rw [hp', hadd], hr'.trans hr₁, ?_⟩
    rw [hadd] at heq
    rw [List.cons_append, addAll, hadd]
    simp [heq]

section File

variable (path text : String)

/-- The programs of chunks, each parsed on its own. -/
abbrev programs (cs : List (String × Nat)) : List Program :=
  cs.map fun q => (Program.parse q.1).program

/-- A chunk that does not parse, after chunks that all do, is all a file reports: the
    adding stops there, before anything runs. -/
theorem run_eval_of_unparsed {pre post : List (String × Nat)} {c : String} {n : Nat}
    (hcs : Chunk.ofText text = pre ++ (c, n) :: post)
    (hpre : ∀ q ∈ pre, (Program.parse q.1).issues = []) (hc : (Program.parse c).issues ≠ []) :
    run path .eval (some text) =
      ((Failure.parse c (Program.parse c).issues).toRaised.toDiagnostic.reportAt path n c, 1) := by
  obtain ⟨s', hm', hp', hr', heq⟩ :=
    addAll_eval_append (s := Session.new path .eval ((Reporter.empty true).registerFile path)) rfl
      (new_reporter path .eval) hpre ((c, n) :: post)
  have hne : c ≠ "" := Chunk.ofText_ne_empty (q := (c, n)) (by rw [hcs]; simp)
  have hrep : s'.reporter.registerLine s'.path c (some n) = ⟨true, [⟨path, c, some n⟩]⟩ := by
    rw [hr', hp', new_reporter]
    exact Reporter.setLine_single _ _ _ _ _ _
  have hadd : addAll (Session.new path .eval ((Reporter.empty true).registerFile path))
      (Chunk.ofText text) =
      ({ s' with reporter := s'.reporter.registerLine s'.path c (some n) }, "",
        some (.parse c (Program.parse c).issues)) := by
    rw [hcs, heq]
    simp only [addAll, add_of_unparsed hm' hc]
  simp only [run, hadd, String.empty_append]
  rw [report_fst]
  simp only [hrep]
  rw [Reporter.errorText_single hne (Failure.internal_eq_false (by simp))]

/-- Once every chunk of a file parses, adding them all prints nothing and fails nowhere;
    the session holds their programs under their numbers, with the empty store, no result
    and a reporter that knows the file alone, with no line. -/
theorem addAll_eval_file (hall : ∀ q ∈ Chunk.ofText text, (Program.parse q.1).issues = []) :
    ∃ s₁, addAll (Session.new path .eval ((Reporter.empty true).registerFile path))
        (Chunk.ofText text) = (s₁, "", none) ∧
      s₁.path = path ∧ s₁.store = Store.empty ∧ s₁.results = [] ∧
      s₁.pending = (Chunk.ofText text).map (fun q => ((q.2 : Int), (Program.parse q.1).program)) ∧
      s₁.reporter = ⟨true, [⟨path, "", none⟩]⟩ := by
  obtain ⟨s₁, -, hp₁, hr₁, heq⟩ :=
    addAll_eval_append (s := Session.new path .eval ((Reporter.empty true).registerFile path)) rfl
      (new_reporter path .eval) hall []
  have hadd : addAll (Session.new path .eval ((Reporter.empty true).registerFile path))
      (Chunk.ofText text) = (s₁, "", none) := by
    simpa [addAll] using heq
  obtain ⟨-, -, hpr⟩ := addAll_eval (Chunk.ofText text) _ rfl
    (keys_nodup (new_idle _ _ _) (Chunk.ofText_sorted text))
  rw [hadd] at hpr
  obtain ⟨hσ, hres, hpend⟩ := hpr rfl
  exact ⟨s₁, hadd, hp₁, hσ, hres, hpend, hr₁.trans (new_reporter path .eval)⟩

/-- When every chunk of a file parses and the programs of some of them finish, one after
    another from the empty store, until the next one stops with a fault, the file prints
    the values of the finished programs and the fault's report, headed by the faulty
    program's first line and its text. -/
theorem run_eval_of_fault (hall : ∀ q ∈ Chunk.ofText text, (Program.parse q.1).issues = [])
    {pre post : List (String × Nat)} {c : String} {n : Nat} {σ σ' : Store}
    {outs : List String} {f : Fault} (hcs : Chunk.ofText text = pre ++ (c, n) :: post)
    (hR : Program.Runs Store.empty (programs pre) σ outs)
    (hf : (Program.parse c).program.run σ = (.error f, σ')) :
    run path .eval (some text) =
      (String.join (outs.map (· ++ "\n")) ++
        (Failure.fault f).toRaised.toDiagnostic.reportAt path n (Program.parse c).program.render,
        1) := by
  obtain ⟨s₁, hadd, hp₁, hσ, hres, hpend, hr₁⟩ := addAll_eval_file path text hall
  -- the pending programs are the chunks' programs under their numbers, split at `c`
  have hsplit₁ : s₁.pending = pre.map (fun q => ((q.2 : Int), (Program.parse q.1).program)) ++
      ((n : Int), (Program.parse c).program) ::
        post.map (fun q => ((q.2 : Int), (Program.parse q.1).program)) := by
    rw [hpend, hcs, List.map_append, List.map_cons]
  have hlines : s₁.pendingLines.Nodup := by
    simpa [pendingLines, hpend, List.map_map, Function.comp_def] using
      nodup_of_sorted (Chunk.ofText_sorted text)
  -- the run stops at `c`'s program, after the programs of the chunks before it
  have hrun := run_of_fault hlines hsplit₁
    (by simpa [hσ, List.map_map, Function.comp_def] using hR) hf
  have hne : (Program.parse c).program.render ≠ "" :=
    Program.render_ne_empty_of_fault (Program.parse_wellFormed c
      (hall (c, n) (by rw [hcs]; simp))) hf
  have hrep : s₁.reporter.registerLine s₁.path (Program.parse c).program.render (some n) =
      ⟨true, [⟨path, (Program.parse c).program.render, some n⟩]⟩ := by
    rw [hr₁, hp₁]
    exact Reporter.setLine_single _ _ _ _ _ _
  simp only [run, hadd, hrun, String.empty_append, hres, List.nil_append]
  rw [report_fst]
  simp only [hrep]
  rw [Reporter.errorText_single hne (Failure.internal_eq_false (by simp))]

/-- When every chunk of a file parses and their programs all finish, one after another
    from the empty store, the file prints their values, one a line, and exits with 0. -/
theorem run_eval_of_runs (hall : ∀ q ∈ Chunk.ofText text, (Program.parse q.1).issues = [])
    {σ : Store} {outs : List String}
    (hR : Program.Runs Store.empty (programs (Chunk.ofText text)) σ outs) :
    run path .eval (some text) = (String.join (outs.map (· ++ "\n")), 0) := by
  have hs := new_idle path .eval ((Reporter.empty true).registerFile path)
  obtain ⟨hquiet, hres⟩ := run_eval hs rfl (Chunk.ofText_sorted text) hall
  obtain ⟨hw, hf, -⟩ := addAll_eval (Chunk.ofText text) _ rfl
    (keys_nodup hs (Chunk.ofText_sorted text))
  have hq : Quiet path .eval text := ⟨hw, hf.2 hall, hquiet.2 ⟨σ, outs, hR⟩⟩
  rw [run_of_quiet hq, hres σ outs hR]

end File

/-- What a script prints in `eval` mode, and its exit status, in the three cases that
    every file falls in. When a chunk does not parse, after chunks that all do, its report
    alone is printed, headed by its first line's number and its text, and the status is 1:
    nothing is evaluated. When every chunk parses, the values of the programs that finish
    before the first fault are printed one a line, then that fault's report, headed by the
    faulty chunk's first line's number and its program's text, and the status is 1; when
    none faults, their values alone, and the status is 0. -/
theorem run_eval_outcome (path text : String) :
    ((∃ (pre : List (String × Nat)) (c : String) (n : Nat) (post : List (String × Nat)),
        Chunk.ofText text = pre ++ (c, n) :: post ∧
        (∀ q ∈ pre, (Program.parse q.1).issues = []) ∧ (Program.parse c).issues ≠ []) ∨
      (∀ q ∈ Chunk.ofText text, (Program.parse q.1).issues = []) ∧
        ((∃ (pre : List (String × Nat)) (c : String) (n : Nat) (post : List (String × Nat))
            (σ : Store) (outs : List String) (f : Fault) (σ' : Store),
            Chunk.ofText text = pre ++ (c, n) :: post ∧
            Program.Runs Store.empty (programs pre) σ outs ∧
            (Program.parse c).program.run σ = (.error f, σ')) ∨
          ∃ σ outs, Program.Runs Store.empty (programs (Chunk.ofText text)) σ outs)) ∧
    (∀ (pre : List (String × Nat)) (c : String) (n : Nat) (post : List (String × Nat)),
      Chunk.ofText text = pre ++ (c, n) :: post →
      (∀ q ∈ pre, (Program.parse q.1).issues = []) → (Program.parse c).issues ≠ [] →
      run path .eval (some text) =
        ((Failure.parse c (Program.parse c).issues).toRaised.toDiagnostic.reportAt path n c, 1)) ∧
    ((∀ q ∈ Chunk.ofText text, (Program.parse q.1).issues = []) →
      (∀ (pre : List (String × Nat)) (c : String) (n : Nat) (post : List (String × Nat))
          (σ : Store) (outs : List String) (f : Fault) (σ' : Store),
        Chunk.ofText text = pre ++ (c, n) :: post →
        Program.Runs Store.empty (programs pre) σ outs →
        (Program.parse c).program.run σ = (.error f, σ') →
        run path .eval (some text) =
          (String.join (outs.map (· ++ "\n")) ++
            (Failure.fault f).toRaised.toDiagnostic.reportAt path n
              (Program.parse c).program.render, 1)) ∧
      ∀ σ outs, Program.Runs Store.empty (programs (Chunk.ofText text)) σ outs →
        run path .eval (some text) = (String.join (outs.map (· ++ "\n")), 0)) := by
  refine ⟨?cases, fun _ _ _ _ hcs hpre hc => run_eval_of_unparsed path text hcs hpre hc,
    fun hall => ⟨fun _ _ _ _ _ _ _ _ hcs hR hf => run_eval_of_fault path text hall hcs hR hf,
      fun _ _ hR => run_eval_of_runs path text hall hR⟩⟩
  case cases =>
    rcases Chunk.all_parsed_or_first_unparsed (Chunk.ofText text) with hall | hfirst
    · refine .inr ⟨hall, ?_⟩
      rcases Program.Runs.all_or_fault Store.empty (programs (Chunk.ofText text)) with
        hruns | ⟨A, p, B, σ₁, o, f, τ, hsplit, hA, hp⟩
      · exact .inr hruns
      · -- the faulty program is the program of a chunk, at the same place
        obtain ⟨pre, rest, hcs, hpre, hrest⟩ := List.map_eq_append_iff.1 hsplit
        obtain ⟨⟨c, n⟩, post, rfl, rfl, -⟩ := List.map_eq_cons_iff.1 hrest
        exact .inl ⟨pre, c, n, post, σ₁, o, f, τ, hcs, by rw [programs, hpre]; exact hA, hp⟩
    · exact .inl hfirst

end Script

end Sugiru
