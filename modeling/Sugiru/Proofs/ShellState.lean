import Sugiru.Proofs.FrontEnds
import Sugiru.Proofs.ScopeWrites

/-!
# The shell between two lines

The shell on the command line keeps one session for every line it reads, and its reporter
goes on after an error. Whatever a line is (a command, a line that leaves its chunk open,
a blank chunk, a chunk that does not parse, one whose program stops with a fault, or one
that runs), once the shell has taken it:

* nothing is pending and no result is queued: a chunk is added and run at once, and what
  it queued is printed;
* no file of the reporter is on a line: a failure is reported, which forgets every line,
  and a chunk that succeeds is done with its line;
* the prompt is `.. ` exactly when the chunk read so far opens more brackets than it
  closes;
* the store is the one before, or the one the chunk's program left, also when it stopped
  with a fault, so the names it bound before the fault stay bound; and every name the
  global scope binds stays bound for good, since programs write only to that scope.

Main results:

* `Session.Between`, `Session.Between.runChunk`: a session at rest between two lines, and
  adding and running a chunk keeps it so.
* `Shell.Ready`, `Shell.Ready.feed`: the shell's invariant and its step over one line, with
  what the line does to the open chunk and to the store (`Shell.LineEffect`).
* `Shell.Ready.feedLines`: the invariant along any sequence of lines, with the global
  scope's names kept.
* `Shell.feed_keeps_session_clean`: all of the above for the shell on the command line.
-/

namespace Sugiru

/-! ## Reporters with no line -/

namespace Reporter

/-- No file of the reporter is on a line, nor has a line number. -/
def Cleared (r : Reporter) : Prop := ∀ fr ∈ r.frames, fr.line = "" ∧ fr.num = none

theorem fatal_setLine (r : Reporter) (file line : String) (num : Option Int) :
    (r.setLine file line num).fatal = r.fatal := by
  unfold setLine
  split <;> rfl

/-- Being done with a line keeps every file off its line. -/
theorem Cleared.setLine_blank {r : Reporter} (h : r.Cleared) (file : String) :
    (r.setLine file "" none).Cleared := by
  intro fr hfr
  unfold setLine at hfr
  split at hfr
  · obtain ⟨g, hg, rfl⟩ := List.mem_map.1 hfr
    split
    · exact ⟨rfl, rfl⟩
    · exact h g hg
  · rcases List.mem_append.1 hfr with hg | hg
    · exact h fr hg
    · rw [List.mem_singleton.1 hg]
      exact ⟨rfl, rfl⟩

theorem cleared_clear (r : Reporter) : r.clear.Cleared := by
  intro fr hfr
  obtain ⟨g, -, rfl⟩ := List.mem_map.1 hfr
  exact ⟨rfl, rfl⟩

/-- A reporter that goes on after an error forgets every line when it reports, whatever
    was raised. -/
theorem handle_of_lenient {r : Reporter} (h : r.fatal = false) (x : Raised) :
    (r.handle x).2.1 = r.clear := by
  unfold handle
  rw [if_neg (by simp [h])]
  split <;> rfl

end Reporter

/-! ## Sessions between two lines -/

namespace Session

/-- A session of the shell between two lines: nothing pending, no result queued, no file of
    its reporter on a line, a reporter that goes on after an error, and a global scope. -/
structure Between (s : Session) : Prop where
  idle : s.Idle
  cleared : s.reporter.Cleared
  lenient : s.reporter.fatal = false
  global_lt : Store.global < s.store.scopes.size

theorem new_between (path : String) (m : Mode) :
    (Session.new path m (Reporter.empty false)).Between where
  idle := new_idle _ _ _
  cleared := Reporter.Cleared.setLine_blank (fun _ h => absurd h List.not_mem_nil) path
  lenient := Reporter.fatal_setLine _ _ _ _
  global_lt := show Store.global < Store.empty.scopes.size by decide

variable {s : Session}

/-- The reporter of a session between two lines stays lenient whatever line it is on. -/
theorem Between.lenient_setLine (h : s.Between) (file line : String) (num : Option Int) :
    (s.reporter.setLine file line num).fatal = false :=
  (Reporter.fatal_setLine _ _ _ _).trans h.lenient

theorem report_snd (s : Session) (f : Failure) :
    (s.report f).2.1 = { s with reporter := (s.reporter.handle f.toRaised).2.1 } := rfl

/-- A failure reported by a session with nothing pending and nothing queued leaves it
    between two lines, with its store. -/
theorem between_report (hp : s.pending = []) (hr : s.results = [])
    (hf : s.reporter.fatal = false) (hg : Store.global < s.store.scopes.size) (f : Failure) :
    (s.report f).2.1.Between := by
  rw [report_snd, Reporter.handle_of_lenient hf]
  exact ⟨⟨hp, hr⟩, Reporter.cleared_clear _, hf, hg⟩

/-- Printing the queued results of a session with nothing pending and no file on a line
    leaves it between two lines. -/
theorem between_flush (hp : s.pending = []) (hc : s.reporter.Cleared)
    (hf : s.reporter.fatal = false) (hg : Store.global < s.store.scopes.size) :
    (Shell.flush s).2.Between :=
  ⟨⟨hp, rfl⟩, hc, hf, hg⟩

end Session

namespace Shell

/-- The session after a chunk is added and run: reported when adding or running it
    failed, its results printed otherwise. -/
theorem runChunk_snd (s : Session) (text : String) (n : Nat) :
    (runChunk s text n).2 =
      match s.add text n with
      | (s₁, _, some f) => (s₁.report f).2.1
      | (s₁, _, none) =>
        match s₁.run with
        | (s₂, some f) => (s₂.report f).2.1
        | (s₂, none) => (flush s₂).2 := by
  unfold runChunk
  rcases s.add text n with ⟨s₁, w, _ | f⟩
  · dsimp only
    rcases s₁.run with ⟨s₂, _ | g⟩ <;> rfl
  · rfl

end Shell

namespace Session

open Shell

variable {s : Session}

/-- A chunk that fails when it is added is reported, and the session is back between two
    lines with its store. -/
theorem Between.runChunk_of_failed {s₁ : Session} {w text : String} {f : Failure} {n : Nat}
    (h : s.Between) (hadd : s.add text n = (s₁, w, some f)) (hp : s₁.pending = [])
    (hr : s₁.results = []) (hf : s₁.reporter.fatal = false) (hσ : s₁.store = s.store) :
    (Shell.runChunk s text n).2.Between ∧ (Shell.runChunk s text n).2.store = s.store := by
  rw [runChunk_snd, hadd]
  exact ⟨between_report hp hr hf (hσ ▸ h.global_lt) f, hσ⟩

/-- A chunk that is added without failing and leaves nothing pending (its tokens or its tree
    queued) has what it queued printed, and the session is back between two lines with its
    store. -/
theorem Between.runChunk_of_queued {s₁ : Session} {w text : String} {n : Nat}
    (h : s.Between) (hadd : s.add text n = (s₁, w, none)) (hp : s₁.pending = [])
    (hc : s₁.reporter.Cleared) (hf : s₁.reporter.fatal = false) (hσ : s₁.store = s.store) :
    (Shell.runChunk s text n).2.Between ∧ (Shell.runChunk s text n).2.store = s.store := by
  rw [runChunk_snd, hadd]
  dsimp only
  rw [run_of_pending_nil hp]
  exact ⟨between_flush hp hc hf (hσ ▸ h.global_lt), hσ⟩

/-- A chunk that parses in `eval` mode is run at once: its values printed, or its fault
    reported, and the session is back between two lines with the store its program left,
    fault or not. -/
theorem Between.runChunk_of_parsed {text : String} {n : Nat} (h : s.Between)
    (hm : s.mode = .eval) (hi : (Program.parse text).issues = []) :
    (Shell.runChunk s text n).2.Between ∧
      (Shell.runChunk s text n).2.store = ((Program.parse text).program.run s.store).2 := by
  -- the session once the chunk is added, its program the only one pending
  obtain ⟨s₁, hadd, hs₁⟩ : ∃ s₁, s.add text n = (s₁, "", none) ∧
      s₁ = { s with pending := putPending s.pending n (Program.parse text).program,
                    reporter := s.reporter.removeLine s.path } :=
    ⟨_, add_of_parsed hm hi, rfl⟩
  have hp : s₁.pending = [((n : Int), (Program.parse text).program)] := by
    rw [hs₁, h.idle.pending_eq]
    rfl
  have hσ : s₁.store = s.store := by rw [hs₁]
  have hf : s₁.reporter.fatal = false := by
    rw [hs₁]
    exact h.lenient_setLine _ _ _
  -- the program's store keeps the global scope, fault or not
  have hg := Nat.lt_of_lt_of_le h.global_lt
    (Program.run_touches (Program.parse text).program h.global_lt).size_le
  rw [runChunk_snd, hadd]
  dsimp only
  rw [run_of_pending_single hp, hσ]
  rcases hrun : (Program.parse text).program.run s.store with ⟨_ | v, σ⟩ <;> rw [hrun] at hg
  · -- the program stopped with a fault, which is reported
    refine ⟨between_report rfl ?_ ((Reporter.fatal_setLine _ _ _ _).trans hf) hg _, rfl⟩
    rw [hs₁]
    exact h.idle.results_eq
  · -- the program ran, and its values are printed
    refine ⟨between_flush rfl ?_ ((Reporter.fatal_setLine _ _ _ _).trans hf) hg, rfl⟩
    rw [hs₁]
    exact (h.cleared.setLine_blank _).setLine_blank _

/-- Adding and running a chunk, in any mode, keeps a session between two lines. A chunk
    that parses in `eval` mode leaves the store its program left, whether it stopped with a
    fault or not; every other chunk leaves the store as it was. -/
theorem Between.runChunk (h : s.Between) (text : String) (n : Nat) :
    (Shell.runChunk s text n).2.Between ∧
      (s.mode = .eval → (Program.parse text).issues = [] →
        (Shell.runChunk s text n).2.store = ((Program.parse text).program.run s.store).2) ∧
      (¬(s.mode = .eval ∧ (Program.parse text).issues = []) →
        (Shell.runChunk s text n).2.store = s.store) := by
  cases hm : s.mode with
  | tokens =>
    obtain ⟨hb, hσ⟩ := h.runChunk_of_queued (add_of_tokens hm) h.idle.pending_eq
      (h.cleared.setLine_blank _) (h.lenient_setLine _ _ _) rfl
    exact ⟨hb, fun hm' => absurd hm' (by decide), fun _ => hσ⟩
  | tree =>
    by_cases hi : (Program.parse text).issues = []
    · obtain ⟨hb, hσ⟩ := h.runChunk_of_queued (add_of_tree_parsed hm hi) h.idle.pending_eq
        (h.cleared.setLine_blank _) (h.lenient_setLine _ _ _) rfl
      exact ⟨hb, fun hm' => absurd hm' (by decide), fun _ => hσ⟩
    · obtain ⟨hb, hσ⟩ := h.runChunk_of_failed (add_of_tree_unparsed hm hi) h.idle.pending_eq
        h.idle.results_eq (h.lenient_setLine _ _ _) rfl
      exact ⟨hb, fun hm' => absurd hm' (by decide), fun _ => hσ⟩
  | eval =>
    by_cases hi : (Program.parse text).issues = []
    · obtain ⟨hb, hσ⟩ := h.runChunk_of_parsed hm hi
      exact ⟨hb, fun _ _ => hσ, fun hn => absurd ⟨rfl, hi⟩ hn⟩
    · obtain ⟨hb, hσ⟩ := h.runChunk_of_failed (add_of_unparsed hm hi) h.idle.pending_eq
        h.idle.results_eq (h.lenient_setLine _ _ _) rfl
      exact ⟨hb, fun _ hi' => absurd hi' hi, fun _ => hσ⟩

end Session

/-! ## The shell line by line -/

/-- Whether a chunk needs another line is whether the text joined so far is open. -/
theorem Chunk.join_snd (line prev : String) :
    (Chunk.join line prev).2 = Chunk.isOpen (Chunk.join line prev).1 := rfl

namespace Shell

/-- The shell after the lines are fed one after another, whatever each of them does. -/
def feedLines (sh : Shell) (L : List String) : Shell :=
  L.foldl (fun sh line => (sh.feed line).1) sh

/-- The shell between two lines: its session at rest, and the chunk it holds either empty
    or open. -/
structure Ready (sh : Shell) : Prop where
  session : sh.session.Between
  open_chunk : sh.openChunk = "" ∨ Chunk.isOpen sh.openChunk = true

theorem new_ready (path : String) (m : Mode) :
    (Shell.new (Session.new path m (Reporter.empty false))).Ready :=
  ⟨Session.new_between path m, .inl rfl⟩

variable {sh : Shell}

/-- The prompt of a ready shell is `.. ` exactly when the chunk read so far is open. -/
theorem Ready.prompt_eq_iff (h : sh.Ready) :
    sh.prompt = ".. " ↔ Chunk.isOpen sh.openChunk = true := by
  unfold prompt
  rcases h.open_chunk with he | ho
  · rw [he]
    decide
  · have hne : sh.openChunk ≠ "" := fun he => absurd (he ▸ ho) (by decide)
    simp [String.isEmpty_iff, hne, ho]

/-- The line is one of the shell's commands: `EOF`, or `help` or `exit` with no chunk open. -/
def IsCommand (sh : Shell) (line : String) : Prop :=
  line = "EOF" ∨ sh.openChunk.isEmpty = true ∧ (Text.trim line = "help" ∨ Text.trim line = "exit")

/-- The line, joined to the chunk held open, finishes a chunk with something in it. -/
def Finishes (sh : Shell) (line : String) : Prop :=
  (Chunk.join line sh.openChunk).2 = false ∧
    Text.isBlankText (Chunk.join line sh.openChunk).1 = false

/-- The line is source that finishes a chunk which parses in `eval` mode, so that the
    chunk's program runs. -/
def RunsProgram (sh : Shell) (line : String) : Prop :=
  ¬ sh.IsCommand line ∧ sh.Finishes line ∧ sh.session.mode = .eval ∧
    (Program.parse (Chunk.join line sh.openChunk).1).issues = []

/-- What a line does to the chunk held open and to the store: a command changes neither; a
    line of source moves the open chunk on; a line whose chunk's program runs leaves the
    store that program left, whether it stopped with a fault or not; every other line
    leaves the store as it was. -/
structure LineEffect (sh sh' : Shell) (line : String) : Prop where
  command : sh.IsCommand line → sh'.openChunk = sh.openChunk
  source : ¬ sh.IsCommand line → sh'.openChunk = Chunk.carry sh.openChunk line
  run : sh.RunsProgram line → sh'.session.store =
    ((Program.parse (Chunk.join line sh.openChunk).1).program.run sh.session.store).2
  no_run : ¬ sh.RunsProgram line → sh'.session.store = sh.session.store

/-- A line of source keeps the shell ready and moves the open chunk on; the store changes
    only when the chunk it finishes parses in `eval` mode, to the store its program left. -/
theorem Ready.source (h : sh.Ready) (line : String) :
    (sh.source line).1.Ready ∧ (sh.source line).1.openChunk = Chunk.carry sh.openChunk line ∧
      (sh.Finishes line → sh.session.mode = .eval →
        (Program.parse (Chunk.join line sh.openChunk).1).issues = [] →
        (sh.source line).1.session.store =
          ((Program.parse (Chunk.join line sh.openChunk).1).program.run sh.session.store).2) ∧
      (¬(sh.Finishes line ∧ sh.session.mode = .eval ∧
          (Program.parse (Chunk.join line sh.openChunk).1).issues = []) →
        (sh.source line).1.session.store = sh.session.store) := by
  unfold Shell.source Finishes Chunk.carry
  rcases hj : Chunk.join line sh.openChunk with ⟨text, more⟩
  have hmore : more = Chunk.isOpen text := by
    have h₂ := Chunk.join_snd line sh.openChunk
    rw [hj] at h₂
    exact h₂
  cases more with
  | true =>
    -- the chunk stays open
    exact ⟨⟨h.session, .inr hmore.symm⟩, rfl, fun hf => absurd hf.1 Bool.false_ne_true.symm,
      fun _ => rfl⟩
  | false =>
    by_cases hb : Text.isBlankText text = true
    · -- a blank chunk is dropped
      dsimp only
      rw [if_neg Bool.false_ne_true, if_pos hb]
      exact ⟨⟨h.session, .inl rfl⟩, rfl, fun hf => absurd hb (by rw [hf.2]; decide),
        fun _ => rfl⟩
    · -- a finished chunk is added and run
      obtain ⟨hs, hrun, hkeep⟩ := h.session.runChunk text (sh.lineNo + 1)
      have hb' : Text.isBlankText text = false := by simpa using hb
      dsimp only
      rw [if_neg Bool.false_ne_true, if_neg hb]
      exact ⟨⟨hs, .inl rfl⟩, rfl, fun _ hm hi => hrun hm hi,
        fun hn => hkeep fun hmi => hn ⟨⟨rfl, hb'⟩, hmi⟩⟩

/-- A command leaves the shell as it was. -/
theorem feed_of_command {line : String} (hcmd : sh.IsCommand line) : (sh.feed line).1 = sh := by
  unfold feed
  by_cases he : line = "EOF"
  · rw [if_pos he]
  · rw [if_neg he]
    obtain ⟨hb, hw | hw⟩ := hcmd.resolve_left he
    · simp [hb, hw]
    · simp [hb, hw]

/-- One line, whatever it is, keeps the shell ready, with the effect `LineEffect` says. -/
theorem Ready.feed (h : sh.Ready) (line : String) :
    (sh.feed line).1.Ready ∧ LineEffect sh (sh.feed line).1 line := by
  by_cases hcmd : sh.IsCommand line
  · rw [feed_of_command hcmd]
    exact ⟨h, fun _ => rfl, fun hn => absurd hcmd hn, fun hr => absurd hcmd hr.1, fun _ => rfl⟩
  · have he : line ≠ "EOF" := fun he => hcmd (.inl he)
    have hc : sh.openChunk.isEmpty = true → Text.trim line ≠ "help" ∧ Text.trim line ≠ "exit" :=
      fun hb => ⟨fun hw => hcmd (.inr ⟨hb, .inl hw⟩), fun hw => hcmd (.inr ⟨hb, .inr hw⟩)⟩
    obtain ⟨hr, hopen, hrun, hkeep⟩ := h.source line
    rw [feed_of_source he hc]
    exact ⟨hr, fun hc' => absurd hc' hcmd, fun _ => hopen,
      fun hr => hrun hr.2.1 hr.2.2.1 hr.2.2.2, fun hn => hkeep fun hfmi => hn ⟨hcmd, hfmi⟩⟩

/-- A line writes only to the global scope. -/
theorem LineEffect.touches {sh' : Shell} {line : String} (h : sh.Ready)
    (he : LineEffect sh sh' line) :
    ∃ N, Store.Touches Store.global N sh.session.store sh'.session.store := by
  by_cases hr : sh.RunsProgram line
  · exact ⟨_, he.run hr ▸ Program.run_touches _ h.session.global_lt⟩
  · exact ⟨[], he.no_run hr ▸ Store.Touches.refl _⟩

theorem feedLines_cons (sh : Shell) (line : String) (rest : List String) :
    sh.feedLines (line :: rest) = (sh.feed line).1.feedLines rest := rfl

/-- Along any lines the shell stays ready, and its global scope keeps every name it binds. -/
theorem Ready.feedLines (h : sh.Ready) (L : List String) :
    (sh.feedLines L).Ready ∧
      ∃ N, Store.Touches Store.global N sh.session.store (sh.feedLines L).session.store := by
  -- induction on the lines, from the shell each one is fed to
  induction L generalizing sh with
  | nil => exact ⟨h, [], Store.Touches.refl _⟩
  | cons line rest ih =>
    obtain ⟨h₁, he₁⟩ := h.feed line
    obtain ⟨N₁, ht₁⟩ := he₁.touches h
    obtain ⟨h₂, N₂, ht₂⟩ := ih h₁
    rw [feedLines_cons]
    exact ⟨h₂, N₁ ++ N₂,
      (ht₁.mono (List.subset_append_left _ _)).trans (ht₂.mono (List.subset_append_right _ _))⟩

end Shell

/-- The shell on the command line, in any mode, after any lines: nothing is pending and no
    result is queued, no file of its reporter is on a line, the prompt is `.. ` exactly when
    the chunk read so far is open, the next line has the effect `LineEffect` says on the
    open chunk and on the store (the store its chunk's program left, fault or not), and
    every name the global scope binds stays bound whatever lines follow. -/
theorem Shell.feed_keeps_session_clean (m : Mode) (L : List String) :
    let sh := (Shell.new (Session.new Session.shellPath m (Reporter.empty false))).feedLines L
    sh.session.pending = [] ∧ sh.session.results = [] ∧
      (∀ fr ∈ sh.session.reporter.frames, fr.line = "" ∧ fr.num = none) ∧
      (sh.prompt = ".. " ↔ Chunk.isOpen sh.openChunk = true) ∧
      (∀ line, Shell.LineEffect sh (sh.feed line).1 line) ∧
      ∀ (L' : List String) (name : String),
        (sh.session.store.boundHere Store.global name).isSome →
          ((sh.feedLines L').session.store.boundHere Store.global name).isSome := by
  intro sh
  have h : sh.Ready := ((Shell.new_ready _ m).feedLines L).1
  refine ⟨h.session.idle.pending_eq, h.session.idle.results_eq, h.session.cleared,
    h.prompt_eq_iff, fun line => (h.feed line).2, fun L' name hn => ?_⟩
  obtain ⟨-, N, ht⟩ := h.feedLines L'
  exact ht.keeps name hn

end Sugiru
