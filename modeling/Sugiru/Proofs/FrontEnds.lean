import Sugiru.Proofs.SessionLaws
import Sugiru.Shell
import Sugiru.Script

/-!
# The script runner and the shell agree

A text can reach a session in two ways. `Script.run` cuts a file's text into chunks, adds
them all and only then runs them, printing the results at the end. The shell reads the
same lines one at a time, and adds and runs each chunk as soon as it is finished,
printing its results at once. The two number chunks differently (by their first line and
by their last) and report problems at different times, but when the lines are plain
source they print the same.

Take lines that hold no line break and none of which is `EOF`, where no line read with no
chunk open is one of the shell's commands, and the last of which leaves no chunk open.
Then running the file of those lines, each ended by a line feed, prints no warning and no
error exactly when feeding them to a new shell prints none; and then the file prints what
the shell prints, line for line, and ends with exit status 0.

Both sides are compared with `Chunk.Clean`, which says what a run of chunks that prints no
warning and no error is in each mode, and what each chunk then prints.

Main results:

* `Chunk.splitLines_join`, `Chunk.ofText_texts`: the file's chunks are the chunks the
  shell finishes.
* `Shell.quiet_iff_clean`, `Shell.feedAll_of_clean`: the shell stays quiet exactly on
  clean chunks, and then prints what they print.
* `Script.quiet_iff_clean`, `Script.run_of_clean`: the same for the script runner.
* `Script.run_agrees_with_shell`: the two front ends agree.
-/

namespace Sugiru

namespace Chunk

/-! ## Lines -/

theorem splitLinesFrom_cons {cur rest : List Char} {c : Char} (hn : c ≠ '\n') (hr : c ≠ '\r') :
    splitLinesFrom cur (c :: rest) = splitLinesFrom (c :: cur) rest := by
  rw [splitLinesFrom.eq_def]
  split <;> simp_all

/-- A line without line breaks, ended by a line feed, is read as that line. -/
theorem splitLinesFrom_line {l : List Char} (hl : '\n' ∉ l ∧ '\r' ∉ l) (cur rest : List Char) :
    splitLinesFrom cur (l ++ '\n' :: rest) = String.ofList (cur.reverse ++ l) :: splitLinesFrom [] rest := by
  induction l generalizing cur with
  | nil => simp [splitLinesFrom]
  | cons c l ih =>
    simp only [List.mem_cons, not_or] at hl
    rw [List.cons_append, splitLinesFrom_cons (Ne.symm hl.1.1) (Ne.symm hl.2.1),
      ih ⟨hl.1.2, hl.2.2⟩]
    simp

theorem toList_join_lines (L : List String) (hne : L ≠ []) :
    ("\n".intercalate L ++ "\n").toList = (L.map fun l => l.toList ++ ['\n']).flatten := by
  induction L with
  | nil => exact absurd rfl hne
  | cons l rest ih =>
    cases rest with
    | nil => simp
    | cons m rest =>
      have h := ih (by simp)
      rw [String.toList_append] at h
      rw [String.intercalate_cons_cons]
      simp only [String.toList_append, List.append_assoc, h]
      simp

/-- The lines of the text made of lines without line breaks, each ended by a line feed,
    are those lines. -/
theorem splitLines_join (L : List String) (hl : ∀ l ∈ L, '\n' ∉ l.toList ∧ '\r' ∉ l.toList)
    (hne : L ≠ []) : splitLines ("\n".intercalate L ++ "\n") = L := by
  rw [splitLines, toList_join_lines L hne]
  clear hne
  induction L with
  | nil => rfl
  | cons l rest ih =>
    rw [List.map_cons, List.flatten_cons, List.append_assoc, List.singleton_append,
      splitLinesFrom_line (hl l List.mem_cons_self), ih fun m hm => hl m (List.mem_cons_of_mem _ hm)]
    simp

/-! ## Chunks -/

/-- The chunk still open after a line, given the one open before it. -/
def carry (prev line : String) : String :=
  if (join line prev).2 then (join line prev).1 else ""

theorem carry_of_isEmpty {prev : String} (line : String) (h : prev.isEmpty = true) :
    carry prev line = if isOpen (clean line) then clean line else "" := by
  simp [carry, join, h]

theorem carry_of_not_isEmpty {prev : String} (line : String) (h : prev.isEmpty = false) :
    carry prev line =
      if isOpen (prev ++ "\n" ++ clean line) then prev ++ "\n" ++ clean line else "" := by
  simp [carry, join, h]

/-- The chunk still open after lines, given the one open before them. -/
def openAfter (prev : String) (lines : List String) : String := lines.foldl carry prev

/-- The chunks that lines finish, given the chunk open before them, leaving out those that
    hold only blanks. -/
def finished (prev : String) : List String → List String
  | [] => []
  | line :: rest =>
    if (join line prev).2 then finished (join line prev).1 rest
    else if Text.isBlankText (join line prev).1 then finished "" rest
    else (join line prev).1 :: finished "" rest

/-- No line read while no chunk is open is one of the shell's commands, `help` or `exit`
    once trimmed. -/
def Commandless (prev : String) : List String → Prop
  | [] => True
  | line :: rest =>
    (prev.isEmpty = true → Text.trim line ≠ "help" ∧ Text.trim line ≠ "exit") ∧
      Commandless (carry prev line) rest

section Finished

variable {prev line text : String} {rest : List String}

theorem carry_of_open (hj : join line prev = (text, true)) : carry prev line = text := by
  simp [carry, hj]

theorem carry_of_finished (hj : join line prev = (text, false)) : carry prev line = "" := by
  simp [carry, hj]

theorem finished_cons_of_unfinished
    (hu : (join line prev).2 = true ∨ Text.isBlankText (join line prev).1 = true) :
    finished prev (line :: rest) = finished (carry prev line) rest := by
  rcases hj : join line prev with ⟨text, more⟩
  rw [hj] at hu
  cases more with
  | true => simp [finished, carry, hj]
  | false =>
    simp only [Bool.false_eq_true, false_or] at hu
    simp [finished, carry, hj, hu]

theorem finished_cons_of_finished (hj : join line prev = (text, false))
    (hb : Text.isBlankText text = false) :
    finished prev (line :: rest) = text :: finished "" rest := by
  simp [finished, hj, hb]

end Finished

/-- The chunks of numbered lines are the chunks the lines finish, and the chunk left open
    at the end if it holds more than blanks. -/
theorem gatherFrom_texts (prev : String) (start : Nat) (nls : List (Nat × String)) :
    (gatherFrom prev start nls).map Prod.fst =
      finished prev (nls.map Prod.snd) ++
        if Text.isBlankText (openAfter prev (nls.map Prod.snd)) then []
        else [openAfter prev (nls.map Prod.snd)] := by
  induction nls generalizing prev start with
  | nil => by_cases h : Text.isBlankText prev <;> simp [gatherFrom, finished, openAfter, h]
  | cons nl rest ih =>
    obtain ⟨n, line⟩ := nl
    rcases hj : join line prev with ⟨text, more⟩
    cases more with
    | true =>
      simp only [gatherFrom, finished, openAfter, List.map_cons, List.foldl_cons, hj,
        carry_of_open hj, if_true]
      exact ih text _
    | false =>
      have hc := carry_of_finished hj
      by_cases hb : Text.isBlankText text
      · simp only [gatherFrom, finished, openAfter, List.map_cons, List.foldl_cons, hj, hc, hb,
          Bool.false_eq_true, if_false, if_true]
        exact ih "" _
      · simp only [gatherFrom, finished, openAfter, List.map_cons, List.foldl_cons, hj, hc, hb,
          Bool.false_eq_true, if_false, List.cons_append]
        exact congrArg (text :: ·) (ih "" _)

theorem isBlankText_of_isEmpty {s : String} (h : s.isEmpty = true) : Text.isBlankText s = true := by
  rw [String.isEmpty_iff] at h
  subst h
  rfl

/-- The numbers of chunks of lines numbered in increasing order increase too: a chunk is
    numbered by its first line, or by `start` when it began before these lines. -/
theorem gatherFrom_sorted (prev : String) (start : Nat) (nls : List (Nat × String))
    (hs : (nls.map Prod.fst).Pairwise (· < ·))
    (hstart : prev.isEmpty = false → ∀ m ∈ nls.map Prod.fst, start < m) :
    ((gatherFrom prev start nls).map Prod.snd).Pairwise (· < ·) ∧
      ∀ k ∈ (gatherFrom prev start nls).map Prod.snd,
        (k = start ∧ prev.isEmpty = false) ∨ k ∈ nls.map Prod.fst := by
  induction nls generalizing prev start with
  | nil =>
    by_cases hb : Text.isBlankText prev
    · simp [gatherFrom, hb]
    · have hp : prev.isEmpty = false := by
        cases he : prev.isEmpty
        · rfl
        · exact absurd (isBlankText_of_isEmpty he) hb
      simp [gatherFrom, hb, hp]
  | cons nl rest ih =>
    obtain ⟨n, line⟩ := nl
    simp only [List.map_cons, List.pairwise_cons] at hs
    -- the number a chunk begun at this line gets
    have hfirst : ∀ m ∈ rest.map Prod.fst, (if prev.isEmpty then n else start) < m := by
      intro m hm
      split
      · exact hs.1 m hm
      · next h => exact hstart (by simpa using h) m (List.mem_cons_of_mem _ hm)
    have hfirst' : ((if prev.isEmpty then n else start) = start ∧ prev.isEmpty = false) ∨
        (if prev.isEmpty then n else start) ∈ ((n, line) :: rest).map Prod.fst := by
      split
      · exact .inr (by simp)
      · next h => exact .inl ⟨rfl, by simpa using h⟩
    have hlift : ∀ k, k ∈ rest.map Prod.fst → k ∈ ((n, line) :: rest).map Prod.fst :=
      fun k hk => List.mem_cons_of_mem _ hk
    rcases hj : join line prev with ⟨text, more⟩
    cases more with
    | true =>
      obtain ⟨h1, h2⟩ := ih text (if prev.isEmpty then n else start) hs.2 fun _ => hfirst
      simp only [gatherFrom, hj, if_true]
      refine ⟨h1, fun k hk => ?_⟩
      rcases h2 k hk with ⟨rfl, -⟩ | hk
      · exact hfirst'
      · exact .inr (hlift k hk)
    | false =>
      obtain ⟨h1, h2⟩ := ih "" (if prev.isEmpty then n else start) hs.2 (by simp)
      have h2' : ∀ k ∈ (gatherFrom "" (if prev.isEmpty then n else start) rest).map Prod.snd,
          k ∈ rest.map Prod.fst := by
        intro k hk
        rcases h2 k hk with ⟨-, h⟩ | hk
        · simp at h
        · exact hk
      by_cases hb : Text.isBlankText text
      · simp only [gatherFrom, hj, hb, Bool.false_eq_true, if_false, if_true]
        exact ⟨h1, fun k hk => .inr (hlift k (h2' k hk))⟩
      · simp only [gatherFrom, hj, hb, Bool.false_eq_true, if_false, List.map_cons,
          List.pairwise_cons, List.mem_cons]
        refine ⟨⟨fun k hk => hfirst k (h2' k hk), h1⟩, fun k hk => ?_⟩
        rcases hk with rfl | hk
        · simpa using hfirst'
        · simpa using Or.inr (hlift k (h2' k hk))

/-- The numbers of a file's chunks increase. -/
theorem ofText_sorted (text : String) : ((ofText text).map Prod.snd).Pairwise (· < ·) := by
  have hfst : (((List.range (splitLines text).length).map (· + 1)).zip (splitLines text)).map
      Prod.fst = (List.range (splitLines text).length).map (· + 1) :=
    List.map_fst_zip (by simp)
  refine (gatherFrom_sorted "" 1 _ ?_ (by simp)).1
  rw [hfst]
  exact List.pairwise_lt_range.map _ fun _ _ h => by omega

/-- The chunks of the file made of lines that hold no line break, each ended by a line
    feed, the last leaving no chunk open, are the chunks the lines finish; and their
    numbers increase. -/
theorem ofText_texts (L : List String) (hl : ∀ l ∈ L, '\n' ∉ l.toList ∧ '\r' ∉ l.toList)
    (hend : openAfter "" L = "") :
    (ofText ("\n".intercalate L ++ "\n")).map Prod.fst = finished "" L ∧
      ((ofText ("\n".intercalate L ++ "\n")).map Prod.snd).Pairwise (· < ·) := by
  by_cases hL : L = []
  · subst hL
    have h : ofText "\n" = [] := by cbv
    simp [h, finished]
  · have hlines := splitLines_join L hl hL
    have hlen : ((List.range L.length).map (· + 1)).length = L.length := by simp
    have hsnd : (((List.range L.length).map (· + 1)).zip L).map Prod.snd = L :=
      List.map_snd_zip (by omega)
    refine ⟨?_, ofText_sorted _⟩
    have hb : Text.isBlankText "" = true := rfl
    simp only [ofText, hlines]
    rw [gatherFrom_texts, hsnd, hend]
    simp [hb]

end Chunk

/-! ## Chunks that print no warning and no error -/

/-- What a chunk prints in a mode, from a store, when it prints no warning and no error,
    and the store it leaves: its tokens, one a line, when none is illegal; its tree, when
    it parses; the texts of its values, when it parses and runs without a fault. -/
inductive Chunk.Answers : Mode → Store → String → String → Store → Prop
  | tokens {σ : Store} {c : String} :
      (Token.scan c).all (·.kind != .illegal) = true →
        Answers .tokens σ c ("\n".intercalate ((Token.scan c).map Token.render) ++ "\n") σ
  | tree {σ : Store} {c : String} :
      (Program.parse c).issues = [] →
        Answers .tree σ c ((Program.parse c).program.display ++ "\n") σ
  | eval {σ σ' : Store} {c : String} {v : Option Value} :
      (Program.parse c).issues = [] → (Program.parse c).program.run σ = (.ok v, σ') →
        Answers .eval σ c (String.join ((v.map Value.inspect).toList.map (· ++ "\n"))) σ'

/-- Chunks that each print no warning and no error, each from the store the one before it
    left, and what each prints. -/
inductive Chunk.Clean (m : Mode) : Store → List String → List String → Prop
  | nil (σ : Store) : Clean m σ [] []
  | cons {σ σ' : Store} {c out : String} {cs outs : List String} :
      Chunk.Answers m σ c out σ' → Clean m σ' cs outs → Clean m σ (c :: cs) (out :: outs)

theorem Reporter.warning_ne_empty (r : Reporter) (d : Diagnostic) : r.warning d ≠ "" := by
  unfold Reporter.warning
  intro h
  have := congrArg String.toList h
  simp at this

theorem join_map_eq_empty_iff {α : Type} {xs : List α} {f : α → String} (hf : ∀ x, f x ≠ "") :
    String.join (xs.map f) = "" ↔ xs = [] := by
  cases xs with
  | nil => simp
  | cons x xs => simp [String.join_cons, String.append_eq_empty_iff, hf x]

namespace Session

variable {s : Session} {text : String} {n : Int}

theorem run_of_pending_nil (h : s.pending = []) : s.run = (s, none) := by
  simp [run, h, runPending]

/-- A run of one pending program: its values queued, or its fault. -/
theorem run_of_pending_single {p : Program} (h : s.pending = [(n, p)]) :
    s.run =
      match p.run s.store with
      | (.ok v, σ) =>
        ({ s with
            store := σ, pending := [], results := s.results ++ (v.map Value.inspect).toList,
            reporter := s.reporter.removeLine s.path }, none)
      | (.error f, σ) =>
        ({ s with
            store := σ, pending := [],
            reporter := s.reporter.registerLine s.path p.render (some n) }, some (.fault f)) := by
  have hr := Reporter.setLine_setLine s.reporter s.path p.render "" (some n) none
  rcases hrun : p.run s.store with ⟨_ | v, σ⟩ <;>
    simp [run, runPending, h, hrun, Reporter.registerLine, Reporter.removeLine, hr]

/-- In `tokens` mode a chunk's tokens are queued, one a line, after a warning for each
    illegal one. -/
theorem add_of_tokens (hm : s.mode = .tokens) :
    s.add text n =
      ({ s with
          results := s.results ++ ["\n".intercalate ((Token.scan text).map Token.render)],
          reporter := s.reporter.removeLine s.path },
        String.join (((Token.scan text).filter (·.kind == .illegal)).map fun t =>
          (s.reporter.registerLine s.path text (some n)).warning (illegalWarning t.text)),
        none) := by
  have hr := Reporter.setLine_setLine s.reporter s.path text "" (some n) none
  simp only [Reporter.registerLine, Reporter.removeLine] at hr ⊢
  simp only [add, hm, Reporter.registerLine, Reporter.removeLine, hr]

/-- In `ast` mode a chunk that parses has its tree queued. -/
theorem add_of_tree_parsed (hm : s.mode = .tree) (hi : (Program.parse text).issues = []) :
    s.add text n =
      ({ s with
          results := s.results ++ [(Program.parse text).program.display],
          reporter := s.reporter.removeLine s.path }, "", none) := by
  have hr := Reporter.setLine_setLine s.reporter s.path text "" (some n) none
  have hi' : (Program.ofTokens (Token.scan text)).issues.isEmpty = true := by
    simpa [Program.parse] using hi
  simp only [Reporter.removeLine] at hr ⊢
  simp only [add, hm, hi', if_true, Reporter.registerLine, Reporter.removeLine, hr,
    Program.parse]

theorem add_of_tree_unparsed (hm : s.mode = .tree) (hi : (Program.parse text).issues ≠ []) :
    s.add text n =
      ({ s with reporter := s.reporter.registerLine s.path text (some n) }, "",
        some (.parse text (Program.parse text).issues)) := by
  have hi' : (Program.ofTokens (Token.scan text)).issues.isEmpty = false := by
    simpa [Program.parse, List.isEmpty_iff] using hi
  simp only [add, hm, hi', Bool.false_eq_true, if_false]
  rfl

/-- Adding a chunk and running it at once prints no warning and fails in neither step. -/
def QuietChunk (s : Session) (text : String) (n : Int) : Prop :=
  (s.add text n).2.1 = "" ∧ (s.add text n).2.2 = none ∧ (s.add text n).1.run.2 = none

/-- With nothing pending, adding a chunk and running it at once is quiet exactly when the
    chunk prints no warning and no error. -/
theorem quietChunk_iff (hp : s.pending = []) :
    s.QuietChunk text n ↔ ∃ out σ', Chunk.Answers s.mode s.store text out σ' := by
  unfold QuietChunk
  cases hm : s.mode with
  | tokens =>
    have hp' : (s.add text n).1.pending = [] := by rw [add_of_tokens hm]; exact hp
    rw [run_of_pending_nil hp', add_of_tokens hm]
    simp only [and_true, join_map_eq_empty_iff fun t => Reporter.warning_ne_empty _ _,
      List.filter_eq_nil_iff]
    constructor
    · intro h
      exact ⟨_, _, .tokens (List.all_eq_true.2 fun t ht => by simpa using h t ht)⟩
    · rintro ⟨out, σ', h⟩
      cases h with
      | tokens h => exact fun t ht => by simpa using List.all_eq_true.1 h t ht
  | tree =>
    by_cases hi : (Program.parse text).issues = []
    · have hp' : (s.add text n).1.pending = [] := by
        rw [add_of_tree_parsed hm hi]; exact hp
      rw [run_of_pending_nil hp', add_of_tree_parsed hm hi]
      exact ⟨fun _ => ⟨_, _, .tree hi⟩, fun _ => ⟨rfl, rfl, rfl⟩⟩
    · rw [add_of_tree_unparsed hm hi]
      refine ⟨fun h => absurd h.2.1 (by simp), ?_⟩
      rintro ⟨out, σ', h⟩
      cases h with
      | tree h => exact absurd h hi
  | eval =>
    by_cases hi : (Program.parse text).issues = []
    · have hadd := add_of_parsed (n := n) hm hi
      have hp' : (s.add text n).1.pending = [(n, (Program.parse text).program)] := by
        rw [hadd, hp]; rfl
      rw [run_of_pending_single hp', hadd]
      rcases hrun : (Program.parse text).program.run s.store with ⟨_ | v, σ⟩
      · simp only
        refine ⟨fun h => absurd h.2.2 (by simp), ?_⟩
        rintro ⟨out, σ', h⟩
        cases h with
        | eval _ h => rw [hrun] at h; simp at h
      · simp only
        exact ⟨fun _ => ⟨_, _, .eval hi hrun⟩, fun _ => by simp⟩
    · rw [add_of_unparsed hm hi]
      refine ⟨fun h => absurd h.2.1 (by simp), ?_⟩
      rintro ⟨out, σ', h⟩
      cases h with
      | eval h _ => exact absurd h hi

/-- A session between two chunks of the shell: nothing pending and no result queued. -/
structure Idle (s : Session) : Prop where
  pending_eq : s.pending = []
  results_eq : s.results = []

theorem new_idle (path : String) (m : Mode) (r : Reporter) : (Session.new path m r).Idle :=
  ⟨rfl, rfl⟩

end Session

namespace Shell

open Session

/-- A quiet chunk prints what its run queued. -/
theorem runChunk_of_quiet {s : Session} {text : String} {n : Nat} (hq : s.QuietChunk text n) :
    runChunk s text n = flush (s.add text n).1.run.1 := by
  obtain ⟨hw, hf, hr⟩ := hq
  unfold runChunk
  rcases hadd : s.add text n with ⟨s₁, w, f⟩
  rw [hadd] at hw hf hr
  dsimp only at hw hf hr
  subst hw hf
  rcases hrun : s₁.run with ⟨s₂, g⟩
  rw [hrun] at hr
  dsimp only at hr
  subst hr
  simp [hrun]

/-- A chunk that prints no warning and no error, run by an idle session, prints what it
    answers and leaves the session idle, in its mode, with the store it answers with. -/
theorem runChunk_of_answers {s : Session} {text out : String} {n : Nat} {σ' : Store}
    (hs : s.Idle) (h : Chunk.Answers s.mode s.store text out σ') :
    ∃ s', runChunk s text n = (out, s') ∧ s'.Idle ∧ s'.mode = s.mode ∧ s'.store = σ' := by
  rw [runChunk_of_quiet ((quietChunk_iff hs.pending_eq).2 ⟨out, σ', h⟩)]
  generalize hm : s.mode = m at h
  cases h with
  | tokens =>
    have hp : (s.add text n).1.pending = [] := by rw [add_of_tokens hm]; exact hs.pending_eq
    rw [run_of_pending_nil hp, add_of_tokens hm]
    refine ⟨_, Prod.ext ?_ rfl, ⟨hs.pending_eq, rfl⟩, hm, rfl⟩
    simp [flush, hs.results_eq]
  | tree hi =>
    have hp : (s.add text n).1.pending = [] := by
      rw [add_of_tree_parsed hm hi]; exact hs.pending_eq
    rw [run_of_pending_nil hp, add_of_tree_parsed hm hi]
    refine ⟨_, Prod.ext ?_ rfl, ⟨hs.pending_eq, rfl⟩, hm, rfl⟩
    simp [flush, hs.results_eq]
  | eval hi hrun =>
    have hadd := add_of_parsed (n := n) hm hi
    have hp : (s.add text n).1.pending = [((n : Int), (Program.parse text).program)] := by
      rw [hadd, hs.pending_eq]; rfl
    rw [run_of_pending_single hp, hadd]
    simp only [hrun]
    refine ⟨_, Prod.ext ?_ rfl, ⟨rfl, rfl⟩, hm, rfl⟩
    simp [flush, hs.results_eq]

/-! ## Feeding lines to the shell -/

/-- The line finishes a chunk that prints a warning or an error when it is added and run. -/
def Alarms (sh : Shell) (line : String) : Prop :=
  line ≠ "EOF" ∧
    ¬(sh.openChunk.isEmpty = true ∧ (Text.trim line = "help" ∨ Text.trim line = "exit")) ∧
    (Chunk.join line sh.openChunk).2 = false ∧
    Text.isBlankText (Chunk.join line sh.openChunk).1 = false ∧
    ¬ sh.session.QuietChunk (Chunk.join line sh.openChunk).1 ((sh.lineNo + 1 : Nat) : Int)

/-- Feeding the lines one by one, until one stops the shell, prints no warning and no
    error. -/
def Quiet : Shell → List String → Prop
  | _, [] => True
  | sh, line :: rest => ¬ sh.Alarms line ∧ ((sh.feed line).2.2 = false → Quiet (sh.feed line).1 rest)

/-- What feeding the lines one by one prints, line by line, until one stops the shell. -/
def feedAll (sh : Shell) : List String → List String
  | [] => []
  | line :: rest =>
    (sh.feed line).2.1 :: if (sh.feed line).2.2 then [] else feedAll (sh.feed line).1 rest

section Feed

variable {sh : Shell} {line : String}

theorem feed_of_source (he : line ≠ "EOF")
    (hc : sh.openChunk.isEmpty = true → Text.trim line ≠ "help" ∧ Text.trim line ≠ "exit") :
    sh.feed line = ((sh.source line).1, (sh.source line).2, false) := by
  unfold feed
  by_cases hb : sh.openChunk.isEmpty = true
  · simp [he, hb, (hc hb).1, (hc hb).2]
  · simp [he, hb]

/-- A line of source that finishes no chunk, or a blank one, prints nothing and only moves
    the open chunk on. -/
theorem feed_of_unfinished (he : line ≠ "EOF")
    (hc : sh.openChunk.isEmpty = true → Text.trim line ≠ "help" ∧ Text.trim line ≠ "exit")
    (hu : (Chunk.join line sh.openChunk).2 = true ∨
      Text.isBlankText (Chunk.join line sh.openChunk).1 = true) :
    sh.feed line =
        ({ sh with lineNo := sh.lineNo + 1, openChunk := Chunk.carry sh.openChunk line }, "",
          false) ∧
      ¬ sh.Alarms line := by
  rw [feed_of_source he hc]
  rcases hj : Chunk.join line sh.openChunk with ⟨text, more⟩
  rw [hj] at hu
  cases more with
  | true => simp [source, Alarms, Chunk.carry, hj]
  | false =>
    simp only [Bool.false_eq_true, false_or] at hu
    simp [source, Alarms, Chunk.carry, hj, hu]

/-- A line of source that finishes a chunk has the shell run it. -/
theorem feed_of_finished {text : String} (he : line ≠ "EOF")
    (hc : sh.openChunk.isEmpty = true → Text.trim line ≠ "help" ∧ Text.trim line ≠ "exit")
    (hj : Chunk.join line sh.openChunk = (text, false)) (hb : Text.isBlankText text = false) :
    sh.feed line =
        ({ sh with
            session := (runChunk sh.session text (sh.lineNo + 1)).2, lineNo := sh.lineNo + 1,
            openChunk := "" }, (runChunk sh.session text (sh.lineNo + 1)).1, false) ∧
      (sh.Alarms line ↔ ¬ sh.session.QuietChunk text ((sh.lineNo + 1 : Nat) : Int)) := by
  rw [feed_of_source he hc]
  refine ⟨by simp [source, hj, hb], ?_⟩
  have hcmd : ¬(sh.openChunk.isEmpty = true ∧ (Text.trim line = "help" ∨ Text.trim line = "exit")) :=
    fun ⟨h, h'⟩ => h'.elim (hc h).1 (hc h).2
  simp only [Alarms, hj, hb, he, hcmd, ne_eq, not_false_eq_true, true_and]

/-- A line of source either finishes no chunk, or only a blank one, and moves the open
    chunk on; or it finishes a chunk, which the shell runs. -/
theorem feed_cases (he : line ≠ "EOF")
    (hc : sh.openChunk.isEmpty = true → Text.trim line ≠ "help" ∧ Text.trim line ≠ "exit") :
    (sh.feed line =
        ({ sh with lineNo := sh.lineNo + 1, openChunk := Chunk.carry sh.openChunk line }, "",
          false) ∧
      ¬ sh.Alarms line ∧
      ∀ rest, Chunk.finished sh.openChunk (line :: rest) =
        Chunk.finished (Chunk.carry sh.openChunk line) rest) ∨
    ∃ text, sh.feed line =
        ({ sh with
            session := (runChunk sh.session text (sh.lineNo + 1)).2, lineNo := sh.lineNo + 1,
            openChunk := "" }, (runChunk sh.session text (sh.lineNo + 1)).1, false) ∧
      (sh.Alarms line ↔ ¬ sh.session.QuietChunk text ((sh.lineNo + 1 : Nat) : Int)) ∧
      Chunk.carry sh.openChunk line = "" ∧
      ∀ rest, Chunk.finished sh.openChunk (line :: rest) = text :: Chunk.finished "" rest := by
  by_cases hu : (Chunk.join line sh.openChunk).2 = true ∨
      Text.isBlankText (Chunk.join line sh.openChunk).1 = true
  · obtain ⟨hfeed, hna⟩ := feed_of_unfinished he hc hu
    exact .inl ⟨hfeed, hna, fun _ => Chunk.finished_cons_of_unfinished hu⟩
  · rcases hj : Chunk.join line sh.openChunk with ⟨text, more⟩
    rw [hj] at hu
    simp only [not_or, Bool.not_eq_true] at hu
    obtain ⟨rfl, hb⟩ := hu
    obtain ⟨hfeed, halarm⟩ := feed_of_finished he hc hj hb
    exact .inr ⟨text, hfeed, halarm, Chunk.carry_of_finished hj,
      fun _ => Chunk.finished_cons_of_finished hj hb⟩

end Feed

/-- Over lines that are no commands, a shell whose session is idle feeds them quietly
    exactly when the chunks they finish print no warning and no error, each run from the
    store the one before it left. -/
theorem quiet_iff_clean (L : List String) (sh : Shell) (hs : sh.session.Idle)
    (he : ∀ l ∈ L, l ≠ "EOF") (hc : Chunk.Commandless sh.openChunk L) :
    sh.Quiet L ↔
      ∃ outs, Chunk.Clean sh.session.mode sh.session.store (Chunk.finished sh.openChunk L) outs := by
  -- induction on the lines, with the shell they are fed to, whose session stays idle
  induction L generalizing sh with
  | nil => exact ⟨fun _ => ⟨[], .nil _⟩, fun _ => trivial⟩
  | cons line rest ih =>
    have he' : ∀ l ∈ rest, l ≠ "EOF" := fun l hl => he l (by simp [hl])
    rcases feed_cases (he line (by simp)) hc.1 with ⟨hfeed, hna, hfin⟩ |
      ⟨text, hfeed, halarm, hcarry, hfin⟩
    · rw [hfin]
      simp only [Quiet, hfeed, hna, not_false_eq_true, true_and, forall_const]
      exact ih _ hs he' hc.2
    · have hc' : Chunk.Commandless "" rest := hcarry ▸ hc.2
      rw [hfin]
      simp only [Quiet, hfeed, halarm, Classical.not_not, forall_const]
      constructor
      · rintro ⟨hq, hrest⟩
        obtain ⟨out, σ', ha⟩ := (quietChunk_iff hs.pending_eq).1 hq
        obtain ⟨s', hrc, hs', hm, hσ⟩ := runChunk_of_answers (n := sh.lineNo + 1) hs ha
        rw [hrc] at hrest
        obtain ⟨outs, hcl⟩ := (ih _ hs' he' hc').1 hrest
        have hcl' : Chunk.Clean s'.mode s'.store (Chunk.finished "" rest) outs := hcl
        rw [hm, hσ] at hcl'
        exact ⟨out :: outs, .cons ha hcl'⟩
      · rintro ⟨outs, hcl⟩
        cases hcl with
        | @cons _ _ _ _ _ outs ha hcl =>
          obtain ⟨s', hrc, hs', hm, hσ⟩ := runChunk_of_answers (n := sh.lineNo + 1) hs ha
          refine ⟨(quietChunk_iff hs.pending_eq).2 ⟨_, _, ha⟩, ?_⟩
          rw [hrc]
          refine (ih _ hs' he' hc').2 ⟨outs, show Chunk.Clean s'.mode s'.store _ outs from ?_⟩
          rw [hm, hσ]
          exact hcl

/-- What a shell prints over such lines, when their chunks print no warning and no error,
    is what the chunks print, one after another. -/
theorem feedAll_of_clean (L : List String) (sh : Shell) (hs : sh.session.Idle)
    (he : ∀ l ∈ L, l ≠ "EOF") (hc : Chunk.Commandless sh.openChunk L) {outs : List String}
    (h : Chunk.Clean sh.session.mode sh.session.store (Chunk.finished sh.openChunk L) outs) :
    String.join (sh.feedAll L) = String.join outs := by
  induction L generalizing sh outs with
  | nil =>
    cases h
    rfl
  | cons line rest ih =>
    have he' : ∀ l ∈ rest, l ≠ "EOF" := fun l hl => he l (by simp [hl])
    rcases feed_cases (he line (by simp)) hc.1 with ⟨hfeed, -, hfin⟩ |
      ⟨text, hfeed, -, hcarry, hfin⟩
    · rw [hfin] at h
      simp only [feedAll, hfeed, Bool.false_eq_true, if_false, String.join_cons]
      rw [ih { sh with lineNo := sh.lineNo + 1, openChunk := Chunk.carry sh.openChunk line } hs
        he' hc.2 h]
      simp
    · have hc' : Chunk.Commandless "" rest := hcarry ▸ hc.2
      rw [hfin] at h
      cases h with
      | cons ha hcl =>
        obtain ⟨s', hrc, hs', hm, hσ⟩ := runChunk_of_answers (n := sh.lineNo + 1) hs ha
        simp only [feedAll, hfeed, hrc, Bool.false_eq_true, if_false, String.join_cons]
        rw [ih _ hs' he' hc' (show Chunk.Clean s'.mode s'.store _ _ by rw [hm, hσ]; exact hcl)]

end Shell

/-! ## Runs of several programs -/

namespace Program.Runs

theorem det {σ σ₁ σ₂ : Store} {ps : List Program} {o₁ o₂ : List String}
    (h₁ : Runs σ ps σ₁ o₁) (h₂ : Runs σ ps σ₂ o₂) : σ₁ = σ₂ ∧ o₁ = o₂ := by
  induction h₁ generalizing o₂ with
  | nil => cases h₂; exact ⟨rfl, rfl⟩
  | cons hp _ ih =>
    cases h₂ with
    | cons hp' h₂ =>
      rw [hp] at hp'
      simp only [Prod.mk.injEq, Except.ok.injEq] at hp'
      obtain ⟨rfl, rfl⟩ := hp'
      obtain ⟨rfl, rfl⟩ := ih h₂
      exact ⟨rfl, rfl⟩

theorem of_append {σ σ₂ : Store} {ps qs : List Program} {o : List String}
    (h : Runs σ (ps ++ qs) σ₂ o) :
    ∃ σ₁ o₁ o₂, Runs σ ps σ₁ o₁ ∧ Runs σ₁ qs σ₂ o₂ ∧ o = o₁ ++ o₂ := by
  induction ps generalizing σ o with
  | nil => exact ⟨σ, [], o, .nil σ, h, rfl⟩
  | cons p ps ih =>
    cases h with
    | cons hp h =>
      obtain ⟨σ₁, o₁, o₂, h₁, h₂, rfl⟩ := ih h
      exact ⟨σ₁, _ ++ o₁, o₂, .cons hp h₁, h₂, by rw [List.append_assoc]⟩

end Program.Runs

namespace Chunk

variable {σ : Store} {cs outs : List String}

theorem answers_tokens_iff {σ σ' : Store} {c out : String} :
    Answers .tokens σ c out σ' ↔ (Token.scan c).all (·.kind != .illegal) = true ∧
      out = "\n".intercalate ((Token.scan c).map Token.render) ++ "\n" ∧ σ' = σ := by
  constructor
  · intro h
    cases h with
    | tokens h => exact ⟨h, rfl, rfl⟩
  · rintro ⟨h, rfl, rfl⟩
    exact .tokens h

theorem answers_tree_iff {σ σ' : Store} {c out : String} :
    Answers .tree σ c out σ' ↔ (Program.parse c).issues = [] ∧
      out = (Program.parse c).program.display ++ "\n" ∧ σ' = σ := by
  constructor
  · intro h
    cases h with
    | tree h => exact ⟨h, rfl, rfl⟩
  · rintro ⟨h, rfl, rfl⟩
    exact .tree h

/-- In a mode where a chunk keeps the store and prints `f c` exactly when `P c` holds, chunks
    are clean when each meets `P`, and they print `f` of each. -/
theorem clean_iff_of_answers {m : Mode} {P : String → Prop} {f : String → String}
    (hm : ∀ {σ σ' : Store} {c out : String}, Answers m σ c out σ' ↔ P c ∧ out = f c ∧ σ' = σ) :
    Clean m σ cs outs ↔ (∀ c ∈ cs, P c) ∧ outs = cs.map f := by
  induction cs generalizing outs with
  | nil => exact ⟨fun h => by cases h; simp, fun ⟨_, h⟩ => h ▸ .nil σ⟩
  | cons c cs ih =>
    constructor
    · intro h
      cases h with
      | cons ha hcl =>
        obtain ⟨hc, rfl, rfl⟩ := hm.1 ha
        obtain ⟨hall, rfl⟩ := ih.1 hcl
        exact ⟨List.forall_mem_cons.2 ⟨hc, hall⟩, rfl⟩
    · rintro ⟨hall, rfl⟩
      rw [List.forall_mem_cons] at hall
      exact .cons (hm.2 ⟨hall.1, rfl, rfl⟩) (ih.2 ⟨hall.2, rfl⟩)

theorem clean_tokens_iff :
    Clean .tokens σ cs outs ↔ (∀ c ∈ cs, (Token.scan c).all (·.kind != .illegal) = true) ∧
      outs = cs.map fun c => "\n".intercalate ((Token.scan c).map Token.render) ++ "\n" :=
  clean_iff_of_answers answers_tokens_iff

theorem clean_tree_iff :
    Clean .tree σ cs outs ↔ (∀ c ∈ cs, (Program.parse c).issues = []) ∧
      outs = cs.map fun c => (Program.parse c).program.display ++ "\n" :=
  clean_iff_of_answers answers_tree_iff

/-- In `eval` mode the chunks are clean when they all parse and their programs run one
    after another; the values printed are those the run gives. -/
theorem Clean.eval_runs (h : Clean .eval σ cs outs) :
    (∀ c ∈ cs, (Program.parse c).issues = []) ∧
      ∃ σ' out, Program.Runs σ (cs.map fun c => (Program.parse c).program) σ' out ∧
        String.join (out.map (· ++ "\n")) = String.join outs := by
  induction cs generalizing σ outs with
  | nil =>
    cases h
    exact ⟨by simp, σ, [], .nil σ, rfl⟩
  | cons c cs ih =>
    cases h with
    | cons ha hcl =>
      cases ha with
      | eval hi hrun =>
        obtain ⟨hall, σ', out, hR, hj⟩ := ih hcl
        refine ⟨List.forall_mem_cons.2 ⟨hi, hall⟩, σ', _, .cons hrun hR, ?_⟩
        rw [List.map_append, String.join_append, hj, String.join_cons]

theorem clean_eval_of_runs {σ' : Store} {out : List String}
    (hi : ∀ c ∈ cs, (Program.parse c).issues = [])
    (h : Program.Runs σ (cs.map fun c => (Program.parse c).program) σ' out) :
    ∃ outs, Clean .eval σ cs outs := by
  induction cs generalizing σ out with
  | nil => exact ⟨[], .nil σ⟩
  | cons c cs ih =>
    rw [List.forall_mem_cons] at hi
    cases h with
    | cons hrun hR =>
      obtain ⟨outs, hcl⟩ := ih hi.2 hR
      exact ⟨_, .cons (.eval hi.1 hrun) hcl⟩

end Chunk

/-! ## Running a file -/

namespace Script

open Session

/-- Adding the chunks of a file prints no warning and fails nowhere, and running what was
    added fails nowhere. -/
def QuietOn (s : Session) (cs : List (String × Nat)) : Prop :=
  (addAll s cs).2.1 = "" ∧ (addAll s cs).2.2 = none ∧ (addAll s cs).1.run.2 = none

/-- Running the text of a file prints no warning and no error. -/
def Quiet (path : String) (m : Mode) (text : String) : Prop :=
  QuietOn (Session.new path m ((Reporter.empty true).registerFile path)) (Chunk.ofText text)

theorem run_of_quiet {path : String} {m : Mode} {text : String} (h : Quiet path m text) :
    run path m (some text) =
      (String.join ((addAll (Session.new path m ((Reporter.empty true).registerFile path))
        (Chunk.ofText text)).1.run.1.results.map (· ++ "\n")), 0) := by
  obtain ⟨hw, hf, hr⟩ := h
  rcases hadd : addAll (Session.new path m ((Reporter.empty true).registerFile path))
    (Chunk.ofText text) with ⟨s₁, w, f⟩
  rw [hadd] at hw hf hr
  dsimp only at hw hf hr
  subst hw hf
  rcases hrun : s₁.run with ⟨s₂, g⟩
  obtain rfl : g = none := by simpa [hrun] using hr
  simp [run, hadd, hrun]

section Adding

theorem putPending_of_fresh {ps : List (Int × Program)} {n : Int} {p : Program}
    (h : n ∉ ps.map Prod.fst) : putPending ps n p = ps ++ [(n, p)] := by
  unfold putPending
  rw [if_neg (mt any_key_iff.1 h)]

theorem addAll_tokens (cs : List (String × Nat)) (s : Session) (hm : s.mode = .tokens) :
    (addAll s cs).2.2 = none ∧
      ((addAll s cs).2.1 = "" ↔ ∀ c ∈ cs, (Token.scan c.1).all (·.kind != .illegal) = true) ∧
      (addAll s cs).1.pending = s.pending ∧
      (addAll s cs).1.results =
        s.results ++ cs.map fun c => "\n".intercalate ((Token.scan c.1).map Token.render) := by
  induction cs generalizing s with
  | nil => simp [addAll]
  | cons c rest ih =>
    obtain ⟨text, n⟩ := c
    have hadd : s.add text n = _ := add_of_tokens hm
    obtain ⟨hf, hw, hp, hr⟩ := ih (s.add text n).1 (by rw [hadd]; exact hm)
    rw [hadd] at hf hw hp hr
    simp only [addAll, hadd]
    refine ⟨hf, ?_, hp, ?_⟩
    · rw [String.append_eq_empty_iff, hw,
        join_map_eq_empty_iff fun t => Reporter.warning_ne_empty _ _, List.filter_eq_nil_iff,
        List.forall_mem_cons]
      simp [List.all_eq_true]
    · rw [hr]
      simp

theorem addAll_tree (cs : List (String × Nat)) (s : Session) (hm : s.mode = .tree) :
    (addAll s cs).2.1 = "" ∧
      ((addAll s cs).2.2 = none ↔ ∀ c ∈ cs, (Program.parse c.1).issues = []) ∧
      ((addAll s cs).2.2 = none →
        (addAll s cs).1.pending = s.pending ∧
          (addAll s cs).1.results =
            s.results ++ cs.map fun c => (Program.parse c.1).program.display) := by
  induction cs generalizing s with
  | nil => simp [addAll]
  | cons c rest ih =>
    obtain ⟨text, n⟩ := c
    by_cases hi : (Program.parse text).issues = []
    · have hadd := add_of_tree_parsed (n := n) hm hi
      obtain ⟨hw, hf, hpr⟩ := ih (s.add text n).1 (by rw [hadd]; exact hm)
      rw [hadd] at hw hf hpr
      simp only [addAll, hadd, hw, String.append_empty, List.forall_mem_cons, hi, true_and]
      refine ⟨hf, fun h => ?_⟩
      obtain ⟨hp, hr⟩ := hpr h
      exact ⟨hp, by rw [hr]; simp⟩
    · simp only [addAll, add_of_tree_unparsed (n := n) hm hi, List.forall_mem_cons, hi,
        false_and, reduceCtorEq, false_imp_iff, and_true]

theorem addAll_eval (cs : List (String × Nat)) (s : Session) (hm : s.mode = .eval)
    (hk : (s.pending.map Prod.fst ++ cs.map fun c => (c.2 : Int)).Nodup) :
    (addAll s cs).2.1 = "" ∧
      ((addAll s cs).2.2 = none ↔ ∀ c ∈ cs, (Program.parse c.1).issues = []) ∧
      ((addAll s cs).2.2 = none →
        (addAll s cs).1.store = s.store ∧ (addAll s cs).1.results = s.results ∧
          (addAll s cs).1.pending =
            s.pending ++ cs.map fun c => ((c.2 : Int), (Program.parse c.1).program)) := by
  induction cs generalizing s with
  | nil => simp [addAll]
  | cons c rest ih =>
    obtain ⟨text, n⟩ := c
    by_cases hi : (Program.parse text).issues = []
    · have hadd := add_of_parsed (n := n) hm hi
      -- a chunk's number is new among those pending, so its program goes last
      have hfresh : (n : Int) ∉ s.pending.map Prod.fst := by
        intro h
        simp only [List.map_cons, List.nodup_append, List.nodup_cons, List.mem_cons] at hk
        exact hk.2.2 _ h _ (.inl rfl) rfl
      have hput := putPending_of_fresh (p := (Program.parse text).program) hfresh
      have hk' : ((s.add text n).1.pending.map Prod.fst ++ rest.map fun c => (c.2 : Int)).Nodup := by
        rw [hadd]
        simpa [hput] using hk
      obtain ⟨hw, hf, hpr⟩ := ih (s.add text n).1 (by rw [hadd]; exact hm) hk'
      rw [hadd] at hw hf hpr
      simp only [addAll, hadd, hw, String.append_empty, List.forall_mem_cons, hi, true_and]
      refine ⟨hf, fun h => ?_⟩
      obtain ⟨hσ, hr, hp⟩ := hpr h
      exact ⟨hσ, hr, by rw [hp, hput]; simp⟩
    · simp only [addAll, add_of_unparsed (n := n) hm hi, List.forall_mem_cons, hi,
        false_and, reduceCtorEq, false_imp_iff, and_true]

theorem nodup_of_sorted {cs : List (String × Nat)} (hk : (cs.map Prod.snd).Pairwise (· < ·)) :
    (cs.map fun c => (c.2 : Int)).Nodup := by
  have h : (cs.map Prod.snd).Pairwise (· ≠ ·) := hk.imp Nat.ne_of_lt
  rw [List.pairwise_map] at h
  unfold List.Nodup
  rw [List.pairwise_map]
  exact h.imp fun h h' => h (by omega)

variable {s : Session} {cs : List (String × Nat)}

/-- Chunks numbered in increasing order have numbers new to an idle session. -/
theorem keys_nodup (hs : s.Idle) (hk : (cs.map Prod.snd).Pairwise (· < ·)) :
    (s.pending.map Prod.fst ++ cs.map fun c => (c.2 : Int)).Nodup := by
  rw [hs.pending_eq]
  exact nodup_of_sorted hk

/-- In `eval` mode, once every chunk of an idle session is added, running them is running
    their programs one after another from the session's store: it fails nowhere exactly
    when they all run, and then queues their values. -/
theorem run_eval (hs : s.Idle) (hm : s.mode = .eval) (hk : (cs.map Prod.snd).Pairwise (· < ·))
    (hall : ∀ c ∈ cs, (Program.parse c.1).issues = []) :
    ((addAll s cs).1.run.2 = none ↔
        ∃ σ' out, Program.Runs s.store (cs.map fun c => (Program.parse c.1).program) σ' out) ∧
      ∀ σ' out, Program.Runs s.store (cs.map fun c => (Program.parse c.1).program) σ' out →
        (addAll s cs).1.run.1.results = out := by
  obtain ⟨-, hf, hpr⟩ := addAll_eval cs s hm (keys_nodup hs hk)
  obtain ⟨hσ, hres, hp⟩ := hpr (hf.2 hall)
  have hlines : (addAll s cs).1.pendingLines.Nodup := by
    simpa [pendingLines, hp, hs.pending_eq, List.map_map, Function.comp_def] using
      nodup_of_sorted hk
  have hprogs : (addAll s cs).1.pending.map Prod.snd =
      cs.map fun c => (Program.parse c.1).program := by
    simp [hp, hs.pending_eq, List.map_map, Function.comp_def]
  rcases run_spec hlines with ⟨σ, out, hR, hrun⟩ |
    ⟨done, n, p, later, σ, out, f, σ', hsplit, hdone, hfault, hrun⟩
  · rw [hprogs, hσ] at hR
    refine ⟨⟨fun _ => ⟨σ, out, hR⟩, fun _ => by rw [hrun]⟩, fun σ' out' hR' => ?_⟩
    rw [hrun]
    simp [hres, hs.results_eq, (Program.Runs.det hR hR').2]
  · -- the programs before the faulty one leave the store it fails from, so not all run
    have hnot : ¬ ∃ σ' out, Program.Runs s.store
        (cs.map fun c => (Program.parse c.1).program) σ' out := by
      rintro ⟨σ₂, out₂, hR⟩
      rw [← hprogs, hsplit, List.map_append, List.map_cons] at hR
      obtain ⟨σ₁, o₁, o₂, h₁, h₂, -⟩ := Program.Runs.of_append hR
      rw [hσ] at hdone
      obtain ⟨rfl, -⟩ := Program.Runs.det hdone h₁
      cases h₂ with
      | cons hp _ => rw [hfault] at hp; simp at hp
    refine ⟨⟨fun h => by rw [hrun] at h; simp at h, fun h => absurd h hnot⟩,
      fun σ' out hR => absurd ⟨σ', out, hR⟩ hnot⟩

end Adding

/-- Chunks numbered in increasing order, added to an idle session and then run, print no
    warning and no error exactly when they are clean in the session's mode from its
    store. -/
theorem quietOn_iff_clean (s : Session) (hs : s.Idle) (cs : List (String × Nat))
    (hk : (cs.map Prod.snd).Pairwise (· < ·)) :
    QuietOn s cs ↔ ∃ outs, Chunk.Clean s.mode s.store (cs.map Prod.fst) outs := by
  cases hm : s.mode with
  | tokens =>
    obtain ⟨hf, hw, hp, -⟩ := addAll_tokens cs s hm
    simp only [QuietOn, hf, hw, run_of_pending_nil (hp.trans hs.pending_eq),
      Chunk.clean_tokens_iff, List.forall_mem_map, exists_eq_right, and_true]
  | tree =>
    obtain ⟨hw, hf, hpr⟩ := addAll_tree cs s hm
    constructor
    · rintro ⟨-, hf', -⟩
      exact ⟨_, Chunk.clean_tree_iff.2 ⟨List.forall_mem_map.2 (hf.1 hf'), rfl⟩⟩
    · rintro ⟨outs, hcl⟩
      have hnone := hf.2 (List.forall_mem_map.1 (Chunk.clean_tree_iff.1 hcl).1)
      exact ⟨hw, hnone, by rw [run_of_pending_nil ((hpr hnone).1.trans hs.pending_eq)]⟩
  | eval =>
    obtain ⟨hw, hf, -⟩ := addAll_eval cs s hm (keys_nodup hs hk)
    constructor
    · rintro ⟨-, hf', hr⟩
      obtain ⟨σ', out, hR⟩ := (run_eval hs hm hk (hf.1 hf')).1.1 hr
      have hR' : Program.Runs s.store ((cs.map Prod.fst).map fun c => (Program.parse c).program)
          σ' out := by
        simpa [List.map_map, Function.comp_def] using hR
      exact Chunk.clean_eval_of_runs (List.forall_mem_map.2 (hf.1 hf')) hR'
    · rintro ⟨outs, hcl⟩
      obtain ⟨hall, σ', out, hR, -⟩ := hcl.eval_runs
      have hall' := List.forall_mem_map.1 hall
      rw [List.map_map] at hR
      exact ⟨hw, hf.2 hall', (run_eval hs hm hk hall').1.2 ⟨σ', out, hR⟩⟩

/-- What clean chunks, added to an idle session and then run, queue is what they print. -/
theorem results_of_clean (s : Session) (hs : s.Idle) (cs : List (String × Nat))
    (hk : (cs.map Prod.snd).Pairwise (· < ·)) {outs : List String}
    (h : Chunk.Clean s.mode s.store (cs.map Prod.fst) outs) :
    String.join ((addAll s cs).1.run.1.results.map (· ++ "\n")) = String.join outs := by
  generalize hm : s.mode = m at h
  cases m with
  | tokens =>
    obtain ⟨-, -, hp, hr⟩ := addAll_tokens cs s hm
    obtain ⟨-, rfl⟩ := Chunk.clean_tokens_iff.1 h
    rw [run_of_pending_nil (hp.trans hs.pending_eq)]
    simp [hr, hs.results_eq, List.map_map, Function.comp_def]
  | tree =>
    obtain ⟨-, hf, hpr⟩ := addAll_tree cs s hm
    obtain ⟨hall, rfl⟩ := Chunk.clean_tree_iff.1 h
    obtain ⟨hp, hr⟩ := hpr (hf.2 (List.forall_mem_map.1 hall))
    rw [run_of_pending_nil (hp.trans hs.pending_eq)]
    simp [hr, hs.results_eq, List.map_map, Function.comp_def]
  | eval =>
    obtain ⟨hall, σ', out, hR, hj⟩ := h.eval_runs
    rw [List.map_map] at hR
    rw [(run_eval hs hm hk (List.forall_mem_map.1 hall)).2 σ' out hR, hj]

section Lines

variable (path : String) (m : Mode) (L : List String)
  (hl : ∀ l ∈ L, '\n' ∉ l.toList ∧ '\r' ∉ l.toList) (hend : Chunk.openAfter "" L = "")

include hl hend

/-- A file of lines that hold no line break, each ended by a line feed, the last leaving
    no chunk open, runs quietly exactly when the chunks the lines finish are clean, one
    after another from the empty store. -/
theorem quiet_iff_clean :
    Quiet path m ("\n".intercalate L ++ "\n") ↔
      ∃ outs, Chunk.Clean m Store.empty (Chunk.finished "" L) outs := by
  obtain ⟨htexts, hsorted⟩ := Chunk.ofText_texts L hl hend
  rw [← htexts]
  exact quietOn_iff_clean _ (new_idle _ _ _) _ hsorted

/-- Such a file, when its chunks are clean, prints what they print and exits with 0. -/
theorem run_of_clean {outs : List String} (h : Chunk.Clean m Store.empty (Chunk.finished "" L) outs) :
    run path m (some ("\n".intercalate L ++ "\n")) = (String.join outs, 0) := by
  obtain ⟨htexts, hsorted⟩ := Chunk.ofText_texts L hl hend
  rw [run_of_quiet ((quiet_iff_clean path m L hl hend).2 ⟨outs, h⟩)]
  rw [← htexts] at h
  rw [results_of_clean _ (new_idle _ _ _) _ hsorted h]

end Lines

/-- The file runner and the shell agree on lines that hold no line break, none of them
    `EOF`, none a command where no chunk is open, the last leaving no chunk open: the
    file of these lines, each ended by a line feed, runs without a warning or an error
    exactly when feeding them to a new shell in the same mode prints none, and then it
    prints what the shell prints, line after line, and exits with 0. -/
theorem run_agrees_with_shell (path : String) (m : Mode) (L : List String)
    (hl : ∀ l ∈ L, '\n' ∉ l.toList ∧ '\r' ∉ l.toList) (he : ∀ l ∈ L, l ≠ "EOF")
    (hc : Chunk.Commandless "" L) (hend : Chunk.openAfter "" L = "") :
    let file := "\n".intercalate L ++ "\n"
    let shell := Shell.new (Session.new Session.shellPath m (Reporter.empty false))
    (Quiet path m file ↔ shell.Quiet L) ∧
      (Quiet path m file → run path m (some file) = (String.join (shell.feedAll L), 0)) := by
  intro file shell
  have hs : shell.session.Idle := new_idle _ _ _
  have hclean := quiet_iff_clean path m L hl hend
  refine ⟨hclean.trans (Shell.quiet_iff_clean L shell hs he hc).symm, fun hq => ?_⟩
  obtain ⟨outs, h⟩ := hclean.1 hq
  rw [run_of_clean path m L hl hend h, Shell.feedAll_of_clean L shell hs he hc h]

/-- A function spread over two lines and then called: the lines meet every condition of
    the agreement. -/
theorem run_agrees_with_shell_sample :
    let L := ["let f = fn(n) \x7b", "  n * 2", "\x7d;", "f(21)"]
    let shell := Shell.new (Session.new Session.shellPath .eval (Reporter.empty false))
    (∀ l ∈ L, '\n' ∉ l.toList ∧ '\r' ∉ l.toList) ∧ (∀ l ∈ L, l ≠ "EOF") ∧
      Chunk.Commandless "" L ∧ Chunk.openAfter "" L = "" ∧
      (Quiet "prog.sg" .eval ("\n".intercalate L ++ "\n") ↔ shell.Quiet L) ∧
      (Quiet "prog.sg" .eval ("\n".intercalate L ++ "\n") →
        run "prog.sg" .eval (some ("\n".intercalate L ++ "\n")) =
          (String.join (shell.feedAll L), 0)) := by
  intro L shell
  -- the chunk open after each line: the function stays open over its first two lines
  have h₁ : Chunk.carry "" "let f = fn(n) \x7b" = "let f = fn(n) \x7b" := by
    rw [Chunk.carry_of_isEmpty _ rfl,
      show Chunk.clean "let f = fn(n) \x7b" = "let f = fn(n) \x7b" by decide,
      show Chunk.isOpen "let f = fn(n) \x7b" = true by decide, if_pos rfl]
  have h₂ : Chunk.carry "let f = fn(n) \x7b" "  n * 2" = "let f = fn(n) \x7b\n  n * 2" := by
    rw [Chunk.carry_of_not_isEmpty _ (by decide), show Chunk.clean "  n * 2" = "  n * 2" by decide,
      show "let f = fn(n) \x7b" ++ "\n" ++ "  n * 2" = "let f = fn(n) \x7b\n  n * 2" by
        simp only [String.reduceAppend],
      show Chunk.isOpen "let f = fn(n) \x7b\n  n * 2" = true by decide, if_pos rfl]
  have h₃ : Chunk.carry "let f = fn(n) \x7b\n  n * 2" "\x7d;" = "" := by
    rw [Chunk.carry_of_not_isEmpty _ (by decide), show Chunk.clean "\x7d;" = "\x7d;" by decide,
      show "let f = fn(n) \x7b\n  n * 2" ++ "\n" ++ "\x7d;" = "let f = fn(n) \x7b\n  n * 2\n\x7d;" by
        simp only [String.reduceAppend],
      show Chunk.isOpen "let f = fn(n) \x7b\n  n * 2\n\x7d;" = false by decide,
      if_neg Bool.false_ne_true]
  have h₄ : Chunk.carry "" "f(21)" = "" := by
    rw [Chunk.carry_of_isEmpty _ rfl, show Chunk.clean "f(21)" = "f(21)" by decide,
      show Chunk.isOpen "f(21)" = false by decide, if_neg Bool.false_ne_true]
  have hl : ∀ l ∈ L, '\n' ∉ l.toList ∧ '\r' ∉ l.toList := by
    simp [L]
  have he : ∀ l ∈ L, l ≠ "EOF" := by
    simp only [L, List.forall_mem_cons, List.not_mem_nil, false_imp_iff, forall_const, and_true]
    exact ⟨by decide, by decide, by decide, by decide⟩
  have hc : Chunk.Commandless "" L := by
    have hopen₁ : "let f = fn(n) \x7b".isEmpty = false := by decide
    have hopen₂ : "let f = fn(n) \x7b\n  n * 2".isEmpty = false := by decide
    simp only [L, Chunk.Commandless, h₁, h₂, h₃]
    exact ⟨fun _ => ⟨by decide, by decide⟩, fun h => (Bool.false_ne_true (hopen₁.symm.trans h)).elim,
      fun h => (Bool.false_ne_true (hopen₂.symm.trans h)).elim, fun _ => ⟨by decide, by decide⟩,
      trivial⟩
  have hend : Chunk.openAfter "" L = "" := by
    simp only [L, Chunk.openAfter, List.foldl_cons, List.foldl_nil, h₁, h₂, h₃, h₄]
  exact ⟨hl, he, hc, hend, run_agrees_with_shell "prog.sg" .eval L hl he hc hend⟩

end Script

end Sugiru
