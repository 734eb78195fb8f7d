import Sugiru.Proofs.FrontEnds

/-!
# The chunks of a file are its balanced runs of lines

A file's lines are numbered from 1 and cleaned (cut at `//`, trailing blanks dropped). A
run of consecutive lines *closes* when each of its nonempty proper prefixes, cleaned and
joined by line feeds, opens more `(` and `{` than it closes, and the whole run does not;
a run *stays open* when every nonempty prefix does. The lines split into runs one way
only: each run closes, but the last, which may reach the end of the file open
(`Runs.unique`).

The chunks `Chunk.ofText` cuts a file into are those runs, with the runs whose text is
blank left out: each chunk's text is its run's cleaned lines joined by line feeds, and its
number is the number of the run's first line. So chunk numbers increase, and the
non-blank cleaned lines of the chunks are those of the file, in order, each once.

Main results:

* `gatherFrom_runs`: the chunks gathered after an open run are the runs of that run and
  the lines that follow, blank runs left out.
* `Runs.unique`: the runs of a list of lines are unique.
* `ofText_runs`: the chunks of a file are the non-blank runs of its lines.
-/

namespace Sugiru.Chunk

/-! ## Runs of lines -/

/-- The text of a run of numbered lines: its lines cleaned and joined by line feeds. -/
def runText (run : List (Nat × String)) : String := "\n".intercalate (run.map fun l => clean l.2)

/-- Every nonempty proper prefix of the run leaves a bracket open. -/
def OpenBefore (run : List (Nat × String)) : Prop :=
  ∀ j, 0 < j → j < run.length → isOpen (runText (run.take j)) = true

/-- A run whose brackets balance first at its last line. -/
def Closes (run : List (Nat × String)) : Prop :=
  run ≠ [] ∧ OpenBefore run ∧ isOpen (runText run) = false

/-- A run that leaves a bracket open at each of its lines. -/
def StaysOpen (run : List (Nat × String)) : Prop :=
  run ≠ [] ∧ OpenBefore run ∧ isOpen (runText run) = true

/-- Runs of lines one after the other: each closes, but the last, which may reach the end
    still open. -/
inductive Runs : List (List (Nat × String)) → Prop
  | nil : Runs []
  | closes {run : List (Nat × String)} {runs : List (List (Nat × String))} :
      Closes run → Runs runs → Runs (run :: runs)
  | unfinished {run : List (Nat × String)} : StaysOpen run → Runs [run]

/-- The chunk of a run: its text and the number of its first line; none when the text is
    blank. -/
def chunkOf (run : List (Nat × String)) : Option (String × Nat) :=
  if Text.isBlankText (runText run) then none else run.head?.map fun l => (runText run, l.1)

/-! ## The text of a run -/

@[simp] theorem runText_nil : runText [] = "" := rfl

@[simp] theorem runText_singleton (l : Nat × String) : runText [l] = clean l.2 := rfl

theorem intercalate_append_singleton (s x : String) {xs : List String} (h : xs ≠ []) :
    s.intercalate (xs ++ [x]) = s.intercalate xs ++ s ++ x := by
  induction xs with
  | nil => exact absurd rfl h
  | cons a xs ih =>
    cases xs with
    | nil => simp [String.intercalate_cons_cons]
    | cons b xs =>
      have ih := ih (List.cons_ne_nil b xs)
      simp only [List.cons_append] at ih ⊢
      rw [String.intercalate_cons_cons, ih, String.intercalate_cons_cons]
      simp [String.append_assoc]

theorem runText_append_singleton {cur : List (Nat × String)} (l : Nat × String)
    (h : cur ≠ []) : runText (cur ++ [l]) = runText cur ++ "\n" ++ clean l.2 := by
  rw [runText, List.map_append, List.map_singleton,
    intercalate_append_singleton _ _ (by simpa using h)]
  rfl

theorem isEmpty_of_isOpen {t : String} (h : isOpen t = true) : t.isEmpty = false := by
  cases he : t.isEmpty
  · rfl
  · rw [String.isEmpty_iff] at he
    subst he
    exact absurd h (by decide)

/-- Adding a line to a run that is empty or open is what `join` does to its text. -/
theorem join_runText {cur : List (Nat × String)} (n : Nat) (line : String)
    (h : cur = [] ∨ isOpen (runText cur) = true) :
    join line (runText cur) =
      (runText (cur ++ [(n, line)]), isOpen (runText (cur ++ [(n, line)]))) := by
  rcases h with rfl | h
  · simp [join]
  · have hne : cur ≠ [] := by rintro rfl; exact absurd h (by decide)
    simp [join, isEmpty_of_isOpen h, runText_append_singleton _ hne]

/-! ## Prefixes of runs -/

/-- A line added to a run that is empty or open keeps every proper prefix open. -/
theorem OpenBefore.snoc {cur : List (Nat × String)} (h : OpenBefore cur)
    (hc : cur = [] ∨ isOpen (runText cur) = true) (l : Nat × String) :
    OpenBefore (cur ++ [l]) := by
  intro j hj hjl
  simp only [List.length_append, List.length_singleton] at hjl
  rcases Nat.lt_or_ge j cur.length with hlt | hge
  · rw [List.take_append_of_le_length hlt.le]
    exact h j hj hlt
  · have hj' : j = cur.length := by omega
    rw [List.take_left' hj'.symm]
    rcases hc with rfl | hc
    · simp at hj'; omega
    · exact hc

/-- A nonempty run followed by more lines, all of whose proper prefixes are open, is open. -/
theorem OpenBefore.open_of_append {a m : List (Nat × String)} (h : OpenBefore (a ++ m))
    (ha : a ≠ []) (hm : m ≠ []) : isOpen (runText a) = true := by
  have h1 : 0 < a.length := List.length_pos_of_ne_nil ha
  have h2 : a.length < (a ++ m).length := by
    simp only [List.length_append]
    have := List.length_pos_of_ne_nil hm
    omega
  have := h a.length h1 h2
  rwa [List.take_left' rfl] at this

theorem Closes.ne_nil {run : List (Nat × String)} (h : Closes run) : run ≠ [] := h.1

theorem StaysOpen.ne_nil {run : List (Nat × String)} (h : StaysOpen run) : run ≠ [] := h.1

/-- A run that closes is no proper prefix of a run whose proper prefixes are all open. -/
theorem Closes.eq_of_prefix {a b : List (Nat × String)} (ha : Closes a) (hb : OpenBefore b)
    (hab : a <+: b) : a = b := by
  obtain ⟨m, rfl⟩ := hab
  cases m with
  | nil => simp
  | cons x m =>
    have := hb.open_of_append ha.ne_nil (List.cons_ne_nil x m)
    rw [ha.2.2] at this
    exact absurd this (by decide)

/-- A run that closes is no prefix of a run that stays open. -/
theorem Closes.not_prefix {a b : List (Nat × String)} (ha : Closes a) (hb : StaysOpen b)
    (hab : a <+: b) : False := by
  have hab := ha.eq_of_prefix hb.2.1 hab
  subst hab
  exact absurd (ha.2.2.symm.trans hb.2.2) (by decide)

/-! ## The runs are unique -/

theorem Runs.ne_nil {runs : List (List (Nat × String))} (h : Runs runs) :
    ∀ run ∈ runs, run ≠ [] := by
  induction h with
  | nil => simp
  | closes hc _ ih =>
    intro run hr
    rcases List.mem_cons.1 hr with rfl | hr
    · exact hc.ne_nil
    · exact ih run hr
  | unfinished ho =>
    intro run hr
    rw [List.mem_singleton.1 hr]
    exact ho.ne_nil

theorem Runs.eq_nil_of_flatten {runs : List (List (Nat × String))} (h : Runs runs)
    (hf : runs.flatten = []) : runs = [] := by
  cases runs with
  | nil => rfl
  | cons run rest =>
    simp only [List.flatten_cons, List.append_eq_nil_iff] at hf
    exact absurd hf.1 (h.ne_nil run List.mem_cons_self)

/-- Of two runs that start the same lines, one is a prefix of the other. -/
theorem prefix_or_prefix {a b r s : List (Nat × String)} (h : a ++ r = b ++ s) :
    a <+: b ∨ b <+: a :=
  List.prefix_or_prefix_of_prefix (List.prefix_append a r) (h ▸ List.prefix_append b s)

/-- The lines split into runs in one way only: the first run ends at the first line where
    the brackets balance, or at the end of the lines. -/
theorem Runs.unique {r s : List (List (Nat × String))} (hr : Runs r) (hs : Runs s)
    (h : r.flatten = s.flatten) : r = s := by
  induction hr generalizing s with
  | nil => exact (hs.eq_nil_of_flatten h.symm).symm
  | @closes a runs ha _ ih =>
    cases hs with
    | nil => exact absurd (List.append_eq_nil_iff.1 h).1 ha.ne_nil
    | @closes b runs' hb hs' =>
      simp only [List.flatten_cons] at h
      have hab : a = b := by
        rcases prefix_or_prefix h with hp | hp
        · exact ha.eq_of_prefix hb.2.1 hp
        · exact (hb.eq_of_prefix ha.2.1 hp).symm
      subst hab
      rw [ih hs' (List.append_cancel_left h)]
    | @unfinished b hb =>
      simp only [List.flatten_cons, List.flatten_nil, List.append_nil] at h
      exact (ha.not_prefix hb (h ▸ List.prefix_append a _)).elim
  | @unfinished a ha =>
    cases hs with
    | nil => exact absurd (List.append_eq_nil_iff.1 h).1 ha.ne_nil
    | @closes b runs' hb _ =>
      simp only [List.flatten_cons, List.flatten_nil, List.append_nil] at h
      exact (hb.not_prefix ha (h ▸ List.prefix_append b _)).elim
    | @unfinished b hb =>
      simpa using h

/-! ## Gathering the runs -/

theorem openBefore_nil : OpenBefore [] := by
  intro j hj hjl
  simp at hjl

/-- The number a chunk gets when a line is added to the run `cur`: the number of the run's
    first line. -/
theorem head?_append_singleton {cur : List (Nat × String)} (hcur : cur = [] ∨ StaysOpen cur)
    {start : Nat} (hstart : ∀ l ∈ cur.head?, l.1 = start) (n : Nat) (line : String) :
    ∀ l ∈ (cur ++ [(n, line)]).head?, l.1 = if (runText cur).isEmpty then n else start := by
  rcases hcur with rfl | hcur
  · simp
  · obtain ⟨l, rest, rfl⟩ := List.exists_cons_of_ne_nil hcur.ne_nil
    simp only [List.cons_append, List.head?_cons, Option.mem_def, Option.some.injEq,
      forall_eq', isEmpty_of_isOpen hcur.2.2, Bool.false_eq_true, if_false]
    exact hstart l rfl

/-- The chunks gathered after a run `cur` that is empty or stays open, numbered `start` by
    its first line, are the runs of `cur` followed by the lines, blank runs left out. -/
theorem gatherFrom_runs (nls : List (Nat × String)) (cur : List (Nat × String))
    (hcur : cur = [] ∨ StaysOpen cur) (start : Nat) (hstart : ∀ l ∈ cur.head?, l.1 = start) :
    ∃ runs, Runs runs ∧ runs.flatten = cur ++ nls ∧
      gatherFrom (runText cur) start nls = runs.filterMap chunkOf := by
  induction nls generalizing cur start with
  | nil =>
    rcases hcur with rfl | hcur
    · exact ⟨[], .nil, rfl, rfl⟩
    · refine ⟨[cur], .unfinished hcur, by simp, ?_⟩
      obtain ⟨l, rest, rfl⟩ := List.exists_cons_of_ne_nil hcur.ne_nil
      have hl : l.1 = start := hstart l rfl
      by_cases hb : Text.isBlankText (runText (l :: rest))
      · simp [gatherFrom, chunkOf, hb]
      · simp [gatherFrom, chunkOf, hb, hl]
  | cons nl rest ih =>
    obtain ⟨n, line⟩ := nl
    have hopen : cur = [] ∨ isOpen (runText cur) = true := hcur.imp id (·.2.2)
    have hbefore : OpenBefore (cur ++ [(n, line)]) := by
      refine OpenBefore.snoc ?_ hopen (n, line)
      rcases hcur with rfl | hcur
      · exact openBefore_nil
      · exact hcur.2.1
    have hfirst := head?_append_singleton hcur hstart n line
    rw [gatherFrom, join_runText n line hopen]
    cases hmore : isOpen (runText (cur ++ [(n, line)])) with
    | true =>
      -- the line leaves the run open: it goes on with the next line
      obtain ⟨runs, hr, hf, hg⟩ := ih _ (.inr ⟨by simp, hbefore, hmore⟩) _ hfirst
      exact ⟨runs, hr, by simpa using hf, hg⟩
    | false =>
      -- the line closes the run: the next line starts a new one
      obtain ⟨runs, hr, hf, hg⟩ :=
        ih [] (.inl rfl) (if (runText cur).isEmpty then n else start) (by simp)
      rw [runText_nil] at hg
      refine ⟨(cur ++ [(n, line)]) :: runs, .closes ⟨by simp, hbefore, hmore⟩ hr,
        by simp [hf], ?_⟩
      obtain ⟨l, hl⟩ : ∃ l, (cur ++ [(n, line)]).head? = some l := by
        cases cur <;> simp
      have hl1 := hfirst l hl
      by_cases hb : Text.isBlankText (runText (cur ++ [(n, line)]))
      · simp only [Bool.false_eq_true, if_false, hb, if_true, List.filterMap_cons, chunkOf]
        exact hg
      · simp only [Bool.false_eq_true, if_false, hb, List.filterMap_cons, chunkOf, hl,
          Option.map_some, hl1]
        rw [hg]

/-! ## The lines of the chunks -/

/-- No line of a text holds a line feed. -/
theorem splitLinesFrom_no_feed {cur : List Char} (hc : '\n' ∉ cur) (cs : List Char) :
    ∀ l ∈ splitLinesFrom cur cs, '\n' ∉ l.toList := by
  fun_induction splitLinesFrom cur cs with
  | case1 => simp
  | case2 => simpa using hc
  | case3 cur rest ih | case4 cur rest _ ih | case5 cur rest ih =>
    simp only [List.mem_cons, forall_eq_or_imp, String.toList_ofList, List.mem_reverse]
    exact ⟨hc, ih (List.not_mem_nil)⟩
  | case6 cur c rest _ _ hn ih =>
    -- a character that is no line break joins the current line
    apply ih
    simp only [List.mem_cons, not_or]
    exact ⟨fun h => hn h.symm, hc⟩

theorem cutComment_sublist (cs : List Char) : List.Sublist (cutComment cs) cs := by
  fun_induction cutComment cs with
  | case1 rest => exact List.nil_sublist _
  | case2 c cs _ ih => exact ih.cons_cons c
  | case3 => exact List.Sublist.refl _

/-- Cleaning a line keeps some of its characters, in order. -/
theorem clean_sublist (line : String) : List.Sublist (clean line).toList line.toList := by
  rw [clean, String.toList_ofList, Text.dropTrailingBlanks]
  have h := ((List.dropWhile_suffix Text.isBlank).sublist.reverse :
    List.Sublist ((cutComment line.toList).reverse.dropWhile Text.isBlank).reverse _)
  rw [List.reverse_reverse] at h
  exact h.trans (cutComment_sublist _)

theorem subset_intercalate {sep x : List Char} {ls : List (List Char)} (hx : x ∈ ls) :
    x ⊆ sep.intercalate ls := by
  induction ls with
  | nil => simp at hx
  | cons a ls ih =>
    cases ls with
    | nil =>
      rw [List.mem_singleton.1 hx]
      simp
    | cons b ls =>
      rw [List.intercalate_cons_cons]
      rcases List.mem_cons.1 hx with rfl | hx
      · exact List.subset_append_of_subset_left _ (List.subset_append_left _ _)
      · exact List.subset_append_of_subset_right _ (ih hx)

/-- The lines of a run are read back from its text by cutting it at its line feeds. -/
theorem splitOn_runText {run : List (Nat × String)} (hne : run ≠ [])
    (hl : ∀ l ∈ run, '\n' ∉ l.2.toList) :
    (runText run).toList.splitOn '\n' = run.map fun l => (clean l.2).toList := by
  rw [runText, String.toList_intercalate, List.map_map, show "\n".toList = ['\n'] from rfl]
  apply List.splitOn_intercalate
  · intro x hx
    obtain ⟨l, hl', rfl⟩ := List.mem_map.1 hx
    exact fun h => hl l hl' ((clean_sublist _).subset h)
  · simpa using hne

/-- Every line of a run whose text is blank is blank. -/
theorem all_blank_of_blank {run : List (Nat × String)}
    (hb : Text.isBlankText (runText run) = true) :
    ∀ l ∈ run, (clean l.2).toList.all Text.isBlank = true := by
  intro l hl
  have hsub : (clean l.2).toList ⊆ (runText run).toList := by
    rw [runText, String.toList_intercalate, List.map_map]
    exact subset_intercalate (List.mem_map_of_mem hl)
  rw [List.all_eq_true]
  exact fun c hc => List.all_eq_true.1 hb c (hsub hc)

/-- The non-blank lines of the chunks of runs, in order, are the non-blank lines of the
    runs: a run left out is blank, and every line of it too. -/
theorem chunk_lines {runs : List (List (Nat × String))} (hne : ∀ run ∈ runs, run ≠ [])
    (hl : ∀ l ∈ runs.flatten, '\n' ∉ l.2.toList) :
    (((runs.filterMap chunkOf).map Prod.fst).flatMap fun c => c.toList.splitOn '\n').filter
        (fun cs => !cs.all Text.isBlank) =
      (runs.flatten.map fun l => (clean l.2).toList).filter (fun cs => !cs.all Text.isBlank) := by
  induction runs with
  | nil => rfl
  | cons run runs ih =>
    have ih := ih (fun r hr => hne r (List.mem_cons_of_mem _ hr))
      (fun l h => hl l (List.mem_append_right _ h))
    obtain ⟨l, rest, rfl⟩ := List.exists_cons_of_ne_nil (hne run List.mem_cons_self)
    by_cases hb : Text.isBlankText (runText (l :: rest))
    · -- a blank run is left out, and so are its lines
      have hnil : ((l :: rest).map fun l => (clean l.2).toList).filter
          (fun cs => !cs.all Text.isBlank) = [] := by
        rw [List.filter_eq_nil_iff]
        intro cs hcs
        obtain ⟨l', hl', rfl⟩ := List.mem_map.1 hcs
        simp [all_blank_of_blank hb l' hl']
      rw [List.filterMap_cons, chunkOf, if_pos hb, List.flatten_cons, List.map_append,
        List.filter_append, hnil, List.nil_append, ih]
    · have hsplit := splitOn_runText (List.cons_ne_nil l rest)
        (fun l' h => hl l' (List.mem_append_left _ h))
      rw [List.filterMap_cons, chunkOf, if_neg hb, List.head?_cons, Option.map_some,
        List.map_cons, List.flatMap_cons, List.filter_append, hsplit, ih, List.flatten_cons,
        List.map_append, List.filter_append]

/-! ## The chunks of a file -/

/-- The chunks of a file's text are its runs of lines. The lines, numbered from 1, split
    into runs in exactly one way: each run closes (every nonempty proper prefix of it,
    cleaned and joined by line feeds, opens more `(` and `{` than it closes, the whole run
    does not), but the last, which may reach the end of the file still open. The chunks
    are the runs whose text is not blank, in order, each with its text, its cleaned lines
    joined by line feeds, and the number of its first line. So chunk numbers increase, and
    the non-blank cleaned lines of the chunks are those of the file, in order, each once. -/
theorem ofText_runs (text : String) :
    ∃ runs, Runs runs ∧ runs.flatten.map Prod.snd = splitLines text ∧
      runs.flatten.map Prod.fst = List.range' 1 (splitLines text).length ∧
      ofText text = runs.filterMap chunkOf ∧
      (∀ runs', Runs runs' → runs'.flatten = runs.flatten → runs' = runs) ∧
      ((ofText text).map Prod.snd).Pairwise (· < ·) ∧
      (((ofText text).map Prod.fst).flatMap fun c => c.toList.splitOn '\n').filter
          (fun cs => !cs.all Text.isBlank) =
        ((splitLines text).map fun l => (clean l).toList).filter
          (fun cs => !cs.all Text.isBlank) := by
  obtain ⟨runs, hr, hf, hg⟩ := gatherFrom_runs
    (((List.range (splitLines text).length).map (· + 1)).zip (splitLines text))
    [] (.inl rfl) 1 (by simp)
  rw [List.nil_append] at hf
  have hlen : ((List.range (splitLines text).length).map (· + 1)).length =
      (splitLines text).length := by simp
  have hsnd : runs.flatten.map Prod.snd = splitLines text := by
    rw [hf]
    exact List.map_snd_zip (by omega)
  have hfst : runs.flatten.map Prod.fst = List.range' 1 (splitLines text).length := by
    rw [hf, List.map_fst_zip (by omega), List.range'_eq_map_range]
    exact List.map_congr_left fun x _ => Nat.add_comm x 1
  have hofText : ofText text = runs.filterMap chunkOf := hg
  -- the lines of the file hold no line feed, so the chunks' texts can be cut back into them
  have hfeed : ∀ l ∈ runs.flatten, '\n' ∉ l.2.toList := by
    intro l hl
    have hmem : l.2 ∈ splitLines text := hsnd ▸ List.mem_map_of_mem hl
    exact splitLinesFrom_no_feed List.not_mem_nil _ l.2 hmem
  refine ⟨runs, hr, hsnd, hfst, hofText, fun runs' hr' h => hr'.unique hr h,
    ofText_sorted text, ?_⟩
  rw [hofText, chunk_lines hr.ne_nil hfeed, ← hsnd, List.map_map]
  rfl

/-- A call over two lines closes at the second; a comment goes, blank lines make no chunk,
    and a lone carriage return breaks a line, so the unfinished call that ends the file is
    numbered 5. -/
example : ofText "f(1,  // first\n  2)\n\n\rg(x\r\n" = [("f(1,\n  2)", 1), ("g(x", 5)] := by
  decide

end Sugiru.Chunk
