import Mathlib
import Sugiru.Script
import Sugiru.Cli

/-!
# The command line

What the arguments of a command line give, and what becomes of the file they name.

Main results:

* `Cli.parseArgs_values`: arguments none of which starts with `-` name the file, when
  there is one; when there are more, all but the first are refused together.
* `Script.start_eq`: a command line that names the shell's input as its file is refused
  with one line and exit status 1; any other file is run.
-/

namespace Sugiru

namespace Cli

/-! ## Arguments that are values -/

/-- An argument that does not start with `-` is a value. -/
theorem classify_value {s : String} (h : s.toList.head? ≠ some '-') :
    classify s = .ok (.value s) := by
  unfold classify
  split
  · rename_i c cs hs
    simp [hs] at h
  · rfl

theorem classifyAll_values {args : List String} (h : ∀ s ∈ args, s.toList.head? ≠ some '-') :
    classifyAll args = .ok (args.map .value) := by
  induction args with
  | nil => rfl
  | cons s rest ih =>
    have hs : s ≠ "--" := by
      rintro rfl
      exact h _ List.mem_cons_self (by decide)
    rw [classifyAll.eq_3 s rest hs, classify_value (h s List.mem_cons_self),
      ih (fun t ht => h t (List.mem_cons_of_mem s ht))]
    rfl

/-- Once the file is given, values are left over, in order. -/
theorem consume_values_of_taken {r : Reading} (h : r.fileTaken = true) (vs : List String) :
    consume r (vs.map .value) = .ok { r with extras := r.extras ++ vs } := by
  induction vs generalizing r with
  | nil => simp [consume]
  | cons v vs ih =>
    have hr : (r.leaveOver v).fileTaken = true := h
    -- the value after a value is no `--`, so the plain rule for values applies
    cases vs with
    | nil => simp [consume, h, Reading.leaveOver]
    | cons w ws =>
      rw [List.map_cons, List.map_cons, consume.eq_3 r v _ (fun _ hm => by simp at hm), if_pos h,
        ← List.map_cons, ih hr]
      simp [Reading.leaveOver]

/-- Arguments none of which starts with `-` name the file: the first of them, and no more
    may follow it. -/
theorem parseArgs_values {f : String} {rest : List String}
    (h : ∀ s ∈ f :: rest, s.toList.head? ≠ some '-') :
    parseArgs (f :: rest) =
      if rest = [] then .ok ⟨some f, .eval⟩
      else .error (.error ("unrecognized arguments: " ++ " ".intercalate rest)) := by
  have hr : (Reading.start.takeFile (some f)).fileTaken = true := rfl
  have hc : consume .start ((f :: rest).map .value) =
      .ok { Reading.start.takeFile (some f) with extras := rest } := by
    cases rest with
    | nil => simp [consume, Reading.start, Reading.takeFile]
    | cons w ws =>
      rw [List.map_cons, List.map_cons, consume.eq_3 _ f _ (fun _ hm => by simp at hm),
        if_neg (by simp [Reading.start]), ← List.map_cons, consume_values_of_taken hr]
      rfl
  unfold parseArgs
  rw [classifyAll_values h]
  simp only [Except.mapError, bind, Except.bind, hc]
  cases rest with
  | nil => rfl
  | cons w ws => rfl

example : parseArgs ["a", "b", "c"] = .error (.error "unrecognized arguments: b c") := by rfl

end Cli

/-! ## The file a command line names -/

/-- The shell's name for its input is no file's name: a command line that names it is
    refused with one line and exit status 1, whatever the file holds; any other file is
    run. -/
theorem Script.start_eq (path : String) (mode : Mode) (content : Option String) :
    Script.start path mode content =
      if path = Session.shellPath then ("error: '<in>' is a reserved filename\n", 1)
      else Script.run path mode content := by
  unfold Script.start
  split
  · -- the file is known, working on no line, so the report has no header
    have hr : (Reporter.empty true).registerFile path = ⟨true, [⟨path, "", none⟩]⟩ := by
      simp [Reporter.registerFile, Reporter.setLine, Reporter.empty]
    have ha : (⟨true, [⟨path, "", none⟩]⟩ : Reporter).active = [] := by
      simp [Reporter.active]
    rw [hr]
    unfold Reporter.errorText
    rw [ha]
    decide
  · rfl

end Sugiru
