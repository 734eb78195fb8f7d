import Sugiru.Chunk
import Sugiru.Session

/-!
# Running a script

`Script.run` runs the text of a source file. The text is cut into chunks, and every chunk
is added to a session first, in order; a chunk that does not parse is reported and ends
the run before anything is evaluated. Then all chunks are evaluated, the results printed
one a line, and a fault, if one stopped the evaluation, reported after them. A report
ends the run with exit status 1; otherwise it is 0.

`Script.start` runs the file a command line names. The shell's own name for its input is
no file's name: a file of that name is refused before it is read.
-/

namespace Sugiru

namespace Script

/-- The report on a file that could not be read. -/
def unreadable (path : String) : Diagnostic :=
  { message := "'" ++ path ++ "' could not be opened", culprit := path, showSpan := false }

/-- Adds the chunks to a session in order, each under its number: the session, what was
    printed, and the failure that stopped the adding, if any. -/
def addAll (s : Session) : List (String × Nat) → Session × String × Option Failure
  | [] => (s, "", none)
  | (text, n) :: rest =>
    let (s, out, failure) := s.add text n
    match failure with
    | some f => (s, out, some f)
    | none =>
      let (s, more, failure) := addAll s rest
      (s, out ++ more, failure)

/-- Runs a file's text, `none` when the file could not be read: what is printed and the
    exit status. -/
def run (path : String) (mode : Mode) (content : Option String) : String × Nat :=
  let reporter := (Reporter.empty true).registerFile path
  match content with
  | none => (reporter.errorText (unreadable path), 1)
  | some text =>
    let (s, warned, failure) := addAll (Session.new path mode reporter) (Chunk.ofText text)
    match failure with
    | some f => (warned ++ (s.report f).1, 1)
    | none =>
      let (s, failure) := s.run
      let printed := String.join (s.results.map (· ++ "\n"))
      match failure with
      | some f => (warned ++ printed ++ (s.report f).1, 1)
      | none => (warned ++ printed, 0)

/-- The report on a file named as the shell's input. -/
def reserved : Diagnostic := { message := "'" ++ Session.shellPath ++ "' is a reserved filename" }

/-- Runs the file a command line names, `content` being its text as `run` takes it; the
    shell's own name is refused whatever the content. -/
def start (path : String) (mode : Mode) (content : Option String) : String × Nat :=
  if path = Session.shellPath then
    (((Reporter.empty true).registerFile path).errorText reserved, 1)
  else run path mode content

end Script

end Sugiru
