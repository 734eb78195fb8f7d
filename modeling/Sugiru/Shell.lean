import Sugiru.Chunk
import Sugiru.Session

/-!
# The shell

The shell reads source a line at a time. A line that leaves a chunk open waits for the
next one, and the prompt changes from `>> ` to `.. ` meanwhile. A finished chunk is added
to the session under the number of its last line and run at once, and the queued results
are printed; an error is reported, and the shell goes on.

Three lines are commands rather than source. `help` and `exit`, alone on a line apart from
blanks and with no chunk open, print a short introduction and stop the shell respectively;
`EOF` exactly, which is what the end of input reads as, stops it even inside an open
chunk.
Every other line counts towards the line numbers, blank lines and continued lines too.
-/

namespace Sugiru

/-- A shell: its session, the chunk still open (empty when none is), and the number of
    source lines read. -/
structure Shell where
  session : Session
  openChunk : String
  lineNo : Nat
  deriving Inhabited

namespace Shell

/-- A shell over a session, with no line read. -/
def new (session : Session) : Shell := ⟨session, "", 0⟩

/-- The prompt: `.. ` while a chunk is open, `>> ` otherwise. -/
def prompt (sh : Shell) : String := if sh.openChunk.isEmpty then ">> " else ".. "

/-- The introduction `help` prints. -/
def helpText : String :=
  "Welcome to the sugiru interpreter!\n\n" ++
  "Sugiru is a small expression language with integers, booleans, let bindings, \n" ++
  "if/else, and first-class functions with closures.\n\n" ++
  "Try it out by typing 'let add = fn(a, b) \x7b a + b \x7d;'. This will bind a \n" ++
  "function to the name 'add'. Next, try typing 'add(2, 3)', giving 5 as the \n" ++
  "result. Type 'exit' on a line of its own or press Ctrl-D to leave."

/-- The banner shown when the shell starts for `user`. -/
def banner (user : String) : String :=
  "[ SUGIRU REPL MODE : USER \x7b" ++ user ++ "\x7d ]\nType 'help' for more information."

/-- The queued results printed one a line, and the session with its queue empty. -/
def flush (s : Session) : String × Session :=
  (String.join (s.results.map (· ++ "\n")), { s with results := [] })

/-- A finished chunk, numbered `n`, added and run: what is printed and the session
    afterwards. -/
def runChunk (s : Session) (text : String) (n : Nat) : String × Session :=
  let (s, warned, failure) := s.add text n
  match failure with
  | some f =>
    let (out, s, _) := s.report f
    (warned ++ out, s)
  | none =>
    let (s, failure) := s.run
    match failure with
    | some f =>
      let (out, s, _) := s.report f
      (warned ++ out, s)
    | none =>
      let (out, s) := flush s
      (warned ++ out, s)

/-- A line of source: the shell afterwards and what it printed. -/
def source (sh : Shell) (line : String) : Shell × String :=
  let n := sh.lineNo + 1
  let (text, more) := Chunk.join line sh.openChunk
  if more then ({ sh with lineNo := n, openChunk := text }, "")
  else if Text.isBlankText text then ({ sh with lineNo := n, openChunk := "" }, "")
  else
    let (out, s) := runChunk sh.session text n
    ({ sh with session := s, lineNo := n, openChunk := "" }, out)

/-- One line read: the shell afterwards, what it printed, and whether it stops. -/
def feed (sh : Shell) (line : String) : Shell × String × Bool :=
  if line = "EOF" then (sh, "\n", true)
  else
    let word := Text.trim line
    if sh.openChunk.isEmpty && word = "help" then (sh, helpText ++ "\n", false)
    else if sh.openChunk.isEmpty && word = "exit" then (sh, "", true)
    else
      let (sh, out) := sh.source line
      (sh, out, false)

end Shell

end Sugiru
