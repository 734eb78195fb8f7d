import Sugiru.Syntax.Parser
import Sugiru.Syntax.Outline
import Sugiru.Eval
import Sugiru.Report

/-!
# Sessions

A session takes chunks of source one at a time and keeps one global scope for all of them.
What it does with a chunk depends on its mode: in `eval` mode the chunk is parsed and kept
as a pending program under its line number, until `run` evaluates the pending programs in
the order they were added; in `tokens` mode the chunk's tokens are listed; in `tree` mode
its syntax tree is shown. What is to be printed waits in a queue of results.

Adding under a line number that already has a pending program replaces that program in
its place. A run stops at the first fault; the program at fault is dropped, and those
after it stay pending.
-/

namespace Sugiru

/-- What a session does with each chunk. -/
inductive Mode where
  /-- Evaluate it and queue its value. -/
  | eval
  /-- Queue its tokens. -/
  | tokens
  /-- Queue its syntax tree. -/
  | tree
  deriving DecidableEq, Repr, Inhabited

/-- The mode of a name: `eval`, `tokens` or `ast`. -/
def Mode.ofName? : String → Option Mode
  | "eval" => some .eval
  | "tokens" => some .tokens
  | "ast" => some .tree
  | _ => none

/-- The diagnostic for a mode name that names no mode. -/
def Mode.unknown (name : String) : Diagnostic :=
  { message := "'" ++ name ++ "' is not a valid mode", culprit := name, showSpan := false }

/-- Why a session operation failed. -/
inductive Failure where
  /-- The chunk did not parse. -/
  | parse (source : String) (issues : List Issue)
  /-- A program stopped with a fault. -/
  | fault (f : Fault)
  /-- There was no result to take. -/
  | noResult
  deriving Inhabited

/-- The text of a failure. -/
def Failure.message : Failure → String
  | .parse source issues => (Diagnostic.unparsed source (issues.map Issue.message)).message
  | .fault f => f.message
  | .noResult => "pop from empty list"

/-- What a failure raises in a reporter. -/
def Failure.toRaised : Failure → Raised
  | .parse source issues => .diagnostic (Diagnostic.unparsed source (issues.map Issue.message))
  | .fault .tooDeep => .tooDeep
  | .fault f => .diagnostic { message := f.message, culprit := f.culprit }
  | .noResult => .foreign "IndexError" Failure.noResult.message

/-- A session: the file it reads, its mode, the scope store, the pending programs by line
    number in the order they were added, the queued results, and its reporter. -/
structure Session where
  path : String
  mode : Mode
  store : Store
  pending : List (Int × Program)
  results : List String
  reporter : Reporter
  deriving Inhabited

/-- Puts a program under line number `n`, in the place of one already there. -/
def putPending (ps : List (Int × Program)) (n : Int) (p : Program) : List (Int × Program) :=
  if ps.any (·.1 == n) then ps.map (fun q => if q.1 == n then (n, p) else q) else ps ++ [(n, p)]

namespace Session

/-- The name that stands for the keyboard as a file. -/
def shellPath : String := "<in>"

/-- A new session on `path`, which its reporter is told of. -/
def new (path : String) (mode : Mode) (reporter : Reporter) : Session :=
  ⟨path, mode, Store.empty, [], [], reporter.registerFile path⟩

/-- The line numbers of the pending programs, in order. -/
def pendingLines (s : Session) : List Int := s.pending.map (·.1)

/-- The warning for an illegal character. -/
def illegalWarning (c : String) : Diagnostic :=
  { message := "illegal character '" ++ c ++ "'", culprit := c, showSpan := false }

/-- Adds a chunk numbered `n`: the session afterwards, what was printed, and the failure
    when the chunk does not parse. The chunk stays the reporter's current line only when
    it fails. -/
def add (s : Session) (source : String) (n : Int) : Session × String × Option Failure :=
  let r := s.reporter.registerLine s.path source (some n)
  let toks := Token.scan source
  match s.mode with
  | .tokens =>
    let warnings := (toks.filter (·.kind == .illegal)).map (fun t => r.warning (illegalWarning t.text))
    ({ s with results := s.results ++ ["\n".intercalate (toks.map Token.render)],
              reporter := r.removeLine s.path }, String.join warnings, none)
  | .tree =>
    let parsed := Program.ofTokens toks
    if parsed.issues.isEmpty then
      ({ s with results := s.results ++ [parsed.program.display], reporter := r.removeLine s.path },
        "", none)
    else ({ s with reporter := r }, "", some (.parse source parsed.issues))
  | .eval =>
    let parsed := Program.ofTokens toks
    if parsed.issues.isEmpty then
      ({ s with pending := putPending s.pending n parsed.program,
                reporter := r.removeLine s.path }, "", none)
    else ({ s with reporter := r }, "", some (.parse source parsed.issues))

/-- Evaluates the given pending programs in order, queueing their values; stops at the
    first fault, with the program at fault dropped and its text the reporter's current
    line. -/
def runPending (s : Session) : List (Int × Program) → Session × Option Failure
  | [] => (s, none)
  | (n, p) :: rest =>
    let r := s.reporter.registerLine s.path p.render (some n)
    let (res, store) := p.run s.store
    let pending := s.pending.filter (·.1 != n)
    match res with
    | .error f => ({ s with store, pending, reporter := r }, some (.fault f))
    | .ok v =>
      runPending { s with store, pending, results := s.results ++ (v.map Value.inspect).toList,
                          reporter := r.removeLine s.path } rest

/-- Evaluates all pending programs in order. -/
def run (s : Session) : Session × Option Failure := s.runPending s.pending

/-- Takes the oldest queued result. -/
def pop (s : Session) : Except Failure (String × Session) :=
  match s.results with
  | r :: rest => .ok (r, { s with results := rest })
  | [] => .error .noResult

/-- Reports a failure through the session's reporter: the text written, the session
    afterwards, and what happens next. -/
def report (s : Session) (f : Failure) : String × Session × Outcome :=
  let (out, r, outcome) := s.reporter.handle f.toRaised
  (out, { s with reporter := r }, outcome)

end Session

end Sugiru
