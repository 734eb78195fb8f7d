import Sugiru.Text.Template

/-!
# Reports

A diagnostic is a message together with the source snippet it is about (its culprit) and
the span of the snippet to mark. A reporter keeps, for each file it was told about, the
line that file is working on; an error report is headed by those lines, and a warning is
prefixed with the place of the last of them.

Written form of an error: for each file with a line, `  File '<file>', line <n>:` and the
line indented by four spaces, all after `Traceback:` when there is more than one; then
`[internal] ` for an internal error; then `error: ` and the message. When the diagnostic
shows its span, the culprit is not empty and the error is not internal, the culprit
follows on a line of its own after two spaces, and under it a caret at the start of the
span with a tilde for each further character of it.

Reports are written as plain text, as they are shown when colour is off.
-/

namespace Sugiru

/-- Positions in a text of `n` characters counted as slices count them: a negative
    position counts from the end, and positions are held to `0..n`. -/
def Text.clampIndex (n : Nat) (i : Int) : Nat :=
  let j : Int := if i < 0 then i + n else i
  (max 0 (min j n)).toNat

/-- The characters of `cs` from position `a` up to position `b`, positions read by
    `Text.clampIndex`. -/
def Text.slice (cs : List Char) (a b : Int) : List Char :=
  let i := Text.clampIndex cs.length a
  let j := Text.clampIndex cs.length b
  (cs.drop i).take (j - i)

/-- A message with the snippet it is about. -/
structure Diagnostic where
  /-- The text of the message. -/
  message : String
  /-- The snippet at fault; empty when there is none. -/
  culprit : String := ""
  /-- Where the marked span of the culprit starts. -/
  start : Int := 0
  /-- Where the marked span ends; `none` or `-1` for the end of the culprit. -/
  stop : Option Int := none
  /-- Whether the culprit and its span are shown. -/
  showSpan : Bool := true
  /-- Whether the message is about a fault of the interpreter itself. -/
  internal : Bool := false
  deriving Inhabited

namespace Diagnostic

/-- The report on a source that did not parse: `could not parse '<source>'`, then each
    of the parser's messages on a line of its own after `  - `. -/
def unparsed (source : String) (messages : List String) : Diagnostic :=
  { message := "could not parse '" ++ source ++ "'" ++
      String.join (messages.map ("\n  - " ++ ·)),
    culprit := source, showSpan := false }

/-- The end of the marked span: the end asked for, the end of the culprit for `none` or
    `-1`, and never before one past the start. -/
def spanEnd (d : Diagnostic) : Int :=
  let stop : Int := match d.stop with
    | none => d.culprit.length
    | some e => if e = -1 then d.culprit.length else e
  max stop (d.start + 1)

/-- The culprit on one line and the marker under its span on the next. -/
def marker (d : Diagnostic) : String :=
  let cs := d.culprit.toList
  let e := d.spanEnd
  let shown := Text.slice cs 0 d.start ++ Text.slice cs d.start e ++ Text.slice cs e cs.length
  "  " ++ String.ofList shown ++ "\n" ++ "  " ++
    String.ofList (List.replicate d.start.toNat ' ') ++ "^" ++
    String.ofList (List.replicate (e - d.start - 1).toNat '~')

/-- The lines that follow a diagnostic's message: the marker when it is shown. -/
def detail (d : Diagnostic) : String :=
  if d.showSpan && !d.culprit.isEmpty && !d.internal then d.marker ++ "\n" else ""

end Diagnostic

/-- A file a reporter knows of, with the line it is working on (empty for none) and that
    line's number. -/
structure Frame where
  file : String
  line : String
  num : Option Int
  deriving DecidableEq, Repr, Inhabited

/-- The text of a line number; `None` when there is none. -/
def Frame.numText (fr : Frame) : String :=
  match fr.num with
  | some n => toString n
  | none => "None"

/-- Files in the order they were first named, each with its current line; and whether an
    error ends the run. -/
structure Reporter where
  fatal : Bool
  frames : List Frame
  deriving Inhabited

/-- What a reporter does with what was raised inside it. -/
inductive Outcome where
  /-- Reported, and the run goes on. -/
  | suppressed
  /-- Reported, and the run ends with exit status 1. -/
  | exit
  /-- Reported, and raised on to the caller. -/
  | propagate
  deriving DecidableEq, Repr, Inhabited

/-- What can be raised inside a reporter: a diagnostic, an interrupt from the keyboard,
    a recursion too deep, or an error of another kind, which is the interpreter's own. -/
inductive Raised where
  | diagnostic (d : Diagnostic)
  | interrupt
  | tooDeep
  | foreign (kind message : String)
  deriving Inhabited

/-- The diagnostic reported for what was raised. -/
def Raised.toDiagnostic : Raised → Diagnostic
  | .diagnostic d => d
  | .interrupt => { message := "keyboard interrupt" }
  | .tooDeep => { message := "maximum recursion depth exceeded" }
  | .foreign kind msg =>
    { message := "unknown error: '" ++ kind ++ ": " ++ msg ++ "'",
      culprit := kind ++ ": " ++ msg, internal := true }

/-- What a template fault raises: an error of the interpreter's own. -/
def Text.TemplateFault.toRaised (f : Text.TemplateFault) : Raised := .foreign f.kind f.message

/-- A diagnostic from a message template and its arguments, the first argument being
    the culprit. Filling the template may raise an error of the interpreter's own, and so
    does a template given no argument to be its culprit. -/
def Diagnostic.ofTemplate (template : String) (args : List String) (start : Int)
    (stop : Option Int) (showSpan internal : Bool) : Except Raised Diagnostic :=
  match Text.fill template args, args with
  | .error f, _ => .error f.toRaised
  | .ok _, [] => .error (.foreign "IndexError" "list index out of range")
  | .ok message, culprit :: _ => .ok { message, culprit, start, stop, showSpan, internal }

/-- The diagnostic of an evaluation error: the template's first field takes the text of
    the node at fault, or the empty text when there is none, and the later fields take
    the details; the span, the whole node, is shown exactly when there is a node. -/
def Diagnostic.ofEvaluation (template : String) (node : Option String) (details : List String) :
    Except Raised Diagnostic :=
  Diagnostic.ofTemplate template (node.getD "" :: details) 0 none node.isSome false

/-- The template of the report on a source that did not parse: a field for the source,
    then each of the parser's messages after `\n  - `, its braces doubled, since messages
    quote brace tokens. -/
def Diagnostic.unparsedTemplate (messages : List String) : String :=
  messages.foldl (fun msg e => msg ++ "\n  - " ++ Text.doubleBraces e)
    "could not parse '\x7b\x7d'"

/-- The report on a source that did not parse, built from its template filled with the
    source, which is its culprit, and shown without a span. -/
def Diagnostic.ofUnparsed (source : String) (messages : List String) : Except Raised Diagnostic :=
  Diagnostic.ofTemplate (Diagnostic.unparsedTemplate messages) [source] 0 none false false

namespace Reporter

/-- A reporter that knows no file. -/
def empty (fatal : Bool) : Reporter := ⟨fatal, []⟩

/-- Sets the line of `file`, in its old place if it is known and last otherwise. -/
def setLine (r : Reporter) (file line : String) (num : Option Int) : Reporter :=
  let fr : Frame := ⟨file, line, num⟩
  if r.frames.any (·.file == file) then
    { r with frames := r.frames.map (fun f => if f.file == file then fr else f) }
  else { r with frames := r.frames ++ [fr] }

/-- Makes `file` known, working on no line. -/
def registerFile (r : Reporter) (file : String) : Reporter := r.setLine file "" none

/-- Records that `file` is working on `line`, numbered `num`. -/
def registerLine (r : Reporter) (file line : String) (num : Option Int) : Reporter :=
  r.setLine file line num

/-- Records that `file` is done with its line. -/
def removeLine (r : Reporter) (file : String) : Reporter := r.setLine file "" none

/-- The files working on a line, in order. -/
def active (r : Reporter) : List Frame := r.frames.filter (fun f => !f.line.isEmpty)

/-- Every file done with its line. -/
def clear (r : Reporter) : Reporter :=
  { r with frames := r.frames.map (fun f => { f with line := "", num := none }) }

/-- The written form of a warning. -/
def warning (r : Reporter) (d : Diagnostic) : String :=
  let place := match r.active.getLast? with
    | some fr => fr.file ++ ":" ++ fr.numText ++ ": "
    | none => ""
  place ++ "warning: " ++ d.message ++ "\n" ++ d.detail

/-- The written form of an error. -/
def errorText (r : Reporter) (d : Diagnostic) : String :=
  let frames := r.active
  let lines := String.join (frames.map (fun fr =>
    "  File '" ++ fr.file ++ "', line " ++ fr.numText ++ ":\n    " ++ fr.line ++ "\n"))
  let header := if frames.length > 1 then "Traceback:\n" ++ lines else lines
  let header := if d.internal then header ++ "[internal] " else header
  header ++ "error: " ++ d.message ++ "\n" ++ d.detail

/-- Reports what was raised: the text written, the reporter afterwards, and what happens
    next. A fatal reporter ends the run and keeps its lines; any other one forgets them,
    goes on after a diagnostic, and raises an error of another kind on. -/
def handle (r : Reporter) (x : Raised) : String × Reporter × Outcome :=
  let out := r.errorText x.toDiagnostic
  if r.fatal then (out, r, .exit)
  else
    match x with
    | .foreign .. => (out, r.clear, .propagate)
    | _ => (out, r.clear, .suppressed)

/-- A block run inside the reporter: it issues warnings in order, each a diagnostic or
    what was raised while building it, and then perhaps raises something. The text
    written, the reporter afterwards, and what happened to what was raised (`none` when
    nothing was). -/
def guard (r : Reporter) : List (Except Raised Diagnostic) → Option Raised →
    String × Reporter × Option Outcome
  | [], none => ("", r, none)
  | [], some x => let (out, r, o) := r.handle x; (out, r, some o)
  | .error x :: _, _ => let (out, r, o) := r.handle x; (out, r, some o)
  | .ok d :: rest, x =>
    let (out, r, o) := r.guard rest x
    (r.warning d ++ out, r, o)

end Reporter

end Sugiru
