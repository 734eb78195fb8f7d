import Sugiru.Session

/-!
# Command-line arguments

`sugiru [-h] [--mode {eval,tokens,ast}] [--no-color] [file]`. The arguments are read in
two passes.

The first pass says what each argument is. After the first `--` every argument is a
value. Otherwise an argument that does not start with `-`, is `-` alone, looks like a
negative number or holds a space is a value, unless it names an option. An option is
named written out, abbreviated to a prefix of its long name (`--mo`), with its value
after `=` (`--mode=ast`), or as `-h` run on into more letters (`-hh`); an abbreviation
that fits several options is refused here, before anything else is read. Anything else
that starts with `-` is an option the reader does not have.

The second pass takes the arguments in order. `--mode` takes the next argument when that
is a value; the first value that no option takes is the file, and with it the `--` right
after it; `-h` or `--help` stops at once with the help text. A mistake stops the reading
where it is met, and what is left over is refused, all of it at once, at the end.

The help text is laid out for a terminal 80 columns wide.
-/

namespace Sugiru.Cli

/-- The options of the command line. -/
structure Options where
  file : Option String
  mode : Mode
  deriving Inhabited

/-- The names of the modes, in the order the help text lists them. -/
def modeNames : List String := ["eval", "tokens", "ast"]

/-- The usage line. -/
def usage : String :=
  "usage: sugiru [-h] [--mode \x7b" ++ ",".intercalate modeNames ++ "\x7d] [--no-color] [file]"

/-- What `-h` and `--help` print. -/
def helpText : String :=
  usage ++ "\n\nSugiru interpreter\n\n" ++
  "positional arguments:\n" ++
  "  file                  file to interpret and run (if empty, goes to command-\n" ++
  "                        line mode)\n\n" ++
  "options:\n" ++
  "  -h, --help            show this help message and exit\n" ++
  "  --mode \x7b" ++ ",".intercalate modeNames ++ "\x7d\n" ++
  "                        print evaluated values (default), the token stream, or\n" ++
  "                        the syntax tree\n" ++
  "  --no-color            disable colored diagnostics\n"

/-- The options the reader knows. -/
inductive Flag where
  | help
  | mode
  | noColor
  deriving DecidableEq, Repr

/-- Every string that names an option, in the order the options were declared. -/
def optionStrings : List (String × Flag) :=
  [("-h", .help), ("--help", .help), ("--mode", .mode), ("--no-color", .noColor)]

/-- How a message names an option: all its strings, joined by `/`. -/
def Flag.display (f : Flag) : String :=
  "/".intercalate ((optionStrings.filter (·.2 == f)).map (·.1))

/-- What one argument is to the reader. -/
inductive Arg where
  /-- A value: a file name, an option's value, or anything after `--`. -/
  | value (text : String)
  /-- The first `--`, after which every argument is a value. -/
  | dashes
  /-- An option the reader does not have, as written. -/
  | unknown (text : String)
  /-- One of the reader's options, with the text written after it in the same argument:
      after `=` (`true`), or run on after a one-letter option (`false`). -/
  | option (flag : Flag) (attached : Option (Bool × String))
  deriving DecidableEq, Repr

/-- The option a string names as it is written. -/
def optionOf? (s : String) : Option Flag :=
  (optionStrings.find? (·.1 == s)).map (·.2)

/-- An argument cut at its first `=`: what stands before it, and what after, if there is
    one. -/
def splitAtEquals (s : String) : String × Option String :=
  match s.toList.span (· ≠ '=') with
  | (_, []) => (s, none)
  | (name, _ :: text) => (String.ofList name, some (String.ofList text))

/-- Whether characters are one or more decimal digits, of any script. -/
def isDigits (cs : List Char) : Bool :=
  !cs.isEmpty && cs.all (fun c => (Text.decimalValue? c).isSome)

/-- Whether an argument looks like a negative number: `-`, then digits, or digits with one
    `.` before the last of them; a line feed may end it. -/
def looksNegative (s : String) : Bool :=
  match s.toList with
  | '-' :: cs =>
    let body := if cs.getLast? = some '\n' then cs.dropLast else cs
    match body.span (fun c => (Text.decimalValue? c).isSome) with
    | (whole, []) => !whole.isEmpty
    | (_, '.' :: fraction) => isDigits fraction
    | _ => false
  | _ => false

/-- The options an argument starting with `-` may stand for, each with its string and
    the text attached to it. `--name=text` stands for every option whose string starts
    with `--name`, `text` attached after `=`. `-xtext` stands for the option `-x`, with
    `text` run on after it, and for every option whose string starts with all of it. -/
def candidates (s : String) : List (String × Flag × Option (Bool × String)) :=
  match s.toList with
  | '-' :: '-' :: _ =>
    let (name, text) := splitAtEquals s
    optionStrings.filterMap fun (o, f) =>
      if name.isPrefixOf o then some (o, f, text.map ((true, ·))) else none
  | cs =>
    optionStrings.filterMap fun (o, f) =>
      if o = String.ofList (cs.take 2) then some (o, f, some (false, String.ofList (cs.drop 2)))
      else if s.isPrefixOf o then some (o, f, none)
      else none

/-- What an argument other than the first `--` is, or the refusal of an abbreviation that
    fits several options. -/
def classify (s : String) : Except String Arg :=
  match s.toList with
  | '-' :: _ :: _ =>
    match optionOf? s, splitAtEquals s with
    | some f, _ => .ok (.option f none)
    | none, (name, some text) =>
      match optionOf? name with
      | some f => .ok (.option f (some (true, text)))
      | none => ofCandidates
    | none, (_, none) => ofCandidates
  | _ => .ok (.value s)
where
  /-- The reading of an argument that is no option's string. -/
  ofCandidates : Except String Arg :=
    match candidates s with
    | [(_, f, attached)] => .ok (.option f attached)
    | [] => .ok (if looksNegative s || s.contains ' ' then .value s else .unknown s)
    | fits => .error ("ambiguous option: " ++ s ++ " could match " ++
        ", ".intercalate (fits.map (·.1)))

/-- The first pass: what every argument is, or the first refusal. -/
def classifyAll : List String → Except String (List Arg)
  | [] => .ok []
  | "--" :: rest => .ok (.dashes :: rest.map .value)
  | s :: rest => do
    let arg ← classify s
    let args ← classifyAll rest
    pure (arg :: args)

/-- Why the command line stops before anything runs. -/
inductive Stop where
  /-- Help was asked for. -/
  | help
  /-- The arguments are wrong, for the reason given. -/
  | error (message : String)
  deriving DecidableEq, Repr

/-- The mode a value of `--mode` names, or the refusal of a name that names none. -/
def modeValue (name : String) : Except Stop Mode :=
  match Mode.ofName? name with
  | some m => .ok m
  | none => .error (.error ("argument --mode: invalid choice: " ++ Text.quote false name ++
      " (choose from " ++ ", ".intercalate (modeNames.map (Text.quote false)) ++ ")"))

/-- The refusal of text attached to an option that takes no value. -/
def ignored (f : Flag) (text : String) : Stop :=
  .error ("argument " ++ f.display ++ ": ignored explicit argument " ++ Text.quote false text)

/-- What runs on after `-h` in one argument, read as more one-letter options (and `-h` is
    the only one): the text refused, if any. A `-` or an `=` is refused with what follows
    it; at a letter of no option the reading stops, and help is shown. -/
def shortRun : List Char → Option String
  | [] => none
  | '-' :: cs => some (String.ofList ('-' :: cs))
  | 'h' :: '=' :: cs => some (String.ofList cs)
  | 'h' :: cs => shortRun cs
  | _ :: _ => none

/-- What the second pass has read: the options, whether the file has been given (perhaps
    as none, by a `--` with nothing after it), and the arguments left over, in order. -/
structure Reading where
  options : Options
  fileTaken : Bool
  extras : List String

namespace Reading

/-- Nothing read yet. -/
def start : Reading := ⟨⟨none, .eval⟩, false, []⟩

/-- The file is given. -/
def takeFile (r : Reading) (file : Option String) : Reading :=
  { r with options := { r.options with file }, fileTaken := true }

/-- An argument is left over. -/
def leaveOver (r : Reading) (s : String) : Reading :=
  { r with extras := r.extras ++ [s] }

/-- The mode is set. -/
def setMode (r : Reading) (mode : Mode) : Reading :=
  { r with options := { r.options with mode } }

end Reading

/-- The second pass, over the arguments still to read. -/
def consume (r : Reading) : List Arg → Except Stop Reading
  | [] => .ok r
  -- the file takes the first value no option takes, with the `--` right after it, or the
  -- value right after the first `--`; a `--` with nothing after it gives no file
  | .value v :: .dashes :: rest =>
    if r.fileTaken then consume ((r.leaveOver v).leaveOver "--") rest
    else consume (r.takeFile (some v)) rest
  | .value v :: rest =>
    if r.fileTaken then consume (r.leaveOver v) rest
    else consume (r.takeFile (some v)) rest
  | .dashes :: .value v :: rest =>
    if r.fileTaken then consume ((r.leaveOver "--").leaveOver v) rest
    else consume (r.takeFile (some v)) rest
  | .dashes :: rest =>
    if r.fileTaken then consume (r.leaveOver "--") rest
    else consume (r.takeFile none) rest
  | .unknown s :: rest => consume (r.leaveOver s) rest
  | .option .help none :: _ => .error .help
  | .option .help (some (false, text)) :: _ =>
    .error ((shortRun text.toList).elim .help (ignored .help))
  | .option .help (some (true, text)) :: _ => .error (ignored .help text)
  | .option .noColor none :: rest => consume r rest
  | .option .noColor (some (_, text)) :: _ => .error (ignored .noColor text)
  | .option .mode (some (_, text)) :: rest => do
    let m ← modeValue text
    consume (r.setMode m) rest
  | .option .mode none :: .value v :: rest => do
    let m ← modeValue v
    consume (r.setMode m) rest
  | .option .mode none :: _ => .error (.error "argument --mode: expected one argument")

/-- The options the arguments give, or why the command line stops. -/
def parseArgs (args : List String) : Except Stop Options := do
  let parsed ← (classifyAll args).mapError .error
  let r ← consume .start parsed
  if r.extras.isEmpty then pure r.options
  else throw (.error ("unrecognized arguments: " ++ " ".intercalate r.extras))

end Sugiru.Cli
