import Sugiru.Shell
import Sugiru.Script
import Sugiru.Cli

/-!
# The command line

Reads the arguments (`Cli.parseArgs`). Asked for help, prints the help text and exits with
status 0; given wrong arguments, prints the usage line and what is wrong to standard error
and exits with status 2. With a file, runs it and exits with status 1 after a reported
error, 0 otherwise. Without one, starts the shell on standard input, greeting the user by
name. Output is plain text, so `--no-color` changes nothing.
-/

namespace Sugiru.Cli

/-- The real user id in a process status listing: the first number of its `Uid:` line. -/
def statusUid? (status : String) : Option Nat :=
  (status.splitOn "\n").findSome? fun line =>
    if line.startsWith "Uid:" then
      (((line.drop 4).toString.split Char.isWhitespace).toList.map (·.toString)).findSome?
        String.toNat?
    else none

/-- The name the password database gives a user id: the first entry whose third field is
    that id. -/
def passwdName? (uid : Nat) (passwd : String) : Option String :=
  (passwd.splitOn "\n").findSome? fun entry =>
    match entry.splitOn ":" with
    | name :: _ :: id :: _ => if id.toNat? = some uid then some name else none
    | _ => none

/-- The name of the user running the shell: the first of `LOGNAME`, `USER`, `LNAME` and
    `USERNAME` that is set and not empty, else the password database's name for the
    process's user, else `unknown`. -/
def userName : IO String := do
  for key in ["LOGNAME", "USER", "LNAME", "USERNAME"] do
    if let some v ← IO.getEnv key then
      if !v.isEmpty then return v
  let read (path : String) : IO String := try IO.FS.readFile path catch _ => pure ""
  let uid := statusUid? (← read "/proc/self/status")
  let passwd ← read "/etc/passwd"
  return (uid.bind fun id => passwdName? id passwd).getD "unknown"

/-- A line read from standard input without its line feed; `EOF` at the end of input. -/
def readLine (stdin : IO.FS.Stream) : IO String := do
  let line ← stdin.getLine
  if line.isEmpty then return "EOF"
  let cs := line.toList
  return String.ofList (if cs.getLast? == some '\n' then cs.dropLast else cs)

/-- The shell's read loop: prompts, reads a line, prints what the shell prints, until it
    stops. -/
partial def loop (stdin stdout : IO.FS.Stream) (sh : Shell) : IO Unit := do
  stdout.putStr sh.prompt
  stdout.flush
  let line ← readLine stdin
  let (sh, out, stop) := sh.feed line
  stdout.putStr out
  stdout.flush
  if !stop then loop stdin stdout sh

end Sugiru.Cli

open Sugiru in
/-- Runs the interpreter on the command line's arguments. -/
def main (args : List String) : IO UInt32 := do
  match Cli.parseArgs args with
  | .error .help =>
    IO.print Cli.helpText
    return 0
  | .error (.error msg) =>
    IO.eprintln Cli.usage
    IO.eprintln ("sugiru: error: " ++ msg)
    return 2
  | .ok opts =>
    match opts.file with
    | some path =>
      let content ← if path = Session.shellPath then pure none
        else try some <$> IO.FS.readFile path catch _ => pure none
      let (out, code) := Script.start path opts.mode content
      IO.print out
      return code.toUInt32
    | none =>
      let stdout ← IO.getStdout
      stdout.putStrLn (Shell.banner (← Cli.userName))
      let session := Session.new Session.shellPath opts.mode (Reporter.empty false)
      Cli.loop (← IO.getStdin) stdout (Shell.new session)
      return 0
