import Sugiru.Text.Blank

/-!
# Chunks of source

Source is read line by line, and lines are grouped into chunks, each parsed on its own.
A line is first cleaned: it is cut at its first `//`, and trailing blanks are dropped.
A line that leaves more `(` and `{` open than it closes (counted over the whole chunk so
far) is continued by the next line, joined to it by a line feed.

For a file, the lines are the pieces between line breaks (`\n`, `\r\n` or `\r`), a chunk
is numbered by its first line, chunks that hold only blanks are left out, and a chunk
still open at the end of the file is kept, so that the parser can say what is missing.
-/

namespace Sugiru.Chunk

/-- A line cut at its first comment mark `//`. -/
def cutComment : List Char → List Char
  | '/' :: '/' :: _ => []
  | c :: cs => c :: cutComment cs
  | [] => []

/-- A line without its comment and trailing blanks. -/
def clean (line : String) : String :=
  String.ofList (Text.dropTrailingBlanks (cutComment line.toList))

/-- Whether a text opens more `(` and `{` than it closes with `)` and `}`. -/
def isOpen (text : String) : Bool :=
  let cs := text.toList
  decide (cs.count ')' + cs.count '\x7d' < cs.count '(' + cs.count '\x7b')

/-- A line added to the unfinished chunk `prev` (empty when there is none): the chunk
    text so far, and whether it needs another line. -/
def join (line prev : String) : String × Bool :=
  let text := if prev.isEmpty then clean line else prev ++ "\n" ++ clean line
  (text, isOpen text)

/-- The lines of a text, reversed characters of the current line in `cur`. A line break
    is `\n`, `\r\n` or `\r`; a break at the very end ends the last line and starts none. -/
def splitLinesFrom (cur : List Char) : List Char → List String
  | [] => if cur.isEmpty then [] else [String.ofList cur.reverse]
  | '\r' :: '\n' :: rest => String.ofList cur.reverse :: splitLinesFrom [] rest
  | '\r' :: rest => String.ofList cur.reverse :: splitLinesFrom [] rest
  | '\n' :: rest => String.ofList cur.reverse :: splitLinesFrom [] rest
  | c :: rest => splitLinesFrom (c :: cur) rest

/-- The lines of a text. -/
def splitLines (text : String) : List String := splitLinesFrom [] text.toList

/-- The chunks of numbered lines, each with the number of its first line, given the
    unfinished chunk `prev` and the number `start` of its first line. -/
def gatherFrom (prev : String) (start : Nat) : List (Nat × String) → List (String × Nat)
  | [] => if Text.isBlankText prev then [] else [(prev, start)]
  | (n, line) :: rest =>
    let first := if prev.isEmpty then n else start
    let (text, more) := join line prev
    if more then gatherFrom text first rest
    else if Text.isBlankText text then gatherFrom "" first rest
    else (text, first) :: gatherFrom "" first rest

/-- The chunks of a file's text, each with the number of its first line. -/
def ofText (text : String) : List (String × Nat) :=
  let lines := splitLines text
  gatherFrom "" 1 ((List.range lines.length).map (· + 1) |>.zip lines)

end Sugiru.Chunk
