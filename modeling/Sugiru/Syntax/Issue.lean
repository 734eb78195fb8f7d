import Sugiru.Token

/-!
# Parse issues

What the parser reports when it meets something it cannot use. Parsing never stops at an
issue: it records it, leaves a hole or drops the statement, and goes on.
-/

namespace Sugiru

/-- A problem the parser met. -/
inductive Issue where
  /-- The next token should have had kind `want`; `found` stood there instead. -/
  | expected (want : TokenKind) (found : Token)
  /-- No expression can start with a token of this kind. -/
  | noOperand (kind : TokenKind)
  /-- An integer literal denotes a number above the largest signed 64-bit integer. -/
  | intRange (text : String)
  deriving DecidableEq, Repr, Inhabited

/-- The text of an issue. -/
def Issue.message : Issue → String
  | .expected want found =>
    "expected next token to be " ++ want.name ++ ", got " ++ found.kind.name ++ " ('" ++
      found.text ++ "') instead"
  | .noOperand kind => "no prefix parse function for " ++ kind.name ++ " found"
  | .intRange text => "could not parse '" ++ text ++ "' as integer"

end Sugiru
