/-!
# Tokens

A token is the smallest piece of Sugiru source: a kind paired with the text it was read
from. The kinds form a closed set. Each kind has the name that diagnostics print
(`TokenKind.name`); for operators and delimiters that name is the symbol itself.
-/

namespace Sugiru

/-- The kinds of token. Keywords are read like names and then looked up. -/
inductive TokenKind where
  | illegal | eof | ident | int
  | assign | plus | minus | bang | asterisk | slash | lt | gt | eq | notEq
  | comma | semicolon | lparen | rparen | lbrace | rbrace
  | kwFn | kwLet | kwTrue | kwFalse | kwIf | kwElse | kwReturn
  deriving DecidableEq, Repr, Inhabited

namespace TokenKind

/-- The name of a kind in diagnostics and in the printed token stream. -/
def name : TokenKind → String
  | illegal => "ILLEGAL" | eof => "EOF" | ident => "IDENT" | int => "INT"
  | assign => "=" | plus => "+" | minus => "-" | bang => "!" | asterisk => "*"
  | slash => "/" | lt => "<" | gt => ">" | eq => "==" | notEq => "!="
  | comma => "," | semicolon => ";" | lparen => "(" | rparen => ")"
  | lbrace => "\x7b" | rbrace => "\x7d"
  | kwFn => "FUNCTION" | kwLet => "LET" | kwTrue => "TRUE" | kwFalse => "FALSE"
  | kwIf => "IF" | kwElse => "ELSE" | kwReturn => "RETURN"

/-- The kind of a word: its keyword if it is one, a name otherwise. -/
def ofWord : String → TokenKind
  | "fn" => kwFn | "let" => kwLet | "true" => kwTrue | "false" => kwFalse
  | "if" => kwIf | "else" => kwElse | "return" => kwReturn
  | _ => ident

/-- The kind of a one-character operator or delimiter, if the character is one. -/
def ofSymbol? : Char → Option TokenKind
  | '=' => some assign | '+' => some plus | '-' => some minus | '!' => some bang
  | '*' => some asterisk | '/' => some slash | '<' => some lt | '>' => some gt
  | ',' => some comma | ';' => some semicolon | '(' => some lparen | ')' => some rparen
  | '\x7b' => some lbrace | '\x7d' => some rbrace
  | _ => none

end TokenKind

/-- A token: its kind and the source text it was read from. -/
structure Token where
  kind : TokenKind
  text : String
  deriving DecidableEq, Repr, Inhabited

namespace Token

/-- The token that stands after the last one: end of input, with empty text. -/
def eof : Token := ⟨.eof, ""⟩

/-- The printed form of a token, `KIND(text)`. -/
def render (t : Token) : String := t.kind.name ++ "(" ++ t.text ++ ")"

end Token

end Sugiru
