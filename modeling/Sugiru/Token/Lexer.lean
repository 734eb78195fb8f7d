import Sugiru.Token

/-!
# The lexer

`Token.scan` reads source text into tokens. It never fails: blanks (space, tab, carriage
return, line feed) separate tokens and are dropped, a word is a maximal run of ASCII
letters and underscores, a number a maximal run of ASCII digits, `==` and `!=` are read
as one token, and any other character is a token of its own, illegal unless it is an
operator or delimiter.

`Token.next` reads one token, as each request for the next token does; the scan asks for
tokens until the end of input comes. Every other token takes at least one character off
the input (`Token.length_next_lt`), which is what makes the scan terminate.
-/

namespace Sugiru

namespace Token

/-- Characters that may stand in a word: ASCII letters and the underscore. -/
def isWordChar (c : Char) : Bool := c.isAlpha || c == '_'

/-- The token that starts with the character `c`, which is no blank, and the input after
    it: a maximal word or number, `==` or `!=`, or `c` alone. -/
def read (c : Char) (cs : List Char) : Token × List Char :=
  if isWordChar c then
    let word := String.ofList (c :: cs.takeWhile isWordChar)
    (⟨TokenKind.ofWord word, word⟩, cs.dropWhile isWordChar)
  else if c.isDigit then
    (⟨.int, String.ofList (c :: cs.takeWhile Char.isDigit)⟩, cs.dropWhile Char.isDigit)
  else
    match c, cs with
    | '=', '=' :: rest => (⟨.eq, "=="⟩, rest)
    | '!', '=' :: rest => (⟨.notEq, "!="⟩, rest)
    | c, cs => (⟨(TokenKind.ofSymbol? c).getD .illegal, String.singleton c⟩, cs)

theorem length_read_le (c : Char) (cs : List Char) : (read c cs).2.length ≤ cs.length := by
  unfold read
  split
  · exact (List.dropWhile_suffix _).length_le
  · split
    · exact (List.dropWhile_suffix _).length_le
    · split <;> simp

/-- The next token of the unread input `cs`, and the input left after it. The blanks before
    the token are skipped; once the input is used up, the token is the end of input. -/
def next (cs : List Char) : Token × List Char :=
  match cs.dropWhile Char.isWhitespace with
  | [] => (eof, [])
  | c :: rest => read c rest

/-- Every token but the end of input takes at least one character. -/
theorem length_next_lt {cs : List Char} (h : (next cs).1.kind ≠ .eof) :
    (next cs).2.length < cs.length := by
  have hs : (cs.dropWhile Char.isWhitespace).length ≤ cs.length :=
    (List.dropWhile_suffix _).length_le
  cases hd : cs.dropWhile Char.isWhitespace with
  | nil => simp [next, hd, eof] at h
  | cons c rest =>
    have := length_read_le c rest
    rw [hd, List.length_cons] at hs
    simp only [next, hd]
    omega

/-- The tokens of a character list, without the end-of-input token: `next`, until it gives
    the end of input. -/
def scanChars (cs : List Char) : List Token :=
  if _h : (next cs).1.kind = .eof then [] else (next cs).1 :: scanChars (next cs).2
termination_by cs.length
decreasing_by exact length_next_lt _h

/-- The tokens of a source text, without the end-of-input token. -/
def scan (source : String) : List Token := scanChars source.toList

/-- The token stream of a source text: its tokens, then the end-of-input token. -/
def stream (source : String) : List Token := scan source ++ [eof]

end Token

end Sugiru
