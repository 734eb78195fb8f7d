import Mathlib
import Sugiru.Token.Lexer

/-!
# The lexemes of a text

The lexer answers each request for a token with the next token of the unread input, and a
text is listed by asking until the end of input comes. This module states, without the
lexer, how a text splits into lexemes, and shows that its tokens are that split:

* space, tab, carriage return and line feed are blanks: they separate lexemes and are
  dropped, and every other character belongs to exactly one lexeme;
* a word is a run of ASCII letters and underscores with no such character on either side,
  typed as its keyword or as a name;
* a number is a run of ASCII digits with no digit on either side;
* `==` and `!=` are lexemes, and a `=` or `!` followed by `=` is never one on its own;
* any other character is a lexeme by itself: an operator or delimiter if it is one,
  illegal otherwise.

Once the tokens are used up, every further request is answered with the end of input,
whose text is empty.

Main results:

* `Lexes`: the split of a text into blanks and lexemes.
* `scanChars_lexes`, `Lexes.eq_scanChars`: the tokens of a text are its lexemes, in order,
  and no other split of the text is.
* `afterCalls_fst`: the answer to each request is the next token, and the end of input once
  the tokens are used up.
* `lexer_reads_lexemes`: the listed stream is the tokens and one end of input, the tokens
  are the lexemes of the text, and the requests answer them in order, then the end of input.
-/

namespace Sugiru.Token

/-! ## Character classes -/

/-- The blanks between lexemes: space, tab, carriage return and line feed. -/
def Blank (c : Char) : Prop := c = ' ' ∨ c = '\t' ∨ c = '\r' ∨ c = '\n'

/-- The characters of a word: ASCII letters and the underscore. -/
def WordChar (c : Char) : Prop :=
  ('a' ≤ c ∧ c ≤ 'z') ∨ ('A' ≤ c ∧ c ≤ 'Z') ∨ c = '_'

/-- The characters of a number: ASCII digits. -/
def Digit (c : Char) : Prop := '0' ≤ c ∧ c ≤ '9'

theorem isWhitespace_iff {c : Char} : c.isWhitespace = true ↔ Blank c := by
  simp [Char.isWhitespace, Blank, or_assoc]

theorem isWordChar_iff {c : Char} : isWordChar c = true ↔ WordChar c := by
  simp [isWordChar, Char.isAlpha, Char.isUpper, Char.isLower, Char.le_def, WordChar, or_assoc,
    or_left_comm]

theorem isDigit_iff {c : Char} : c.isDigit = true ↔ Digit c := by
  simp [Char.isDigit, Char.le_def, Digit]

instance : DecidablePred Blank := fun _ => decidable_of_iff _ isWhitespace_iff

instance : DecidablePred WordChar := fun _ => decidable_of_iff _ isWordChar_iff

instance : DecidablePred Digit := fun _ => decidable_of_iff _ isDigit_iff

/-- No digit is a word character: the digits come before the letters and the underscore. -/
theorem WordChar.not_digit {c : Char} (h : WordChar c) : ¬ Digit c := by
  rintro ⟨-, h9⟩
  rcases h with ⟨ha, -⟩ | ⟨hA, -⟩ | rfl
  · exact absurd (Char.le_trans ha h9) (by decide)
  · exact absurd (Char.le_trans hA h9) (by decide)
  · exact absurd h9 (by decide)

theorem Blank.not_wordChar {c : Char} (h : Blank c) : ¬ WordChar c := by
  rcases h with rfl | rfl | rfl | rfl <;> decide

theorem Blank.not_digit {c : Char} (h : Blank c) : ¬ Digit c := by
  rcases h with rfl | rfl | rfl | rfl <;> decide

/-! ## Lexemes -/

/-- The lexemes, each with the characters right before and right after it in the text
    (`none` at either end). -/
inductive Lexeme : Option Char → Token → Option Char → Prop
  | word {before after : Option Char} {w : List Char} :
      w ≠ [] → (∀ c ∈ w, WordChar c) → (∀ c ∈ before, ¬ WordChar c) →
      (∀ c ∈ after, ¬ WordChar c) →
      Lexeme before ⟨TokenKind.ofWord (String.ofList w), String.ofList w⟩ after
  | number {before after : Option Char} {ds : List Char} :
      ds ≠ [] → (∀ c ∈ ds, Digit c) → (∀ c ∈ before, ¬ Digit c) →
      (∀ c ∈ after, ¬ Digit c) →
      Lexeme before ⟨.int, String.ofList ds⟩ after
  | eq {before after : Option Char} : Lexeme before ⟨.eq, "=="⟩ after
  | notEq {before after : Option Char} : Lexeme before ⟨.notEq, "!="⟩ after
  /-- Any other character by itself; a `=` or `!` only when no `=` follows it. -/
  | single {before after : Option Char} {c : Char} :
      ¬ Blank c → ¬ WordChar c → ¬ Digit c →
      (c = '=' ∨ c = '!' → after ≠ some '=') →
      Lexeme before ⟨(TokenKind.ofSymbol? c).getD .illegal, String.singleton c⟩ after

/-- `Lexes before cs ts`: the characters `cs`, which follow the character `before` of the
    text (`none` at its start), are blanks and the texts of the tokens `ts` in order, each a
    lexeme between the characters around it. -/
inductive Lexes : Option Char → List Char → List Token → Prop
  | nil {before : Option Char} : Lexes before [] []
  | blank {before : Option Char} {c : Char} {cs : List Char} {ts : List Token} :
      Blank c → Lexes (some c) cs ts → Lexes before (c :: cs) ts
  | token {before : Option Char} {t : Token} {cs : List Char} {ts : List Token} :
      Lexeme before t cs.head? → Lexes t.text.toList.getLast? cs ts →
      Lexes before (t.text.toList ++ cs) (t :: ts)

theorem ofWord_ne_eof (w : String) : TokenKind.ofWord w ≠ .eof := by
  unfold TokenKind.ofWord
  split <;> simp

theorem ofSymbol?_getD_ne_eof (c : Char) : (TokenKind.ofSymbol? c).getD .illegal ≠ .eof := by
  unfold TokenKind.ofSymbol?
  split <;> simp

/-- No lexeme is the end of input. -/
theorem Lexeme.kind_ne_eof {before after : Option Char} {t : Token}
    (h : Lexeme before t after) : t.kind ≠ .eof := by
  cases h with
  | word => exact ofWord_ne_eof _
  | number | eq | notEq => simp
  | single => exact ofSymbol?_getD_ne_eof _

theorem Lexes.kind_ne_eof {before : Option Char} {cs : List Char} {ts : List Token}
    (h : Lexes before cs ts) : ∀ t ∈ ts, t.kind ≠ .eof := by
  induction h with
  | nil => simp
  | blank _ _ ih => exact ih
  | token hl _ ih =>
    intro t ht
    rcases List.mem_cons.1 ht with rfl | ht
    · exact hl.kind_ne_eof
    · exact ih t ht

/-! ## One request for a token -/

theorem next_nil : next [] = (eof, []) := rfl

theorem next_blank {c : Char} {cs : List Char} (h : Blank c) : next (c :: cs) = next cs := by
  simp [next, isWhitespace_iff.2 h]

theorem next_read {c : Char} {cs : List Char} (h : ¬ Blank c) : next (c :: cs) = read c cs := by
  have hc : c.isWhitespace = false := by
    cases hw : c.isWhitespace
    · rfl
    · exact absurd (isWhitespace_iff.1 hw) h
  simp [next, hc]

theorem read_kind_ne_eof (c : Char) (cs : List Char) : (read c cs).1.kind ≠ .eof := by
  unfold read
  split
  · exact ofWord_ne_eof _
  · split
    · simp
    · split
      · simp
      · simp
      · exact ofSymbol?_getD_ne_eof _

/-- A request answers the end of input only when the unread input is blank, and then it
    reads all of it. -/
theorem next_eq_end : ∀ {cs : List Char}, (next cs).1.kind = .eof → next cs = (eof, [])
  | [], _ => rfl
  | c :: cs, h => by
    by_cases hc : Blank c
    · rw [next_blank hc] at h ⊢
      exact next_eq_end h
    · rw [next_read hc] at h
      exact absurd h (read_kind_ne_eof c cs)

/-! ## Reading one lexeme -/

/-- What may come right before a run of characters: no word character comes before a word
    character, and no digit before a digit. -/
def Fits (before : Option Char) (cs : List Char) : Prop :=
  ∀ c ∈ cs.head?, ∀ b ∈ before, (WordChar c → ¬ WordChar b) ∧ (Digit c → ¬ Digit b)

theorem fits_none (cs : List Char) : Fits none cs := by
  simp [Fits]

/-- Anything may follow a character that is neither a word character nor a digit. -/
theorem fits_some {b : Char} {cs : List Char} (hw : ¬ WordChar b) (hd : ¬ Digit b) :
    Fits (some b) cs := by
  intro c _ b' hb'
  obtain rfl : b = b' := by simpa using hb'
  exact ⟨fun _ => hw, fun _ => hd⟩

/-- The longest run of a class of characters `P`, tested by `p`, from a character `c` of
    the class: the run and the rest make up the input, the run is all of the class, and the
    rest does not start with a character of it. -/
theorem run_spec {p : Char → Bool} {P : Char → Prop} (hp : ∀ x, p x = true ↔ P x) {c : Char}
    (hc : P c) (cs : List Char) :
    c :: cs = (c :: cs.takeWhile p) ++ cs.dropWhile p ∧ (∀ x ∈ c :: cs.takeWhile p, P x) ∧
      ∀ x ∈ (cs.dropWhile p).head?, ¬ P x := by
  refine ⟨by simp, fun x hx => ?_, fun x hx hx' => ?_⟩
  · rcases List.mem_cons.1 hx with rfl | hx
    · exact hc
    · exact (hp x).1 (List.all_eq_true.1 List.all_takeWhile x hx)
  · have h := List.head?_dropWhile_not p cs
    rw [Option.mem_def] at hx
    rw [hx] at h
    have hpx : p x = false := h
    rw [(hp x).2 hx'] at hpx
    cases hpx

/-- One token read off the input is a lexeme between the character before the input and the
    rest of the input; its text and the rest make up the input, and the rest may follow it. -/
theorem read_lexeme {before : Option Char} {c : Char} {cs : List Char} (hc : ¬ Blank c)
    (hf : Fits before (c :: cs)) :
    c :: cs = (read c cs).1.text.toList ++ (read c cs).2 ∧
      Lexeme before (read c cs).1 (read c cs).2.head? ∧
      Fits (read c cs).1.text.toList.getLast? (read c cs).2 := by
  unfold read
  split
  · -- a word: the longest run of word characters
    rename_i hw
    obtain ⟨hsplit, hall, hnext⟩ := run_spec (fun x => @isWordChar_iff x) (isWordChar_iff.1 hw) cs
    dsimp only
    rw [String.toList_ofList]
    refine ⟨hsplit, .word (List.cons_ne_nil _ _) hall
      (fun b hb => (hf c rfl b hb).1 (hall c (by simp))) hnext, ?_⟩
    intro x hx b hb
    exact ⟨fun hx' => absurd hx' (hnext x hx),
      fun _ => (hall b (List.mem_of_getLast? hb)).not_digit⟩
  · rename_i hw
    split
    · -- a number: the longest run of digits
      rename_i hd
      obtain ⟨hsplit, hall, hnext⟩ := run_spec (fun x => @isDigit_iff x) (isDigit_iff.1 hd) cs
      rw [String.toList_ofList]
      refine ⟨hsplit, .number (List.cons_ne_nil _ _) hall
        (fun b hb => (hf c rfl b hb).2 (hall c (by simp))) hnext, ?_⟩
      intro x hx b hb
      exact ⟨fun _ hbw => hbw.not_digit (hall b (List.mem_of_getLast? hb)),
        fun hx' => absurd hx' (hnext x hx)⟩
    · rename_i hd
      split
      · rename_i rest
        exact ⟨by simp, .eq, by simpa using @fits_some '=' rest (by decide) (by decide)⟩
      · rename_i rest
        exact ⟨by simp, .notEq, by simpa using @fits_some '=' rest (by decide) (by decide)⟩
      · -- any other character by itself: a `=` or `!` here has no `=` after it
        rename_i heq hne
        have hw' : ¬ WordChar c := fun h => hw (isWordChar_iff.2 h)
        have hd' : ¬ Digit c := fun h => hd (isDigit_iff.2 h)
        refine ⟨by rw [String.toList_singleton]; rfl, .single hc hw' hd' ?_, ?_⟩
        · rintro (rfl | rfl) hhead <;> cases cs with
          | nil => simp at hhead
          | cons y ys =>
            obtain rfl : y = '=' := by simpa using hhead
            first | exact heq ys rfl rfl | exact hne ys rfl rfl
        · rw [String.toList_singleton]
          exact fits_some hw' hd'

/-! ## The scan -/

theorem scanChars_nil : scanChars [] = [] := by
  have h : (next []).1.kind = .eof := rfl
  rw [scanChars, dif_pos h]

theorem scanChars_blank {c : Char} {cs : List Char} (h : Blank c) :
    scanChars (c :: cs) = scanChars cs := by
  conv => lhs; rw [scanChars]
  conv => rhs; rw [scanChars]
  rw [next_blank h]

theorem scanChars_read {c : Char} {cs : List Char} (h : ¬ Blank c) :
    scanChars (c :: cs) = (read c cs).1 :: scanChars (read c cs).2 := by
  conv => lhs; rw [scanChars]
  rw [next_read h, dif_neg (read_kind_ne_eof c cs)]

/-- The tokens of characters that may follow `before` are their lexemes, in order. The
    recursion follows the scan: a blank is dropped, and otherwise one lexeme is read. -/
theorem scanChars_lexes (before : Option Char) (cs : List Char) (hf : Fits before cs) :
    Lexes before cs (scanChars cs) := by
  match cs with
  | [] =>
    rw [scanChars_nil]
    exact .nil
  | c :: cs =>
    by_cases hc : Blank c
    · rw [scanChars_blank hc]
      exact .blank hc (scanChars_lexes (some c) cs (fits_some hc.not_wordChar hc.not_digit))
    · obtain ⟨hsplit, hlex, hfits⟩ := read_lexeme hc hf
      rw [scanChars_read hc, hsplit]
      exact .token hlex (scanChars_lexes _ _ hfits)
termination_by cs.length
decreasing_by
  · simp
  · have := length_read_le c cs
    simp only [List.length_cons]
    omega

/-! ## Only one split -/

/-- A run of a class of characters `P`, tested by `p`, before input that does not start with
    one, is the run that `p` takes off. -/
theorem run_split {p : Char → Bool} {P : Char → Prop} (hp : ∀ x, p x = true ↔ P x)
    {w cs : List Char} (hw : ∀ x ∈ w, P x) (hs : ∀ x ∈ cs.head?, ¬ P x) :
    (w ++ cs).takeWhile p = w ∧ (w ++ cs).dropWhile p = cs := by
  have hw' : ∀ x ∈ w, p x = true := fun x hx => (hp x).2 (hw x hx)
  rw [List.takeWhile_append_of_pos hw', List.dropWhile_append_of_pos hw']
  cases cs with
  | nil => simp
  | cons y ys =>
    have hy : ¬ p y = true := fun h => hs y rfl ((hp y).1 h)
    simp [List.takeWhile_cons_of_neg hy, List.dropWhile_cons_of_neg hy]

/-- A lexeme is what one request reads off its text and the rest of the input: its first
    character is no blank, and the token read from there is the lexeme, with the rest left. -/
theorem Lexeme.read_eq {before : Option Char} {t : Token} {cs : List Char}
    (h : Lexeme before t cs.head?) :
    ∃ c w, t.text.toList = c :: w ∧ ¬ Blank c ∧ read c (w ++ cs) = (t, cs) := by
  cases h with
  | @word _ w hne hall _ hafter =>
    obtain ⟨c, w, rfl⟩ := List.exists_cons_of_ne_nil hne
    have hc : WordChar c := hall c (by simp)
    obtain ⟨htake, hdrop⟩ :=
      run_split (fun x => @isWordChar_iff x) (fun x (hx : x ∈ w) => hall x (by simp [hx])) hafter
    refine ⟨c, w, String.toList_ofList, fun hb => hb.not_wordChar hc, ?_⟩
    unfold read
    rw [if_pos (isWordChar_iff.2 hc)]
    simp only [htake, hdrop]
  | @number _ ds hne hall _ hafter =>
    obtain ⟨c, ds, rfl⟩ := List.exists_cons_of_ne_nil hne
    have hc : Digit c := hall c (by simp)
    obtain ⟨htake, hdrop⟩ :=
      run_split (fun x => @isDigit_iff x) (fun x (hx : x ∈ ds) => hall x (by simp [hx])) hafter
    refine ⟨c, ds, String.toList_ofList, fun hb => hb.not_digit hc, ?_⟩
    unfold read
    rw [if_neg (fun h => (isWordChar_iff.1 h).not_digit hc), if_pos (isDigit_iff.2 hc)]
    simp only [htake, hdrop]
  | eq => exact ⟨'=', ['='], by simp, by decide, rfl⟩
  | notEq => exact ⟨'!', ['='], by simp, by decide, rfl⟩
  | @single _ c hb hw hd hafter =>
    refine ⟨c, [], String.toList_singleton c, hb, ?_⟩
    rw [List.nil_append]
    unfold read
    rw [if_neg (fun h => hw (isWordChar_iff.1 h)), if_neg (fun h => hd (isDigit_iff.1 h))]
    -- a `=` or `!` alone is never followed by `=`
    split
    · exact absurd rfl (hafter (.inl rfl))
    · exact absurd rfl (hafter (.inr rfl))
    · rfl

/-- A split of characters into blanks and lexemes is the scan's: the text determines its
    lexemes. -/
theorem Lexes.eq_scanChars {before : Option Char} {cs : List Char} {ts : List Token}
    (h : Lexes before cs ts) : ts = scanChars cs := by
  induction h with
  | nil => exact scanChars_nil.symm
  | blank hb _ ih => rw [scanChars_blank hb, ih]
  | token hl _ ih =>
    obtain ⟨c, w, htext, hc, hread⟩ := hl.read_eq
    rw [htext, List.cons_append, scanChars_read hc, hread, ih]

/-! ## Requests after requests -/

/-- The lexer after the requests numbered `0` to `n` from the start of the input `cs`: the
    answer to the last one, and the input still unread. -/
def afterCalls (cs : List Char) : Nat → Token × List Char
  | 0 => next cs
  | n + 1 => next (afterCalls cs n).2

theorem afterCalls_succ (cs : List Char) (n : Nat) :
    afterCalls cs (n + 1) = afterCalls (next cs).2 n := by
  induction n with
  | zero => rfl
  | succ n ih =>
    show next (afterCalls cs (n + 1)).2 = next (afterCalls (next cs).2 n).2
    rw [ih]

theorem afterCalls_nil (n : Nat) : afterCalls [] n = (eof, []) := by
  induction n with
  | zero => rfl
  | succ n ih =>
    rw [afterCalls_succ]
    exact ih

/-- The answer to request `n` is token `n` of the scan, and the end of input after the last
    token. -/
theorem afterCalls_fst (cs : List Char) (n : Nat) :
    (afterCalls cs n).1 = (scanChars cs).getD n eof := by
  induction n generalizing cs with
  | zero =>
    conv => rhs; rw [scanChars]
    split
    · rename_i h
      rw [List.getD_nil]
      exact congrArg Prod.fst (next_eq_end h)
    · rfl
  | succ n ih =>
    rw [afterCalls_succ, ih]
    conv => rhs; rw [scanChars]
    split
    · -- the input was blank: nothing is left to read
      rename_i h
      rw [next_eq_end h, scanChars_nil, List.getD_nil, List.getD_nil]
    · rw [List.getD_cons_succ]

/-- What the lexer makes of a text. The listed stream is its tokens and then one end of
    input with empty text. The tokens are the one split of the text into lexemes in order,
    with only blanks between them, and none of them is the end of input. The requests for a
    token are answered with the tokens in order and then with the end of input, again and
    again. -/
theorem lexer_reads_lexemes (s : String) :
    Token.stream s = Token.scan s ++ [⟨.eof, ""⟩] ∧
      (∀ ts, Lexes none s.toList ts ↔ ts = Token.scan s) ∧
      (∀ t ∈ Token.scan s, t.kind ≠ .eof) ∧
      ∀ n, (afterCalls s.toList n).1 = (Token.scan s).getD n ⟨.eof, ""⟩ := by
  have hl := scanChars_lexes none s.toList (fits_none _)
  refine ⟨rfl, fun ts => ⟨Lexes.eq_scanChars, ?_⟩, hl.kind_ne_eof, afterCalls_fst s.toList⟩
  rintro rfl
  exact hl

end Sugiru.Token
