import Sugiru.Proofs.ParserSound
import Sugiru.Proofs.Lexemes

/-!
# Trees the grammar derives are well formed

A tree is well formed when every piece of it is one a token could have given: it has no
hole, every name (of a variable, a `let` or a parameter) is a word that is no keyword, and
every integer literal keeps a run of digits as its text, denotes the number those digits
spell, and that number fits in a signed 64-bit integer.

The tokens the lexer reads are lexical: a name token holds a word that is no keyword, a
number token a run of digits. Over lexical tokens every run of the grammar of
`Sugiru.Grammar` has a well-formed tree, so a program parsed with no issue is well formed.

Main results:

* `Token.scan_lexical`: every token of a text is lexical.
* `Derives.wellFormed`, `Statements.wellFormed` and their companions: the trees of the
  grammar's runs over lexical tokens are well formed.
* `Program.parse_wellFormed`: a program parsed with no issue is well formed.
-/

namespace Sugiru

namespace Token

/-- A name: a nonempty word that is no keyword. -/
def isName (w : String) : Bool :=
  !w.toList.isEmpty && w.toList.all isWordChar && decide (TokenKind.ofWord w = .ident)

/-- A numeral: a nonempty run of ASCII digits. -/
def isNumeral (w : String) : Bool := !w.toList.isEmpty && w.toList.all Char.isDigit

/-- A token whose text is what its kind says: a name for a name token, a numeral for a
    number token. -/
def Lexical (t : Token) : Prop :=
  (t.kind = .ident → isName t.text = true) ∧ (t.kind = .int → isNumeral t.text = true)

theorem isName_iff {w : String} :
    isName w = true ↔ w.toList ≠ [] ∧ (∀ c ∈ w.toList, WordChar c) ∧
      TokenKind.ofWord w = .ident := by
  simp [isName, isWordChar_iff, and_assoc]

theorem isNumeral_iff {w : String} :
    isNumeral w = true ↔ w.toList ≠ [] ∧ ∀ c ∈ w.toList, Digit c := by
  simp [isNumeral, isDigit_iff]

theorem ofWord_ne_int (w : String) : TokenKind.ofWord w ≠ .int := by
  unfold TokenKind.ofWord
  split <;> simp

theorem ofSymbol?_getD_ne {c : Char} {k : TokenKind} (hk : k = .ident ∨ k = .int) :
    (TokenKind.ofSymbol? c).getD .illegal ≠ k := by
  rcases hk with rfl | rfl <;> unfold TokenKind.ofSymbol? <;> split <;> simp

/-- Every lexeme is lexical: only a word gives a name token, only a run of digits a number
    token. -/
theorem Lexeme.lexical {before after : Option Char} {t : Token}
    (h : Lexeme before t after) : t.Lexical := by
  cases h with
  | word hne hall _ _ =>
    refine ⟨fun hk => isName_iff.2 ?_, fun hk => absurd hk (ofWord_ne_int _)⟩
    rw [String.toList_ofList]
    exact ⟨hne, hall, hk⟩
  | number hne hall _ _ =>
    refine ⟨fun hk => absurd hk (by simp), fun _ => isNumeral_iff.2 ?_⟩
    rw [String.toList_ofList]
    exact ⟨hne, hall⟩
  | eq | notEq => exact ⟨fun hk => absurd hk (by simp), fun hk => absurd hk (by simp)⟩
  | single =>
    exact ⟨fun hk => absurd hk (ofSymbol?_getD_ne (.inl rfl)),
      fun hk => absurd hk (ofSymbol?_getD_ne (.inr rfl))⟩

theorem Lexes.lexical {before : Option Char} {cs : List Char} {ts : List Token}
    (h : Lexes before cs ts) : ∀ t ∈ ts, t.Lexical := by
  induction h with
  | nil => simp
  | blank _ _ ih => exact ih
  | token hl _ ih =>
    intro t ht
    rcases List.mem_cons.1 ht with rfl | ht
    · exact hl.lexical
    · exact ih t ht

theorem scan_lexical (s : String) : ∀ t ∈ Token.scan s, t.Lexical :=
  (scanChars_lexes none s.toList (fits_none _)).lexical

end Token

/-! ## Well-formed trees -/

mutual

/-- No hole, names that are words and no keywords, and integer literals whose texts are
    numerals denoting their values, each at most `intLiteralLimit`. -/
def Expr.wellFormed : Expr → Bool
  | .hole => false
  | .ident name => Token.isName name
  | .int text n => Token.isNumeral text && n == digitsValue text && decide (n ≤ intLiteralLimit)
  | .bool _ => true
  | .unary _ e => e.wellFormed
  | .binary _ l r => l.wellFormed && r.wellFormed
  | .cond c t none => c.wellFormed && Stmt.allWellFormed t
  | .cond c t (some e) => c.wellFormed && Stmt.allWellFormed t && Stmt.allWellFormed e
  | .fn ps body => ps.all Token.isName && Stmt.allWellFormed body
  | .call f args => f.wellFormed && Expr.allWellFormed args

/-- Every expression of the list is well formed. -/
def Expr.allWellFormed : List Expr → Bool
  | [] => true
  | e :: es => e.wellFormed && Expr.allWellFormed es

/-- A statement whose expression is well formed, and whose bound name, for a `let`, is a
    name. -/
def Stmt.wellFormed : Stmt → Bool
  | .bind name e => Token.isName name && e.wellFormed
  | .ret e => e.wellFormed
  | .expr e => e.wellFormed

/-- Every statement of the list is well formed. -/
def Stmt.allWellFormed : List Stmt → Bool
  | [] => true
  | s :: ss => s.wellFormed && Stmt.allWellFormed ss

end

example : (Expr.call (.ident "f") [.int "007" 7, .unary .neg (.bool true)]).wellFormed = true := by
  cbv

example : (Expr.binary .add (.ident "x") .hole).wellFormed = false := by cbv

namespace Grammar

/-! ## Runs over lexical tokens -/

theorem Params.names_isName {xs : List Token} {names : List String} (P : Params xs names)
    (h : ∀ t ∈ xs, t.Lexical) : names.all Token.isName = true := by
  induction P with
  | nil _ => rfl
  | @one x _ hx _ => simpa using (h x (by simp)).1 hx
  | @cons _ _ x _ hx _ _ _ ih =>
    simp only [List.all_cons, Bool.and_eq_true]
    exact ⟨(h x (by simp)).1 hx, ih fun t ht => h t (by simp [ht])⟩

mutual

/-- The tree of a run over lexical tokens is well formed. -/
theorem Derives.wellFormed {n : Nat} {xs : List Token} {e : Expr} {k : Ending}
    (D : Derives n xs e k) (h : ∀ t ∈ xs, t.Lexical) : e.wellFormed = true := by
  match D with
  | .lift _ D => exact Derives.wellFormed D h
  | .binary _ _ Dl _ Dr =>
    simp only [Expr.wellFormed, Bool.and_eq_true]
    exact ⟨Derives.wellFormed Dl fun t ht => h t (by simp [ht]),
      Derives.wellFormed Dr fun t ht => h t (by simp [ht])⟩
  | .unary _ D =>
    simp only [Expr.wellFormed]
    exact Derives.wellFormed D fun t ht => h t (by simp [ht])
  | .callee D => exact Derives.wellFormed D h
  | .call _ D _ A =>
    simp only [Expr.wellFormed, Bool.and_eq_true]
    exact ⟨Derives.wellFormed D fun t ht => h t (by simp [ht]),
      Args.wellFormed A fun t ht => h t (by simp [ht])⟩
  | .atom A => exact Atom.wellFormed A h
termination_by structural D

theorem Atom.wellFormed {xs : List Token} {e : Expr} {k : Ending} (A : Atom xs e k)
    (h : ∀ t ∈ xs, t.Lexical) : e.wellFormed = true := by
  match A with
  | @Atom.ident t hk => exact (h t (by simp)).1 hk
  | @Atom.int t hk hv =>
    simp only [Expr.wellFormed, beq_self_eq_true, Bool.and_true, Bool.and_eq_true,
      decide_eq_true_eq]
    exact ⟨(h t (by simp)).2 hk, hv⟩
  | .true _ | .false _ => rfl
  | .group _ _ D _ => exact Derives.wellFormed D fun t ht => h t (by simp [ht])
  | .cond _ _ _ D _ B =>
    simp only [Expr.wellFormed, Bool.and_eq_true]
    exact ⟨Derives.wellFormed D fun t ht => h t (by simp [ht]),
      Block.wellFormed B fun t ht => h t (by simp [ht])⟩
  | .condElse _ _ _ D _ B _ B' =>
    simp only [Expr.wellFormed, Bool.and_eq_true]
    exact ⟨⟨Derives.wellFormed D fun t ht => h t (by simp [ht]),
      Block.wellFormed B fun t ht => h t (by simp [ht])⟩,
      Block.wellFormed B' fun t ht => h t (by simp [ht])⟩
  | .fn _ _ P B =>
    simp only [Expr.wellFormed, Bool.and_eq_true]
    exact ⟨P.names_isName fun t ht => h t (by simp [ht]),
      Block.wellFormed B fun t ht => h t (by simp [ht])⟩
termination_by structural A

theorem Args.wellFormed {xs : List Token} {as : List Expr} (A : Args xs as)
    (h : ∀ t ∈ xs, t.Lexical) : Expr.allWellFormed as = true := by
  match A with
  | .nil _ => rfl
  | .one D _ _ =>
    simp only [Expr.allWellFormed, Bool.and_true]
    exact Derives.wellFormed D fun t ht => h t (by simp [ht])
  | .cons D _ _ A _ =>
    simp only [Expr.allWellFormed, Bool.and_eq_true]
    exact ⟨Derives.wellFormed D fun t ht => h t (by simp [ht]),
      Args.wellFormed A fun t ht => h t (by simp [ht])⟩
termination_by structural A

theorem Block.wellFormed {xs : List Token} {ss : List Stmt} {u : Bool} (B : Block xs ss u)
    (h : ∀ t ∈ xs, t.Lexical) : Stmt.allWellFormed ss = true := by
  match B with
  | .closed _ _ S => exact Statements.wellFormed S fun t ht => h t (by simp [ht])
  | .unclosed _ S => exact Statements.wellFormed S fun t ht => h t (by simp [ht])
termination_by structural B

/-- The statements of a run over lexical tokens are well formed. -/
theorem Statements.wellFormed {xs : List Token} {ss : List Stmt} {u : Bool}
    (S : Statements xs ss u) (h : ∀ t ∈ xs, t.Lexical) : Stmt.allWellFormed ss = true := by
  match S with
  | .nil => rfl
  | .semi St _ S | .cons St _ S =>
    simp only [Stmt.allWellFormed, Bool.and_eq_true]
    exact ⟨Statement.wellFormed St fun t ht => h t (by simp [ht]),
      Statements.wellFormed S fun t ht => h t (by simp [ht])⟩
  | .last St =>
    simp only [Stmt.allWellFormed, Bool.and_true]
    exact Statement.wellFormed St h
termination_by structural S

theorem Statement.wellFormed {xs : List Token} {s : Stmt} {u : Bool} (St : Statement xs s u)
    (h : ∀ t ∈ xs, t.Lexical) : s.wellFormed = true := by
  match St with
  | @Statement.bind _ _ _ _ x _ _ hx _ D =>
    simp only [Stmt.wellFormed, Bool.and_eq_true]
    exact ⟨(h x (by simp)).1 hx, Derives.wellFormed D fun t ht => h t (by simp [ht])⟩
  | .ret _ D => exact Derives.wellFormed D fun t ht => h t (by simp [ht])
  | .expr D => exact Derives.wellFormed D h
termination_by structural St

end

end Grammar

/-- A program parsed with no issue is well formed: it has no hole, its names are names
    and its integer literals fit. -/
theorem Program.parse_wellFormed (s : String) (h : (Program.parse s).issues = []) :
    Stmt.allWellFormed (Program.parse s).program.stmts = true := by
  obtain ⟨u, S⟩ := Grammar.program_sound (Token.scan s) h
  exact Grammar.Statements.wellFormed S (Token.scan_lexical s)

/-- A program parsed with no issue dropped no statement and left no piece out. Its tokens
    are the runs of its statements one after the other, and the tokens of each block the
    runs of the block's statements, so every statement read was kept; and every tree in it
    is well formed, so every `let` has its name and value, every `return` its value, every
    operator its operands, every `if` its condition and block, every function its body and
    every call its callee and arguments. -/
theorem Program.parse_complete_of_no_issue (s : String) (h : (Program.parse s).issues = []) :
    (∃ u, Grammar.Statements (Token.scan s) (Program.parse s).program.stmts u) ∧
      Stmt.allWellFormed (Program.parse s).program.stmts = true :=
  ⟨Grammar.program_sound (Token.scan s) h, Program.parse_wellFormed s h⟩

/-- A `let` of an `if` whose block holds a `let` of its own, then a call with a negated
    argument: it parses with no issue, into a complete program. -/
theorem Program.parse_complete_conditional_let :
    (Program.parse "let m = if (a < b) \x7b let d = b - a; d \x7d; f(m, -m)").issues = [] ∧
      (∃ u, Grammar.Statements
        (Token.scan "let m = if (a < b) \x7b let d = b - a; d \x7d; f(m, -m)")
        (Program.parse "let m = if (a < b) \x7b let d = b - a; d \x7d; f(m, -m)").program.stmts
        u) ∧
      Stmt.allWellFormed
        (Program.parse "let m = if (a < b) \x7b let d = b - a; d \x7d; f(m, -m)").program.stmts =
        true := by
  have h :
      (Program.parse "let m = if (a < b) \x7b let d = b - a; d \x7d; f(m, -m)").issues = [] := by
    cbv
  exact ⟨h, Program.parse_complete_of_no_issue _ h⟩

end Sugiru
