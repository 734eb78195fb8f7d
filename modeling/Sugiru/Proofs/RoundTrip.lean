import Sugiru.Proofs.WellFormed

/-!
# Reading back the canonical text

`Program.render` writes a program as canonical text: every prefix and infix expression in
parentheses, the grouping parentheses of the source dropped, and the statements one after
the other with nothing between them. A program that holds no `if` and no function literal,
and whose statements but the last are `let`s and `return`s (whose texts end with `;`),
reads back from that text as itself.

The proof goes through the grammar of `Sugiru.Grammar`. The text of a well-formed
expression scans into a run that the grammar derives, at its highest level, as that very
expression: a name, a literal, a call, or a parenthesised expression whose operators stand
at the levels their parentheses leave them. What may follow the text is any character that
neither a word nor a number can take (`Token.Boundary`). The statements then scan into a
sequence of statements of the grammar, which the parser reads as a program with no issue.

Main results:

* `Expr.scan_render`: the text of a block-free well-formed expression scans into a run the
  grammar derives as that expression.
* `Stmt.scan_renderAll`: the text of such statements scans into a sequence of statements of
  the grammar.
* `Program.parse_render`: such a program reads back from its text with no issue.
* `Program.parse_render_of_parse`: a program the parser read with no issue, free of blocks
  and with every statement but the last a `let` or a `return`, reads back from its text as
  itself, so its text is a fixed point of parsing and rendering.
-/

namespace Sugiru

/-! ## Programs without blocks -/

mutual

/-- The expression holds no `if` and no function literal. -/
def Expr.blockFree : Expr → Bool
  | .hole | .ident _ | .int _ _ | .bool _ => true
  | .unary _ e => e.blockFree
  | .binary _ l r => l.blockFree && r.blockFree
  | .cond .. | .fn .. => false
  | .call f args => f.blockFree && Expr.allBlockFree args

/-- No expression of the list holds an `if` or a function literal. -/
def Expr.allBlockFree : List Expr → Bool
  | [] => true
  | e :: es => e.blockFree && Expr.allBlockFree es

end

/-- The statement's expression holds no `if` and no function literal. -/
def Stmt.blockFree : Stmt → Bool
  | .bind _ e | .ret e | .expr e => e.blockFree

/-- Whether the statement is an expression standing alone, the one kind of statement whose
    text does not end with `;`. -/
def Stmt.isExpr : Stmt → Bool
  | .expr _ => true
  | _ => false

namespace Token

/-! ## Scanning the pieces of a text -/

/-- What may follow a text without joining its last lexeme: the end, or a character that
    neither a word nor a number takes. -/
def Boundary (cs : List Char) : Prop := ∀ c ∈ cs.head?, ¬ WordChar c ∧ ¬ Digit c

theorem boundary_nil : Boundary [] := by simp [Boundary]

theorem boundary_cons {c : Char} {cs : List Char} (hw : ¬ WordChar c) (hd : ¬ Digit c) :
    Boundary (c :: cs) := by
  simpa [Boundary] using ⟨hw, hd⟩

/-- A lexeme's text followed by what may follow it scans as the lexeme and then the rest. -/
theorem scanChars_lexeme {t : Token} {cs : List Char} (h : Lexeme none t cs.head?) :
    scanChars (t.text.toList ++ cs) = t :: scanChars cs := by
  obtain ⟨c, w, htext, hc, hread⟩ := h.read_eq
  rw [htext, List.cons_append, scanChars_read hc, hread]

theorem scanChars_space (cs : List Char) : scanChars (' ' :: cs) = scanChars cs :=
  scanChars_blank (.inl rfl)

/-- A single operator or delimiter character, not a `=` or `!` that a `=` follows. -/
theorem scanChars_single {c : Char} {cs : List Char} {k : TokenKind}
    (hk : TokenKind.ofSymbol? c = some k) (hb : ¬ Blank c) (hw : ¬ WordChar c) (hd : ¬ Digit c)
    (he : c = '=' ∨ c = '!' → cs.head? ≠ some '=') :
    scanChars (c :: cs) = ⟨k, String.singleton c⟩ :: scanChars cs := by
  have h := @Lexeme.single none cs.head? c hb hw hd he
  rw [hk, Option.getD_some] at h
  simpa [String.toList_singleton] using scanChars_lexeme h

/-- A word, of a name or a keyword, before what may follow it. -/
theorem scanChars_word {w : String} {cs : List Char} (hne : w.toList ≠ [])
    (hall : ∀ c ∈ w.toList, WordChar c) (hcs : Boundary cs) :
    scanChars (w.toList ++ cs) = ⟨TokenKind.ofWord w, w⟩ :: scanChars cs := by
  have h := @Lexeme.word none cs.head? w.toList hne hall (by simp) fun c hc => (hcs c hc).1
  rw [String.ofList_toList] at h
  exact scanChars_lexeme h

/-- A keyword before what may follow it. -/
theorem scanChars_keyword {w : String} {k : TokenKind} {cs : List Char}
    (hk : TokenKind.ofWord w = k) (hw : (!w.toList.isEmpty && w.toList.all isWordChar) = true)
    (hcs : Boundary cs) : scanChars (w.toList ++ cs) = ⟨k, w⟩ :: scanChars cs := by
  simp only [Bool.and_eq_true, Bool.not_eq_true', List.isEmpty_eq_false_iff, List.all_eq_true,
    isWordChar_iff] at hw
  exact hk ▸ scanChars_word hw.1 hw.2 hcs

theorem scanChars_name {w : String} {cs : List Char} (hw : isName w = true)
    (hcs : Boundary cs) : scanChars (w.toList ++ cs) = ⟨.ident, w⟩ :: scanChars cs := by
  obtain ⟨hne, hall, hk⟩ := isName_iff.1 hw
  rw [scanChars_word hne hall hcs, hk]

theorem scanChars_numeral {w : String} {cs : List Char} (hw : isNumeral w = true)
    (hcs : Boundary cs) : scanChars (w.toList ++ cs) = ⟨.int, w⟩ :: scanChars cs := by
  obtain ⟨hne, hall⟩ := isNumeral_iff.1 hw
  have h := @Lexeme.number none cs.head? w.toList hne hall (by simp) fun c hc => (hcs c hc).2
  rw [String.ofList_toList] at h
  exact scanChars_lexeme h

theorem scanChars_lparen (cs : List Char) :
    scanChars ('(' :: cs) = ⟨.lparen, "("⟩ :: scanChars cs :=
  scanChars_single rfl (by decide) (by decide) (by decide) fun h => absurd h (by decide)

theorem scanChars_rparen (cs : List Char) :
    scanChars (')' :: cs) = ⟨.rparen, ")"⟩ :: scanChars cs :=
  scanChars_single rfl (by decide) (by decide) (by decide) fun h => absurd h (by decide)

theorem scanChars_comma (cs : List Char) :
    scanChars (',' :: cs) = ⟨.comma, ","⟩ :: scanChars cs :=
  scanChars_single rfl (by decide) (by decide) (by decide) fun h => absurd h (by decide)

theorem scanChars_semicolon (cs : List Char) :
    scanChars (';' :: cs) = ⟨.semicolon, ";"⟩ :: scanChars cs :=
  scanChars_single rfl (by decide) (by decide) (by decide) fun h => absurd h (by decide)

/-- The `=` of a `let`, which a blank follows. -/
theorem scanChars_assign (cs : List Char) :
    scanChars ('=' :: ' ' :: cs) = ⟨.assign, "="⟩ :: scanChars (' ' :: cs) :=
  scanChars_single rfl (by decide) (by decide) (by decide) fun _ => by simp

end Token

open Token Grammar

/-! ## Operators -/

/-- An infix operator's symbol, which a blank follows, scans as a token of the operator's
    level. -/
theorem InfixOp.scan_symbol (op : InfixOp) (cs : List Char) :
    ∃ o n, binLevel? o.kind = some n ∧ o.kind.infixOp? = some op ∧
      scanChars (op.symbol.toList ++ ' ' :: cs) = o :: scanChars (' ' :: cs) := by
  have hsingle : ∀ {c : Char} {k : TokenKind}, TokenKind.ofSymbol? c = some k →
      ¬ Blank c → ¬ WordChar c → ¬ Digit c → c ≠ '=' → c ≠ '!' →
      scanChars (c :: ' ' :: cs) = ⟨k, String.singleton c⟩ :: scanChars (' ' :: cs) :=
    fun hk hb hw hd he hn => scanChars_single hk hb hw hd fun h => (h.elim he hn).elim
  cases op with
  | add => exact ⟨_, 2, rfl, rfl, hsingle rfl (by decide) (by decide) (by decide) (by decide)
      (by decide)⟩
  | sub => exact ⟨_, 2, rfl, rfl, hsingle rfl (by decide) (by decide) (by decide) (by decide)
      (by decide)⟩
  | mul => exact ⟨_, 3, rfl, rfl, hsingle rfl (by decide) (by decide) (by decide) (by decide)
      (by decide)⟩
  | div => exact ⟨_, 3, rfl, rfl, hsingle rfl (by decide) (by decide) (by decide) (by decide)
      (by decide)⟩
  | lt => exact ⟨_, 1, rfl, rfl, hsingle rfl (by decide) (by decide) (by decide) (by decide)
      (by decide)⟩
  | gt => exact ⟨_, 1, rfl, rfl, hsingle rfl (by decide) (by decide) (by decide) (by decide)
      (by decide)⟩
  | eq => exact ⟨⟨.eq, "=="⟩, 0, rfl, rfl, scanChars_lexeme .eq⟩
  | ne => exact ⟨⟨.notEq, "!="⟩, 0, rfl, rfl, scanChars_lexeme .notEq⟩

/-- A prefix operator's symbol, before anything but a `=`, scans as a prefix operator. -/
theorem PrefixOp.scan_symbol (op : PrefixOp) {cs : List Char}
    (hcs : ∀ c ∈ cs.head?, c ≠ '=') :
    ∃ o, prefixOp? o.kind = some op ∧ scanChars (op.symbol.toList ++ cs) = o :: scanChars cs := by
  have he : cs.head? ≠ some '=' := fun h => hcs '=' h rfl
  cases op with
  | not => exact ⟨_, rfl, scanChars_single rfl (by decide) (by decide) (by decide) fun _ => he⟩
  | neg => exact ⟨_, rfl, scanChars_single rfl (by decide) (by decide) (by decide) fun _ => he⟩

/-! ## Expressions -/

/-- The text of a block-free well-formed expression starts with `(`, a word character or a
    digit, so never with `=`. -/
theorem Expr.render_head : ∀ e : Expr, e.blockFree = true → e.wellFormed = true →
    ∃ c rest, e.render.toList = c :: rest ∧ c ≠ '='
  | .hole, _, hw => absurd hw (by simp [Expr.wellFormed])
  | .ident name, _, hw => by
    obtain ⟨hne, hall, -⟩ := isName_iff.1 hw
    obtain ⟨c, rest, hcs⟩ := List.exists_cons_of_ne_nil hne
    have hc : WordChar c := hall c (by simp [hcs])
    exact ⟨c, rest, hcs, by rintro rfl; exact absurd hc (by decide)⟩
  | .int text _, _, hw => by
    simp only [Expr.wellFormed, Bool.and_eq_true] at hw
    obtain ⟨hne, hall⟩ := isNumeral_iff.1 hw.1.1
    obtain ⟨c, rest, hcs⟩ := List.exists_cons_of_ne_nil hne
    have hc : Digit c := hall c (by simp [hcs])
    exact ⟨c, rest, hcs, by rintro rfl; exact absurd hc (by decide)⟩
  | .bool b, _, _ => by cases b <;> simp [Expr.render]
  | .unary _ _, _, _ => by simp [Expr.render]
  | .binary _ _ _, _, _ => by simp [Expr.render]
  | .cond .., hb, _ => absurd hb (by simp [Expr.blockFree])
  | .fn .., hb, _ => absurd hb (by simp [Expr.blockFree])
  | .call f args, hb, hw => by
    simp only [Expr.blockFree, Expr.wellFormed, Bool.and_eq_true] at hb hw
    obtain ⟨c, rest, hcs, hc⟩ := Expr.render_head f hb.1 hw.1
    refine ⟨c, rest ++ ("(" ++ ", ".intercalate (Expr.renderAll args) ++ ")").toList, ?_, hc⟩
    simp only [Expr.render, String.toList_append, hcs, List.cons_append, List.append_assoc]

mutual

/-- The text of a block-free well-formed expression, before what may follow it, scans into a
    run the grammar derives as that expression at its highest level. -/
theorem Expr.scan_render : ∀ e : Expr, e.blockFree = true → e.wellFormed = true →
    ∀ cs : List Char, Boundary cs →
      ∃ ts, scanChars (e.render.toList ++ cs) = ts ++ scanChars cs ∧ Derives 5 ts e .closed
  | .hole, _, hw, _, _ => absurd hw (by simp [Expr.wellFormed])
  | .ident name, _, hw, cs, hcs => by
    refine ⟨[⟨.ident, name⟩], ?_, .atom (.ident rfl)⟩
    simp only [Expr.render, scanChars_name hw hcs, List.singleton_append]
  | .int text n, _, hw, cs, hcs => by
    simp only [Expr.wellFormed, Bool.and_eq_true, beq_iff_eq, decide_eq_true_eq] at hw
    obtain ⟨⟨hnum, rfl⟩, hv⟩ := hw
    refine ⟨[⟨.int, text⟩], ?_, .atom (.int rfl hv)⟩
    simp only [Expr.render, scanChars_numeral hnum hcs, List.singleton_append]
  | .bool true, _, _, cs, hcs => by
    refine ⟨[⟨.kwTrue, "true"⟩], ?_, .atom (.true rfl)⟩
    have h := @scanChars_keyword "true" .kwTrue cs (by simp [TokenKind.ofWord])
      (by decide) hcs
    simpa only [Expr.render, if_true, List.singleton_append] using h
  | .bool false, _, _, cs, hcs => by
    refine ⟨[⟨.kwFalse, "false"⟩], ?_, .atom (.false rfl)⟩
    have h := @scanChars_keyword "false" .kwFalse cs (by simp [TokenKind.ofWord])
      (by decide) hcs
    simpa only [Expr.render, Bool.false_eq_true, if_false, List.singleton_append] using h
  | .unary op e, hb, hw, cs, hcs => by
    simp only [Expr.blockFree, Expr.wellFormed] at hb hw
    obtain ⟨ts, hts, D⟩ := Expr.scan_render e hb hw (')' :: cs) (boundary_cons (by decide)
      (by decide))
    obtain ⟨c, rest, hce, hc⟩ := Expr.render_head e hb hw
    obtain ⟨o, ho, hop⟩ := @PrefixOp.scan_symbol op (e.render.toList ++ ')' :: cs)
      (by simpa [hce] using hc)
    refine ⟨⟨.lparen, "("⟩ :: o :: ts ++ [⟨.rparen, ")"⟩], ?_, ?_⟩
    · calc scanChars ((Expr.unary op e).render.toList ++ cs)
          = scanChars ('(' :: (op.symbol.toList ++ (e.render.toList ++ ')' :: cs))) := by
            simp only [Expr.render, String.toList_append, String.reduceToList, List.cons_append,
              List.nil_append, List.append_assoc]
        _ = ⟨.lparen, "("⟩ :: o :: (ts ++ ⟨.rparen, ")"⟩ :: scanChars cs) := by
            rw [scanChars_lparen, hop, hts, scanChars_rparen]
        _ = _ := by simp
    · -- the operand sits at the prefix level, and the parentheses lift it back to an atom
      have hu := (Derives.unary ho (D.lower (by omega) (Nat.le_refl 5))).lower (Nat.zero_le 4)
        (by omega)
      exact .atom (.group rfl rfl hu (by decide))
  | .binary op l r, hb, hw, cs, hcs => by
    simp only [Expr.blockFree, Expr.wellFormed, Bool.and_eq_true] at hb hw
    obtain ⟨tr, htr, Dr⟩ := Expr.scan_render r hb.2 hw.2 (')' :: cs) (boundary_cons (by decide)
      (by decide))
    obtain ⟨o, n, hn, hop, hscan⟩ := InfixOp.scan_symbol op (r.render.toList ++ ')' :: cs)
    obtain ⟨tl, htl, Dl⟩ := Expr.scan_render l hb.1 hw.1
      (' ' :: (op.symbol.toList ++ ' ' :: (r.render.toList ++ ')' :: cs)))
      (boundary_cons (by decide) (by decide))
    refine ⟨⟨.lparen, "("⟩ :: (tl ++ o :: tr) ++ [⟨.rparen, ")"⟩], ?_, ?_⟩
    · calc scanChars ((Expr.binary op l r).render.toList ++ cs)
          = scanChars ('(' :: (l.render.toList ++
              ' ' :: (op.symbol.toList ++ ' ' :: (r.render.toList ++ ')' :: cs)))) := by
            simp only [Expr.render, String.toList_append, String.reduceToList, List.cons_append,
              List.nil_append, List.append_assoc]
        _ = ⟨.lparen, "("⟩ :: (tl ++ o :: (tr ++ ⟨.rparen, ")"⟩ :: scanChars cs)) := by
            rw [scanChars_lparen, htl, scanChars_space, hscan, scanChars_space, htr,
              scanChars_rparen]
        _ = _ := by simp
    · -- both operands are atoms, so they stand at any level the operator asks of them
      have hn3 := binLevel_le hn
      have hbin := Derives.binary hn hop (Dl.lower (by omega) (Nat.le_refl 5)) (by decide)
        (Dr.lower (by omega) (Nat.le_refl 5))
      exact .atom (.group rfl rfl (hbin.lower (Nat.zero_le n) (by omega)) (by decide))
  | .cond .., hb, _, _, _ => absurd hb (by simp [Expr.blockFree])
  | .fn .., hb, _, _, _ => absurd hb (by simp [Expr.blockFree])
  | .call f args, hb, hw, cs, hcs => by
    simp only [Expr.blockFree, Expr.wellFormed, Bool.and_eq_true] at hb hw
    obtain ⟨ta, hta, A⟩ := Expr.scan_renderArgs args hb.2 hw.2 cs
    obtain ⟨tf, htf, Df⟩ := Expr.scan_render f hb.1 hw.1
      ('(' :: ((", ".intercalate (Expr.renderAll args)).toList ++ ')' :: cs))
      (boundary_cons (by decide) (by decide))
    refine ⟨tf ++ ⟨.lparen, "("⟩ :: ta, ?_, .call rfl Df (by decide) A⟩
    calc scanChars ((Expr.call f args).render.toList ++ cs)
        = scanChars (f.render.toList ++
            '(' :: ((", ".intercalate (Expr.renderAll args)).toList ++ ')' :: cs)) := by
          simp only [Expr.render, String.toList_append, String.reduceToList, List.cons_append,
            List.nil_append, List.append_assoc]
      _ = tf ++ ⟨.lparen, "("⟩ :: (ta ++ scanChars cs) := by rw [htf, scanChars_lparen, hta]
      _ = _ := by simp
termination_by structural e => e

/-- The arguments of a call, written between its parentheses, scan into the argument list
    of the grammar, closing `)` included. -/
theorem Expr.scan_renderArgs : ∀ args : List Expr, Expr.allBlockFree args = true →
    Expr.allWellFormed args = true → ∀ cs : List Char,
      ∃ ts, scanChars ((", ".intercalate (Expr.renderAll args)).toList ++ ')' :: cs) =
        ts ++ scanChars cs ∧ Args ts args
  | [], _, _, cs => by
    refine ⟨[⟨.rparen, ")"⟩], ?_, .nil rfl⟩
    simp only [Expr.renderAll, String.intercalate_nil, String.reduceToList, List.nil_append,
      scanChars_rparen, List.singleton_append]
  | [a], hb, hw, cs => by
    simp only [Expr.allBlockFree, Expr.allWellFormed, Bool.and_true] at hb hw
    obtain ⟨ta, hta, D⟩ := Expr.scan_render a hb hw (')' :: cs) (boundary_cons (by decide)
      (by decide))
    refine ⟨ta ++ [⟨.rparen, ")"⟩], ?_,
      .one (D.lower (Nat.zero_le 5) (Nat.le_refl 5)) (by decide) rfl⟩
    simp only [Expr.renderAll, String.intercalate_singleton, hta, scanChars_rparen,
      List.append_assoc, List.singleton_append]
  | a :: b :: rest, hb, hw, cs => by
    simp only [Expr.allBlockFree, Expr.allWellFormed, Bool.and_eq_true] at hb hw
    obtain ⟨tr, htr, A⟩ := Expr.scan_renderArgs (b :: rest)
      (by simp only [Expr.allBlockFree, Bool.and_eq_true]; exact hb.2)
      (by simp only [Expr.allWellFormed, Bool.and_eq_true]; exact hw.2) cs
    obtain ⟨ta, hta, D⟩ := Expr.scan_render a hb.1 hw.1
      (',' :: ' ' :: ((", ".intercalate (Expr.renderAll (b :: rest))).toList ++ ')' :: cs))
      (boundary_cons (by decide) (by decide))
    refine ⟨ta ++ ⟨.comma, ","⟩ :: tr, ?_,
      .cons (D.lower (Nat.zero_le 5) (Nat.le_refl 5)) (by decide) rfl A (by simp)⟩
    calc scanChars ((", ".intercalate (Expr.renderAll (a :: b :: rest))).toList ++ ')' :: cs)
        = scanChars (a.render.toList ++
            ',' :: ' ' :: ((", ".intercalate (Expr.renderAll (b :: rest))).toList ++ ')' :: cs)) := by
          simp only [Expr.renderAll, String.intercalate_cons_cons, String.toList_append,
            String.reduceToList, List.cons_append, List.nil_append, List.append_assoc]
      _ = ta ++ ⟨.comma, ","⟩ :: (tr ++ scanChars cs) := by
          rw [hta, scanChars_comma, scanChars_space, htr]
      _ = _ := by simp
termination_by structural args => args

end

/-! ## Statements and programs -/

theorem Token.scanChars_let (cs : List Char) (hcs : Boundary cs) :
    scanChars ('l' :: 'e' :: 't' :: cs) = ⟨.kwLet, "let"⟩ :: scanChars cs := by
  have h := @scanChars_keyword "let" .kwLet cs (by simp [TokenKind.ofWord])
    (by decide) hcs
  simpa using h

theorem Token.scanChars_return (cs : List Char) (hcs : Boundary cs) :
    scanChars ('r' :: 'e' :: 't' :: 'u' :: 'r' :: 'n' :: cs) =
      ⟨.kwReturn, "return"⟩ :: scanChars cs := by
  have h := @scanChars_keyword "return" .kwReturn cs (by simp [TokenKind.ofWord])
    (by decide) hcs
  simpa using h

/-- A `let` or a `return`, whose text ends with `;`, scans into a statement of the grammar
    and the `;` after it. -/
theorem Stmt.scan_render_closed : ∀ s : Stmt, s.isExpr = false → s.blockFree = true →
    s.wellFormed = true → ∀ cs : List Char,
      ∃ xs, scanChars (s.render.toList ++ cs) = xs ++ ⟨.semicolon, ";"⟩ :: scanChars cs ∧
        Statement xs s false
  | .bind name e, _, hb, hw, cs => by
    simp only [Stmt.blockFree] at hb
    simp only [Stmt.wellFormed, Bool.and_eq_true] at hw
    obtain ⟨te, hte, D⟩ := Expr.scan_render e hb hw.2 (';' :: cs) (boundary_cons (by decide)
      (by decide))
    refine ⟨⟨.kwLet, "let"⟩ :: ⟨.ident, name⟩ :: ⟨.assign, "="⟩ :: te, ?_,
      .bind rfl rfl rfl (D.lower (Nat.zero_le 5) (Nat.le_refl 5))⟩
    have hsp : Boundary (' ' :: '=' :: ' ' :: (e.render.toList ++ ';' :: cs)) :=
      boundary_cons (by decide) (by decide)
    calc scanChars ((Stmt.bind name e).render.toList ++ cs)
        = scanChars ('l' :: 'e' :: 't' :: ' ' :: (name.toList ++
            ' ' :: '=' :: ' ' :: (e.render.toList ++ ';' :: cs))) := by
          simp only [Stmt.render, String.toList_append, String.reduceToList, List.cons_append,
            List.nil_append, List.append_assoc]
      _ = ⟨.kwLet, "let"⟩ :: ⟨.ident, name⟩ :: ⟨.assign, "="⟩ ::
            (te ++ ⟨.semicolon, ";"⟩ :: scanChars cs) := by
          rw [scanChars_let _ (boundary_cons (by decide) (by decide)), scanChars_space,
            scanChars_name hw.1 hsp, scanChars_space, scanChars_assign, scanChars_space, hte,
            scanChars_semicolon]
      _ = _ := by simp
  | .ret e, _, hb, hw, cs => by
    simp only [Stmt.blockFree] at hb
    simp only [Stmt.wellFormed] at hw
    obtain ⟨te, hte, D⟩ := Expr.scan_render e hb hw (';' :: cs) (boundary_cons (by decide)
      (by decide))
    refine ⟨⟨.kwReturn, "return"⟩ :: te, ?_, .ret rfl (D.lower (Nat.zero_le 5) (Nat.le_refl 5))⟩
    calc scanChars ((Stmt.ret e).render.toList ++ cs)
        = scanChars ('r' :: 'e' :: 't' :: 'u' :: 'r' :: 'n' :: ' ' ::
            (e.render.toList ++ ';' :: cs)) := by
          simp only [Stmt.render, String.toList_append, String.reduceToList, List.cons_append,
            List.nil_append, List.append_assoc]
      _ = ⟨.kwReturn, "return"⟩ :: (te ++ ⟨.semicolon, ";"⟩ :: scanChars cs) := by
          rw [scanChars_return _ (boundary_cons (by decide) (by decide)), scanChars_space, hte,
            scanChars_semicolon]
      _ = _ := by simp
  | .expr _, hs, _, _, _ => absurd hs (by simp [Stmt.isExpr])

/-- An expression standing alone at the end of the text scans into a statement. -/
theorem Stmt.scan_render_expr {e : Expr} (hb : e.blockFree = true) (hw : e.wellFormed = true) :
    Statement (scanChars (Stmt.expr e).render.toList) (.expr e) false := by
  obtain ⟨ts, hts, D⟩ := Expr.scan_render e hb hw [] boundary_nil
  rw [List.append_nil, scanChars_nil, List.append_nil] at hts
  rw [Stmt.render, hts]
  exact .expr (D.lower (Nat.zero_le 5) (Nat.le_refl 5))

theorem mem_dropLast_cons {α : Type} {x a : α} {l : List α} (h : x ∈ l.dropLast) :
    x ∈ (a :: l).dropLast := by
  cases l with
  | nil => simp at h
  | cons b l => exact List.mem_cons_of_mem a h

/-- The text of block-free well-formed statements, each but the last a `let` or a
    `return`, scans into a sequence of statements of the grammar. -/
theorem Stmt.scan_renderAll : ∀ ss : List Stmt, ss.all Stmt.blockFree = true →
    Stmt.allWellFormed ss = true → (∀ s ∈ ss.dropLast, s.isExpr = false) →
      Statements (scanChars (Stmt.renderAll ss).toList) ss false
  | [], _, _, _ => by
    rw [Stmt.renderAll, String.toList_empty, scanChars_nil]
    exact .nil
  | s :: ss, hb, hw, hl => by
    simp only [List.all_cons, Stmt.allWellFormed, Bool.and_eq_true] at hb hw
    cases hs : s.isExpr with
    | true =>
      -- an expression standing alone can only be the last statement
      have hss : ss = [] := by
        cases ss with
        | nil => rfl
        | cons t ts => exact absurd (hl s (by simp)) (by rw [hs]; decide)
      subst hss
      obtain ⟨e, rfl⟩ : ∃ e, s = .expr e := by cases s <;> simp_all [Stmt.isExpr]
      have St := Stmt.scan_render_expr hb.1 hw.1
      have S := Statements.cons St (by simp [Separates]) Statements.nil
      rw [List.append_nil] at S
      simpa [Stmt.renderAll] using S
    | false =>
      obtain ⟨xs, hxs, St⟩ := Stmt.scan_render_closed s hs hb.1 hw.1 (Stmt.renderAll ss).toList
      have ih := Stmt.scan_renderAll ss hb.2 hw.2 fun x hx => hl x (mem_dropLast_cons hx)
      rw [Stmt.renderAll, String.toList_append, hxs]
      exact .semi St rfl ih

theorem Program.eq_of_stmts {p q : Program} (h : p.stmts = q.stmts) : p = q := by
  cases p
  cases q
  cases h
  rfl

/-- A block-free well-formed program whose statements but the last are `let`s and
    `return`s reads back from its canonical text with no issue. -/
theorem Program.parse_render {P : Program} (hb : P.stmts.all Stmt.blockFree = true)
    (hw : Stmt.allWellFormed P.stmts = true) (hl : ∀ s ∈ P.stmts.dropLast, s.isExpr = false) :
    (Program.parse P.render).issues = [] ∧ (Program.parse P.render).program = P := by
  obtain ⟨hs, hi⟩ := (Stmt.scan_renderAll P.stmts hb hw hl).program
  exact ⟨hi, Program.eq_of_stmts hs⟩

example :
    Program.render ⟨[.bind "y" (.binary .mul (.unary .neg (.ident "x"))
        (.binary .add (.ident "a") (.ident "b"))),
      .expr (.call (.call (.ident "f") [.ident "y"]) [.int "01" 1])]⟩ =
      "let y = ((-x) * (a + b));f(y)(01)" := by
  cbv

/-- A program the parser read with no issue, holding no `if` and no function literal, and
    whose statements but the last are `let`s and `return`s, reads back from its canonical
    text with no issue as the same program; its text is then left as it is by parsing and
    rendering again. -/
theorem Program.parse_render_of_parse {src : String} {P : Program}
    (hi : (Program.parse src).issues = []) (hP : (Program.parse src).program = P)
    (hb : P.stmts.all Stmt.blockFree = true) (hl : ∀ s ∈ P.stmts.dropLast, s.isExpr = false) :
    (Program.parse P.render).issues = [] ∧ (Program.parse P.render).program = P ∧
      (Program.parse P.render).program.render = P.render := by
  have hw : Stmt.allWellFormed P.stmts = true := hP ▸ Program.parse_wellFormed src hi
  obtain ⟨h1, h2⟩ := Program.parse_render hb hw hl
  exact ⟨h1, h2, by rw [h2]⟩

/-- The tokens of `let y = -x * (a + b); f(y)(1)`. -/
theorem scan_let_then_call :
    Token.scan "let y = -x * (a + b); f(y)(1)" =
      [⟨.kwLet, "let"⟩, ⟨.ident, "y"⟩, ⟨.assign, "="⟩, ⟨.minus, "-"⟩, ⟨.ident, "x"⟩,
        ⟨.asterisk, "*"⟩, ⟨.lparen, "("⟩, ⟨.ident, "a"⟩, ⟨.plus, "+"⟩, ⟨.ident, "b"⟩,
        ⟨.rparen, ")"⟩, ⟨.semicolon, ";"⟩, ⟨.ident, "f"⟩, ⟨.lparen, "("⟩, ⟨.ident, "y"⟩,
        ⟨.rparen, ")"⟩, ⟨.lparen, "("⟩, ⟨.int, "1"⟩, ⟨.rparen, ")"⟩] := by
  simp [Token.scan, Token.scanChars, Token.next, Token.read, Token.isWordChar, TokenKind.ofWord,
    TokenKind.ofSymbol?, Token.eof]

/-- The grammar reads `let y = -x * (a + b); f(y)(1)` as a `let` of a product whose left
    factor is a negation, and a call of a call. -/
theorem statements_let_then_call :
    Statements (Token.scan "let y = -x * (a + b); f(y)(1)")
      [.bind "y" (.binary .mul (.unary .neg (.ident "x")) (.binary .add (.ident "a") (.ident "b"))),
        .expr (.call (.call (.ident "f") [.ident "y"]) [.int "1" 1])] false := by
  rw [scan_let_then_call]
  have hx : Derives 4 [⟨.ident, "x"⟩] (.ident "x") .closed :=
    (Derives.atom (.ident rfl)).lower (by omega) (Nat.le_refl 5)
  have ha : Derives 2 [⟨.ident, "a"⟩] (.ident "a") .closed :=
    (Derives.atom (.ident rfl)).lower (by omega) (Nat.le_refl 5)
  have hb : Derives 3 [⟨.ident, "b"⟩] (.ident "b") .closed :=
    (Derives.atom (.ident rfl)).lower (by omega) (Nat.le_refl 5)
  have hsum : Derives 0 [⟨.ident, "a"⟩, ⟨.plus, "+"⟩, ⟨.ident, "b"⟩]
      (.binary .add (.ident "a") (.ident "b")) .closed :=
    (Derives.binary rfl rfl ha (by decide) hb).lower (Nat.zero_le 2) (by omega)
  have hgroup : Derives 4 [⟨.lparen, "("⟩, ⟨.ident, "a"⟩, ⟨.plus, "+"⟩, ⟨.ident, "b"⟩,
      ⟨.rparen, ")"⟩] (.binary .add (.ident "a") (.ident "b")) .closed :=
    (Derives.atom (.group rfl rfl hsum (by decide))).lower (by omega) (Nat.le_refl 5)
  have hneg : Derives 3 [⟨.minus, "-"⟩, ⟨.ident, "x"⟩] (.unary .neg (.ident "x")) .closed :=
    .lift (by omega) (.unary rfl hx)
  have hprod : Derives 0 [⟨.minus, "-"⟩, ⟨.ident, "x"⟩, ⟨.asterisk, "*"⟩, ⟨.lparen, "("⟩,
      ⟨.ident, "a"⟩, ⟨.plus, "+"⟩, ⟨.ident, "b"⟩, ⟨.rparen, ")"⟩]
      (.binary .mul (.unary .neg (.ident "x")) (.binary .add (.ident "a") (.ident "b")))
      .closed :=
    (Derives.binary rfl rfl hneg (by decide) hgroup).lower (Nat.zero_le 3) (by omega)
  have hy : Derives 0 [⟨.ident, "y"⟩] (.ident "y") .closed :=
    (Derives.atom (.ident rfl)).lower (Nat.zero_le 5) (Nat.le_refl 5)
  have h1 : Derives 0 [⟨.int, "1"⟩] (.int "1" (digitsValue "1")) .closed :=
    (Derives.atom (@Atom.int ⟨.int, "1"⟩ rfl (by simp [digitsValue, intLiteralLimit]))).lower
      (Nat.zero_le 5) (Nat.le_refl 5)
  rw [show digitsValue "1" = 1 by simp [digitsValue]] at h1
  have hfy : Derives 5 [⟨.ident, "f"⟩, ⟨.lparen, "("⟩, ⟨.ident, "y"⟩, ⟨.rparen, ")"⟩]
      (.call (.ident "f") [.ident "y"]) .closed :=
    .call rfl (.atom (.ident rfl)) (by decide) (.one hy (by decide) rfl)
  have hcall : Derives 0 [⟨.ident, "f"⟩, ⟨.lparen, "("⟩, ⟨.ident, "y"⟩, ⟨.rparen, ")"⟩,
      ⟨.lparen, "("⟩, ⟨.int, "1"⟩, ⟨.rparen, ")"⟩]
      (.call (.call (.ident "f") [.ident "y"]) [.int "1" 1]) .closed :=
    (Derives.call rfl hfy (by decide) (.one h1 (by decide) rfl)).lower (Nat.zero_le 5)
      (Nat.le_refl 5)
  exact .semi (.bind rfl rfl rfl hprod) rfl (.cons (.expr hcall) (by simp [Separates]) .nil)

/-- `let y = -x * (a + b); f(y)(1)` parses with no issue into a program free of blocks whose
    first statement is a `let`, and that program reads back from its canonical text
    `let y = ((-x) * (a + b));f(y)(1)` as itself. -/
theorem Program.reads_back_sample :
    (Program.parse "let y = -x * (a + b); f(y)(1)").issues = [] ∧
      (Program.parse "let y = -x * (a + b); f(y)(1)").program.stmts.all Stmt.blockFree = true ∧
      (∀ s ∈ (Program.parse "let y = -x * (a + b); f(y)(1)").program.stmts.dropLast,
        s.isExpr = false) ∧
      ((Program.parse (Program.parse "let y = -x * (a + b); f(y)(1)").program.render).issues =
          [] ∧
        (Program.parse (Program.parse "let y = -x * (a + b); f(y)(1)").program.render).program =
          (Program.parse "let y = -x * (a + b); f(y)(1)").program ∧
        (Program.parse
            (Program.parse "let y = -x * (a + b); f(y)(1)").program.render).program.render =
          (Program.parse "let y = -x * (a + b); f(y)(1)").program.render) := by
  obtain ⟨hs, hi⟩ := statements_let_then_call.program
  have hi' : (Program.parse "let y = -x * (a + b); f(y)(1)").issues = [] := by
    rw [Program.parse, Program.ofTokens_issues, hi]
  have hs' : (Program.parse "let y = -x * (a + b); f(y)(1)").program.stmts =
      [.bind "y" (.binary .mul (.unary .neg (.ident "x")) (.binary .add (.ident "a") (.ident "b"))),
        .expr (.call (.call (.ident "f") [.ident "y"]) [.int "1" 1])] := hs
  have hb : (Program.parse "let y = -x * (a + b); f(y)(1)").program.stmts.all Stmt.blockFree =
      true := by
    rw [hs']
    decide
  have hl : ∀ s ∈ (Program.parse "let y = -x * (a + b); f(y)(1)").program.stmts.dropLast,
      s.isExpr = false := by
    rw [hs']
    decide
  exact ⟨hi', hb, hl, Program.parse_render_of_parse hi' rfl hb hl⟩

end Sugiru
