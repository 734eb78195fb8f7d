import Mathlib
import Sugiru.Session

/-!
# Reports filled from templates

A template reads `{{` as `{` and `}}` as `}`, so a text whose braces are all written twice
is shown by a template exactly as it was before the doubling, whatever follows it. The
report on a source that did not parse is built that way: its template holds one field for
the source and then the parser's messages, braces doubled, because messages quote brace
tokens (`expected next token to be {`). Filling it with the source therefore gives the
plain text: the source where the field was, and every message as the parser wrote it.

An evaluation error fills its template with the text of the node at fault and then its
details. The templates of the faults are plain texts with empty fields between them, and
such a template takes its arguments in turn, each where its field stands.

Main results:

* `Text.fillFrom_doubled`: a doubled text, followed by anything, is filled into itself
  followed by what the rest fills into.
* `Text.fill_fields`: plain texts with empty fields between them are filled with the
  arguments in turn.
* `Diagnostic.fill_unparsedTemplate`: the message of the report is
  `could not parse '<source>'` and then `\n  - <message>` for each message, in order.
* `Diagnostic.ofUnparsed_eq`: building the report from its template gives
  `Diagnostic.unparsed`, the report the session raises.
* `Fault.ofEvaluation_eq`: the report a session raises for a fault other than depth is
  the diagnostic of the evaluation error built from the fault's template, node and
  details.
-/

namespace Sugiru

namespace Text

/-! ## Filling a doubled text -/

theorem fillFrom_plain {args : List String} {d : Nat} {n : Numbering} {c : Char}
    {rest : List Char} (h1 : c ≠ '\x7b') (h2 : c ≠ '\x7d') :
    fillFrom args (d + 1) n (c :: rest) =
      (fun (t, m) => (String.singleton c ++ t, m)) <$> fillFrom args (d + 1) n rest :=
  fillFrom.eq_8 args n d c rest (fun _ h => absurd h h1) (fun _ h => absurd h h2) h2
    (fun h => absurd h h1) h1

theorem fillFrom_open_open {args : List String} {d : Nat} {n : Numbering} {rest : List Char} :
    fillFrom args (d + 1) n ('\x7b' :: '\x7b' :: rest) =
      (fun (t, m) => ("\x7b" ++ t, m)) <$> fillFrom args (d + 1) n rest :=
  fillFrom.eq_3 args n d rest

theorem fillFrom_close_close {args : List String} {d : Nat} {n : Numbering} {rest : List Char} :
    fillFrom args (d + 1) n ('\x7d' :: '\x7d' :: rest) =
      (fun (t, m) => ("\x7d" ++ t, m)) <$> fillFrom args (d + 1) n rest :=
  fillFrom.eq_4 args n d rest

theorem map_prefix_prefix (s u : String) (x : Except TemplateFault (String × Numbering)) :
    (fun (t, m) => (s ++ t, m)) <$> ((fun (t, m) => (u ++ t, m)) <$> x) =
      (fun (t, m) => (s ++ u ++ t, m)) <$> x := by
  rw [Functor.map_map]
  congr 1
  funext ⟨t, m⟩
  simp [String.append_assoc]

/-- A doubled text is filled into itself, with the numbering of the fields unchanged:
    each brace pair is one escaped brace, and no field starts inside the text. -/
theorem fillFrom_doubled (args : List String) (d : Nat) (n : Numbering) (cs rest : List Char) :
    fillFrom args (d + 1) n (cs.flatMap doubleBrace ++ rest) =
      (fun (t, m) => (String.ofList cs ++ t, m)) <$> fillFrom args (d + 1) n rest := by
  induction cs with
  | nil => simp
  | cons c cs ih =>
    have hc : String.ofList (c :: cs) = String.singleton c ++ String.ofList cs :=
      String.ofList_cons
    by_cases h1 : c = '\x7b'
    · subst h1
      simp only [List.flatMap_cons, doubleBrace, if_true, List.cons_append, List.nil_append]
      rw [fillFrom_open_open, ih, map_prefix_prefix, hc]
      rfl
    · by_cases h2 : c = '\x7d'
      · subst h2
        simp only [List.flatMap_cons, doubleBrace, h1, if_false, if_true, List.cons_append,
          List.nil_append]
        rw [fillFrom_close_close, ih, map_prefix_prefix, hc]
        rfl
      · simp only [List.flatMap_cons, doubleBrace, h1, h2, if_false, List.cons_append,
          List.nil_append]
        rw [fillFrom_plain h1 h2, ih, map_prefix_prefix, hc]

/-- A text without braces is its own doubled form. -/
theorem flatMap_doubleBrace_of_plain {cs : List Char} (h : '\x7b' ∉ cs ∧ '\x7d' ∉ cs) :
    cs.flatMap doubleBrace = cs := by
  induction cs with
  | nil => rfl
  | cons c cs ih =>
    simp only [List.mem_cons, not_or] at h
    simp [doubleBrace, Ne.symm h.1.1, Ne.symm h.2.1, ih ⟨h.1.2, h.2.2⟩]

/-! ## The field `{}` -/

theorem readField_empty (rest : List Char) :
    readField ('\x7d' :: rest) = .ok (⟨[], none, []⟩, ⟨rest, Nat.lt_succ_self _⟩) := by
  unfold readField
  split
  · simp [readName] at *
  · rename_i name stop r h
    simp only [readName, if_false, Bool.false_eq_true, decide_true, Bool.true_or, if_true,
      List.reverse_nil] at h
    obtain ⟨rfl, rfl, rfl⟩ := h
    simp

theorem argument_unset {args : List String} {a : String} (h : args[0]? = some a) :
    argument args .unset [] = .ok (a, .auto 1) := by
  simp [argument, index?, h]

theorem argument_auto {args : List String} {k : Nat} {a : String} (h : args[k]? = some a) :
    argument args (.auto k) [] = .ok (a, .auto (k + 1)) := by
  simp [argument, index?, h]

/-- An empty field takes the argument its numbering gives it, as it is. -/
theorem fillFrom_field {args : List String} {d : Nat} {n n' : Numbering} {a : String}
    {rest : List Char} (h : argument args n [] = .ok (a, n')) :
    fillFrom args (d + 1) n ('\x7b' :: '\x7d' :: rest) =
      (fun (t, m) => (a ++ t, m)) <$> fillFrom args (d + 1) n' rest := by
  rw [fillFrom.eq_7 args n d ('\x7d' :: rest) (fun _ h => by simp at h) (by simp),
    readField_empty]
  simp [fieldValue, h, access, convert, applySpec]
  rfl

/-- A text without braces is filled into itself. -/
theorem fillFrom_plain_append (args : List String) (d : Nat) (n : Numbering) {cs : List Char}
    (rest : List Char) (h : '\x7b' ∉ cs ∧ '\x7d' ∉ cs) :
    fillFrom args (d + 1) n (cs ++ rest) =
      (fun (t, m) => (String.ofList cs ++ t, m)) <$> fillFrom args (d + 1) n rest := by
  have hd := fillFrom_doubled args d n cs rest
  rwa [flatMap_doubleBrace_of_plain h] at hd

/-- Empty fields, each followed by a text without braces, take the arguments in turn from
    the `k`-th on. -/
theorem fillFrom_fields (args : List String) (d : Nat) (qs : List String)
    (hq : ∀ q ∈ qs, '\x7b' ∉ q.toList ∧ '\x7d' ∉ q.toList) (k : Nat)
    (hk : k + qs.length ≤ args.length) :
    fillFrom args (d + 1) (.auto k) (qs.flatMap (fun q => '\x7b' :: '\x7d' :: q.toList)) =
      .ok (String.join (List.zipWith (· ++ ·) (args.drop k) qs), .auto (k + qs.length)) := by
  induction qs generalizing k with
  | nil => simp [fillFrom.eq_2]
  | cons q qs ih =>
    have hlt : k < args.length := by simp at hk; omega
    have hrest := ih (fun q' h' => hq q' (List.mem_cons_of_mem q h')) (k + 1)
      (by simp at hk; omega)
    rw [List.flatMap_cons, List.cons_append, List.cons_append,
      fillFrom_field (argument_auto (List.getElem?_eq_getElem hlt)),
      fillFrom_plain_append _ _ _ _ (hq q List.mem_cons_self), hrest,
      List.drop_eq_getElem_cons hlt]
    simp only [Functor.map, Except.map, List.zipWith_cons_cons, String.join_cons,
      String.ofList_toList, String.append_assoc, List.length_cons]
    rw [show k + 1 + qs.length = k + (qs.length + 1) by omega]

/-- A template of texts without braces, an empty field between each two, is filled with
    the arguments in turn, each where its field was. -/
theorem fill_fields {template p : String} {qs args : List String}
    (ht : template.toList = p.toList ++ qs.flatMap (fun q => '\x7b' :: '\x7d' :: q.toList))
    (hp : '\x7b' ∉ p.toList ∧ '\x7d' ∉ p.toList)
    (hq : ∀ q ∈ qs, '\x7b' ∉ q.toList ∧ '\x7d' ∉ q.toList) (hne : qs ≠ [])
    (hlen : qs.length ≤ args.length) :
    fill template args = .ok (p ++ String.join (List.zipWith (· ++ ·) args qs)) := by
  obtain ⟨q, qs, rfl⟩ := List.exists_cons_of_ne_nil hne
  obtain ⟨a, args, rfl⟩ := List.exists_cons_of_ne_nil (List.ne_nil_of_length_pos
    (Nat.lt_of_lt_of_le (List.length_pos_of_ne_nil hne) hlen))
  have hrest := fillFrom_fields (a :: args) 1 qs (fun q' h' => hq q' (List.mem_cons_of_mem q h'))
    1 (by simp at hlen ⊢; omega)
  -- the first field is numbered automatically from nothing, then the rest from the second
  unfold fill
  rw [ht, fillFrom_plain_append _ _ _ _ hp, List.flatMap_cons, List.cons_append,
    List.cons_append, fillFrom_field (argument_unset rfl),
    fillFrom_plain_append _ _ _ _ (hq q List.mem_cons_self), hrest]
  simp only [Functor.map, Except.map, List.drop_one, List.tail_cons, List.zipWith_cons_cons,
    String.join_cons, String.ofList_toList, String.append_assoc]

end Text

namespace Diagnostic

/-! ## The report on a source that did not parse -/

theorem unparsedTemplate_eq (messages : List String) :
    unparsedTemplate messages =
      "could not parse '\x7b\x7d'" ++
        String.join (messages.map (fun e => "\n  - " ++ Text.doubleBraces e)) := by
  unfold unparsedTemplate
  generalize "could not parse '\x7b\x7d'" = init
  induction messages generalizing init with
  | nil => simp
  | cons e es ih =>
    rw [List.foldl_cons, ih]
    simp [String.append_assoc]

/-- The template is a plain text, the field, and then a doubled text: the closing quote
    and the messages. -/
theorem toList_unparsedTemplate (messages : List String) :
    (unparsedTemplate messages).toList = "could not parse '".toList ++ '\x7b' :: '\x7d' ::
      ("'" ++ String.join (messages.map ("\n  - " ++ ·))).toList.flatMap Text.doubleBrace := by
  rw [unparsedTemplate_eq]
  simp [String.toList_join, Text.doubleBraces, List.flatMap_map, List.flatMap_assoc,
    Text.doubleBrace]

theorem fillFrom_unparsedTemplate (messages : List String) (source : String) :
    Text.fillFrom [source] 2 .unset (unparsedTemplate messages).toList =
      .ok ("could not parse '" ++ source ++ "'" ++ String.join (messages.map ("\n  - " ++ ·)),
        .auto 1) := by
  have hplain : "could not parse '".toList.flatMap Text.doubleBrace = "could not parse '".toList :=
    Text.flatMap_doubleBrace_of_plain (by decide)
  rw [toList_unparsedTemplate, ← hplain, Text.fillFrom_doubled,
    Text.fillFrom_field (Text.argument_unset rfl),
    ← List.append_nil (List.flatMap Text.doubleBrace _), Text.fillFrom_doubled,
    Text.fillFrom.eq_2]
  simp only [String.ofList_toList, Functor.map, Except.map, String.append_empty,
    String.append_assoc]

/-- The message of the report on a source that did not parse: the source between quotes,
    then each of the parser's messages on a line of its own, as the parser wrote it, braces
    included. -/
theorem fill_unparsedTemplate (messages : List String) (source : String) :
    Text.fill (unparsedTemplate messages) [source] =
      .ok ("could not parse '" ++ source ++ "'" ++ String.join (messages.map ("\n  - " ++ ·))) := by
  unfold Text.fill
  rw [fillFrom_unparsedTemplate]
  rfl

/-- Building the report from its template gives the report the session raises. -/
theorem ofUnparsed_eq (source : String) (messages : List String) :
    ofUnparsed source messages = .ok (unparsed source messages) := by
  unfold ofUnparsed ofTemplate Text.fill
  rw [fillFrom_unparsedTemplate]
  rfl

/-- An evaluation error whose template is filled with the node's text and the details
    reports the filled message, with the node as its culprit and its span shown. -/
theorem ofEvaluation_of_fill {template c m : String} {ds : List String}
    (h : Text.fill template (c :: ds) = .ok m) :
    ofEvaluation template (some c) ds = .ok { message := m, culprit := c } := by
  unfold ofEvaluation ofTemplate
  rw [Option.getD_some, h]
  rfl

end Diagnostic

/-! ## The reports of evaluation errors -/

/-- A fault other than depth raises its message, with the expression at fault as the
    culprit. -/
theorem Failure.toDiagnostic_fault {f : Fault} (h : f ≠ .tooDeep) :
    (Failure.fault f).toRaised.toDiagnostic = { message := f.message, culprit := f.culprit } := by
  cases f with
  | tooDeep => exact absurd rfl h
  | _ => rfl

namespace Fault

/-- A fault whose template is plain texts with empty fields between them, filled with the
    node at fault and the details into the fault's message, is reported with that message. -/
theorem ofEvaluation_of_pieces (f : Fault) (p : String) (qs : List String)
    (ht : f.template.toList = p.toList ++ qs.flatMap (fun q => '\x7b' :: '\x7d' :: q.toList))
    (hp : '\x7b' ∉ p.toList ∧ '\x7d' ∉ p.toList)
    (hq : ∀ q ∈ qs, '\x7b' ∉ q.toList ∧ '\x7d' ∉ q.toList) (hne : qs ≠ [])
    (hlen : qs.length ≤ f.details.length + 1)
    (hm : p ++ String.join (List.zipWith (· ++ ·) (f.culprit :: f.details) qs) = f.message) :
    Diagnostic.ofEvaluation f.template (some f.culprit) f.details =
      .ok { message := f.message, culprit := f.culprit } := by
  rw [Diagnostic.ofEvaluation_of_fill (Text.fill_fields ht hp hq hne hlen), hm]

/-- Every fault but depth is reported with the diagnostic an evaluation error builds from
    the fault's template, the text of the node at fault and the fault's details. -/
theorem ofEvaluation_eq (f : Fault) (h : f ≠ .tooDeep) :
    Diagnostic.ofEvaluation f.template (some f.culprit) f.details =
      .ok (Failure.fault f).toRaised.toDiagnostic := by
  rw [Failure.toDiagnostic_fault h]
  -- each template is plain text with empty fields between: one for the node, then one
  -- for each detail; the filled pieces are the message once it is unfolded
  cases f with
  | divByZero e =>
    refine ofEvaluation_of_pieces _ "division by zero: '" ["'"] ?_ (by decide) (by decide)
      (by simp) (by simp [details]) ?_
    · simp only [template]
      decide
    · simp only [culprit, details, List.zipWith_cons_cons, List.zipWith_nil_left,
        String.join_cons, String.join_nil, String.append_empty]
      unfold message
      simp only [String.append_assoc]
  | unbound name =>
    refine ofEvaluation_of_pieces _ "identifier not found: '" ["'"] ?_ (by decide) (by decide)
      (by simp) (by simp [details]) ?_
    · simp only [template]
      decide
    · simp only [culprit, details, List.zipWith_cons_cons, List.zipWith_nil_left,
        String.join_cons, String.join_nil, String.append_empty]
      unfold message
      simp only [String.append_assoc]
  | notCallable callee got =>
    refine ofEvaluation_of_pieces _ "'" ["' is not a function, got ", ""] ?_ (by decide)
      (by decide) (by simp) (by simp [details]) ?_
    · simp only [template]
      decide
    · simp only [culprit, details, List.zipWith_cons_cons, List.zipWith_nil_left,
        String.join_cons, String.join_nil, String.append_empty]
      unfold message
      simp only [String.append_assoc]
  | arity call expected given =>
    refine ofEvaluation_of_pieces _ "'" ["' expects ", " argument(s), got ", ""] ?_ (by decide)
      (by decide) (by simp) (by simp [details]) ?_
    · simp only [template]
      decide
    · simp only [culprit, details, List.zipWith_cons_cons, List.zipWith_nil_left,
        String.join_cons, String.join_nil, String.append_empty]
      unfold message
      simp only [String.append_assoc]
  | tooDeep => exact absurd rfl h

end Fault

end Sugiru
