import Sugiru.Text.Unicode

/-!
# Message templates

A template is text with replacement fields between braces; `{{` and `}}` stand for a brace.
A field is `{name!c:spec}`, each part optional:

* the name picks an argument: empty for the next one, digits for the one at that index
  (from zero); it may go on with `[i]`, the `i`-th character of the argument. Digits of
  indices, widths and precisions are decimal digits of any script (`decimalValue?`). A template
  numbers its fields either all automatically or all by hand.
* the conversion `c` is `s` (the text as it is), `r` (the text quoted) or `a` (quoted,
  with every character outside ASCII escaped).
* the spec is `[[fill]align][width][.precision][s]`, with align `<`, `>` or `^`; the text
  is cut to `precision` characters and padded to `width` with `fill`, on the right unless
  the alignment says otherwise. Fields inside a spec are filled first, one level deep.

`fill` fails with a `TemplateFault` where a template breaks these rules; `kind` and
`message` say what went wrong, in the words of the exception the fault stands for.
-/

namespace Sugiru.Text

/-- Why a template could not be filled. -/
inductive TemplateFault where
  | loneClose
  | loneOpen
  | unclosed
  | braceInName
  | conversionMissing
  | colonExpected
  | specUnclosed
  | autoAfterManual
  | manualAfterAuto
  | tooManyDigits
  | tooDeep
  | emptyAttribute
  | missingBracket
  | badAccessor
  /-- A field asks for argument `index`, and there are fewer arguments. -/
  | missing (index : Nat)
  /-- A field names an argument by a word. -/
  | named (name : String)
  /-- A field asks for an attribute of an argument. -/
  | noAttribute (name : String)
  /-- A field indexes past the end of an argument. -/
  | charIndex
  /-- A field indexes an argument by a word. -/
  | textKey
  | unknownConversion (c : Char)
  | specInvalid (spec : String)
  | unknownCode (c : Char)
  | spaceSign
  | sign
  | negativeZero
  | alternate
  | equalsAlign
  | missingPrecision
  | grouping (sep code : Char)
  | bothGroupings
  deriving DecidableEq, Repr

/-- Lowercase hexadecimal digits of a number, at least `width` of them. -/
def hexDigits (width n : Nat) : String :=
  let ds := Nat.toDigits 16 n
  String.ofList (List.replicate (width - ds.length) '0' ++ ds)

/-- A character in a message: itself when it is printable ASCII, its code in hexadecimal
    after `\x` otherwise. -/
def codeText (c : Char) : String :=
  if 32 < c.toNat && c.toNat < 127 then String.singleton c else "\\x" ++ hexDigits 0 c.toNat

/-- The escape of a character by its code: `\x` and two hexadecimal digits, `\u` and four,
    or `\U` and eight. -/
def codeEscape (c : Char) : String :=
  if c.toNat < 0x100 then "\\x" ++ hexDigits 2 c.toNat
  else if c.toNat < 0x10000 then "\\u" ++ hexDigits 4 c.toNat
  else "\\U" ++ hexDigits 8 c.toNat

/-- A text between quotes: single quotes unless the text holds a single quote and no
    double quote. The quote and the backslash are escaped by a backslash, tab, line feed
    and carriage return by `\t`, `\n` and `\r`, and characters not shown by their code;
    with `ascii` set, so is every character outside ASCII. -/
def quote (ascii : Bool) (s : String) : String :=
  let cs := s.toList
  let q := if cs.contains '\'' && !cs.contains '"' then '"' else '\''
  let esc (c : Char) : String :=
    if c = q || c = '\\' then "\\" ++ String.singleton c
    else if c = '\t' then "\\t"
    else if c = '\n' then "\\n"
    else if c = '\r' then "\\r"
    else if isShown c && !(ascii && 0x80 ≤ c.toNat) then String.singleton c
    else codeEscape c
  String.singleton q ++ String.join (cs.map esc) ++ String.singleton q

namespace TemplateFault

/-- The class of a fault, named as the exception it stands for. -/
def kind : TemplateFault → String
  | missing _ | charIndex => "IndexError"
  | named _ => "KeyError"
  | noAttribute _ => "AttributeError"
  | textKey => "TypeError"
  | _ => "ValueError"

/-- The text of a fault. -/
def message : TemplateFault → String
  | loneClose => "Single '\x7d' encountered in format string"
  | loneOpen => "Single '\x7b' encountered in format string"
  | unclosed => "expected '\x7d' before end of string"
  | braceInName => "unexpected '\x7b' in field name"
  | conversionMissing => "end of string while looking for conversion specifier"
  | colonExpected => "expected ':' after conversion specifier"
  | specUnclosed => "unmatched '\x7b' in format spec"
  | autoAfterManual =>
    "cannot switch from manual field specification to automatic field numbering"
  | manualAfterAuto =>
    "cannot switch from automatic field numbering to manual field specification"
  | tooManyDigits => "Too many decimal digits in format string"
  | tooDeep => "Max string recursion exceeded"
  | emptyAttribute => "Empty attribute in format string"
  | missingBracket => "Missing ']' in format string"
  | badAccessor => "Only '.' or '[' may follow ']' in format field specifier"
  | missing i => "Replacement index " ++ toString i ++ " out of range for positional args tuple"
  | named name => quote false name
  | noAttribute name => "'str' object has no attribute '" ++ name ++ "'"
  | charIndex => "string index out of range"
  | textKey => "string indices must be integers, not 'str'"
  | unknownConversion c => "Unknown conversion specifier " ++ codeText c
  | specInvalid spec => "Invalid format specifier '" ++ spec ++ "' for object of type 'str'"
  | unknownCode c => "Unknown format code '" ++ codeText c ++ "' for object of type 'str'"
  | spaceSign => "Space not allowed in string format specifier"
  | sign => "Sign not allowed in string format specifier"
  | negativeZero => "Negative zero coercion (z) not allowed in string format specifier"
  | alternate => "Alternate form (#) not allowed in string format specifier"
  | equalsAlign => "'=' alignment not allowed in string format specifier"
  | missingPrecision => "Format specifier missing precision"
  | grouping sep code =>
    "Cannot specify '" ++ String.singleton sep ++ "' with '" ++ codeText code ++ "'."
  | bothGroupings => "Cannot specify both ',' and '_'."

end TemplateFault

/-- The largest index, width or precision a template may give: `2 ^ 63 - 1`. -/
def indexLimit : Nat := 9223372036854775807

/-- The leading digits of a character list read as a number after `acc`, and the
    characters after them; a number above `indexLimit` is a fault. -/
def leadingNumber (acc : Nat) : List Char → Except TemplateFault (Nat × List Char)
  | c :: rest =>
    match decimalValue? c with
    | some d =>
      let n := 10 * acc + d
      if n > indexLimit then .error .tooManyDigits else leadingNumber n rest
    | none => .ok (acc, c :: rest)
  | [] => .ok (acc, [])

/-- The index a text of digits gives; `none` when the text is empty or holds another
    character (too many digits before it are still a fault). -/
def index? (cs : List Char) : Except TemplateFault (Option Nat) := do
  if cs.isEmpty then return none
  let (n, rest) ← leadingNumber 0 cs
  return if rest.isEmpty then some n else none

/-! ## Reading a field -/

/-- A replacement field as written: its name, its conversion and its spec. -/
structure Field where
  name : List Char
  conversion : Option Char
  spec : List Char

/-- The spec of a field up to the `}` that closes it, with `depth` braces open inside it,
    and what follows that `}`. -/
def readSpec (depth : Nat) (acc : List Char) :
    List Char → Except TemplateFault (List Char × List Char)
  | [] => .error .specUnclosed
  | '\x7b' :: rest => readSpec (depth + 1) ('\x7b' :: acc) rest
  | '\x7d' :: rest =>
    match depth with
    | 0 => .ok (acc.reverse, rest)
    | d + 1 => readSpec d ('\x7d' :: acc) rest
  | c :: rest => readSpec depth (c :: acc) rest

/-- The name of a field, up to the `}`, `:` or `!` that ends it (returned too), and what
    follows that character. Between `[` and `]` every character belongs to the name. -/
def readName (inBracket : Bool) (acc : List Char) :
    List Char → Except TemplateFault (List Char × Char × List Char)
  | [] => .error .unclosed
  | c :: rest =>
    if inBracket then readName (c != ']') (c :: acc) rest
    else if c = '\x7b' then .error .braceInName
    else if c = '[' then readName true (c :: acc) rest
    else if c = '\x7d' || c = ':' || c = '!' then .ok (acc.reverse, c, rest)
    else readName false (c :: acc) rest

theorem length_readSpec {depth : Nat} {acc cs spec after : List Char}
    (h : readSpec depth acc cs = .ok (spec, after)) : after.length < cs.length := by
  fun_induction readSpec depth acc cs with
  | case1 => simp at h
  | case2 d acc rest ih => have := ih h; simp only [List.length_cons]; omega
  | case3 acc rest =>
    simp only [Except.ok.injEq, Prod.mk.injEq] at h
    obtain ⟨-, rfl⟩ := h
    simp
  | case4 d acc rest ih => have := ih h; simp only [List.length_cons]; omega
  | case5 d acc c rest _ _ ih => have := ih h; simp only [List.length_cons]; omega

theorem length_readName {b : Bool} {acc cs name : List Char} {stop : Char} {after : List Char}
    (h : readName b acc cs = .ok (name, stop, after)) : after.length < cs.length := by
  induction cs generalizing b acc with
  | nil => simp [readName] at h
  | cons c rest ih =>
    simp only [readName] at h
    split at h
    · have := ih h; simp only [List.length_cons]; omega
    · split at h
      · simp at h
      · split at h
        · have := ih h; simp only [List.length_cons]; omega
        · split at h
          · simp only [Except.ok.injEq, Prod.mk.injEq] at h
            obtain ⟨-, -, rfl⟩ := h
            simp
          · have := ih h; simp only [List.length_cons]; omega

/-- A field, read from after its `{`, and what follows its `}`, which is shorter. -/
def readField (cs : List Char) :
    Except TemplateFault (Field × {r : List Char // r.length < cs.length}) :=
  match h : readName false [] cs with
  | .error e => .error e
  | .ok (name, stop, rest) =>
    have hr : rest.length < cs.length := length_readName h
    if stop = '\x7d' then .ok (⟨name, none, []⟩, ⟨rest, hr⟩)
    else if stop = ':' then
      match h2 : readSpec 0 [] rest with
      | .error e => .error e
      | .ok (spec, after) =>
        .ok (⟨name, none, spec⟩, ⟨after, by have := length_readSpec h2; omega⟩)
    else
      match rest, hr with
      | [], _ => .error .conversionMissing
      | [_], _ => .error .specUnclosed
      | conv :: '\x7d' :: after, hr =>
        .ok (⟨name, some conv, []⟩, ⟨after, by simp only [List.length_cons] at hr; omega⟩)
      | conv :: ':' :: more, hr =>
        match h3 : readSpec 0 [] more with
        | .error e => .error e
        | .ok (spec, after) =>
          .ok (⟨name, some conv, spec⟩, ⟨after, by
            have := length_readSpec h3; simp only [List.length_cons] at hr; omega⟩)
      | _ :: _ :: _, _ => .error .colonExpected

/-! ## Filling a field -/

/-- How the fields met so far were numbered: not yet, automatically (with the next
    index), or by hand. -/
inductive Numbering where
  | unset
  | auto (next : Nat)
  | manual
  deriving DecidableEq, Repr

/-- The argument a field's first name part asks for, and the numbering after it. -/
def argument (args : List String) (numbering : Numbering) (first : List Char) :
    Except TemplateFault (String × Numbering) := do
  let pick (i : Nat) (after : Numbering) : Except TemplateFault (String × Numbering) :=
    match args[i]? with
    | some a => .ok (a, after)
    | none => .error (.missing i)
  match ← index? first with
  | some i =>
    match numbering with
    | .auto _ => throw .manualAfterAuto
    | _ => pick i .manual
  | none =>
    if first.isEmpty then
      match numbering with
      | .manual => throw .autoAfterManual
      | .unset => pick 0 (.auto 1)
      | .auto n => pick n (.auto (n + 1))
    else throw (.named (String.ofList first))

/-- Whether a character ends a part of a field's name. -/
def endsPart (c : Char) : Bool := c == '.' || c == '['

/-- A text after the accessors `.attr` and `[i]` that follow a field's first name part:
    `[i]` picks a character; a text has no attributes. -/
def access (v : String) (cs : List Char) : Except TemplateFault String :=
  match cs with
  | [] => .ok v
  | '.' :: more =>
    let attr := more.takeWhile (fun c => !endsPart c)
    if attr.isEmpty then .error .emptyAttribute else .error (.noAttribute (String.ofList attr))
  | '[' :: more =>
    let key := more.takeWhile (· != ']')
    match h : more.dropWhile (· != ']') with
    | [] => .error .missingBracket
    | _ :: after =>
      have : after.length < more.length + 1 := by
        have : (more.dropWhile (· != ']')).length ≤ more.length :=
          (List.dropWhile_suffix _).length_le
        rw [h] at this; simp only [List.length_cons] at this; omega
      if key.isEmpty then .error .emptyAttribute
      else match index? key with
        | .error f => .error f
        | .ok none => .error .textKey
        | .ok (some i) =>
          match v.toList[i]? with
          | some c => access (String.singleton c) after
          | none => .error .charIndex
  | _ :: _ => .error .badAccessor
termination_by cs.length

/-- The text a field's name picks, and the numbering after it. -/
def fieldValue (args : List String) (numbering : Numbering) (name : List Char) :
    Except TemplateFault (String × Numbering) := do
  let (v, numbering) ← argument args numbering (name.takeWhile (fun c => !endsPart c))
  let v ← access v (name.dropWhile (fun c => !endsPart c))
  return (v, numbering)

/-- A text after a conversion. -/
def convert (v : String) : Option Char → Except TemplateFault String
  | none => .ok v
  | some 's' => .ok v
  | some 'r' => .ok (quote false v)
  | some 'a' => .ok (quote true v)
  | some c => .error (.unknownConversion c)

/-! ## Laying out a text by a spec -/

/-- A spec read: fill, alignment, sign, `z` and `#` flags, width, grouping, precision and
    presentation code. -/
structure Layout where
  fill : Char
  align : Char
  signChar : Option Char
  negZero : Bool
  alternate : Bool
  width : Option Nat
  grouping : Option Char
  precision : Option Nat
  code : Char

/-- Whether a character is an alignment. -/
def isAlign (c : Char) : Bool := c == '<' || c == '>' || c == '^' || c == '='

/-- The fill and alignment at the head of a spec (whether a fill was given), and the
    rest. -/
def alignPart : List Char → Char × Char × Bool × List Char
  | f :: a :: rest =>
    if isAlign a then (f, a, true, rest)
    else if isAlign f then (' ', f, false, a :: rest)
    else (' ', '<', false, f :: a :: rest)
  | [a] => if isAlign a then (' ', a, false, []) else (' ', '<', false, [a])
  | [] => (' ', '<', false, [])

/-- The number at the head of a spec, if it starts with a digit, and the rest. -/
def numberPart (cs : List Char) : Except TemplateFault (Option Nat × List Char) :=
  match cs with
  | c :: _ =>
    if (decimalValue? c).isSome then (fun (n, rest) => (some n, rest)) <$> leadingNumber 0 cs
    else .ok (none, cs)
  | [] => .ok (none, cs)

/-- The grouping mark at the head of a spec, if any, and the rest. -/
def groupingPart : List Char → Except TemplateFault (Option Char × List Char)
  | ',' :: '_' :: _ => .error .bothGroupings
  | '_' :: ',' :: _ => .error .bothGroupings
  | ',' :: rest => .ok (some ',', rest)
  | '_' :: rest => .ok (some '_', rest)
  | cs => .ok (none, cs)

/-- A spec read into a layout. -/
def Layout.ofSpec (spec : List Char) : Except TemplateFault Layout := do
  let (fill, align, fillGiven, r) := alignPart spec
  let (signChar, r) := match r with
    | c :: more => if c == '+' || c == '-' || c == ' ' then (some c, more) else (none, r)
    | [] => (none, r)
  let (negZero, r) := match r with
    | 'z' :: more => (true, more)
    | _ => (false, r)
  let (alternate, r) := match r with
    | '#' :: more => (true, more)
    | _ => (false, r)
  let (fill, r) := match r with
    | '0' :: more => if fillGiven then (fill, r) else ('0', more)
    | _ => (fill, r)
  let (width, r) ← numberPart r
  let (grouping, r) ← groupingPart r
  let (precision, r) ← match r with
    | '.' :: more => do
      let (p, r) ← numberPart more
      match p with
      | some p => pure (some p, r)
      | none => throw .missingPrecision
    | _ => pure (none, r)
  let code ← match r with
    | [] => pure 's'
    | [c] => pure c
    | _ => throw (.specInvalid (String.ofList spec))
  if let some sep := grouping then
    let numeric := ['d', 'e', 'f', 'g', 'E', 'G', '%', 'F'].contains code
    let radix := sep == '_' && ['b', 'o', 'x', 'X'].contains code
    if !(numeric || radix) then throw (.grouping sep code)
  return ⟨fill, align, signChar, negZero, alternate, width, grouping, precision, code⟩

/-- A text laid out: cut to the precision, then padded to the width with the fill, on the
    left for `>`, on both sides for `^` (the smaller half on the left), on the right
    otherwise. -/
def Layout.apply (l : Layout) (v : String) : Except TemplateFault String := do
  if l.code != 's' then throw (.unknownCode l.code)
  if let some c := l.signChar then throw (if c == ' ' then .spaceSign else .sign)
  if l.negZero then throw .negativeZero
  if l.alternate then throw .alternate
  if l.align == '=' then throw .equalsAlign
  let cs := match l.precision with
    | some p => v.toList.take p
    | none => v.toList
  let pad := l.width.getD 0 - cs.length
  let left := if l.align == '>' then pad else if l.align == '^' then pad / 2 else 0
  return String.ofList (List.replicate left l.fill ++ cs ++ List.replicate (pad - left) l.fill)

/-- A text laid out by a spec; an empty spec leaves it as it is. -/
def applySpec (v : String) (spec : String) : Except TemplateFault String :=
  if spec.isEmpty then .ok v else do (← Layout.ofSpec spec.toList).apply v

/-! ## Filling a template -/

/-- The filled rest of a template, `depth` more levels of fields inside specs allowed,
    and the numbering of the fields so far: the text and the numbering after it. -/
def fillFrom (args : List String) (depth : Nat) (numbering : Numbering) (cs : List Char) :
    Except TemplateFault (String × Numbering) :=
  match depth with
  | 0 => .error .tooDeep
  | d + 1 =>
    match cs with
    | [] => .ok ("", numbering)
    | '\x7b' :: '\x7b' :: rest =>
      (fun (t, n) => ("\x7b" ++ t, n)) <$> fillFrom args (d + 1) numbering rest
    | '\x7d' :: '\x7d' :: rest =>
      (fun (t, n) => ("\x7d" ++ t, n)) <$> fillFrom args (d + 1) numbering rest
    | '\x7d' :: _ => .error .loneClose
    | ['\x7b'] => .error .loneOpen
    | '\x7b' :: rest =>
      match readField rest with
      | .error e => .error e
      | .ok (f, ⟨after, _⟩) => do
        let (v, numbering) ← fieldValue args numbering f.name
        let v ← convert v f.conversion
        let (spec, numbering) ←
          if f.spec.contains '\x7b' then fillFrom args d numbering f.spec
          else pure (String.ofList f.spec, numbering)
        let v ← applySpec v spec
        let (tail, numbering) ← fillFrom args (d + 1) numbering after
        return (v ++ tail, numbering)
    | c :: rest => (fun (t, n) => (String.singleton c ++ t, n)) <$> fillFrom args (d + 1) numbering rest
termination_by (depth, cs.length)

/-- A template filled with its arguments. -/
def fill (template : String) (args : List String) : Except TemplateFault String :=
  (·.1) <$> fillFrom args 2 .unset template.toList

/-! ## Texts a template shows as they are -/

/-- A brace written twice, any other character as it is. -/
def doubleBrace (c : Char) : List Char :=
  if c = '\x7b' then ['\x7b', '\x7b'] else if c = '\x7d' then ['\x7d', '\x7d'] else [c]

/-- A text with each `{` replaced by `{{` and then each `}` by `}}`: the text a template
    holds to show the given one as it is. -/
def doubleBraces (s : String) : String := String.ofList (s.toList.flatMap doubleBrace)

end Sugiru.Text
