import ShellToDeno.Settings.Yaml.Flow

/-!
Settings files: records and lists laid out by indentation, one key or item a line. Anchors, tags
and keys that are no single values are not read.
-/
namespace ShellToDeno.Settings.Yaml

/-- A line without its indentation. Lines are counted from 0. -/
structure Line where
  number : Nat
  indent : Nat
  content : Text
  deriving DecidableEq, Repr

namespace Line

def isBlank (l : Line) : Bool := l.content.all isSpace

def isComment (l : Line) : Bool := Text.begins "#" l.content

/-- Whether the line starts an item of a list. -/
def isItem (l : Line) : Bool :=
  l.content == "-" || Text.begins "- " l.content || Text.begins "-\t" l.content

/-- The line as it was. -/
def raw (l : Line) : Text := Text.spaces l.indent ++ l.content

/-- The part of a text before a comment. -/
def withoutComment : Text → Text
  | [] => []
  | b :: rest =>
    if isSpace b && Text.begins "#" rest then [] else b :: withoutComment rest

def ofText (number : Nat) (t : Text) : Line :=
  let content := (Text.cutEnd "\r" t).dropWhile (· == Char.toUInt8 ' ')
  ⟨number, (Text.cutEnd "\r" t).length - content.length, content⟩

end Line

/-- The lines from the first that is neither blank nor a comment. -/
def significant (lines : List Line) : List Line := lines.dropWhile fun l => l.isBlank || l.isComment

/-- Splits at the first colon that ends a key. -/
def cutKey? : Text → Option (Text × Text)
  | [] => none
  | b :: rest =>
    if b == ':' && (rest.isEmpty || isSpace (rest.headD 0)) then some ([], rest)
    else if isSpace b && Text.begins "#" rest then none
    else (cutKey? rest).map fun (key, value) => (b :: key, value)

/-- The key of a line and the text after its colon. -/
def key? (line : Line) : Option (Text × Text) :=
  let first := line.content.headD 0
  let found := if Text.isOneOf "\"'" first then
      match quoted 0 line.content with
      | .ok part => match part.rest.dropWhile isSpace with
        | 58 :: rest =>
          if rest.isEmpty || isSpace (rest.headD 0) then some (part.value, rest) else none
        | _ => none
      | .error _ => none
    else if Text.isOneOf "[]\x7b\x7d,#&*!|>%@\x60" first || line.isItem then none
    else (cutKey? line.content).map fun (key, rest) => (Text.dropEndWhile isSpace key, rest)
  found.map fun (key, rest) => (key, rest.dropWhile isSpace)

/-- The lines of a text without quotes that goes on, folded. -/
def continuePlain (least : Nat) : Nat → Text → List Line → Except Error (Text × List Line)
  | _, done, [] => .ok (done, [])
  | breaks, done, line :: rest =>
    if line.isBlank then continuePlain least (breaks + 1) done rest
    else if line.indent < least || line.isComment then .ok (done, line :: rest)
    else if (cutKey? line.content).isSome then
      .error (.malformed .mappingValue line.number line.number)
    else
      let piece := Line.withoutComment line.content
      let glue : Text := if breaks == 0 then " " else List.replicate breaks Ascii.newline
      let done := done ++ glue ++ Text.dropEndWhile isSpace piece
      if piece.length < line.content.length then .ok (done, rest)
      else continuePlain least 0 done rest

/-- How a text laid out in lines ends. -/
inductive Ending where
  | strip | clip | keep
  deriving DecidableEq, Repr

/-- Joins lines without their indentation. In a folded text the line ends between two lines that
are not indented further become blanks. -/
def joinFolded : Bool → Nat → List Text → Text
  | _, breaks, [] => List.replicate breaks Ascii.newline
  | first, breaks, line :: rest =>
    let further := isSpace (line.headD 0)
    if line.isEmpty then joinFolded first (breaks + 1) rest
    else
      let glue : Text :=
        if first then List.replicate breaks Ascii.newline
        else if further then List.replicate (breaks + 1) Ascii.newline
        else if breaks == 0 then " " else List.replicate breaks Ascii.newline
      glue ++ line ++
        (if further then "\n" ++ joinFolded true 0 rest else joinFolded false 0 rest)

/-- A text laid out in lines, from its mark on. -/
def laidOut (least : Nat) (mark : Text) (lines : List Line) : Text × List Line :=
  let header := Line.withoutComment mark
  let ending : Ending :=
    if header.any (Text.isOneOf "-") then .strip
    else if header.any (Text.isOneOf "+") then .keep else .clip
  let indent : Nat := match header.find? Text.isDigit with
    | some digit => least - 1 + (digit.toNat - 48)
    | none => match lines.find? fun l => !l.isBlank with
      | some line => max least line.indent
      | none => least
  let inside := lines.takeWhile fun l => l.isBlank || indent ≤ l.indent
  let texts := inside.map fun l => l.raw.drop indent
  let filled := (texts.reverse.dropWhile List.isEmpty).reverse
  let body : Text := if Text.begins ">" mark then joinFolded true 0 filled else
    Text.join "\n" filled
  let after : Text := match ending with
    | .strip => []
    | .clip => if filled.isEmpty then [] else "\n"
    | .keep => List.replicate (texts.length - filled.length + (if filled.isEmpty then 0 else 1))
        Ascii.newline
  (body ++ after, lines.drop inside.length)

/-- Reads a value that starts in the middle of a line; lines that go on with it are indented by at
least the given width. -/
def inline (least : Nat) (number : Nat) (content : Text) (lines : List Line) :
    Except Error (Value × List Line) :=
  let first := content.headD 0
  if Text.isOneOf "|>" first then
    let (text, rest) := laidOut least content lines
    .ok (.text text, rest)
  else if Text.isOneOf "\"'[\x7b" first then
    let text := Text.join "\n" (content :: lines.map Line.raw)
    match flow (text.length + 1) number text with
    | .error e => .error e
    | .ok part =>
      let after := (part.rest.takeWhile (· != Ascii.newline)).dropWhile isSpace
      if after.isEmpty || Text.begins "#" after then
        .ok (part.value, lines.drop (part.line - number))
      else .error (.malformed .noKey 0 part.line)
  else if Text.isOneOf "@\x60%\t" first then .error (.malformed .badStart number number)
  else if content == "-" || Text.begins "- " content then
    .error (.malformed .entryNotAllowed number number)
  else if (cutKey? content).isSome then .error (.malformed .mappingValue number number)
  else
    let piece := Line.withoutComment content
    let done := Text.dropEndWhile isSpace piece
    if piece.length < content.length then .ok (plain done, lines)
    else match continuePlain least 0 done lines with
      | .error e => .error e
      | .ok (text, rest) => .ok (plain text, rest)

/-- The first key that is used twice, with its lines. -/
def repeated? : List (Text × Nat) → Option (Text × Nat × Nat)
  | [] => none
  | (key, line) :: rest =>
    match rest.find? (·.1 == key) with
    | some (_, again) => some (key, line, again)
    | none => repeated? rest

mutual

/-- Reads the value on the lines ahead, if they are indented enough. -/
def block : Nat → Nat → List Line → Except Error (Value × List Line)
  | 0, _, lines => .ok (.null, lines)
  | fuel + 1, least, lines =>
    match significant lines with
    | [] => .ok (.null, [])
    | line :: rest =>
      if line.indent < least then .ok (.null, line :: rest)
      else if line.isItem then blockItems fuel line.indent [] (line :: rest)
      else if (key? line).isSome then blockFields fuel line.indent line.number [] (line :: rest)
      else inline least line.number line.content rest

/-- Reads the items of a list. What follows the dash may itself be a list or a record. -/
def blockItems : Nat → Nat → List Value → List Line → Except Error (Value × List Line)
  | 0, _, done, lines => .ok (.list done.reverse, lines)
  | fuel + 1, indent, done, lines =>
    match significant lines with
    | [] => .ok (.list done.reverse, [])
    | line :: rest =>
      if line.indent > indent then .error (.malformed .noItem 0 line.number)
      else if line.indent < indent || !line.isItem then .ok (.list done.reverse, line :: rest)
      else
        let content := (line.content.drop 1).dropWhile isSpace
        let inner : List Line := if content.isEmpty || Text.begins "#" content then rest
          else ⟨line.number, indent + (line.content.length - content.length), content⟩ :: rest
        match block fuel (indent + 1) inner with
        | .error e => .error e
        | .ok (value, rest) => blockItems fuel indent (value :: done) rest

/-- Reads the fields of a record that starts on a line. -/
def blockFields : Nat → Nat → Nat → List (Text × Nat × Value) → List Line →
    Except Error (Value × List Line)
  | 0, _, _, _, lines => .ok (.null, lines)
  | fuel + 1, indent, start, done, lines =>
    let finish (rest : List Line) : Except Error (Value × List Line) :=
      match repeated? (done.reverse.map fun (key, line, _) => (key, line + 1)) with
      | some (key, first, second) => .error (.repeatedKey key first second)
      | none => .ok (.record (done.reverse.map fun (key, _, value) => (key, value)), rest)
    match significant lines with
    | [] => finish []
    | line :: rest =>
      if line.indent < indent then finish (line :: rest)
      else if line.indent > indent then .error (.malformed .noKey start line.number)
      else match key? line with
        | none =>
          if line.isItem then .error (.malformed .noKey start line.number)
          else if Text.begins "\t" line.content then
            .error (.malformed .badStart line.number line.number)
          else .error (.malformed .missingColon line.number line.number)
        | some (key, content) =>
          let value : Except Error (Value × List Line) :=
            if content.isEmpty || Text.begins "#" content then
              match significant rest with
              | next :: _ =>
                if next.indent == indent && next.isItem then blockItems fuel indent [] rest
                else block fuel (indent + 1) rest
              | [] => .ok (.null, [])
            else inline (indent + 1) line.number content rest
          match value with
          | .error e => .error e
          | .ok (value, rest) =>
            blockFields fuel indent start ((key, line.number, value) :: done) rest

end

/-- Whether a line divides one document from the next; blanks and a comment may follow the mark. -/
def isDivider (l : Line) : Bool :=
  let after := (l.content.drop 3).dropWhile isSpace
  l.indent == 0 && (Text.begins "---" l.content || Text.begins "..." l.content) &&
    (after.isEmpty || (Text.begins "#" after && isSpace ((l.content.drop 3).headD 0)))

/-- A text without the byte order mark at its start. -/
def withoutMark : Text → Text
  | 0xEF :: 0xBB :: 0xBF :: rest => rest
  | t => t

/-- The lines of the first document. -/
def document (t : Text) : List Line :=
  let lines := (Text.splitOn "\n" (withoutMark t)).zipIdx.map fun (line, number) =>
    Line.ofText number line
  let ahead := significant lines
  let body := match ahead with
    | line :: rest => if isDivider line then rest else ahead
    | [] => []
  body.takeWhile fun l => !isDivider l

/-- The name of a kind of value in messages. -/
def tag : Value → Text
  | .null => "!!null"
  | .flag _ => "!!bool"
  | .number shown => if shown.contains "." then "!!float" else "!!int"
  | .text _ => "!!str"
  | .list _ => "!!seq"
  | .record _ => "!!map"

/-- Reads a file whose document is a record; an empty one has no fields. -/
def read (t : Text) : Except Error Value := do
  let lines := document t
  let (value, _) ← block (2 * t.length + 2) 0 lines
  let line := ((significant lines).head?.map Line.number).getD 0 + 1
  match value with
  | .record fields => return .record fields
  | .null => return .record []
  | .list items => throw (.notRecord line (tag (.list items)) none)
  | single => throw (.notRecord line (tag single) (some single.toText))

end ShellToDeno.Settings.Yaml
