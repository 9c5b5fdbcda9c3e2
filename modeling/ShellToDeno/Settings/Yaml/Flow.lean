import ShellToDeno.Settings.Yaml.Scalar

/-! Lists and records in brackets, which may go over several lines. -/
namespace ShellToDeno.Settings.Yaml

/-- Passes over blanks, line ends and the comments that blanks come before. -/
def skip : Nat → Nat → Text → Nat × Text
  | 0, line, t => (line, t)
  | fuel + 1, line, t =>
    let blanks := t.takeWhile isSpaceOrBreak
    let line := line + blanks.count Ascii.newline
    let rest := t.drop blanks.length
    if Text.begins "#" rest && !blanks.isEmpty then
      skip fuel line (rest.dropWhile (· != Ascii.newline))
    else (line, rest)

def skipBlanks (line : Nat) (t : Text) : Nat × Text := skip (t.length + 1) line t

/-- Whether a colon is followed by something that makes it end a key. -/
def endsKey : Text → Bool
  | [] => true
  | b :: _ => Text.isOneOf " \t\n,[]\x7b\x7d" b

/-- Reads a text without quotes inside brackets, as it stands with the line ends in it. -/
def bare : Text → Text × Text
  | [] => ([], [])
  | b :: rest =>
    if Text.isOneOf ",[]\x7b\x7d" b || (b == ':' && endsKey rest) ||
        (isSpaceOrBreak b && Text.begins "#" rest) then ([], b :: rest)
    else
      let (more, rest) := bare rest
      (b :: more, rest)

/-- Folds the line ends inside a text. -/
def foldLines : Nat → Text → Text
  | 0, t => t
  | fuel + 1, t =>
    match t with
    | [] => []
    | b :: rest =>
      let blanks := t.takeWhile isSpaceOrBreak
      if blanks.isEmpty then b :: foldLines fuel rest
      else fold blanks ++ foldLines fuel (t.drop blanks.length)

mutual

/-- Reads one value. -/
def flow : Nat → Nat → Text → Except Error (Part Value)
  | 0, line, _ => .error (.malformed .noContent line line)
  | fuel + 1, line, t =>
    match t with
    | [] => .error (.malformed .noContent line line)
    | b :: rest =>
      if b == '[' then flowItems fuel line line [] rest
      else if b == '\x7b' then flowFields fuel line line [] rest
      else if Text.isOneOf "\"'" b then
        (quoted line t).map fun part => ⟨.text part.value, part.rest, part.line⟩
      else if Text.isOneOf ",]\x7d" b then .error (.malformed .noContent line line)
      else if Text.isOneOf "@\x60%" b then .error (.malformed .badStart line line)
      else
        let (raw, rest) := bare t
        let text := Text.dropEndWhile isSpaceOrBreak raw
        .ok ⟨plain (foldLines text.length text), rest, line + raw.count Ascii.newline⟩

/-- Reads the items of a list that starts on a line. -/
def flowItems : Nat → Nat → Nat → List Value → Text → Except Error (Part Value)
  | 0, start, line, _, _ => .error (.malformed .listEnd start line)
  | fuel + 1, start, line, done, t =>
    let (line, t) := skipBlanks line t
    if Text.begins "]" t then .ok ⟨.list done.reverse, t.drop 1, line⟩
    else match flow fuel line t with
      | .error e => .error e
      | .ok item =>
        match flowPair fuel item with
        | .error e => .error e
        | .ok item =>
          let (line, t) := skipBlanks item.line item.rest
          if Text.begins "," t then flowItems fuel start line (item.value :: done) (t.drop 1)
          else if Text.begins "]" t then .ok ⟨.list (item.value :: done).reverse, t.drop 1, line⟩
          else .error (.malformed .listEnd start line)

/-- An item of a list with a colon after it is a record of one field. -/
def flowPair : Nat → Part Value → Except Error (Part Value)
  | 0, item => .ok item
  | fuel + 1, item =>
    let (line, t) := skipBlanks item.line item.rest
    if !Text.begins ":" t then .ok item
    else match flowValue fuel line (t.drop 1) with
      | .error e => .error e
      | .ok value => .ok ⟨.record [(item.value.toText, value.value)], value.rest, value.line⟩

/-- Reads what comes after a colon, which may be nothing. -/
def flowValue : Nat → Nat → Text → Except Error (Part Value)
  | 0, line, t => .ok ⟨.null, t, line⟩
  | fuel + 1, line, t =>
    let (line, t) := skipBlanks line t
    if Text.isOneOf ",]\x7d" (t.headD 0) then .ok ⟨.null, t, line⟩ else flow fuel line t

/-- Reads the fields of a record that starts on a line. -/
def flowFields : Nat → Nat → Nat → List (Text × Value) → Text → Except Error (Part Value)
  | 0, start, line, _, _ => .error (.malformed .recordEnd start line)
  | fuel + 1, start, line, done, t =>
    let (line, t) := skipBlanks line t
    if Text.begins "\x7d" t then .ok ⟨.record done.reverse, t.drop 1, line⟩
    else match flow fuel line t with
      | .error e => .error e
      | .ok key =>
        let (line, t) := skipBlanks key.line key.rest
        let value : Except Error (Part Value) :=
          if Text.begins ":" t then flowValue fuel line (t.drop 1) else .ok ⟨.null, t, line⟩
        match value with
        | .error e => .error e
        | .ok value =>
          let done := (key.value.toText, value.value) :: done
          let (line, t) := skipBlanks value.line value.rest
          if Text.begins "," t then flowFields fuel start line done (t.drop 1)
          else if Text.begins "\x7d" t then .ok ⟨.record done.reverse, t.drop 1, line⟩
          else .error (.malformed .recordEnd start line)

end

end ShellToDeno.Settings.Yaml
