import ShellToDeno.Shell.Reader.Word

/-! Tests in double brackets. Only their words are kept, in the order they stand. -/
namespace ShellToDeno.Shell.Read

/-- The operators before a word, each with the spelling that messages show. -/
def unaryTests : List (Text × Text) :=
  List.map (fun (name, shown) => (Text.ofString name, Text.ofString shown))
    [("-e", "-e"), ("-a", "-e"), ("-f", "-f"), ("-d", "-d"), ("-c", "-c"), ("-b", "-b"),
     ("-p", "-p"), ("-S", "-S"), ("-L", "-L"), ("-h", "-L"), ("-k", "-k"), ("-g", "-g"),
     ("-u", "-u"), ("-G", "-G"), ("-O", "-O"), ("-N", "-N"), ("-r", "-r"), ("-w", "-w"),
     ("-x", "-x"), ("-s", "-s"), ("-t", "-t"), ("-z", "-z"), ("-n", "-n"), ("-o", "-o"),
     ("-v", "-v"), ("-R", "-R")]

/-- The operators between two words that are words themselves. -/
def binaryTests : List (Text × Text) :=
  List.map (fun (name, shown) => (Text.ofString name, Text.ofString shown))
    [("=", "="), ("==", "=="), ("!=", "!="), ("=~", "=~"), ("-nt", "-nt"), ("-ot", "-ot"),
     ("-ef", "-ef"), ("-eq", "-eq"), ("-ne", "-ne"), ("-le", "-le"), ("-ge", "-ge"),
     ("-lt", "-lt"), ("-gt", "-gt")]

def requireTest (start : Place) (operator : Text) : Option TestTerm → Read TestTerm
  | some term => return term
  | none => failNoExpression start operator

def testWord (g : Grammar) : Read (Option TestTerm) := do
  return (← g.word).map fun word => ⟨[word], true⟩

/-- A single test: a word, a word with an operator before it, or a group. -/
def testBase (g : Grammar) : Read (Option TestTerm) := do
  let s ← get
  match s.token with
  | .eof | .rightParen => return none
  | .leftParen =>
    g.next
    let inner ← requireTest s.pos "(" (← g.test)
    discard <| g.matched s.pos "(" .rightParen
    return some ⟨inner.words, false⟩
  | .litWord =>
    if s.value == "]]" then return none
    if s.value == "!" then
      g.next
      let inner ← requireTest s.pos "!" (← g.test)
      return some ⟨inner.words, false⟩
    match unaryTests.lookup s.value with
    | some shown =>
      g.next
      return some ⟨[← g.requireWord shown s.pos], false⟩
    | none => testWord g
  | _ => testWord g

/-- The operator that goes on with a test, as messages show it; none where the test ends. -/
def testOperator : Read (Option Text) := do
  let s ← get
  match s.token with
  | .andAnd | .orOr | .redirectIn | .redirectOut => return some s.token.text
  | .litWord =>
    if s.value == "]]" then return none
    match binaryTests.lookup s.value with
    | some shown => return some shown
    | none => failHere (.testOperator s.value)
  | .eof | .rightParen => return none
  | .lit => failHere .testOperatorWord
  | t => failHere (.testOperator t.text)

/-- A test that may go on after its first part. -/
def testFrom (g : Grammar) (first : Read (Option TestTerm)) : Read (Option TestTerm) := do
  discard <| g.got .newline
  let some left ← first | return none
  discard <| g.got .newline
  let some operator ← testOperator | return some left
  let start ← pos
  let outer := (← get).mode
  let connects := (← token) == .andAnd || (← token) == .orOr
  if connects then
    g.next
    let right ← requireTest start operator (← g.test)
    setMode outer
    return some ⟨left.words ++ right.words, false⟩
  if operator == "=~" then
    modify fun s => { s with regexParens := 0, regexFirst := true, mode := .testRegex }
  if !left.isWord then fail start .testAfterComplex
  g.next
  let right ← g.requireWord operator start
  setMode outer
  return some ⟨left.words ++ [right], false⟩

def test (g : Grammar) : Read (Option TestTerm) :=
  testFrom g (testFrom g (testBase g))

def testCommand (g : Grammar) : Read Command := do
  let start ← pos
  let (words, stop) ← nested .test do
    g.next
    match ← g.test with
    | none => fail start .testEmpty
    | some term =>
      match ← g.gotWord "]]" with
      | some stop => pure (term.words, stop.offset)
      | none => fail start (.unmatched (← token) "[[" "]]")
  return .test ⟨start.offset, stop + 2⟩ words

end ShellToDeno.Shell.Read
