import ShellToDeno.Shell.Reader.Test
import ShellToDeno.Shell.Reader.Assignment

/-! Commands that hold other commands: blocks, subshells, branches, loops and cases. -/
namespace ShellToDeno.Shell.Read

def subshell (g : Grammar) : Read Command := do
  let start ← pos
  let body ← nested .subshell do
    g.next
    g.statements []
  return .subshell ⟨start.offset, (← g.matched start "(" .rightParen) + 1⟩ body

def arithmeticCommand (g : Grammar) : Read Command := do
  let start ← pos
  return .arithmetic ⟨start.offset,
    (← arithmeticBody g .arithmeticCommand .doubleLeftParen start) + 2⟩

def block (g : Grammar) : Read Command := do
  let start ← pos
  g.next
  let body ← g.statements ["\x7d"]
  match ← g.gotWord "\x7d" with
  | some stop => return .block ⟨start.offset, stop.offset + 1⟩ body
  | none => fail start (.unmatched (← token) "\x7b" "\x7d")

def branchStops : List Text := ["fi", "elif", "else"]

def elseIfs (g : Grammar) (clauses : List Otherwise) : Read (List Otherwise ⊕ List Otherwise) := do
  match ← g.gotWord "elif" with
  | none => return .inr clauses.reverse
  | some start =>
    let condition ← g.followStatements "elif" start ["then"]
    let thenStart ← g.followWord start "elif <cond>" "then"
    let body ← g.followStatements "then" thenStart branchStops
    return .inl (.mk start.offset false condition body :: clauses)

def branch (g : Grammar) : Read Command := do
  let start ← pos
  g.next
  let condition ← g.followStatements "if" start ["then"]
  let thenStart ← g.followWord start "if <cond>" "then"
  let body ← g.followStatements "then" thenStart branchStops
  let clauses ← loop (elseIfs g) g.limit []
  let otherwise : List Otherwise ← match ← g.gotWord "else" with
    | none => pure []
    | some start => do pure [.mk start.offset true [] (← g.followStatements "else" start ["fi"])]
  let fi ← g.endWord start "if" "fi"
  return .branch start.offset fi condition body (clauses ++ otherwise)

def whileLoop (g : Grammar) (keyword : Text) : Read Command := do
  let start ← pos
  g.next
  let condition ← g.followStatements keyword start ["do"]
  let doStart ← g.followWord start (keyword ++ " <cond>") "do"
  let body ← g.followStatements "do" doStart ["done"]
  let done ← g.endWord start keyword "done"
  return .whileLoop ⟨start.offset, done + 4⟩ doStart.offset condition body

/-- What a loop runs over: a name and its words, or a count. -/
inductive LoopHead where
  | words (name : Lexeme) (items : List Word)
  | count

def loopItems (g : Grammar) (items : List Word) : Read (List Word ⊕ List Word) := do
  if ← atStop then return .inr items.reverse
  match ← g.word with
  | none => failHere .wordListOnly
  | some word => return .inl (word :: items)

def loopWords (g : Grammar) (keyword : Text) (start : Place) : Read LoopHead := do
  let some name ← g.literal? | fail start (.needsAfter keyword "a literal")
  if ← g.got .semicolon then
    discard <| g.got .newline
    return .words name []
  discard <| g.got .newline
  if (← g.gotWord "in").isSome then
    let items ← loop (loopItems g) g.limit []
    discard <| g.got .semicolon
    discard <| g.got .newline
    return .words name items
  if !(← atWord "do") then
    fail start (.needsAfter (keyword ++ " foo") "\"in\", \"do\", ;, or a newline")
  return .words name []

def loopCount (g : Grammar) : Read LoopHead := do
  let start ← pos
  nested .arithmeticCommand do
    g.next
    discard <| g.arithmetic .comma false
    if !(← g.got .doubleSemicolon) then
      g.follow (← pos) "expr" .semicolon
      discard <| g.arithmetic .comma false
      g.follow (← pos) "expr" .semicolon
    discard <| g.arithmetic .comma false
    if (← token) != .rightParen || (← rune) != .char ')' then
      failUnmatched start .doubleLeftParen .doubleRightParen
    advance
  g.next
  discard <| g.got .semicolon
  discard <| g.got .newline
  return .count

def forLoop (g : Grammar) : Read Command := do
  let start ← pos
  g.next
  let head ← if (← token) == .doubleLeftParen then loopCount g else loopWords g "for" start
  match ← g.gotWord "\x7b" with
  | some open_ =>
    discard <| g.followStatements "\x7b" open_ ["\x7d"]
    let close ← g.endWord start "for" "\x7d"
    return .unsupported ⟨start.offset, close + 4⟩
  | none =>
    let doStart ← g.followWord start "for foo [in words]" "do"
    let body ← g.followStatements "do" doStart ["done"]
    let done ← g.endWord start "for" "done"
    match head with
    | .words name items => return .forEach ⟨start.offset, done + 4⟩ doStart.offset name items body
    | .count => return .forCount ⟨start.offset, done + 4⟩ doStart.offset body

def selectLoop (g : Grammar) : Read Command := do
  let start ← pos
  g.next
  discard <| loopWords g "select" start
  let doStart ← g.followWord start "select foo [in words]" "do"
  discard <| g.followStatements "do" doStart ["done"]
  let done ← g.endWord start "select" "done"
  return .unsupported ⟨start.offset, done + 4⟩

def casePatterns (g : Grammar) (_ : Unit) : Read (Unit ⊕ Unit) := do
  if (← token) == .eof then return .inr ()
  if (← g.word).isNone then failHere .patternWord
  if (← token) == .rightParen then return .inr ()
  if !(← g.got .or) then failHere .patternSeparator
  return .inl ()

def caseItems (g : Grammar) (_ : Unit) : Read (Unit ⊕ Unit) := do
  if (← token) == .eof || (← atWord "esac") then return .inr ()
  discard <| g.got .leftParen
  loop (casePatterns g) g.limit ()
  discard <| nested .caseItem do
    g.next
    g.statements ["esac"]
  if !(← token).endsItem then return .inr ()
  g.next
  discard <| g.got .newline
  return .inl ()

def caseCommand (g : Grammar) : Read Command := do
  let start ← pos
  g.next
  discard <| g.requireWord "case" start
  discard <| g.got .newline
  if (← g.gotWord "\x7b").isSome then fail start (.foreign "case i \x7b")
  discard <| g.followWord start "case x" "in"
  discard <| g.got .newline
  loop (caseItems g) g.limit ()
  let esac ← g.endWord start "case" "esac"
  return .cases ⟨start.offset, esac + 4⟩

end ShellToDeno.Shell.Read
