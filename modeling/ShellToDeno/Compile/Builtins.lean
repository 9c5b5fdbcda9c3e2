import ShellToDeno.Compile.Call

/-! Commands with code of their own. -/
namespace ShellToDeno.Compile

open Arguments

/-- A reference to the exit status of the last command. -/
def isLastExitCode (word : Text) : Bool :=
  (["$?", "\"$?", "$?\"", "\"$?\""] : List Text).contains word

/-- One definition of an alias, none if it has another shape or no value. -/
inductive AliasOutcome where
  | malformed
  | unvalued
  | text (statement : Text)

def aliasParts (c : Compiler) (call : Call) (rest : Text) (others : List Node) :
    Compile (List FragmentId) := do
  let first ← if rest.isEmpty then pure []
    else do pure [← c.compile (.leaf .word rest) call.context]
  return first ++ (← others.mapM (withLiteralBraces c call.context))

def aliasDefinition (c : Compiler) (call : Call) (group : List Node) : Compile AliasOutcome := do
  let opened : List Node := match group with
    | [only] => if only.kind == .concatenation then only.children else [only]
    | several => several
  match opened with
  | [] => throw .outOfRange
  | first :: others =>
    match Text.cut? "=" first.text with
    | none => return .malformed
    | some (name, rest) =>
      if first.kind != .word || name.isEmpty then return .malformed
      let parts ← aliasParts c call rest others
      let value : Option Text ← if parts.isEmpty then pure (some ("\"\"" : Text))
        else do c.read (← combine c parts) .value
      match value with
      | none => return .unvalued
      | some value =>
        use .aliases
        return .text ("aliases" ++ Js.propertyAccess name ++ " = " ++ value)

def aliasTexts (c : Compiler) (call : Call) : List (List Node) → List Text → Compile FragmentId
  | [], [] => call.giveUp "listing aliases is not supported"
  | [], texts => expression (Text.join "; " texts.reverse)
  | group :: rest, texts => do
    match ← aliasDefinition c call group with
    | .malformed => call.giveUp "only alias name=value is supported"
    | .unvalued => call.giveUp "alias value could not be converted"
    | .text text => aliasTexts c call rest (text :: texts)

/-- Leaves a function with an exit status. -/
def returns (c : Compiler) (call : Call) : Compile FragmentId := do
  match call.groups with
  | [] => statement "return"
  | [group] =>
    let word := textOf group
    use .exitCode
    if isLastExitCode word then statement "return exitCodeOfLastChildProcess"
    else if Text.isDigits word then statement ("return exitCodeOfLastChildProcess = " ++ word)
    else match ← call.value c group with
      | some value => statement ("return exitCodeOfLastChildProcess = " ++ value)
      | none => call.giveUp "return value could not be converted"
  | _ => call.giveUp "too many arguments"

def loopControl (call : Call) (keyword : Text) : Compile FragmentId :=
  if call.words == [] || call.words == [("1" : Text)] then statement keyword
  else call.giveUp ("multi-level " ++ keyword ++ " is not supported")

/-- What the flags of `read` have said so far. -/
structure ReadOptions where
  targets : List Text
  prompt : Text
  warning : Text
  /-- The flag whose value comes next. -/
  expecting : Option UInt8

def descriptorWarning (descriptor : Text) : Text :=
  " /* FIXME: this read from file descriptor " ++ Js.commentText descriptor ++
    " but only reading stdin is translated */"

/-- Takes one argument of `read`; an error is the reason why it cannot be compiled. -/
def readOption (c : Compiler) (call : Call) (o : ReadOptions) (group : List Node) :
    Compile (Except Text ReadOptions) := do
  let word := textOf group
  match o.expecting with
  | some flag =>
    let o := { o with expecting := none }
    if flag == 'p' then
      match ← call.value c group with
      | some prompt => return .ok { o with prompt }
      | none => return .error "prompt could not be converted"
    else if flag == 'u' then
      return .ok { o with warning := descriptorWarning word }
    else return .ok o
  | none =>
    if word.length > 1 && word.head? == some ('-' : Char).toUInt8 then
      return .ok { o with expecting := word.getLast?.filter (Text.isOneOf "dinNptu") }
    if !Text.isName word then return .error "dynamic variable name"
    return .ok { o with targets := o.targets ++ [word] }

def readOptions (c : Compiler) (call : Call) :
    ReadOptions → List (List Node) → Compile (Except Text ReadOptions)
  | o, [] => return .ok o
  | o, group :: rest => do
    match ← readOption c call o group with
    | .ok o => readOptions c call o rest
    | .error reason => return .error reason

/-- Reads a line of input into one variable. -/
def readLine (c : Compiler) (call : Call) : Compile FragmentId := do
  match ← readOptions c call ⟨[], [], [], none⟩ call.groups with
  | .error reason => call.giveUp reason
  | .ok o =>
    if o.targets.length > 1 then
      call.giveUp "splitting input into several variables is not supported"
    else
      let target ← env (o.targets.head?.getD "REPLY")
      expression (target ++ " = prompt(" ++ o.prompt ++ ")" ++ o.warning)

def constant (result : Bool) : Compile FragmentId :=
  let text : Text := if result then "true" else "false"
  new ((.number, .text (if result then "1" else "0")) ::
    [.condition, .statement, .value, .pureCommand, .templateInnards].map fun form =>
    (form, .text text))

/-- The values of some arguments, none if one of them has none. -/
def valuesOf (c : Compiler) (call : Call) : List (List Node) → Compile (Option (List Text))
  | [] => return some []
  | group :: rest => do
    match ← call.value c group with
    | none => return none
    | some value => return (← valuesOf c call rest).map (value :: ·)

/-- A function of paths. -/
def pathFunction (c : Compiler) (call : Call) (command : Text) (most : Int) :
    Compile FragmentId := do
  let groups := call.groups
  let flagged := (groups.head?.map fun g => Text.begins "-" (textOf g)).getD false
  if groups.isEmpty || (groups.length : Int) > most || flagged then return ← call.external c
  match ← valuesOf c call groups with
  | none => call.external c
  | some values =>
    if (← Fragment.commandLine c call).isNone then
      return ← call.giveUp "arguments could not be converted"
    use .path
    let text := "path." ++ command ++ "(" ++ Text.join ", " values ++ ")"
    new ([(.value, .text text), (.templateInnards, .text (Js.substitution text))] ++
      call.externalFields)

/-- The flags of `echo`. -/
structure EchoFlags where
  newline : Bool
  escapes : Bool

def isEchoFlag : Text → Bool
  | Ascii.minus :: b :: rest => (b :: rest).all (Text.isOneOf "neE")
  | _ => false

def echoFlag (f : EchoFlags) (b : UInt8) : EchoFlags :=
  if b == 'n' then { f with newline := false }
  else if b == 'e' then { f with escapes := true }
  else if b == 'E' then { f with escapes := false }
  else f

/-- The flags at the front of the arguments, and the arguments after them. -/
def echoFlags : EchoFlags → List (List Node) → EchoFlags × List (List Node)
  | f, [] => (f, [])
  | f, group :: rest =>
    let word := textOf group
    if isEchoFlag word then echoFlags (word.foldl echoFlag f) rest else (f, group :: rest)

/-- What a letter after a backslash stands for. -/
def echoEscape? (b : UInt8) : Option Text :=
  ([("a", "\\x07"), ("b", "\\b"), ("e", "\\x1b"), ("E", "\\x1b"), ("f", "\\f"), ("n", "\\n"),
    ("r", "\\r"), ("t", "\\t"), ("v", "\\v")] : List (Text × Text)).lookup [b]

/-- Interprets the escapes of a text that stands in a template, where a backslash is written
twice. -/
def echoEscapes : Text → Text
  | Ascii.backslash :: Ascii.backslash :: b :: rest =>
    match echoEscape? b with
    | some text => text ++ echoEscapes rest
    | none => Ascii.backslash :: echoEscapes (Ascii.backslash :: b :: rest)
  | b :: rest => b :: echoEscapes rest
  | [] => []

/-- Up to two newlines are written as escapes. -/
def inlineNewlines (text : Text) : Text :=
  if text.count Ascii.newline ≤ 2 then Text.replaceAll "\n" "\\n" text else text

def echo (c : Compiler) (call : Call) : Compile FragmentId := do
  let (flags, groups) := echoFlags ⟨true, false⟩ call.groups
  match ← echoPieces c call groups [] with
  | none => call.giveUp "arguments could not be converted"
  | some pieces =>
    let joined := Text.join " " pieces
    let text := if flags.escapes then echoEscapes joined else joined
    let printed := if flags.newline then "console.log(`" ++ text ++ "`)"
      else "await Deno.stdout.write(new TextEncoder().encode(`" ++ text ++ "`))"
    let printed := inlineNewlines printed
    new ([(.statement, .text printed), (.condition, .text ("(" ++ printed ++ " || 1)")),
      (.templateInnards, .text text)] ++ call.externalFields)
where
  /-- The template spelling of each argument, compiled and read one after the other. -/
  echoPieces (c : Compiler) (call : Call) : List (List Node) → List Text →
    Compile (Option (List Text))
    | [], pieces => return some pieces
    | group :: rest, pieces => do
      match ← readEach c .templateInnards (← convert c call.context group) with
      | none => return none
      | some more => echoPieces c call rest (pieces ++ more)

def exit (c : Compiler) (call : Call) : Compile FragmentId := do
  match call.groups with
  | [] => statement "Deno.exit()"
  | [group] =>
    let word := textOf group
    if isLastExitCode word then
      use .exitCode
      statement "Deno.exit(exitCodeOfLastChildProcess)"
    else if Text.isDigits word then statement ("Deno.exit(" ++ word ++ ")")
    else match ← call.value c group with
      | some value => statement ("Deno.exit(" ++ value ++ ")")
      | none => call.giveUp "exit status could not be converted"
  | _ => call.giveUp "too many arguments"

def changeDirectory (c : Compiler) (call : Call) : Compile FragmentId := do
  let finish (target : Text) : Compile FragmentId :=
    new ((.statement, .text ("Deno.chdir(" ++ target ++ ")")) :: call.externalFields)
  match call.groups with
  | [] => finish (← env "HOME")
  | [group] =>
    if Text.begins "-" (textOf group) then call.giveUp "cd options are not supported"
    else match ← call.value c group with
      | some target => finish target
      | none => call.giveUp "directory could not be converted"
  | _ => call.giveUp "cd options are not supported"

/-- Looks a command up; used as a condition it becomes a check. -/
def commandLookup (c : Compiler) (call : Call) : Compile FragmentId := do
  match call.lookupOperand? with
  | none => call.external c
  | some operand =>
    match ← call.value c operand with
    | none => call.external c
    | some value =>
      new ([(.condition, .commandCheck value false), (.negation, .commandCheck value true)] ++
        call.externalFields)

def builtin (c : Compiler) (call : Call) : Builtin → Compile FragmentId
  | .alias => aliasTexts c call call.groups []
  | .set => call.giveUp "shell options are not supported"
  | .returns => returns c call
  | .loopControl keyword => loopControl call keyword
  | .read => readLine c call
  | .constant _ result => constant result
  | .path command most => pathFunction c call command most
  | .echo => echo c call
  | .exit => exit c call
  | .changeDirectory => changeDirectory c call
  | .lookup _ => commandLookup c call

/-- A simple command: a builtin, a function of the script, or a command of the system. -/
def command (c : Compiler) (context : Context) (n : Node) : Compile FragmentId := do
  let some call := Call.ofNode? context n | giveUp n "command without a name"
  if call.name.isEmpty then return ← call.external c
  match c.registry.find? call.name with
  | some b =>
    log .debug "translating builtin" [("builtin", b.name)]
    builtin c call b
  | none =>
    if (← get).functions.contains call.name then functionCall c call else call.external c

/-- A negated command. -/
def negated (c : Compiler) (context : Context) (n : Node) : Compile FragmentId := do
  let some inner := n.significant.find? fun child => child.kind != .token "!"
    | giveUp n "negation without a command"
  let id ← c.compile inner context
  if ← isFallback id then return ← fallback n.text
  new [(.pureCommand, .negated id), (.condition, .same id .negation),
    (.negation, .same id .condition), (.success, .same id .failure), (.failure, .same id .success),
    (.value, .same id .negation), (.statement, .same id .statement)]

end ShellToDeno.Compile
