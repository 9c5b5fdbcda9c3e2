import ShellToDeno.Compile.Arithmetic
import ShellToDeno.Braces.Range
import ShellToDeno.Shell.Quoting

/-! Words, strings and expansions. -/
namespace ShellToDeno.Compile

open Arguments

/-- Whether a word has nothing in it that is special in a template. -/
def isPlainWord (text : Text) : Bool := !text.any fun b => b == '\\' || b == '`' || b == '$'

def word (n : Node) : Compile FragmentId := do
  let text := n.text
  if text == "~" || Text.begins "~/" text then
    let home := Js.substitution (← env "HOME")
    let rest := Shell.unescapeWord (text.drop 1)
    let innards := home ++ Js.templateInnards rest
    let fields := [(.templateInnards, .text innards), (.value, .text (Js.template innards))]
    new (if isPlainWord text then (.argument, .text (home ++ Dax.wordArgument rest)) ::
      fields else fields)
  else
    let fields := literalFields (Js.templateInnards (Shell.unescapeWord text))
    new (if isPlainWord text then (.argument, .text (Dax.wordArgument text)) :: fields else fields)

def number (n : Node) : Compile FragmentId :=
  new ([.argument, .quotedInnards, .templateInnards, .number, .value, .condition].map
    fun form => (form, .text n.text))

/-- A string of which every byte counts. -/
def quotedText (text : Text) : Compile FragmentId :=
  new ((.value, .text (Js.stringLiteral text)) :: literalFields (Js.templateInnards text))

def rawString (n : Node) : Compile FragmentId :=
  quotedText (Text.cutEnd "'" (Text.cutStart "'" n.text))

def ansiString (n : Node) : Compile FragmentId :=
  quotedText (Shell.ansiUnescape (Text.cutEnd "'" (Text.cutStart "$'" n.text)))

def stringContent (n : Node) : Compile FragmentId :=
  literal (Shell.unescapeDoubleQuoted n.text)

/-- A double-quoted string. -/
def string (c : Compiler) (context : Context) (n : Node) : Compile FragmentId := do
  match quotedParts n with
  | [] => new [(.quotedInnards, .text []), (.templateInnards, .text [])]
  | [only] => c.compile only context
  | parts => combine c (← parts.mapM fun p => c.compile p context)

/-- Adjacent parts of one word. Brace expressions multiply only in argument lists. -/
def concatenation (c : Compiler) (context : Context) (n : Node) : Compile FragmentId := do
  combine c (← n.children.mapM (withLiteralBraces c context))

def commandName (c : Compiler) (context : Context) (n : Node) : Compile FragmentId :=
  match n.significant with
  | [only] => c.compile only context
  | _ => giveUp n "malformed command name"

/-- An expression in every spelling that a string can take. -/
def interpolation (expression : Text) : Compile FragmentId :=
  let embedded := Js.substitution expression
  new [(.argument, .text embedded), (.quotedInnards, .text embedded),
    (.templateInnards, .text embedded), (.stringValue, .text expression),
    (.value, .text expression)]

def variableOf? (n : Node) : Option Node := n.child? [.variableName, .specialVariableName]

def simpleExpansion (n : Node) : Compile FragmentId := do
  match variableOf? n with
  | some name => interpolation (← env name.text)
  | none => giveUp n "expansion without a variable name"

/-- Default values: the operator of the shell and that of the target. -/
def defaultOperators : List (Text × Text) :=
  [(":-", "||"), (":=", "||="), ("-", "??"), ("=", "??=")]

/-- An expansion that is kept, with a comment asking for a review. -/
def reviewExpansion (n : Node) (access : Text) : Compile FragmentId := do
  log .warn "unsupported parameter expansion" [("text", n.text)]
  interpolation (access ++ "/* FIXME: " ++ Js.commentText n.text ++ " */")

def defaultExpansion (c : Compiler) (context : Context) (n name : Node) (access : Text)
    (operator : Text × Text) : Compile FragmentId := do
  let valueStart := name.stop + operator.1.length
  let joined (value : Text) :=
    interpolation ("(" ++ access ++ " " ++ operator.2 ++ " " ++ value ++ ")")
  match n.children.find? fun child => child.start == valueStart && child.stop < n.stop with
  | none => joined "``"
  | some child =>
    match ← c.read (← withLiteralBraces c context child) .value with
    | some value => joined value
    | none => reviewExpansion n access

/-- An expansion in braces. -/
def expansion (c : Compiler) (context : Context) (n : Node) : Compile FragmentId := do
  match variableOf? n, Text.cutEnd? "\x7d" n.text with
  | some name, some body =>
    let lead ← sliceOf n.text 0 (name.start - n.start)
    let rest ← sliceOf n.text (name.stop - n.start) body.length
    let access ← env name.text
    if lead == "$\x7b#" && rest.isEmpty then interpolation (access ++ ".length")
    else if lead != "$\x7b" then reviewExpansion n access
    else if rest.isEmpty then interpolation access
    else if rest == "^^" then interpolation (access ++ ".toUpperCase()")
    else if rest == ",," then interpolation (access ++ ".toLowerCase()")
    else match defaultOperators.find? fun operator => operator.1.isPrefixOf rest with
      | some operator => defaultExpansion c context n name access operator
      | none => reviewExpansion n access
  | _, _ => giveUp n "expansion without a variable name"

def braceExpression (n : Node) : Compile FragmentId := do
  let expansion ← Braces.expand n.text
  if !expansion.multiplies then return ← literal n.text
  let array := "[" ++ Text.join ", " (expansion.texts.map Js.stringLiteral) ++ "]"
  add { Fragment.ofFields [(.array, .text array), (.value, .text array)] with
    values := some expansion.texts }

def array (c : Compiler) (context : Context) (n : Node) : Compile FragmentId := do
  let elements := n.children.filter fun child => !child.isAny [.token "(", .token ")"]
  let unified ← unify c context elements
  new [(.array, .same unified .array), (.value, .same unified .array)]

def commandSubstitution (c : Compiler) (n : Node) : Compile FragmentId := do
  let inside := n.significant.filter fun child =>
    !child.isAny [.token "$(", .token ")", .token "`", .token ";"]
  match inside with
  | [only] =>
    let inner ← c.compile only .commandSubstitution
    if ← isFallback inner then return ← fallback n.text
    new [(.captureCall, .same inner .captureCall), (.argument, .capturedArgument inner),
      (.templateInnards, .capturedInnards inner), (.stringValue, .captured inner),
      (.value, .captured inner)]
  | _ => giveUp n "command substitution must hold exactly one statement"

def arithmeticExpansion (n : Node) : Compile FragmentId := do
  match (Text.cutStart? "$((" n.text).bind (Text.cutEnd? "))") with
  | some body =>
    let expression := "(" ++ Utf8.trim (← arithmetic body) ++ ")"
    new [(.argument, .text (Js.substitution expression)),
      (.templateInnards, .text (Js.substitution expression)), (.value, .text expression)]
  | none => giveUp n "unsupported arithmetic expansion"

end ShellToDeno.Compile
