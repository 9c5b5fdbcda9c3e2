import ShellToDeno.Tree.Node
import ShellToDeno.Js.StringLiteral

/-! A tree shown as indented tags, one node a line. -/
namespace ShellToDeno.Node

def keywords : List Text :=
  List.map Text.ofString
    ["if", "then", "elif", "else", "fi", "for", "in", "do", "done", "while", "until",
      "case", "esac",
     "function", "local", "export", "declare", "readonly", "typeset", "unset", "select", "time",
     "coproc"]

/-- Whether a name can stand in a tag as it is: lower case, and no keyword. -/
def isPlainTag (name : Text) : Bool :=
  !name.isEmpty && name.all (fun b => ('a' ≤ b && b ≤ 'z') || b == '_') && !keywords.contains name

def tag (kind : Kind) : Text :=
  let name := kind.name
  if isPlainTag name then name else Js.stringLiteral name

mutual

def previewAt (indent : Text) : Node → Text
  | ⟨kind, text, [], _, _, _⟩ =>
    indent ++ "<" ++ tag kind ++ " text=" ++ Js.stringLiteral text ++ " />\n"
  | ⟨kind, _, first :: rest, _, _, _⟩ =>
    indent ++ "<" ++ tag kind ++ ">\n" ++ first.previewAt (indent ++ "    ") ++
      previewAll (indent ++ "    ") rest ++ indent ++ "</" ++ tag kind ++ ">\n"

def previewAll (indent : Text) : List Node → Text
  | [] => []
  | n :: rest => n.previewAt indent ++ previewAll indent rest

end

def preview (n : Node) : Text := n.previewAt []

end ShellToDeno.Node
