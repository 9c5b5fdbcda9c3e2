import ShellToDeno.Tree.Node

/-!
Arguments of a command. White space parts them, except for the lone newline of a line continuation;
backslashes that continue a line belong to no argument.
-/
namespace ShellToDeno.Arguments

/-- The nodes that belong to arguments, each with whether it starts one. -/
def marked (escaped fresh : Bool) : List Node → List (Bool × Node)
  | [] => []
  | n :: rest =>
    if n.isBackslash then marked true fresh rest
    else if n.kind == .whitespace then
      marked escaped (fresh || !(escaped && n.text == "\n")) rest
    else (fresh, n) :: marked false false rest

/-- Gathers nodes up to the next one that starts an argument. -/
def gather : List (Bool × Node) → List (List Node)
  | [] => []
  | (_, n) :: rest =>
    match rest, gather rest with
    | (false, _) :: _, first :: others => (n :: first) :: others
    | _, others => [n] :: others

/-- Splits nodes into arguments. -/
def groups (nodes : List Node) : List (List Node) := gather (marked false true nodes)

def textOf (nodes : List Node) : Text := nodes.flatMap Node.text

mutual

/-- Opens concatenations, so that a brace expression inside one still multiplies the argument. -/
def open_ : Node → List Node
  | ⟨.concatenation, _, children, _, _, _⟩ => openAll children
  | ⟨kind, text, children, indent, start, stop⟩ => [⟨kind, text, children, indent, start, stop⟩]

def openAll : List Node → List Node
  | [] => []
  | n :: rest => open_ n ++ openAll rest

end

end ShellToDeno.Arguments
