import ShellToDeno.Tree.Kind

/-!
The tree of a script. Every byte of the source belongs to one leaf, so the leaves of a node spell
its text; white space and line continuations are leaves too, since they part the arguments.
-/
namespace ShellToDeno

structure Node where
  kind : Kind
  text : Text
  children : List Node
  /-- The blanks that start the line of the node. -/
  indent : Text
  /-- Offsets of the text in the source. -/
  start : Int
  stop : Int
  deriving Repr

instance : Inhabited Node := ⟨⟨.text, [], [], [], 0, 0⟩⟩

namespace Node

def isLeaf (n : Node) : Bool := n.children.isEmpty

def isAny (n : Node) (kinds : List Kind) : Bool := kinds.contains n.kind

/-- A lone backslash, which continues a line. -/
def isBackslash (n : Node) : Bool := n.kind == .text && n.text == "\\"

def child? (n : Node) (kinds : List Kind) : Option Node := n.children.find? (·.isAny kinds)

def childrenOf (n : Node) (kinds : List Kind) : List Node := n.children.filter (·.isAny kinds)

/-- The children that are neither white space nor comments. -/
def significant (n : Node) : List Node :=
  n.children.filter fun c => !c.isAny [.whitespace, .comment]

mutual

def leaves : Node → List Node
  | ⟨kind, text, [], indent, start, stop⟩ => [⟨kind, text, [], indent, start, stop⟩]
  | ⟨_, _, first :: rest, _, _, _⟩ => first.leaves ++ leavesOf rest

def leavesOf : List Node → List Node
  | [] => []
  | n :: rest => n.leaves ++ leavesOf rest

end

mutual

/-- All nodes in pre-order, each with its depth below the given one. -/
def walk (depth : Nat) : Node → List (Nat × Node)
  | ⟨kind, text, children, indent, start, stop⟩ =>
    (depth, ⟨kind, text, children, indent, start, stop⟩) :: walkAll (depth + 1) children

def walkAll (depth : Nat) : List Node → List (Nat × Node)
  | [] => []
  | n :: rest => n.walk depth ++ walkAll depth rest

end

/-- A childless node for a text that stands nowhere in a source. -/
def leaf (kind : Kind) (text : Text) : Node := ⟨kind, text, [], [], 0, text.length⟩

end Node

end ShellToDeno
