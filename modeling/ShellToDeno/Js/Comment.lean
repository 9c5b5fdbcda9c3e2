import ShellToDeno.Text

/-! Block comments, and the marker that stands for source that has no counterpart. -/
namespace ShellToDeno.Js

/-- A text that can stand inside a block comment. -/
def commentText (s : Text) : Text := Text.replaceAll "*/" "* /" s

/-- A block comment that asks for a review, followed by an expression of its own. -/
def marker (s : Text) : Text := "/* FIXME: " ++ commentText s ++ " */0"

end ShellToDeno.Js
