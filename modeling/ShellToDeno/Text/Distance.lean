/-! Edit distance. -/
namespace ShellToDeno.Distance

/-- The next column of the table: `above` is the entry above the current one in the new column,
`diagonal` the entry beside that in the old one. -/
def column (x : Nat) (above diagonal : Nat) : List Nat → List Nat → List Nat
  | y :: ys, left :: lefts =>
    let entry := min (min (left + 1) (above + 1)) (diagonal + if x == y then 0 else 1)
    entry :: column x entry left ys lefts
  | _, _ => []

/-- Goes through the second list; `first` is the top of the column, `rest` what is below it. -/
def columns (ys : List Nat) (first : Nat) (rest : List Nat) : List Nat → Nat
  | [] => rest.getLastD first
  | x :: xs => columns ys (first + 1) (column x (first + 1) first ys rest) xs

/-- The least number of insertions, deletions and replacements that turn one list into the other. -/
def edits (ys xs : List Nat) : Nat := columns ys 0 (List.range' 1 ys.length) xs

end ShellToDeno.Distance
