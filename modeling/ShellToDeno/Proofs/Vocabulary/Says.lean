import ShellToDeno.Compile.Node
import ShellToDeno.Proofs.Vocabulary.Spelling

/-!
# Texts that features account for

The helpers of the runtime have names with capital letters inside, and a text without capital
letters cannot hold such a name. `Says features t` says that each capital letter of `t` begins a
word that any program may hold, or a word from the name of a helper of one of the features.
-/
namespace ShellToDeno

/-- The capitalised words in the name of the helper of a feature. -/
def Feature.words : Feature → List Text
  | hasCommand => ["Command"]
  | iterateOver => ["Over"]
  | makeScope => ["Scope"]
  | append => ["To"]
  | exitCode => ["Code", "Of", "Last", "Child", "Process"]
  | _ => []

/-- Capitalised words, and ends of capitalised names, that any program may hold. -/
def commonWords : List Text :=
  List.map Text.ofString ["Deno", "Text", "Upper", "Lower", "Case", "Sync", "File", "Directory",
    "Symbolic", "Link",
    "FIXME", "IXME", "HOME", "OME", "ME", "PLY", "LY", "Y", "OK", "K", "E", "R", "W", "X"]

/-- The words that a program with some features may hold. -/
def vocabulary (features : List Feature) : List Text :=
    commonWords ++ features.flatMap Feature.words

open Text

/-- A text that some features account for. -/
abbrev Says (features : List Feature) (t : Text) : Prop := Spelled (vocabulary features) t

namespace Text.Spelled
variable {features more : List Feature} {t : Text}

/-- What some features account for, more of them do as well. -/
theorem later (known : Says features t) (within : features ⊆ more) : Says more t := by
  refine mono known (List.append_subset.2 ⟨List.subset_append_left _ _, ?_⟩)
  intro word mem
  obtain ⟨feature, among, named⟩ := List.mem_flatMap.1 mem
  exact List.mem_append_right _ (List.mem_flatMap.2 ⟨feature, within among, named⟩)

/-- A text that needs no feature. -/
theorem const (h : Spelled commonWords t) : Says features t :=
  mono h (List.subset_append_left _ _)

/-- A text that needs one feature. -/
theorem helper {feature : Feature} (noted : feature ∈ features)
    (h : Spelled (vocabulary [feature]) t) : Says features t :=
  later h (List.cons_subset.2 ⟨noted, List.nil_subset _⟩)

theorem marker {s : Text} (plain : Plain s) : Says features (Js.marker s) :=
  .append (.append (.const (by decide)) (Js.spelled_commentText (.of_plain plain)))
  (.const (by decide))

end Text.Spelled

/-- What an ANSI-C string stands for. -/
def Node.ansiValue (n : Node) : Text := Shell.ansiUnescape (cutEnd "'" (cutStart "$'" n.text))

/-- A node that neither holds nor spells a capital letter. -/
structure Node.Neat (n : Node) : Prop where
  text : Plain n.text
  indent : Plain n.indent
  ansiValue : n.kind = .ansiString → Plain n.ansiValue

/-- What a recipe writes of its own is accounted for. -/
def Recipe.Clean (features : List Feature) : Recipe → Prop
  | text value => Says features value
  | joinedCondition left operator _ => Says features left ∧ Says features operator
  | group members lead indent _ =>
    (∀ member ∈ members, Plain member.1.text) ∧ Plain lead ∧ Plain indent
  | commandLine call => Plain call.assignments
  | commandCheck value _ => Says features value
  | _ => True

theorem Recipe.Clean.mono {features more : List Feature} {recipe : Recipe}
    (clean : recipe.Clean features) (within : features ⊆ more) : recipe.Clean more := by
  cases recipe with
  | text => exact Spelled.later clean within
  | joinedCondition => exact ⟨Spelled.later clean.1 within, Spelled.later clean.2 within⟩
  | commandCheck => exact Spelled.later clean within
  | _ => exact clean

end ShellToDeno
