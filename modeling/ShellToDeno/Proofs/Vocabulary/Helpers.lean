import ShellToDeno.Program
import ShellToDeno.Proofs.Settling.Depth
import ShellToDeno.Proofs.Vocabulary.Notes

/-!
# Programs note the helpers they use

The names of some helpers have capital letters inside. A script that neither holds nor spells
capital letters cannot bring such a name into the body of its program, so whatever helper the body
names was written by a step that noted its feature. A header with no more than the noted features
asks for then still has every one of these names.
-/
namespace ShellToDeno

open Text Compile

namespace Text

theorem isInfix_of_contains {t piece : Text} (found : contains t piece = true) : piece <:+: t := by
  obtain ⟨⟨before, after⟩, cut⟩ := Option.isSome_iff_exists.1 found
  clear found
  induction t generalizing before after with
  | nil =>
    rw [cut?] at cut
    split at cut
    · next empty => exact List.isEmpty_iff.1 empty ▸ List.nil_infix
    · cases cut
  | cons b rest ih =>
    rw [cut?] at cut
    split at cut
    · next starts => exact (List.isPrefixOf_iff_prefix.1 starts).isInfix
    · obtain ⟨⟨front, back⟩, later, _⟩ := Option.map_eq_some_iff.1 cut
      exact (ih front back later).trans (List.suffix_cons b rest).isInfix

/-- The part of a name from its first capital letter on. -/
def fromCapital (name : Text) : Text := name.dropWhile fun b => !isCapital b

/-- Where a text holds a name, one of its words agrees with the name from the first capital letter
on, as far as both go. -/
theorem Spelled.exists_word {words : List Text} {t name : Text} (spelled : Spelled words t)
    (found : name <:+: t) (capital : (fromCapital name).head?.any isCapital = true) :
    ∃ word ∈ words, word <+: fromCapital name ∨ fromCapital name <+: word := by
  obtain ⟨front, split⟩ : fromCapital name <:+ name := List.dropWhile_suffix _
  obtain ⟨before, after, rfl⟩ := found
  rw [← split, List.append_assoc, List.append_assoc] at spelled
  have tail := spelled.of_append_right.of_append_right
  generalize fromCapital name = rest at capital tail
  cases rest with
  | nil => cases capital
  | cons b rest =>
    obtain ⟨word, known, _, starts⟩ := tail.1 (by simpa using capital)
    exact ⟨word, known, List.prefix_or_prefix_of_prefix starts
      (List.prefix_append (b :: rest) after)⟩

end Text

namespace Node
variable {n : Node}

theorem plain_of_laid {source : Text} (laid : n.Laid source) (plain : Plain source) :
    Plain n.text ∧ Plain n.indent := by
  refine ⟨plain.subset (slice?_subset laid.here.text), fun b member => ?_⟩
  rcases laid.here.blank b member with rfl | rfl
  · decide
  · decide

/-- The script to which a list with a jump is rewritten is made from the texts of the list. -/
theorem plain_jumpScript? {script : Text} (scripted : jumpScript? n = some script)
    (indent : Plain n.indent) (children : ∀ c ∈ n.children, Plain c.text) : Plain script := by
  unfold jumpScript? at scripted
  split at scripted
  · cases scripted
  next left junction right parts =>
  have sides : ∀ side ∈ [left, right], Plain side.text := fun side member =>
    children side (List.mem_filter.1 ((of_listParts? parts).1 ▸ member)).1
  have front := sides left (by simp)
  have back := sides right (by simp)
  split at scripted
  · cases scripted
    unfold guardedScript
    extract_lets condition
    have held : Plain condition := by
      dsimp only [condition]
      cases junction with
      | both => exact front
      | either =>
        dsimp only
        split
        · exact .append (.append (by decide) front) (by decide)
        · exact .append (by decide) front
    have opened : Plain ("\n" ++ n.indent ++ "if " ++ condition ++ "; then\n") :=
      .append (.append (.append (.append (by decide) indent) (by decide)) held) (by decide)
    exact .append (.append (.append (.append (.append (.append opened indent) (by decide)) back)
      (by decide)) indent) (by decide)
  · cases scripted

/-- What the compiler may come to from a tree that is laid out over a script without capital
letters. -/
theorem tidy_of_laid {source : Text} (laid : n.Laid source) (plain : Plain source)
    (spells : n.SpellsPlain) : n.Tidy := by
  intro m reached
  refine ⟨spells m reached, ?_⟩
  clear spells
  induction reached generalizing source with
  | here n => exact plain_of_laid laid plain
  | child member _ ih => exact ih (laid.inside _ member) plain
  | guard isList guarded _ ih =>
    obtain ⟨script, scripted, found⟩ := Option.bind_eq_some_iff.1 guarded
    refine ih (laid_of_ifOf? found) (plain_jumpScript? scripted (plain_of_laid laid plain).2 ?_)
    exact fun c member => (plain_of_laid (laid.inside c member) plain).1

/-- Checks a tree that is not deeper than the given number for ANSI-C strings with capital
letters. -/
def spellsPlain : Nat → Node → Bool
  | 0, _ => false
  | depth + 1, n => (n.kind != .ansiString || decide (Plain n.ansiValue)) &&
    n.children.all (spellsPlain depth) && (n.kind != .list || (guard? n).all (spellsPlain depth))

theorem spellsPlain_of_eq_true {depth : Nat} (checked : n.spellsPlain depth = true) :
    n.SpellsPlain := by
  intro m reached kind
  induction reached generalizing depth with
  | here n =>
    cases depth with
    | zero => cases checked
    | succ depth =>
      simp only [spellsPlain, kind, Bool.and_eq_true] at checked
      simpa using checked.1.1
  | child member _ ih =>
    cases depth with
    | zero => cases checked
    | succ depth =>
      simp only [spellsPlain, Bool.and_eq_true, List.all_eq_true] at checked
      exact ih (checked.1.2 _ member) kind
  | guard isList guarded _ ih =>
    cases depth with
    | zero => cases checked
    | succ depth =>
      simp only [spellsPlain, isList, guarded, Bool.and_eq_true] at checked
      exact ih (by simpa using checked.2) kind

end Node

namespace Preamble

/-- The names with capital letters inside that a header may bring into scope for a body, and the
feature of each. -/
def capitalised : List (Text × Feature) :=
  [("hasCommand", .hasCommand), ("iterateOver", .iterateOver), ("makeScope", .makeScope),
   ("appendTo", .append), ("exitCodeOfLastChildProcess", .exitCode)]

/-- The names that a header brings into scope. -/
def Data.names (d : Data) : List Text := d.imports ++ d.bindings

/-- A helper is brought into scope as soon as one of the features that need it is used. -/
theorem mem_names_of_has {features : Features} {h : Helper} (listed : h ∈ imports ++ bindings)
    {feature : Feature} (needed : feature ∈ h.neededBy) (has : features.has feature = true)
    (options : Options) : h.name ∈ (Data.of features options).names := by
  have used : h.isUsed features = true := by
    rw [Helper.isUsed, List.any_eq_true.2 ⟨feature, needed, has⟩, Bool.or_true]
  have picked {helpers : List Helper} (member : h ∈ helpers) :
      h.name ∈ pick helpers features options.minimal := by
    refine List.mem_map_of_mem (List.mem_filter.2 ⟨member, ?_⟩)
    rw [used, Bool.or_true]
  rcases List.mem_append.1 listed with member | member
  · exact List.mem_append_left _ (picked member)
  · exact List.mem_append_right _ (picked member)

/-- No other words than those of its own feature agree with a name. -/
theorem mem_of_agrees {features : List Feature} {entry : Text × Feature}
    (listed : entry ∈ capitalised)
    {word : Text} (known : word ∈ vocabulary features)
    (agrees : word <+: fromCapital entry.1 ∨ fromCapital entry.1 <+: word) :
      entry.2 ∈ features := by
  have common : ∀ entry ∈ capitalised, ∀ word ∈ commonWords,
      ¬(word <+: fromCapital entry.1 ∨ fromCapital entry.1 <+: word) := by decide +kernel
  have apart : ∀ entry ∈ capitalised, ∀ feature ∈ Feature.all, ∀ word ∈ feature.words,
      (word <+: fromCapital entry.1 ∨ fromCapital entry.1 <+: word) → feature = entry.2 := by
    decide +kernel
  rcases List.mem_append.1 known with member | member
  · exact absurd agrees (common entry listed word member)
  · obtain ⟨feature, among, member⟩ := List.mem_flatMap.1 member
    have every : feature ∈ Feature.all := by cases feature <;> decide
    exact apart entry listed feature every word member agrees ▸ among

end Preamble

namespace Program

open Preamble

/-- The body of a program is accounted for by its features. -/
theorem says_outcome {tree : Node} (tidy : tree.Tidy) {features : List Feature}
    (outcome : Except Fault Text) :
    (∀ text, outcome = .ok text → Says features text) → Says features (match outcome with
      | .ok text => text
      | .error _ => Js.marker tree.text) := by
  intro known
  cases outcome with
  | ok text => exact known text rfl
  | error fault => exact .marker tidy.neat.text

theorem says_body {registry : Registry} (plain : ∀ b ∈ registry.builtins, b.IsPlain) {tree : Node}
    (tidy : tree.Tidy) : Says (ofTree registry tree).features.used (ofTree registry tree).body := by
  have honest := Compiler.honest_ofFuel plain (Compiler.fuelFor tree.text.length)
  have clean : CompileState.empty.Clean := by
    intro id f found
    simp [CompileState.empty] at found
  obtain ⟨_, _, _, known⟩ :=
    statements_writes (honest.serves 0) .program (fun _ => tidy.child) clean
  have within (features : Features) (p : Prop) [Decidable p] :
      features.used ⊆ (if p then features.add .dax else features).used := by
    split
    · exact fun feature member => Features.mem_used_add.2 (.inr member)
    · exact List.Subset.refl _
  exact (says_outcome tidy _ fun text ended => known text ended trivial).later (within _ _)

/-- The program of a script that neither holds nor spells a capital letter has noted every helper
that its body names, and so its header has those names, whatever else is left out of it. -/
theorem headers_bind_helpers {registry : Registry}
    (known : registry.builtins ⊆ Registry.standard.builtins) {script : Text} (plain : Plain script)
    {tree : Node} (parsed : Node.parse script = .ok tree) (spells : tree.SpellsPlain) :
    ∃ p, ofScript registry script = .ok p ∧
      (∀ entry ∈ capitalised, p.body.contains entry.1 = true →
        p.features.has entry.2 = true ∧
          ∀ options, entry.1 ∈ (Data.of p.features options).names) ∧
      (p.body.contains "await $" = true →
        p.features.has .dax = true ∧ ∀ options,
        ("$" : Text) ∈ (Data.of p.features options).names) := by
  have builtins : ∀ b ∈ Registry.standard.builtins, b.IsPlain := by decide
  have accounted := says_body (fun b member => builtins b (known member))
    (Node.tidy_of_laid (Node.laid_of_parse parsed) plain spells)
  refine ⟨ofTree registry tree, by rw [ofScript,
    parsed], fun entry listed named => ?_, fun called => ?_⟩
  · have capital : ∀ entry ∈ capitalised, (fromCapital entry.1).head?.any isCapital = true := by
      decide +kernel
    obtain ⟨word, spelled, agrees⟩ :=
      accounted.exists_word (isInfix_of_contains named) (capital entry listed)
    have noted := mem_of_agrees listed spelled agrees
    have has : (ofTree registry tree).features.has entry.2 =
        true := by simpa [Features.has] using noted
    have helper : ∀ entry ∈ capitalised, ∃ h ∈ imports ++ bindings, h.name = entry.1 ∧
        entry.2 ∈ h.neededBy := by decide +kernel
    obtain ⟨h, member, same, needed⟩ := helper entry listed
    exact ⟨has, fun options => same ▸ mem_names_of_has member needed has options⟩
  · have has : (ofTree registry tree).features.has .dax = true := by
      rw [ofTree] at called ⊢
      dsimp only at called ⊢
      rw [if_pos called]
      simp [Features.has, Features.mem_used_add]
    have shell : ⟨"$", [.dax], false⟩ ∈ imports ++ bindings :=
      List.mem_append_right _ List.mem_cons_self
    exact ⟨has, fun options => mem_names_of_has shell List.mem_cons_self has options⟩

set_option maxRecDepth 20000 in
/-- A list that is rewritten: the check comes with the condition, the exit status with the jump. -/
theorem headers_bind_helpers_lookup : ∃ p, ofScript .standard "which a||return 1" = .ok p ∧
    ∀ name ∈ [("hasCommand" : Text), "exitCodeOfLastChildProcess"], p.body.contains name = true ∧
      name ∈ (Data.of p.features ⟨true, Sources.published, []⟩).names := by
  have read : (Node.parse "which a||return 1").toOption.any (Node.spellsPlain 10) = true := by
    decide +kernel
  have made : (ofScript .standard "which a||return 1").toOption.all (fun p =>
      p.body.contains "hasCommand" && p.body.contains "exitCodeOfLastChildProcess") = true := by
    decide +kernel
  cases parsed : Node.parse "which a||return 1" with
  | error refusal => rw [parsed] at read; cases read
  | ok tree =>
    rw [parsed] at read
    obtain ⟨p, compiled, helpers, -⟩ := headers_bind_helpers (List.Subset.refl _) (by decide) parsed
      (Node.spellsPlain_of_eq_true read)
    rw [compiled] at made
    obtain ⟨check, status⟩ := Bool.and_eq_true_iff.1 made
    refine ⟨p, compiled, ?_⟩
    simp only [List.forall_mem_cons]
    exact ⟨⟨check, (helpers ("hasCommand", .hasCommand) (by decide) check).2 _⟩,
      ⟨status, (helpers ("exitCodeOfLastChildProcess", .exitCode) (by decide) status).2 _⟩,
      List.forall_mem_nil _⟩

end Program

end ShellToDeno
