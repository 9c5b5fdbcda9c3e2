import Mathlib.Algebra.BigOperators.Group.List.Basic
import Mathlib.Algebra.Ring.Int.Defs
import Mathlib.Data.List.Sort
import ShellToDeno.Batch.Report
import ShellToDeno.Proofs.Batch.Entries

/-!
# Plans

A plan lists the files under their directories, in the order in which these first appear, and
counts each of them once.
-/
namespace ShellToDeno

/-! Files under their directories. -/

namespace Plan

/-- The directory under which a file is listed. -/
def directoryOf (file : Step) : Text := Path.dir file.input

/-- The step of a directory with those of some files that lie in it. -/
def group (list : List Step) (directory : Text) : Step :=
  ⟨.directory, [], [], directory, 0, [], list.filter (directoryOf · == directory)⟩

/-- The steps of some files, grouped by directory. -/
def grouped (list : List Step) : List Step := (list.map directoryOf).eraseDups.map (group list)

variable {file : Step} {list : List Step}

theorem group_append_of_ne {directory : Text} (elsewhere : directoryOf file ≠ directory) :
    group (list ++ [file]) directory = group list directory := by
  simp [group, List.filter_append, elsewhere]

theorem group_append_self : group (list ++ [file]) (directoryOf file) =
    { group list (directoryOf file) with children := (group list (directoryOf file)).children ++
      [file] } := by
  simp [group, List.filter_append]

theorem map_group_append {directories : List Text} (absent : directoryOf file ∉ directories) :
    directories.map (group (list ++ [file])) = directories.map (group list) := by
  apply List.map_congr_left
  intro directory member
  apply group_append_of_ne
  rintro rfl
  exact absent member

theorem intoDirectory?_group {directories : List Text} (once : directories.Nodup) :
    intoDirectory? (directoryOf file) file (directories.map (group list)) =
      if directoryOf file ∈ directories then some (directories.map (group (list ++ [file]))) else
        none := by
  induction directories with
  | nil => rfl
  | cons directory directories ih =>
    obtain ⟨fresh, once⟩ := List.nodup_cons.1 once
    rw [List.map_cons, intoDirectory?, ih once]
    by_cases here : directory = directoryOf file
    · subst here
      rw [if_pos (by simp [group]), if_pos List.mem_cons_self, List.map_cons, group_append_self,
        map_group_append fresh]
    · rw [if_neg (by simp [group, here])]
      by_cases later : directoryOf file ∈ directories
      · rw [if_pos later, if_pos (List.mem_cons_of_mem _ later), List.map_cons,
          group_append_of_ne (Ne.symm here)]
        rfl
      · rw [if_neg later, if_neg (by simp [later, Ne.symm here])]
        rfl

/-- One more file goes under its directory, or under a new one at the end. -/
theorem addFile_grouped (list : List Step) (file : Step) :
    addFile ⟨grouped list, []⟩ file = ⟨grouped (list ++ [file]), []⟩ := by
  have into : intoDirectory? (directoryOf file) file (grouped list) = _ :=
    intoDirectory?_group (Text.nodup_eraseDups (list.map directoryOf))
  have after : grouped (list ++ [file]) = ((list.map directoryOf).eraseDups ++
      if directoryOf file ∈ list.map directoryOf then [] else [directoryOf file]).map
        (group (list ++ [file])) := by
    rw [grouped, List.map_append, List.map_singleton, Text.eraseDups_concat]
  rw [addFile, ← directoryOf, into, after]
  by_cases known : directoryOf file ∈ list.map directoryOf
  · rw [if_pos (List.mem_eraseDups.2 known), if_pos known, List.append_nil]
  · rw [if_neg (mt List.mem_eraseDups.1 known), if_neg known, List.map_append,
      map_group_append (mt List.mem_eraseDups.1 known)]
    have first : list.filter (directoryOf · == directoryOf file) = [] := by
      rw [List.filter_eq_nil_iff]
      intro other member same
      exact known (List.mem_map.2 ⟨other, member, beq_iff_eq.1 same⟩)
    simp [addStep, grouped, group, List.filter_append, first]

end Plan

theorem Plan.foldl_addFile (files : List Step) : files.foldl addFile empty =
    ⟨grouped files, []⟩ := by
  induction files using List.reverseRecOn with
  | nil => rfl
  | append_singleton files file ih =>
    rw [List.foldl_append, ih]
    exact addFile_grouped _ _

theorem Batch.Report.plan_eq (r : Report) : r.plan =
    ⟨Plan.grouped (r.results.map FileResult.step), []⟩ := by
  rw [plan, ← Plan.foldl_addFile, List.foldl_map]

/-! Sums. -/

mutual

/-- A step and those below it, each by itself. -/
def Step.all : Step → List Step
  | ⟨kind, input, output, description, markers, features, children⟩ =>
    ⟨kind, input, output, description, markers, features, []⟩ :: alls children

def Step.alls : List Step → List Step
  | [] => []
  | step :: rest => step.all ++ alls rest

end

namespace Step

theorem all_of_children {step : Step} (single : step.children = []) : step.all = [step] := by
  obtain ⟨_, _, _, _, _, _, children⟩ := step
  cases single
  rfl

theorem alls_append (first second : List Step) :
    alls (first ++ second) = alls first ++ alls second := by
  induction first with
  | nil => rfl
  | cons step first ih => rw [List.cons_append, alls, alls, ih, List.append_assoc]

/-- Nothing is counted for a step. -/
def IsBlank (step : Step) : Prop := step.kind = .directory ∧ step.markers = 0 ∧ step.features = []

end Step

namespace Plan

theorem alls_intoDirectory? {directory : Text} {file : Step} {steps after : List Step}
    (into : intoDirectory? directory file steps = some after) :
    (Step.alls after).Perm (file.all ++ Step.alls steps) := by
  induction steps generalizing after with
  | nil => cases into
  | cons step steps ih =>
    rw [intoDirectory?] at into
    split at into
    · cases into
      obtain ⟨_, _, _, _, _, _, children⟩ := step
      simp only [Step.alls, Step.all, Step.alls_append, List.append_nil, List.cons_append]
      refine (List.Perm.cons _ ?_).trans List.perm_middle.symm
      rw [← List.append_assoc]
      exact List.perm_append_comm.append_right _
    · obtain ⟨rest, inside, rfl⟩ := Option.map_eq_some_iff.1 into
      rw [Step.alls, Step.alls, ← List.append_assoc]
      refine ((ih inside).append_left _).trans ?_
      rw [← List.append_assoc]
      exact List.perm_append_comm.append_right _

/-- A plan holds some files and nothing else that counts. -/
def Holds (p : Plan) (files : List Step) : Prop :=
  ∃ blank : List Step, (∀ step ∈ blank, step.IsBlank) ∧ (Step.alls p.steps).Perm (files ++ blank)

theorem Holds.addFile {p : Plan} {files : List Step} {file : Step} (held : p.Holds files)
    (single : file.children = []) : (p.addFile file).Holds (file :: files) := by
  obtain ⟨blank, counts, perm⟩ := held
  rw [Plan.addFile]
  cases into : intoDirectory? (Path.dir file.input) file p.steps with
  | some steps =>
    refine ⟨blank, counts, (alls_intoDirectory? into).trans ?_⟩
    rw [Step.all_of_children single]
    exact perm.cons _
  | none =>
    refine ⟨⟨.directory, [], [], Path.dir file.input, 0, [], []⟩ :: blank, ?_, ?_⟩
    · rw [List.forall_mem_cons]
      exact ⟨⟨rfl, rfl, rfl⟩, counts⟩
    · simp only [addStep, Step.alls_append, Step.alls, Step.all, Step.all_of_children single,
        List.append_nil]
      refine List.perm_append_comm.trans ?_
      simp only [List.cons_append, List.nil_append]
      refine (List.Perm.swap _ _ _).trans (.cons _ ?_)
      exact (perm.cons _).trans List.perm_middle.symm

theorem holds_foldl_addFile {files : List Step} (single : ∀ file ∈ files, file.children = []) :
    (files.foldl addFile empty).Holds files := by
  induction files using List.reverseRecOn with
  | nil => exact ⟨[], List.forall_mem_nil _, .nil⟩
  | append_singleton files file ih =>
    rw [List.forall_mem_append] at single
    rw [List.foldl_append]
    obtain ⟨blank, counts, perm⟩ :=
      (ih single.1).addFile (single.2 file (List.mem_singleton_self file))
    exact ⟨blank, counts, perm.trans ((List.perm_append_singleton file files).symm.append_right _)⟩

end Plan

namespace Summary

/-- How many files of a kind are counted. -/
def of (s : Summary) : StepKind → Nat
  | .convert => s.convert
  | .unchanged => s.unchanged
  | .failed => s.failed
  | _ => 0

/-- The kinds of steps that are counted as files. -/
def fileKinds : List StepKind := [.convert, .unchanged, .failed]

theorem of_count {kind own : StepKind} (isFile : kind ∈ fileKinds) (s : Summary) :
    (s.count own).of kind = s.of kind + if own = kind then 1 else 0 := by
  simp only [fileKinds, List.mem_cons, List.not_mem_nil, or_false] at isFile
  rcases isFile with rfl | rfl | rfl <;> cases own <;> rfl

theorem total_count (s : Summary) (own : StepKind) :
    (s.count own).total = s.total + if own ∈ fileKinds then 1 else 0 := by
  cases own <;> rfl

theorem markers_count (s : Summary) (own : StepKind) : (s.count own).markers = s.markers := by
  cases own <;> rfl

theorem features_count (s : Summary) (own : StepKind) : (s.count own).features = s.features := by
  cases own <;> rfl

theorem mem_insertName {name other : Text} {names : List Text} :
    name ∈ insertName other names ↔ name = other ∨ name ∈ names := by
  induction names with
  | nil => simp [insertName]
  | cons first names ih =>
    rw [insertName]
    split
    · next same =>
      rw [beq_iff_eq.1 same, List.mem_cons, or_self_left]
    · split
      · exact List.mem_cons
      · rw [List.mem_cons, List.mem_cons, ih, or_left_comm]

theorem pairwise_insertName {name : Text} {names : List Text} (sorted : names.Pairwise (· < ·)) :
    (insertName name names).Pairwise (· < ·) := by
  induction names with
  | nil => exact List.pairwise_singleton _ _
  | cons first names ih =>
    obtain ⟨least, rest⟩ := List.pairwise_cons.1 sorted
    rw [insertName]
    split
    · exact sorted
    · next differ =>
      split
      · next less =>
        refine List.pairwise_cons.2 ⟨?_, sorted⟩
        rw [List.forall_mem_cons]
        exact ⟨Text.lt_iff.1 less, fun other member =>
          List.lt_trans (Text.lt_iff.1 less) (least other member)⟩
      · next greater =>
        refine List.pairwise_cons.2 ⟨fun other member => ?_, ih rest⟩
        rcases mem_insertName.1 member with rfl | member
        · exact Text.lt_iff.1 (Text.lt_of_ne (mt beq_iff_eq.2 differ) (Bool.eq_false_iff.2 greater))
        · exact least other member

/-- Counts a step with what is noted of it, not its children. -/
def addOwn (s : Summary) (step : Step) : Summary :=
  { s.count step.kind with
    markers := Integer.wrap ((s.count step.kind).markers + step.markers) }.addFeatures step.features

mutual

theorem addStep_eq (s : Summary) (step : Step) : s.addStep step = step.all.foldl addOwn s := by
  obtain ⟨kind, input, output, description, markers, features, children⟩ := step
  rw [addStep, addSteps_eq _ children, Step.all, List.foldl_cons]
  rfl

theorem addSteps_eq (s : Summary) : ∀ steps, s.addSteps steps = (Step.alls steps).foldl addOwn s
  | [] => rfl
  | step :: rest => by
    rw [addSteps, addSteps_eq _ rest, addStep_eq s step, Step.alls, List.foldl_append]

end

/-- A summary of steps, each by itself. -/
structure Sums (steps : List Step) (s : Summary) : Prop where
  total : s.total = steps.countP (·.kind ∈ fileKinds)
  kinds : ∀ kind ∈ fileKinds, s.of kind = steps.countP (·.kind = kind)
  markers : s.markers = Integer.wrap (steps.map Step.markers).sum
  features : ∀ name, name ∈ s.features ↔ ∃ step ∈ steps, name ∈ step.features
  sorted : s.features.Pairwise (· < ·)

theorem addFeatures_spec (s : Summary) (names : List Text) :
    (∀ name, name ∈ (s.addFeatures names).features ↔ name ∈ names ∨ name ∈ s.features) ∧
      (s.features.Pairwise (· < ·) → (s.addFeatures names).features.Pairwise (· < ·)) := by
  simp only [addFeatures]
  induction names using List.reverseRecOn with
  | nil => simp
  | append_singleton names last ih =>
    rw [List.foldl_append]
    constructor
    · intro name
      rw [List.foldl_cons, List.foldl_nil, mem_insertName, ih.1, List.mem_append,
        List.mem_singleton]
      tauto
    · intro sorted
      exact pairwise_insertName (ih.2 sorted)

variable {steps others : List Step} {s t : Summary}

theorem Sums.addOwn (sums : Sums steps s) (step : Step) : Sums (step :: steps) (s.addOwn step) where
  total := by
    rw [List.countP_cons, ← sums.total]
    exact (total_count s step.kind).trans (by simp)
  kinds kind isFile := by
    rw [List.countP_cons, ← sums.kinds kind isFile]
    have own : (s.addOwn step).of kind = (s.count step.kind).of kind := by cases kind <;> rfl
    rw [own, of_count isFile]
    simp
  markers := by
    change Integer.wrap ((s.count step.kind).markers + step.markers) = _
    rw [markers_count, sums.markers, Integer.wrap, Integer.wrap, Int.bmod_add_bmod, List.map_cons,
      List.sum_cons, Int.add_comm, Integer.wrap]
  features name := by
    rw [Summary.addOwn, (addFeatures_spec _ _).1]
    change _ ∨ name ∈ (s.count step.kind).features ↔ _
    rw [features_count, sums.features]
    simp
  sorted := by
    apply (addFeatures_spec _ _).2
    change (s.count step.kind).features.Pairwise (· < ·)
    rw [features_count]
    exact sums.sorted

theorem Sums.perm (sums : Sums steps s) (perm : steps.Perm others) : Sums others s where
  total := sums.total.trans (perm.countP_eq _)
  kinds kind isFile := (sums.kinds kind isFile).trans (perm.countP_eq _)
  markers := by rw [sums.markers, (perm.map _).sum_eq]
  features name := by simp only [sums.features, perm.mem_iff]
  sorted := sums.sorted

theorem sums_foldl (steps : List Step) : Sums steps (steps.foldl addOwn empty) := by
  induction steps using List.reverseRecOn with
  | nil => exact ⟨rfl, by decide, rfl, by simp [empty], .nil⟩
  | append_singleton steps step ih =>
    rw [List.foldl_append]
    exact (ih.addOwn step).perm (List.perm_append_singleton step steps).symm

theorem Sums.of_blank (sums : Sums (steps ++ others) s) (blank : ∀ step ∈ others, step.IsBlank) :
    Sums steps s where
  total := by
    rw [sums.total, List.countP_append, Nat.add_eq_left, List.countP_eq_zero]
    intro step member
    simp [(blank step member).1, fileKinds]
  kinds kind isFile := by
    rw [sums.kinds kind isFile, List.countP_append, Nat.add_eq_left, List.countP_eq_zero]
    intro step member own
    rw [decide_eq_true_eq, (blank step member).1] at own
    subst own
    revert isFile
    decide
  markers := by
    have none : others.map Step.markers = List.replicate others.length 0 := by
      rw [List.map_eq_replicate_iff]
      exact fun step member => (blank step member).2.1
    rw [sums.markers, List.map_append, none]
    simp
  features name := by
    rw [sums.features]
    constructor
    · rintro ⟨step, member, noted⟩
      rcases List.mem_append.1 member with member | member
      · exact ⟨step, member, noted⟩
      · rw [(blank step member).2.2] at noted
        cases noted
    · rintro ⟨step, member, noted⟩
      exact ⟨step, List.mem_append_left _ member, noted⟩
  sorted := sums.sorted

theorem Sums.total_eq (sums : Sums steps s) : s.total = s.convert + s.unchanged + s.failed := by
  have convert : s.convert = _ := sums.kinds .convert (by decide)
  have unchanged : s.unchanged = _ := sums.kinds .unchanged (by decide)
  have failed : s.failed = _ := sums.kinds .failed (by decide)
  rw [sums.total, convert, unchanged, failed]
  clear sums convert unchanged failed
  induction steps with
  | nil => rfl
  | cons step steps ih =>
    simp only [List.countP_cons, ih]
    cases step.kind <;> simp [fileKinds] <;> omega

/-- Sums determine a summary. -/
theorem Sums.unique (first : Sums steps s) (second : Sums steps t) : s = t := by
  have kinds (kind : StepKind) (isFile : kind ∈ fileKinds) : s.of kind = t.of kind :=
    (first.kinds kind isFile).trans (second.kinds kind isFile).symm
  have features : s.features = t.features := by
    have members (name : Text) : name ∈ s.features ↔ name ∈ t.features :=
      (first.features name).trans (second.features name).symm
    exact first.sorted.eq_of_mem_iff second.sorted fun name => members name
  obtain ⟨_, _, _, _, _, _⟩ := s
  obtain ⟨_, _, _, _, _, _⟩ := t
  rw [mk.injEq]
  exact ⟨first.total.trans second.total.symm, kinds .convert (by decide),
    kinds .unchanged (by decide),
    kinds .failed (by decide), first.markers.trans second.markers.symm, features⟩

end Summary

theorem Plan.Holds.sums {p : Plan} {files : List Step} (held : p.Holds files) :
    p.summary.Sums files := by
  obtain ⟨blank, counts, perm⟩ := held
  rw [summary, Summary.addSteps_eq]
  exact ((Summary.sums_foldl _).perm perm).of_blank counts

namespace Batch

theorem Report.holds_plan (r : Report) : r.plan.Holds (r.results.map FileResult.step) := by
  rw [plan, ← List.foldl_map]
  apply Plan.holds_foldl_addFile
  rw [List.forall_mem_map]
  exact fun _ _ => rfl

/-- A plan counts the files of each kind. -/
theorem Report.of_summary_plan (r : Report) {kind : StepKind} (isFile : kind ∈ Summary.fileKinds) :
    r.plan.summary.of kind = r.results.countP (·.step.kind = kind) := by
  rw [r.holds_plan.sums.kinds kind isFile, List.countP_map]
  rfl

end Batch

namespace Plan

/-- However files are added to a new plan, they are listed under their directories, these in the
order in which they first appear, and each file is counted once with its markers and features, so
that the sums do not depend on the order. -/
theorem foldl_addFile_groups_and_sums (files : List Step)
    (isFile : ∀ file ∈ files, file.kind ∈ Summary.fileKinds ∧ file.children = []) :
    let plan := files.foldl addFile empty
    (∀ step ∈ plan.steps, step.kind = .directory ∧
        step.children = files.filter (Path.dir ·.input == step.description)) ∧
      plan.steps.map Step.description = (files.map (Path.dir ·.input)).eraseDups ∧
      (plan.steps.map Step.description).Nodup ∧
      plan.summary.total = files.length ∧
      plan.summary.total = plan.summary.convert + plan.summary.unchanged + plan.summary.failed ∧
      plan.summary.convert = files.countP (·.kind = .convert) ∧
      plan.summary.unchanged = files.countP (·.kind = .unchanged) ∧
      plan.summary.failed = files.countP (·.kind = .failed) ∧
      plan.summary.markers = Integer.wrap (files.map Step.markers).sum ∧
      (∀ name, name ∈ plan.summary.features ↔ ∃ file ∈ files, name ∈ file.features) ∧
      plan.summary.features.Pairwise (· < ·) ∧
      ∀ others : List Step, others.Perm files →
        (others.foldl addFile empty).summary = plan.summary := by
  have single : ∀ file ∈ files, file.children = [] := fun file member => (isFile file member).2
  have sums := (holds_foldl_addFile single).sums
  have total : (files.foldl addFile empty).summary.total = files.length := by
    rw [sums.total, List.countP_eq_length]
    intro file member
    simpa using (isFile file member).1
  have descriptions : (grouped files).map Step.description = (files.map directoryOf).eraseDups := by
    rw [grouped, List.map_map]
    exact List.map_id _
  refine ⟨?_, ?_, ?_, total, ?_, sums.kinds .convert (by decide), sums.kinds .unchanged (by decide),
    sums.kinds .failed (by decide), sums.markers, sums.features, sums.sorted, ?_⟩
  · rw [foldl_addFile]
    intro step member
    obtain ⟨directory, -, rfl⟩ := List.mem_map.1 member
    exact ⟨rfl, rfl⟩
  · rw [foldl_addFile]
    exact descriptions
  · rw [foldl_addFile, descriptions]
    exact Text.nodup_eraseDups _
  · exact sums.total_eq
  · intro others perm
    have moved : ∀ file ∈ others, file.children = [] :=
      fun file member => single file (perm.mem_iff.1 member)
    exact ((holds_foldl_addFile moved).sums.perm perm).unique sums

/-- Four files of two directories, in turns. -/
def mixedFiles : List Step :=
  [⟨.convert, "lib/a.sh", "lib/a.js", [], 2, ["env", "exit"], []⟩,
    ⟨.unchanged, "b.sh", "b.js", [], 0, ["env"], []⟩,
    ⟨.failed, "lib/c.sh", [], "no such file", 0, [], []⟩,
    ⟨.convert, "d.sh", "d.js", [], 1, ["args", "env"], []⟩]

theorem foldl_addFile_mixedFiles :
    (∀ file ∈ mixedFiles, file.kind ∈ Summary.fileKinds ∧ file.children = []) ∧
      (mixedFiles.foldl addFile empty).steps.map Step.description = ["lib", "."] ∧
      (mixedFiles.reverse.foldl addFile empty).summary = (mixedFiles.foldl addFile empty).summary ∧
      (mixedFiles.foldl addFile empty).summary = ⟨4, 2, 1, 1, 3, ["args", "env", "exit"]⟩ := by
  have isFile : ∀ file ∈ mixedFiles, file.kind ∈ Summary.fileKinds ∧ file.children = [] := by
    simp [mixedFiles, Summary.fileKinds]
  obtain ⟨-, descriptions, -, -, -, -, -, -, -, -, -, moved⟩ :=
    foldl_addFile_groups_and_sums mixedFiles isFile
  exact ⟨isFile, descriptions.trans (by decide +kernel),
    moved _ (List.reverse_perm _), by decide +kernel⟩

end Plan

end ShellToDeno
