import ShellToDeno.Proofs.Compile.Marks

/-!
# The forms of a command agree

A fragment of any node gives the same command in each form that it has: from the pure command up to
the call every form is there if the one below it is, with the value that belongs to it
(`Compiler.commands_agree`). Most forms are derived from the one below, so that this needs no more
than that they are read without a fault. A pipeline supplies its command and its call side by side;
the call is assembled from the pure commands of its segments, the command from their redirected
ones, and both are the same where both are there.
-/
namespace ShellToDeno

theorem Text.join_append_singleton {separator value : Text} {before : List Text}
    (several : before ≠ []) :
    Text.join separator (before ++ [value]) = Text.join separator before ++ separator ++ value := by
  induction before with
  | nil => exact absurd rfl several
  | cons first before ih =>
    cases before with
    | nil => simp [join, List.intercalate_cons_cons]
    | cons second before =>
      have rest := ih (List.cons_ne_nil _ _)
      simp only [join, List.cons_append] at rest ⊢
      simp [List.intercalate_cons_cons, rest]

/-- A command in front of a call comes in front of what the call runs. -/
theorem Dax.prepend?_call (innards command : Text) :
    prepend? innards (call command) = some (call (innards ++ command)) := by
  have body : callBody? (call command) = some (command ++ "`") := by
    simp [callBody?, call, Text.cutStart?]
  rw [prepend?, body]
  simp [call]

namespace CompileState

variable {A : FragmentId → Prop} {s t : CompileState} {id : FragmentId} {given : Form → Bool}

/-! Values of forms that are known. -/

section
variable (sound : Sound A s) (owned : Owns A s id)
include sound owned

theorem Sound.pureCommand_ne_none {v : Text}
    (known : s.known? id (some .pureCommand) = some (some v)) :
    s.recipe? id .pureCommand ≠ none :=
  fun derived => Option.some_ne_none v (sound.pureCommand_eq_none owned derived known)

theorem Sound.redirected_supplied {v : Text}
    (known : s.known? id (some .redirectedCommand) = some (some v)) :
    s.recipe? id .pureCommand ≠ none ∨ s.recipe? id .redirectedCommand ≠ none := by
  by_cases derived : s.recipe? id .redirectedCommand = none
  · exact .inl (sound.pureCommand_ne_none owned
      (sound.pureCommand_of_redirected owned derived known))
  · exact .inr derived

theorem Sound.chained_supplied {v : Text}
    (known : s.known? id (some .chainedCommand) = some (some v)) :
    s.recipe? id .pureCommand ≠ none ∨ s.recipe? id .redirectedCommand ≠ none ∨
      s.recipe? id .chainedCommand ≠ none := by
  by_cases derived : s.recipe? id .chainedCommand = none
  · have lower := sound.redirected_supplied owned (sound.redirected_of_chained owned derived known)
    exact lower.imp_right .inl
  · exact .inr (.inr derived)

end

theorem Made.redirected_eq (sound : Sound A s) (made : Made A s id) {v : Text} {value : Option Text}
    (known : s.known? id (some .pureCommand) = some (some v))
    (upper : s.known? id (some .redirectedCommand) = some value) : value = some v := by
  have derived := made.rungs.redirected (sound.pureCommand_ne_none made.owns known)
  have lower := sound.pureCommand_of_redirected made.owns derived upper
  exact Option.some.inj (lower.symm.trans known)

theorem Sound.redirectedCall_eq (sound : Sound A s) (owned : Owns A s id)
    (ladder : Ladder (s.recipe? id)) {v : Text} {value : Option Text}
    (known : s.known? id (some .chainedCommand) = some (some v))
    (upper : s.known? id (some .redirectedCall) = some value) : value = some (Dax.call v) := by
  have derived := ladder.call (sound.chained_supplied owned known)
  have plain := sound.plainCall_of_redirectedCall owned derived upper
  obtain ⟨command, lower, rfl⟩ := sound.chained_of_plainCall owned ladder.plain plain
  obtain rfl := Option.some.inj (lower.symm.trans known)
  rfl

theorem Sound.redirectedCall_of_redirected (sound : Sound A s) (owned : Owns A s id)
    (ladder : Ladder (s.recipe? id)) {v : Text} {value : Option Text}
    (known : s.known? id (some .redirectedCommand) = some (some v))
    (upper : s.known? id (some .redirectedCall) = some value) : value = some (Dax.call v) := by
  have supplied := sound.redirected_supplied owned known
  have derived := ladder.call (supplied.imp_right .inl)
  have plain := sound.plainCall_of_redirectedCall owned derived upper
  obtain ⟨command, chained, rfl⟩ := sound.chained_of_plainCall owned ladder.plain plain
  have lower := sound.redirected_of_chained owned (ladder.chained supplied) chained
  obtain rfl := Option.some.inj (lower.symm.trans known)
  rfl

/-! Pipelines. -/

theorem Query.eval_each {form : Form} {finish : List Text → Text} {ids : List FragmentId} {w : Text}
    (found : (Query.each form finish ids).eval s.known? = some (some w)) :
    ∃ values, KnownAll s form ids values ∧ w = finish values := by
  induction ids generalizing finish with
  | nil => exact ⟨[], trivial, by simpa [Query.each, Query.eval] using found.symm⟩
  | cons id rest ih =>
    obtain ⟨answer, known, found⟩ := Option.bind_eq_some_iff.1 found
    cases answer with
    | none => simp [Query.eval] at found
    | some value =>
      obtain ⟨values, all, rfl⟩ := ih found
      exact ⟨value :: values, ⟨known, all⟩, rfl⟩

theorem KnownAll.append_singleton {form : Form} {front : List FragmentId} {last : FragmentId}
    {values : List Text} (known : KnownAll s form (front ++ [last]) values) :
    ∃ before value, values = before ++ [value] ∧ KnownAll s form front before ∧
      s.known? last (some form) = some (some value) := by
  induction front generalizing values with
  | nil =>
    match values, known with
    | [value], known => exact ⟨[], value, rfl, trivial, known.1⟩
  | cons id front ih =>
    match values, known with
    | first :: values, known =>
      obtain ⟨before, value, rfl, all, here⟩ := ih known.2
      exact ⟨first :: before, value, rfl, ⟨known.1, all⟩, here⟩

/-- Segments that are pure commands are piped as such. -/
theorem Made.knownAll_eq (sound : Sound A s) {front : List FragmentId} {commands values : List Text}
    (segments : ∀ segment ∈ front, Made A s segment) (pure : KnownAll s .pureCommand front commands)
    (redirected : KnownAll s .redirectedCommand front values) : values = commands := by
  induction front generalizing commands values with
  | nil =>
    match commands, values, pure, redirected with
    | [], [], _, _ => rfl
  | cons id front ih =>
    match commands, values, pure, redirected with
    | command :: commands, value :: values, pure, redirected =>
      have here := (segments id (by simp)).redirected_eq sound pure.1 redirected.1
      have rest := ih (fun i member => segments i (by simp [member])) pure.2 redirected.2
      rw [Option.some.inj here, rest]

/-- The call that a pipeline was assembled to be. -/
theorem Made.joined_eq (sound : Sound A s) {front : List FragmentId} {last : FragmentId}
    {commands values : List Text} {call joined : Text} (several : front ≠ [])
    (segments : ∀ segment ∈ front, Made A s segment)
    (front_known : KnownAll s .pureCommand front commands)
    (last_call : ∀ v, s.known? last (some .redirectedCommand) = some (some v) → call = Dax.call v)
    (assembled : Dax.prepend? (Text.join " | " commands ++ " | ") call = some joined)
    (known : KnownAll s .redirectedCommand (front ++ [last]) values) :
    joined = Dax.call (Text.join " | " values) := by
  obtain ⟨before, final, rfl, fronts, here⟩ := known.append_singleton
  obtain rfl := knownAll_eq sound segments front_known fronts
  have several : before ≠ [] := by
    rintro rfl
    cases front with
    | nil => exact several rfl
    | cons => exact fronts.elim
  rw [last_call final here, Dax.prepend?_call] at assembled
  rw [← Option.some.inj assembled, Text.join_append_singleton several]

theorem Made.redirectedCall_of_redirected (sound : Sound A s) (made : Made A s id) {v : Text}
    {value : Option Text} (known : s.known? id (some .redirectedCommand) = some (some v))
    (upper : s.known? id (some .redirectedCall) = some value) : value = some (Dax.call v) := by
  induction made generalizing v value with
  | plain owned ladder | same owned ladder | swapped owned ladder =>
    exact sound.redirectedCall_of_redirected owned ladder known upper
  | @piped id last front commands call joined owned decides pure redirected chained plain supplied
      several segments front_known last_known assembled ih =>
    obtain ⟨values, all, rfl⟩ := Query.eval_each (sound.supplied owned redirected rfl known)
    have call : value = some joined :=
      (Option.some.inj (sound.supplied owned supplied rfl upper)).symm
    rw [call, joined_eq sound several (fun i member => segments i (by simp [member])) front_known
      (fun v here => Option.some.inj (ih last (by simp) here last_known)) assembled all]

theorem Made.redirectedCall_eq (sound : Sound A s) (made : Made A s id) {v : Text}
    {value : Option Text} (known : s.known? id (some .chainedCommand) = some (some v))
    (upper : s.known? id (some .redirectedCall) = some value) : value = some (Dax.call v) := by
  cases made with
  | plain owned ladder | same owned ladder | swapped owned ladder =>
    exact sound.redirectedCall_eq owned ladder known upper
  | piped owned decides pure redirected chained plain supplied several segments fronts last
      assembled =>
    have lower := sound.redirected_of_chained owned chained known
    have made := Made.piped owned decides pure redirected chained plain supplied several segments
      fronts last assembled
    exact made.redirectedCall_of_redirected sound lower upper

/-- A pipeline runs what its segments are, piped. -/
theorem Made.redirectedCall_of_segments (sound : Sound A s) (made : Made A s id)
    {segments : List FragmentId} {values : List Text} {value : Option Text}
    (piped : s.recipe? id .redirectedCommand = some (.piped segments))
    (known : KnownAll s .redirectedCommand segments values)
    (upper : s.known? id (some .redirectedCall) = some value) :
    value = some (Dax.call (Text.join " | " values)) := by
  cases made with
  | plain _ ladder | same _ ladder | swapped _ ladder =>
    exact absurd piped (ladder.unpiped segments)
  | @piped _ last front commands call joined owned decides pure redirected chained plain supplied
      several made front_known last_known assembled =>
    obtain rfl : segments = front ++ [last] := by simpa [piped] using redirected
    have call : value = some joined :=
      (Option.some.inj (sound.supplied owned supplied rfl upper)).symm
    rw [call, joined_eq sound several (fun i member => made i (by simp [member])) front_known
      (fun v here => Option.some.inj ((made last (by simp)).redirectedCall_of_redirected sound here
        last_known)) assembled known]

/-! Reads of the forms above one that is known. -/

theorem eval_plainCall {command : Option Text}
    (known : s.known? id (some .chainedCommand) = some command) :
    (Form.plainCall.derivation id given).eval s.known? = some (command.map Dax.call) := by
  simp [Form.derivation, Query.via, Query.eval, known]

namespace Tracked
variable {registry : Registry} {fuel : Nat} (enough : 13 < fuel) (tracked : Tracked A given s id)
include enough tracked

/-- A derived form is read when what it asks for is known. -/
theorem read_derived {form : Form} {value : Option Text} (derived : s.recipe? id form = none)
    (found : (form.derivation id given).eval s.known? = some value) :
    (Compile.run s ((Compiler.ofFuel registry fuel).read id form)).1 = .ok value := by
  have owned := tracked.made.owns
  obtain ⟨answer, t, run, later, step, known⟩ := tracked.read_ok enough
    (asksItself_derivation tracked.supplies owned.2 derived)
    fun t step _ => Query.not_blocked (Query.eval_mono (fun _ _ _ => step.known) found)
  have made := later.sound.derived (step.owns owned)
    ((step.recipe? owned.2 form).trans derived) known
  rw [show (fun g => (t.recipe? id g).isSome) = given from funext later.supplies,
    Query.eval_mono (fun _ _ _ => step.known) found] at made
  rw [run, Option.some.inj made]

/-- A call is read when its command is known, although the call without methods, which stands
between them, may not have been read. -/
theorem read_redirectedCall {v : Text}
    (known : s.known? id (some .chainedCommand) = some (some v)) :
    (Compile.run s ((Compiler.ofFuel registry fuel).read id .redirectedCall)).1 =
      .ok (some (Dax.call v)) := by
  have owned := tracked.made.owns
  have climbs (ladder : Ladder (s.recipe? id)) : ∃ q, AsksItself s given id .redirectedCall q ∧
      ∀ t, Extends A s t → Tracked A given t id → ¬q.Blocked t := by
    have derived := ladder.call (tracked.sound.chained_supplied owned known)
    refine ⟨_, asksItself_derivation tracked.supplies owned.2 derived,
      fun t step later blocked => ?_⟩
    obtain ⟨_, ⟨⟩, marked⟩ : ∃ g, some Form.plainCall = some g ∧ t.slot? id g = some .cooking :=
      blocked.resolve_right fun ⟨_, _, blocked⟩ => blocked
    exact later.unmarked (asksItself_derivation later.supplies (step.owns owned).2
      ((step.recipe? owned.2 _).trans ladder.plain))
      (Query.not_blocked (eval_plainCall (step.known known))) marked
  obtain ⟨q, asks, free⟩ : ∃ q, AsksItself s given id .redirectedCall q ∧
      ∀ t, Extends A s t → Tracked A given t id → ¬q.Blocked t := by
    cases tracked.made with
    | plain _ ladder | same _ ladder | swapped _ ladder => exact climbs ladder
    | piped _ _ _ _ _ _ supplied =>
      exact ⟨_, asksItself_text owned.2 supplied, fun _ _ _ blocked => blocked⟩
  obtain ⟨value, t, run, later, step, made⟩ := tracked.read_ok enough asks free
  rw [run, later.made.redirectedCall_eq later.sound (step.known known) made]

/-- The call of a pipeline is read when its segments are known. -/
theorem read_pipeline {segments : List FragmentId} {values : List Text}
    (piped : s.recipe? id .redirectedCommand = some (.piped segments))
    (known : KnownAll s .redirectedCommand segments values) :
    (Compile.run s ((Compiler.ofFuel registry fuel).read id .redirectedCall)).1 =
      .ok (some (Dax.call (Text.join " | " values))) := by
  have owned := tracked.made.owns
  obtain ⟨text, supplied⟩ : ∃ text, s.recipe? id .redirectedCall = some (.text text) := by
    cases tracked.made with
    | plain _ ladder | same _ ladder | swapped _ ladder =>
      exact absurd piped (ladder.unpiped segments)
    | piped _ _ _ _ _ _ supplied => exact ⟨_, supplied⟩
  obtain ⟨value, t, run, later, step, made⟩ := tracked.read_ok enough
    (asksItself_text owned.2 supplied) fun _ _ _ blocked => blocked
  rw [run, later.made.redirectedCall_of_segments later.sound ((step.recipe? owned.2 _).trans piped)
    (step.knownAll known) made]

/-- The same, for segments that are read now. -/
theorem read_pipeline_after {segments : List FragmentId} {values : List Text}
    (piped : s.recipe? id .redirectedCommand = some (.piped segments))
    (run : Compile.run s (Arguments.readEach (Compiler.ofFuel registry fuel) .redirectedCommand
      segments) = (.ok (some values), t)) :
    (Compile.run t ((Compiler.ofFuel registry fuel).read id .redirectedCall)).1 =
      .ok (some (Dax.call (Text.join " | " values))) := by
  have owned := tracked.made.owns
  have earlier : ∀ segment ∈ segments, A segment ∧ segment < id :=
    tracked.sound.refers owned.1 piped
  have safe := Arguments.readEach_known ((Compiler.lawful_ofFuel registry fuel).reads 0)
    .redirectedCommand (L := .store (Before A s id)) (s := s)
    (fun segment (member : segment ∈ segments) =>
      ⟨.inl (earlier segment member), Nat.lt_trans (earlier segment member).2 owned.2⟩)
    (tracked.sound.before id)
  rw [run] at safe
  obtain ⟨_, sound, step, known⟩ := safe
  have later : Tracked A given t id := tracked.frame (.of_before tracked.sound step)
    (tracked.sound.of_before sound step) (step.frame owned.not_before)
  exact later.read_pipeline enough ((step.recipe? owned.2 _).trans piped)
    (known values rfl values rfl).1

end Tracked

/-- Whenever one form of a fragment is read with a value, another one is there as well, with what
`f` makes of that value. -/
def Entails (c : Compiler) (s : CompileState) (id : FragmentId) (lower upper : Form)
    (f : Text → Text) : Prop :=
  ∀ v t, Compile.run s (c.read id lower) = (.ok (some v), t) →
    (Compile.run t (c.read id upper)).1 = .ok (some (f v))

theorem Tracked.entails {registry : Registry} {fuel : Nat} (enough : 13 < fuel)
    (tracked : Tracked A given s id) {lower upper : Form} {f : Text → Text}
    (above : ∀ {t v}, Tracked A given t id → t.known? id (some lower) = some (some v) →
      (Compile.run t ((Compiler.ofFuel registry fuel).read id upper)).1 = .ok (some (f v))) :
    Entails (Compiler.ofFuel registry fuel) s id lower upper f := by
  intro v t run
  have later : Tracked A given
      (Compile.run s ((Compiler.ofFuel registry fuel).read id lower)).2 id :=
      tracked.read enough lower
  obtain ⟨_, _, known⟩ := tracked.toCompiled.read (Compiler.lawful_ofFuel registry fuel) lower
  rw [run] at later known
  exact above later (known _ rfl)

end CompileState

open CompileState

/-- The forms of a command agree in every fragment that is compiled, after any reads of it. -/
theorem Compiler.commands_agree (registry : Registry) {fuel : Nat} (enough : 13 < fuel)
    (s : CompileState) (n : Node) (context : Context) :
    let c := ofFuel registry fuel
    ∃ id t, Compile.run s (c.compile n context) = (.ok id, t) ∧ ∀ history : List Form,
      let u := t.afterReading c id history
      Entails c u id .pureCommand .redirectedCommand (fun v => v) ∧
      Entails c u id .redirectedCommand .chainedCommand (fun v => v) ∧
      Entails c u id .chainedCommand .plainCall Dax.call ∧
      Entails c u id .chainedCommand .redirectedCall Dax.call ∧
      ∀ segments values w, u.recipe? id .redirectedCommand = some (.piped segments) →
        Compile.run u (Arguments.readEach c .redirectedCommand segments) = (.ok (some values), w) →
        (Compile.run w (c.read id .redirectedCall)).1 =
          .ok (some (Dax.call (Text.join " | " values))) := by
  intro c
  obtain ⟨id, t, run, compiled, unread⟩ :=
    exists_compile registry (Nat.zero_lt_of_lt enough) s n context
  refine ⟨id, t, run, fun history => ?_⟩
  have tracked : Tracked _ _ (t.afterReading c id history) id :=
    (compiled.tracked unread).afterReading enough history
  refine ⟨tracked.entails enough fun later known => ?_,
    tracked.entails enough fun later known => ?_,
    tracked.entails enough fun later known => ?_, tracked.entails enough fun later known => ?_,
    fun segments values w piped ran => tracked.read_pipeline_after enough piped ran⟩
  · have supplied := later.sound.pureCommand_ne_none later.made.owns known
    exact later.read_derived enough (later.made.rungs.redirected supplied)
      (by simp [Form.derivation, Query.eval, known])
  · have supplied := later.sound.redirected_supplied later.made.owns known
    exact later.read_derived enough (later.made.rungs.chained supplied)
      (by simp [Form.derivation, Query.eval, known])
  · exact later.read_derived enough later.made.rungs.plain (eval_plainCall known)
  · exact later.read_redirectedCall enough known

/-- The tree of `ls | wc`. -/
def countedListing : Node :=
  ⟨.pipeline, "ls | wc", [.bareCommand "ls", .leaf .whitespace " ", .leaf (.token "|") "|",
    .leaf .whitespace " ", .bareCommand "wc"], [], 0, 7⟩

set_option maxRecDepth 100000 in
/-- A pipeline that stays in one command string. -/
theorem Compiler.commands_agree_pipeline : 13 < 20 ∧ ∃ id t u,
    Compile.run .empty ((ofFuel .standard 20).compile countedListing .none) = (.ok id, t) ∧
    Compile.run t ((ofFuel .standard 20).read id .chainedCommand) = (.ok (some "ls | wc"), u) ∧
    (Compile.run u ((ofFuel .standard 20).read id .redirectedCall)).1 =
      .ok (some (Dax.call "ls | wc")) := by
  obtain ⟨id, t, ran, agree⟩ :=
    commands_agree .standard (by decide : 13 < 20) .empty countedListing .none
  have made : (Compile.run .empty ((ofFuel .standard 20).compile countedListing .none)).1 =
      .ok 10 := by decide +kernel
  have command : (Compile.run
      (Compile.run .empty ((ofFuel .standard 20).compile countedListing .none)).2
      ((ofFuel .standard 20).read 10 .chainedCommand)).1 = .ok (some "ls | wc") := by decide +kernel
  rw [ran] at made command
  obtain rfl : id = 10 := Except.ok.inj made
  have call := (agree []).2.2.2.1
  refine ⟨by decide, _, t, _, ran, Prod.ext command rfl, call _ _ (Prod.ext command rfl)⟩

end ShellToDeno
