import ShellToDeno.Proofs.Compile.Steps
import ShellToDeno.Proofs.Vocabulary.Texts

/-!
# Following recipes

Two compilers that agree on the forms of fragments up to some level, and on the nodes up to the
depth that goes with it, follow a recipe alike: what it reads lies below. Texts of the state are
joined with a few others; the only name of a helper among those is that of the check for a command,
which is noted when it is written.
-/
namespace ShellToDeno

open Text CompileState Compile

/-- The words that a command writes on its own are plain. -/
def Builtin.IsPlain : Builtin → Prop
  | loopControl keyword => Plain keyword
  | path command _ => Plain command
  | _ => True

instance (b : Builtin) : Decidable b.IsPlain := by
  unfold Builtin.IsPlain
  split <;> infer_instance

/-- Two compilers agree on the forms of fragments up to a level. -/
structure ReadsAlike (L : Ledger) (level : Nat) (c d : Compiler) : Prop where
  readAny : ∀ {s : CompileState} {id : FragmentId} (form : Option Form), L.Low s level id →
    Agree L s (c.readAny id form) (d.readAny id form) fun value t =>
      L.Known t id form value ∧ ∀ text ∈ value, L.Says t text

/-- Two compilers agree on nodes up to a depth and on the forms of the fragments that they
become. -/
structure Serves (L : Ledger) (depth : Nat) (c d : Compiler) : Prop where
  registry : c.registry = d.registry
  plain : L.strict → ∀ b ∈ d.registry.builtins, b.IsPlain
  compile : ∀ {s : CompileState} {n : Node} (context : Context), L.Fits depth n →
    Agree L s (c.compile n context) (d.compile n context) fun id t => L.Returned t (6 * depth) id
  reads : ReadsAlike L (6 * depth + 5) c d

variable {L : Ledger} {c d : Compiler} {s : CompileState} {id : FragmentId} {level : Nat}

theorem Serves.low {depth : Nat} (serves : Serves L depth c d) {n : Node} (context : Context)
    (fits : L.Fits depth n) :
    Agree L s (c.compile n context) (d.compile n context) fun id t => L.Low t (6 * depth) id :=
  (serves.compile context fits).imp fun _ _ _ returned => returned.low

namespace ReadsAlike
variable (reads : ReadsAlike L level c d)
include reads

theorem known (form : Form) (low : L.Low s level id) :
    Agree L s (c.read id form) (d.read id form) fun value t =>
      L.Known t id (some form) value ∧ ∀ text ∈ value, L.Says t text :=
  reads.readAny (some form) low

theorem read (form : Form) (low : L.Low s level id) :
    WritesAny L s (c.read id form) (d.read id form) :=
  (reads.known form low).imp fun _ _ _ => And.right

theorem has (form : Form) (low : L.Low s level id) : Agrees L s (c.has id form) (d.has id form) :=
  (reads.read form low).bind fun _ _ _ _ => .pure trivial

theorem readFirst (forms : List Form) (low : L.Low s level id) :
    WritesAny L s (c.readFirst id forms) (d.readFirst id forms) := by
  induction forms generalizing s with
  | nil => exact .absent
  | cons form forms ih =>
    refine (reads.read form low).bind fun value t step known => ?_
    cases value with
    | some => exact .pure known
    | none => exact ih (low.lead step)

end ReadsAlike

namespace Arguments
variable (reads : ReadsAlike L level c d)
include reads

theorem interpolated_agrees (form : Form) (low : L.Low s level id) :
    WritesAny L s (interpolated c id form) (interpolated d id form) :=
  (reads.read form low).mapText fun _ _ _ known => known.substitution

theorem argument_agrees (low : L.Low s level id) :
    WritesAny L s (argument c id) (argument d id) := by
  refine (reads.readFirst _ low).bind fun found t step known => ?_
  cases found with
  | some => exact .pure known
  | none => exact interpolated_agrees reads _ (low.lead step)

theorem readEach_known (form : Form) {ids : List FragmentId} (low : ∀ id ∈ ids, L.Low s level id) :
    Agree L s (readEach c form ids) (readEach d form ids) fun found t => ∀ values ∈ found,
      AllKnown (L.Known t) form ids values ∧ ∀ text ∈ values, L.Says t text := by
  induction ids generalizing s with
  | nil => exact .pure (by simp [AllKnown])
  | cons id ids ih =>
    obtain ⟨here, others⟩ := List.forall_mem_cons.1 low
    refine (reads.known form here).bind fun value t step here => ?_
    cases value with
    | none => exact .pure (by simp)
    | some value =>
      refine (ih fun id member => (others id member).lead step).bind
        fun found u more rest => .pure fun values same => ?_
      obtain ⟨others, all, rfl⟩ := Option.map_eq_some_iff.1 same
      obtain ⟨known, texts⟩ := rest others all
      exact ⟨⟨here.1.lead more, known⟩,
        List.forall_mem_cons.2 ⟨(here.2 value rfl).lead more, texts⟩⟩

theorem readEach_agrees (form : Form) {ids : List FragmentId} (low : ∀ id ∈ ids, L.Low s level id) :
    WritesAll L s (readEach c form ids) (readEach d form ids) :=
  (readEach_known reads form low).imp fun _ _ _ known values given => (known values given).2

theorem allHave_agrees (form : Form) {parts : List FragmentId}
    (low : ∀ id ∈ parts, L.Low s level id) :
    Agrees L s (allHave c form parts) (allHave d form parts) := by
  induction parts generalizing s with
  | nil => exact .pure trivial
  | cons part parts ih =>
    obtain ⟨here, others⟩ := List.forall_mem_cons.1 low
    refine (reads.has form here).bind fun found t step _ => ?_
    split
    · exact ih fun id member => (others id member).lead step
    · exact .pure trivial

/-- Parts that are not alone become a new fragment, one level above them. -/
theorem combine_several {below : Nat} (le : below ≤ level) {parts : List FragmentId}
    (low : ∀ id ∈ parts, L.Low s below id) (several : ∀ only, parts ≠ [only]) :
    Agree L s (combine c parts) (combine d parts) fun id t => L.Returned t (below + 1) id := by
  have shared (entry : Form × (List FragmentId → Recipe)) (member : entry ∈ sharedForms)
      {t : CompileState} (known : ∀ id ∈ parts, L.Low t below id) :
      isPlain entry.1 ∧ L.Rests t below (entry.2 parts) := by
    simp only [sharedForms, List.mem_cons, List.not_mem_nil, or_false] at member
    rcases member with rfl | rfl | rfl <;> exact ⟨rfl, .of_within known rfl fun _ => trivial⟩
  rw [combine.eq_def, combine.eq_def]
  split
  · exact absurd rfl (several _)
  refine Agree.bind (Agree.mapM (R := fun (entry : Form × Recipe) t =>
      isPlain entry.1 ∧ L.Rests t below entry.2) (fun step rests => ⟨rests.1, rests.2.lead step⟩)
    fun entry member t step => ?_) fun fields t _ known =>
      new_returned (fun entry member => (known.2 entry member).2)
        (shape_of_plain fun entry member => (known.2 entry member).1)
  have later : ∀ id ∈ parts, L.Low t below id := fun id listed => (low id listed).lead step
  refine (allHave_agrees reads _ fun id listed => (later id listed).mono le).bind
    fun found u more _ => ?_
  have last : ∀ id ∈ parts, L.Low u below id := fun id listed => (later id listed).lead more
  split
  · exact .pure ⟨(shared entry member last).1, .of_within last rfl fun _ => trivial⟩
  · exact .pure (shared entry member last)

theorem combine_low {below : Nat} (le : below ≤ level) {parts : List FragmentId}
    (low : ∀ id ∈ parts, L.Low s below id) :
    Agree L s (combine c parts) (combine d parts) fun id t => L.Low t (below + 1) id := by
  by_cases alone : ∃ only, parts = [only]
  · obtain ⟨only, rfl⟩ := alone
    exact .pure ((low only (by simp)).mono (Nat.le_succ below))
  · exact (combine_several reads le low fun only same => alone ⟨only, same⟩).imp
      fun _ _ _ returned => returned.low

end Arguments

namespace Fragment

theorem joinPieces_agrees {f g : FragmentId → Compile (Option Text)} {ids : List FragmentId}
    (each : ∀ {s id}, L.Low s level id → WritesAny L s (f id) (g id))
    (low : ∀ id ∈ ids, L.Low s level id) : WritesAll L s (joinPieces f ids) (joinPieces g ids) := by
  induction ids generalizing s with
  | nil => exact .pure (by simp)
  | cons id ids ih =>
    obtain ⟨here, others⟩ := List.forall_mem_cons.1 low
    refine (each here).bind fun found t step known => ?_
    cases found with
    | none => exact .pure (by simp)
    | some text =>
      exact (ih fun id member => (others id member).lead step).consText (known text rfl)

section
variable (reads : ReadsAlike L level c d)
include reads

theorem via_agrees (form : Form) {f : Text → Text} (low : L.Low s level id)
    (kept : ∀ t, L.Leads s t → ∀ text, L.Says t text → L.Says t (f text)) :
    WritesAny L s (via c id form f) (via d id form f) := (reads.read form low).mapText kept

theorem argumentPiece_agrees (low : L.Low s level id) :
    WritesAny L s (argumentPiece c id) (argumentPiece d id) := by
  refine (reads.read .argument low).bind fun found t step known => ?_
  cases found with
  | some => exact .pure known
  | none =>
    refine (reads.read .templateInnards (low.lead step)).bind fun found u more known => ?_
    have rest := Arguments.interpolated_agrees reads .value ((low.lead step).lead more)
    cases found with
    | none => exact rest
    | some =>
      dsimp only
      split
      · exact .pure known
      · exact rest

theorem bareQuoted_agrees (forms : List Form) (low : L.Low s level id) :
    WritesAny L s (bareQuoted c id forms) (bareQuoted d id forms) := by
  induction forms generalizing s with
  | nil => exact .absent
  | cons form forms ih =>
    refine (reads.read form low).bind fun found t step known => ?_
    have rest := ih (low.lead step)
    cases found with
    | none => exact rest
    | some v =>
      dsimp only
      split
      · exact .present ((known v rfl).of (carries_replaceAll (by decide) (by decide) v).spelled)
      · exact rest

theorem quotedPiece_agrees (low : L.Low s level id) :
    WritesAny L s (quotedPiece c id) (quotedPiece d id) := by
  refine (reads.read .quotedInnards low).bind fun found t step known => ?_
  cases found with
  | some => exact .pure known
  | none =>
    refine (bareQuoted_agrees reads _ (low.lead step)).bind fun found u more known => ?_
    cases found with
    | some => exact .pure known
    | none => exact Arguments.interpolated_agrees reads _ ((low.lead step).lead more)

theorem templatePiece_agrees (low : L.Low s level id) :
    WritesAny L s (templatePiece c id) (templatePiece d id) := by
  refine (reads.read .templateInnards low).bind fun found t step known => ?_
  cases found with
  | some => exact .pure known
  | none => exact Arguments.interpolated_agrees reads _ (low.lead step)

theorem readSupplied_agrees (form : Form) (low : L.Low s level id) :
    WritesAny L s (readSupplied c id form) (readSupplied d id form) := by
  refine (supplies_same id form).bind fun given t step _ => ?_
  split
  · exact reads.read form (low.lead step)
  · exact .absent

theorem captured_agrees (low : L.Low s level id) :
    WritesAny L s (captured c id) (captured d id) := by
  refine (readSupplied_agrees reads .stringValue low).bind fun found t step known => ?_
  cases found with
  | some => exact .pure known
  | none =>
    replace low := low.lead step
    refine (readSupplied_agrees reads .value low).bind fun found u step known => ?_
    cases found with
    | some => exact .pure known
    | none =>
      replace low := low.lead step
      refine (readSupplied_agrees reads .templateInnards low).bind fun found v step known => ?_
      cases found with
      | some text => exact .present (known text rfl).template
      | none => exact reads.read .captureCall (low.lead step)

theorem readOr_agrees {n : Node} (plain : L.Plain n.text) (form : Form) (low : L.Low s level id) :
    WritesAny L s (readOr c id n form) (readOr d id n form) :=
  (reads.read form low).recover fun _ _ _ =>
    (log_agrees _ _ _).bind fun _ _ _ _ => .present (.marker plain)

theorem render_agrees {n : Node} (plain : L.Plain n.text) (context : Context)
    (low : L.Low s level id) : WritesText L s (render c id n context) (render d id n context) := by
  have marker {t : CompileState} : WritesText L t (do
      log .warn "no statement form" [("node_type", n.kind.name), ("text", n.text)]
      return Js.marker n.text) (do
      log .warn "no statement form" [("node_type", n.kind.name), ("text", n.text)]
      return Js.marker n.text) :=
    (log_agrees _ _ _).bind fun _ _ _ _ => .pure (.marker plain)
  refine (readOr_agrees reads plain .statement low).bind fun found t step known => ?_
  cases found with
  | some text => exact .pure (known text rfl)
  | none =>
    dsimp only
    split
    · refine (readOr_agrees reads plain .value (low.lead step)).bind fun found u _ known => ?_
      cases found with
      | some text => exact .pure (known text rfl)
      | none => exact marker
    · exact marker

theorem groupText_agrees {members : List (Node × FragmentId)} {lead indent : Text}
    (context : Context) (low : ∀ member ∈ members, L.Low s level member.2)
    (plain : ∀ member ∈ members, L.Plain member.1.text) (leads : L.Plain lead)
      (indents : L.Plain indent) :
    WritesText L s (groupText c members lead indent context)
      (groupText d members lead indent context) := by
  rw [groupText, groupText]
  split
  · exact .pure (Ledger.Says.within (.of_plain indents) (by decide) (by decide))
  · refine (Agree.mapM_writes fun member listed t step =>
      render_agrees reads (plain member listed) _ ((low member listed).lead step)).map
      fun texts t _ known => ?_
    exact Ledger.Says.preceded (.of_plain leads) (by decide) |>.append (.flatten known)
      |>.followed (by decide) |>.append (.of_plain indents) |>.followed (by decide)

end

end Fragment

namespace Arguments

/-- The forms of a text that is known. -/
theorem literalFields_texts {innards : Text} (plain : L.Plain innards) :
    ∀ entry ∈ literalFields innards,
    isPlain entry.1 ∧ ∃ text, entry.2 = .text text ∧ L.Says s text := by
  have known : L.Says s innards := .of_plain plain
  have quoted : L.Says s (Dax.singleQuoteInnards innards) :=
    .of_plain (plain.of Dax.plain_singleQuoteInnards)
  simp [literalFields, isPlain, known, quoted, known.template]

theorem literal_returned {text : Text} (plain : L.Plain text) (level : Nat) :
    Agree L s (literal text) (literal text) fun id t => L.Returned t (level + 1) id := by
  have fields := literalFields_texts (s := s) (plain.of Js.plain_templateInnards)
  refine new_texts ?_ level
  split
  · exact List.forall_mem_cons.2 ⟨⟨rfl, _, rfl, .of_plain plain⟩, fields⟩
  · exact fields

theorem expandAt_low (place : Nat) {values : List Text} (plain : ∀ value ∈ values, L.Plain value)
    {combinations : List (List FragmentId)}
    (low : ∀ ids ∈ combinations, ∀ id ∈ ids, L.Low s (level + 1) id) :
    Agree L s (expandAt place values combinations) (expandAt place values combinations)
      fun results t => ∀ ids ∈ results, ∀ id ∈ ids, L.Low t (level + 1) id := by
  have mono {ids : List FragmentId} {t u : CompileState} (step : L.Leads t u)
      (low : ∀ id ∈ ids, L.Low t (level + 1) id) : ∀ id ∈ ids, L.Low u (level + 1) id :=
    fun id member => (low id member).lead step
  refine Agree.flatMapM (R := fun ids t => ∀ id ∈ ids, L.Low t (level + 1) id) mono
    fun combination member t step => ?_
  refine (Agree.mapM (R := fun ids t => ∀ id ∈ ids, L.Low t (level + 1) id) mono
    fun value given u more => ?_).imp fun _ _ _ => And.right
  refine (literal_returned (plain value given) level).bind fun id v last here =>
    .pure fun other listed => ?_
  rcases List.mem_or_eq_of_mem_set listed with old | rfl
  · exact (((low combination member other old).lead step).lead more).lead last
  · exact here.low

theorem expandFrom_low (place : Nat) (parts : List FragmentId)
    {combinations : List (List FragmentId)}
    (low : ∀ ids ∈ combinations, ∀ id ∈ ids, L.Low s (level + 1) id) :
    Agree L s (expandFrom place parts combinations) (expandFrom place parts combinations)
      fun results t => ∀ ids ∈ results, ∀ id ∈ ids, L.Low t (level + 1) id := by
  induction parts generalizing s place combinations with
  | nil => exact .pure low
  | cons part parts ih =>
    rw [expandFrom]
    refine (values?_same part).bind fun values t step known => ?_
    have later : ∀ ids ∈ combinations, ∀ id ∈ ids, L.Low t (level + 1) id :=
      fun ids member id listed => (low ids member id listed).lead step
    cases values with
    | none => exact ih _ later
    | some values =>
      exact (expandAt_low place (known.2 values rfl) later).bind fun results u _ known => ih _ known

mutual

/-- What is handed down to children is handed down to what is opened. -/
theorem of_mem_open {P : Node → Prop} (handed : ∀ {n}, P n → ∀ c ∈ n.children, P c) (n : Node)
    (here : P n) : ∀ m ∈ open_ n, P m := by
  match n with
  | ⟨kind, text, children, indent, start, stop⟩ =>
    rw [open_.eq_def]
    split
    · next same =>
      cases same
      exact of_mem_openAll handed children (handed here)
    · next same =>
      cases same
      simpa using here

theorem of_mem_openAll {P : Node → Prop} (handed : ∀ {n}, P n → ∀ c ∈ n.children, P c)
    (nodes : List Node) (each : ∀ n ∈ nodes, P n) : ∀ m ∈ openAll nodes, P m := by
  match nodes with
  | [] => exact nofun
  | n :: rest =>
    obtain ⟨here, others⟩ := List.forall_mem_cons.1 each
    rw [openAll, List.forall_mem_append]
    exact ⟨of_mem_open handed n here, of_mem_openAll handed rest others⟩

end

theorem mem_of_mem_marked {escaped fresh : Bool} {nodes : List Node} {entry : Bool × Node}
    (member : entry ∈ marked escaped fresh nodes) : entry.2 ∈ nodes := by
  fun_induction marked escaped fresh nodes with
  | case1 => cases member
  | case2 _ _ _ _ _ ih | case3 _ _ _ _ _ _ ih => exact List.mem_cons_of_mem _ (ih member)
  | case4 _ _ n rest _ _ ih =>
    rcases List.mem_cons.1 member with rfl | member
    · exact List.mem_cons_self
    · exact List.mem_cons_of_mem _ (ih member)

theorem mem_of_mem_gather {entries : List (Bool × Node)} {group : List Node}
    (listed : group ∈ gather entries) {n : Node} (member : n ∈ group) :
    n ∈ entries.map Prod.snd := by
  induction entries generalizing group with
  | nil => cases listed
  | cons entry rest ih =>
    have single (listed : group ∈ [entry.2] :: gather rest) : n ∈ (entry :: rest).map Prod.snd := by
      rcases List.mem_cons.1 listed with rfl | listed
      · simp [List.mem_singleton.1 member]
      · exact List.mem_cons_of_mem _ (ih listed member)
    rw [gather.eq_def] at listed
    dsimp only at listed
    split at listed
    · next first others gathered =>
      rcases List.mem_cons.1 listed with rfl | listed
      · rcases List.mem_cons.1 member with rfl | member
        · exact List.mem_cons_self
        · exact List.mem_cons_of_mem _ (ih (gathered ▸ List.mem_cons_self) member)
      · exact List.mem_cons_of_mem _ (ih (gathered ▸ List.mem_cons_of_mem _ listed) member)
    · exact single listed

/-- An argument is made from nodes of its command. -/
theorem mem_of_mem_groups {nodes group : List Node} (listed : group ∈ groups nodes) {n : Node}
    (member : n ∈ group) : n ∈ nodes := by
  obtain ⟨entry, found, rfl⟩ := List.mem_map.1 (mem_of_mem_gather listed member)
  exact mem_of_mem_marked found

section
variable {depth : Nat} (serves : Serves L depth c d)
include serves

theorem convert_low (context : Context) {group : List Node}
    (bounded : ∀ n ∈ group, L.Fits depth n) :
    Agree L s (convert c context group) (convert d context group)
      fun ids t => ∀ id ∈ ids, L.Low t (6 * depth + 2) id := by
  refine Agree.bind (Agree.mapM_low fun n member t _ =>
    serves.low context (of_mem_openAll (fun above _ => above.child) group bounded n member))
    fun parts t _ low => ?_
  have mono (id : FragmentId) (member : id ∈ parts) : L.Low t (6 * depth + 1) id :=
    (low id member).mono (by omega)
  refine (expandFrom_low 0 parts (by simpa using mono)).bind fun combinations u _ known => ?_
  exact Agree.mapM_low fun ids member v step =>
    combine_low serves.reads (by omega) fun id listed => (known ids member id listed).lead step

theorem convertAll_low (context : Context) {nodes : List Node}
    (bounded : ∀ n ∈ nodes, L.Fits depth n) :
    Agree L s (convertAll c context nodes) (convertAll d context nodes)
      fun ids t => ∀ id ∈ ids, L.Low t (6 * depth + 2) id :=
  Agree.flatMapM (R := fun id t => L.Low t (6 * depth + 2) id) Ledger.Low.lead fun _ listed _ _ =>
    convert_low serves context fun n member => bounded n (mem_of_mem_groups listed member)

theorem convertOne_low (context : Context) {group : List Node}
    (bounded : ∀ n ∈ group, L.Fits depth n) :
    Agree L s (convertOne c context group) (convertOne d context group)
      fun found t => ∀ id ∈ found, L.Low t (6 * depth + 2) id := by
  refine (convert_low serves context bounded).bind fun ids t _ low => ?_
  split
  · next only => exact .pure (by simpa using low)
  · exact .pure nofun

theorem unify_low (context : Context) {nodes : List Node} (bounded : ∀ n ∈ nodes, L.Fits depth n) :
    Agree L s (unify c context nodes) (unify d context nodes) fun id t =>
    L.Low t (6 * depth + 3) id := by
  refine (convertAll_low serves context bounded).bind fun ids t _ low => ?_
  split
  · next only =>
    have here : L.Low t (6 * depth + 2) only := low only (by simp)
    refine (Agree.filterM fun form u => (supplies_same only form).agrees).bind
      fun forms u step _ => ?_
    replace here := here.lead step
    refine (serves.reads.has .value (here.mono (by omega))).bind fun found v more _ => ?_
    replace here := here.lead more
    refine new_low fun entry member => ?_
    simp only [List.cons_append, List.mem_cons, List.mem_append, List.mem_map] at member
    rcases member with rfl | member | ⟨form, _, rfl⟩
    · exact .of_within here rfl fun _ => trivial
    · split at member
      · rw [List.mem_singleton.1 member]
        exact .of_within here rfl fun _ => trivial
      · cases member
    · exact .of_within here rfl fun _ => trivial
  · exact new_low (by simpa [Ledger.rests_iff, Recipe.Rests, Recipe.Within, Recipe.call?,
      Recipe.Clean] using low)

end

end Arguments

namespace Fragment

theorem commandLine_agrees {depth : Nat} (serves : Serves L depth c d) {call : Call}
    (bounded : ∀ n ∈ call.nameNode :: call.arguments, L.Fits depth n)
    (plain : L.Plain call.assignments) :
    WritesAny L s (commandLine c call) (commandLine d call) :=
  (Arguments.unify_low serves call.context bounded).bind fun _ _ _ low =>
    (serves.reads.read .argumentList (low.mono (by omega))).mapText fun _ _ _ known =>
      .append (.of_plain plain) known

/-- A recipe is followed alike by compilers that agree on what lies below. -/
theorem cook_agrees (reads : ReadsAlike L level c d)
    (serves : ∀ {depth}, 6 * depth + 5 ≤ level → Serves L depth c d) {recipe : Recipe}
    (rests : L.Rests s level recipe) : WritesAny L s (cook c recipe) (cook d recipe) := by
  obtain ⟨⟨within, fits⟩, clean⟩ := rests
  cases recipe with
  | text => exact .present clean
  | absent => exact .absent
  | same => exact reads.read _ within
  | labelled => exact within.elim
  | negated => exact via_agrees reads _ within fun _ _ _ known => .preceded known (by decide)
  | joinedCondition left operator right =>
    have first : L.Says s left := fun strict => (clean strict).1
    have second : L.Says s operator := fun strict => (clean strict).2
    exact via_agrees reads _ within fun t step text known =>
      (first.lead step).within (by decide) (by decide) |>.append (second.lead step)
        |>.followed (by decide) |>.append known |>.followed (by decide)
  | captured => exact captured_agrees reads within
  | capturedArgument =>
    exact (captured_agrees reads within).mapText fun _ _ _ known => known.substitution
  | capturedInnards id =>
    refine (supplies_same id _).bind fun given t step _ => ?_
    split
    · exact reads.read _ (Ledger.Low.lead step within)
    · exact (captured_agrees reads (Ledger.Low.lead step within)).mapText
        fun _ _ _ known => known.substitution
  | piped =>
    exact (Arguments.readEach_agrees reads _ within).mapTexts fun known => .join (by decide) known
  | arrayOf =>
    exact (Arguments.readEach_agrees reads _ within).mapTexts fun known =>
      Ledger.Says.within (.join (by decide) known) (by decide) (by decide)
  | group =>
    refine (groupText_agrees reads _ within (fun member listed strict =>
      (clean strict).1 member listed)
      (fun strict => (clean strict).2.1) fun strict => (clean strict).2.2).map
        fun text _ _ known => ?_
    simpa using known
  | commandLine call =>
    obtain ⟨depth, room, bounded⟩ := fits call rfl
    exact commandLine_agrees (serves room) bounded clean
  | commandCheck value negated =>
    have value : L.Says s value := clean
    refine (use_notes _).bind fun _ t step has => .present ?_
    refine .followed (.append (.append ?_ (.helper has (by decide))) (value.lead step)) (by decide)
    cases negated <;> exact .const (by decide)
  | joined form ids =>
    refine (Agree.mapM_writes fun id member t step => ?_).map fun texts t _ known => ?_
    · exact (reads.read form ((within id member).lead step)).map fun _ _ _ known =>
        .getD known (.const (by decide))
    · simpa using Ledger.Says.flatten known
  | joinedArgument =>
    exact (joinPieces_agrees (argumentPiece_agrees reads) within).mapTexts .flatten
  | joinedQuoted => exact (joinPieces_agrees (quotedPiece_agrees reads) within).mapTexts .flatten
  | joinedTemplate =>
    exact (joinPieces_agrees (templatePiece_agrees reads) within).mapTexts .flatten
  | bracketed =>
    refine (reads.read .value within).map fun found t _ known => ?_
    have value : L.Says t (found.getD []) := .getD known (.const (by decide))
    simpa using value.within (by decide) (by decide)
  | argumentOf => exact Arguments.argument_agrees reads within
  | argumentsOf =>
    exact (joinPieces_agrees (Arguments.argument_agrees reads) within).mapTexts (.join (by decide))

/-- Making a form marks it, makes it and keeps it. -/
theorem make_agree {f : Fragment} {form : Form} {Q : Option Text → CompileState → Prop}
    (present : s.fragments[id]? = some f)
    (marked : L.Fine s → L.Fine (s.setSlot id form .cooking) ∧
      L.Leads s (s.setSlot id form .cooking))
    (made : Agree L (s.setSlot id form .cooking) (making c id f form) (making d id f form) Q)
    (kept : ∀ {value t}, L.Fine t → Q value t → L.Fine (t.setSlot id form (.known value)) ∧
      L.Leads t (t.setSlot id form (.known value)) ∧ Q value (t.setSlot id form (.known value))) :
    Agree L s (make c id form) (make d id form) Q := by
  intro fine
  obtain ⟨start, marking⟩ := marked fine
  obtain ⟨same, next, step, result⟩ := made start
  rw [run_make present, run_make present, ← same]
  generalize Compile.run (s.setSlot id form .cooking) (making c id f form) = outcome
    at next step result
  obtain ⟨outcome, t⟩ := outcome
  have led := marking.trans step
  cases outcome with
  | error => exact ⟨rfl, next, led, by simp⟩
  | ok value =>
    dsimp only
    split
    · obtain ⟨last, more, answer⟩ := kept next (result value rfl)
      refine ⟨rfl, last, led.trans more, ?_⟩
      rintro _ ⟨⟩
      exact answer
    · exact ⟨rfl, next, led, by simp⟩

/-- A form is read alike if it is made alike. -/
theorem read_agree {f : Fragment} {form : Form} {Q : Option Text → CompileState → Prop}
    (present : s.fragments[id]? = some f)
    (known : ∀ {value}, f.slot? form = some (.known value) → L.Fine s → Q value s)
    (make : Agree L s (make c id form) (make d id form) Q) :
    Agree L s (read c id (some form)) (read d id (some form)) Q := by
  intro fine
  cases found : s.slot? id form with
  | none =>
    exact Agree.of_run (run_read_new present found) (run_read_new present found) make fine
  | some slot =>
    have here : f.slot? form = some slot := by simpa [CompileState.slot?, present] using found
    cases slot with
    | known value =>
      exact Agree.of_run (run_read_known found) (run_read_known found)
        (.pure (a := value) (known here fine)) fine
    | cooking =>
      exact Agree.of_run (run_read_cooking found) (run_read_cooking found) (.fault _) fine

end Fragment

end ShellToDeno
