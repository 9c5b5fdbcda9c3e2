import ShellToDeno.Proofs.Fragment.Query

/-!
# What a query asks for

Forms are derived from each other in a fixed order: what the derivation of a form asks for has a
smaller rank (`Form.derivation_asks`).
-/
namespace ShellToDeno

/-- Whatever the query asks for satisfies `P`. -/
inductive Query.Asks (P : FragmentId → Option Form → Prop) : Query → Prop where
  | give (value : Option Text) : Asks P (give value)
  | ask {id : FragmentId} {form : Option Form} {next : Option Text → Query}
    (here : P id form) (rest : ∀ value, Asks P (next value)) : Asks P (ask id form next)

namespace Query
variable {P : FragmentId → Option Form → Prop} {id : FragmentId}

theorem asks_via {form : Form} (here : P id (some form)) (f : Text → Text) :
    (via id form f).Asks P :=
  .ask here fun _ => .give _

theorem asks_first {forms : List Form} (here : ∀ form ∈ forms, P id (some form)) :
    (first id forms).Asks P := by
  induction forms with
  | nil => exact .give none
  | cons form rest ih =>
    refine .ask (here form (by simp)) fun value => ?_
    cases value with
    | some => exact .give _
    | none => exact ih fun form member => here form (by simp [member])

theorem Asks.imp {Q : FragmentId → Option Form → Prop} {q : Query} (asks : q.Asks P)
    (implies : ∀ id form, P id form → Q id form) : q.Asks Q := by
  induction asks with
  | give value => exact .give value
  | ask here _ ih => exact .ask (implies _ _ here) ih

end Query

namespace Form

/-- The place of a form in the order in which forms are derived from each other. -/
def depth : Form → Nat
  | argument | quotedInnards | pureCommand | array | argumentList => 0
  | singleQuoted | redirectedCommand => 1
  | chainedCommand => 2
  | plainCall => 3
  | redirectedCall => 4
  | textCall | captureCall | success | failure => 5
  | templateInnards => 6
  | template => 7
  | stringValue => 8
  | number => 9
  | value => 10
  | condition | statement => 11
  | negation => 12

/-- The forms that the derivation of a form may ask for. A number is asked for only where it is
given. -/
def asked (given : Form → Bool) : Form → List Form
  | singleQuoted => [quotedInnards]
  | redirectedCommand => [pureCommand]
  | chainedCommand => [redirectedCommand]
  | plainCall => [chainedCommand]
  | redirectedCall => [plainCall]
  | textCall | success | failure => [redirectedCall]
  | captureCall => [chainedCommand, redirectedCall]
  | templateInnards => [textCall]
  | template => [templateInnards]
  | stringValue => if given number then [number, template, textCall] else [template, textCall]
  | number => [stringValue]
  | value => [array, number, stringValue, success]
  | condition => [success, value]
  | negation => [condition, failure]
  | statement => [plainCall, value]
  | argument | quotedInnards | pureCommand | array | argumentList => []

theorem derivation_asks_of {P : FragmentId → Option Form → Prop} {id : FragmentId}
    (given : Form → Bool) (form : Form) (each : ∀ g ∈ form.asked given, P id (some g)) :
    (form.derivation id given).Asks P := by
  have here {g : Form} (member : g ∈ form.asked given) : P id (some g) := each g member
  cases form
  case captureCall =>
    refine .ask (here (by simp [asked])) fun chained => ?_
    cases chained with
    | some => exact .give _
    | none => exact .ask (here (by simp [asked])) fun _ => .give _
  case stringValue =>
    simp -zeta only [derivation]
    extract_lets others
    have asks : others.Asks P := by
      refine Query.asks_first fun g member => each g ?_
      rw [asked]
      split
      · exact List.mem_cons_of_mem _ member
      · exact member
    split
    · next supplied =>
      refine .ask (here (by simp [asked, supplied])) fun number => ?_
      cases number with
      | some => exact .give _
      | none => exact asks
    · exact asks
  case negation =>
    simp -zeta only [derivation]
    extract_lets others
    have asks : others.Asks P := by
      refine .ask (here (by simp [asked])) fun failed => ?_
      cases failed with
      | some => exact .give _
      | none => exact Query.asks_via (here (by simp [asked])) _
    split
    · refine .ask (here (by simp [asked])) fun held => ?_
      cases held with
      | some => exact .give _
      | none => exact asks
    · exact asks
  all_goals first
    | exact .give _
    | exact .ask (here (by simp [asked])) fun _ => .give _
    | exact Query.asks_first each

/-- A number is derived from a string and, where it is supplied, a string from a number: supplied
forms come before all others. -/
def rank (given : Form → Bool) (form : Form) : Nat := if given form then 0 else form.depth + 1

/-- A form of the fragment `id` with a smaller rank. -/
def Below (given : Form → Bool) (form : Form) (id j : FragmentId) (asked : Option Form) : Prop :=
  j = id ∧ ∃ g, asked = some g ∧ rank given g < rank given form

theorem depth_asked {given : Form → Bool} {form g : Form} (member : g ∈ form.asked given) :
    given g = true ∨ g.depth < form.depth := by
  by_cases number : form = stringValue ∧ given Form.number
  · obtain ⟨rfl, supplied⟩ := number
    rw [asked, if_pos supplied, List.mem_cons] at member
    rcases member with rfl | member
    · exact .inl supplied
    · exact .inr (by revert g; decide)
  · have listed : g ∈ form.asked fun _ => false := by
      cases form
      case stringValue =>
        have unsupplied : given Form.number = false := by simpa using number
        simpa [asked, unsupplied] using member
      all_goals exact member
    have lower : ∀ g ∈ form.asked fun _ => false, g.depth < form.depth := by cases form <;> decide
    exact .inr (lower g listed)

theorem derivation_asks {id : FragmentId} (given : Form → Bool) {form : Form}
    (derived : given form = false) : (form.derivation id given).Asks (Below given form id) := by
  refine derivation_asks_of given form fun g member => ⟨rfl, g, rfl, ?_⟩
  rw [rank, rank, derived, if_neg Bool.false_ne_true]
  rcases depth_asked member with supplied | less
  · rw [if_pos supplied]
    exact Nat.succ_pos _
  · split
    · exact Nat.succ_pos _
    · exact Nat.succ_lt_succ less

end Form

end ShellToDeno
