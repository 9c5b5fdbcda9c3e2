import ShellToDeno.Compile.Node
import ShellToDeno.Proofs.Fragment.Query

/-!
# Redirections against the shell

The shell obeys the clauses of a statement from left to right: a clause that names a file sends its
streams there, and a duplication sends its stream to where the copied one goes at that moment. The
compiler keeps the last clause of each stream only and resolves the duplications afterwards.

`Obeys` is the order of the shell. `Tracks` says what the last clauses alone tell about it; one
clause preserves it, hence a whole list does. What the methods of the call then get wrong without a
word are streams that cross and a stream that a duplication onto itself takes back.
-/
namespace ShellToDeno

/-- Where the two streams of a command go. The sinks `inheritOutput` and `inheritErrors` stand for
the streams that the command would have without any clause. -/
structure Targets where
  output : Sink
  errors : Sink
  deriving DecidableEq

namespace Targets

def own : Targets := ⟨.inheritOutput, .inheritErrors⟩

def send (targets : Targets) (streams : Streams) (sink : Sink) : Targets :=
  ⟨if streams.hasOutput then sink else targets.output,
   if streams.hasErrors then sink else targets.errors⟩

end Targets

namespace Sink

/-- A sink that a clause opens itself. -/
def isOpened : Sink → Bool
  | discard | file _ => true
  | inheritOutput | inheritErrors => false

/-- What a sink is when a clause is obeyed: a duplication takes what it copies. -/
def resolve (targets : Targets) : Sink → Sink
  | inheritOutput => targets.output
  | inheritErrors => targets.errors
  | opened => opened

end Sink

namespace Redirection

/-- Whether a clause copies a descriptor. -/
def copies (r : Redirection) (descriptor : Text) : Bool :=
  r.operator == ">&" && r.target.text == descriptor

/-- The streams that the shell redirects. -/
def streams (r : Redirection) : Streams :=
  if r.operator == "&>" || r.operator == "&>>" || (r.operator == ">&" && !r.duplicates) then .both
  else .ofDescriptor r.descriptor

/-- Whether the word after `>&` is neither a descriptor that the compiler knows nor another one. -/
def isProper (r : Redirection) : Bool :=
  r.operator != ">&" || r.duplicates || !Text.isDigits r.target.text

/-- Whether a clause sends standard output, standard error or both to a file. -/
def opensFile (r : Redirection) : Bool :=
  if r.operator == ">&" then
    r.descriptor.isEmpty && !Text.isDigits r.target.text && r.target.text != "-"
  else if r.operator == "&>" || r.operator == "&>>" then r.descriptor.isEmpty
  else (r.operator == ">" || r.operator == ">>" || r.operator == ">|") &&
    Streams.ofDescriptor r.descriptor != .other

def appends (r : Redirection) : Bool := r.operator == ">>" || r.operator == "&>>"

/-- The sink for the file of a clause, given the expression for its name. -/
def opened (r : Redirection) (path : Text) : Sink :=
  .file ((if r.appends then "appendTo(" else "overwrite(") ++ path ++ ")")

/-- The last clause that redirects a stream. -/
def last? (has : Streams → Bool) (clauses : List Redirection) : Option Redirection :=
  clauses.reverse.find? fun r => has r.streams

theorem last?_append (has : Streams → Bool) (clauses : List Redirection) (r : Redirection) :
    last? has (clauses ++ [r]) = if has r.streams then some r else last? has clauses := by
  cases redirected : has r.streams <;> simp [last?, redirected]

/-- The last clauses of the two streams point at each other. -/
def crossed (clauses : List Redirection) : Bool :=
  (last? Streams.hasOutput clauses).any (·.copies "2") &&
    (last? Streams.hasErrors clauses).any (·.copies "1")

/-- The last clause of a stream copies that stream itself, which has been sent elsewhere. -/
def takenBack (clauses : List Redirection) (final : Targets) : Bool :=
  ((last? Streams.hasOutput clauses).any (·.copies "1") && final.output != .inheritOutput) ||
    ((last? Streams.hasErrors clauses).any (·.copies "2") && final.errors != .inheritErrors)

end Redirection

namespace Compile

/-- The expression for the target of a clause, compiled in a state. -/
def Names (c : Compiler) (context : Context) (r : Redirection) (s : CompileState) (path : Text)
    (t : CompileState) : Prop :=
  ∃ id u, run s (redirectTarget c context r) = (.ok (some id), u) ∧
    run u (c.read id .value) = (.ok (some path), t)

/-- One clause, as the shell obeys it. -/
inductive Follows (c : Compiler) (context : Context) (s : CompileState) (targets : Targets)
    (r : Redirection) : CompileState → Targets → Prop
  | output (copy : r.copies "1") :
    Follows c context s targets r (run s (use .stdout)).2 (targets.send r.streams targets.output)
  | errors (copy : r.copies "2") :
    Follows c context s targets r (run s (use .stderr)).2 (targets.send r.streams targets.errors)
  | discard (file : r.opensFile) (null : r.target.text = "/dev/null") :
    Follows c context s targets r s (targets.send r.streams .discard)
  | file {path : Text} {t : CompileState} (file : r.opensFile)
      (named : Names c context r s path t) :
    Follows c context s targets r (run t (use (if r.appends then .append else .overwrite))).2
      (targets.send r.streams (r.opened path))

/-- A list of clauses, obeyed from left to right. -/
inductive Obeys (c : Compiler) (context : Context) :
    CompileState → Targets → List Redirection → CompileState → Targets → Prop
  | nil (s : CompileState) (targets : Targets) : Obeys c context s targets [] s targets
  | cons {s t u : CompileState} {before after final : Targets} {r : Redirection}
      {rest : List Redirection} (first : Follows c context s before r t after)
      (others : Obeys c context t after rest u final) : Obeys c context s before (r :: rest) u final

variable {c : Compiler} {context : Context} {r : Redirection} {s t : CompileState}

/-- What the compiler takes a clause to be. -/
structure Takes (c : Compiler) (context : Context) (r : Redirection) (s : CompileState)
    (streams : Streams) (sink : Sink) (t : CompileState) : Prop where
  redirects : streams = r.streams
  output : (sink == .inheritOutput) = r.copies "1"
  errors : (sink == .inheritErrors) = r.copies "2"
  both : streams = .both → sink.isOpened
  follows : ∀ targets, Follows c context s targets r t (targets.send streams (sink.resolve targets))

theorem of_run_fileSink {sink : Sink} (ran : run s (fileSink c context r) = (.ok (some sink), t)) :
    (r.target.text = "/dev/null" ∧ sink = .discard ∧ t = s) ∨
      ∃ path u, Names c context r s path u ∧ sink = r.opened path ∧
        t = (run u (use (if r.appends then .append else .overwrite))).2 := by
  rw [fileSink] at ran
  split at ran
  · next null =>
    cases ran
    exact .inl ⟨by simpa using null, rfl, rfl⟩
  right
  obtain ⟨found, u, target, ran⟩ := of_run_bind ran
  cases found with
  | none => cases ran
  | some id =>
    obtain ⟨value, v, read, ran⟩ := of_run_bind ran
    cases value with
    | none => cases ran
    | some path =>
      have named : Names c context r s path v := ⟨id, u, target, read⟩
      refine ⟨path, v, named, ?_⟩
      change run v (if r.appends then _ else _) = _ at ran
      rw [Redirection.opened]
      split at ran
      · next appends =>
        cases ran
        rw [if_pos appends, if_pos appends]
        exact ⟨rfl, rfl⟩
      · next overwrites =>
        cases ran
        rw [if_neg overwrites, if_neg overwrites]
        exact ⟨rfl, rfl⟩

/-- A clause that is not a duplication is taken for one that opens its file. -/
theorem takes_file {streams found : Streams} {sink : Sink} (opens : r.opensFile)
    (fresh : r.duplicates = false) (redirects : streams = r.streams)
    (ran : run s (do return (← fileSink c context r).map (streams, ·)) =
      (.ok (some (found, sink)), t)) : Takes c context r s found sink t := by
  obtain ⟨answer, u, opened, ran⟩ := of_run_bind ran
  rw [run_pure] at ran
  obtain ⟨same, rfl⟩ := Prod.mk.inj ran
  obtain ⟨_, rfl, pair⟩ := Option.map_eq_some_iff.1 (Except.ok.inj same)
  obtain ⟨rfl, rfl⟩ := Prod.mk.inj pair
  have output : r.copies "1" = false := by
    simp_all [Redirection.copies, Redirection.duplicates]
  have errors : r.copies "2" = false := by
    simp_all [Redirection.copies, Redirection.duplicates]
  subst redirects
  rcases of_run_fileSink opened with ⟨null, rfl, rfl⟩ | ⟨path, v, named, rfl, rfl⟩
  · exact ⟨rfl, output.symm, errors.symm, fun _ => rfl, fun _ => .discard opens null⟩
  · exact ⟨rfl, output.symm, errors.symm, fun _ => rfl, fun _ => .file opens named⟩

/-- A duplication of standard output or standard error. -/
theorem takes_duplicate {streams found : Streams} {sink : Sink} (copy : r.duplicates)
    (redirects : streams = r.streams) (single : streams ≠ .both)
    (ran : run s (do return some (streams, ← duplicateSink r)) = (.ok (some (found, sink)), t)) :
    Takes c context r s found sink t := by
  obtain ⟨answer, u, duplicated, ran⟩ := of_run_bind ran
  cases ran
  subst redirects
  obtain ⟨operator, target⟩ : r.operator = ">&" ∧ (r.target.text = "1" ∨ r.target.text = "2") := by
    simpa [Redirection.duplicates] using copy
  rw [duplicateSink] at duplicated
  rcases target with target | target
  · have output : r.copies "1" = true := by simp [Redirection.copies, operator, target]
    have errors : r.copies "2" = false := by simp [Redirection.copies, operator, target]; decide
    rw [if_pos (by simp [target])] at duplicated
    cases duplicated
    exact ⟨rfl, output.symm, errors.symm, fun both => (single both).elim, fun _ => .output output⟩
  · have output : r.copies "1" = false := by simp [Redirection.copies, operator, target]; decide
    have errors : r.copies "2" = true := by simp [Redirection.copies, operator, target]
    rw [if_neg (by simp [target]; decide)] at duplicated
    cases duplicated
    exact ⟨rfl, output.symm, errors.symm, fun both => (single both).elim, fun _ => .errors errors⟩

theorem sinkOf_takes {streams : Streams} {sink : Sink} (proper : r.isProper)
    (ran : run s (sinkOf c context r) = (.ok (some (streams, sink)), t)) :
    Takes c context r s streams sink t := by
  rw [sinkOf] at ran
  dsimp only at ran
  split at ran
  · next both =>
    have other : r.operator ≠ ">&" := by
      rcases Bool.or_eq_true_iff.1 both with operator | operator
      all_goals
        rw [eq_of_beq operator]
        decide
    have fresh : r.duplicates = false := by simp [Redirection.duplicates, other]
    split at ran
    · next bare =>
      have opens : r.opensFile := by simp [Redirection.opensFile, other, both, bare]
      exact takes_file opens fresh (by simp [Redirection.streams, both]) ran
    · cases ran
  next single =>
  split at ran
  · next plain =>
    have other : r.operator ≠ ">&" := by
      rcases Bool.or_eq_true_iff.1 plain with plain | operator
      · rcases Bool.or_eq_true_iff.1 plain with operator | operator
        all_goals
          rw [eq_of_beq operator]
          decide
      · rw [eq_of_beq operator]
        decide
    have fresh : r.duplicates = false := by simp [Redirection.duplicates, other]
    have redirects : Streams.ofDescriptor r.descriptor = r.streams := by
      simp [Redirection.streams, single, other]
    split at ran
    · cases ran
    · next known =>
      have opens : r.opensFile := by
        simpa [Redirection.opensFile, other, single, plain] using known
      exact takes_file opens fresh redirects ran
  split at ran
  · cases ran
  next operator =>
  obtain operator : r.operator = ">&" := by simpa using operator
  split at ran
  · next copy =>
    have redirects : Streams.ofDescriptor r.descriptor = r.streams := by
      simp [Redirection.streams, single, copy]
    refine takes_duplicate copy redirects ?_ ran
    rw [Streams.ofDescriptor]
    split
    · decide
    · split <;> decide
  next fresh =>
  split at ran
  · next named =>
    have opens : r.opensFile := by
      simp_all [Redirection.opensFile, Redirection.isProper]
    exact takes_file opens (by simpa using fresh)
      (by simp [Redirection.streams, operator, fresh]) ran
  · cases ran

end Compile

/-- What the last clause of one stream tells: `own` is the sink that stands for the stream itself
and `other` the one for the other stream. Of a stream that copies itself it tells nothing. -/
structure PlacedSink.Tracks (own other : Sink) (mine theirs : Option PlacedSink)
    (target others : Sink) : Prop where
  untouched : mine = none → target = own
  opened : ∀ p, mine = some p → p.sink.isOpened → target = p.sink
  copied : ∀ p, mine = some p → p.sink = other → (∀ q, theirs = some q → q.place < p.place) →
    target = others

namespace PlacedSink.Tracks
variable {own other : Sink} {mine theirs : Option PlacedSink} {target others : Sink}

/-- The stream of a clause, after it. -/
theorem put_mine {p : PlacedSink} {resolved : Sink} (opened : p.sink.isOpened → resolved = p.sink)
    (copied : p.sink = other → resolved = others) :
    Tracks own other (some p) theirs resolved others := by
  refine ⟨nofun, ?_, ?_⟩
  · rintro _ ⟨⟩ open_
    exact opened open_
  · rintro _ ⟨⟩ copies _
    exact copied copies

/-- The other stream: what it copied may have moved, but then it was overtaken. -/
theorem put_theirs (tracks : Tracks own other mine theirs target others) {q : PlacedSink}
    (later : ∀ p, mine = some p → p.place < q.place) (moved : Sink) :
    Tracks own other mine (some q) target moved := by
  refine ⟨tracks.untouched, tracks.opened, ?_⟩
  intro p found _ before
  have := later p found
  have := before q rfl
  omega

/-- The last clause is right about its stream unless that stream copies itself. -/
theorem sink_eq_iff {p : PlacedSink} (tracks : Tracks own other (some p) theirs target others)
    (kinds : p.sink = own ∨ p.sink = other ∨ p.sink.isOpened) (apart : p.sink ≠ other) :
    p.sink = target ↔ (p.sink = own → target = own) := by
  rcases kinds with same | copies | opened
  · rw [same]
    exact ⟨fun right _ => right.symm, fun kept => (kept rfl).symm⟩
  · exact (apart copies).elim
  · have target := tracks.opened p rfl opened
    rw [target]
    exact ⟨fun _ same => same, fun _ => rfl⟩

end PlacedSink.Tracks

/-- Without a comment, the stream that follows was redirected last. -/
theorem PlacedSink.le_of_review {p q : PlacedSink} (silent : p.review q = []) :
    q.place ≤ p.place := by
  rw [PlacedSink.review] at silent
  split at silent
  · cases silent
  · omega

namespace Sinks
open Redirection

/-- The sink of a stream and the last clause of that stream. -/
structure Recalls (has : Streams → Bool) (clauses : List Redirection) (mine : Option PlacedSink) :
    Prop where
  output : mine.any (·.sink == .inheritOutput) = (last? has clauses).any (·.copies "1")
  errors : mine.any (·.sink == .inheritErrors) = (last? has clauses).any (·.copies "2")

/-- Sinks that come from the first clauses. Only one that opens a file gives both. -/
structure Placed (count : Nat) (sinks : Sinks) : Prop where
  output : ∀ p, sinks.output = some p → p.place < count
  errors : ∀ q, sinks.errors = some q → q.place < count
  shared : ∀ p q, sinks.output = some p → sinks.errors = some q → p.place = q.place →
    p.sink.isOpened ∧ q.sink.isOpened

theorem Placed.put {count : Nat} {sinks : Sinks} (placed : Placed count sinks) {streams : Streams}
    {sink : Sink} (both : streams = .both → sink.isOpened) (clause : Text) :
    Placed (count + 1) (sinks.put streams ⟨sink, count, clause⟩) := by
  have first {p : PlacedSink} (found : sinks.output = some p) : p.place < count :=
    placed.output p found
  have second {q : PlacedSink} (found : sinks.errors = some q) : q.place < count :=
    placed.errors q found
  cases streams with
  | output =>
    refine ⟨?_, fun q found => by have := second found; omega, ?_⟩
    · rintro _ ⟨⟩
      exact Nat.lt_succ_self count
    · rintro _ q ⟨⟩ found same
      have := second found
      dsimp only at same
      omega
  | errors =>
    refine ⟨fun p found => by have := first found; omega, ?_, ?_⟩
    · rintro _ ⟨⟩
      exact Nat.lt_succ_self count
    · rintro p _ found ⟨⟩ same
      have := first found
      dsimp only at same
      omega
  | both =>
    refine ⟨?_, ?_, ?_⟩
    · rintro _ ⟨⟩
      exact Nat.lt_succ_self count
    · rintro _ ⟨⟩
      exact Nat.lt_succ_self count
    · rintro _ _ ⟨⟩ ⟨⟩ _
      exact ⟨both rfl, both rfl⟩
  | other =>
    exact ⟨fun p found => by have := first found; omega,
      fun q found => by have := second found; omega, placed.shared⟩

/-- The sinks after some clauses, and where the shell has sent the streams by then. -/
structure Tracks (clauses : List Redirection) (sinks : Sinks) (targets : Targets) : Prop where
  output : PlacedSink.Tracks .inheritOutput .inheritErrors sinks.output sinks.errors
    targets.output targets.errors
  errors : PlacedSink.Tracks .inheritErrors .inheritOutput sinks.errors sinks.output
    targets.errors targets.output
  lastOutput : Recalls Streams.hasOutput clauses sinks.output
  lastErrors : Recalls Streams.hasErrors clauses sinks.errors
  placed : Placed clauses.length sinks

theorem Tracks.none : Tracks [] ⟨none, none⟩ .own :=
  ⟨⟨fun _ => rfl, nofun, nofun⟩, ⟨fun _ => rfl, nofun, nofun⟩, ⟨rfl, rfl⟩, ⟨rfl, rfl⟩,
    ⟨nofun, nofun, nofun⟩⟩

theorem Recalls.put_mine {has : Streams → Bool} (clauses : List Redirection) {r : Redirection}
    {p : PlacedSink} (redirects : has r.streams)
    (output : (p.sink == .inheritOutput) = r.copies "1")
    (errors : (p.sink == .inheritErrors) = r.copies "2") :
    Recalls has (clauses ++ [r]) (some p) := by
  constructor
  all_goals
    rw [last?_append, if_pos redirects]
    assumption

theorem Recalls.put_theirs {has : Streams → Bool} {clauses : List Redirection} {r : Redirection}
    {mine : Option PlacedSink} (recalls : Recalls has clauses mine)
    (spares : has r.streams = false) :
    Recalls has (clauses ++ [r]) mine := by
  have same : last? has (clauses ++ [r]) = last? has clauses := by simp [last?_append, spares]
  exact ⟨same ▸ recalls.output, same ▸ recalls.errors⟩

/-- One clause more. -/
theorem Tracks.put {c : Compiler} {context : Context} {r : Redirection} {s t : CompileState}
    {clauses : List Redirection} {sinks : Sinks} {targets : Targets} {streams : Streams}
    {sink : Sink}
    (tracks : Tracks clauses sinks targets) (takes : Compile.Takes c context r s streams sink t) :
    Tracks (clauses ++ [r]) (sinks.put streams ⟨sink, clauses.length, r.text⟩)
      (targets.send streams (sink.resolve targets)) := by
  obtain ⟨rfl, output, errors, both, _⟩ := takes
  have opened : sink.isOpened → sink.resolve targets = sink := by
    cases sink <;> simp [Sink.isOpened, Sink.resolve]
  have placed : Placed (clauses ++ [r]).length
      (sinks.put r.streams ⟨sink, clauses.length, r.text⟩) := by
    rw [List.length_append]
    exact tracks.placed.put both r.text
  cases streams : r.streams with
  | output =>
    rw [streams] at placed
    refine ⟨.put_mine opened ?_, tracks.errors.put_theirs tracks.placed.errors _,
      .put_mine clauses (by rw [streams]; rfl) output errors,
      tracks.lastErrors.put_theirs (by rw [streams]; rfl), placed⟩
    rintro rfl
    rfl
  | errors =>
    rw [streams] at placed
    refine ⟨tracks.output.put_theirs tracks.placed.output _, .put_mine opened ?_,
      tracks.lastOutput.put_theirs (by rw [streams]; rfl),
      .put_mine clauses (by rw [streams]; rfl) output errors, placed⟩
    rintro rfl
    rfl
  | both =>
    rw [streams] at placed
    have fresh := both streams
    refine ⟨.put_mine opened ?_, .put_mine opened ?_,
      .put_mine clauses (by rw [streams]; rfl) output errors,
      .put_mine clauses (by rw [streams]; rfl) output errors, placed⟩
    all_goals
      rintro rfl
      cases fresh
  | other =>
    rw [streams] at placed
    exact ⟨tracks.output, tracks.errors, tracks.lastOutput.put_theirs (by rw [streams]; rfl),
      tracks.lastErrors.put_theirs (by rw [streams]; rfl), placed⟩

/-- What the methods of the call say. -/
def emitted (s : Sinks) : Option Sink × Option Sink :=
  match s.output, s.errors with
  | some output, some errors =>
    if output.sink == .inheritErrors && errors.sink == .inheritOutput then
      (output.sink, errors.sink)
    else if errors.sink == .inheritOutput then (output.sink, output.sink)
    else if output.sink == .inheritErrors then (errors.sink, errors.sink)
    else (output.sink, errors.sink)
  | output, errors => (output.map PlacedSink.sink, errors.map PlacedSink.sink)

/-- The comment that asks for a review. -/
def comment (s : Sinks) : Text :=
  match s.output, s.errors with
  | some output, some errors =>
    if output.sink == .inheritErrors && errors.sink == .inheritOutput then []
    else if errors.sink == .inheritOutput then errors.review output
    else if output.sink == .inheritErrors then output.review errors
    else []
  | _, _ => []

theorem text_eq (s : Sinks) : s.text = methods s.emitted.1 s.emitted.2 ++ s.comment := by
  rcases s with ⟨_ | output, _ | errors⟩
  case some.some =>
    simp only [text, emitted, comment]
    split
    · exact (List.append_nil _).symm
    · split
      · rfl
      · split
        · rfl
        · exact (List.append_nil _).symm
  all_goals exact (List.append_nil _).symm

theorem comment_eq (s : Sinks) : s.comment = [] ∨ ∃ rest, s.comment = " /* FIXME: " ++ rest := by
  have review (p q : PlacedSink) :
      p.review q = [] ∨ ∃ rest, p.review q = " /* FIXME: " ++ rest := by
    rw [PlacedSink.review]
    split
    · simp only [List.append_assoc]
      exact .inr ⟨_, rfl⟩
    · exact .inl rfl
  rw [comment.eq_def]
  split
  · split
    · exact .inl rfl
    · split
      · exact review _ _
      · split
        · exact review _ _
        · exact .inl rfl
  · exact .inl rfl

theorem kinds (sink : Sink) :
    sink = .inheritOutput ∨ sink = .inheritErrors ∨ sink.isOpened := by
  cases sink <;> simp [Sink.isOpened]

section
variable {clauses : List Redirection} {output errors : PlacedSink} {targets : Targets}
  (tracks : Tracks clauses ⟨some output, some errors⟩ targets)
include tracks

/-- The stream that was redirected last, if it copies the other one, goes where that one goes. -/
theorem Tracks.errors_follow (copies : errors.sink = .inheritOutput)
    (last : output.place ≤ errors.place) : targets.errors = targets.output := by
  refine tracks.errors.copied errors rfl copies ?_
  rintro _ ⟨⟩
  refine Nat.lt_of_le_of_ne last fun same => ?_
  have opened := (tracks.placed.shared _ _ rfl rfl same).2
  rw [copies] at opened
  cases opened

theorem Tracks.output_follows (copies : output.sink = .inheritErrors)
    (last : errors.place ≤ output.place) : targets.output = targets.errors := by
  refine tracks.output.copied output rfl copies ?_
  rintro _ ⟨⟩
  refine Nat.lt_of_le_of_ne last fun same => ?_
  have opened := (tracks.placed.shared _ _ rfl rfl same.symm).1
  rw [copies] at opened
  cases opened

/-- Streams that point at each other go to one place in the shell. -/
theorem Tracks.meet (first : output.sink = .inheritErrors) (second : errors.sink = .inheritOutput) :
    targets.output = targets.errors := by
  by_cases last : errors.place ≤ output.place
  · exact tracks.output_follows first last
  · exact (tracks.errors_follow second (by omega)).symm

end

/-- The methods are what the shell does, unless the streams cross or one of them is taken back. -/
theorem Tracks.emitted_iff {clauses : List Redirection} {sinks : Sinks} {targets : Targets}
    (tracks : Tracks clauses sinks targets) (silent : sinks.comment = []) :
    (sinks.emitted.1.getD .inheritOutput = targets.output ∧
      sinks.emitted.2.getD .inheritErrors = targets.errors) ↔
    crossed clauses = false ∧ takenBack clauses targets = false := by
  rw [crossed, takenBack, ← tracks.lastOutput.output, ← tracks.lastOutput.errors,
    ← tracks.lastErrors.output, ← tracks.lastErrors.errors]
  rcases sinks with ⟨_ | output, _ | errors⟩
  case none.none =>
    simp [emitted, tracks.output.untouched rfl, tracks.errors.untouched rfl]
  case some.none =>
    have errors : targets.errors = .inheritErrors := tracks.errors.untouched rfl
    by_cases copies : output.sink = .inheritErrors
    · have target := tracks.output.copied output rfl copies nofun
      simp [emitted, copies, errors, target]
    · have right := tracks.output.sink_eq_iff (kinds output.sink) copies
      simpa [emitted, errors, Classical.or_iff_not_imp_left] using right
  case none.some =>
    have output : targets.output = .inheritOutput := tracks.output.untouched rfl
    by_cases copies : errors.sink = .inheritOutput
    · have target := tracks.errors.copied errors rfl copies nofun
      simp [emitted, copies, output, target]
    · have right := tracks.errors.sink_eq_iff (or_left_comm.1 (kinds errors.sink)) copies
      simpa [emitted, output, Classical.or_iff_not_imp_left] using right
  case some.some =>
    by_cases first : output.sink = .inheritErrors
    · by_cases second : errors.sink = .inheritOutput
      · have together := tracks.meet first second
        have wrong : ¬(Sink.inheritErrors = targets.errors ∧
            Sink.inheritOutput = targets.errors) := by
          rintro ⟨here, there⟩
          cases here.trans there.symm
        simpa [emitted, first, second, together] using wrong
      · have last : errors.place ≤ output.place :=
          PlacedSink.le_of_review (by simpa [comment, first, second] using silent)
        have together := tracks.output_follows first last
        have right := tracks.errors.sink_eq_iff (or_left_comm.1 (kinds errors.sink)) second
        simpa [emitted, first, second, together, Classical.or_iff_not_imp_left] using right
    · have output_right := tracks.output.sink_eq_iff (kinds output.sink) first
      by_cases second : errors.sink = .inheritOutput
      · have last : output.place ≤ errors.place :=
          PlacedSink.le_of_review (by simpa [comment, first, second] using silent)
        have together := tracks.errors_follow second last
        simpa [emitted, first, second, together, Classical.or_iff_not_imp_left] using output_right
      · have errors_right := tracks.errors.sink_eq_iff (or_left_comm.1 (kinds errors.sink)) second
        simpa [emitted, first, second, Classical.or_iff_not_imp_left] using
          and_congr output_right errors_right

end Sinks

namespace Compile
open Redirection
variable {c : Compiler} {context : Context} {s t : CompileState}

/-- What the compiler makes of more clauses goes with what the shell does with them. -/
theorem sinksOf_tracks {done rest : List Redirection} {sinks found : Sinks} {targets : Targets}
    (tracks : sinks.Tracks done targets) (proper : ∀ r ∈ rest, r.isProper)
    (ran : run s (sinksOf c context done.length sinks rest) = (.ok (some found), t)) :
    ∃ final, Obeys c context s targets rest t final ∧ found.Tracks (done ++ rest) final := by
  induction rest generalizing s done sinks targets with
  | nil =>
    cases ran
    exact ⟨targets, .nil _ targets, by rwa [List.append_nil]⟩
  | cons r rest ih =>
    obtain ⟨answer, u, first, ran⟩ := of_run_bind ran
    cases answer with
    | none => cases ran
    | some answer =>
      obtain ⟨streams, sink⟩ := answer
      have takes := sinkOf_takes (proper r (by simp)) first
      have next := tracks.put takes
      obtain ⟨final, obeys, last⟩ := ih next (fun r member => proper r (by simp [member])) (by
        rw [List.length_append]
        exact ran)
      exact ⟨final, .cons (takes.follows targets) obeys, by simpa using last⟩

/-- The methods that a list of clauses becomes are what the shell makes of the clauses from left to
right, or a comment asks for a review, exactly if neither the last clauses of the two streams point
at each other nor the last clause of a stream copies that stream itself after it was sent
elsewhere. -/
theorem sinks_obey_clauses {clauses : List Redirection} {sinks : Sinks}
    (proper : ∀ r ∈ clauses, r.isProper)
    (ran : run s (sinksOf c context 0 ⟨none, none⟩ clauses) = (.ok (some sinks), t)) :
    ∃ final, Obeys c context s .own clauses t final ∧
      sinks.text = Sinks.methods sinks.emitted.1 sinks.emitted.2 ++ sinks.comment ∧
      (sinks.comment = [] ∨ ∃ rest, sinks.comment = " /* FIXME: " ++ rest) ∧
      (sinks.comment = [] →
        ((sinks.emitted.1.getD .inheritOutput = final.output ∧
          sinks.emitted.2.getD .inheritErrors = final.errors) ↔
        crossed clauses = false ∧ takenBack clauses final = false)) := by
  have tracked : Sinks.Tracks [] ⟨none, none⟩ .own := .none
  obtain ⟨final, obeys, tracks⟩ := sinksOf_tracks tracked proper ran
  exact ⟨final, obeys, sinks.text_eq, sinks.comment_eq, tracks.emitted_iff⟩

/-- The clauses of `a >x 1>&1`. -/
def takenBackClauses : List Redirection :=
  [⟨">x", [], ">", ⟨.word, "x", [], [], 3, 4⟩, ">"⟩,
   ⟨"1>&1", "1", ">&", ⟨.number, "1", [], [], 8, 9⟩, "1>&"⟩]

/-- The shell writes to the file, the methods do not, and no comment says so. -/
theorem sinks_obey_clauses_taken_back : (∀ r ∈ takenBackClauses, r.isProper) ∧ ∃ sinks t final,
    run .empty (sinksOf (.ofFuel .standard 4) .none 0 ⟨none, none⟩ takenBackClauses) =
      (.ok (some sinks), t) ∧
    sinks.text = ".stdout(...$stdout)" ∧ sinks.comment = [] ∧
    Obeys (.ofFuel .standard 4) .none .empty .own takenBackClauses t final ∧
    final.output ≠ .inheritOutput := by
  have proper : ∀ r ∈ takenBackClauses, r.isProper := by decide
  obtain ⟨t, ran⟩ : ∃ t,
      run .empty (sinksOf (.ofFuel .standard 4) .none 0 ⟨none, none⟩ takenBackClauses) =
        (.ok (some ⟨some ⟨.inheritOutput, 1, "1>&1"⟩, none⟩), t) := ⟨_, rfl⟩
  obtain ⟨final, obeys, _⟩ := sinks_obey_clauses proper ran
  refine ⟨proper, _, t, final, ran, rfl, rfl, obeys, fun kept => ?_⟩
  cases obeys with
  | cons first others =>
    cases others with
    | cons second none =>
      cases none
      cases first with
      | output copy | errors copy => exact absurd copy (by decide)
      | discard _ null => exact absurd null (by decide)
      | file =>
        cases second with
        | output => cases kept
        | errors copy => exact absurd copy (by decide)
        | discard opens _ | file opens _ => exact absurd opens (by decide)

end Compile

end ShellToDeno
