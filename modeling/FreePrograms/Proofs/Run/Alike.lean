/-
# Runs that differ in what they tell

Different ways to run a program tell different events, and do otherwise the same.  `Run.Alike` says
so of two computations: begun on sessions that differ in the events told so far at most, they end
with the same value or halt on sessions that differ in the events at most.  So the host sees the
same of both (`Run.Alike.hostResult_eq`), and so does every later step.

Alike computations go on alike (`Run.Alike.bind`), telling an event and opening a span make no
difference (`Run.Alike.tell`, `Run.Alike.inside`), and every step of this library is alike to itself,
for none of them looks at the events.
-/
import FreePrograms.Proofs.Run.Steps

namespace FreePrograms

variable {S : Signature} {K : Host S} {α β : Type}

/-- The session as if nothing had been told. -/
def Session.quiet (session : Session K) : Session K := { session with events := #[] }

/-- The result as if nothing had been told. -/
def quietResult : EStateM.Result (Halt S) (Session K) α → EStateM.Result (Halt S) (Session K) α
  | .ok a session => .ok a session.quiet
  | .error halt session => .error halt session.quiet

theorem eq_ok_of_quietResult {result : EStateM.Result (Halt S) (Session K) α} {a : α}
    {session : Session K} (h : quietResult result = .ok a session) :
    ∃ last, result = .ok a last ∧ last.quiet = session := by
  cases result with
  | ok b last =>
    cases h
    exact ⟨last, rfl, rfl⟩
  | error halt last => cases h

theorem eq_error_of_quietResult {result : EStateM.Result (Halt S) (Session K) α} {halt : Halt S}
    {session : Session K} (h : quietResult result = .error halt session) :
    ∃ last, result = .error halt last ∧ last.quiet = session := by
  cases result with
  | ok b last => cases h
  | error halt' last =>
    cases h
    exact ⟨last, rfl, rfl⟩

theorem hostResult_quiet (result : EStateM.Result (Halt S) (Session K) α) :
    hostResult (quietResult result) = hostResult result := by
  cases result with
  | ok a session => rfl
  | error halt session => rfl

namespace Run

/-- The computations differ in what they tell at most. -/
structure Alike (left right : Run K α) : Prop where
  same {session session' : Session K} : session.quiet = session'.quiet →
    quietResult (left session) = quietResult (right session')

namespace Alike

variable {left right work : Run K α}

/-! ## 1. Steps one after the other -/

theorem hostResult_eq (h : Alike left right) (session : Session K) :
    hostResult (left session) = hostResult (right session) := by
  have hsame := congrArg hostResult (h.same (rfl : session.quiet = session.quiet))
  rw [hostResult_quiet, hostResult_quiet] at hsame
  exact hsame

theorem symm (h : Alike left right) : Alike right left :=
  ⟨fun hsession => (h.same hsession.symm).symm⟩

theorem trans (h : Alike left work) (h' : Alike work right) : Alike left right :=
  ⟨fun hsession => (h.same rfl).trans (h'.same hsession)⟩

/-- It is enough to look at sessions with the same parts and any two records of events. -/
theorem of_parts (h : ∀ memo schedule pops host events events',
    quietResult (left ⟨memo, schedule, pops, events, host⟩)
      = quietResult (right ⟨memo, schedule, pops, events', host⟩)) : Alike left right := by
  refine ⟨?_⟩
  rintro ⟨memo, schedule, pops, events, host⟩ ⟨memo', schedule', pops', events', host'⟩ hsession
  cases hsession
  exact h memo schedule pops host events events'

theorem pure (a : α) : Alike (Pure.pure a : Run K α) (Pure.pure a) :=
  .of_parts fun _ _ _ _ _ _ => rfl

theorem throw (halt : Halt S) : Alike (MonadExcept.throw halt : Run K α) (MonadExcept.throw halt) :=
  .of_parts fun _ _ _ _ _ _ => rfl

/-- Computations go on alike if they do from the values that the first one can give. -/
theorem bind_map {γ : Type} {first : Run K γ} {value : γ → α} {next : α → Run K β}
    {next' : γ → Run K β} (h : Alike left (do return value (← first)))
    (hnext : ∀ c, Alike (next (value c)) (next' c)) : Alike (left >>= next) (first >>= next') := by
  refine ⟨?_⟩
  intro session session' hsession
  have hsame := h.same hsession
  cases hfirst : first session' with
  | ok c last' =>
    have hvalue : (do return value (← first) : Run K α) session' = .ok (value c) last' :=
      bind_of_ok hfirst
    rw [hvalue] at hsame
    obtain ⟨last, hleft, hlast⟩ := eq_ok_of_quietResult hsame
    rw [bind_of_ok hleft, bind_of_ok hfirst]
    exact (hnext c).same hlast
  | error halt last' =>
    have hvalue : (do return value (← first) : Run K α) session' = .error halt last' :=
      bind_of_error hfirst
    rw [hvalue] at hsame
    obtain ⟨last, hleft, hlast⟩ := eq_error_of_quietResult hsame
    rw [bind_of_error hleft, bind_of_error hfirst]
    exact congrArg (EStateM.Result.error halt) hlast

/-- **Alike computations go on alike.** -/
theorem bind {next next' : α → Run K β} (h : Alike left right)
    (hnext : ∀ a, Alike (next a) (next' a)) : Alike (left >>= next) (right >>= next') := by
  have hmap : Alike left (do return id (← right)) := by
    simp only [id, bind_pure]
    exact h
  exact bind_map hmap hnext

/-- An event more makes no difference. -/
theorem tell {next : Unit → Run K α} (event : Event) (h : Alike (next ()) right) :
    Alike (Run.tell event >>= next) right := by
  refine ⟨?_⟩
  rintro ⟨memo, schedule, pops, events, host⟩ session' hsession
  have hquiet : (⟨memo, schedule, pops, events.push event, host⟩ : Session K).quiet
      = session'.quiet := hsession
  exact h.same hquiet

/-- **A span makes no difference.** -/
theorem inside (span : Span) (h : Alike left right) : Alike (Run.inside span left) right := by
  refine ⟨?_⟩
  intro session session' hsession
  have hquiet : (session.told (.enter span)).quiet = session'.quiet := hsession
  have hsame := h.same hquiet
  rw [Run.inside_eq]
  rw [← hsame]
  cases left (session.told (.enter span)) with
  | ok a last => rfl
  | error halt last => rfl

/-! ## 2. The steps of a run -/

theorem naming (steps : Naming α) : Alike (Run.naming steps : Run K α) (Run.naming steps) :=
  .of_parts fun _ _ _ _ _ _ => rfl

theorem building (steps : Building S α) :
    Alike (Run.building steps : Run K α) (Run.building steps) := by
  refine .of_parts ?_
  intro memo schedule pops host events events'
  cases h : steps memo.next with
  | ok made =>
    rw [Run.building_of_ok h, Run.building_of_ok h]
    rfl
  | error halt =>
    rw [Run.building_of_error h, Run.building_of_error h]
    rfl

theorem except (result : Except (Halt S) α) :
    Alike (Run.except result : Run K α) (Run.except result) := by
  cases result with
  | ok a => exact pure a
  | error halt => exact throw halt

theorem pop (frames : Sequence (Frame S)) : Alike (Run.pop frames : Run K _) (Run.pop frames) :=
  .of_parts fun _ _ _ _ _ _ => rfl

theorem kept (place : Nat) (expected : S.Ty) :
    Alike (Run.kept place expected : Run K _) (Run.kept place expected) := by
  unfold Run.kept
  split
  · split
    · exact pure _
    · exact throw _
  · exact throw _

theorem observe (callback : Callback S) :
    Alike (Run.observe callback : Run K Unit) (Run.observe callback) :=
  .of_parts fun _ _ _ _ _ _ => rfl

/-- A computation of the host does not see the events. -/
theorem hosted (work : Hosted K α) : Alike (Run.hosted work) (Run.hosted work) := by
  refine .of_parts ?_
  intro memo schedule pops host events events'
  unfold Run.hosted
  cases work host with
  | ok a host => rfl
  | error halt host => rfl

end Alike

end Run

open Run (Alike)

theorem Frame.apply_alike (value : Packed S) (frame : Frame S) :
    Alike (frame.apply value : Run K (Code S)) (frame.apply value) := by
  cases frame with
  | bind provenance input function =>
    rw [Frame.apply]
    exact (Alike.except _).bind fun argument =>
      (Alike.observe _).bind fun _ => .building (function argument)
  | expect result =>
    rw [Frame.apply]
    exact (Alike.except _).bind fun answer => .pure _
  | decode result function =>
    rw [Frame.apply]
    exact (Alike.observe _).bind fun _ => (Alike.except _).bind fun decoded => .pure _
  | kept place result =>
    rw [Frame.apply]
    exact (Alike.observe _).bind fun _ => .kept place result

theorem Code.append_alike (code : Code S) (frames : Sequence (Frame S)) :
    Alike (liftM (code.append frames) : Run K (Code S)) (liftM (code.append frames)) :=
  Alike.naming (code.append frames)

theorem Waiting.answer_alike (waiting : Waiting S) (answer : Packed S) :
    Alike (waiting.answer answer : Run K (Code S)) (waiting.answer answer) :=
  (Frame.apply_alike answer waiting.frame).bind fun code => code.append_alike waiting.pending

theorem Code.advance_alike (turns : Nat) (code : Code S) :
    Alike (code.advance turns : Run K (Stop S)) (code.advance turns) := by
  induction turns generalizing code with
  | zero => exact .throw .exhausted
  | succ turns ih =>
    obtain ⟨node, frames⟩ := code
    cases node with
    | ask effect frame => exact .pure _
    | value value =>
      rw [Code.advance]
      refine (Alike.pop frames).bind ?_
      intro popped
      cases popped with
      | none => exact .pure _
      | some popped =>
        obtain ⟨frame, rest⟩ := popped
        exact (Frame.apply_alike value frame).bind fun code =>
          (code.append_alike rest).bind fun code => ih code

end FreePrograms
