/-
# What is told, in order

Events are only ever told at the end of the record of a session.  So what a piece of work told is a
list of events (`Session.Adds`), and what may be said of such lists is a `Manner` if it is so of no
events and of one list after another.

`Orderly` is the manner of runs: spans are entered and left in pairs, one inside another or one
after another, and what ends a span is told at most once, of its own kind, when all that was entered
inside is left and last of all before the span is left.  Such events can be followed with a stack of
the spans that are open (`Orderly.follow_eq`).

To tell in a manner is a `Habit` (`telling`): the steps of a code tell nothing by themselves
(`Code.advance_adds`, `Waiting.answer_adds`), and folds tell no more than the functions that are
handed in.
-/
import FreePrograms.Proofs.Run.Calls

namespace FreePrograms

variable {S : Signature} {K : Host S} {type : S.Ty} {α β N M Failure : Type}

/-! ## 1. Lists of events -/

/-- Whether an event tells the end of a span of this kind. -/
def Span.ends : Span → Event → Bool
  | .run, .programFinished _ | .run, .handlerFailed _ | .steps, .stepsFinished _ => true
  | _, _ => false

/-- Spans are entered and left in pairs, and at most one end is told in each: one of its kind, last
of all before it is left. -/
inductive Orderly : List Event → Prop
  | nil : Orderly []
  | append {first second : List Event} (left : Orderly first) (right : Orderly second) :
    Orderly (first ++ second)
  | span (span : Span) {inside : List Event} {ending : Option Event} (inner : Orderly inside)
    (ends : ∀ event ∈ ending, span.ends event = true) :
    Orderly (.enter span :: (inside ++ ending.toList ++ [.leave span]))

/-- What is open after an event: the spans, innermost first, each with whether its end was told.
There is nothing that may come after an end but that its span is left, and only the innermost span
can be left. -/
def Event.follow : List (Span × Bool) → Event → Option (List (Span × Bool))
  | (_, true) :: _, .enter _ => none
  | spans, .enter span => some ((span, false) :: spans)
  | (inner, _) :: spans, .leave span => if inner = span then some spans else none
  | (inner, false) :: spans, event =>
    if inner.ends event then some ((inner, true) :: spans) else none
  | _, _ => none

@[simp] theorem Event.follow_leave (span : Span) (ended : Bool) (spans : List (Span × Bool)) :
    Event.follow ((span, ended) :: spans) (.leave span) = some spans := by
  cases ended <;> simp [Event.follow]

/-- **Events in order can be followed**, and leave open what was open before. -/
theorem Orderly.follow_eq {told : List Event} (h : Orderly told) {spans : List (Span × Bool)}
    (hopen : ∀ span, spans.head? ≠ some (span, true)) :
    told.foldlM Event.follow spans = some spans := by
  induction h generalizing spans with
  | nil => rfl
  | append _ _ left right =>
    rw [List.foldlM_append, left hopen]
    exact right hopen
  | @span span inside ending _ ends inner =>
    have henter : Event.follow spans (.enter span) = some ((span, false) :: spans) := by
      match spans, hopen with
      | [], _ => rfl
      | (_, false) :: _, _ => rfl
      | (outer, true) :: _, hopen => exact absurd rfl (hopen outer)
    have hinside : inside.foldlM Event.follow ((span, false) :: spans) =
        some ((span, false) :: spans) := inner (by simp)
    rw [List.foldlM_cons, henter, Option.bind_eq_bind, Option.bind_some, List.append_assoc,
      List.foldlM_append, hinside, Option.bind_eq_bind, Option.bind_some]
    cases ending with
    | none => simp
    | some event =>
      have hend : Event.follow ((span, false) :: spans) event = some ((span, true) :: spans) := by
        have hends := ends event rfl
        cases event with
        | enter _ | leave _ => cases span <;> simp [Span.ends] at hends
        | programFinished _ | handlerFailed _ | stepsFinished _ => simp [Event.follow, hends]
      simp [hend]

/-- Something that is said of the events that some work tells. -/
structure Manner where
  Fits : List Event → Prop
  nil : Fits []
  append {first second : List Event} : Fits first → Fits second → Fits (first ++ second)

namespace Manner

/-- No events. -/
def silent : Manner := ⟨fun told => told = [], rfl, by rintro _ _ rfl rfl; rfl⟩

/-- Events in order. -/
def orderly : Manner := ⟨Orderly, .nil, .append⟩

theorem flatMap (manner : Manner) {items : List α} {told : α → List Event}
    (h : ∀ item ∈ items, manner.Fits (told item)) : manner.Fits (items.flatMap told) := by
  induction items with
  | nil => exact manner.nil
  | cons item items ih =>
    rw [List.flatMap_cons]
    exact manner.append (h item List.mem_cons_self)
      (ih fun other hother => h other (List.mem_cons_of_mem item hother))

end Manner

/-! ## 2. Work that tells -/

/-- The later session has these events more than the session, after all others. -/
def Session.Adds (session : Session K) (told : List Event) (last : Session K) : Prop :=
  last.events.toList = session.events.toList ++ told

namespace Session.Adds

variable {session middle last : Session K} {told more : List Event}

theorem refl (session : Session K) : session.Adds [] session := (List.append_nil _).symm

theorem trans (h : session.Adds told middle) (h' : middle.Adds more last) :
    session.Adds (told ++ more) last := by
  unfold Adds at *
  rw [h', h, List.append_assoc]

theorem event (session : Session K) (event : Event) :
    session.Adds [event] (session.told event) := by
  simp [Adds, Session.told]

/-- What was told is what is there beyond the events that were there before. -/
theorem drop_eq (h : session.Adds told last) :
    last.events.toList.drop session.events.size = told := by
  rw [h, ← Array.length_toList, List.drop_left]

/-- A span that is entered and left. -/
theorem span {span : Span} (h : (session.told (.enter span)).Adds told last) :
    session.Adds (.enter span :: (told ++ [.leave span])) (last.told (.leave span)) :=
  ((Adds.event session (.enter span)).trans h).trans (Adds.event last (.leave span))

end Session.Adds

/-- The work tells events of this manner, whether it halts or not, and the given holds of its
value. -/
structure Run.Tells (manner : Manner) (good : α → Prop) (work : Run K α) : Prop where
  adds : ∀ session : Session K,
    ∃ told, manner.Fits told ∧ session.Adds told (Run.last (work session))
  value : ∀ {session last a}, work session = .ok a last → good a

namespace Run.Tells

variable {manner : Manner} {good : α → Prop} {good' : β → Prop} {work : Run K α}

theorem pure {a : α} (h : good a) : Run.Tells manner good (Pure.pure a : Run K α) where
  adds session := ⟨[], manner.nil, .refl session⟩
  value heq := by
    cases heq
    exact h

theorem throw (halt : Halt S) : Run.Tells manner good (MonadExcept.throw halt : Run K α) where
  adds session := ⟨[], manner.nil, .refl session⟩
  value heq := by cases heq

theorem bind {next : α → Run K β} (h : Run.Tells manner good work)
    (hnext : ∀ a, good a → Run.Tells manner good' (next a)) :
    Run.Tells manner good' (work >>= next) where
  adds session := by
    obtain ⟨told, hfits, hadds⟩ := h.adds session
    cases hwork : work session with
    | error halt middle =>
      rw [bind_of_error hwork]
      rw [hwork] at hadds
      exact ⟨told, hfits, hadds⟩
    | ok a middle =>
      rw [bind_of_ok hwork]
      rw [hwork] at hadds
      obtain ⟨more, hfits', hadds'⟩ := (hnext a (h.value hwork)).adds middle
      exact ⟨told ++ more, manner.append hfits hfits', hadds.trans hadds'⟩
  value {session last b} heq := by
    cases hwork : work session with
    | error halt middle =>
      rw [bind_of_error hwork] at heq
      cases heq
    | ok a middle =>
      rw [bind_of_ok hwork] at heq
      exact (hnext a (h.value hwork)).value heq

/-- Work that leaves the record as it is. -/
theorem of_events_eq (h : ∀ session, (Run.last (work session)).events = session.events) :
    Run.Tells manner Any work where
  adds session := ⟨[], manner.nil, by rw [Session.Adds, h session, List.append_nil]⟩
  value _ := trivial

theorem mono {good' : α → Prop} (h : Run.Tells manner good work)
    (himp : ∀ a, good a → good' a) : Run.Tells manner good' work :=
  ⟨h.adds, fun heq => himp _ (h.value heq)⟩

/-- A halt that is caught was told of no less than one that is not. -/
theorem attempt (h : Run.Tells manner good work) : Run.Tells manner Any (Run.attempt work) where
  adds session := by
    have hadds := h.adds session
    unfold Run.attempt
    generalize work session = result at hadds
    cases result with
    | ok a last => exact hadds
    | error halt last => exact hadds
  value _ := trivial

theorem hosted (work : Hosted K α) : Run.Tells manner Any (Run.hosted work) := by
  refine .of_events_eq fun session => ?_
  unfold Run.hosted
  cases work session.host with
  | ok a host => rfl
  | error halt host => rfl

end Run.Tells

/-- **To tell in a manner is a habit.** -/
def telling (manner : Manner) : Habit K where
  Holds good work := Run.Tells manner good work
  pure := .pure
  throw := .throw
  bind := .bind
  naming _ := .of_events_eq fun _ => rfl
  building steps := by
    refine .of_events_eq fun session => ?_
    cases h : steps session.memo.next with
    | ok made =>
      rw [Run.building_of_ok h]
      rfl
    | error halt =>
      rw [Run.building_of_error h]
      rfl
  pop _ := .of_events_eq fun _ => rfl
  observe _ := .of_events_eq fun _ => rfl

/-- To advance tells nothing. -/
theorem Code.advance_adds {turns : Nat} {code : Code S} {session : Session K}
    {result : EStateM.Result (Halt S) (Session K) (Stop S)}
    (h : code.advance turns session = result) : session.Adds [] (Run.last result) := by
  subst h
  obtain ⟨told, rfl, hadds⟩ := ((telling .silent).advance turns code).adds session
  exact hadds

/-- To answer tells nothing. -/
theorem Waiting.answer_adds {waiting : Waiting S} {answer : Packed S} {session : Session K}
    {result : EStateM.Result (Halt S) (Session K) (Code S)}
    (h : waiting.answer answer session = result) : session.Adds [] (Run.last result) := by
  subst h
  obtain ⟨told, rfl, hadds⟩ := ((telling .silent).answer waiting answer).adds session
  exact hadds

end FreePrograms
