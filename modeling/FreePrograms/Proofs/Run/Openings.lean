/-
# What happens first

A host that keeps a journal notes the functions of a program before they are applied, and the
references to kept programs before they are followed.  If the functions that it hands in note the
effects that they are given, the journal tells what a run did, and in which order.  Here it is asked
what comes first.

A code that starts with an effect asks for it.  One that starts with a value applies its first
frame, if there is one, and otherwise does nothing (`Code.Opens`).  To advance is the first thing
that every interpreter does, so whatever interpreter the code is given to, that is how its journal
goes on (`Interpreter.Notes.begins`).

What comes later is not said, except that the journal only grows (`Pact.journal`).
-/
import FreePrograms.Proofs.Run.Interpreters
import FreePrograms.Proofs.Tree.Settles

namespace FreePrograms

variable {S : Signature} {K : Host S} {type : S.Ty} {Failure α β N M R : Type}

/-! ## 1. Journals -/

/-- What the host noted so far. -/
def Session.journal (session : Session K.noting) : List (Happening S) := session.host.2

/-- Two sides that are equal; the journal of the first one has come no less far. -/
def Pact.journal (K : Host S) : Pact K.noting K.noting where
  allowed _ := True
  spoilt _ _ := False
  hosts _ s t := s = t
  breaks _ _ := False
  since t s := t.2 <+: s.2
  hosts_mono _ h := h
  hosts_observe callback h := congrArg (K.noting.observe callback) h
  breaks_observe h _ := h.elim
  since_hosts h := h ▸ List.prefix_refl _
  since_observe callback h := h.trans (List.prefix_append _ [Happening.applied callback])

/-- Computations that only add to the journal. -/
abbrev Run.Grows (good : α → Prop) (work : Run K.noting α) : Prop := (Pact.journal K).Grows good work

theorem Run.grows_iff {good : α → Prop} {work : Run K.noting α} :
    work.Grows good ↔ ∀ session, session.journal <+: (Run.last (work session)).journal ∧
      ∀ a last, work session = .ok a last → good a := by
  constructor
  · intro h session
    have hgrows := h session.host session (List.prefix_refl session.journal)
    cases hwork : work session with
    | ok a last =>
      rw [hwork] at hgrows
      exact ⟨hgrows.1, fun b final heq => by cases heq; exact hgrows.2⟩
    | error halt last =>
      rw [hwork] at hgrows
      exact ⟨hgrows, fun b final heq => by cases heq⟩
  · intro h t session hsince
    obtain ⟨hgrows, hvalue⟩ := h session
    cases hwork : work session with
    | ok a last =>
      rw [hwork] at hgrows
      exact ⟨List.IsPrefix.trans hsince hgrows, hvalue a last hwork⟩
    | error halt last =>
      rw [hwork] at hgrows
      exact List.IsPrefix.trans hsince hgrows

/-- The journal goes on with the given happening, or is the same if none is given. -/
def Session.GoesOn (session : Session K.noting) (first : Option (Happening S))
    (last : Session K.noting) : Prop :=
  match first with
  | none => last.journal = session.journal
  | some happening => session.journal ++ [happening] <+: last.journal

/-- What was added to the journal begins so. -/
theorem Session.GoesOn.exists_added {session last : Session K.noting}
    {first : Option (Happening S)} (h : session.GoesOn first last) :
    ∃ happened, last.journal = session.journal ++ happened ∧ happened.head? = first := by
  cases first with
  | none =>
    refine ⟨[], ?_, rfl⟩
    rw [List.append_nil]
    exact h
  | some happening =>
    obtain ⟨later, hlater⟩ := h
    refine ⟨happening :: later, ?_, rfl⟩
    rw [← hlater, List.append_assoc]
    rfl

/-- On the session, the first thing that the work adds to the journal is the given one, and it adds
nothing if none is given; and the given holds of its value. -/
structure Run.BeginsOn (session : Session K.noting) (first : Option (Happening S))
    (good : α → Prop) (work : Run K.noting α) : Prop where
  journal : session.GoesOn first (Run.last (work session))
  value {last : Session K.noting} {a : α} : work session = .ok a last → good a

/-- It is so on every session. -/
def Run.Begins (first : Option (Happening S)) (good : α → Prop) (work : Run K.noting α) : Prop :=
  ∀ session, work.BeginsOn session first good

namespace Run.BeginsOn

variable {session : Session K.noting} {first : Option (Happening S)} {good : α → Prop}
  {good' : β → Prop} {work : Run K.noting α} {next : α → Run K.noting β}

/-- The first of two computations is done, and nothing was noted. -/
theorem of_ok {last : Session K.noting} {a : α} (hwork : work session = .ok a last)
    (hlast : last.journal = session.journal) (hnext : (next a).BeginsOn last first good') :
    (work >>= next).BeginsOn session first good' := by
  obtain ⟨hjournal, hvalue⟩ := hnext
  refine ⟨?_, fun h => hvalue (bind_of_ok hwork ▸ h)⟩
  rw [bind_of_ok hwork]
  unfold Session.GoesOn at hjournal ⊢
  rw [← hlast]
  exact hjournal

/-- Work that fails has no value to say anything of. -/
theorem of_error {halt : Halt S} {last : Session K.noting} (hwork : work session = .error halt last)
    (hjournal : session.GoesOn first last) : work.BeginsOn session first good := by
  refine ⟨?_, fun heq => ?_⟩
  · rw [hwork]
    exact hjournal
  · rw [hwork] at heq
    cases heq

/-- Nothing is noted by two computations that note nothing. -/
theorem bind_none (h : work.BeginsOn session none good)
    (hnext : ∀ a last, good a → (next a).BeginsOn last none good') :
    (work >>= next).BeginsOn session none good' := by
  cases hwork : work session with
  | ok a last =>
    have hlast : last.journal = session.journal := by
      have hjournal := h.journal
      rw [hwork] at hjournal
      exact hjournal
    exact of_ok hwork hlast (hnext a last (h.value hwork))
  | error halt last =>
    have hjournal := h.journal
    rw [hwork] at hjournal
    exact of_error (bind_of_error hwork) hjournal

/-- **What was noted first stays first**, whatever is added. -/
theorem bind_some {happening : Happening S} (h : work.BeginsOn session (some happening) good)
    (hnext : ∀ a, good a → (next a).Grows good') :
    (work >>= next).BeginsOn session (some happening) good' := by
  obtain ⟨hjournal, hvalue⟩ := h
  cases hwork : work session with
  | ok a last =>
    rw [hwork] at hjournal
    obtain ⟨hgrows, hvalue'⟩ := Run.grows_iff.mp (hnext a (hvalue hwork)) last
    refine ⟨?_, fun heq => hvalue' _ _ (bind_of_ok hwork ▸ heq)⟩
    rw [bind_of_ok hwork]
    exact List.IsPrefix.trans hjournal hgrows
  | error halt last =>
    rw [hwork] at hjournal
    exact of_error (bind_of_error hwork) hjournal

theorem inside {span : Span} (h : work.BeginsOn (session.told (.enter span)) first good) :
    (Run.inside span work).BeginsOn session first good := by
  obtain ⟨hjournal, hvalue⟩ := h
  constructor
  · rw [Run.last_inside]
    exact hjournal
  · intro last a heq
    obtain ⟨middle, hwork⟩ := Run.exists_of_inside heq
    exact hvalue hwork

/-- What comes after a span could as well come in it. -/
theorem inside_bind {span : Span}
    (h : (work >>= fun a => Run.tell (.leave span) >>= fun _ => next a).BeginsOn
      (session.told (.enter span)) first good') :
    (Run.inside span work >>= next).BeginsOn session first good' := by
  have hinside := Run.inside_eq span work session
  obtain ⟨hjournal, hvalue⟩ := h
  cases hwork : work (session.told (.enter span)) with
  | ok a last =>
    rw [hwork] at hinside
    rw [bind_of_ok hwork] at hjournal
    refine ⟨?_, fun heq => hvalue ((bind_of_ok hwork).trans (bind_of_ok hinside ▸ heq))⟩
    rw [bind_of_ok hinside]
    exact hjournal
  | error halt last =>
    rw [hwork] at hinside
    rw [bind_of_error hwork] at hjournal
    exact of_error (bind_of_error hinside) hjournal

theorem mono {good' : α → Prop} (h : work.BeginsOn session first good)
    (himp : ∀ a, good a → good' a) : work.BeginsOn session first good' :=
  ⟨h.journal, fun heq => himp _ (h.value heq)⟩

end Run.BeginsOn

namespace Run.Begins

variable {first : Option (Happening S)} {good : α → Prop} {good' : β → Prop} {work : Run K.noting α}

theorem pure {a : α} (h : good a) : (Pure.pure a : Run K.noting α).Begins none good := fun _ =>
  ⟨rfl, fun heq => by cases heq; exact h⟩

theorem throw (halt : Halt S) : (MonadExcept.throw halt : Run K.noting α).Begins none good :=
  fun _ => ⟨rfl, fun heq => by cases heq⟩

theorem tell (event : Event) : (Run.tell event : Run K.noting Unit).Begins none Any := fun _ =>
  ⟨rfl, fun _ => trivial⟩

theorem except (result : Except (Halt S) α) : (Run.except result : Run K.noting α).Begins none Any :=
  match result with
  | .ok _ => pure trivial
  | .error halt => throw halt

theorem observe (callback : Callback S) :
    (Run.observe callback : Run K.noting Unit).Begins (some (.applied callback)) Any := fun _ =>
  ⟨List.prefix_refl _, fun _ => trivial⟩

theorem bind_none {next : α → Run K.noting β} (h : work.Begins none good)
    (hnext : ∀ a, good a → (next a).Begins none good') : (work >>= next).Begins none good' :=
  fun session => (h session).bind_none fun a last ha => hnext a ha last

theorem bind_some {happening : Happening S} {next : α → Run K.noting β}
    (h : work.Begins (some happening) good) (hnext : ∀ a, good a → (next a).Grows good') :
    (work >>= next).Begins (some happening) good' :=
  fun session => (h session).bind_some hnext

theorem inside (span : Span) (h : work.Begins first good) :
    (Run.inside span work).Begins first good :=
  fun session => (h (session.told (.enter span))).inside

/-- Whatever comes first, the journal grows. -/
theorem grows (h : work.Begins first good) : work.Grows good := by
  refine Run.grows_iff.mpr fun session => ?_
  obtain ⟨hjournal, hvalue⟩ := h session
  refine ⟨?_, fun a last => hvalue⟩
  cases first with
  | none => exact (Eq.symm hjournal) ▸ List.prefix_refl _
  | some happening => exact (List.prefix_append _ [happening]).trans hjournal

end Run.Begins

/-! ## 2. Codes -/

/-- A frame that takes the value, and what the host notes of that: the function of a bind whose input
is of the type of the value, or a reference. -/
inductive Frame.Calls : Frame S → Packed S → Callback S → Prop
  | bind (provenance : Provenance) {a : S.Ty} (value : S.El a)
    (function : S.El a → Cell → Except (Halt S) (Code S × Cell)) :
    Calls (.bind provenance a function) ⟨a, value⟩ (.bind provenance ⟨a, value⟩)
  | kept (place : Nat) (result : S.Ty) (value : Packed S) :
    Calls (.kept place result) value (.kept place)

/-- What a code does first: it asks for the effect that it starts with, it applies the first frame
to the value that it starts with, or nothing is left to do. -/
inductive Code.Opens : Code S → Option (Happening S) → Prop
  | done {value : Packed S} {frames : Sequence (Frame S)} (empty : frames.toList = []) :
    Opens (.mk (.value value) frames) none
  | asks (effect : S.Effect) (frame : Frame S) (frames : Sequence (Frame S)) :
    Opens (.mk (.ask effect frame) frames) (some (.handled effect))
  | applies {value : Packed S} {frame : Frame S} {callback : Callback S}
    {frames : Sequence (Frame S)} {rest : List (Frame S)} (calls : frame.Calls value callback)
    (first : frames.toList = frame :: rest) :
    Opens (.mk (.value value) frames) (some (.applied callback))

/-- **A frame that takes the value is noted first.** -/
theorem Frame.Calls.begins {frame : Frame S} {value : Packed S} {callback : Callback S}
    (h : frame.Calls value callback) :
    (frame.apply value : Run K.noting (Code S)).Begins (some (.applied callback)) Any := by
  cases h with
  | bind provenance value function =>
    rw [Frame.bind_apply]
    exact (Run.Begins.observe _).bind_some fun _ _ =>
      (Pact.journal K).growing.building (function value)
  | kept place result =>
    rw [Frame.apply]
    exact (Run.Begins.observe _).bind_some fun _ _ => (Pact.journal K).growing.kept place result

/-- **To advance is to do that first**, and to go on from the value or with the effect. -/
theorem Code.Opens.advance {code : Code S} {first : Option (Happening S)} (h : code.Opens first)
    {ledger : Ledger (Frame S)} (sound : code.frames.Sound ledger) {session : Session K.noting}
    (agrees : session.memo.Agrees ledger) {good : α → Prop} {next : Stop S → Run K.noting α}
    (finished : ∀ value, (next (.finished value)).Begins none good)
    (waiting : ∀ waiting, (next (.waiting waiting)).Begins (some (.handled waiting.effect)) good)
    (turns : Nat) : (code.advance (turns + 1) >>= next).BeginsOn session first good := by
  have hgrows : ∀ stop, Any stop → (next stop).Grows good := by
    intro stop _
    cases stop with
    | finished value => exact (finished value).grows
    | waiting stopped => exact (waiting stopped).grows
  cases h with
  | @done value frames hframes =>
    have hsound : frames.Sound ledger := sound
    obtain ⟨later, popped, session', -, -, hhost, hpop, hsplits⟩ := Run.pop_eq hsound agrees
    rw [hframes] at hsplits
    cases hsplits
    rw [Code.advance, bind_assoc]
    exact .of_ok hpop (congrArg Prod.snd hhost) (finished value session')
  | asks effect frame frames => exact waiting ⟨effect, frame, frames⟩ session
  | @applies value frame callback frames rest calls hframes =>
    have hsound : frames.Sound ledger := sound
    obtain ⟨later, popped, session', -, -, hhost, hpop, hsplits⟩ := Run.pop_eq hsound agrees
    rw [hframes] at hsplits
    cases hsplits with
    | @cons _ pending _ =>
      rw [Code.advance, bind_assoc]
      refine .of_ok hpop (congrArg Prod.snd hhost) ?_
      rw [bind_assoc]
      refine (calls.begins session').bind_some fun code _ => ?_
      refine Pact.Grows.bind ?_ hgrows
      exact (Pact.Grows.append code pending).bind fun code _ => Pact.Grows.advance turns code

/-! ## 3. Interpreters -/

/-- Each effect that is rendered is noted first, and the result is rendered without a note.  Of what
is rendered the given holds. -/
structure Rendering.Notes (rendering : Rendering K.noting type N M) (first : N → Prop)
    (last : M → Prop) : Prop where
  effect (effect : S.Effect) :
    (rendering.effect effect).Begins (some (.handled effect)) first
  result (value : S.El type) : (rendering.result value).Begins none last

/-- The functions of the interpreter note each effect when they are given it, note nothing when they
are given the final value, and otherwise do with the journal what they like, as long as it only
grows. -/
inductive Interpreter.Notes (turns : Nat) : {R : Type} → Interpreter K.noting type R → Prop
  | tryRun {Failure : Type} {handler : Handler K.noting Failure}
    (handles : ∀ effect, (handler effect).Begins (some (.handled effect)) Any) :
    Notes turns (.tryRun handler)
  | run {handler : S.Effect → Run K.noting (Packed S)}
    (handles : ∀ effect, (handler effect).Begins (some (.handled effect)) Any) :
    Notes turns (.run handler)
  | fold {N M : Type} {first : N → Prop} {last : M → Prop} {rendering : Rendering K.noting type N M}
    {combine : N → (Packed S → Run K.noting M) → Run K.noting M}
    (renders : rendering.Notes first last)
    (combines : ∀ {effect rest}, first effect → (∀ answer, (rest answer).Grows last) →
      (combine effect rest).Grows last) :
    Notes turns (.fold rendering combine)
  | steps {N M : Type} {first : N → Prop} {last : M → Prop}
    {rendering : Rendering K.noting type N M} {force : N → Run K.noting (Packed S)}
    (renders : rendering.Notes first last)
    (forces : ∀ {effect}, first effect → (force effect).Grows Any) :
    Notes turns (.steps rendering force)
  | drive {N M R : Type} {first : N → Prop} {last : M → Prop}
    {rendering : Rendering K.noting type N M} {driver : Step K.noting N M → Run K.noting R}
    (renders : rendering.Notes first last)
    (drives : ∀ {step}, (Pact.journal K).growing.Goes first last turns step →
      (driver step).Grows Any)
    (concludes : ∀ value, last value → (driver (.done value)).Begins none Any) :
    Notes turns (.drive rendering driver)
  | defer {render : S.Effect → Run K.noting (Deferred K.noting (Packed S))}
    (renders : ∀ effect, (render effect).Begins (some (.handled effect)) fun deferred =>
      deferred.force.Grows Any) :
    Notes turns (.defer render)

section Interpreters

variable {code : Code S} {program : Program S type} {opening : Option (Happening S)}
  {ledger : Ledger (Frame S)} {session : Session K.noting} {first : N → Prop} {last : M → Prop}
  {rendering : Rendering K.noting type N M}

/-- To go on from where the code came to. -/
theorem Code.Opens.reach (h : code.Opens opening) (sound : code.frames.Sound ledger)
    (agrees : session.memo.Agrees ledger) {good : α → Prop} {next : Reached S type → Run K.noting α}
    (result : ∀ value, (next (.result value)).Begins none good)
    (asking : ∀ waiting, (next (.asking waiting)).Begins (some (.handled waiting.effect)) good)
    (turns : Nat) : (code.reach type (turns + 1) >>= next).BeginsOn session opening good := by
  rw [Code.reach, bind_assoc]
  refine h.advance sound agrees ?_ ?_ turns
  · intro value
    rw [bind_assoc]
    exact (Run.Begins.except _).bind_none fun value _ => result value
  · exact asking

/-- A run with a handler. -/
theorem Code.Opens.tryRunIn (h : program.code.Opens opening)
    (sound : program.code.frames.Sound ledger) (agrees : session.memo.Agrees ledger)
    {handler : Handler K.noting Failure}
    (handles : ∀ effect, (handler effect).Begins (some (.handled effect)) Any) (turns : Nat) :
    (program.tryRunIn (turns + 2) handler).BeginsOn session opening Any := by
  have hhandler : ∀ effect, (handler effect).Grows Any := fun effect => (handles effect).grows
  have hunpacked : ∀ result : Except Failure (Packed S),
      (Program.unpacked type result : Run K.noting _).Begins none Any := by
    intro result
    cases result with
    | ok value => exact (Run.Begins.except _).bind_none fun _ _ => .pure trivial
    | error failure => exact .pure trivial
  rw [Program.tryRunIn_eq, Code.handle_succ, bind_assoc]
  have hentered : (session.told (.enter .run)).memo.Agrees ledger := agrees
  refine .inside (h.advance sound hentered ?_ ?_ turns)
  · intro value
    rw [Code.serve, bind_assoc]
    refine (Run.Begins.tell _).bind_none fun _ _ => ?_
    rw [pure_bind]
    exact hunpacked (.ok value)
  · intro waiting
    rw [Code.serve, bind_assoc]
    refine (handles waiting.effect).bind_some fun result _ => ?_
    cases result with
    | ok answer =>
      rw [bind_assoc]
      refine (Pact.Grows.answer waiting answer).bind fun code _ => ?_
      exact (Pact.Grows.handle hhandler _ _ code).bind fun result _ => (hunpacked result).grows
    | error failure =>
      rw [bind_assoc]
      refine (Pact.Grows.tell _).bind fun _ _ => ?_
      rw [pure_bind]
      exact (hunpacked (.error failure)).grows

/-- A run with a handler that answers every effect. -/
theorem Code.Opens.runIn (h : program.code.Opens opening)
    (sound : program.code.frames.Sound ledger) (agrees : session.memo.Agrees ledger)
    {handler : S.Effect → Run K.noting (Packed S)}
    (handles : ∀ effect, (handler effect).Begins (some (.handled effect)) Any) (turns : Nat) :
    (program.runIn (turns + 2) handler).BeginsOn session opening Any := by
  have hanswering : ∀ effect, (answering handler effect :
      Run K.noting (Except Empty (Packed S))).Begins (some (.handled effect)) Any :=
    fun effect => (handles effect).bind_some fun _ _ => Pact.Grows.pure trivial
  have haccepted : ∀ result : Except Empty (S.El type),
      (Program.accepted result : Run K.noting _).Begins none Any := by
    intro result
    cases result with
    | ok value => exact .pure trivial
    | error failure => cases failure
  rw [Program.runIn_eq]
  have hrun := h.tryRunIn sound agrees hanswering turns
  cases opening with
  | none => exact hrun.bind_none fun result last _ => haccepted result last
  | some happening => exact hrun.bind_some fun result _ => (haccepted result).grows

/-- A fold. -/
theorem Code.Opens.fold (h : code.Opens opening) (sound : code.frames.Sound ledger)
    (agrees : session.memo.Agrees ledger) (renders : rendering.Notes first last)
    {combine : N → (Packed S → Run K.noting M) → Run K.noting M}
    (combines : ∀ {effect rest}, first effect → (∀ answer, (rest answer).Grows last) →
      (combine effect rest).Grows last) (turns : Nat) :
    (code.fold rendering combine (turns + 2)).BeginsOn session opening last := by
  have hfold := (Pact.journal K).growing.fold (fun effect => (renders.effect effect).grows)
    (fun value => (renders.result value).grows) combines (turns + 1)
  rw [Code.fold_succ]
  refine h.reach sound agrees renders.result ?_ turns
  intro waiting
  refine (renders.effect waiting.effect).bind_some fun effect hfirst => ?_
  exact combines hfirst fun answer => (Pact.Grows.answer waiting answer).bind fun code _ =>
    hfold code

/-- A fold into steps, and what is done with the first of them. -/
theorem Code.Opens.steps (h : code.Opens opening) (sound : code.frames.Sound ledger)
    (agrees : session.memo.Agrees ledger) (renders : rendering.Notes first last) {good : R → Prop}
    {next : Step K.noting N M → Run K.noting R} {turns : Nat}
    (done : ∀ value, last value → (next (.done value)).Begins none good)
    (grows : ∀ {step}, (Pact.journal K).growing.Goes first last (turns + 2) step →
      (next step).Grows good) :
    (code.steps rendering (turns + 2) >>= next).BeginsOn session opening good := by
  have hsteps := (Pact.journal K).growing.steps (fun effect => (renders.effect effect).grows)
    (fun value => (renders.result value).grows) (turns + 1)
  rw [Code.steps_eq, bind_assoc]
  refine h.reach sound agrees ?_ ?_ turns
  · intro value
    rw [Reached.steps, bind_assoc]
    refine (renders.result value).bind_none fun value hlast => ?_
    rw [pure_bind]
    exact done value hlast
  · intro waiting
    rw [Reached.steps, bind_assoc]
    refine (renders.effect waiting.effect).bind_some fun effect hfirst => ?_
    rw [pure_bind]
    refine grows ⟨hfirst, fun answer => ?_⟩
    exact (Pact.Grows.answer waiting answer).bind fun code _ => hsteps code

/-- The last step is driven without a note. -/
theorem Step.runIn_done (last : M → Prop) {value : M} (h : last value)
    (force : N → Run K.noting (Packed S)) (turns : Nat) :
    ((Step.done value).runIn (turns + 1) force).Begins none last :=
  .inside .steps ((Run.Begins.tell _).bind_none fun _ _ => .pure h)

theorem Pact.Grows.runIn {force : N → Run K.noting (Packed S)}
    (forces : ∀ {effect}, first effect → (force effect).Grows Any) {times turns : Nat}
    {step : Step K.noting N M} (h : (Pact.journal K).growing.Goes first last times step) :
    (step.runIn turns force).Grows last :=
  .inside .steps (.drive forces turns 0 h)

/-- What is deferred to the end of the steps, once they are there. -/
theorem Deferred.ofStepsIn_done {deferred : Deferred K.noting α}
    (h : deferred.force.Begins none Any) (turns : Nat) :
    (Deferred.ofStepsIn (turns + 1) (.done deferred)).force.Begins none Any := by
  let step : Step K.noting (Deferred K.noting (Packed S)) (Deferred K.noting α) := .done deferred
  have hdriven : (step.runIn (turns + 1) Deferred.force).Begins none
      fun deferred => deferred.force.Begins none Any :=
    Step.runIn_done (fun deferred : Deferred K.noting α => deferred.force.Begins none Any) h
      Deferred.force turns
  exact hdriven.bind_none fun deferred hforce => hforce

/-- A fold into one deferred computation, which is forced. -/
theorem Code.Opens.deferIn (h : program.code.Opens opening)
    (sound : program.code.frames.Sound ledger) (agrees : session.memo.Agrees ledger)
    {render : S.Effect → Run K.noting (Deferred K.noting (Packed S))}
    (renders : ∀ effect, (render effect).Begins (some (.handled effect)) fun deferred =>
      deferred.force.Grows Any) (turns : Nat) :
    (do (← program.deferIn (turns + 2) render).force : Run K.noting (S.El type)).BeginsOn session
      opening Any := by
  -- The result is there already, so to force it is nothing to note.
  let rendering : Rendering K.noting type (Deferred K.noting (Packed S))
      (Deferred K.noting (S.El type)) := ⟨render, fun value => return .now value⟩
  have hrenders : rendering.Notes (fun deferred => deferred.force.Grows Any)
      (fun deferred => deferred.force.Begins none Any) :=
    ⟨renders, fun _ => .pure (.pure trivial)⟩
  have hentered : (session.told (.enter .drive)).memo.Agrees ledger := agrees
  refine .inside_bind ?_
  rw [bind_assoc]
  simp only [pure_bind]
  refine h.steps sound hentered hrenders ?_ ?_
  · intro deferred hlast
    refine (Run.Begins.tell _).bind_none fun _ _ => ?_
    exact Deferred.ofStepsIn_done hlast (turns + 1)
  · intro step hstep
    refine (Pact.Grows.tell _).bind fun _ _ => ?_
    exact (Pact.Grows.runIn (fun h => h) hstep).bind fun deferred hforce => hforce.grows

/-- **Whatever interpreter a program is given to**, what its code does first is the first thing that
is noted. -/
theorem Interpreter.Notes.begins {turns : Nat} {interpreter : Interpreter K.noting type R}
    (h : interpreter.Notes (turns + 2)) (opens : program.code.Opens opening)
    (sound : program.code.frames.Sound ledger) (agrees : session.memo.Agrees ledger) :
    (interpreter.carryOut (turns + 2) program).BeginsOn session opening Any := by
  cases h with
  | tryRun handles => exact opens.tryRunIn sound agrees handles turns
  | run handles => exact opens.runIn sound agrees handles turns
  | fold renders combines =>
    exact (opens.fold sound agrees renders combines turns).mono fun _ _ => trivial
  | @steps _ _ _ last rendering force renders forces =>
    have hsteps : Run.BeginsOn session opening last
        (do (← program.stepsIn (turns + 2) rendering).runIn (turns + 2) force) :=
      opens.steps sound agrees renders (fun _ hlast => Step.runIn_done last hlast _ (turns + 1))
        fun hstep => .runIn forces hstep
    exact hsteps.mono fun _ _ => trivial
  | drive renders drives concludes =>
    have hentered : (session.told (.enter .drive)).memo.Agrees ledger := agrees
    exact .inside (opens.steps sound hentered renders concludes drives)
  | defer renders => exact opens.deferIn sound agrees renders turns

end Interpreters

/-! ## 4. Functions that note effects -/

/-- What answers effects out of the state of the host notes each effect, when it keeps a journal. -/
theorem Hosted.noting_begins (effect : S.Effect) (work : Hosted K α) :
    (Run.hosted (work.noting effect)).Begins (some (.handled effect)) Any := by
  intro session
  refine ⟨?_, fun _ => trivial⟩
  have hjournal : (Run.last (Run.hosted (work.noting effect) session)).journal
      = session.journal ++ [.handled effect] := by
    obtain ⟨memo, schedule, pops, events, state, journal⟩ := session
    cases hwork : work state with
    | ok a last =>
      have hnoting : work.noting effect (state, journal)
          = .ok a (last, journal ++ [.handled effect]) := by
        rw [Hosted.noting, hwork]
      rw [Run.hosted, hnoting]
      rfl
    | error halt last =>
      have hnoting : work.noting effect (state, journal)
          = .error halt (last, journal ++ [.handled effect]) := by
        rw [Hosted.noting, hwork]
      rw [Run.hosted, hnoting]
      rfl
  exact ⟨[], (List.append_nil _).trans hjournal.symm⟩

end FreePrograms
