/-
# A fold does no more than it was asked for

A complete run, in which every effect is handled with a prepared answer, is taken apart into its
legs (`Code.Completes`): up to an effect some functions are applied, the effect is handled, some
functions are applied to take the answer, and so on to the final value.

A fold of the same program goes along these legs.  A chain of steps of which so many have their
answers has come to the effect after these, which it translated, and not beyond
(`Code.Completes.follow`).  A deferred computation has come to the first effect before it is forced;
then it handles each effect and translates the next one (`Code.Completes.opens`).
-/
import FreePrograms.Proofs.Run.Watching
import FreePrograms.Proofs.Tree.Machine
import FreePrograms.Proofs.Tree.Ways

namespace FreePrograms

variable {S : Signature} {type : S.Ty} {σ N M α β : Type}
  {kept : Nat → Option ((type : S.Ty) × Program S type)}

open Happening

/-! ## 1. The legs of a complete run -/

/-- The handler that gives the prepared answers. -/
abbrev reciting : S.Effect → Run (Host.watching σ type kept) (Packed S) := onSessions recite

/-- What is seen when an effect is handled with the next answer. -/
def Watch.handling (watch : Watch S type σ) (effect : S.Effect) : Watch S type σ :=
  ⟨watch.own, watch.answers.tail, watch.deeds ++ [.happened (.handled effect)]⟩

/-- A complete run in so many turns, from a session to another, with all that happened and the
value. -/
inductive Code.Completes : Nat → Code S → Session (Host.watching σ type kept) →
    List (Happening S) → S.El type → Session (Host.watching σ type kept) → Prop
  | result {turns : Nat} {code : Code S} {session last : Session (Host.watching σ type kept)}
    {value : S.El type} {before : List (Callback S)}
    (reach : code.reach type turns session = .ok (.result value) last)
    (host : last.host = Watch.applying session.host before) :
    Completes (turns + 1) code session (before.map .applied ++ []) value last
  | answered {turns : Nat} {code next : Code S}
    {session asked onward last : Session (Host.watching σ type kept)} {waiting : Waiting S}
    {answer : Packed S} {answers : List (Packed S)} {value : S.El type}
    {before after : List (Callback S)} {happenings : List (Happening S)}
    (reach : code.reach type turns session = .ok (.asking waiting) asked)
    (host : asked.host = Watch.applying session.host before)
    (prepared : session.host.answers = answer :: answers)
    (taken : waiting.answer answer
        { asked with host := Watch.handling asked.host waiting.effect } = .ok next onward)
    (host' : onward.host = (Watch.handling asked.host waiting.effect).applying after)
    (rest : Completes turns next onward happenings value last) :
    Completes (turns + 1) code session
      (before.map .applied ++ .handled waiting.effect :: (after.map .applied ++ happenings))
      value last

theorem recite_of_cons {effect : S.Effect} {session : Session (Host.watching σ type kept)}
    {answer : Packed S} {answers : List (Packed S)}
    (h : session.host.answers = answer :: answers) :
    reciting effect session
      = .ok answer { session with host := Watch.handling session.host effect } := by
  obtain ⟨memo, schedule, pops, events, own, prepared, deeds⟩ := session
  cases h
  rfl

theorem recite_of_nil {effect : S.Effect} {session : Session (Host.watching σ type kept)}
    (h : session.host.answers = []) : reciting effect session = .error .exhausted session := by
  obtain ⟨memo, schedule, pops, events, own, prepared, deeds⟩ := session
  cases h
  rfl

/-- A habit that goes alike goes so beside itself, and functions were applied. -/
theorem exists_applying {work : Run (Host.watching σ type kept) α} {good : α → Prop}
    (h : (level σ type kept).Holds good work) {session last : Session (Host.watching σ type kept)}
    {a : α} (hwork : work session = .ok a last) :
    ∃ applications, last.host = Watch.applying session.host applications := by
  have halongside := h session session (.refl session)
  rw [hwork] at halongside
  cases halongside with
  | ok applications _ first _ _ => exact ⟨applications, first⟩

/-- **Every complete run has its legs.** -/
theorem Code.completes (turns : Nat) {code : Code S}
    {session last : Session (Host.watching σ type kept)} {value : S.El type}
    (h : code.complete reciting type turns session = .ok value last) :
    ∃ happenings, code.Completes turns session happenings value last := by
  induction turns generalizing code session with
  | zero => cases h
  | succ turns ih =>
    rw [Code.complete_succ] at h
    cases hreach : code.reach type turns session with
    | error halt s =>
      rw [bind_of_error hreach] at h
      cases h
    | ok reached s =>
      rw [bind_of_ok hreach] at h
      obtain ⟨before, hhost⟩ := exists_applying ((level σ type kept).reach turns code) hreach
      cases reached with
      | result value =>
        cases h
        exact ⟨_, .result hreach hhost⟩
      | asking waiting =>
        have hprepared : s.host.answers = session.host.answers := by rw [hhost]; rfl
        rw [Reached.complete] at h
        cases hanswers : session.host.answers with
        | nil =>
          rw [bind_of_error (recite_of_nil (hprepared.trans hanswers))] at h
          cases h
        | cons answer answers =>
          rw [bind_of_ok (recite_of_cons (hprepared.trans hanswers))] at h
          cases htaken : waiting.answer answer
              ({ s with host := Watch.handling s.host waiting.effect } :
                Session (Host.watching σ type kept)) with
          | error halt s' =>
            rw [bind_of_error htaken] at h
            cases h
          | ok next onward =>
            rw [bind_of_ok htaken] at h
            obtain ⟨after, hhost'⟩ :=
              exists_applying ((level σ type kept).answer waiting answer) htaken
            obtain ⟨happenings, hrest⟩ := ih h
            exact ⟨_, .answered hreach hhost hanswers htaken hhost' hrest⟩

/-- All that happened is seen in the end. -/
theorem Code.Completes.deeds_eq {turns : Nat} {code : Code S}
    {session last : Session (Host.watching σ type kept)} {value : S.El type}
    {happenings : List (Happening S)} (h : code.Completes turns session happenings value last) :
    last.host.deeds = session.host.deeds ++ happenings.map .happened := by
  induction h with
  | result _ host =>
    rw [host, List.append_nil]
    rfl
  | answered _ host _ _ host' _ ih =>
    rw [ih, host', host]
    simp only [Watch.applying, Watch.handling, List.map_append, List.map_cons, List.append_assoc,
      List.cons_append, List.nil_append]

/-! ## 2. Along the legs -/

/-- The functions that were applied can be read off what is seen. -/
theorem Watch.applying_inj {watch : Watch S type σ} {first second : List (Callback S)}
    (h : watch.applying first = watch.applying second) : first = second := by
  have hdeeds := List.append_cancel_left (congrArg Watch.deeds h)
  rw [List.map_map, List.map_map] at hdeeds
  exact List.map_inj_right (fun _ _ heq => by cases heq; rfl) |>.mp hdeeds

/-- **A leg is gone on every level session**, where the same functions are applied. -/
theorem Session.Level.along {work : Run (Host.watching σ type kept) α} {good : α → Prop}
    (h : (level σ type kept).Holds good work) {s s' t : Session (Host.watching σ type kept)}
    {a : α} (hlevel : s.Level t) (hwork : work s = .ok a s') {applications : List (Callback S)}
    (hhost : s'.host = Watch.applying s.host applications) :
    ∃ t', work t = .ok a t' ∧ s'.Level t' ∧ t'.host = Watch.applying t.host applications := by
  have halongside := h s t hlevel
  rw [hwork] at halongside
  generalize hother : work t = other at halongside
  cases halongside with
  | @ok _ _ t' applications' hlevel' first second _ =>
    obtain rfl := Watch.applying_inj (hhost.symm.trans first)
    exact ⟨t', rfl, hlevel', second⟩

/-- What comes next depends on what was done only. -/
theorem bind_of_eq {ε τ : Type} {work work' : EStateM ε τ α} {next : α → EStateM ε τ β} {s s' : τ}
    (h : work s = work' s') : (work >>= next) s = (work' >>= next) s' := by
  change EStateM.bind work next s = EStateM.bind work' next s'
  rw [EStateM.bind, EStateM.bind, h]

section Steps

variable {turns : Nat} {code : Code S} {session last t : Session (Host.watching σ type kept)}
  {value : S.El type} {happenings : List (Happening S)}

/-- **A chain of steps of which so many have their answers** has come to the effect after these. -/
theorem Code.Completes.follow (translate : S.Effect → σ → N × σ) (finish : S.El type → σ → M × σ)
    (attend : N → σ → σ) (h : code.Completes turns session happenings value last)
    (hlevel : session.Level t) {count : Nat} (hcount : count ≤ (effects happenings).length) :
    ∃ step final,
      (code.steps (watched kept translate finish) turns >>=
          Step.follow attend (session.host.answers.take count)) t = .ok step final ∧
        final.host.deeds = t.host.deeds ++ rendered count value happenings ∧
        (step.isDone = true ↔ count = (effects happenings).length) := by
  induction h generalizing t count with
  | @result turns code session _ value before reach host =>
    obtain ⟨t', hreach, -, hhost⟩ :=
      hlevel.along ((level σ type kept).reach turns code) reach host
    rw [effects_applied] at hcount ⊢
    obtain rfl : count = 0 := Nat.le_zero.mp hcount
    rw [Code.steps_eq, bind_assoc, bind_of_ok hreach]
    refine ⟨_, _, rfl, ?_, by simp [Step.isDone, effects]⟩
    change t'.host.deeds ++ [.finished value] = _
    rw [hhost, rendered_applied, ← List.append_assoc]
    rfl
  | @answered turns code next session asked onward _ waiting answer answers value before after rest
      reach host prepared taken host' _ ih =>
    obtain ⟨t', hreach, hlevel', hhost⟩ :=
      hlevel.along ((level σ type kept).reach turns code) reach host
    have heffects : effects (before.map .applied ++ .handled waiting.effect ::
        (after.map .applied ++ rest)) = waiting.effect :: effects rest := by
      rw [effects_applied]
      exact congrArg (waiting.effect :: ·) (effects_applied after)
    rw [heffects] at hcount ⊢
    rw [rendered_applied, Code.steps_eq, bind_assoc, bind_of_ok hreach, ← List.append_assoc]
    have hdeeds : t'.host.deeds = t.host.deeds ++ (before.map Happening.applied).map .happened := by
      rw [hhost]
      rfl
    rw [← hdeeds]
    cases count with
    | zero => exact ⟨_, _, rfl, rfl, by simp [Step.isDone]⟩
    | succ count =>
      -- The driver attends to the effect; what it does there leaves the session level.
      let translated := translate waiting.effect t'.host.own
      let attended : Session (Host.watching σ type kept) :=
        { t' with host := ⟨attend translated.1 translated.2, t'.host.answers,
            t'.host.deeds ++ [.translated waiting.effect]⟩ }
      have hattended : Session.Level
          { asked with host := Watch.handling asked.host waiting.effect } attended :=
        ⟨hlevel'.memo, hlevel'.schedule, hlevel'.pops⟩
      obtain ⟨t'', htaken, hlevel'', hhost''⟩ :=
        hattended.along ((level σ type kept).answer waiting answer) taken host'
      obtain ⟨step, final, hfollow, hfinal, hdone⟩ :=
        ih hlevel'' (Nat.le_of_succ_le_succ hcount)
      have hanswers : onward.host.answers = answers := by
        rw [host', Watch.applying, Watch.handling, host, Watch.applying, prepared]
        rfl
      rw [hanswers] at hfollow
      refine ⟨step, final, ?_, ?_, ?_⟩
      · rw [prepared, List.take_succ_cons]
        have hresume : (do (← waiting.answer answer).steps (watched kept translate finish) turns :
            Run (Host.watching σ type kept) _) attended
              = next.steps (watched kept translate finish) turns t'' := bind_of_ok htaken
        exact (bind_of_eq hresume).trans hfollow
      · rw [hfinal, hhost'', rendered, rendered_applied]
        simp only [Watch.applying, attended, List.append_assoc, List.cons_append, List.nil_append]
      · rw [hdone, List.length_cons, Nat.add_right_cancel_iff]

/-- **A deferred computation has come to the first effect** before it is forced; then it handles
each effect and translates the next one. -/
theorem Code.Completes.opens (h : code.Completes turns session happenings value last)
    (hlevel : session.Level t) :
    ∃ step mid,
      code.steps deferring turns t = .ok step mid ∧
        mid.host.answers = t.host.answers ∧
        mid.host.deeds = t.host.deeds ++ opened happenings ∧
        ∀ (later : Session (Host.watching σ type kept)) (budget count : Nat), mid.Level later →
          later.host.answers = session.host.answers → turns ≤ budget →
            ∃ final, step.drive Deferred.force budget count later = .ok (.now value) final ∧
              final.host.deeds = later.host.deeds ++ forced happenings := by
  induction h generalizing t with
  | @result turns code session _ value before reach host =>
    obtain ⟨t', hreach, -, hhost⟩ :=
      hlevel.along ((level σ type kept).reach turns code) reach host
    rw [Code.steps_eq, bind_of_ok hreach]
    refine ⟨_, _, rfl, by rw [hhost]; rfl, ?_, ?_⟩
    · rw [hhost, opened_applied]
      exact congrArg (t.host.deeds ++ ·) (List.append_nil _).symm
    · intro later budget count _ _ hbudget
      obtain ⟨budget, rfl⟩ : ∃ n, budget = n + 1 := ⟨budget - 1, by omega⟩
      refine ⟨_, rfl, ?_⟩
      rw [forced_applied]
      exact (List.append_nil _).symm
  | @answered turns code next session asked onward _ waiting answer answers value before after rest
      reach host prepared taken host' _ ih =>
    obtain ⟨t', hreach, hlevel', hhost⟩ :=
      hlevel.along ((level σ type kept).reach turns code) reach host
    rw [Code.steps_eq, bind_of_ok hreach]
    refine ⟨_, _, rfl, by rw [hhost]; rfl, ?_, ?_⟩
    · rw [opened_applied, opened, ← List.append_assoc]
      change t'.host.deeds ++ _ = _
      rw [hhost]
      rfl
    · intro later budget count hlater hanswers hbudget
      obtain ⟨budget, rfl⟩ : ∃ n, budget = n + 1 := ⟨budget - 1, by omega⟩
      have hhandled : Session.Level
          ({ asked with host := Watch.handling asked.host waiting.effect } :
            Session (Host.watching σ type kept))
          { later with host := Watch.handling later.host waiting.effect } :=
        ⟨hlevel'.memo.trans hlater.memo, hlevel'.schedule.trans hlater.schedule,
          hlevel'.pops.trans hlater.pops⟩
      obtain ⟨t'', htaken, hlevel'', hhost''⟩ :=
        hhandled.along ((level σ type kept).answer waiting answer) taken host'
      obtain ⟨step, mid, hsteps, hmid, hopened, hdrive⟩ := ih hlevel''
      have hprepared : mid.host.answers = onward.host.answers := by
        rw [hmid, hhost'', host']
        simp only [Watch.applying, Watch.handling, hanswers, host]
      obtain ⟨final, hfinal, hforced⟩ :=
        hdrive mid budget (count + 1) (.refl mid) hprepared (by omega)
      refine ⟨final, ?_, ?_⟩
      · have hforce : reciting waiting.effect later = _ := recite_of_cons (hanswers.trans prepared)
        have hresume : (do (← waiting.answer answer).steps deferring turns :
            Run (Host.watching σ type kept) _)
            { later with host := Watch.handling later.host waiting.effect } = .ok step mid :=
          (bind_of_ok htaken).trans hsteps
        exact (bind_of_ok hforce).trans ((bind_of_ok hresume).trans hfinal)
      · rw [hforced, hopened, hhost'', forced_applied, forced, opened_applied, forced_applied]
        simp only [Watch.applying, Watch.handling, List.append_assoc, List.cons_append,
          List.nil_append]

end Steps

/-! ## 3. Programs -/

section Deferred

variable {K : Host S} {session last : Session K}

/-- A deferred computation is made of the first step. -/
theorem Program.deferIn_of_steps {turns : Nat} {program : Program S type}
    {render : S.Effect → Run K (Deferred K (Packed S))}
    {step : Step K (Deferred K (Packed S)) (Deferred K (S.El type))}
    (h : program.stepsIn turns ⟨render, fun value => return .now value⟩
      (session.told (.enter .drive)) = .ok step last) :
    program.deferIn turns render session
      = .ok (.ofStepsIn turns step) (last.told (.leave .drive)) := by
  rw [deferIn, driveIn, Run.inside_eq, bind_of_ok h]
  rfl

/-- It is forced by driving the steps. -/
theorem Deferred.force_of_drive {turns : Nat} {a : α}
    {step : Step K (Deferred K (Packed S)) (Deferred K α)}
    (h : step.drive force turns 0 (session.told (.enter .steps)) = .ok (.now a) last) :
    (Deferred.ofStepsIn turns step).force session = .ok a (last.told (.leave .steps)) := by
  have hrun : step.runIn turns force session = .ok (.now a) (last.told (.leave .steps)) := by
    rw [Step.runIn, Run.inside_eq, h]
  exact bind_of_ok hrun

end Deferred

/-- **A fold does no more than it was asked for.**  Take a complete run of any program on any
session, in which each effect is handled with the answer that is prepared for it.  Besides handling
these effects it applied functions of the program; both are seen in one order.

Fold the program into steps, on a level session, and give the first so many answers to the chain,
one after the other; the driver may do what it likes with each effect before it goes on.  Then the
same is seen as in the complete run up to the effect after these, with effects translated instead of
handled.  Translated are exactly the effects that have answers and the one after them, each once and
in order.  Applied is what the complete run applied in its first part, in which it handled so many
effects and came to the next one, and nothing behind it.  Made something of is the final value, once,
if all effects have answers, and nothing otherwise; and then the chain is done.

Fold the program into a deferred computation that handles each effect.  When it is made, at most the
first effect is translated and none is handled.  When it is forced, on any level session later, it
yields the value of the complete run, and each effect is handled just after it was translated, in
their order, with functions applied where the complete run applied them. -/
theorem Program.folds_lazily (turns : Nat) (program : Program S type)
    {session last : Session (Host.watching σ type kept)} {value : S.El type}
    (complete : program.runIn turns reciting session = .ok value last) :
    ∃ happenings, last.host.deeds = session.host.deeds ++ happenings.map .happened ∧
      (∀ {N M : Type} (translate : S.Effect → σ → N × σ) (finish : S.El type → σ → M × σ)
          (attend : N → σ → σ) (t : Session (Host.watching σ type kept)), session.Level t →
        ∀ count ≤ (effects happenings).length, ∃ step final deeds,
          (program.stepsIn turns (watched kept translate finish) >>=
              Step.follow attend (session.host.answers.take count)) t = .ok step final ∧
          final.host.deeds = t.host.deeds ++ deeds ∧
          deeds = rendered count value happenings ∧
          Deed.translations deeds = (effects happenings).take (count + 1) ∧
          Deed.effects deeds = [] ∧
          Deed.callbacks deeds = callbacks (reaching count happenings) ∧
          reaching count happenings <+: happenings ∧
          effects (reaching count happenings) = (effects happenings).take count ∧
          Deed.values deeds = (if count < (effects happenings).length then [] else [value]) ∧
          (step.isDone = true ↔ count = (effects happenings).length)) ∧
      (∀ t : Session (Host.watching σ type kept), session.Level t → ∃ deferred mid,
        program.deferIn turns reciteDeferred t = .ok deferred mid ∧
        mid.host.deeds = t.host.deeds ++ opened happenings ∧
        Deed.effects (opened happenings : List (Deed S type)) = [] ∧
        Deed.translations (opened happenings : List (Deed S type))
          = (effects happenings).take 1 ∧
        ∀ later : Session (Host.watching σ type kept), mid.Level later →
          later.host.answers = session.host.answers →
            ∃ final, deferred.force later = .ok value final ∧
              final.host.deeds = later.host.deeds ++ forced happenings ∧
              (opened happenings ++ forced happenings : List (Deed S type))
                = alternating happenings) := by
  have hloop := (program.runIn_alike (onSessions_alike recite) turns).same
    (rfl : session.quiet = session.quiet)
  rw [complete] at hloop
  obtain ⟨last', hcomplete, hquiet⟩ := eq_ok_of_quietResult hloop.symm
  have hhost : last'.quiet.host = last.quiet.host := congrArg Session.host hquiet
  change last'.host = last.host at hhost
  obtain ⟨happenings, hlegs⟩ := Code.completes turns hcomplete
  refine ⟨happenings, hhost ▸ hlegs.deeds_eq, ?_, ?_⟩
  · intro N M translate finish attend t hlevel count hcount
    obtain ⟨step, final, hfollow, hfinal, hdone⟩ :=
      hlegs.follow translate finish attend hlevel hcount
    exact ⟨step, final, _, hfollow, hfinal, rfl, translations_rendered count value happenings,
      effects_rendered count value happenings, callbacks_rendered count value happenings,
      reaching_prefix count happenings, effects_reaching count happenings,
      values_rendered count value happenings, hdone⟩
  · intro t hlevel
    have hentered : session.Level (t.told (.enter .drive)) :=
      ⟨hlevel.memo, hlevel.schedule, hlevel.pops⟩
    obtain ⟨step, mid, hsteps, -, hopened, hdrive⟩ := hlegs.opens hentered
    refine ⟨.ofStepsIn turns step, mid.told (.leave .drive), ?_, hopened,
      (opened_inert happenings).1, (opened_inert happenings).2, ?_⟩
    · exact Program.deferIn_of_steps hsteps
    · intro later hlater hanswers
      have hbegun : mid.Level (later.told (.enter .steps)) :=
        ⟨hlater.memo, hlater.schedule, hlater.pops⟩
      obtain ⟨final, hfinal, hforced⟩ :=
        hdrive (later.told (.enter .steps)) turns 0 hbegun hanswers (Nat.le_refl turns)
      exact ⟨_, Deferred.force_of_drive hfinal, hforced, opened_forced happenings⟩

/-! A fold of binds of values and of a job, one in the other. -/

/-- What happens in the complete run: a bind, the job, and three more binds. -/
def nestedHappenings : List (Happening Jobs.signature) :=
  [.applied (.bind .given ⟨Jobs.Ty.count, (1 : Nat)⟩), .handled .job1,
    .applied (.bind .given Jobs.unitAnswer), .applied (.bind .given ⟨Jobs.Ty.count, (2 : Nat)⟩),
    .applied (.bind .given ⟨Jobs.Ty.count, (3 : Nat)⟩)]

/-- A host that watches and keeps nothing. -/
abbrev watchingHost : Host Jobs.signature :=
  .watching (S := Jobs.signature) Unit Jobs.Ty.count fun _ => none

/-- Translates an effect into itself, and makes nothing else of the value. -/
abbrev asTheyAre : Rendering watchingHost Jobs.Ty.count Jobs.Effect Nat :=
  watched (fun _ => none) (fun effect own => (effect, own)) fun value own => (value, own)

/-- The session before, with the answer to the job prepared. -/
def beforeNested : Session watchingHost :=
  .startAt (nested.build.run 0).2 ⟨(), [Jobs.unitAnswer], []⟩

/-- The first step is there when one bind was applied and the job was translated; with the answer
the chain is done, and what was made of six is seen once. -/
theorem nested_folds_lazily : ∃ turns,
    (∃ step final, ((nested.build.run 0).1.stepsIn turns asTheyAre >>=
        Step.follow (fun _ own => own) []) beforeNested = .ok step final ∧
      final.host.deeds
        = [.happened (.applied (.bind .given ⟨Jobs.Ty.count, (1 : Nat)⟩)), .translated .job1]) ∧
    (∃ step final, ((nested.build.run 0).1.stepsIn turns asTheyAre >>=
        Step.follow (fun _ own => own) [Jobs.unitAnswer]) beforeNested = .ok step final ∧
      Deed.translations final.host.deeds = [.job1] ∧ Deed.values final.host.deeds = [(6 : Nat)] ∧
      step.isDone = true) := by
  have hrun : ((nested.runIn 0 (fun _ => none) (answered recite) :
      Hosted watchingHost (Except Empty Nat)).value)
        ⟨(), [Jobs.unitAnswer], []⟩ = .ok (6 : Nat) ⟨(), [], nestedHappenings.map .happened⟩ := rfl
  have hstands := nested.build_standsFor (K := watchingHost) (fun _ => rfl)
    ⟨(), [Jobs.unitAnswer], []⟩
  obtain ⟨turns, h⟩ := hstands.runBy_eq recite (Or.inl fun _ => rfl)
  have hhost : hostResult ((nested.build.run 0).1.runIn turns reciting beforeNested)
      = .ok (6 : Nat) ⟨(), [], nestedHappenings.map .happened⟩ :=
    (h turns (Nat.le_refl turns) .run).trans hrun
  refine ⟨turns, ?_⟩
  cases hresult : (nested.build.run 0).1.runIn turns reciting beforeNested with
  | error halt final => cases (congrArg hostResult hresult).symm.trans hhost
  | ok value last =>
    obtain ⟨rfl, hlast⟩ := EStateM.Result.ok.inj ((congrArg hostResult hresult).symm.trans hhost)
    obtain ⟨happenings, hdeeds, hsteps, -⟩ := Program.folds_lazily turns _ hresult
    have hhappenings : nestedHappenings = happenings := by
      rw [hlast] at hdeeds
      exact List.map_inj_right (fun _ _ heq => by cases heq; rfl) |>.mp hdeeds
    subst hhappenings
    refine ⟨?_, ?_⟩
    · obtain ⟨step, final, deeds, hfollow, hfinal, rfl, -⟩ :=
        hsteps (fun effect own => (effect, own)) (fun value own => (value, own)) (fun _ own => own)
          beforeNested (.refl _) 0 (Nat.zero_le _)
      exact ⟨step, final, hfollow, hfinal⟩
    · obtain ⟨step, final, deeds, hfollow, hfinal, rfl, -, -, -, -, -, -, hdone⟩ :=
        hsteps (fun effect own => (effect, own)) (fun value own => (value, own)) (fun _ own => own)
          beforeNested (.refl _) 1 (Nat.le_refl 1)
      refine ⟨step, final, hfollow, ?_, ?_, hdone.mpr rfl⟩
      · rw [hfinal]
        rfl
      · rw [hfinal]
        rfl

end FreePrograms
