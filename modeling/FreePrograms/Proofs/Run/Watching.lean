/-
# Watching a fold

What is called while a program is run or folded can be noted in one list: the functions of the
program that are applied, the effects that are translated and those that are handled, and the value
that the fold finished with (`Deed`).  `Host.watching` is a host that does so.  A run with a handler
that gives prepared answers (`recite`) shows what happens in a complete run; `Step.follow` gives
answers to a chain of steps by hand.

What a fold has done can be read off what happens in the complete run: `rendered` for a chain of
steps of which some have their answers, `opened` and `forced` for a deferred computation before and
after it is forced.  Effects are translated instead of handled, or both, and the list is cut off
where the fold has come to.

Two sessions on which the table and the owners of nodes are the same are `Level`.  On these
everything that runs do by themselves goes alike and notes the same (`level`), whatever the sessions
were told and whatever the functions that are handed in share.
-/
import FreePrograms.Proofs.Run.Habits

namespace FreePrograms

variable {S : Signature} {type : S.Ty} {σ N M α β : Type}
  {kept : Nat → Option ((type : S.Ty) × Program S type)}

/-! ## 1. What can be seen -/

/-- Something that is done while a program is run or folded. -/
inductive Deed (S : Signature) (type : S.Ty) where
  /-- An effect is handled, or a function of the program is applied. -/
  | happened (happening : Happening S)
  /-- The fold translates an effect. -/
  | translated (effect : S.Effect)
  /-- The fold makes something of the final value. -/
  | finished (value : S.El type)

namespace Happening

/-- The effect that was handled. -/
def effect? : Happening S → Option S.Effect
  | handled effect => some effect
  | applied _ => none

/-- The function that was applied. -/
def callback? : Happening S → Option (Callback S)
  | handled _ => none
  | applied callback => some callback

/-- The effects that were handled, in their order. -/
def effects (happenings : List (Happening S)) : List S.Effect := happenings.filterMap effect?

/-- The functions that were applied, in their order. -/
def callbacks (happenings : List (Happening S)) : List (Callback S) :=
  happenings.filterMap callback?

/-- What happened before one effect more than so many was handled. -/
def reaching : Nat → List (Happening S) → List (Happening S)
  | _, [] => []
  | 0, handled _ :: _ => []
  | count + 1, handled effect :: rest => handled effect :: reaching count rest
  | count, applied callback :: rest => applied callback :: reaching count rest

end Happening

namespace Deed

def effect? : Deed S type → Option S.Effect
  | happened happening => happening.effect?
  | _ => none

def callback? : Deed S type → Option (Callback S)
  | happened happening => happening.callback?
  | _ => none

def translation? : Deed S type → Option S.Effect
  | translated effect => some effect
  | _ => none

def value? : Deed S type → Option (S.El type)
  | finished value => some value
  | _ => none

/-- The effects that were handled, in their order. -/
def effects (deeds : List (Deed S type)) : List S.Effect := deeds.filterMap effect?

/-- The functions that were applied, in their order. -/
def callbacks (deeds : List (Deed S type)) : List (Callback S) := deeds.filterMap callback?

/-- The effects that were translated, in their order. -/
def translations (deeds : List (Deed S type)) : List S.Effect := deeds.filterMap translation?

/-- The values that the fold finished with. -/
def values (deeds : List (Deed S type)) : List (S.El type) := deeds.filterMap value?

end Deed

/-! ## 2. Hosts that watch -/

/-- What functions that are handed in share, the answers that are prepared, and what was seen. -/
structure Watch (S : Signature) (type : S.Ty) (σ : Type) where
  own : σ
  answers : List (Packed S)
  deeds : List (Deed S type)

/-- The host that notes what it sees. -/
abbrev Host.watching (σ : Type) (type : S.Ty)
    (kept : Nat → Option ((type : S.Ty) × Program S type)) : Host S where
  State := Watch S type σ
  observe callback watch :=
    { watch with deeds := watch.deeds ++ [.happened (.applied callback)] }
  kept := kept

/-- Handles an effect with the next answer that is prepared. -/
def recite (effect : S.Effect) : Hosted (Host.watching σ type kept) (Packed S) := fun watch =>
  match watch.answers with
  | [] => .error .exhausted watch
  | answer :: answers =>
    .ok answer ⟨watch.own, answers, watch.deeds ++ [.happened (.handled effect)]⟩

/-- Does something with what the functions handed in share, and notes it. -/
def Hosted.doing (deed : Deed S type) (work : σ → α × σ) : Hosted (Host.watching σ type kept) α :=
  fun watch => .ok (work watch.own).1 ⟨(work watch.own).2, watch.answers, watch.deeds ++ [deed]⟩

/-- The fold by two functions that are handed in, watched. -/
def watched (kept : Nat → Option ((type : S.Ty) × Program S type))
    (translate : S.Effect → σ → N × σ) (finish : S.El type → σ → M × σ) :
    Rendering (Host.watching σ type kept) type N M :=
  ⟨fun effect => Run.hosted (.doing (.translated effect) (translate effect)),
    fun value => Run.hosted (.doing (.finished value) (finish value))⟩

/-- Translates an effect into a deferred computation that handles it. -/
def reciteDeferred (effect : S.Effect) :
    Run (Host.watching σ type kept) (Deferred (Host.watching σ type kept) (Packed S)) :=
  Run.hosted (.doing (.translated effect) fun own => (⟨Run.hosted (recite effect)⟩, own))

/-- The fold into deferred computations, watched. -/
def deferring : Rendering (Host.watching σ type kept) type
    (Deferred (Host.watching σ type kept) (Packed S))
    (Deferred (Host.watching σ type kept) (S.El type)) :=
  ⟨reciteDeferred, fun value => return .now value⟩

/-- Goes on with the steps by the given answers, one after the other.  Before each of them the
driver does what it likes with the effect. -/
def Step.follow (attend : N → σ → σ) :
    List (Packed S) → Step (Host.watching σ type kept) N M →
      Run (Host.watching σ type kept) (Step (Host.watching σ type kept) N M)
  | [], step => return step
  | _ :: _, .done value => return .done value
  | answer :: answers, .next effect resume => do
    Run.onHost fun watch : Watch S type σ => { watch with own := attend effect watch.own }
    let step ← Step.answer resume answer
    step.follow attend answers

/-! ## 3. What a fold has done -/

namespace Happening

/-- What is seen of a chain of steps of which so many have their answers. -/
def rendered : Nat → S.El type → List (Happening S) → List (Deed S type)
  | _, value, [] => [.finished value]
  | 0, _, handled effect :: _ => [.translated effect]
  | count + 1, value, handled effect :: rest => .translated effect :: rendered count value rest
  | count, value, applied callback :: rest =>
    .happened (.applied callback) :: rendered count value rest

/-- What is seen when a deferred computation is made. -/
def opened : List (Happening S) → List (Deed S type)
  | [] => []
  | handled effect :: _ => [.translated effect]
  | applied callback :: rest => .happened (.applied callback) :: opened rest

/-- What is seen when it is forced. -/
def forced : List (Happening S) → List (Deed S type)
  | [] => []
  | handled effect :: rest => .happened (.handled effect) :: (opened rest ++ forced rest)
  | applied _ :: rest => forced rest

/-- Each effect is translated and then handled, before anything else is done. -/
def alternating : List (Happening S) → List (Deed S type)
  | [] => []
  | handled effect :: rest =>
    .translated effect :: .happened (.handled effect) :: alternating rest
  | applied callback :: rest => .happened (.applied callback) :: alternating rest

variable {count : Nat} {value : S.El type} {happenings : List (Happening S)}

/-- **Before and after it is forced, a deferred computation alternates.** -/
theorem opened_forced (happenings : List (Happening S)) :
    (opened happenings ++ forced happenings : List (Deed S type)) = alternating happenings := by
  induction happenings with
  | nil => rfl
  | cons happening rest ih =>
    cases happening with
    | handled effect => rw [opened, forced, alternating, ← ih]; rfl
    | applied callback => rw [opened, forced, alternating, ← ih]; rfl

/-- It is the first part of what happens. -/
theorem reaching_prefix (count : Nat) (happenings : List (Happening S)) :
    reaching count happenings <+: happenings := by
  induction happenings generalizing count with
  | nil => cases count <;> exact List.prefix_refl []
  | cons happening rest ih =>
    cases happening with
    | handled effect =>
      cases count with
      | zero => exact List.nil_prefix
      | succ count => exact List.cons_prefix_cons.mpr ⟨rfl, ih count⟩
    | applied callback =>
      rw [reaching]
      exact List.cons_prefix_cons.mpr ⟨rfl, ih count⟩

/-- So many effects are handled in it. -/
theorem effects_reaching (count : Nat) (happenings : List (Happening S)) :
    effects (reaching count happenings) = (effects happenings).take count := by
  induction happenings generalizing count with
  | nil => cases count <;> rfl
  | cons happening rest ih =>
    cases happening with
    | handled effect =>
      cases count with
      | zero => rfl
      | succ count => exact congrArg (effect :: ·) (ih count)
    | applied callback =>
      rw [reaching]
      exact ih count

/-- **Translated is one effect more than has an answer**, as long as there is one. -/
theorem translations_rendered (count : Nat) (value : S.El type) (happenings : List (Happening S)) :
    Deed.translations (rendered count value happenings)
      = (effects happenings).take (count + 1) := by
  induction happenings generalizing count with
  | nil => cases count <;> rfl
  | cons happening rest ih =>
    cases happening with
    | handled effect =>
      cases count with
      | zero => rfl
      | succ count => exact congrArg (effect :: ·) (ih count)
    | applied callback =>
      rw [rendered]
      exact ih count

/-- **The fold finishes once all effects have their answers**, and then with the final value. -/
theorem values_rendered (count : Nat) (value : S.El type) (happenings : List (Happening S)) :
    Deed.values (rendered count value happenings)
      = if count < (effects happenings).length then [] else [value] := by
  induction happenings generalizing count with
  | nil => cases count <;> rfl
  | cons happening rest ih =>
    cases happening with
    | handled effect =>
      cases count with
      | zero => rfl
      | succ count =>
        refine (ih count).trans ?_
        have hlength : (effects (handled effect :: rest)).length = (effects rest).length + 1 := rfl
        rw [hlength]
        simp only [Nat.add_lt_add_iff_right]
    | applied callback =>
      rw [rendered]
      exact ih count

/-- **Applied is what comes before the effect that has no answer yet.** -/
theorem callbacks_rendered (count : Nat) (value : S.El type) (happenings : List (Happening S)) :
    Deed.callbacks (rendered count value happenings) = callbacks (reaching count happenings) := by
  induction happenings generalizing count with
  | nil => cases count <;> rfl
  | cons happening rest ih =>
    cases happening with
    | handled effect =>
      cases count with
      | zero => rfl
      | succ count => exact ih count
    | applied callback =>
      rw [rendered, reaching]
      exact congrArg (callback :: ·) (ih count)

/-- A fold into steps handles nothing. -/
theorem effects_rendered (count : Nat) (value : S.El type) (happenings : List (Happening S)) :
    Deed.effects (rendered count value happenings) = [] := by
  induction happenings generalizing count with
  | nil => cases count <;> rfl
  | cons happening rest ih =>
    cases happening with
    | handled effect =>
      cases count with
      | zero => rfl
      | succ count => exact ih count
    | applied callback =>
      rw [rendered]
      exact ih count

/-- When a deferred computation is made nothing is handled, and one effect is translated. -/
theorem opened_inert (happenings : List (Happening S)) :
    Deed.effects (opened happenings : List (Deed S type)) = [] ∧
      Deed.translations (opened happenings : List (Deed S type))
        = (effects happenings).take 1 := by
  induction happenings with
  | nil => exact ⟨rfl, rfl⟩
  | cons happening rest ih =>
    cases happening with
    | handled effect => exact ⟨rfl, rfl⟩
    | applied callback => exact ih

/-! Functions that are applied stay where they are. -/

theorem rendered_applied (applications : List (Callback S)) :
    rendered count value (applications.map applied ++ happenings)
      = (applications.map applied).map .happened ++ rendered count value happenings := by
  induction applications with
  | nil => rfl
  | cons callback rest ih =>
    rw [List.map_cons, List.cons_append, rendered, ih]
    rfl

theorem opened_applied (applications : List (Callback S)) :
    (opened (applications.map applied ++ happenings) : List (Deed S type))
      = (applications.map applied).map .happened ++ opened happenings := by
  induction applications with
  | nil => rfl
  | cons callback rest ih =>
    rw [List.map_cons, List.cons_append, opened, ih]
    rfl

theorem forced_applied (applications : List (Callback S)) :
    (forced (applications.map applied ++ happenings) : List (Deed S type)) = forced happenings := by
  induction applications with
  | nil => rfl
  | cons callback rest ih => exact ih

theorem effects_applied (applications : List (Callback S)) :
    effects (applications.map applied ++ happenings) = effects happenings := by
  induction applications with
  | nil => rfl
  | cons callback rest ih => exact ih

end Happening

/-! ## 4. Level sessions -/

/-- The table, and who owns the nodes that are popped, are the same. -/
structure Session.Level {K : Host S} (session session' : Session K) : Prop where
  memo : session.memo = session'.memo
  schedule : session.schedule = session'.schedule
  pops : session.pops = session'.pops

theorem Session.Level.refl {K : Host S} (session : Session K) : session.Level session :=
  ⟨rfl, rfl, rfl⟩

theorem Session.Level.trans {K : Host S} {first second third : Session K}
    (h : first.Level second) (h' : second.Level third) : first.Level third :=
  ⟨h.memo.trans h'.memo, h.schedule.trans h'.schedule, h.pops.trans h'.pops⟩

/-- What is seen when functions of the program are applied. -/
def Watch.applying (watch : Watch S type σ) (applications : List (Callback S)) :
    Watch S type σ :=
  { watch with
    deeds := watch.deeds ++ (applications.map Happening.applied).map .happened }

theorem Watch.applying_nil (watch : Watch S type σ) : watch.applying [] = watch := by
  rw [applying]
  exact congrArg (Watch.mk _ _) (List.append_nil watch.deeds)

theorem Watch.applying_append (watch : Watch S type σ) (first second : List (Callback S)) :
    (watch.applying first).applying second = watch.applying (first ++ second) := by
  simp only [applying, List.map_append, List.append_assoc]

/-- Two results of a computation on level sessions: the same value, on sessions that are level
again, and the same functions were applied; or the same halt. -/
inductive Session.Alongside (good : α → Prop) (s t : Session (Host.watching σ type kept)) :
    EStateM.Result (Halt S) (Session (Host.watching σ type kept)) α →
      EStateM.Result (Halt S) (Session (Host.watching σ type kept)) α → Prop
  | ok {a : α} {s' t' : Session (Host.watching σ type kept)} (applications : List (Callback S))
    (level : s'.Level t') (first : s'.host = Watch.applying s.host applications)
    (second : t'.host = Watch.applying t.host applications) (value : good a) :
    Alongside good s t (.ok a s') (.ok a t')
  | error {halt : Halt S} {s' t' : Session (Host.watching σ type kept)} :
    Alongside good s t (.error halt s') (.error halt t')

/-- A step that only changes the table by what is in it. -/
theorem Session.Alongside.same {good : α → Prop} {a : α}
    {s t s' t' : Session (Host.watching σ type kept)} (level : s'.Level t')
    (first : s'.host = s.host) (second : t'.host = t.host) (value : good a) :
    Session.Alongside good s t (.ok a s') (.ok a t') :=
  .ok [] level (first.trans (Watch.applying_nil _).symm) (second.trans (Watch.applying_nil _).symm)
    value

/-- **On level sessions computations go alike**, if they only do what runs do by themselves. -/
def level (σ : Type) (type : S.Ty) (kept : Nat → Option ((type : S.Ty) × Program S type)) :
    Habit (Host.watching σ type kept) where
  Holds good work := ∀ s t : Session (Host.watching σ type kept), s.Level t →
    Session.Alongside good s t (work s) (work t)
  pure h _ _ hlevel := .same hlevel rfl rfl h
  throw _ _ _ _ := .error
  bind {_ _ _ _ work next} h hnext s t hlevel := by
    have hwork := h s t hlevel
    generalize hs : work s = first at hwork
    generalize ht : work t = second at hwork
    cases hwork with
    | error =>
      rw [bind_of_error hs, bind_of_error ht]
      exact .error
    | @ok a s' t' applications hlevel' hfirst hsecond hgood =>
      rw [bind_of_ok hs, bind_of_ok ht]
      have hrest := hnext a hgood s' t' hlevel'
      generalize next a s' = first at hrest
      generalize next a t' = second at hrest
      cases hrest with
      | error => exact .error
      | ok more hlevel'' hfirst' hsecond' hgood' =>
        refine .ok (applications ++ more) hlevel'' ?_ ?_ hgood'
        · rw [hfirst', hfirst, Watch.applying_append]
        · rw [hsecond', hsecond, Watch.applying_append]
  naming steps s t hlevel := by
    obtain ⟨memo, schedule, pops, events, host⟩ := s
    obtain ⟨memo', schedule', pops', events', host'⟩ := t
    obtain ⟨rfl, rfl, rfl⟩ := hlevel
    exact .same ⟨rfl, rfl, rfl⟩ rfl rfl trivial
  building steps s t hlevel := by
    obtain ⟨memo, schedule, pops, events, host⟩ := s
    obtain ⟨memo', schedule', pops', events', host'⟩ := t
    obtain ⟨rfl, rfl, rfl⟩ := hlevel
    cases h : steps memo.next with
    | ok made =>
      rw [Run.building_of_ok h, Run.building_of_ok h]
      exact .same ⟨rfl, rfl, rfl⟩ rfl rfl trivial
    | error halt =>
      rw [Run.building_of_error h, Run.building_of_error h]
      exact .error
  pop frames s t hlevel := by
    obtain ⟨memo, schedule, pops, events, host⟩ := s
    obtain ⟨memo', schedule', pops', events', host'⟩ := t
    obtain ⟨rfl, rfl, rfl⟩ := hlevel
    exact .same ⟨rfl, rfl, rfl⟩ rfl rfl trivial
  observe callback s t hlevel :=
    .ok [callback] ⟨hlevel.memo, hlevel.schedule, hlevel.pops⟩ rfl rfl trivial

end FreePrograms
