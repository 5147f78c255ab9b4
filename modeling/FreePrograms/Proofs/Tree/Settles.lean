/-
# What a run comes to

A run with a handler is a loop in a number of turns, on a session whose table of tails changes at
every split.  What it *means* is a computation of the host alone.  The statements here say that the
loop, begun with some code, comes to what a computation of the host comes to (`Settles`): with
enough turns it ends with the same value, refusal or halt and the same state of the host, and with a
table that still fits.  Where the computation of the host was cut off, and is exhausted for it,
nothing is said; whether it can be is a parameter.

There is one rule for each way in which the loop goes on: a frame is taken off and applied
(`Awaits.cons`), an effect is answered, refused or not answered at all (`Settles.ask`), or the value
is there and no frame is left (`Awaits.nil`).  The rules are about the frames that wait as a list
and about what they mean together (`Awaits`); how they are held in a sequence is gone by then.
-/
import FreePrograms.Proofs.Run.Steps
import FreePrograms.Proofs.Sequence.Split

namespace FreePrograms

variable {S : Signature} {K : Host S} {α β γ Failure : Type}

/-! ## 1. Going on with the value -/

namespace Hosted

@[simp] theorem andThen_ok (value : α) (next : α → Hosted K (Except Failure β)) :
    (pure (.ok value) : Hosted K (Except Failure α)).andThen next = next value := rfl

theorem andThen_of_ok {work : Hosted K (Except Failure α)} {next : α → Hosted K (Except Failure β)}
    {host host' : K.State} {value : α} (h : work host = .ok (.ok value) host') :
    work.andThen next host = next value host' := bind_of_ok h

theorem andThen_of_refused {work : Hosted K (Except Failure α)}
    {next : α → Hosted K (Except Failure β)} {host host' : K.State} {failure : Failure}
    (h : work host = .ok (.error failure) host') :
    work.andThen next host = .ok (.error failure) host' := bind_of_ok h

/-- **Going on twice is going on once** with what goes on. -/
theorem andThen_assoc (work : Hosted K (Except Failure α)) (next : α → Hosted K (Except Failure β))
    (last : β → Hosted K (Except Failure γ)) :
    (work.andThen next).andThen last = work.andThen fun a => (next a).andThen last := by
  unfold andThen
  rw [bind_assoc]
  refine bind_congr ?_
  intro result
  cases result with
  | ok a => rfl
  | error failure => rfl

end Hosted

/-! ## 2. Results that land -/

/-- A result on sessions is the given one for the host, and the table of its session fits a ledger
that is no earlier than the given one. -/
inductive Lands (ledger : Ledger (Frame S)) :
    EStateM.Result (Halt S) (Session K) α → EStateM.Result (Halt S) K.State α → Prop
  | ok {later : Ledger (Frame S)} {value : α} {session : Session K} (hlater : ledger <+: later)
    (agrees : session.memo.Agrees later) : Lands ledger (.ok value session) (.ok value session.host)
  | error {later : Ledger (Frame S)} {halt : Halt S} {session : Session K}
    (hlater : ledger <+: later) (agrees : session.memo.Agrees later) :
    Lands ledger (.error halt session) (.error halt session.host)

namespace Lands

variable {ledger : Ledger (Frame S)} {result : EStateM.Result (Halt S) (Session K) α}
  {target : EStateM.Result (Halt S) K.State α}

theorem hostResult_eq (h : Lands ledger result target) : hostResult result = target := by
  cases h with
  | ok => rfl
  | error => rfl

theorem of_ok {value : α} {host : K.State} (h : Lands ledger result (.ok value host)) :
    ∃ later session, ledger <+: later ∧ session.memo.Agrees later ∧ host = session.host ∧
      result = .ok value session := by
  cases h with
  | @ok later _ session hlater agrees => exact ⟨later, session, hlater, agrees, rfl, rfl⟩

theorem of_error {halt : Halt S} {host : K.State} (h : Lands ledger result (.error halt host)) :
    ∃ later session, ledger <+: later ∧ session.memo.Agrees later ∧ host = session.host ∧
      result = .error halt session := by
  cases h with
  | @error later _ session hlater agrees => exact ⟨later, session, hlater, agrees, rfl, rfl⟩

theorem earlier {earlier : Ledger (Frame S)} (he : earlier <+: ledger)
    (h : Lands ledger result target) : Lands earlier result target := by
  cases h with
  | ok hlater agrees => exact .ok (he.trans hlater) agrees
  | error hlater agrees => exact .error (he.trans hlater) agrees

/-- **Steps one after the other**: what goes on has to land from every session that the first
computation can leave. -/
theorem bind {work : Run K α} {meaning : Hosted K α} {next : α → Run K β} {next' : α → Hosted K β}
    {session : Session K} {host : K.State} (h : Lands ledger (work session) (meaning host))
    (hnext : ∀ {later : Ledger (Frame S)} {session' : Session K} (a : α), ledger <+: later →
      session'.memo.Agrees later → Lands later (next a session') (next' a session'.host)) :
    Lands ledger ((work >>= next) session) ((meaning >>= next') host) := by
  generalize hwork : work session = result at h
  generalize hmeaning : meaning host = target at h
  cases h with
  | ok hlater agrees =>
    rw [bind_of_ok hwork, bind_of_ok hmeaning]
    exact (hnext _ hlater agrees).earlier hlater
  | error hlater agrees =>
    rw [bind_of_error hwork, bind_of_error hmeaning]
    exact .error hlater agrees

theorem inside {span : Span} {work : Run K α} {session : Session K}
    (h : Lands ledger (work (session.told (.enter span))) target) :
    Lands ledger (Run.inside span work session) target := by
  rw [Run.inside_eq]
  generalize work (session.told (.enter span)) = result at h
  cases h with
  | ok hlater agrees => exact .ok hlater agrees
  | error hlater agrees => exact .error hlater agrees

end Lands

/-- On every session with a table that fits, the computation comes to what the computation of the
host comes to. -/
structure Run.Means (work : Run K α) (meaning : Hosted K α) : Prop where
  lands {ledger : Ledger (Frame S)} {session : Session K} : session.memo.Agrees ledger →
    Lands ledger (work session) (meaning session.host)

/-- A computation of the host means itself. -/
theorem Run.hosted_means (work : Hosted K α) : (Run.hosted work).Means work := by
  refine ⟨?_⟩
  intro ledger session agrees
  unfold Run.hosted
  cases work session.host with
  | ok a host => exact .ok (List.prefix_refl ledger) agrees
  | error halt host => exact .error (List.prefix_refl ledger) agrees

/-! ## 3. The loop, one turn at a time -/

/-- The loop, begun with the code that some work gives, has a turn with `spare` turns for frames and
then `turns` further ones. -/
def Code.loop (handler : Handler K Failure) (turns spare effects : Nat) (work : Run K (Code S)) :
    Run K (Except Failure (Packed S)) := do
  let code ← work
  let stop ← code.advance spare
  Code.serve handler turns effects stop

/-- **The loop settles** at the given result of the host: with enough turns it lands there.  If that
result may have been cut off, nothing is said of one that is exhausted. -/
def Settles (cut : Prop) (handler : Handler K Failure) (ledger : Ledger (Frame S))
    (work : Run K (Code S)) (effects : Nat) (session : Session K)
    (target : EStateM.Result (Halt S) K.State (Except Failure (Packed S))) : Prop :=
  (cut ∧ ∃ host, target = .error .exhausted host) ∨
    ∃ enough, ∀ turns spare, enough ≤ turns → enough ≤ spare →
      Lands ledger (Code.loop handler turns spare effects work session) target

namespace Settles

variable {cut : Prop} {handler : Handler K Failure} {ledger : Ledger (Frame S)}
  {work : Run K (Code S)}
  {effects : Nat} {session session' : Session K}
  {target : EStateM.Result (Halt S) K.State (Except Failure (Packed S))}

theorem earlier {earlier : Ledger (Frame S)} (he : earlier <+: ledger)
    (h : Settles cut handler ledger work effects session target) :
    Settles cut handler earlier work effects session target := by
  rcases h with hexhausted | ⟨enough, h⟩
  · exact Or.inl hexhausted
  · exact Or.inr ⟨enough, fun turns spare ht hs => (h turns spare ht hs).earlier he⟩

/-- Work that gives the code on which the loop settles. -/
theorem of_eq {work' : Run K (Code S)} (hwork : work session = work' session')
    (h : Settles cut handler ledger work' effects session' target) :
    Settles cut handler ledger work effects session target := by
  rcases h with hexhausted | ⟨enough, h⟩
  · exact Or.inl hexhausted
  · refine Or.inr ⟨enough, ?_⟩
    intro turns spare ht hs
    have hloop : Code.loop handler turns spare effects work session
        = Code.loop handler turns spare effects work' session' := by
      change EStateM.bind work _ session = EStateM.bind work' _ session'
      rw [EStateM.bind, EStateM.bind, hwork]
    rw [hloop]
    exact h turns spare ht hs

/-- Work that halts. -/
theorem of_error {halt : Halt S} (agrees : session'.memo.Agrees ledger)
    (hwork : work session = .error halt session') :
    Settles cut handler ledger work effects session (.error halt session'.host) := by
  refine Or.inr ⟨0, ?_⟩
  intro turns spare _ _
  have hloop : Code.loop handler turns spare effects work session = .error halt session' :=
    bind_of_error hwork
  rw [hloop]
  exact .error (List.prefix_refl ledger) agrees

end Settles

/-! ## 4. What frames and codes mean -/

variable {a b : S.Ty}

/-- Frames that wait for a value of type `a` and mean what is given: whatever sequence holds them,
the loop settles at what the host comes to with the value. -/
structure Awaits (cut : Prop) (handler : Handler K Failure) (ledger : Ledger (Frame S))
    (frames : List (Frame S)) (next : S.El a → Hosted K (Except Failure (Packed S))) : Prop where
  settles {later : Ledger (Frame S)} {sequence : Sequence (Frame S)} {session : Session K} :
    ledger <+: later → sequence.Sound later → sequence.toList = frames →
      session.memo.Agrees later → ∀ value effects,
        Settles cut handler later (pure (.mk (.value ⟨a, value⟩) sequence)) effects session
          (next value session.host)

/-- Work that gives a code which means what is given: with any frames put behind the code, the loop
settles at the meaning, and what the frames mean after it. -/
structure Starts (cut : Prop) (handler : Handler K Failure) (ledger : Ledger (Frame S))
    (work : Run K (Code S)) (meaning : Hosted K (Except Failure (S.El a))) : Prop where
  settles {later : Ledger (Frame S)} {sequence : Sequence (Frame S)} {session : Session K}
    {next : S.El a → Hosted K (Except Failure (Packed S))} :
    ledger <+: later → sequence.Sound later → Awaits cut handler later sequence.toList next →
      session.memo.Agrees later → ∀ effects,
        Settles cut handler later (do (← work).append sequence) effects session
          (meaning.andThen next session.host)

variable {cut : Prop} {handler : Handler K Failure} {ledger later : Ledger (Frame S)}

theorem Awaits.mono (h : ledger <+: later) {frames : List (Frame S)}
    {next : S.El a → Hosted K (Except Failure (Packed S))}
    (hf : Awaits cut handler ledger frames next) : Awaits cut handler later frames next :=
  ⟨fun hlast => hf.settles (h.trans hlast)⟩

theorem Starts.mono (h : ledger <+: later) {work : Run K (Code S)}
    {meaning : Hosted K (Except Failure (S.El a))} (hw : Starts cut handler ledger work meaning) :
    Starts cut handler later work meaning :=
  ⟨fun hlast => hw.settles (h.trans hlast)⟩

/-- Taking the first frame off a sequence gives the first of its list, and changes nothing that the
host sees. -/
theorem Run.pop_eq {sequence : Sequence (Frame S)} (hs : sequence.Sound ledger)
    {session : Session K} (agrees : session.memo.Agrees ledger) :
    ∃ later popped session', ledger <+: later ∧ session'.memo.Agrees later ∧
      session'.host = session.host ∧ Run.pop sequence session = .ok popped session' ∧
      Sequence.Splits later sequence.toList popped := by
  obtain ⟨memo, schedule, pops, events, host⟩ := session
  obtain ⟨later, hlater, hagrees, hsplits⟩ :=
    Sequence.pop_ensures hs (schedule pops) memo agrees
  exact ⟨later, _, ⟨_, schedule, pops + 1, events, host⟩, hlater, hagrees, rfl, rfl, hsplits⟩

/-- **No frame is left.**  The value is the result. -/
theorem Awaits.nil :
    Awaits cut handler ledger [] fun value : S.El a => return .ok ⟨a, value⟩ := by
  refine ⟨?_⟩
  intro later sequence session _ sound hframes agrees value effects
  obtain ⟨last, popped, session', hlast, hagrees, hhost, hpop, hsplits⟩ := Run.pop_eq sound agrees
  rw [hframes] at hsplits
  cases hsplits
  refine Or.inr ⟨1, ?_⟩
  intro turns spare _ hspare
  obtain ⟨spare, rfl⟩ : ∃ n, spare = n + 1 := ⟨spare - 1, by omega⟩
  have hloop : Code.loop handler turns (spare + 1) effects
      (pure (.mk (.value ⟨a, value⟩) sequence)) session
        = .ok (.ok ⟨a, value⟩) (session'.told (.programFinished effects)) := by
    change (Code.advance (spare + 1) (.mk (.value ⟨a, value⟩) sequence) >>=
      Code.serve handler turns effects) session = _
    rw [Code.advance, bind_assoc, bind_of_ok hpop]
    rfl
  rw [hloop, ← hhost]
  exact .ok hlast hagrees

/-- **A frame is applied.**  What it makes of a value means something, and then come the others. -/
theorem Awaits.cons {frame : Frame S} {rest : List (Frame S)}
    {meaning : S.El a → Hosted K (Except Failure (S.El b))}
    {next : S.El b → Hosted K (Except Failure (Packed S))}
    (hframe : ∀ value, Starts cut handler ledger (frame.apply ⟨a, value⟩) (meaning value))
    (hrest : Awaits cut handler ledger rest next) :
    Awaits cut handler ledger (frame :: rest) fun value => (meaning value).andThen next := by
  refine ⟨?_⟩
  intro later sequence session hlater sound hframes agrees value effects
  obtain ⟨last, popped, session', hlast, hagrees, hhost, hpop, hsplits⟩ := Run.pop_eq sound agrees
  rw [hframes] at hsplits
  cases hsplits with
  | @cons _ pending hpending =>
  have hsettles : Settles cut handler last (do (← frame.apply ⟨a, value⟩).append pending) effects
      session' ((meaning value).andThen next session'.host) :=
    (hframe value).settles (hlater.trans hlast) hpending (hrest.mono (hlater.trans hlast)) hagrees
      effects
  rw [hhost] at hsettles
  rcases hsettles.earlier hlast with hexhausted | ⟨enough, hlands⟩
  · exact Or.inl hexhausted
  · refine Or.inr ⟨enough + 1, ?_⟩
    intro turns spare hturns hspare
    obtain ⟨spare, rfl⟩ : ∃ n, spare = n + 1 := ⟨spare - 1, by omega⟩
    have hloop : Code.loop handler turns (spare + 1) effects
        (pure (.mk (.value ⟨a, value⟩) sequence)) session
          = Code.loop handler turns spare effects
              (do (← frame.apply ⟨a, value⟩).append pending) session' := by
      change (Code.advance (spare + 1) (.mk (.value ⟨a, value⟩) sequence) >>=
        Code.serve handler turns effects) session = _
      rw [Code.advance, bind_assoc, bind_of_ok hpop]
      simp only [Code.loop, bind_assoc]
    rw [hloop]
    exact hlands turns spare (by omega) (by omega)

section Ask

variable {effect : S.Effect} {frame : Frame S} {sequence : Sequence (Frame S)}
  {session session' : Session K} {effects : Nat}
  {target : EStateM.Result (Halt S) K.State (Except Failure (Packed S))}

/-- At an effect the loop stops at once, and serves it. -/
theorem Settles.of_serve {enough : Nat}
    (h : ∀ turns, enough ≤ turns → Lands ledger
      (Code.serve handler turns effects (.waiting ⟨effect, frame, sequence⟩) session) target) :
    Settles cut handler ledger (pure (.mk (.ask effect frame) sequence)) effects session target := by
  refine Or.inr ⟨enough + 1, ?_⟩
  intro turns spare hturns hspare
  obtain ⟨spare, rfl⟩ : ∃ n, spare = n + 1 := ⟨spare - 1, by omega⟩
  have hloop : Code.loop handler turns (spare + 1) effects
      (pure (.mk (.ask effect frame) sequence)) session
        = Code.serve handler turns effects (.waiting ⟨effect, frame, sequence⟩) session := rfl
  rw [hloop]
  exact h turns (by omega)

theorem Settles.answered {answer : Packed S}
    (hanswer : handler effect session = .ok (.ok answer) session')
    (h : Settles cut handler ledger (do (← frame.apply answer).append sequence) (effects + 1)
      session' target) :
    Settles cut handler ledger (pure (.mk (.ask effect frame) sequence)) effects session target := by
  rcases h with hexhausted | ⟨enough, hlands⟩
  · exact Or.inl hexhausted
  · refine Settles.of_serve (fun turns (hturns : enough + 1 ≤ turns) => ?_)
    obtain ⟨turns, rfl⟩ : ∃ n, turns = n + 1 := ⟨turns - 1, by omega⟩
    have hserve : Code.serve handler (turns + 1) effects (.waiting ⟨effect, frame, sequence⟩)
        session = Code.loop handler turns turns (effects + 1)
          (do (← frame.apply answer).append sequence) session' := by
      rw [Code.serve, bind_of_ok hanswer]
      simp only [Code.handle_succ, Waiting.answer, Code.loop, bind_assoc]
    rw [hserve]
    exact hlands turns turns (by omega) (by omega)

theorem Settles.refused {failure : Failure}
    (hanswer : handler effect session = .ok (.error failure) session')
    (agrees : session'.memo.Agrees ledger) :
    Settles cut handler ledger (pure (.mk (.ask effect frame) sequence)) effects session
      (.ok (.error failure) session'.host) := by
  refine Settles.of_serve (fun turns (_ : 0 ≤ turns) => ?_)
  have hserve : Code.serve handler turns effects (.waiting ⟨effect, frame, sequence⟩) session
      = .ok (.error failure) (session'.told (.handlerFailed (effects + 1))) := by
    rw [Code.serve, bind_of_ok hanswer]
    rfl
  rw [hserve]
  exact .ok (List.prefix_refl ledger) agrees

theorem Settles.unanswered {halt : Halt S} (hanswer : handler effect session = .error halt session')
    (agrees : session'.memo.Agrees ledger) :
    Settles cut handler ledger (pure (.mk (.ask effect frame) sequence)) effects session
      (.error halt session'.host) := by
  refine Settles.of_serve (fun turns (_ : 0 ≤ turns) => ?_)
  have hserve : Code.serve handler turns effects (.waiting ⟨effect, frame, sequence⟩) session
      = .error halt session' := bind_of_error hanswer
  rw [hserve]
  exact .error (List.prefix_refl ledger) agrees

/-- **An effect is asked for.**  If the handler answers, its frame is applied to the answer; if not,
nothing is applied any more. -/
theorem Settles.ask {served : HostHandler K Failure}
    {meaning : Packed S → Hosted K (Except Failure (S.El b))}
    {next : S.El b → Hosted K (Except Failure (Packed S))}
    (hserved : (handler effect).Means (served effect))
    (hframe : ∀ answer, Starts cut handler ledger (frame.apply answer) (meaning answer))
    (hrest : Awaits cut handler ledger sequence.toList next) (sound : sequence.Sound ledger)
    (agrees : session.memo.Agrees ledger) (effects : Nat) :
    Settles cut handler ledger (pure (.mk (.ask effect frame) sequence)) effects session
      (((served effect).andThen meaning).andThen next session.host) := by
  have hlands := hserved.lands agrees
  rw [Hosted.andThen_assoc]
  generalize hanswer : handler effect session = result at hlands
  generalize hmeant : served effect session.host = target at hlands
  cases hlands with
  | @ok later answer session' hlater hagrees =>
    cases answer with
    | ok answer =>
      have htarget : ((served effect).andThen fun answer => (meaning answer).andThen next)
          session.host = (meaning answer).andThen next session'.host := bind_of_ok hmeant
      rw [htarget]
      have hsettles := (hframe answer).settles hlater (sound.mono hlater) (hrest.mono hlater)
        hagrees (effects + 1)
      exact (Settles.answered hanswer hsettles).earlier hlater
    | error failure =>
      have htarget : ((served effect).andThen fun answer => (meaning answer).andThen next)
          session.host = .ok (.error failure) session'.host := bind_of_ok hmeant
      rw [htarget]
      exact (Settles.refused hanswer hagrees).earlier hlater
  | @error later halt session' hlater hagrees =>
    have htarget : ((served effect).andThen fun answer => (meaning answer).andThen next)
        session.host = .error halt session'.host := bind_of_error hmeant
    rw [htarget]
    exact (Settles.unanswered hanswer hagrees).earlier hlater

end Ask

/-- Steps that take names, on a session. -/
theorem Run.naming_eq {steps : Naming α} {post : Ledger (Frame S) → α → Prop}
    (h : Naming.Ensures ledger steps post) {session : Session K}
    (agrees : session.memo.Agrees ledger) :
    ∃ later made session', ledger <+: later ∧ session'.memo.Agrees later ∧
      session'.host = session.host ∧ Run.naming steps session = .ok made session' ∧
      post later made := by
  obtain ⟨memo, schedule, pops, events, host⟩ := session
  obtain ⟨later, hlater, hagrees, hpost⟩ := Splitting.Ensures.naming h memo agrees
  exact ⟨later, _, ⟨_, schedule, pops, events, host⟩, hlater, hagrees, rfl, rfl, hpost⟩

/-- **Frames are put behind a code**, and the loop goes on with one sequence for all of them. -/
theorem Settles.append {work : Run K (Code S)} {code : Code S} {sequence : Sequence (Frame S)}
    {session session' : Session K} {effects : Nat}
    {target : EStateM.Result (Halt S) K.State (Except Failure (Packed S))}
    (hwork : work session = .ok code session') (hcode : code.frames.Sound ledger)
    (hsequence : sequence.Sound ledger) (agrees : session'.memo.Agrees ledger)
    (h : ∀ {later : Ledger (Frame S)} {made : Sequence (Frame S)} {last : Session K},
      ledger <+: later → made.Sound later →
      made.toList = code.frames.toList ++ sequence.toList → last.memo.Agrees later →
      last.host = session'.host →
        Settles cut handler later (pure (.mk code.node made)) effects last target) :
    Settles cut handler ledger (do (← work).append sequence) effects session target := by
  obtain ⟨later, made, last, hlater, hagrees, hhost, hlink, hmade⟩ :=
    Run.naming_eq (Sequence.link_ensures hcode hsequence) agrees
  have hsteps : (do (← work).append sequence : Run K (Code S)) session
      = (pure (.mk code.node made) : Run K (Code S)) last := by
    rw [bind_of_ok hwork]
    obtain ⟨memo, schedule, pops, events, host⟩ := session'
    cases hlink
    rfl
  exact Settles.of_eq hsteps ((h hlater hmade.1 hmade.2 hagrees hhost).earlier hlater)

namespace Starts

variable {meaning : Hosted K (Except Failure (S.El a))}

/-- Work that halts. -/
theorem throw (halt : Halt S) :
    Starts cut handler ledger (throw halt) (throw halt : Hosted K (Except Failure (S.El a))) := by
  refine ⟨?_⟩
  intro later sequence session next _ _ _ agrees effects
  exact Settles.of_error agrees rfl

/-- Of a meaning that was cut off nothing is said. -/
theorem exhausted (hcut : cut) (work : Run K (Code S)) : Starts cut handler ledger work
    (MonadExcept.throw .exhausted : Hosted K (Except Failure (S.El a))) := by
  refine ⟨?_⟩
  intro later sequence session next _ _ _ _ _
  exact Or.inl ⟨hcut, session.host, rfl⟩

/-- A value is there. -/
theorem value (value : S.El a) :
    Starts cut handler ledger (pure (.ofValue a value)) (pure (.ok value)) := by
  refine ⟨?_⟩
  intro later sequence session next _ sound hnext agrees effects
  have happend : (do (← (pure (.ofValue a value) : Run K (Code S))).append sequence :
      Run K (Code S)) = pure (.mk (.value ⟨a, value⟩) sequence) := rfl
  rw [happend]
  exact hnext.settles (List.prefix_refl later) sound rfl agrees value effects

/-- A result, or a halt in its place. -/
theorem except (result : Except (Halt S) (S.El a)) :
    Starts cut handler ledger (do return .ofValue a (← Run.except result))
      (do return .ok (← Hosted.except result)) := by
  cases result with
  | ok a => exact value a
  | error halt => exact throw halt

/-- The host notes what is about to be applied. -/
theorem observe (callback : Callback S) {work : Run K (Code S)}
    (h : Starts cut handler ledger work meaning) :
    Starts cut handler ledger (do Run.observe callback; work)
      (do Hosted.observe callback; meaning) := by
  refine ⟨?_⟩
  intro later sequence session next hlater sound hnext agrees effects
  obtain ⟨memo, schedule, pops, events, host⟩ := session
  have hagrees : Memo.Agrees (Session.memo
      (⟨memo, schedule, pops, events, K.observe callback host⟩ : Session K)) later := agrees
  exact Settles.of_eq rfl (h.settles hlater sound hnext hagrees effects)

end Starts

end FreePrograms
