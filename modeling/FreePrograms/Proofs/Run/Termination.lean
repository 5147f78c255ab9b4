/-
# Total programs end

No turn makes a program smaller: the frame that is applied can put any number of new frames before
those that wait.  What gets smaller is the tree of functions that the new frames come from, and after
it there are the frames that were waiting before.  So the statement about the frames of a total code
is that no endless run begins with them and further frames, if none begins with the further frames
(`TotalFrames.ends`); it is proved by induction on why the frames are total.

An endless run would be one of turns, between which the session may change in any way that leaves a
table that fits, and in which effects are answered by anyone and with anything (`Code.Turn`).  As
there is none, each loop of the library ends that makes turns only: the one up to the next effect
(`Code.TotalOn.advance_ends`) and the one of a run with a handler (`Code.TotalOn.serve_ends`).
-/
import FreePrograms.Proofs.Run.Total
import FreePrograms.Proofs.Tree.Machine

namespace FreePrograms

variable {S : Signature} {K : Host S} {type a b c : S.Ty} {α Failure : Type}

theorem Session.onward_refl (session : Session K) : session.Onward session :=
  fun ledger agrees => ⟨ledger, List.prefix_refl ledger, agrees⟩

/-! ## 1. Turns, and runs that have an end -/

/-- A turn of a code, after anything happened to the session that leaves tables that fit: the first
frame is applied to the value, or an answer is taken. -/
inductive Code.Turn (code : Code S) (session : Session K) : Code S → Session K → Prop
  | applied {value : Packed S} {frames : Sequence (Frame S)} {next : Code S} {s later : Session K}
    (starts : code = .mk (.value value) frames) (onward : session.Onward s)
    (applies : Code.applyFirst value frames s = .ok (some next) later) : Turn code session next later
  | answered {effect : S.Effect} {frame : Frame S} {frames : Sequence (Frame S)}
    {answer : Packed S} {next : Code S} {s later : Session K}
    (starts : code = .mk (.ask effect frame) frames) (onward : session.Onward s)
    (answers : Waiting.answer ⟨effect, frame, frames⟩ answer s = .ok next later) :
    Turn code session next later

/-- After finitely many turns there is none any more, whichever turns are made. -/
inductive Code.Ends : Code S → Session K → Prop
  | intro {code : Code S} {session : Session K}
    (turns : ∀ {next later}, code.Turn session next later → Ends next later) : Ends code session

/-- No endless run begins where turns come to an end. -/
theorem Code.Ends.not_endless {code : Code S} {session : Session K} (h : code.Ends session)
    (run : Nat → Code S × Session K) (hstart : run 0 = (code, session)) :
    ¬ ∀ n, (run n).1.Turn (run n).2 (run (n + 1)).1 (run (n + 1)).2 := by
  induction h generalizing run with
  | @intro code session turns ih =>
    intro hrun
    have hfirst := hrun 0
    rw [hstart] at hfirst
    exact ih hfirst (fun n => run (n + 1)) rfl fun n => hrun (n + 1)

/-! ## 2. Frames that end -/

/-- With any value, and on any session on which they are held, the frames come to an end. -/
structure FramesEnd (K : Host S) (ledger : Ledger (Frame S)) (a : S.Ty) (frames : List (Frame S)) :
    Prop where
  ends {later : Ledger (Frame S)} {sequence : Sequence (Frame S)} {session : Session K}
    (value : S.El a) : ledger <+: later → sequence.Sound later → sequence.toList = frames →
      session.memo.Agrees later → (Code.mk (.value ⟨a, value⟩) sequence).Ends session

/-- With any frames behind it that come to an end, the code comes to an end. -/
structure CodeEnds (K : Host S) (ledger : Ledger (Frame S)) (b : S.Ty) (code : Code S) : Prop where
  ends {later : Ledger (Frame S)} {rest : List (Frame S)} {next : Code S} {session : Session K} :
    ledger <+: later → FramesEnd K later b rest → Code.Joins later code rest next →
      session.memo.Agrees later → next.Ends session

/-- What a function returns comes to an end. -/
def ReturnEnds (K : Host S) (ledger : Ledger (Frame S)) (b : S.Ty)
    (result : Except (Halt S) (Code S × Cell)) : Prop :=
  ∃ later made, ledger <+: later ∧ result = .ok (made, later.length) ∧ made.frames.Sound later ∧
    CodeEnds K later b made

namespace FramesEnd

variable {ledger later : Ledger (Frame S)} {rest : List (Frame S)}

theorem mono (h : ledger <+: later) (hframes : FramesEnd K ledger a rest) :
    FramesEnd K later a rest := ⟨fun value hlast => hframes.ends value (h.trans hlast)⟩

/-- Without a frame there is no turn. -/
theorem nil : FramesEnd K ledger a [] := by
  refine ⟨?_⟩
  intro later sequence session value hlater sound hframes agrees
  refine .intro fun turn => ?_
  cases turn with
  | applied starts onward applies =>
    cases starts
    obtain ⟨later', hlater', agrees'⟩ := onward later agrees
    obtain ⟨_, _, -, -, happly⟩ :=
      Code.applyFirst_nil (sound.mono hlater') hframes agrees' ⟨a, value⟩
    cases happly.symm.trans applies
  | answered starts => cases starts

/-- **A frame is applied**; what it makes comes to an end with the other frames behind it. -/
theorem cons {provenance : Provenance} {function : S.El a → Cell → Except (Halt S) (Code S × Cell)}
    (hreturns : ∀ value later, ledger <+: later →
      ReturnEnds K later b (function value later.length))
    (hrest : FramesEnd K ledger b rest) :
    FramesEnd K ledger a (.bind provenance a function :: rest) := by
  refine ⟨?_⟩
  intro later sequence session value hlater sound hframes agrees
  refine .intro fun turn => ?_
  cases turn with
  | applied starts onward applies =>
    cases starts
    obtain ⟨later', hlater', agrees'⟩ := onward later agrees
    have hthen := hlater.trans hlater'
    obtain ⟨made, between, last, next, _, hbetween, hmade, hlast, hagrees, hjoins, happly⟩ :=
      Code.applyFirst_bind (sound.mono hlater') hframes agrees' value
        fun last hlast => hreturns value last (hthen.trans hlast)
    cases happly.symm.trans applies
    exact hmade.ends hlast (hrest.mono ((hthen.trans hbetween).trans hlast)) hjoins hagrees
  | answered starts => cases starts

end FramesEnd

/-- **A value or an effect comes to an end** before frames that do. -/
theorem FramesEnd.of_node {ledger : Ledger (Frame S)} {node : Node S}
    {sequence : Sequence (Frame S)} {frames : List (Frame S)} {session : Session K}
    (hends : FramesEnd K ledger a frames) (hnode : node.Total a) (sound : sequence.Sound ledger)
    (hframes : sequence.toList = frames) (agrees : session.memo.Agrees ledger) :
    (Code.mk node sequence).Ends session := by
  cases node with
  | value packed =>
    cases hnode with
    | value value => exact hends.ends value (List.prefix_refl ledger) sound hframes agrees
  | ask effect frame =>
    refine .intro fun turn => ?_
    cases turn with
    | applied starts => cases starts
    | answered starts onward answers =>
      cases starts
      obtain ⟨later, hlater, agrees'⟩ := onward ledger agrees
      obtain hmismatch | ⟨value, last, ⟨node, rest⟩, _, hlast, hagrees, hjoins, hanswer⟩ :=
        hnode.answer (sound.mono hlater) agrees' _
      · cases hmismatch.symm.trans answers
      · cases hanswer.symm.trans answers
        obtain ⟨hvalue, hsound, hrest⟩ := hjoins
        cases hvalue
        exact hends.ends value (hlater.trans hlast) hsound (hrest.trans hframes) hagrees

mutual

/-- **Total frames come to an end, with any frames behind them that do.** -/
theorem TotalFrames.ends {c : S.Ty} : {ledger : Ledger (Frame S)} → {a : S.Ty} →
    {frames : List (Frame S)} → TotalFrames ledger a frames c →
      ∀ {later : Ledger (Frame S)} {rest : List (Frame S)}, ledger <+: later →
        FramesEnd K later c rest → FramesEnd K later a (frames ++ rest)
  | _, _, _, .nil, _, _, _, hrest => hrest
  | _, _, _, .cons provenance returns frames, _, _, hlater, hrest =>
    .cons (fun value last hlast => (returns value last (hlater.trans hlast)).ends)
      (frames.ends hlater hrest)

theorem TotalReturn.ends : {ledger : Ledger (Frame S)} → {b : S.Ty} →
    {result : Except (Halt S) (Code S × Cell)} → TotalReturn ledger result b →
      ReturnEnds K ledger b result
  | _, _, _, .code hlater total => ⟨_, _, hlater, rfl, total.frames_sound, total.ends⟩

/-- **A total code comes to an end, with any frames behind it that do.** -/
theorem Code.Total.ends : {ledger : Ledger (Frame S)} → {b : S.Ty} → {code : Code S} →
    code.Total ledger b → CodeEnds K ledger b code
  | _, _, _, .intro node_total frames_total sound => by
    refine ⟨?_⟩
    rintro later rest ⟨node, frames⟩ session hlater hrest ⟨hnode, hsound, hframes⟩ agrees
    have hends := frames_total.ends hlater hrest
    cases hnode
    exact hends.of_node node_total hsound hframes agrees

end

/-! ## 3. Total codes -/

namespace Code.TotalOn

variable {code next : Code S} {session later : Session K}

/-- **No endless run begins with a total code.** -/
theorem ends (h : code.TotalOn type session) : code.Ends session := by
  obtain ⟨total, agrees⟩ := h
  have hjoins : Code.Joins _ code [] code := ⟨rfl, total.frames_sound, (List.append_nil _).symm⟩
  exact (Code.Total.ends total).ends (List.prefix_refl _) .nil hjoins agrees

theorem onward (h : code.TotalOn type session) (honward : session.Onward later) :
    code.TotalOn type later := by
  obtain ⟨total, agrees⟩ := h
  obtain ⟨_, hlater, hagrees⟩ := honward _ agrees
  exact ⟨total.mono hlater, hagrees⟩

theorem applied {value : Packed S} {frames : Sequence (Frame S)}
    (h : (Code.mk (.value value) frames).TotalOn type session)
    (applies : Code.applyFirst value frames session = .ok (some next) later) :
    next.TotalOn type later := by
  obtain ⟨total, agrees⟩ := h
  obtain ⟨_, _, -, hlast⟩ | ⟨_, _, hnext, happly⟩ := total.turn_value agrees
  · cases hlast.symm.trans applies
  · cases happly.symm.trans applies
    exact hnext

theorem answered {effect : S.Effect} {frame : Frame S} {frames : Sequence (Frame S)}
    {answer : Packed S} (h : (Code.mk (.ask effect frame) frames).TotalOn type session)
    (answers : Waiting.answer ⟨effect, frame, frames⟩ answer session = .ok next later) :
    next.TotalOn type later := by
  obtain ⟨total, agrees⟩ := h
  obtain ⟨_, hmismatch⟩ | ⟨_, _, hnext, hanswer⟩ := total.turn_ask agrees answer
  · cases hmismatch.symm.trans answers
  · cases hanswer.symm.trans answers
    exact hnext

/-- **Whatever a total code comes to is total.** -/
theorem comesTo (h : code.TotalOn type session) (hcomes : code.ComesTo session next later) :
    next.TotalOn type later := by
  induction hcomes with
  | here => exact h
  | onward _ honward ih => exact ih.onward honward
  | applied _ pop apply append ih =>
    exact ih.applied ((bind_of_ok pop).trans ((bind_of_ok apply).trans (bind_of_ok append)))
  | answered _ hanswer ih => exact ih.answered hanswer

/-- **The loop up to the next effect ends** at that effect or at the final value. -/
theorem advance_ends (h : code.TotalOn type session) : ∃ enough stop last, ∀ turns,
    enough ≤ turns → code.advance turns session = .ok stop last := by
  induction h.ends with
  | @intro code session turns ih =>
  obtain ⟨node, frames⟩ := code
  cases node with
  | ask effect frame =>
    refine ⟨1, .waiting ⟨effect, frame, frames⟩, session, fun turns hturns => ?_⟩
    obtain ⟨turns, rfl⟩ := Nat.exists_eq_add_of_le' hturns
    rfl
  | value value =>
    obtain ⟨total, agrees⟩ := h
    obtain ⟨_, last, -, hlast⟩ | ⟨next, last, hnext, happly⟩ := total.turn_value agrees
    · refine ⟨1, .finished value, last, fun turns hturns => ?_⟩
      obtain ⟨turns, rfl⟩ := Nat.exists_eq_add_of_le' hturns
      rw [Code.advance_value, bind_of_ok hlast]
      rfl
    · obtain ⟨enough, stop, final, hstop⟩ := ih (.applied rfl (session.onward_refl) happly) hnext
      refine ⟨enough + 1, stop, final, fun turns hturns => ?_⟩
      obtain ⟨turns, rfl⟩ := Nat.exists_eq_add_of_le' (Nat.le_of_add_left_le hturns)
      rw [Code.advance_value, bind_of_ok happly]
      exact hstop turns (Nat.le_of_succ_le_succ hturns)

end Code.TotalOn

/-! ## 4. Runs with a handler -/

/-- How a run with a handler can end: with a value for which the given holds, as the handler refused
or halted, or because an answer is of another type than its effect was lifted at. -/
inductive Outcome (handler : Handler K Failure) (good : α → Prop) :
    EStateM.Result (Halt S) (Session K) (Except Failure α) → Prop
  | value {value : α} {last : Session K} (holds : good value) :
    Outcome handler good (.ok (.ok value) last)
  | refused {effect : S.Effect} {failure : Failure} {asked refused last : Session K}
    (refuses : handler effect asked = .ok (.error failure) refused) :
    Outcome handler good (.ok (.error failure) last)
  | halted {effect : S.Effect} {halt : Halt S} {asked halted last : Session K}
    (halts : handler effect asked = .error halt halted) : Outcome handler good (.error halt last)
  | mistyped (expected : S.Ty) {last : Session K} :
    Outcome handler good (.error (.mismatch .answer expected) last)

section Handler

variable {handler : Handler K Failure} {code : Code S} {session : Session K}

/-- **The turns of a run end.**  The loop has a turn with `spare` turns for frames and then further
ones. -/
theorem Code.TotalOn.serve_ends (h : code.TotalOn type session)
    (onward : ∀ effect (s : Session K), s.Onward (Run.last (handler effect s))) (effects : Nat) :
    ∃ enough result, Outcome handler (fun value : Packed S => value.type = type) result ∧
      ∀ turns spare, enough ≤ turns → enough ≤ spare →
        (code.advance spare >>= Code.serve handler turns effects) session = result := by
  induction h.ends generalizing effects with
  | @intro code session turns ih =>
  obtain ⟨node, frames⟩ := code
  cases node with
  | value value =>
    obtain ⟨total, agrees⟩ := h
    obtain ⟨result, last, rfl, hlast⟩ | ⟨next, last, hnext, happly⟩ := total.turn_value agrees
    · refine ⟨1, .ok (.ok ⟨type, result⟩) (last.told (.programFinished effects)), .value rfl, ?_⟩
      intro turns spare _ hspare
      obtain ⟨spare, rfl⟩ := Nat.exists_eq_add_of_le' hspare
      rw [Code.advance_value, bind_assoc, bind_of_ok hlast]
      rfl
    · obtain ⟨enough, result, houtcome, hresult⟩ :=
        ih (.applied rfl (session.onward_refl) happly) hnext effects
      refine ⟨enough + 1, result, houtcome, fun turns spare hturns hspare => ?_⟩
      obtain ⟨spare, rfl⟩ := Nat.exists_eq_add_of_le' (Nat.le_of_add_left_le hspare)
      rw [Code.advance_value, bind_assoc, bind_of_ok happly]
      exact hresult turns spare (Nat.le_of_succ_le hturns) (Nat.le_of_succ_le_succ hspare)
  | ask effect frame =>
    -- It is enough to know what the loop does once it stopped at the effect.
    suffices hserve : ∃ enough result,
        Outcome handler (fun value : Packed S => value.type = type) result ∧
          ∀ turns, enough ≤ turns → Code.serve handler turns effects
            (.waiting ⟨effect, frame, frames⟩) session = result by
      obtain ⟨enough, result, houtcome, hresult⟩ := hserve
      refine ⟨enough + 1, result, houtcome, fun turns spare hturns hspare => ?_⟩
      obtain ⟨spare, rfl⟩ := Nat.exists_eq_add_of_le' (Nat.le_of_add_left_le hspare)
      exact hresult turns (Nat.le_of_succ_le hturns)
    cases hanswer : handler effect session with
    | error halt s =>
      exact ⟨0, .error halt s, .halted hanswer, fun turns _ => bind_of_error hanswer⟩
    | ok answer s =>
      cases answer with
      | error failure =>
        exact ⟨0, _, .refused hanswer, fun turns _ => bind_of_ok hanswer⟩
      | ok answer =>
        have honward : session.Onward s := by
          have hlast := onward effect session
          rw [hanswer] at hlast
          exact hlast
        obtain ⟨total, agrees⟩ := h.onward honward
        obtain ⟨expected, hmismatch⟩ | ⟨next, last, hnext, htaken⟩ := total.turn_ask agrees answer
        · refine ⟨0, .error _ s, .mistyped expected, fun turns _ => ?_⟩
          rw [Code.serve, bind_of_ok hanswer]
          exact bind_of_error hmismatch
        · obtain ⟨enough, result, houtcome, hresult⟩ :=
            ih (.answered rfl honward htaken) hnext (effects + 1)
          refine ⟨enough + 1, result, houtcome, fun turns hturns => ?_⟩
          obtain ⟨turns, rfl⟩ := Nat.exists_eq_add_of_le' (Nat.le_of_add_left_le hturns)
          have hturns := Nat.le_of_succ_le_succ hturns
          rw [Code.serve, bind_of_ok hanswer]
          refine (bind_of_ok htaken).trans ?_
          rw [Code.handle_succ]
          exact hresult turns turns hturns hturns

/-- The value of a loop that ends has the type of the program, and is taken at this type. -/
theorem Outcome.ended {result : EStateM.Result (Halt S) (Session K) (Except Failure (Packed S))}
    (h : Outcome handler (fun value : Packed S => value.type = type) result) :
    Outcome handler Any (Program.ended type result) := by
  cases h with
  | @value packed last htype =>
    obtain ⟨_, value⟩ := packed
    cases htype
    rw [Program.ended, Packed.unpack_self]
    exact .value trivial
  | refused refuses => exact .refused refuses
  | halted halts => exact .halted halts
  | mistyped expected => exact .mistyped expected

end Handler

namespace Program

variable {ledger : Ledger (Frame S)} {program : Program S type} {session : Session K}

theorem Total.totalOn (h : program.Total ledger) (agrees : session.memo.Agrees ledger) :
    program.code.TotalOn type session := ⟨h, agrees⟩

/-- A whole run of a total program ends. -/
theorem tryRunIn_ends {handler : Handler K Failure} (h : program.code.TotalOn type session)
    (onward : ∀ effect (s : Session K), s.Onward (Run.last (handler effect s))) :
    ∃ enough result, Outcome handler Any result ∧
      ∀ turns, enough ≤ turns → program.tryRunIn turns handler session = result := by
  have hentered : program.code.TotalOn type (session.told (.enter .run)) :=
    h.onward fun ledger agrees => ⟨ledger, List.prefix_refl ledger, agrees⟩
  obtain ⟨enough, result, houtcome, hresult⟩ := hentered.serve_ends onward 0
  refine ⟨enough + 1, ended type result, houtcome.ended, fun turns hturns => ?_⟩
  obtain ⟨turns, rfl⟩ := Nat.exists_eq_add_of_le' (Nat.le_of_add_left_le hturns)
  have hturns := Nat.le_of_succ_le_succ hturns
  rw [tryRunIn_eq_ended, Code.handle_succ, hresult turns turns hturns hturns]

/-- **Every run of a total program ends.**  Take a program put together from values and effects by
binds, whose functions return total programs at every value, on any session with a table that fits.
From whatever the program comes to in any run, by turns and with anything happening in between, no
endless run of turns begins, however effects are answered; and the loop up to the next effect ends
at this effect or at the final value, in as many turns as it takes.  A run with a handler ends,
whatever the handler answers: with a value of the type of the program, as the handler refused or
halted, or because an answer is of another type than its effect was lifted at.

Values and effects are such programs, and so is what the combinators make of such programs with
functions that return. -/
theorem runs_end (total : program.Total ledger) (agrees : session.memo.Agrees ledger) :
    (∀ {code : Code S} {later : Session K}, program.code.ComesTo session code later →
      (¬ ∃ run : Nat → Code S × Session K, run 0 = (code, later) ∧
        ∀ n, (run n).1.Turn (run n).2 (run (n + 1)).1 (run (n + 1)).2) ∧
      ∃ enough stop last, ∀ turns, enough ≤ turns → code.advance turns later = .ok stop last) ∧
    (∀ {Failure : Type} (handler : Handler K Failure),
      (∀ effect (s : Session K), s.Onward (Run.last (handler effect s))) →
        ∃ enough result, Outcome handler Any result ∧
          ∀ turns, enough ≤ turns → program.tryRunIn turns handler session = result) ∧
    ∀ base : Ledger (Frame S), Program.Generated base := by
  have h : program.code.TotalOn type session := total.totalOn agrees
  refine ⟨fun hcomes => ?_, fun handler onward => tryRunIn_ends h onward, generated⟩
  have hcode := h.comesTo hcomes
  refine ⟨?_, hcode.advance_ends⟩
  rintro ⟨run, hstart, hrun⟩
  exact hcode.ends.not_endless run hstart hrun

end Program

/-- Does as many jobs as the number says. -/
def jobsDown : Nat → Building Jobs.signature (Program Jobs.signature Jobs.Ty.unit)
  | 0 => return .pure ()
  | jobs + 1 => liftM (Jobs.job1.bind fun _ => jobsDown jobs)

/-- Does as many jobs again as were done. -/
def jobsAgain : Naming (Program Jobs.signature Jobs.Ty.unit) :=
  (Jobs.read Jobs.Ty.count fun context => context.jobsDone.size).bind jobsDown

theorem jobsDown_total (jobs : Nat) (ledger : Ledger (Frame Jobs.signature)) :
    (jobsDown jobs).Total ledger := by
  induction jobs generalizing ledger with
  | zero =>
    have hpure : (.pure () : Program Jobs.signature Jobs.Ty.unit).Total ledger :=
      Program.pure_total _
    exact .ready hpure
  | succ jobs ih =>
    exact .of_ensures (Program.bind_total (Program.lift_total _) fun _ later _ => ih later)

/-- Tells of two jobs that were done, and does every job. -/
def tellTwo : HostHandler countingHost String := fun effect jobs =>
  match effect with
  | .read type view => .ok (.ok ⟨type, view ⟨#["job1", "job2"]⟩⟩) jobs
  | _ => .ok (.ok Jobs.unitAnswer) (jobs + 1)

/-- How long the program is depends on the first answer, and it ends. -/
theorem jobsAgain_ends : ∃ enough result, Outcome tellTwo.onSession Any result ∧
    ∀ turns, enough ≤ turns → (jobsAgain.run 0).1.tryRunIn turns tellTwo.onSession
      (Session.startAt (jobsAgain.run 0).2 0 : Session countingHost) = result := by
  have hensures : Naming.Ensures [] jobsAgain fun later made => made.Total later :=
    Program.bind_total (Program.lift_total _) fun jobs later _ => jobsDown_total jobs later
  obtain ⟨ledger, -, hlength, total⟩ := hensures
  have hnext : (jobsAgain.run 0).2 = ledger.length := hlength
  rw [hnext]
  have agrees : (Session.startAt ledger.length 0 : Session countingHost).memo.Agrees ledger :=
    Session.startAt_agrees (K := countingHost) ledger (0 : Nat)
  exact (Program.runs_end total agrees).2.1 tellTwo.onSession fun _ _ => Run.hosted_onward _ _

end FreePrograms
