/-
# Runs of job programs with a quota

A run with a quota does what the run without one does, up to the first job beyond the limit, where
it is refused.  How many jobs were recorded is a matter of the run so far, and what a program does
next can depend on it, so the two runs have to be the same call by call (`performWithin_eq` says
that a quota is a guard before `perform`; the rest is `Program.tryRunIn_guarded_pass` and
`Program.tryRunIn_guarded_refuse`).

Each job that is asked for is recorded, and nothing else is (`chain_jobs`), so the jobs recorded
when a call is made are the jobs among the calls before it.
-/
import FreePrograms.Jobs.Workshop
import FreePrograms.Proofs.Run.Calls
import FreePrograms.Proofs.Tree.Run

namespace FreePrograms.Jobs

variable {type : Ty}

/-! ## 1. Jobs that are recorded -/

/-- The effect is a job of one of the three kinds. -/
def Effect.isJob (effect : Effect) : Bool := effect.job?.isSome

/-- How many jobs were recorded. -/
def Workshop.jobs (workshop : Workshop) : Nat := workshop.context.jobsDone.size

/-- How many of the calls ask for a job. -/
def jobsAmong (calls : List (Call host Effect)) : Nat := calls.countP fun call => call.effect.isJob

theorem host_heedless : Host.Heedless host := fun _ _ => rfl

/-- A job is recorded, and nothing else is. -/
theorem perform_jobs {Failure : Type} (effect : Effect) (session : Session host) :
    (Run.last ((answering perform : Handler host Failure) effect session)).host.jobs =
      session.host.jobs + if effect.isJob then 1 else 0 := by
  cases effect with
  | job1 | job2 | special name =>
    exact Array.size_push _
  | print message | read type view => rfl

/-- Along the calls of a run the jobs that they ask for are recorded. -/
theorem chain_jobs {first last : host.State} {calls : List (Call host Effect)}
    (h : Call.Chain (answering perform : Handler host Empty) first calls last) :
    Workshop.jobs last = Workshop.jobs first + jobsAmong calls := by
  induction calls generalizing first with
  | nil =>
    cases h
    rfl
  | cons call calls ih =>
    cases h with
    | cons asked rest =>
      subst asked
      rw [ih rest, perform_jobs, jobsAmong, jobsAmong, List.countP_cons]
      omega

/-! ## 2. A quota is a guard -/

/-- Why the job would be beyond the limit. -/
def refusal (limit : Nat) (effect : Effect) (session : Session host) : Option Refused :=
  if effect.isJob && decide (limit ≤ session.host.jobs) then some (.quotaExceeded limit) else none

theorem performWithin_eq (limit : Nat) :
    performWithin limit = (guarded (refusal limit) perform : Handler host Refused) := by
  funext effect session
  have hlimit : performWithin limit effect session =
      (if effect.isJob && decide (limit ≤ session.host.jobs) then
        return .error (.quotaExceeded limit)
      else return .ok (← perform effect) : Run host (Except Refused (Packed signature))) session :=
    rfl
  rw [hlimit, guarded, refusal]
  split
  · rfl
  · rfl

/-- The session in which a run begins: no job is recorded yet. -/
def cleared (session : Session host) : Session host :=
  { session with host := ⟨⟨#[]⟩, session.host.lines⟩ }

/-- The calls of a run without a quota. -/
def callsNow (turns : Nat) (program : Program signature type) (session : Session host) :
    List (Call host Effect) :=
  program.calls turns (answering perform : Handler host Empty) (cleared session)

/-- The calls of a run with a quota. -/
def callsWithin (turns : Nat) (program : Program signature type) (limit : Nat)
    (session : Session host) : List (Call host Effect) :=
  program.calls turns (performWithin limit) (cleared session)

theorem runNow_eq (turns : Nat) (program : Program signature type) (session : Session host) :
    runNow turns program session = program.runIn turns perform (cleared session) := rfl

theorem runWithin_eq (turns : Nat) (program : Program signature type) (limit : Nat)
    (session : Session host) : runWithin turns program limit session =
      program.tryRunIn turns (guarded (refusal limit) perform) (cleared session) := by
  rw [← performWithin_eq]
  rfl

section Counting

variable {turns : Nat} {program : Program signature type} {session : Session host}

/-- The workshop goes from call to call. -/
theorem callsNow_chain (turns : Nat) (program : Program signature type) (session : Session host) :
    Call.Chain (answering perform : Handler host Empty) (cleared session).host
      (callsNow turns program session)
      (Run.last (program.tryRunIn turns (answering perform : Handler host Empty)
        (cleared session))).host :=
  program.tryRunIn_chain host_heedless turns _ _

/-- **At each call the jobs among the calls before it are recorded.** -/
theorem jobs_before {earlier later : List (Call host Effect)} {call : Call host Effect}
    (h : callsNow turns program session = earlier ++ call :: later) :
    call.session.host.jobs = jobsAmong earlier := by
  have hchain := callsNow_chain turns program session
  rw [h] at hchain
  have hjobs := chain_jobs hchain.before
  exact hjobs.trans (Nat.zero_add _)

/-- In the end all jobs among the calls are recorded. -/
theorem jobs_after {value : type.El} {last : Session host}
    (h : runNow turns program session = .ok value last) :
    last.host.jobs = jobsAmong (callsNow turns program session) := by
  have hchain := callsNow_chain turns program session
  rw [runNow_eq, Program.runIn_eq_accepted] at h
  rw [Run.eq_of_accepted h, Run.last_ok] at hchain
  exact (chain_jobs hchain).trans (Nat.zero_add _)

/-- Calls among which there are no more jobs than the limit are not refused. -/
theorem refusal_eq_none {limit : Nat} {earlier later : List (Call host Effect)}
    (h : callsNow turns program session = earlier ++ later) (hlimit : jobsAmong earlier ≤ limit) :
    ∀ call ∈ earlier, refusal limit call.effect call.session = none := by
  intro call hcall
  obtain ⟨before, after, rfl⟩ := List.append_of_mem hcall
  rw [List.append_assoc, List.cons_append] at h
  have hjobs := jobs_before h
  rw [jobsAmong, List.countP_append, List.countP_cons] at hlimit
  rw [refusal, hjobs, jobsAmong]
  split
  · next hrefused =>
    simp only [Bool.and_eq_true, decide_eq_true_eq] at hrefused
    rw [if_pos hrefused.1] at hlimit
    omega
  · rfl

/-- Where there are more jobs than the limit, one of them is the first beyond it. -/
theorem exists_beyond {limit : Nat} {calls : List (Call host Effect)}
    (h : limit < jobsAmong calls) :
    ∃ earlier call later, calls = earlier ++ call :: later ∧ call.effect.isJob = true ∧
      jobsAmong earlier = limit := by
  induction calls generalizing limit with
  | nil => cases h
  | cons call calls ih =>
    rw [jobsAmong, List.countP_cons] at h
    by_cases hjob : call.effect.isJob = true
    · rw [if_pos hjob] at h
      cases limit with
      | zero => exact ⟨[], call, calls, rfl, hjob, rfl⟩
      | succ limit =>
        obtain ⟨earlier, beyond, later, rfl, hbeyond, hearlier⟩ :=
          ih (show limit < jobsAmong calls by rw [jobsAmong]; omega)
        refine ⟨call :: earlier, beyond, later, rfl, hbeyond, ?_⟩
        rw [jobsAmong, List.countP_cons, if_pos hjob, ← hearlier, jobsAmong]
    · rw [if_neg hjob] at h
      obtain ⟨earlier, beyond, later, rfl, hbeyond, hearlier⟩ := ih h
      refine ⟨call :: earlier, beyond, later, rfl, hbeyond, ?_⟩
      rw [jobsAmong, List.countP_cons, if_neg hjob, ← hearlier, jobsAmong, Nat.add_zero]

end Counting

/-! ## 3. Within the limit, and beyond it -/

/-- A call leaves no more jobs recorded than the limit. -/
theorem performWithin_le (limit : Nat) (effect : Effect) (session : Session host)
    (h : session.host.jobs ≤ limit) :
    (Run.last (performWithin limit effect session)).host.jobs ≤ limit := by
  rw [performWithin_eq, guarded, refusal]
  split
  · exact h
  · next hpass =>
    rw [perform_jobs]
    split at hpass
    · cases hpass
    · next hbelow =>
      simp only [Bool.and_eq_true, decide_eq_true_eq, not_and, Nat.not_le] at hbelow
      by_cases hjob : effect.isJob = true
      · rw [if_pos hjob]
        exact hbelow hjob
      · rw [if_neg hjob]
        exact h

/-- **No run with a quota has more jobs recorded than the limit**, at any call, after any call, or
in the end. -/
theorem runWithin_le (turns : Nat) (program : Program signature type) (limit : Nat)
    (session : Session host) :
    (Run.last (runWithin turns program limit session)).host.jobs ≤ limit ∧
      ∀ call ∈ callsWithin turns program limit session, call.session.host.jobs ≤ limit ∧
        (Run.last (performWithin limit call.effect call.session)).host.jobs ≤ limit := by
  have hchain := program.tryRunIn_chain host_heedless turns (performWithin limit) (cleared session)
  have hkept := hchain.keeps (fun workshop : host.State => Workshop.jobs workshop ≤ limit)
    (performWithin_le limit) (Nat.zero_le limit)
  refine ⟨hkept.1, fun call hcall => ?_⟩
  have hcall := hkept.2 call hcall
  exact ⟨hcall, performWithin_le limit call.effect call.session hcall⟩

/-- **A quota cuts a run off at the first job beyond the limit, and changes nothing else.**  Of a
run that ends with a value by itself, take the jobs that it recorded.  If they are no more than the
limit, the run with the quota ends with the same value and leaves the same session, so it prints the
same lines.  If they are more, there is one call for the first job beyond the limit, before which as
many jobs as the limit were asked for; the run with the quota is refused there, with the limit as
the cause, as many jobs as the limit are recorded, and the lines are those that the run without a
quota has printed when it makes this call.  In no run with a quota, whether it ends or not, are ever
more jobs recorded than the limit. -/
theorem quota_cuts_off (turns : Nat) (program : Program signature type) (limit : Nat)
    (session : Session host) :
    (∀ value last, runNow turns program session = .ok value last →
      (last.host.jobs ≤ limit →
        runWithin turns program limit session = .ok (.ok value) last) ∧
      (limit < last.host.jobs →
        ∃ earlier call later final, callsNow turns program session = earlier ++ call :: later ∧
          call.effect.isJob = true ∧ jobsAmong earlier = limit ∧
          runWithin turns program limit session = .ok (.error (.quotaExceeded limit)) final ∧
          final.host.jobs = limit ∧ final.host = call.session.host)) ∧
    (Run.last (runWithin turns program limit session)).host.jobs ≤ limit ∧
    ∀ call ∈ callsWithin turns program limit session, call.session.host.jobs ≤ limit ∧
      (Run.last (performWithin limit call.effect call.session)).host.jobs ≤ limit := by
  refine ⟨fun value last hrun => ?_, runWithin_le turns program limit session⟩
  rw [jobs_after hrun, runWithin_eq]
  rw [runNow_eq, Program.runIn_eq_accepted] at hrun
  constructor
  · intro hwithin
    have hall : callsNow turns program session = callsNow turns program session ++ [] := by simp
    rw [Program.tryRunIn_guarded_pass (refusal_eq_none hall hwithin),
      Run.eq_of_accepted hrun, Run.unrefused]
  · intro hbeyond
    obtain ⟨earlier, call, later, hcalls, hjob, hearlier⟩ := exists_beyond hbeyond
    have hjobs := jobs_before hcalls
    have hrefuse : refusal limit call.effect call.session = some (.quotaExceeded limit) := by
      rw [refusal, hjobs, hearlier, hjob]
      simp
    have hpass := refusal_eq_none hcalls (Nat.le_of_eq hearlier)
    have hcut := Program.tryRunIn_guarded_refuse hcalls hpass hrefuse
    exact ⟨earlier, call, later, _, hcalls, hjob, hearlier, hcut, hjobs.trans hearlier, rfl⟩

/-- Does a job, prints how many are done by then, and does another one. -/
def countedJobs : Tree signature Ty.unit :=
  (Tree.lift Effect.job1 : Tree signature Ty.unit).followedBy
    ((Tree.lift (Effect.read Ty.count fun context => context.jobsDone.size) :
      Tree signature Ty.count).bind fun count =>
        .tree ((Tree.lift (Effect.print (jobsMessage count)) : Tree signature Ty.unit).followedBy
          (Tree.lift Effect.job2)))

/-- The program of that tree, and the next name. -/
def counted : Program signature Ty.unit × Cell := countedJobs.build.run 0

/-- What is performed, as a computation of the workshop. -/
def performed : HostHandler host Empty := fun effect workshop =>
  hostResult ((answering perform : Handler host Empty) effect (Session.start workshop))

theorem performed_onSession : (answering perform : Handler host Empty) = performed.onSession := by
  funext effect session
  cases effect <;> rfl

/-- With a quota of two the run ends as it does without one; with a quota of one it is refused. -/
theorem counted_cut_off : ∃ enough, ∀ turns, enough ≤ turns → ∃ last final,
    runNow turns counted.1 (.startAt counted.2 .start) = .ok () last ∧
      runWithin turns counted.1 2 (.startAt counted.2 .start) = .ok (.ok ()) last ∧
      runWithin turns counted.1 1 (.startAt counted.2 .start)
        = .ok (.error (.quotaExceeded 1)) final ∧
      final.host.jobs = 1 := by
  have hrun : countedJobs.runIn 0 (fun _ => none) performed Workshop.start
      = .ok (.ok ()) ⟨⟨#["job1", "job2"]⟩,
          #["[job1]", "[read]", "[print:][ 1 jobs is done, wow! ]", "[job2]"]⟩ := rfl
  have hstands : counted.1.StandsFor countedJobs (fun _ => none)
      (Session.startAt counted.2 Workshop.start : Session host) :=
    countedJobs.build_standsFor (fun _ => rfl) _
  obtain ⟨enough, h⟩ := hstands.tryRunIn_eq performed (.inl fun _ => rfl)
  refine ⟨enough, fun turns hturns => ?_⟩
  have hresult := (h turns hturns).trans hrun
  rw [← performed_onSession] at hresult
  obtain ⟨last, hnow, hjobs⟩ : ∃ last,
      runNow turns counted.1 (.startAt counted.2 .start) = .ok () last ∧ last.host.jobs = 2 := by
    rw [runNow_eq, Program.runIn_eq]
    cases htry : counted.1.tryRunIn turns (answering perform : Handler host Empty)
        (cleared (.startAt counted.2 .start)) with
    | error halt last => cases (congrArg hostResult htry).symm.trans hresult
    | ok result last =>
      have hlast := (congrArg hostResult htry).symm.trans hresult
      simp only [hostResult, EStateM.Result.ok.injEq] at hlast
      obtain ⟨rfl, hhost⟩ := hlast
      exact ⟨last, bind_of_ok htry, by rw [hhost]; rfl⟩
  obtain ⟨htwo, -⟩ := (quota_cuts_off turns counted.1 2 (.startAt counted.2 .start)).1 () last hnow
  obtain ⟨-, hone⟩ := (quota_cuts_off turns counted.1 1 (.startAt counted.2 .start)).1 () last hnow
  obtain ⟨_, _, _, final, -, -, -, hcut, hfinal, -⟩ := hone (by omega)
  exact ⟨last, final, hnow, htwo (by omega), hcut, hfinal⟩

end FreePrograms.Jobs
