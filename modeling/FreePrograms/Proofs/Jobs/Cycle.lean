/-
# The cycle of numbered jobs

The numbered jobs unfold from their number by `countdown`, and are counted in the end.  How they run
is followed round by round.  `Advances` says of a handler what one job of the cycle does to the
state of the host: it leads from the state after so many jobs to the state after one more.  Then so
many rounds of the cycle lead as many states further (`unfold_rounds`), whatever the handler is; the
runs at once, deferred, with a quota and with a journal differ in the states alone.
-/
import FreePrograms.Proofs.Jobs.Quota
import FreePrograms.Proofs.Run.Blind
import FreePrograms.Proofs.Tree.Unfolding
import FreePrograms.Proofs.Tree.Ways

namespace FreePrograms.Jobs

variable {K : Host signature} {Failure : Type} {length : UInt64}

/-! ## 1. The tree of the cycle -/

/-- The name of a job of the cycle. -/
def jobName (number : Nat) : String := "In Cycle Job (" ++ toString number ++ ")"

/-- How many jobs of the cycle remain when so many are done. -/
def remaining (length : UInt64) (done : Nat) : UInt64 := .ofNat (length.toNat - done)

theorem remaining_toNat (length : UInt64) (done : Nat) :
    (remaining length done).toNat = length.toNat - done :=
  UInt64.toNat_ofNat_of_lt' (Nat.lt_of_le_of_lt (Nat.sub_le _ _) length.toNat_lt)

theorem remaining_zero (length : UInt64) : remaining length 0 = length := by
  rw [← UInt64.toNat_inj, remaining_toNat, Nat.sub_zero]

theorem remaining_pos {done : Nat} (h : done < length.toNat) : 0 < remaining length done := by
  rw [UInt64.lt_iff_toNat_lt, remaining_toNat]
  exact Nat.sub_pos_of_lt h

/-- The number of the next job. -/
theorem sub_remaining_toNat {done : Nat} (h : done ≤ length.toNat) :
    (length - remaining length done).toNat = done := by
  have hle : remaining length done ≤ length := by
    rw [UInt64.le_iff_toNat_le, remaining_toNat]
    omega
  rw [UInt64.toNat_sub_of_le _ _ hle, remaining_toNat]
  omega

theorem remaining_sub_one {done : Nat} (h : done < length.toNat) :
    remaining length done - 1 = remaining length (done + 1) := by
  have hle : 1 ≤ remaining length done := by
    rw [UInt64.le_iff_toNat_le, remaining_toNat]
    change 1 ≤ _
    omega
  rw [← UInt64.toNat_inj, UInt64.toNat_sub_of_le _ _ hle, remaining_toNat, remaining_toNat]
  change _ - 1 = _
  omega

/-- Does a job and yields how many remain then. -/
def jobTree (name : String) (left : UInt64) : Tree signature Ty.length :=
  (Tree.lift (Effect.special name) : Tree signature Ty.unit).map fun _ => .ok left

/-- What the countdown gives for the number that remains. -/
def cyclePlan (length : UInt64) : Plan signature Ty.length := fun left =>
  if 0 < left then .ok (some (jobTree (jobName (length - left).toNat) (left - 1))) else .ok none

theorem cyclePlan_of_pos {left : UInt64} (h : 0 < left) : cyclePlan length left
    = .ok (some (jobTree (jobName (length - left).toNat) (left - 1))) := if_pos h

theorem cyclePlan_zero (length : UInt64) : cyclePlan length 0 = .ok none := rfl

theorem cyclePlan_tells (length : UInt64) (base : Ledger (Frame signature)) :
    (cyclePlan length).Tells base (countdown length) := by
  intro left ledger _
  rw [cyclePlan, countdown]
  split
  · obtain ⟨later, hlater, hnext, follows⟩ := Program.map_follows
      (Program.lift_follows (Effect.special (jobName (length - left).toNat)))
      fun _ : signature.El Ty.unit => (.ok (left - 1) : Except _ (signature.El Ty.length))
    have hmade := Planned.go hlater follows
    rw [← hnext] at hmade
    exact hmade
  · exact .stop (List.prefix_refl ledger)

/-- The cycle always gives a program. -/
theorem exists_unfold_tree (length : UInt64) (rounds : Nat) (left : UInt64) :
    ∃ tree, Branch.unfold (cyclePlan length) (rounds + 1) left = .tree tree := by
  rw [Branch.unfold]
  by_cases hleft : 0 < left
  · rw [cyclePlan_of_pos hleft]
    exact ⟨_, rfl⟩
  · rw [cyclePlan, if_neg hleft]
    exact ⟨_, rfl⟩

/-- Reads how many jobs were done, prints it and yields it. -/
def countTree : Tree signature Ty.count :=
  (Tree.lift (Effect.read Ty.count fun context => context.jobsDone.size) :
    Tree signature Ty.count).bind fun count =>
      .tree ((Tree.lift (Effect.print (jobsMessage count)) : Tree signature Ty.unit).map
        fun _ => .ok count)

theorem countJobs_follows (ledger : Ledger (Frame signature)) :
    Naming.Ensures ledger countJobs fun later made => made.Follows later countTree :=
  Program.bind_follows (Program.lift_follows _) fun _ _ _ =>
    .tree (Program.map_follows (Program.lift_follows _) _)

/-- The numbered jobs are made, and are a program of the cycle followed by the count. -/
theorem numberedJobs_made (rounds : Nat) (length : UInt64) {ledger : Ledger (Frame signature)}
    {session : Session K} (agrees : session.memo.Agrees ledger) :
    ∃ jobs program later, Branch.unfold (cyclePlan length) (rounds + 1) length = .tree jobs ∧
      Run.building (numberedJobs (rounds + 1) length) session
        = .ok program (session.named later.length) ∧
      ledger <+: later ∧ program.Follows later (jobs.followedBy countTree) := by
  obtain ⟨jobs, hjobs⟩ := exists_unfold_tree length rounds length
  have hfollows := Program.unfold_follows (cyclePlan_tells length ledger) (rounds + 1) length
    (List.prefix_refl ledger)
  rw [hjobs] at hfollows
  obtain ⟨later, unfolded, hlater, follows, hsteps⟩ := hfollows.made_tree
  have hcounted := (countJobs_follows later).bind fun _ _ hlast hcount =>
    Program.followedBy_follows (follows.mono hlast) hcount
  have hnumbered : Building.Follows ledger (numberedJobs (rounds + 1) length)
      (.tree (jobs.followedBy countTree)) := .after hlater hsteps (.tree hcounted)
  obtain ⟨last, program, hlast, follows, hsteps⟩ := hnumbered.made_tree
  rw [← agrees.next_eq] at hsteps
  exact ⟨jobs, program, last, hjobs, Run.building_of_ok hsteps, hlast, follows⟩

/-! ## 2. Round by round -/

section Rounds

variable {handler : HostHandler K Failure} {kept : KeptRuns K Failure} {state : Nat → K.State}
  {bound done : Nat} {failure : Failure} {host host' : K.State}

/-- The handler does the jobs of the cycle up to the bound: each leads from a state to the next one,
once the host noted the functions that are applied before the next job. -/
structure Advances (length : UInt64) (handler : HostHandler K Failure) (state : Nat → K.State)
    (bound : Nat) : Prop where
  job (done : Nat) : done < bound → ∃ host,
    handler (.special (jobName done)) (state done) = .ok (.ok unitAnswer) host ∧
      K.observe (.bind .given ⟨Ty.length, remaining length (done + 1)⟩)
        (K.observe (.bind .given unitAnswer) host) = state (done + 1)

theorem jobTree_run {name : String} {left : UInt64}
    (h : handler (.special name) host = .ok (.ok unitAnswer) host') :
    (jobTree name left).run handler kept host
      = .ok (.ok left) (K.observe (.bind .given unitAnswer) host') := by
  have hlift : (Tree.lift (Effect.special name) : Tree signature Ty.unit).run handler kept host
      = .ok (.ok ()) host' := by
    rw [Tree.run, Hosted.andThen_of_ok h]
    rfl
  rw [jobTree, Tree.map, Tree.bind, Tree.run, Hosted.andThen_of_ok hlift]
  rfl

theorem jobTree_refused {name : String} {left : UInt64}
    (h : handler (.special name) host = .ok (.error failure) host') :
    (jobTree name left).run handler kept host = .ok (.error failure) host' := by
  have hlift : (Tree.lift (Effect.special name) : Tree signature Ty.unit).run handler kept host
      = .ok (.error failure) host' := by
    rw [Tree.run, Hosted.andThen_of_refused h]
  rw [jobTree, Tree.map, Tree.bind, Tree.run, Hosted.andThen_of_refused hlift]

/-- The tree of a round in which a job remains. -/
theorem unfold_of_lt (rounds : Nat) (h : done < length.toNat) :
    Branch.unfold (cyclePlan length) (rounds + 1) (remaining length done)
      = .tree ((jobTree (jobName done) (remaining length (done + 1))).bind
        fun left => Branch.unfold (cyclePlan length) rounds left) := by
  rw [Branch.unfold, cyclePlan_of_pos (remaining_pos h), sub_remaining_toNat (Nat.le_of_lt h),
    remaining_sub_one h]

/-- The tree of the round in which none remains. -/
theorem unfold_zero (length : UInt64) (rounds : Nat) :
    Branch.unfold (cyclePlan length) (rounds + 1) 0 = .tree (.pure (0 : UInt64)) := by
  rw [Branch.unfold, cyclePlan_zero]

/-- **One round does one job.** -/
theorem unfold_round (advances : Advances length handler state bound) (hdone : done < bound)
    (hbound : bound ≤ length.toNat) (kept : KeptRuns K Failure) (rounds : Nat) :
    (Branch.unfold (cyclePlan length) (rounds + 1) (remaining length done)).run handler kept
        (state done)
      = (Branch.unfold (cyclePlan length) rounds (remaining length (done + 1))).run handler kept
        (state (done + 1)) := by
  obtain ⟨host, hjob, hstate⟩ := advances.job done hdone
  rw [unfold_of_lt rounds (Nat.lt_of_lt_of_le hdone hbound), ← hstate]
  exact Hosted.andThen_of_ok (jobTree_run hjob)

/-- **So many rounds do as many jobs.** -/
theorem unfold_rounds (advances : Advances length handler state bound)
    (hbound : bound ≤ length.toNat) (kept : KeptRuns K Failure) (rounds jobs : Nat)
    (hjobs : done + jobs ≤ bound) :
    (Branch.unfold (cyclePlan length) (rounds + jobs) (remaining length done)).run handler kept
        (state done)
      = (Branch.unfold (cyclePlan length) rounds (remaining length (done + jobs))).run handler kept
        (state (done + jobs)) := by
  -- The first round is taken off, since the number that remains is known by the jobs done before.
  induction jobs generalizing done with
  | zero => rfl
  | succ jobs ih =>
    have hround := unfold_round advances (show done < bound by omega) hbound kept (rounds + jobs)
    have hrest := ih (show done + 1 + jobs ≤ bound by omega)
    rw [Nat.add_right_comm] at hrest
    exact hround.trans hrest

/-- All jobs of the cycle, in rounds enough. -/
theorem cycle_run (advances : Advances length handler state length.toNat)
    (kept : KeptRuns K Failure) {rounds : Nat} (hrounds : length.toNat < rounds) :
    (Branch.unfold (cyclePlan length) rounds length).run handler kept (state 0)
      = .ok (.ok (0 : UInt64)) (state length.toNat) := by
  obtain ⟨spare, rfl⟩ : ∃ spare, rounds = (spare + 1) + length.toNat :=
    ⟨rounds - length.toNat - 1, by omega⟩
  have hall := unfold_rounds advances (Nat.le_refl _) kept (spare + 1) length.toNat
    (show 0 + length.toNat ≤ length.toNat by omega)
  rw [remaining_zero, Nat.zero_add, remaining, Nat.sub_self] at hall
  exact hall.trans (congrFun (congrArg (Branch.run handler kept) (unfold_zero length spare)) _)

/-- The jobs of the cycle up to one that is refused. -/
theorem cycle_refused (advances : Advances length handler state bound)
    (hbound : bound < length.toNat)
    (hrefused : handler (.special (jobName bound)) (state bound) = .ok (.error failure) host)
    (kept : KeptRuns K Failure) {rounds : Nat} (hrounds : length.toNat < rounds) :
    (Branch.unfold (cyclePlan length) rounds length).run handler kept (state 0)
      = .ok (.error failure) host := by
  obtain ⟨spare, rfl⟩ : ∃ spare, rounds = (spare + 1) + bound := ⟨rounds - bound - 1, by omega⟩
  have hbefore := unfold_rounds advances (Nat.le_of_lt hbound) kept (spare + 1) bound
    (show 0 + bound ≤ bound by omega)
  rw [remaining_zero, Nat.zero_add, unfold_of_lt spare hbound] at hbefore
  exact hbefore.trans (Hosted.andThen_of_refused (jobTree_refused hrefused))

/-- The count: one read, and one print of its message. -/
theorem countTree_run {count : Nat} {first read last : K.State}
    (hread : handler (.read Ty.count fun context => context.jobsDone.size) first
      = .ok (.ok ⟨Ty.count, count⟩) read)
    (hprint : handler (.print (jobsMessage count)) (K.observe (.bind .given ⟨Ty.count, count⟩) read)
      = .ok (.ok unitAnswer) last) :
    countTree.run handler kept first
      = .ok (.ok count) (K.observe (.bind .given unitAnswer) last) := by
  have hcount : (Tree.lift (Effect.read Ty.count fun context => context.jobsDone.size) :
      Tree signature Ty.count).run handler kept first = .ok (.ok count) read := by
    rw [Tree.run, Hosted.andThen_of_ok hread]
    rfl
  have htold : (Tree.lift (Effect.print (jobsMessage count)) : Tree signature Ty.unit).run handler
      kept (K.observe (.bind .given ⟨Ty.count, count⟩) read) = .ok (.ok ()) last := by
    rw [Tree.run, Hosted.andThen_of_ok hprint]
    rfl
  rw [countTree, Tree.bind, Tree.run, Hosted.andThen_of_ok hcount]
  exact Hosted.andThen_of_ok htold

/-- **All jobs of the cycle, and then the count.** -/
theorem numbered_run (advances : Advances length handler state length.toNat)
    (kept : KeptRuns K Failure) {rounds : Nat} (hrounds : length.toNat < rounds)
    {jobs : Tree signature Ty.length}
    (hjobs : Branch.unfold (cyclePlan length) rounds length = .tree jobs) {read last : K.State}
    (hread : handler (.read Ty.count fun context => context.jobsDone.size)
        (K.observe (.bind .glue ⟨Ty.length, (0 : UInt64)⟩) (state length.toNat))
      = .ok (.ok ⟨Ty.count, length.toNat⟩) read)
    (hprint : handler (.print (jobsMessage length.toNat))
        (K.observe (.bind .given ⟨Ty.count, length.toNat⟩) read)
      = .ok (.ok unitAnswer) last) :
    (jobs.followedBy countTree).run handler kept (state 0)
      = .ok (.ok length.toNat) (K.observe (.bind .given unitAnswer) last) := by
  have hcycle := cycle_run advances kept hrounds
  rw [hjobs] at hcycle
  exact (Hosted.andThen_of_ok hcycle).trans (countTree_run hread hprint)

end Rounds

/-! ## 3. What the workshop does -/

section Workshops

variable {lines : Array String} {done : Nat}

/-- What is performed, out of the state of the workshop. -/
def performing (effect : Effect) : Hosted host (Packed signature) := fun workshop =>
  hostResult (perform effect (Session.start workshop))

theorem perform_eq : perform = onSessions (S := signature) (K := host) performing := by
  funext effect session
  cases effect <;> rfl

theorem performed_eq : performed = answered performing := by
  funext effect workshop
  cases effect <;> rfl

/-- The workshop when so many jobs of the cycle are done. -/
def worked (lines : Array String) (done : Nat) : Workshop :=
  ⟨⟨((List.range done).map jobName).toArray⟩, lines⟩

/-- The workshop in the end, when so many jobs were done and counted. -/
def finished (lines : Array String) (count : Nat) : Workshop :=
  worked ((lines.push "[read]").push ("[print:][ " ++ jobsMessage count ++ " ]")) count

theorem worked_jobs (lines : Array String) (done : Nat) : (worked lines done).jobs = done := by
  simp [worked, Workshop.jobs]

/-- One more job. -/
theorem worked_succ (lines : Array String) (done : Nat) : worked lines (done + 1)
    = ⟨⟨(worked lines done).context.jobsDone.push (jobName done)⟩, lines⟩ := by
  simp [worked, List.range_succ]

/-- The workshop advances by itself. -/
theorem performing_advances (length : UInt64) (lines : Array String) (bound : Nat) :
    Advances length (answered performing : HostHandler host Failure) (worked lines) bound := by
  refine ⟨fun done _ => ⟨worked lines (done + 1), ?_, rfl⟩⟩
  rw [worked_succ]
  rfl

theorem performing_read (lines : Array String) (count : Nat) :
    (answered performing : HostHandler host Failure)
        (.read Ty.count fun context => context.jobsDone.size) (worked lines count)
      = .ok (.ok ⟨Ty.count, count⟩) (worked (lines.push "[read]") count) := by
  have hsize : (worked lines count).context.jobsDone.size = count := worked_jobs lines count
  have hread : (answered performing : HostHandler host Failure)
        (.read Ty.count fun context => context.jobsDone.size) (worked lines count)
      = .ok (.ok ⟨Ty.count, (worked lines count).context.jobsDone.size⟩)
          (worked (lines.push "[read]") count) := rfl
  rw [hread, hsize]

theorem performing_print (lines : Array String) (count : Nat) :
    (answered performing : HostHandler host Failure) (.print (jobsMessage count))
        (worked (lines.push "[read]") count)
      = .ok (.ok unitAnswer) (finished lines count) := rfl

/-! ### With a quota -/

/-- What is performed unless it is a job beyond the limit, out of the state of the workshop. -/
def rationed (limit : Nat) : HostHandler host Refused := fun effect workshop =>
  if effect.isJob && decide (limit ≤ workshop.jobs) then
    .ok (.error (.quotaExceeded limit)) workshop
  else answered performing effect workshop

theorem performWithin_onSession (limit : Nat) :
    performWithin limit = (rationed limit).onSession := by
  funext effect session
  rw [performWithin_eq, guarded, refusal, HostHandler.onSession, Run.hosted, rationed]
  by_cases hbeyond : (effect.isJob && decide (limit ≤ session.host.jobs)) = true
  · rw [if_pos hbeyond, if_pos hbeyond]
  · rw [if_neg hbeyond, if_neg hbeyond]
    cases effect <;> rfl

theorem rationed_of_lt {limit : Nat} {workshop : Workshop} (h : workshop.jobs < limit)
    (effect : Effect) : rationed limit effect workshop = answered performing effect workshop := by
  rw [rationed, decide_eq_false (Nat.not_le_of_lt h), Bool.and_false]
  rfl

/-- The workshop advances up to the limit. -/
theorem rationed_advances (length : UInt64) (lines : Array String) (limit : Nat) :
    Advances length (rationed limit) (worked lines) limit := by
  refine ⟨fun done hdone => ?_⟩
  have hjobs : (worked lines done).jobs < limit := by
    rw [worked_jobs]
    exact hdone
  rw [rationed_of_lt hjobs]
  exact (performing_advances length lines limit).job done hdone

theorem Advances.mono {handler : HostHandler K Failure} {state : Nat → K.State}
    {bound bound' : Nat} (h : bound' ≤ bound) (advances : Advances length handler state bound) :
    Advances length handler state bound' :=
  ⟨fun done hdone => advances.job done (Nat.lt_of_lt_of_le hdone h)⟩

/-- The first job beyond the limit is refused. -/
theorem rationed_refused (lines : Array String) (limit : Nat) :
    rationed limit (.special (jobName limit)) (worked lines limit)
      = .ok (.error (.quotaExceeded limit)) (worked lines limit) := by
  rw [rationed, if_pos]
  have hjob : (Effect.special (jobName limit)).isJob = true := rfl
  rw [hjob, worked_jobs, decide_eq_true (Nat.le_refl limit), Bool.and_true]

/-! ### With a journal -/

/-- What is noted of a job of the cycle. -/
def noteJob (length : UInt64) (done : Nat) : List (Happening signature) :=
  [.handled (.special (jobName done)), .applied (.bind .given unitAnswer),
    .applied (.bind .given ⟨Ty.length, remaining length (done + 1)⟩)]

/-- What is noted of the count. -/
def noteCount (count : Nat) : List (Happening signature) :=
  [.applied (.bind .glue ⟨Ty.length, (0 : UInt64)⟩),
    .handled (.read Ty.count fun context => context.jobsDone.size),
    .applied (.bind .given ⟨Ty.count, count⟩), .handled (.print (jobsMessage count)),
    .applied (.bind .given unitAnswer)]

/-- What is noted of the cycle: its jobs one after the other, and then the count. -/
def noteCycle (length : UInt64) : List (Happening signature) :=
  (List.range length.toNat).flatMap (noteJob length) ++ noteCount length.toNat

theorem noting_of_ok {handler : HostHandler K Failure} {effect : Effect} {state state' : K.State}
    {answer : Except Failure (Packed signature)} (h : handler effect state = .ok answer state')
    (journal : List (Happening signature)) : handler.noting effect (state, journal)
      = .ok answer (state', journal ++ [.handled effect]) := by
  rw [HostHandler.noting, Hosted.noting, h]

/-- The state after so many jobs, with the journal so far. -/
def journaled (length : UInt64) (state : Nat → K.State) (journal : List (Happening signature))
    (done : Nat) : K.noting.State :=
  (state done, journal ++ (List.range done).flatMap (noteJob length))

/-- A host with a journal advances as the host does without one. -/
theorem Advances.noting {handler : HostHandler K Failure} {state : Nat → K.State} {bound : Nat}
    (advances : Advances length handler state bound) (journal : List (Happening signature)) :
    Advances length handler.noting (journaled length state journal) bound := by
  refine ⟨fun done hdone => ?_⟩
  obtain ⟨host, hjob, hstate⟩ := advances.job done hdone
  refine ⟨_, noting_of_ok hjob _, ?_⟩
  refine Prod.ext hstate ?_
  simp [journaled, Host.noting, List.range_succ, noteJob]

/-! ### The numbered jobs -/

variable {rounds : Nat} {jobs : Tree signature Ty.length} {kept : KeptRuns host Refused}
  {limit : Nat}

theorem numbered_performing (hrounds : length.toNat < rounds)
    (hjobs : Branch.unfold (cyclePlan length) rounds length = .tree jobs) (lines : Array String)
    (kept : KeptRuns host Failure) :
    (jobs.followedBy countTree).run (answered performing) kept (worked lines 0)
      = .ok (.ok length.toNat) (finished lines length.toNat) :=
  numbered_run (performing_advances length lines length.toNat) kept hrounds hjobs
    (performing_read lines length.toNat) (performing_print lines length.toNat)

/-- No more jobs than the limit. -/
theorem numbered_rationed (hrounds : length.toNat < rounds)
    (hjobs : Branch.unfold (cyclePlan length) rounds length = .tree jobs)
    (hlimit : length.toNat ≤ limit) (lines : Array String) :
    (jobs.followedBy countTree).run (rationed limit) kept (worked lines 0)
      = .ok (.ok length.toNat) (finished lines length.toNat) :=
  numbered_run ((rationed_advances length lines limit).mono hlimit) kept hrounds hjobs
    (performing_read lines length.toNat) (performing_print lines length.toNat)

/-- More jobs than the limit. -/
theorem numbered_refused (hrounds : length.toNat < rounds)
    (hjobs : Branch.unfold (cyclePlan length) rounds length = .tree jobs)
    (hlimit : limit < length.toNat) (lines : Array String) :
    (jobs.followedBy countTree).run (rationed limit) kept (worked lines 0)
      = .ok (.error (.quotaExceeded limit)) (worked lines limit) := by
  have hcycle := cycle_refused (rationed_advances length lines limit) hlimit
    (rationed_refused lines limit) kept hrounds
  rw [hjobs] at hcycle
  exact Hosted.andThen_of_refused hcycle

theorem numbered_journaled (hrounds : length.toNat < rounds)
    (hjobs : Branch.unfold (cyclePlan length) rounds length = .tree jobs) (lines : Array String)
    (journal : List (Happening signature)) (kept : KeptRuns host.noting Empty) :
    (jobs.followedBy countTree).run performed.noting kept (worked lines 0, journal)
      = .ok (.ok length.toNat) (finished lines length.toNat, journal ++ noteCycle length) := by
  rw [performed_eq]
  have hrun := numbered_run ((performing_advances length lines length.toNat).noting journal) kept
    hrounds hjobs (noting_of_ok (performing_read lines length.toNat) _)
    (noting_of_ok (performing_print lines length.toNat) _)
  rw [journaled, List.range_zero, List.flatMap_nil, List.append_nil] at hrun
  refine hrun.trans ?_
  simp [Host.noting, noteCycle, noteCount]

end Workshops

/-! ## 4. Numbers and messages -/

/-- The numbers that the countdown is asked for are those that remain after so many jobs. -/
theorem exists_remaining {left : UInt64}
    (h : Happening.applied (.bind .given ⟨Ty.length, left⟩) ∈ noteCycle length) :
    ∃ done ≤ length.toNat, left = remaining length done := by
  rw [noteCycle, List.mem_append, List.mem_flatMap] at h
  rcases h with ⟨done, hdone, hnoted⟩ | hcount
  · have hleft : left = remaining length (done + 1) := by simpa [noteJob, unitAnswer] using hnoted
    exact ⟨done + 1, List.mem_range.mp hdone, hleft⟩
  · simp [noteCount, unitAnswer] at hcount

/-- **No subtraction of the countdown wraps around.** -/
theorem remaining_exact {done : Nat} (h : done ≤ length.toNat) :
    (length - remaining length done).toNat + (remaining length done).toNat = length.toNat ∧
      (0 < remaining length done →
        (remaining length done - 1).toNat + 1 = (remaining length done).toNat) := by
  constructor
  · rw [sub_remaining_toNat h, remaining_toNat]
    omega
  · intro hpos
    rw [UInt64.lt_iff_toNat_lt, remaining_toNat] at hpos
    have hlt : done < length.toNat := Nat.lt_of_sub_pos hpos
    rw [remaining_sub_one hlt, remaining_toNat, remaining_toNat]
    omega

theorem jobsMessage_eq_none_iff (count : Nat) :
    jobsMessage count = "no jobs yet" ↔ count = 0 := by
  constructor
  · intro h
    rcases Nat.eq_zero_or_pos count with hzero | hpos
    · exact hzero
    · rw [jobsMessage, if_pos hpos] at h
      have hlength := congrArg String.length h
      rw [String.length_append] at hlength
      have hwow : " jobs is done, wow!".length = 19 := rfl
      have hnone : "no jobs yet".length = 11 := rfl
      omega
  · rintro rfl
    rfl

/-! ## 5. The runs -/

/-- A deferred run that is forced does what the fold does that is forced at once in the cleared
workshop. -/
theorem runLater_of_defer {type : Ty} {turns : Nat} {program : Program signature type}
    {session : Session host} {value : type.El} {workshop : Workshop}
    (h : hostResult (program.runBy turns (.defer : Way (S := signature) (K := host) perform type)
      (cleared session)) = .ok value workshop) :
    ∃ deferred middle, runLater turns program session = .ok deferred middle ∧
      middle.host = session.host ∧ hostResult (deferred.force middle) = .ok value workshop := by
  have hblind := program.deferIn_blind host_heedless turns perform
  cases hdefer : program.deferIn turns (fun effect => return ⟨perform effect⟩)
      (cleared session) with
  | error halt last =>
    rw [Program.runBy, bind_of_error hdefer] at h
    cases h
  | ok deferred last =>
    rw [Program.runBy, bind_of_ok hdefer] at h
    obtain ⟨middle, hfold, hhost, rfl⟩ := hblind.of_ok hdefer
    have hcleared : cleared middle = middle.hosting (cleared session).host := by
      rw [cleared, hhost]
      rfl
    have hforced : hostResult (deferred.force (cleared middle)) = .ok value workshop := by
      rw [hcleared]
      exact h
    exact ⟨_, middle, bind_of_ok hfold, hhost, hforced⟩

/-- How a program of the numbered jobs runs: it ends with their number, in a workshop where these
jobs were done in their order and then read and printed once.  So it does deferred, and it does
nothing before it is forced.  With a quota it ends so if there are no more jobs than the limit, and
otherwise it is refused when as many jobs as the limit are done. -/
structure RunsCycle (length : UInt64) (program : Program signature Ty.count)
    (session : Session host) : Prop where
  now : ∃ enough, ∀ turns, enough ≤ turns →
    hostResult (runNow turns program session)
      = .ok length.toNat (finished session.host.lines length.toNat)
  later : ∃ enough, ∀ turns, enough ≤ turns → ∃ deferred middle,
    runLater turns program session = .ok deferred middle ∧ middle.host = session.host ∧
      hostResult (deferred.force middle)
        = .ok length.toNat (finished session.host.lines length.toNat)
  within (limit : Nat) : ∃ enough, ∀ turns, enough ≤ turns →
    hostResult (runWithin turns program limit session) =
      if length.toNat ≤ limit then
        .ok (.ok length.toNat) (finished session.host.lines length.toNat)
      else .ok (.error (.quotaExceeded limit)) (worked session.host.lines limit)

theorem numberedJobs_runs {rounds : Nat} (hrounds : length.toNat < rounds)
    {ledger : Ledger (Frame signature)} {session : Session host}
    (agrees : session.memo.Agrees ledger) :
    ∃ program built, Run.building (numberedJobs rounds length) session = .ok program built ∧
      built.host = session.host ∧ RunsCycle length program built := by
  obtain ⟨spare, rfl⟩ : ∃ spare, rounds = spare + 1 := ⟨rounds - 1, by omega⟩
  obtain ⟨jobs, program, later, hjobs, hmade, hlater, follows⟩ :=
    numberedJobs_made spare length agrees
  have stands : program.StandsFor (jobs.followedBy countTree) (fun _ => none)
      (cleared (session.named later.length)) :=
    ⟨follows, Host.keeps_nothing later fun _ => rfl, agrees.mono hlater⟩
  have ends : (jobs.followedBy countTree).Ends 0 (fun _ => none)
      (answered performing : HostHandler host Empty) (worked session.host.lines 0) :=
    .inl fun _ => rfl
  obtain ⟨enough, hways⟩ := stands.runBy_eq performing ends
  have hvalue : ((jobs.followedBy countTree).runIn 0 (fun _ => none)
      (answered performing : HostHandler host Empty)).value (worked session.host.lines 0)
        = .ok length.toNat (finished session.host.lines length.toNat) :=
    bind_of_ok (numbered_performing hrounds hjobs _ _)
  rw [← perform_eq] at hways
  refine ⟨program, session.named later.length, hmade, rfl, ⟨enough, ?_⟩, ⟨enough, ?_⟩, ?_⟩
  · exact fun turns hturns => (hways turns hturns .run).trans hvalue
  · exact fun turns hturns => runLater_of_defer ((hways turns hturns .defer).trans hvalue)
  · intro limit
    have ends : (jobs.followedBy countTree).Ends 0 (fun _ => none) (rationed limit)
        (worked session.host.lines 0) := .inl fun _ => rfl
    obtain ⟨enough, hrun⟩ := stands.tryRunIn_eq (rationed limit) ends
    refine ⟨enough, fun turns hturns => ?_⟩
    rw [← performWithin_onSession] at hrun
    refine (hrun turns hturns).trans ?_
    split
    · next hlimit => exact numbered_rationed hrounds hjobs hlimit _
    · next hlimit => exact numbered_refused hrounds hjobs (Nat.lt_of_not_le hlimit) _

/-- The run of the numbered jobs on a session of a host with a journal, once they are made. -/
theorem numberedJobs_noted {rounds : Nat} (hrounds : length.toNat < rounds)
    {ledger : Ledger (Frame signature)} {session : Session host.noting}
    (agrees : session.memo.Agrees ledger) {lines : Array String}
    {journal : List (Happening signature)} (hhost : session.host = (worked lines 0, journal)) :
    ∃ program built, Run.building (numberedJobs rounds length) session = .ok program built ∧
      ∃ enough, ∀ turns, enough ≤ turns →
        hostResult (program.tryRunIn turns performed.noting.onSession built)
          = .ok (.ok length.toNat) (finished lines length.toNat, journal ++ noteCycle length) := by
  obtain ⟨spare, rfl⟩ : ∃ spare, rounds = spare + 1 := ⟨rounds - 1, by omega⟩
  obtain ⟨jobs, program, later, hjobs, hmade, hlater, follows⟩ :=
    numberedJobs_made spare length agrees
  have stands : program.StandsFor (jobs.followedBy countTree) (fun _ => none)
      (session.named later.length) :=
    ⟨follows, Host.keeps_nothing later fun _ => rfl, agrees.mono hlater⟩
  have ends : (jobs.followedBy countTree).Ends 0 (fun _ => none) performed.noting
      (session.named later.length).host := .inl fun _ => rfl
  obtain ⟨enough, hrun⟩ := stands.tryRunIn_eq performed.noting ends
  refine ⟨program, session.named later.length, hmade, enough, fun turns hturns => ?_⟩
  refine (hrun turns hturns).trans ?_
  rw [show (session.named later.length).host = (worked lines 0, journal) from hhost]
  exact numbered_journaled hrounds hjobs lines journal _

/-- **A program that unfolds is a loop, and the numbered jobs are done by it.**  The program that
unfolds from a seed runs as the loop does that runs the program of the seed, takes its value as the
new seed, and stops where the step gives no program: with the same effects and functions in the same
order, the same result, and the step called where the journal says so.

In particular, the numbered jobs of any length run so.  They are done in the order of their numbers,
from zero on, and then read and printed once: at once, deferred, and with a quota that is no less
than the length; with a lower one, as many as it allows are done.  With a journal, all that happens
stands in it in order.  No subtraction wraps around, neither of the numbers that remain nor of those
that jobs are named by, and the message says that there are no jobs only if there are none. -/
theorem cycle_runs_as_loop :
    (∀ {S : Signature} {K : Host S} {a : S.Ty} {Failure : Type} {base : Ledger (Frame S)}
      {plan : Plan S a} {trees : Trees S} {step : S.El a → Building S (Option (Program S a))}
      (handler : HostHandler K Failure) (session : Session K.noting) (rounds : Nat) (seed : S.El a)
      (depth : Nat), plan.Tells base step → K.noting.Keeps base trees →
      session.memo.Agrees base →
      (Branch.unfold plan rounds seed).Ends depth trees handler.noting session.host →
        Program.UnfoldsAsLoop handler step rounds seed session) ∧
    ∀ (length : UInt64) (rounds : Nat) (ledger : Ledger (Frame signature)),
      length.toNat < rounds →
      (∀ session : Session host, session.memo.Agrees ledger → ∃ program built,
        Run.building (numberedJobs rounds length) session = .ok program built ∧
          built.host = session.host ∧ RunsCycle length program built) ∧
      (∀ (session : Session host.noting) lines journal, session.memo.Agrees ledger →
        session.host = (worked lines 0, journal) → ∃ program built,
          Run.building (numberedJobs rounds length) session = .ok program built ∧
          ∃ enough, ∀ turns, enough ≤ turns →
            hostResult (program.tryRunIn turns performed.noting.onSession built)
              = .ok (.ok length.toNat)
                  (finished lines length.toNat, journal ++ noteCycle length)) ∧
      (∀ left : UInt64,
        left = length ∨ .applied (.bind .given ⟨Ty.length, left⟩) ∈ noteCycle length →
          (length - left).toNat + left.toNat = length.toNat ∧
            (0 < left → (left - 1).toNat + 1 = left.toNat)) ∧
      (jobsMessage length.toNat = "no jobs yet" ↔ length.toNat = 0) := by
  constructor
  · intro S K a Failure base plan trees step handler session rounds seed depth tells keeps agrees
      ends
    exact Program.unfold_eq_loop tells keeps handler agrees rounds seed depth ends
  · intro length rounds ledger hrounds
    refine ⟨?runs, ?noted, ?numbers, jobsMessage_eq_none_iff length.toNat⟩
    case runs => exact fun session agrees => numberedJobs_runs hrounds agrees
    case noted => exact fun session lines journal agrees => numberedJobs_noted hrounds agrees
    case numbers =>
      rintro left (rfl | hnoted)
      · have hseed := remaining_exact (Nat.zero_le left.toNat)
        rw [remaining_zero] at hseed
        exact hseed
      · obtain ⟨done, hdone, rfl⟩ := exists_remaining hnoted
        exact remaining_exact hdone

/-- Two jobs: done and counted at once, refused where only one is allowed, and done by the loop. -/
theorem cycle_of_two :
    (∃ program built, Run.building (numberedJobs 3 2) (.startAt 0 .start : Session host)
        = .ok program built ∧ ∃ enough, ∀ turns, enough ≤ turns →
      hostResult (runNow turns program built)
        = .ok 2 ⟨⟨#["In Cycle Job (0)", "In Cycle Job (1)"]⟩,
            #["[read]", "[print:][ 2 jobs is done, wow! ]"]⟩ ∧
      hostResult (runWithin turns program 1 built)
        = .ok (.error (.quotaExceeded 1)) ⟨⟨#["In Cycle Job (0)"]⟩, #[]⟩) ∧
    Program.UnfoldsAsLoop (a := Ty.length) performed (countdown 2) 3 (2 : UInt64)
      (.startAt 0 (Workshop.start, []) : Session host.noting) := by
  obtain ⟨hunfolds, hcycle⟩ := cycle_runs_as_loop
  constructor
  · obtain ⟨hruns, -, -, -⟩ := hcycle 2 3 [] (by decide)
    obtain ⟨program, built, hmade, hhost, runs⟩ :=
      hruns (.startAt 0 .start) (Session.startAt_agrees (K := host) [] Workshop.start)
    obtain ⟨enough, hnow⟩ := runs.now
    obtain ⟨enough', hwithin⟩ := runs.within 1
    rw [hhost] at hnow hwithin
    refine ⟨program, built, hmade, max enough enough', fun turns hturns => ⟨?_, ?_⟩⟩
    · exact hnow turns (by omega)
    · exact hwithin turns (by omega)
  · exact hunfolds performed _ 3 2 0 (cyclePlan_tells 2 []) (Host.keeps_nothing [] fun _ => rfl)
      (Session.startAt_agrees [] _) (.inl fun _ => rfl)

end FreePrograms.Jobs
