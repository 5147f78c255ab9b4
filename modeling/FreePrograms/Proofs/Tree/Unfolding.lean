/-
# A program that unfolds runs as a loop

`Program.unfold` makes a program of a seed and a step: each time the program that the step gives has
run, its value is the next seed, from inside a function of a bind.  What it comes to is what a loop
comes to that has no program of its own (`Program.loop`): while the step gives a program for the
seed, run that program and take its value as the new seed.

What a step gives is said by a plan, which gives a tree where the step gives a program of it
(`Plan.Tells`).  The plan unfolds to a tree by the same rounds (`Branch.unfold`); the program runs
as this tree, and so does the loop, round by round (`Program.loop_lands`).  The two meet there
(`Program.unfold_eq_loop`).
-/
import FreePrograms.Program.Unfold
import FreePrograms.Proofs.Run.Patience
import FreePrograms.Proofs.Tree.Beside
import FreePrograms.Proofs.Tree.Run

namespace FreePrograms

variable {S : Signature} {K : Host S} {a : S.Ty} {Failure : Type}

/-! ## 1. The loop -/

/-- Goes on with the value of a program, which the host notes; a refusal is the result. -/
def Run.goOn (next : S.El a → Run K (Except Failure (S.El a))) :
    Except Failure (S.El a) → Run K (Except Failure (S.El a))
  | .ok value => do
    Run.observe (.bind .given ⟨a, value⟩)
    next value
  | .error failure => return .error failure

/-- The loop in at most so many rounds: while the step gives a program for the seed, that program is
run, and its value is the seed of the next round. -/
def Program.loop (run : Program S a → Run K (Except Failure (S.El a)))
    (step : S.El a → Building S (Option (Program S a))) :
    Nat → S.El a → Run K (Except Failure (S.El a))
  | 0, _ => throw .exhausted
  | rounds + 1, seed => do
    match ← Run.building (step seed) with
    | none => return .ok seed
    | some program => Run.goOn (loop run step rounds) (← run program)

/-- Makes the program that unfolds from the seed, in so many rounds, and runs it. -/
def Program.runUnfolded (run : Program S a → Run K (Except Failure (S.El a)))
    (step : S.El a → Building S (Option (Program S a))) (rounds : Nat) (seed : S.El a) :
    Run K (Except Failure (S.El a)) := do
  let program ← Run.building (Program.unfold a step rounds seed)
  run program

/-! ## 2. Plans -/

/-- What a step gives for each seed: a tree, or none, or a halt. -/
abbrev Plan (S : Signature) (a : S.Ty) := S.El a → Except (Halt S) (Option (Tree S a))

/-- What a step gave, begun when the names of the ledger were given, is what the plan says. -/
inductive Planned (ledger : Ledger (Frame S)) :
    Except (Halt S) (Option (Program S a) × Cell) → Except (Halt S) (Option (Tree S a)) → Prop
  | halt (halt : Halt S) : Planned ledger (.error halt) (.error halt)
  | stop {later : Ledger (Frame S)} (hlater : ledger <+: later) :
    Planned ledger (.ok (none, later.length)) (.ok none)
  | go {later : Ledger (Frame S)} {program : Program S a} {tree : Tree S a}
    (hlater : ledger <+: later) (follows : program.Follows later tree) :
    Planned ledger (.ok (some program, later.length)) (.ok (some tree))

/-- The plan tells of the step, whichever names are taken after those of the ledger. -/
def Plan.Tells (base : Ledger (Frame S)) (plan : Plan S a)
    (step : S.El a → Building S (Option (Program S a))) : Prop :=
  ∀ value later, base <+: later → Planned later (step value later.length) (plan value)

/-- The plan unfolded from a seed. -/
def Branch.unfold (plan : Plan S a) : Nat → S.El a → Branch S a
  | 0, _ => .refuse .exhausted
  | rounds + 1, seed =>
    match plan seed with
    | .error halt => .refuse halt
    | .ok none => .tree (.pure seed)
    | .ok (some first) => .tree (first.bind fun value => unfold plan rounds value)

section Unfold

variable {base : Ledger (Frame S)} {plan : Plan S a}
  {step : S.El a → Building S (Option (Program S a))}

/-- **The program that unfolds is one of the tree that the plan unfolds to.** -/
theorem Program.unfold_follows (tells : plan.Tells base step) (rounds : Nat) (seed : S.El a)
    {ledger : Ledger (Frame S)} (hledger : base <+: ledger) :
    Building.Follows ledger (Program.unfold a step rounds seed)
      (Branch.unfold plan rounds seed) := by
  induction rounds generalizing seed ledger with
  | zero => exact .refuse .exhausted
  | succ rounds ih =>
    have hplanned := tells seed ledger hledger
    rw [Program.unfold, Branch.unfold]
    generalize hstep : step seed ledger.length = made at hplanned
    generalize plan seed = planned at hplanned
    cases hplanned with
    | halt halt =>
      rw [Building.Follows, Building.bind_of_error hstep]
      exact .refuse halt
    | stop hlater => exact .after hlater hstep (.ready (Program.pure_follows seed))
    | go hlater follows =>
      refine .after hlater hstep (.tree (Program.bind_follows follows fun value later hlast => ?_))
      exact ih value ((hledger.trans hlater).trans hlast)

end Unfold

/-! ## 3. The loop runs as the tree -/

/-- The run of the tree of a branch ends within the depth: nothing is kept that it could go into, or
it is not exhausted. -/
def Branch.Ends (depth : Nat) (branch : Branch S a) (trees : Trees S)
    (handler : HostHandler K Failure) (host : K.State) : Prop :=
  (∀ place, trees place = none) ∨
    ∀ last, branch.run handler (trees.run handler depth) host ≠ .error .exhausted last

section Loop

variable {base : Ledger (Frame S)} {plan : Plan S a} {trees : Trees S} {depth : Nat}
  {step : S.El a → Building S (Option (Program S a))} {handler : Handler K Failure}
  {served : HostHandler K Failure}

/-- A tree ends that a branch begins with if the branch does. -/
theorem Branch.Ends.first {tree : Tree S a} {function : S.El a → Branch S a} {host : K.State}
    (h : (Branch.tree (tree.bind function)).Ends depth trees served host) :
    tree.Ends depth trees served host := by
  refine h.imp id fun hends last hexhausted => ?_
  exact hends last (bind_of_error hexhausted)

/-- A branch ends that another goes on with if the other one does. -/
theorem Branch.Ends.next {tree : Tree S a} {function : S.El a → Branch S a} {host host' : K.State}
    {value : S.El a} (h : (Branch.tree (tree.bind function)).Ends depth trees served host)
    (hvalue : tree.runIn depth trees served host = .ok (.ok value) host') :
    (function value).Ends depth trees served (K.observe (.bind .given ⟨a, value⟩) host') := by
  refine h.imp id fun hends last hexhausted => ?_
  exact hends last ((bind_of_ok hvalue).trans hexhausted)

/-- A program runs and then something goes on with its value: it is enough if that lands from the
one session that the program leaves, whatever turns it is given. -/
theorem Program.goOn_lands {program : Program S a} {meaning : Hosted K (Except Failure (S.El a))}
    (next : Nat → S.El a → Run K (Except Failure (S.El a)))
    {meaning' : S.El a → Hosted K (Except Failure (S.El a))} {ledger : Ledger (Frame S)}
    {session : Session K}
    (hruns : ∃ enough, ∀ turns, enough ≤ turns →
      Lands ledger (program.tryRunIn turns handler session) (meaning session.host))
    (hnext : ∀ {later : Ledger (Frame S)} {session' : Session K} (value : S.El a),
      meaning session.host = .ok (.ok value) session'.host → ledger <+: later →
        session'.memo.Agrees later → ∃ enough, ∀ turns, enough ≤ turns →
          Lands later (next turns value (session'.observed (.bind .given ⟨a, value⟩)))
            (meaning' value (session'.observed (.bind .given ⟨a, value⟩)).host)) :
    ∃ enough, ∀ turns, enough ≤ turns →
      Lands ledger ((program.tryRunIn turns handler >>= Run.goOn (next turns)) session)
        (meaning.andThen (fun value => do
          Hosted.observe (.bind .given ⟨a, value⟩)
          meaning' value) session.host) := by
  obtain ⟨enough, hlands⟩ := hruns
  cases hmeant : meaning session.host with
  | error halt host =>
    refine ⟨enough, fun turns hturns => ?_⟩
    obtain ⟨last, session', hlast, hagrees, rfl, hrun⟩ := (hmeant ▸ hlands turns hturns).of_error
    rw [bind_of_error hrun, Hosted.andThen, bind_of_error hmeant]
    exact .error hlast hagrees
  | ok result host =>
    obtain ⟨last, session', hlast, hagrees, rfl, hrun⟩ :=
      (hmeant ▸ hlands enough (Nat.le_refl enough)).of_ok
    -- With more turns the program leaves the same session, so what goes on begins there.
    have hruns (turns : Nat) (hturns : enough ≤ turns) :
        program.tryRunIn turns handler session = .ok result session' :=
      (program.tryRunIn_within hturns handler).of_ok hrun
    rw [Hosted.andThen, bind_of_ok hmeant]
    cases result with
    | error failure =>
      refine ⟨enough, fun turns hturns => ?_⟩
      rw [bind_of_ok (hruns turns hturns)]
      exact .ok hlast hagrees
    | ok value =>
      obtain ⟨enough', hrest⟩ := hnext value hmeant hlast hagrees
      refine ⟨max enough enough', fun turns hturns => ?_⟩
      rw [bind_of_ok (hruns turns (Nat.le_trans (Nat.le_max_left _ _) hturns))]
      exact (hrest turns (Nat.le_trans (Nat.le_max_right _ _) hturns)).earlier hlast

/-- **The loop comes to what the plan unfolds to**, with enough turns for each program that it runs.
-/
theorem Program.loop_lands (tells : plan.Tells base step) (keeps : K.Keeps base trees)
    (hserved : ∀ effect, (handler effect).Means (served effect)) (rounds : Nat) (seed : S.El a)
    {ledger : Ledger (Frame S)} {session : Session K} (hledger : base <+: ledger)
    (agrees : session.memo.Agrees ledger)
    (ends : (Branch.unfold plan rounds seed).Ends depth trees served session.host) :
    ∃ enough, ∀ turns, enough ≤ turns →
      Lands ledger (Program.loop (fun program => program.tryRunIn turns handler) step rounds seed
          session)
        ((Branch.unfold plan rounds seed).run served (trees.run served depth) session.host) := by
  induction rounds generalizing seed ledger session with
  | zero => exact ⟨0, fun turns _ => .error (List.prefix_refl ledger) agrees⟩
  | succ rounds ih =>
    have hplanned := tells seed ledger hledger
    rw [Branch.unfold] at ends ⊢
    generalize hstep : step seed ledger.length = made at hplanned
    generalize plan seed = planned at hplanned ends
    rw [← agrees.next_eq] at hstep
    cases hplanned with
    | halt halt =>
      refine ⟨0, fun turns _ => ?_⟩
      rw [Program.loop, bind_of_error (Run.building_of_error hstep)]
      exact .error (List.prefix_refl ledger) agrees
    | stop hlater =>
      refine ⟨0, fun turns _ => ?_⟩
      rw [Program.loop, bind_of_ok (Run.building_of_ok hstep)]
      exact .ok hlater (agrees.mono hlater)
    | @go later program tree hlater follows =>
      have hnamed : (session.named later.length).memo.Agrees later := agrees.mono hlater
      have hkeeps : K.Keeps later trees :=
        keeps.mono (hledger.trans hlater)
      have hruns := follows.lands hkeeps hserved hnamed ends.first
      let rest (turns : Nat) : S.El a → Run K (Except Failure (S.El a)) :=
        Program.loop (fun program => program.tryRunIn turns handler) step rounds
      obtain ⟨enough, hlands⟩ := Program.goOn_lands rest hruns
        fun value hmeant hlast hagrees =>
          ih value ((hledger.trans hlater).trans hlast) hagrees (ends.next hmeant)
      refine ⟨enough, fun turns hturns => ?_⟩
      have hbuilt : Run.building (step seed) session
          = .ok (some program) (session.named later.length) := Run.building_of_ok hstep
      rw [Program.loop, bind_of_ok hbuilt]
      exact (hlands turns hturns).earlier hlater

/-- **The program that unfolds comes to what the plan unfolds to.** -/
theorem Program.runUnfolded_lands (tells : plan.Tells base step) (keeps : K.Keeps base trees)
    (hserved : ∀ effect, (handler effect).Means (served effect)) (rounds : Nat) (seed : S.El a)
    {session : Session K} (agrees : session.memo.Agrees base)
    (ends : (Branch.unfold plan rounds seed).Ends depth trees served session.host) :
    ∃ enough, ∀ turns, enough ≤ turns →
      Lands base (Program.runUnfolded (fun program => program.tryRunIn turns handler) step rounds
          seed session)
        ((Branch.unfold plan rounds seed).run served (trees.run served depth) session.host) := by
  have hfollows := Program.unfold_follows tells rounds seed (List.prefix_refl base)
  generalize Branch.unfold plan rounds seed = branch at hfollows ends
  obtain ⟨halt, rfl, hsteps⟩ | ⟨later, program, tree, rfl, hlater, follows, hsteps⟩ := hfollows.made
  · rw [← agrees.next_eq] at hsteps
    refine ⟨0, fun turns _ => ?_⟩
    rw [Program.runUnfolded, bind_of_error (Run.building_of_error hsteps)]
    exact .error (List.prefix_refl base) agrees
  · rw [← agrees.next_eq] at hsteps
    have hnamed : (session.named later.length).memo.Agrees later := agrees.mono hlater
    obtain ⟨enough, hlands⟩ :=
      follows.lands (keeps.mono hlater) hserved hnamed ends
    refine ⟨enough, fun turns hturns => ?_⟩
    rw [Program.runUnfolded, bind_of_ok (Run.building_of_ok hsteps)]
    exact (hlands turns hturns).earlier hlater

/-- More rounds make no difference to an unfolding that is not exhausted. -/
theorem Branch.unfold_within {rounds rounds' : Nat} (h : rounds ≤ rounds') (plan : Plan S a)
    (kept : KeptRuns K Failure) (seed : S.El a) :
    Within ((Branch.unfold plan rounds seed).run served kept)
      ((Branch.unfold plan rounds' seed).run served kept) := by
  induction rounds generalizing rounds' seed with
  | zero => exact .exhausted _
  | succ rounds ih =>
    obtain ⟨rounds', rfl⟩ := Nat.exists_eq_add_of_le' (Nat.le_of_add_left_le h)
    rw [Branch.unfold, Branch.unfold]
    rcases plan seed with halt | _ | first
    · exact .refl _
    · exact .refl _
    · refine (Within.refl _).bind fun result => ?_
      cases result with
      | error failure => exact .refl _
      | ok value => exact (Within.refl _).bind fun _ => ih (Nat.le_of_succ_le_succ h) value

end Loop

/-- The program that unfolds from the seed, in so many rounds, runs as the loop: with enough turns
both come to one result, with the same value, refusal or halt, in the same state of the host and
with the same journal.  If the rounds do not run out, the program comes to this result in any larger
number of rounds too. -/
def Program.UnfoldsAsLoop (handler : HostHandler K Failure)
    (step : S.El a → Building S (Option (Program S a))) (rounds : Nat) (seed : S.El a)
    (session : Session K.noting) : Prop :=
  ∃ result : EStateM.Result (Halt S) K.noting.State (Except Failure (S.El a)),
    (∃ enough, ∀ turns, enough ≤ turns →
      hostResult (Program.runUnfolded (fun program =>
        program.tryRunIn turns handler.noting.onSession) step rounds seed session) = result ∧
      hostResult (Program.loop (fun program =>
        program.tryRunIn turns handler.noting.onSession) step rounds seed session) = result) ∧
    ((∀ last, result ≠ .error .exhausted last) → ∀ rounds', rounds ≤ rounds' →
      ∃ enough, ∀ turns, enough ≤ turns →
        hostResult (Program.runUnfolded (fun program =>
          program.tryRunIn turns handler.noting.onSession) step rounds' seed session) = result)

/-- **A program that unfolds runs as the loop**, for any step that a plan tells of, any handler out
of the state of the host, which may refuse or halt, any seed and any session with a table that fits.

The journal has the effects and the functions in one order, and the step is called on a value where
the journal says that the loop goes on with it; so the step is called on it after the effects of the
programs before it, on both sides.  A step that halts on a value shows this: the run halts there,
with the journal so far.  Where programs are kept that the steps go on to, the run is one that ends
within some depth. -/
theorem Program.unfold_eq_loop {base : Ledger (Frame S)} {plan : Plan S a} {trees : Trees S}
    {step : S.El a → Building S (Option (Program S a))} (tells : plan.Tells base step)
    (keeps : K.noting.Keeps base trees) (handler : HostHandler K Failure)
    {session : Session K.noting} (agrees : session.memo.Agrees base) (rounds : Nat) (seed : S.El a)
    (depth : Nat)
    (ends : (Branch.unfold plan rounds seed).Ends depth trees handler.noting session.host) :
    Program.UnfoldsAsLoop handler step rounds seed session := by
  have hserved : ∀ effect,
      (handler.noting.onSession effect).Means (handler.noting effect) :=
    fun effect => Run.hosted_means (handler.noting effect)
  refine ⟨(Branch.unfold plan rounds seed).run handler.noting (trees.run handler.noting depth)
    session.host, ?_, ?_⟩
  · obtain ⟨enough, hprogram⟩ :=
      Program.runUnfolded_lands tells keeps hserved rounds seed agrees ends
    obtain ⟨enough', hloop⟩ :=
      Program.loop_lands tells keeps hserved rounds seed (List.prefix_refl base) agrees ends
    refine ⟨max enough enough', fun turns hturns => ⟨?_, ?_⟩⟩
    · exact (hprogram turns (Nat.le_trans (Nat.le_max_left _ _) hturns)).hostResult_eq
    · exact (hloop turns (Nat.le_trans (Nat.le_max_right _ _) hturns)).hostResult_eq
  · intro hresult rounds' hrounds
    have hsame :=
      (Branch.unfold_within hrounds plan (trees.run handler.noting depth) seed).eq hresult
    obtain ⟨enough, hprogram⟩ := Program.runUnfolded_lands tells keeps hserved rounds' seed agrees
      (.inr fun last hlast => hresult last (hsame.trans hlast))
    exact ⟨enough, fun turns hturns => (hprogram turns hturns).hostResult_eq.trans hsame.symm⟩

end FreePrograms
