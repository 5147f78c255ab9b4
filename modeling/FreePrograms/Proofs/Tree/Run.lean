/-
# A program runs as its tree

`Tree.run` runs a tree by recursion on how it was put together, with the state of the host and
nothing else.  The run of a program of that tree is a loop that takes frames off a sequence and puts
sequences one behind the other, and knows no tree.  Both come to the same
(`Program.StandsFor.tryRunIn_eq`).

The induction goes up the spine.  Its statement is about a node and a sequence that holds the frames
of a tree and then further ones: the loop settles at the run of the tree and what the further frames
mean after it (`Tree.settles`).  For a bind the frames of the first part are followed by the frame of
the bind, which means the branch of the value; so the induction hypothesis for the first part is used
with one more frame, and that for the branch when the frame is applied.  Frames that were returned
are put before those that wait, and a bind that goes on after another is one that goes on with both
(`Hosted.andThen_assoc`): it is the same on both sides.

What is kept at places is taken up to a depth, by an outer induction on the depth.
-/
import FreePrograms.Proofs.Tree.Follows
import FreePrograms.Proofs.Tree.Settles
import FreePrograms.Jobs.Workshop

namespace FreePrograms

variable {S : Signature} {K : Host S} {Failure : Type} {a b : S.Ty}

/-! ## 1. What frames make of a value -/

section Frames

variable {cut : Prop} {handler : Handler K Failure} {ledger : Ledger (Frame S)}

theorem bind_starts (provenance : Provenance)
    {code : S.El a → Cell → Except (Halt S) (Code S × Cell)} {value : S.El a}
    {meaning : Hosted K (Except Failure (S.El b))}
    (h : Starts cut handler ledger (Run.building (code value)) meaning) :
    Starts cut handler ledger ((Frame.bind provenance a code).apply ⟨a, value⟩) (do
      Hosted.observe (.bind provenance ⟨a, value⟩)
      meaning) := by
  have happly : (Frame.bind provenance a code).apply ⟨a, value⟩ = (do
      Run.observe (.bind provenance ⟨a, value⟩)
      Run.building (code value) : Run K (Code S)) := by
    rw [Frame.apply, Packed.unpack_self]
    rfl
  rw [happly]
  exact h.observe _

theorem expect_starts (answer : Packed S) :
    Starts cut handler ledger ((Frame.expect a).apply answer) (do
      return .ok (← Hosted.except (answer.unpack a .answer))) := by
  rw [Frame.apply]
  exact .except (answer.unpack a .answer)

theorem decode_starts (decode : Packed S → Except (Halt S) (S.El a)) (answer : Packed S) :
    Starts cut handler ledger ((Frame.decode a decode).apply answer) (do
      Hosted.observe (.decode answer)
      return .ok (← Hosted.except (decode answer))) := by
  rw [Frame.apply]
  exact (Starts.except (decode answer)).observe (.decode answer)

theorem kept_starts {place : Nat} {meaning : Hosted K (Except Failure (S.El b))}
    (h : Starts cut handler ledger (Run.kept place b) meaning) (value : Packed S) :
    Starts cut handler ledger ((Frame.kept place b).apply value) (do
      Hosted.observe (.kept place)
      meaning) := by
  rw [Frame.apply]
  exact h.observe (.kept place)

end Frames

/-! ## 2. The induction on the tree -/

section Trees

variable {cut : Prop} {handler : Handler K Failure} {served : HostHandler K Failure}
  {kept : KeptRuns K Failure}

mutual

/-- **The frames of a tree, and then others, come to the run of the tree** and what the others mean
after it. -/
theorem Tree.settles (hserved : ∀ effect, (handler effect).Means (served effect)) :
    {a : S.Ty} → (tree : Tree S a) → ∀ {ledger : Ledger (Frame S)} {node : Node S}
      {own rest : List (Frame S)} {sequence : Sequence (Frame S)} {session : Session K}
      {next : S.El a → Hosted K (Except Failure (Packed S))},
      (∀ type place, Starts cut handler ledger (Run.kept place type) (kept type place)) →
      Spine ledger node own tree → Awaits cut handler ledger rest next → sequence.Sound ledger →
      sequence.toList = own ++ rest → session.memo.Agrees ledger → ∀ effects,
        Settles cut handler ledger (pure (.mk node sequence)) effects session
          ((tree.run served kept).andThen next session.host)
  | _, .pure value => by
    intro _ hspine hrest sound hcontents agrees effects
    cases hspine
    exact hrest.settles (List.prefix_refl _) sound hcontents agrees value effects
  | _, .lift effect => by
    intro _ hspine hrest sound hcontents agrees effects
    cases hspine
    rw [List.nil_append] at hcontents
    subst hcontents
    exact Settles.ask (hserved effect) expect_starts hrest sound agrees effects
  | _, .liftWith effect decode => by
    intro _ hspine hrest sound hcontents agrees effects
    cases hspine
    rw [List.nil_append] at hcontents
    subst hcontents
    exact Settles.ask (hserved effect) (decode_starts decode) hrest sound agrees effects
  | _, .bindAs provenance tree function => by
    intro hkept hspine hrest sound hcontents agrees effects
    cases hspine with
    | bindAs _ first returns =>
    have hframe := Awaits.cons (fun value => bind_starts provenance
      (Branch.starts hserved (function value) _ hkept (returns value))) hrest
    rw [List.append_assoc] at hcontents
    rw [Tree.run, Hosted.andThen_assoc]
    exact tree.settles hserved hkept first hframe sound hcontents agrees effects
  | b, @Tree.followedByKept _ a _ tree place => by
    intro hkept hspine hrest sound hcontents agrees effects
    cases hspine with
    | followedByKept first =>
    have hframe := Awaits.cons (fun value => kept_starts (hkept b place) ⟨a, value⟩) hrest
    rw [List.append_assoc] at hcontents
    rw [Tree.run, Hosted.andThen_assoc]
    exact tree.settles hserved hkept first hframe sound hcontents agrees effects

/-- **What a function returns comes to the run of the branch.** -/
theorem Branch.starts (hserved : ∀ effect, (handler effect).Means (served effect)) :
    {b : S.Ty} → (branch : Branch S b) → ∀ {ledger : Ledger (Frame S)}
      (steps : Building S (Code S)),
      (∀ type place, Starts cut handler ledger (Run.kept place type) (kept type place)) →
      (∀ later, ledger <+: later → Returns later (steps later.length) branch) →
        Starts cut handler ledger (Run.building steps) (branch.run served kept)
  | _, .tree tree => by
    intro steps hkept hreturns
    refine ⟨?_⟩
    intro later sequence session next hlater sound hnext agrees effects
    have hreturn := hreturns later hlater
    rw [← agrees.next_eq] at hreturn
    generalize hsteps : steps session.memo.next = made at hreturn
    cases hreturn with
    | @tree _ last code _ _ hlast hframes hspine =>
    have hagrees := agrees.mono hlast
    refine (Settles.append (Run.building_of_ok hsteps) hframes (sound.mono hlast) hagrees ?_).earlier
      hlast
    intro final made session' hfinal hmade hcontents hagrees' hhost
    have hsettles := tree.settles hserved (fun type place => (hkept type place).mono
      ((hlater.trans hlast).trans hfinal)) (hspine.mono hfinal) (hnext.mono (hlast.trans hfinal))
      hmade hcontents hagrees' effects
    rw [hhost] at hsettles
    exact hsettles
  | _, .refuse halt => by
    intro steps _ hreturns
    refine ⟨?_⟩
    intro later sequence session next hlater _ _ agrees effects
    have hreturn := hreturns later hlater
    rw [← agrees.next_eq] at hreturn
    generalize hsteps : steps session.memo.next = made at hreturn
    cases hreturn
    exact Settles.of_error agrees (bind_of_error (Run.building_of_error hsteps))

end

/-- A program that is there comes to the run of its tree. -/
theorem Program.Follows.starts {ledger : Ledger (Frame S)} {program : Program S a} {tree : Tree S a}
    (follows : program.Follows ledger tree)
    (hserved : ∀ effect, (handler effect).Means (served effect))
    (hkept : ∀ type place, Starts cut handler ledger (Run.kept place type) (kept type place)) :
    Starts cut handler ledger (Pure.pure program.code) (tree.run served kept) := by
  refine ⟨?_⟩
  intro later sequence session next hlater sound hnext agrees effects
  refine Settles.append rfl (follows.sound.mono hlater) sound agrees ?_
  intro final made session' hfinal hmade hcontents hagrees hhost
  have hsettles := tree.settles hserved
    (fun type place => (hkept type place).mono (hlater.trans hfinal))
    (follows.spine.mono (hlater.trans hfinal)) (hnext.mono hfinal) hmade hcontents hagrees effects
  rw [hhost] at hsettles
  exact hsettles

/-- What is kept at a place comes to its run, if every kept program does that is of the type asked
for. -/
theorem Host.Keeps.starts {ledger : Ledger (Frame S)} {trees : Trees S}
    (keeps : K.Keeps ledger trees) (depth : Nat)
    (h : ∀ {type : S.Ty} {program : Program S type} {tree : Tree S type} {place : Nat},
      trees place = some ⟨type, tree⟩ → program.Follows ledger tree →
        Starts cut handler ledger (pure program.code) (match depth with
          | 0 => throw .exhausted
          | depth + 1 => tree.run served (trees.run served depth))) (type : S.Ty) (place : Nat) :
    Starts cut handler ledger (Run.kept place type) (trees.run served depth type place) := by
  have hplace := keeps place
  unfold Run.kept Trees.run
  generalize K.kept place = program at hplace
  generalize htree : trees place = tree at hplace
  cases hplace with
  | none => exact .throw (.absent place)
  | @some found program tree follows =>
    by_cases htype : found = type
    · subst htype
      simp only [if_true, dite_true]
      exact h htree follows
    · simp only [if_neg htype, dif_neg htype]
      exact .throw (.absent place)

/-- **What is kept comes to the run of the kept tree**, which is cut off where that is too deep. -/
theorem Trees.starts {ledger : Ledger (Frame S)} {trees : Trees S}
    (hserved : ∀ effect, (handler effect).Means (served effect)) (keeps : K.Keeps ledger trees)
    (depth : Nat) : ∀ type place, Starts (¬ ∀ place, trees place = none) handler ledger
      (Run.kept place type) (trees.run served depth type place) := by
  induction depth with
  | zero =>
    refine keeps.starts 0 ?_
    intro type program tree place htree _
    have hcut : ¬ ∀ place, trees place = none := by
      intro hnone
      rw [hnone place] at htree
      cases htree
    exact .exhausted hcut (pure program.code)
  | succ depth ih =>
    refine keeps.starts (depth + 1) ?_
    intro type program tree place _ follows
    exact follows.starts hserved ih

/-! ## 3. Whole runs -/

/-- The computation, with its value packed. -/
def Hosted.packed (work : Hosted K (Except Failure (S.El a))) :
    Hosted K (Except Failure (Packed S)) :=
  work.andThen fun value => return .ok ⟨a, value⟩

/-- The value of a packed result, at its type. -/
def Hosted.unpacked (a : S.Ty) : Except Failure (Packed S) → Hosted K (Except Failure (S.El a))
  | .ok value => do return .ok (← Hosted.except (value.unpack a .result))
  | .error failure => return .error failure

/-- A value that was packed is given back. -/
theorem Hosted.packed_unpacked (work : Hosted K (Except Failure (S.El a))) :
    work.packed >>= Hosted.unpacked a = work := by
  unfold packed andThen
  rw [bind_assoc]
  refine Eq.trans (bind_congr ?_) (bind_pure work)
  intro result
  cases result with
  | ok value =>
    rw [pure_bind, Hosted.unpacked, Packed.unpack_self]
    rfl
  | error failure => rfl

theorem unpacked_lands {ledger : Ledger (Frame S)} {work : Run K (Except Failure (Packed S))}
    {meaning : Hosted K (Except Failure (S.El a))} {session : Session K}
    (h : Lands ledger (work session) (meaning.packed session.host)) :
    Lands ledger ((work >>= Program.unpacked a) session) (meaning session.host) := by
  rw [← Hosted.packed_unpacked meaning]
  refine h.bind ?_
  intro later session' result hlater agrees
  cases result with
  | ok value =>
    rw [Program.unpacked, Hosted.unpacked]
    cases value.unpack a .result with
    | ok value => exact .ok (List.prefix_refl later) agrees
    | error halt => exact .error (List.prefix_refl later) agrees
  | error failure => exact .ok (List.prefix_refl later) agrees

/-- A computation is exhausted where it is with its value packed. -/
theorem Hosted.exhausted_of_packed {work : Hosted K (Except Failure (S.El a))} {host host' : K.State}
    (h : work.packed host = .error .exhausted host') : work host = .error .exhausted host' := by
  rw [← Hosted.packed_unpacked work]
  exact bind_of_error h

/-- **With enough turns a program runs as its tree**, and leaves a table that fits. -/
theorem Program.Follows.lands {ledger : Ledger (Frame S)} {trees : Trees S} {program : Program S a}
    {tree : Tree S a} (follows : program.Follows ledger tree) (keeps : K.Keeps ledger trees)
    (hserved : ∀ effect, (handler effect).Means (served effect)) {session : Session K}
    (agrees : session.memo.Agrees ledger) {depth : Nat}
    (ends : tree.Ends depth trees served session.host) :
    ∃ enough, ∀ turns, enough ≤ turns →
      Lands ledger (program.tryRunIn turns handler session)
        (tree.runIn depth trees served session.host) := by
  obtain ⟨⟨node, frames⟩⟩ := program
  have hagrees : (session.told (.enter .run)).memo.Agrees ledger := agrees
  have hsettles : Settles (¬ ∀ place, trees place = none) handler ledger
      (Pure.pure (.mk node frames)) 0 (session.told (.enter .run))
      ((tree.runIn depth trees served).packed session.host) :=
    tree.settles hserved (Trees.starts hserved keeps depth) follows.spine Awaits.nil follows.sound
      (List.append_nil _).symm hagrees 0
  rcases hsettles with ⟨hcut, host, hexhausted⟩ | ⟨enough, hlands⟩
  · rcases ends with hnone | hfinite
    · exact absurd hnone hcut
    · exact absurd (Hosted.exhausted_of_packed hexhausted) (hfinite host)
  · refine ⟨enough + 1, ?_⟩
    intro turns hturns
    obtain ⟨turns, rfl⟩ : ∃ n, turns = n + 1 := ⟨turns - 1, by omega⟩
    rw [Program.tryRunIn_eq]
    refine Lands.inside (unpacked_lands ?_)
    rw [Code.handle_succ]
    exact hlands turns turns (by omega) (by omega)

end Trees

/-- What the host sees of the run of a program, with a handler out of its state. -/
theorem Program.StandsFor.tryRunIn_eq {program : Program S a} {tree : Tree S a} {trees : Trees S}
    {session : Session K} (stands : program.StandsFor tree trees session)
    (handler : HostHandler K Failure) {depth : Nat}
    (ends : tree.Ends depth trees handler session.host) :
    ∃ enough, ∀ turns, enough ≤ turns →
      hostResult (program.tryRunIn turns handler.onSession session)
        = tree.runIn depth trees handler session.host := by
  obtain ⟨follows, keeps, agrees⟩ := stands
  have hserved : ∀ effect, (handler.onSession effect).Means (handler effect) :=
    fun effect => Run.hosted_means (handler effect)
  obtain ⟨enough, hlands⟩ := follows.lands keeps hserved agrees ends
  exact ⟨enough, fun turns hturns => (hlands turns hturns).hostResult_eq⟩

/-- On the session the steps make a program of the tree.  The names that it takes come after those of
the ledger, so what was there before is still there.  With enough turns the program does what the
tree says, from the state of the host on the session. -/
def Naming.RunsAs (ledger : Ledger (Frame S)) (trees : Trees S) (handler : HostHandler K Failure)
    (session : Session K) (steps : Naming (Program S a)) (tree : Tree S a) : Prop :=
  ∃ later made last, ledger <+: later ∧ Run.naming steps session = .ok made last ∧
    made.Follows later tree ∧ last.memo.Agrees later ∧
    ∀ depth, tree.Ends depth trees handler session.host →
      ∃ enough, ∀ turns, enough ≤ turns →
        hostResult (made.tryRunIn turns handler.onSession last)
          = tree.runIn depth trees handler session.host

/-- Steps run as a tree if they make a program of it. -/
theorem Naming.Ensures.runsAs {ledger : Ledger (Frame S)} {trees : Trees S}
    {handler : HostHandler K Failure} {session : Session K} {steps : Naming (Program S a)}
    {tree : Tree S a} (h : Naming.Ensures ledger steps fun later made => made.Follows later tree)
    (keeps : K.Keeps ledger trees) (agrees : session.memo.Agrees ledger) :
    Naming.RunsAs ledger trees handler session steps tree := by
  obtain ⟨later, made, last, hlater, hagrees, hhost, hsteps, follows⟩ := Run.naming_eq h agrees
  refine ⟨later, made, last, hlater, hsteps, follows, hagrees, ?_⟩
  rw [← hhost]
  intro depth ends
  exact Program.StandsFor.tryRunIn_eq ⟨follows, keeps.mono hlater, hagrees⟩ handler ends

/-- **A program does what its tree says.**  Take any tree, any handler out of the state of the host,
which may refuse, and any such state.  With enough turns the run of the program that the tree makes
ends with the same value, refusal or halt as the run of the tree, in the same state of the host and
with the same journal: the same effects were handled and the same functions applied, in the same
order.

So does any program that stands for the tree, however it was put together and whatever it shares with
others, on any session, whatever happened on it before; and if it goes on to programs that are kept,
then so does the tree to theirs, and it is so if the run of the tree ends.

It stays so when programs of trees are put together: by each combinator, on any session, comes a
program that does what the tree says that is put together in the same way, and that can be a part in
its turn. -/
theorem Program.tryRunIn_eq_tree_run (tree : Tree S a) (handler : HostHandler K Failure) :
    ((∀ place, K.kept place = none) → ∀ host : K.noting.State, ∃ enough, ∀ turns, enough ≤ turns →
      hostResult ((tree.build.run 0).1.tryRunIn turns handler.noting.onSession
          (.startAt (tree.build.run 0).2 host))
        = tree.runIn 0 (fun _ => none) handler.noting host) ∧
    (∀ {program : Program S a} {trees : Trees S} {session : Session K.noting},
      program.StandsFor tree trees session → ∀ depth,
      tree.Ends depth trees handler.noting session.host →
      ∃ enough, ∀ turns, enough ≤ turns →
        hostResult (program.tryRunIn turns handler.noting.onSession session)
          = tree.runIn depth trees handler.noting session.host) ∧
    (∀ {ledger : Ledger (Frame S)} {trees : Trees S} {session : Session K.noting},
      K.noting.Keeps ledger trees → session.memo.Agrees ledger →
      Program.Combined ledger (Naming.RunsAs ledger trees handler.noting session)) := by
  refine ⟨?_, ?_, ?_⟩
  · intro nothing host
    exact (tree.build_standsFor (K := K.noting) nothing host).tryRunIn_eq handler.noting
      (.inl fun _ => rfl)
  · intro program trees session stands depth ends
    exact stands.tryRunIn_eq handler.noting ends
  · intro ledger trees session keeps agrees
    exact Program.combined fun h => h.runsAs keeps agrees

/-! ## 4. A job that goes on to itself -/

/-- Does the first job and goes on to what is kept at place zero. -/
def busyTree : Tree Jobs.signature Jobs.Ty.unit :=
  (Tree.lift Jobs.Effect.job1 : Tree Jobs.signature Jobs.Ty.unit).followedByKept 0

/-- The program of that tree, and the next name. -/
def busy : Program Jobs.signature Jobs.Ty.unit × Cell := busyTree.build.run 0

/-- A host that counts how many jobs it will still do, and keeps the program at place zero. -/
abbrev busyHost : Host Jobs.signature where
  State := Nat
  observe _ jobs := jobs
  kept place := if place = 0 then some ⟨Jobs.Ty.unit, busy.1⟩ else none

/-- What is kept there, as trees. -/
def busyTrees : Trees Jobs.signature := fun place =>
  if place = 0 then some ⟨Jobs.Ty.unit, busyTree⟩ else none

/-- Does a job, or refuses when there is none that it will still do. -/
def tire : HostHandler busyHost String := fun _ jobs =>
  match jobs with
  | 0 => .ok (.error "tired") 0
  | jobs + 1 => .ok (.ok Jobs.unitAnswer) jobs

/-- With the names that it took, the program is one of its tree, and so is what the host keeps. -/
theorem busy_follows : ∃ ledger, busy.2 = ledger.length ∧ busy.1.Follows ledger busyTree ∧
    busyHost.noting.Keeps ledger busyTrees := by
  obtain ⟨ledger, -, hlength, hfollows⟩ := busyTree.build_follows []
  refine ⟨ledger, hlength, hfollows, ?_⟩
  intro place
  cases place with
  | zero => exact .some hfollows
  | succ place => exact .none

/-- The program stands for its tree, on a session on which nothing else has happened. -/
theorem busy_standsFor (jobs : Nat) :
    busy.1.StandsFor busyTree busyTrees (Session.startAt busy.2 (jobs, []) :
      Session busyHost.noting) := by
  obtain ⟨ledger, hnext, follows, keeps⟩ := busy_follows
  rw [hnext]
  exact ⟨follows, keeps, Session.startAt_agrees ledger _⟩

/-- Two jobs are done and the third is refused: a run of a program that never ends by itself. -/
theorem busy_until_refused : ∃ enough, ∀ turns, enough ≤ turns →
    hostResult (busy.1.tryRunIn turns tire.noting.onSession (.startAt busy.2 (2, [])))
      = .ok (.error "tired") (0, [.handled .job1, .applied (.kept 0), .handled .job1,
        .applied (.kept 0), .handled .job1]) := by
  have hrun : busyTree.runIn 2 busyTrees tire.noting (2, [])
      = .ok (.error "tired") (0, [.handled .job1, .applied (.kept 0), .handled .job1,
        .applied (.kept 0), .handled .job1]) := rfl
  obtain ⟨-, hstands, -⟩ := Program.tryRunIn_eq_tree_run busyTree tire
  obtain ⟨enough, h⟩ := hstands (busy_standsFor 2) 2 (.inr fun host h => by cases hrun.symm.trans h)
  exact ⟨enough, fun turns hturns => (h turns hturns).trans hrun⟩

end FreePrograms
