/-
# The laws of programs

Programs obey the laws of a monad and of a functor, though the two sides of a law are never the same
program: they start with different nodes and hold differently nested sequences of frames.  What the
laws say is that one side can be put for the other anywhere in a larger program.  `Tree.Equal` is the
least relation that has the laws and is kept by every way to put trees together; so it holds of two
larger trees that differ in sides of laws, at any places: in the first part of a bind, in what a
function returns, and in what comes next.

Equal trees have the same run on every host that takes no note of the functions applied
(`Tree.Equal.run_eq`, one lemma a law); a law may well change how many functions there are.  The
combinators make programs of equal trees where a law has them on its two sides, and of equal trees
again where such programs are their parts (`Program.laws`).  Programs run as their trees, in every
way, so they can be put for each other (`Tree.Equal.interchangeable`).
-/
import FreePrograms.Proofs.Tree.Ways

namespace FreePrograms

variable {S : Signature} {K : Host S} {Failure : Type} {a b c : S.Ty}

/-! ## 1. The laws -/

mutual

/-- Trees that the laws make equal, wherever in them the laws are used. -/
inductive Tree.Equal {S : Signature} : {a : S.Ty} → Tree S a → Tree S a → Prop
  /-- To bind a value is to apply the function to it. -/
  | pure_bind {a b : S.Ty} (value : S.El a) (function : S.El a → Branch S b) {tree : Tree S b}
    (h : function value = .tree tree) : Tree.Equal ((Tree.pure value).bind function) tree
  /-- To go on by yielding the result is not to go on. -/
  | bind_pure {a : S.Ty} (tree : Tree S a) :
    Tree.Equal (tree.bind fun value => .tree (.pure value)) tree
  /-- To go on twice is to go on once, with what goes on. -/
  | bind_assoc {a b c : S.Ty} (tree : Tree S a) (function : S.El a → Branch S b)
    (next : S.El b → Branch S c) :
    Tree.Equal ((tree.bind function).bind next) (tree.bind fun value => (function value).bind next)
  | map_id {a : S.Ty} (tree : Tree S a) : Tree.Equal (tree.map fun value => .ok value) tree
  | map_map {a b c : S.Ty} (tree : Tree S a) (first : S.El a → Except (Halt S) (S.El b))
    (second : S.El b → Except (Halt S) (S.El c)) :
    Tree.Equal ((tree.map first).map second) (tree.map fun value => first value >>= second)
  | refl {a : S.Ty} (tree : Tree S a) : Tree.Equal tree tree
  | symm {a : S.Ty} {left right : Tree S a} (h : Tree.Equal left right) : Tree.Equal right left
  | trans {a : S.Ty} {left middle right : Tree S a} (h : Tree.Equal left middle)
    (h' : Tree.Equal middle right) : Tree.Equal left right
  | bindAs {a b : S.Ty} {left right : Tree S a} {function function' : S.El a → Branch S b}
    (provenance : Provenance) (first : Tree.Equal left right)
    (next : ∀ value, Branch.Equal (function value) (function' value)) :
    Tree.Equal (left.bindAs provenance function) (right.bindAs provenance function')
  | followedByKept {a b : S.Ty} {left right : Tree S a} (first : Tree.Equal left right)
    (place : Nat) :
    Tree.Equal (left.followedByKept place : Tree S b) (right.followedByKept place)

/-- Branches with equal trees, or with the same halt. -/
inductive Branch.Equal {S : Signature} : {a : S.Ty} → Branch S a → Branch S a → Prop
  | tree {a : S.Ty} {left right : Tree S a} (h : Tree.Equal left right) :
    Branch.Equal (.tree left) (.tree right)
  | refuse {a : S.Ty} (halt : Halt S) : Branch.Equal (Branch.refuse halt : Branch S a) (.refuse halt)

end

theorem Branch.Equal.refl (branch : Branch S a) : Branch.Equal branch branch := by
  cases branch with
  | tree tree => exact .tree (.refl tree)
  | refuse halt => exact .refuse halt

/-! ## 2. The laws hold of runs -/

section Runs

variable {handler : HostHandler K Failure} {kept : KeptRuns K Failure}

theorem Hosted.andThen_pure {α : Type} (work : Hosted K (Except Failure α)) :
    (work.andThen fun value => pure (.ok value)) = work := by
  unfold Hosted.andThen
  calc
    _ = work >>= pure := by
      refine bind_congr ?_
      intro result
      cases result with
      | ok value => rfl
      | error failure => rfl
    _ = work := bind_pure work

variable (heedless : K.Heedless)
include heedless

theorem Host.Heedless.observe (callback : Callback S) :
    (Hosted.observe callback : Hosted K Unit) = pure () := by
  funext host
  exact congrArg (EStateM.Result.ok ()) (heedless callback host)

/-- A bind runs its first part and the branch of its value. -/
theorem Host.Heedless.run_bindAs (provenance : Provenance) (tree : Tree S a)
    (function : S.El a → Branch S b) :
    (tree.bindAs provenance function).run handler kept
      = (tree.run handler kept).andThen fun value => (function value).run handler kept := by
  rw [Tree.run]
  simp only [heedless.observe, pure_bind]

theorem Host.Heedless.run_branch_bind (branch : Branch S a) (function : S.El a → Branch S b) :
    (branch.bind function).run handler kept
      = (branch.run handler kept).andThen fun value => (function value).run handler kept := by
  cases branch with
  | tree tree =>
    rw [Branch.bind, Branch.run, Branch.run]
    exact heedless.run_bindAs .given tree function
  | refuse halt => rfl

/-- A map yields what the function makes of the value, or its halt. -/
theorem Host.Heedless.run_map (tree : Tree S a) (function : S.El a → Except (Halt S) (S.El b)) :
    (tree.map function).run handler kept = (tree.run handler kept).andThen fun value => do
      return .ok (← Hosted.except (function value)) := by
  have hbranch : ∀ value, (Branch.ofResult (function value)).run handler kept = (do
      return .ok (← Hosted.except (function value))) := by
    intro value
    cases function value with
    | ok value => rfl
    | error halt => rfl
  rw [Tree.map, Tree.bind, heedless.run_bindAs]
  exact congrArg (Hosted.andThen _) (funext hbranch)

theorem run_pure_bind (value : S.El a) (function : S.El a → Branch S b) {tree : Tree S b}
    (h : function value = .tree tree) :
    ((Tree.pure value).bind function).run handler kept = tree.run handler kept := by
  rw [Tree.bind, heedless.run_bindAs, Tree.run, Hosted.andThen_ok, h, Branch.run]

theorem run_bind_pure (tree : Tree S a) :
    (tree.bind fun value => .tree (.pure value)).run handler kept = tree.run handler kept := by
  rw [Tree.bind, heedless.run_bindAs]
  exact Hosted.andThen_pure (tree.run handler kept)

theorem run_bind_assoc (tree : Tree S a) (function : S.El a → Branch S b)
    (next : S.El b → Branch S c) :
    ((tree.bind function).bind next).run handler kept
      = (tree.bind fun value => (function value).bind next).run handler kept := by
  simp only [Tree.bind, heedless.run_bindAs, heedless.run_branch_bind, Hosted.andThen_assoc]

theorem run_map_id (tree : Tree S a) :
    (tree.map fun value => .ok value).run handler kept = tree.run handler kept :=
  run_bind_pure heedless tree

theorem run_map_map (tree : Tree S a) (first : S.El a → Except (Halt S) (S.El b))
    (second : S.El b → Except (Halt S) (S.El c)) :
    ((tree.map first).map second).run handler kept
      = (tree.map fun value => first value >>= second).run handler kept := by
  have hvalue : ∀ value, (do return .ok (← Hosted.except (first value)) :
      Hosted K (Except Failure (S.El b))).andThen (fun value => do
        return .ok (← Hosted.except (second value)))
          = (do return .ok (← Hosted.except (first value >>= second))) := by
    intro value
    cases first value with
    | ok value => rfl
    | error halt => rfl
  simp only [heedless.run_map, Hosted.andThen_assoc, hvalue]

end Runs

mutual

/-- **Equal trees have the same run.** -/
theorem Tree.Equal.run_eq (heedless : K.Heedless) (handler : HostHandler K Failure)
    (kept : KeptRuns K Failure) : {a : S.Ty} → {left right : Tree S a} → Tree.Equal left right →
      left.run handler kept = right.run handler kept
  | _, _, _, .pure_bind value function h => run_pure_bind heedless value function h
  | _, _, _, .bind_pure tree => run_bind_pure heedless tree
  | _, _, _, .bind_assoc tree function next => run_bind_assoc heedless tree function next
  | _, _, _, .map_id tree => run_map_id heedless tree
  | _, _, _, .map_map tree first second => run_map_map heedless tree first second
  | _, _, _, .refl tree => rfl
  | _, _, _, .symm h => (h.run_eq heedless handler kept).symm
  | _, _, _, .trans h h' =>
    (h.run_eq heedless handler kept).trans (h'.run_eq heedless handler kept)
  | _, _, _, .bindAs provenance first next => by
    rw [heedless.run_bindAs, heedless.run_bindAs, first.run_eq heedless handler kept]
    exact congrArg (Hosted.andThen _)
      (funext fun value => (next value).run_eq heedless handler kept)
  | _, _, _, .followedByKept first place => by
    rw [Tree.run, Tree.run, first.run_eq heedless handler kept]

theorem Branch.Equal.run_eq (heedless : K.Heedless) (handler : HostHandler K Failure)
    (kept : KeptRuns K Failure) : {a : S.Ty} → {left right : Branch S a} →
      Branch.Equal left right → left.run handler kept = right.run handler kept
  | _, _, _, .tree h => by rw [Branch.run, Branch.run, h.run_eq heedless handler kept]
  | _, _, _, .refuse halt => rfl

end

/-! ## 3. The laws of the combinators -/

/-- The programs are of trees that the laws make equal. -/
def Program.Equal (ledger : Ledger (Frame S)) (left right : Program S a) : Prop :=
  ∃ tree tree', Tree.Equal tree tree' ∧ left.Follows ledger tree ∧ right.Follows ledger tree'

/-- The steps make programs of trees that the laws make equal, or both come to the same halt,
whichever names are taken after those of the ledger. -/
def Building.Equal (ledger : Ledger (Frame S)) (left right : Building S (Program S a)) : Prop :=
  ∃ branch branch', Branch.Equal branch branch' ∧
    ∀ later, ledger <+: later → left.Follows later branch ∧ right.Follows later branch'

/-- The laws of the combinators, of programs of trees and of functions that make programs of
branches; and the places where the one side of a law can be put for the other: the program that is
gone on from, what a function makes, and the program that comes next. -/
structure Program.Laws (ledger : Ledger (Frame S)) : Prop where
  pure_bind {a b : S.Ty} (value : S.El a) {function : S.El a → Building S (Program S b)}
    {branch : S.El a → Branch S b}
    (makes : ∀ value later, ledger <+: later → (function value).Follows later (branch value))
    {tree : Tree S b} (htree : branch value = .tree tree) :
    Building.Equal ledger (liftM ((Program.pure value).bind function)) (function value)
  bind_pure {a : S.Ty} {program : Program S a} {tree : Tree S a}
    (follows : program.Follows ledger tree) :
    Building.Equal ledger (liftM (program.bind fun value => Pure.pure (Program.pure value)))
      (Pure.pure program)
  bind_assoc {a b c : S.Ty} {program : Program S a} {tree : Tree S a}
    (follows : program.Follows ledger tree) {function : S.El a → Building S (Program S b)}
    {branch : S.El a → Branch S b}
    (makes : ∀ value later, ledger <+: later → (function value).Follows later (branch value))
    {next : S.El b → Building S (Program S c)} {nextBranch : S.El b → Branch S c}
    (next_makes : ∀ value later, ledger <+: later →
      (next value).Follows later (nextBranch value)) :
    Building.Equal ledger (liftM (do (← program.bind function).bind next : Naming (Program S c)))
      (liftM (program.bind fun value => do liftM ((← function value).bind next)))
  map_id {a : S.Ty} {program : Program S a} {tree : Tree S a}
    (follows : program.Follows ledger tree) :
    Building.Equal ledger (liftM (program.map fun value => .ok value)) (Pure.pure program)
  map_map {a b c : S.Ty} {program : Program S a} {tree : Tree S a}
    (follows : program.Follows ledger tree) (first : S.El a → Except (Halt S) (S.El b))
    (second : S.El b → Except (Halt S) (S.El c)) :
    Building.Equal ledger (liftM (do (← program.map first).map second : Naming (Program S c)))
      (liftM (program.map fun value => first value >>= second))
  bind {a b : S.Ty} {left right : Program S a} (first : Program.Equal ledger left right)
    {function function' : S.El a → Building S (Program S b)}
    (next : ∀ value, Building.Equal ledger (function value) (function' value)) :
    Building.Equal ledger (liftM (left.bind function)) (liftM (right.bind function'))
  andThen {a b : S.Ty} {left right : Program S a} (first : Program.Equal ledger left right)
    {function function' : S.El a → Building S (Program S b)}
    (next : ∀ value, Building.Equal ledger (function value) (function' value)) :
    Building.Equal ledger (liftM (left.andThen function)) (liftM (right.andThen function'))
  map {a b : S.Ty} {left right : Program S a} (first : Program.Equal ledger left right)
    (function : S.El a → Except (Halt S) (S.El b)) :
    Building.Equal ledger (liftM (left.map function)) (liftM (right.map function))
  followedBy {a b : S.Ty} {left right : Program S a} (first : Program.Equal ledger left right)
    {next next' : Program S b} (second : Program.Equal ledger next next') :
    Building.Equal ledger (liftM (left.followedBy next)) (liftM (right.followedBy next'))

section Combinators

variable {ledger : Ledger (Frame S)}

/-- What is made in one step by either side. -/
theorem Building.Equal.of_ensures {left right : Naming (Program S a)} {tree tree' : Tree S a}
    (equal : Tree.Equal tree tree')
    (hleft : ∀ later, ledger <+: later →
      Naming.Ensures later left fun last made => made.Follows last tree)
    (hright : ∀ later, ledger <+: later →
      Naming.Ensures later right fun last made => made.Follows last tree') :
    Building.Equal ledger (liftM left) (liftM right) :=
  ⟨.tree tree, .tree tree', .tree equal, fun later hlater =>
    ⟨.tree (hleft later hlater), .tree (hright later hlater)⟩⟩

/-- What one side makes in a step is there already on the other side. -/
theorem Building.Equal.of_ready {left : Naming (Program S a)} {right : Program S a}
    {tree tree' : Tree S a} (equal : Tree.Equal tree tree')
    (hleft : ∀ later, ledger <+: later →
      Naming.Ensures later left fun last made => made.Follows last tree)
    (hright : right.Follows ledger tree') :
    Building.Equal ledger (liftM left) (Pure.pure right) :=
  ⟨.tree tree, .tree tree', .tree equal, fun later hlater =>
    ⟨.tree (hleft later hlater), .ready (hright.mono hlater)⟩⟩

/-- Binds are equal if their parts are, and so is all that is made by binds. -/
theorem Program.bindAs_equal (provenance : Provenance) {left right : Program S a}
    (first : Program.Equal ledger left right)
    {function function' : S.El a → Building S (Program S b)}
    (next : ∀ value, Building.Equal ledger (function value) (function' value)) :
    Building.Equal ledger (liftM (left.bindAs provenance function))
      (liftM (right.bindAs provenance function')) := by
  obtain ⟨tree, tree', equal, hleft, hright⟩ := first
  obtain ⟨branch, hbranch⟩ := Classical.axiomOfChoice next
  obtain ⟨branch', hmakes⟩ := Classical.axiomOfChoice hbranch
  refine .of_ensures (.bindAs provenance equal fun value => (hmakes value).1) ?_ ?_
  · intro later hlater
    exact Program.bindAs_follows provenance (hleft.mono hlater) fun value last hlast =>
      ((hmakes value).2 last (hlater.trans hlast)).1
  · intro later hlater
    exact Program.bindAs_follows provenance (hright.mono hlater) fun value last hlast =>
      ((hmakes value).2 last (hlater.trans hlast)).2

/-- **The combinators have the laws**, and keep programs equal. -/
theorem Program.laws (ledger : Ledger (Frame S)) : Program.Laws ledger where
  pure_bind value _ branch makes tree htree := by
    refine ⟨_, _, .tree (.pure_bind value branch htree), fun later hlater => ⟨.tree ?_, ?_⟩⟩
    · exact bind_follows (pure_follows value) fun value last hlast =>
        makes value last (hlater.trans hlast)
    · rw [← htree]
      exact makes value later hlater
  bind_pure {_ _ tree} follows := by
    refine .of_ready (.bind_pure tree) (fun later hlater => ?_) follows
    exact bind_follows (follows.mono hlater) fun value _ _ => .ready (pure_follows value)
  bind_assoc {_ _ _ _ tree} follows _ branch makes _ nextBranch next_makes := by
    refine .of_ensures (.bind_assoc tree branch nextBranch) ?_ ?_
    · intro later hlater
      refine (bind_follows (follows.mono hlater) fun value last hlast =>
        makes value last (hlater.trans hlast)).bind fun last made hlast hmade => ?_
      exact bind_follows hmade fun value final hfinal =>
        next_makes value final ((hlater.trans hlast).trans hfinal)
    · intro later hlater
      refine bind_follows (follows.mono hlater) fun value last hlast => ?_
      exact steps_bind_follows (makes value last (hlater.trans hlast)) fun value final hfinal =>
        next_makes value final ((hlater.trans hlast).trans hfinal)
  map_id {_ _ tree} follows :=
    .of_ready (.map_id tree) (fun _ hlater => map_follows (follows.mono hlater) _) follows
  map_map {_ _ _ _ tree} follows first second := by
    refine .of_ensures (.map_map tree first second) ?_ ?_
    · intro later hlater
      exact (map_follows (follows.mono hlater) first).bind fun _ _ _ hmade =>
        map_follows hmade second
    · intro later hlater
      exact map_follows (follows.mono hlater) _
  bind first _ _ next := bindAs_equal .given first next
  andThen first _ _ next := bindAs_equal .given first next
  map first function := by
    obtain ⟨tree, tree', equal, hleft, hright⟩ := first
    refine .of_ensures (.bindAs .given equal fun value => .refl (.ofResult (function value))) ?_ ?_
    · exact fun later hlater => map_follows (hleft.mono hlater) function
    · exact fun later hlater => map_follows (hright.mono hlater) function
  followedBy first _ _ second := by
    obtain ⟨tree, tree', equal, hleft, hright⟩ := second
    refine bindAs_equal .glue first fun _ => ?_
    exact ⟨_, _, .tree equal, fun later hlater =>
      ⟨.ready (hleft.mono hlater), .ready (hright.mono hlater)⟩⟩

/-- What steps come to on two sessions: one halt, or programs that stand for trees that the laws make
equal, and nothing of it is seen by the host. -/
inductive MadeEqual (trees : Trees S) (session session' : Session K) :
    EStateM.Result (Halt S) (Session K) (Program S a) →
      EStateM.Result (Halt S) (Session K) (Program S a) → Prop
  | halt (halt : Halt S) : MadeEqual trees session session' (.error halt session)
      (.error halt session')
  | made {program program' : Program S a} {tree tree' : Tree S a} {last last' : Session K}
    (equal : Tree.Equal tree tree') (stands : program.StandsFor tree trees last)
    (stands' : program'.StandsFor tree' trees last') (host : last.host = session.host)
    (host' : last'.host = session'.host) :
    MadeEqual trees session session' (.ok program last) (.ok program' last')

/-- **Equal steps make programs of equal trees on any sessions**, or come to one halt. -/
theorem Building.Equal.made {steps steps' : Building S (Program S a)}
    (h : Building.Equal ledger steps steps') {trees : Trees S} (keeps : K.Keeps ledger trees)
    {session session' : Session K} (agrees : session.memo.Agrees ledger)
    (agrees' : session'.memo.Agrees ledger) :
    MadeEqual trees session session' (Run.building steps session)
      (Run.building steps' session') := by
  obtain ⟨branch, branch', equal, makes⟩ := h
  obtain ⟨hfirst, hsecond⟩ := makes ledger (List.prefix_refl ledger)
  cases equal with
  | refuse halt =>
    have hsteps := hfirst.refused
    have hsteps' := hsecond.refused
    rw [← agrees.next_eq] at hsteps
    rw [← agrees'.next_eq] at hsteps'
    rw [Run.building_of_error hsteps, Run.building_of_error hsteps']
    exact .halt halt
  | tree equal =>
    obtain ⟨later, program, hlater, follows, hsteps⟩ := hfirst.made_tree
    obtain ⟨later', program', hlater', follows', hsteps'⟩ := hsecond.made_tree
    rw [← agrees.next_eq] at hsteps
    rw [← agrees'.next_eq] at hsteps'
    rw [Run.building_of_ok hsteps, Run.building_of_ok hsteps']
    exact .made equal ⟨follows, keeps.mono hlater, agrees.mono hlater⟩
      ⟨follows', keeps.mono hlater', agrees'.mono hlater'⟩ rfl rfl

end Combinators

/-! ## 4. Equal trees are interchangeable -/

/-- The host with states of the given type that notes the effects it handles, and takes no note of
the functions applied. -/
def Host.logging (σ : Type) (kept : Nat → Option ((type : S.Ty) × Program S type)) : Host S where
  State := σ × List S.Effect
  observe _ state := state
  kept := kept

/-- The handler that notes each effect. -/
def logged {σ α : Type} (kept : Nat → Option ((type : S.Ty) × Program S type))
    (handler : S.Effect → EStateM (Halt S) σ α) (effect : S.Effect) :
    Hosted (Host.logging σ kept) α :=
  fun (state, effects) =>
    match handler effect state with
    | .ok a state => .ok a (state, effects ++ [effect])
    | .error halt state => .error halt (state, effects ++ [effect])

/-- **Programs of equal trees can be put for each other.**  Take two programs that stand for equal
trees: trees that differ in sides of the laws, anywhere in them.  Against any handler that may refuse
both runs end, if one ends, with the same value, refusal or halt, with the same effects handled in
the same order and with the same state of the host; and so do all ways to run the one and the other
against any handler that answers every effect.

The combinators make such programs, where a law has them on its two sides and in every program that
is put together of these: on any sessions the steps of both sides come to one halt, or make programs
that stand for equal trees. -/
theorem Tree.Equal.interchangeable {σ : Type}
    {kept : Nat → Option ((type : S.Ty) × Program S type)} {left right : Tree S a}
    (equal : Tree.Equal left right) {program program' : Program S a} {trees : Trees S}
    {session session' : Session (Host.logging σ kept)}
    (stands : program.StandsFor left trees session)
    (stands' : program'.StandsFor right trees session') (hosts : session'.host = session.host)
    (depth : Nat) :
    (∀ {Failure : Type} (handler : S.Effect → EStateM (Halt S) σ (Except Failure (Packed S))),
      left.Ends depth trees (logged kept handler) session.host →
      ∃ enough, ∀ turns, enough ≤ turns →
        hostResult (program.tryRunIn turns (HostHandler.onSession (logged kept handler)) session)
          = hostResult
            (program'.tryRunIn turns (HostHandler.onSession (logged kept handler)) session')) ∧
    (∀ handler : S.Effect → EStateM (Halt S) σ (Packed S),
      left.Ends depth trees
        (answered (logged kept handler) : HostHandler (Host.logging σ kept) Empty) session.host →
      ∃ enough, ∀ turns, enough ≤ turns →
        ∀ way way' : Way (onSessions (logged kept handler)) a,
          hostResult (program.runBy turns way session)
            = hostResult (program'.runBy turns way' session')) ∧
    (∀ ledger : Ledger (Frame S), Program.Laws ledger) ∧
    (∀ {b : S.Ty} {ledger : Ledger (Frame S)} {steps steps' : Building S (Program S b)}
        {trees : Trees S} {first second : Session (Host.logging σ kept)},
      Building.Equal ledger steps steps' → (Host.logging σ kept).Keeps ledger trees →
      first.memo.Agrees ledger → second.memo.Agrees ledger →
      MadeEqual trees first second (Run.building steps first) (Run.building steps' second)) := by
  have heedless : (Host.logging σ kept).Heedless := fun _ _ => rfl
  have hrun : ∀ {Failure : Type} (handler : HostHandler (Host.logging σ kept) Failure),
      left.runIn depth trees handler = right.runIn depth trees handler :=
    fun handler => equal.run_eq heedless handler (trees.run handler depth)
  have hends : ∀ {Failure : Type} (handler : HostHandler (Host.logging σ kept) Failure),
      left.Ends depth trees handler session.host → right.Ends depth trees handler session'.host := by
    intro Failure handler ends
    rw [hosts]
    rcases ends with hnone | hfinite
    · exact Or.inl hnone
    · exact Or.inr (hrun handler ▸ hfinite)
  refine ⟨?_, ?_, Program.laws, fun h keeps agrees agrees' => h.made keeps agrees agrees'⟩
  · intro Failure handler ends
    obtain ⟨enough, h⟩ := stands.tryRunIn_eq (logged kept handler) ends
    obtain ⟨enough', h'⟩ := stands'.tryRunIn_eq (logged kept handler) (hends _ ends)
    refine ⟨max enough enough', ?_⟩
    intro turns hturns
    rw [h turns (by omega), h' turns (by omega), hrun, hosts]
  · intro handler ends
    obtain ⟨enough, h⟩ := stands.runBy_eq (logged kept handler) ends
    obtain ⟨enough', h'⟩ := stands'.runBy_eq (logged kept handler) (hends _ ends)
    refine ⟨max enough enough', ?_⟩
    intro turns hturns way way'
    rw [h turns (by omega) way, h' turns (by omega) way', hrun, hosts]

/-- A job; the branch that does the other job; and the branch that yields two. -/
def firstJob : Tree Jobs.signature Jobs.Ty.unit := .lift Jobs.Effect.job1

def otherJob : Unit → Branch Jobs.signature Jobs.Ty.unit := fun _ => .tree (.lift Jobs.Effect.job2)

def yieldTwo : Unit → Branch Jobs.signature Jobs.Ty.count := fun _ => .tree (.pure (2 : Nat))

/-- Behind a job, two binds one in the other. -/
def boundTwice : Tree Jobs.signature Jobs.Ty.count :=
  firstJob.followedBy ((firstJob.bind otherJob).bind yieldTwo)

/-- The same with one bind. -/
def boundOnce : Tree Jobs.signature Jobs.Ty.count :=
  firstJob.followedBy (firstJob.bind fun value => (otherJob value).bind yieldTwo)

/-- Does a job, but no other one. -/
def doFirst : Jobs.Effect → EStateM (Halt Jobs.signature) Nat (Except String (Packed Jobs.signature))
  | .job1, jobs => .ok (.ok Jobs.unitAnswer) (jobs + 1)
  | _, jobs => .ok (.error "not that job") jobs

/-- Does every job. -/
def doAll : Jobs.Effect → EStateM (Halt Jobs.signature) Nat (Packed Jobs.signature) :=
  fun _ jobs => .ok Jobs.unitAnswer (jobs + 1)

/-- The programs with two binds and with one are refused alike, and end alike in every way. -/
theorem bound_interchangeable :
    (∃ enough, ∀ turns, enough ≤ turns →
      hostResult ((boundTwice.build.run 0).1.tryRunIn turns
          (HostHandler.onSession (logged (fun _ => none) doFirst))
          (.startAt (boundTwice.build.run 0).2 (0, [])))
        = hostResult ((boundOnce.build.run 0).1.tryRunIn turns
          (HostHandler.onSession (logged (fun _ => none) doFirst))
          (.startAt (boundOnce.build.run 0).2 (0, [])))) ∧
    (∃ enough, ∀ turns, enough ≤ turns →
      ∀ way way' : Way (S := Jobs.signature) (onSessions (logged (fun _ => none) doAll))
        Jobs.Ty.count,
      hostResult ((boundTwice.build.run 0).1.runBy turns way
          (.startAt (boundTwice.build.run 0).2 (0, [])))
        = hostResult ((boundOnce.build.run 0).1.runBy turns way'
          (.startAt (boundOnce.build.run 0).2 (0, [])))) := by
  have hequal : Tree.Equal boundTwice boundOnce :=
    .bindAs .glue (.refl firstJob) fun _ => .tree (.bind_assoc firstJob otherJob yieldTwo)
  have hstands : ∀ tree : Tree Jobs.signature Jobs.Ty.count,
      (tree.build.run 0).1.StandsFor tree (fun _ => none)
        (Session.startAt (tree.build.run 0).2 (0, []) : Session (Host.logging Nat fun _ => none)) :=
    fun tree => tree.build_standsFor (K := Host.logging Nat fun _ => none) (fun _ => rfl) (0, [])
  obtain ⟨hrefused, hways, -⟩ := Tree.Equal.interchangeable hequal (hstands boundTwice)
    (hstands boundOnce) (Session.startAt_host_eq _ _ _) 0
  exact ⟨hrefused doFirst (.inl fun _ => rfl), hways doAll (.inl fun _ => rfl)⟩

end FreePrograms
