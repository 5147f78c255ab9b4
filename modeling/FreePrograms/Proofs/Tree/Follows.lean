/-
# The programs of a tree

A program does not remember how it was put together: it has a node and one sequence of frames,
which it may share with other programs.  `Program.Follows` says that it is nevertheless a program of
a given tree.  The frames, read as a list, have to go up the *spine* of the tree, the chain of first
parts: the innermost bind comes first, and every frame is that of its bind (`Spine`).  What a
function returns is a program of the branch that the tree has for the same value, whichever names
are taken by then (`Returns`).

The combinators take programs of trees to programs of the tree put together in the same way
(`Program.bindAs_follows` and the theorems after it, all of them in `Program.combined`), and the
program that `Tree.build` makes is one of its tree.  Nothing is asked about where the parts are from.
They can be used any number of times, and what was made once stays a program of its tree when further
names are taken (`Program.Follows.mono`).
-/
import FreePrograms.Program.Tree
import FreePrograms.Proofs.Sequence.Split

namespace FreePrograms

variable {S : Signature} {a b : S.Ty}

/-! ## 1. The spine of a tree -/

mutual

/-- A node and a list of frames are those of a tree. -/
inductive Spine {S : Signature} :
    Ledger (Frame S) → Node S → List (Frame S) → {a : S.Ty} → Tree S a → Prop
  | pure {ledger : Ledger (Frame S)} {a : S.Ty} (value : S.El a) :
    Spine ledger (.value ⟨a, value⟩) [] (.pure value)
  | lift {ledger : Ledger (Frame S)} {a : S.Ty} (effect : S.Effect) :
    Spine ledger (.ask effect (.expect a)) [] (@Tree.lift S a effect)
  | liftWith {ledger : Ledger (Frame S)} {a : S.Ty} (effect : S.Effect)
    (decode : Packed S → Except (Halt S) (S.El a)) :
    Spine ledger (.ask effect (.decode a decode)) [] (.liftWith effect decode)
  | bindAs {ledger : Ledger (Frame S)} {node : Node S} {frames : List (Frame S)} {a b : S.Ty}
    {tree : Tree S a} (provenance : Provenance)
    {code : S.El a → Cell → Except (Halt S) (Code S × Cell)} {function : S.El a → Branch S b}
    (first : Spine ledger node frames tree)
    (returns : ∀ value later, ledger <+: later →
      Returns later (code value later.length) (function value)) :
    Spine ledger node (frames ++ [.bind provenance a code]) (.bindAs provenance tree function)
  | followedByKept {ledger : Ledger (Frame S)} {node : Node S} {frames : List (Frame S)}
    {a b : S.Ty} {tree : Tree S a} (first : Spine ledger node frames tree) (place : Nat) :
    Spine ledger node (frames ++ [.kept place b]) (@Tree.followedByKept S a b tree place)

/-- What a function returns, begun when the names of the ledger were given, is a program of the tree
of a branch, or its halt. -/
inductive Returns {S : Signature} :
    Ledger (Frame S) → Except (Halt S) (Code S × Cell) → {b : S.Ty} → Branch S b → Prop
  | tree {ledger later : Ledger (Frame S)} {code : Code S} {b : S.Ty} {tree : Tree S b}
    (hlater : ledger <+: later) (sound : code.frames.Sound later)
    (spine : Spine later code.node code.frames.toList tree) :
    Returns ledger (.ok (code, later.length)) (.tree tree)
  | refuse {ledger : Ledger (Frame S)} {b : S.Ty} (halt : Halt S) :
    Returns ledger (.error halt) (@Branch.refuse S b halt)

end

theorem Spine.mono {ledger later : Ledger (Frame S)} (h : ledger <+: later) {node : Node S}
    {frames : List (Frame S)} : {a : S.Ty} → {tree : Tree S a} →
      Spine ledger node frames tree → Spine later node frames tree
  | _, .pure _, .pure value => .pure value
  | _, .lift _, .lift effect => .lift effect
  | _, .liftWith _ _, .liftWith effect decode => .liftWith effect decode
  | _, .bindAs _ _ _, .bindAs provenance first returns =>
    .bindAs provenance (first.mono h) fun value last hlast => returns value last (h.trans hlast)
  | _, .followedByKept _ _, .followedByKept first place => .followedByKept (first.mono h) place

/-- The program is one of the tree: its frames are in the ledger, and with its node they go up the
spine of the tree. -/
structure Program.Follows (ledger : Ledger (Frame S)) (program : Program S a) (tree : Tree S a) :
    Prop where
  sound : program.code.frames.Sound ledger
  spine : Spine ledger program.code.node program.code.frames.toList tree

/-- Steps that make a program, begun when the names of the ledger were given, make one of the tree of
a branch, or come to its halt. -/
def Building.Follows (ledger : Ledger (Frame S)) (steps : Building S (Program S b))
    (branch : Branch S b) : Prop :=
  Returns ledger ((steps ledger.length).map fun made => (made.1.code, made.2)) branch

section Building

variable {α β : Type} {steps : Building S α} {more : α → Building S β} {next next' : Cell}

theorem Building.bind_of_ok {made : α} (h : steps next = .ok (made, next')) :
    (steps >>= more) next = more made next' := by
  change (steps >>= more).run next = _
  rw [StateT.run_bind]
  change (steps next >>= fun made => (more made.1).run made.2) = _
  rw [h]
  rfl

theorem Building.bind_of_error {halt : Halt S} (h : steps next = .error halt) :
    (steps >>= more) next = .error halt := by
  change (steps >>= more).run next = _
  rw [StateT.run_bind]
  change (steps next >>= fun made => (more made.1).run made.2) = _
  rw [h]
  rfl

end Building

namespace Building.Follows

variable {ledger : Ledger (Frame S)}

/-- Steps that only take names, and make a program of the tree. -/
theorem tree {steps : Naming (Program S b)} {tree : Tree S b}
    (h : Naming.Ensures ledger steps fun later made => made.Follows later tree) :
    Building.Follows ledger (liftM steps) (.tree tree) := by
  obtain ⟨later, hlater, hlength, hmade⟩ := h
  have hreturns := Returns.tree hlater hmade.sound hmade.spine
  rw [← hlength] at hreturns
  exact hreturns

/-- A program that was there before, returned. -/
theorem ready {program : Program S b} {tree : Tree S b} (h : program.Follows ledger tree) :
    Building.Follows ledger (Pure.pure program) (.tree tree) :=
  Returns.tree (List.prefix_refl ledger) h.sound h.spine

/-- A halt in place of a program. -/
theorem refuse (halt : Halt S) :
    Building.Follows ledger (throw halt) (@Branch.refuse S b halt) := Returns.refuse halt

/-- Steps that begin with others, which made something and took names, make a program of the tree if
the rest of them does. -/
theorem after {α : Type} {later : Ledger (Frame S)} {steps : Building S α}
    {more : α → Building S (Program S a)} {made : α} {branch : Branch S a}
    (hlater : ledger <+: later) (hsteps : steps ledger.length = .ok (made, later.length))
    (h : Building.Follows later (more made) branch) :
    Building.Follows ledger (steps >>= more) branch := by
  rw [Building.Follows] at h ⊢
  rw [Building.bind_of_ok hsteps]
  generalize (more made later.length).map (fun made => (made.1.code, made.2)) = result at h
  cases h with
  | tree hlast sound spine => exact .tree (hlater.trans hlast) sound spine
  | refuse halt => exact .refuse halt

/-- Steps that make a program of a branch come to the halt of the branch, or make a program of its
tree. -/
theorem made {steps : Building S (Program S a)}
    {branch : Branch S a} (h : Building.Follows ledger steps branch) :
    (∃ halt, branch = .refuse halt ∧ steps ledger.length = .error halt) ∨
      ∃ later program tree, branch = .tree tree ∧ ledger <+: later ∧ program.Follows later tree ∧
        steps ledger.length = .ok (program, later.length) := by
  rw [Building.Follows] at h
  cases hsteps : steps ledger.length with
  | error halt =>
    rw [hsteps] at h
    cases h
    exact .inl ⟨halt, rfl, rfl⟩
  | ok made =>
    obtain ⟨⟨code⟩, next⟩ := made
    rw [hsteps] at h
    cases h with
    | @tree _ later _ _ tree hlater sound spine =>
      exact .inr ⟨later, ⟨code⟩, tree, rfl, hlater, ⟨sound, spine⟩, rfl⟩

/-- Steps that make a program of a tree. -/
theorem made_tree {steps : Building S (Program S a)}
    {tree : Tree S a} (h : Building.Follows ledger steps (.tree tree)) :
    ∃ later program, ledger <+: later ∧ program.Follows later tree ∧
      steps ledger.length = .ok (program, later.length) := by
  obtain ⟨_, hrefuse, -⟩ | ⟨later, program, _, htree, hlater, follows, hsteps⟩ := h.made
  · cases hrefuse
  · cases htree
    exact ⟨later, program, hlater, follows, hsteps⟩

/-- Steps that come to a halt. -/
theorem refused {steps : Building S (Program S a)} {halt : Halt S}
    (h : Building.Follows ledger steps (.refuse halt)) : steps ledger.length = .error halt := by
  obtain ⟨_, hrefuse, hsteps⟩ | ⟨_, _, _, htree, -⟩ := h.made
  · cases hrefuse
    exact hsteps
  · cases htree

end Building.Follows

namespace Program

variable {ledger : Ledger (Frame S)}

/-- **A program of a tree stays one**, whatever names are taken. -/
theorem Follows.mono {later : Ledger (Frame S)} (h : ledger <+: later) {program : Program S a}
    {tree : Tree S a} (hp : program.Follows ledger tree) : program.Follows later tree :=
  ⟨hp.sound.mono h, hp.spine.mono h⟩

/-! ## 2. The combinators -/

/-- A program without frames is at the lower end of a spine. -/
theorem bare_follows {node : Node S} {tree : Tree S a} (h : Spine ledger node [] tree) :
    (⟨.mk node .empty⟩ : Program S a).Follows ledger tree where
  sound := .empty
  spine := by
    change Spine ledger node (Sequence.empty : Sequence (Frame S)).toList tree
    rw [Sequence.toList_empty]
    exact h

theorem pure_follows (value : S.El a) : (pure value).Follows ledger (.pure value) :=
  bare_follows (.pure value)

theorem lift_follows (effect : S.Effect) :
    (lift effect : Program S a).Follows ledger (.lift effect) :=
  bare_follows (.lift effect)

theorem liftWith_follows (effect : S.Effect) (decode : Packed S → Except (Halt S) (S.El a)) :
    (liftWith effect decode).Follows ledger (.liftWith effect decode) :=
  bare_follows (.liftWith effect decode)

/-- A frame put behind a program goes on top of the spine. -/
theorem attach_follows {program : Program S a} {frame : Frame S} {tree : Tree S b}
    (sound : program.code.frames.Sound ledger)
    (spine : ∀ later, ledger <+: later →
      Spine later program.code.node (program.code.frames.toList ++ [frame]) tree) :
    Naming.Ensures ledger (program.attach frame : Naming (Program S b)) fun later made =>
      made.Follows later tree := by
  refine (Sequence.snoc_ensures sound frame).bind ?_
  intro later frames hlater hframes
  refine .pure ⟨hframes.1, ?_⟩
  have hspine := spine later hlater
  rw [← hframes.2] at hspine
  exact hspine

/-- What the frame of a bind keeps is the code of what the function makes. -/
theorem code_of_steps (steps : Building S (Program S b)) (next : Cell) :
    (do return (← steps).code : Building S (Code S)) next
      = (steps next).map fun made => (made.1.code, made.2) := by
  change (steps >>= fun made => Pure.pure made.code).run next = _
  rw [StateT.run_bind]
  change (steps next >>= fun made => (Pure.pure made.1.code : Building S (Code S)).run made.2) = _
  cases steps next with
  | error halt => rfl
  | ok made => rfl

/-- **A bind makes a program of the bind**, once the function makes programs of the branches. -/
theorem bindAs_follows (provenance : Provenance) {program : Program S a} {tree : Tree S a}
    (hp : program.Follows ledger tree) {function : S.El a → Building S (Program S b)}
    {branch : S.El a → Branch S b}
    (hf : ∀ value later, ledger <+: later → (function value).Follows later (branch value)) :
    Naming.Ensures ledger (program.bindAs provenance function) fun later made =>
      made.Follows later (tree.bindAs provenance branch) := by
  refine attach_follows hp.sound ?_
  intro later hlater
  refine .bindAs provenance (hp.spine.mono hlater) ?_
  intro value last hlast
  have hreturns : Returns last _ (branch value) := hf value last (hlater.trans hlast)
  rw [← code_of_steps] at hreturns
  exact hreturns

theorem bind_follows {program : Program S a} {tree : Tree S a} (hp : program.Follows ledger tree)
    {function : S.El a → Building S (Program S b)} {branch : S.El a → Branch S b}
    (hf : ∀ value later, ledger <+: later → (function value).Follows later (branch value)) :
    Naming.Ensures ledger (program.bind function) fun later made =>
      made.Follows later (tree.bind branch) :=
  bindAs_follows .given hp hf

/-- A bind put behind the program that steps make. -/
theorem steps_bind_follows {steps : Building S (Program S a)} {branch : Branch S a}
    (hsteps : steps.Follows ledger branch) {function : S.El a → Building S (Program S b)}
    {next : S.El a → Branch S b}
    (hf : ∀ value later, ledger <+: later → (function value).Follows later (next value)) :
    Building.Follows ledger (do liftM ((← steps).bind function)) (branch.bind next) := by
  obtain ⟨halt, rfl, herror⟩ | ⟨later, program, tree, rfl, hlater, hp, hmade⟩ := hsteps.made
  · rw [Building.Follows, Building.bind_of_error herror]
    exact .refuse halt
  · refine .after hlater hmade (.tree (bind_follows hp fun value last hlast => ?_))
    exact hf value last (hlater.trans hlast)

theorem andThen_follows {program : Program S a} {tree : Tree S a}
    (hp : program.Follows ledger tree) {function : S.El a → Building S (Program S b)}
    {branch : S.El a → Branch S b}
    (hf : ∀ value later, ledger <+: later → (function value).Follows later (branch value)) :
    Naming.Ensures ledger (program.andThen function) fun later made =>
      made.Follows later (tree.andThen branch) :=
  bind_follows hp hf

theorem map_follows {program : Program S a} {tree : Tree S a} (hp : program.Follows ledger tree)
    (function : S.El a → Except (Halt S) (S.El b)) :
    Naming.Ensures ledger (program.map function) fun later made =>
      made.Follows later (tree.map function) := by
  refine bind_follows hp ?_
  intro value later _
  cases hvalue : function value with
  | ok result => exact Building.Follows.ready (pure_follows result)
  | error halt => exact Building.Follows.refuse halt

/-- **What comes next may be shared** with whatever else has it. -/
theorem followedBy_follows {program : Program S a} {tree : Tree S a}
    (hp : program.Follows ledger tree) {next : Program S b} {nextTree : Tree S b}
    (hn : next.Follows ledger nextTree) :
    Naming.Ensures ledger (program.followedBy next) fun later made =>
      made.Follows later (tree.followedBy nextTree) :=
  bindAs_follows .glue hp fun _ _ hlater => .ready (hn.mono hlater)

theorem followedByKept_follows {program : Program S a} {tree : Tree S a}
    (hp : program.Follows ledger tree) (place : Nat) :
    Naming.Ensures ledger (program.followedByKept place : Naming (Program S b)) fun later made =>
      made.Follows later (tree.followedByKept place) :=
  attach_follows hp.sound fun _ hlater => .followedByKept (hp.spine.mono hlater) place

/-- What is so of whatever makes a program of a tree is so of each combinator, with the tree that is
put together in the same way.  The parts are any programs of trees, which may have other uses too,
and the functions make programs of branches, whichever names are taken by then. -/
structure Combined (ledger : Ledger (Frame S))
    (holds : {c : S.Ty} → Naming (Program S c) → Tree S c → Prop) : Prop where
  pure {a : S.Ty} (value : S.El a) : holds (Pure.pure (Program.pure value)) (.pure value)
  lift {a : S.Ty} (effect : S.Effect) :
    holds (Pure.pure (Program.lift effect : Program S a)) (.lift effect)
  liftWith {a : S.Ty} (effect : S.Effect) (decode : Packed S → Except (Halt S) (S.El a)) :
    holds (Pure.pure (Program.liftWith effect decode)) (.liftWith effect decode)
  bind {a b : S.Ty} {program : Program S a} {tree : Tree S a} (follows : program.Follows ledger tree)
    {function : S.El a → Building S (Program S b)} {branch : S.El a → Branch S b}
    (makes : ∀ value later, ledger <+: later → (function value).Follows later (branch value)) :
    holds (program.bind function) (tree.bind branch)
  andThen {a b : S.Ty} {program : Program S a} {tree : Tree S a}
    (follows : program.Follows ledger tree) {function : S.El a → Building S (Program S b)}
    {branch : S.El a → Branch S b}
    (makes : ∀ value later, ledger <+: later → (function value).Follows later (branch value)) :
    holds (program.andThen function) (tree.andThen branch)
  map {a b : S.Ty} {program : Program S a} {tree : Tree S a} (follows : program.Follows ledger tree)
    (function : S.El a → Except (Halt S) (S.El b)) :
    holds (program.map function) (tree.map function)
  followedBy {a b : S.Ty} {program : Program S a} {tree : Tree S a}
    (follows : program.Follows ledger tree) {next : Program S b} {nextTree : Tree S b}
    (next_follows : next.Follows ledger nextTree) :
    holds (program.followedBy next) (tree.followedBy nextTree)
  followedByKept {a b : S.Ty} {program : Program S a} {tree : Tree S a}
    (follows : program.Follows ledger tree) (place : Nat) :
    holds (program.followedByKept place : Naming (Program S b)) (tree.followedByKept place)

/-- **Each combinator makes a program of the tree that is put together in the same way.** -/
theorem combined {holds : {c : S.Ty} → Naming (Program S c) → Tree S c → Prop}
    (h : ∀ {c : S.Ty} {steps : Naming (Program S c)} {tree : Tree S c},
      Naming.Ensures ledger steps (fun later made => made.Follows later tree) → holds steps tree) :
    Combined ledger holds where
  pure value := h (.pure (pure_follows value))
  lift effect := h (.pure (lift_follows effect))
  liftWith effect decode := h (.pure (liftWith_follows effect decode))
  bind follows _ _ makes := h (bind_follows follows makes)
  andThen follows _ _ makes := h (andThen_follows follows makes)
  map follows function := h (map_follows follows function)
  followedBy follows _ _ next_follows := h (followedBy_follows follows next_follows)
  followedByKept follows place := h (followedByKept_follows follows place)

end Program

/-! ## 3. The program that a tree makes -/

mutual

/-- **The program of a tree is a program of the tree.** -/
theorem Tree.build_follows (ledger : Ledger (Frame S)) : {a : S.Ty} → (tree : Tree S a) →
    Naming.Ensures ledger tree.build fun later made => made.Follows later tree
  | _, .pure value => .pure (Program.pure_follows value)
  | _, .lift effect => .pure (Program.lift_follows effect)
  | _, .liftWith effect decode => .pure (Program.liftWith_follows effect decode)
  | _, .bindAs provenance tree function =>
    (tree.build_follows ledger).bind fun _ _ _ hmade =>
      Program.bindAs_follows provenance hmade fun value last _ =>
        (function value).build_follows last
  | _, .followedByKept tree place =>
    (tree.build_follows ledger).bind fun _ _ _ hmade => Program.followedByKept_follows hmade place

theorem Branch.build_follows (ledger : Ledger (Frame S)) : {a : S.Ty} → (branch : Branch S a) →
    Building.Follows ledger branch.build branch
  | _, .tree tree => .tree (tree.build_follows ledger)
  | _, .refuse halt => .refuse halt

end

/-! ## 4. What is kept -/

/-- What is kept at a place is a program of the tree that is kept there. -/
inductive KeptFollows {S : Signature} (ledger : Ledger (Frame S)) :
    Option ((type : S.Ty) × Program S type) → Option ((type : S.Ty) × Tree S type) → Prop
  | none : KeptFollows ledger none none
  | some {type : S.Ty} {program : Program S type} {tree : Tree S type}
    (follows : program.Follows ledger tree) :
    KeptFollows ledger (some ⟨type, program⟩) (some ⟨type, tree⟩)

/-- The programs that the host keeps are those of the trees, place by place. -/
def Host.Keeps (ledger : Ledger (Frame S)) (K : Host S) (trees : Trees S) : Prop :=
  ∀ place, KeptFollows ledger (K.kept place) (trees place)

theorem KeptFollows.mono {ledger later : Ledger (Frame S)} (h : ledger <+: later)
    {program : Option ((type : S.Ty) × Program S type)}
    {tree : Option ((type : S.Ty) × Tree S type)}
    (hp : KeptFollows ledger program tree) : KeptFollows later program tree := by
  cases hp with
  | none => exact .none
  | some follows => exact .some (follows.mono h)

theorem Host.Keeps.mono {ledger later : Ledger (Frame S)} (h : ledger <+: later) {K : Host S}
    {trees : Trees S} (keeps : K.Keeps ledger trees) : K.Keeps later trees :=
  fun place => (keeps place).mono h

/-- A host that keeps nothing. -/
theorem Host.keeps_nothing (ledger : Ledger (Frame S)) {K : Host S}
    (h : ∀ place, K.kept place = none) : K.Keeps ledger fun _ => none := by
  intro place
  rw [h place]
  exact .none

/-- On the session the program stands for the tree: it is a program of the tree, what the host keeps
are programs of the trees, and the table of the session fits the names they were given. -/
inductive Program.StandsFor {K : Host S} (program : Program S a) (tree : Tree S a)
    (trees : Trees S) (session : Session K) : Prop
  | intro {ledger : Ledger (Frame S)} (follows : program.Follows ledger tree)
    (keeps : K.Keeps ledger trees) (agrees : session.memo.Agrees ledger)

/-- A session on which names were given and nothing else happened. -/
theorem Session.startAt_agrees {K : Host S} (ledger : Ledger (Frame S)) (host : K.State) :
    (Session.startAt ledger.length host : Session K).memo.Agrees ledger :=
  Memo.agrees_empty.mono List.nil_prefix

/-- The host is the same, whatever the next name is. -/
theorem Session.startAt_host_eq {K : Host S} (next next' : Cell) (host : K.State) :
    (Session.startAt next host : Session K).host = (Session.startAt next' host : Session K).host :=
  rfl

/-- The program of a tree, made first of all, on a host that keeps nothing. -/
theorem Tree.build_standsFor {K : Host S} (nothing : ∀ place, K.kept place = none) (tree : Tree S a)
    (host : K.State) : (tree.build.run 0).1.StandsFor tree (fun _ => none)
      (Session.startAt (tree.build.run 0).2 host : Session K) := by
  obtain ⟨ledger, -, hlength, hfollows⟩ := tree.build_follows []
  have hnext : (tree.build.run 0).2 = ledger.length := hlength
  rw [hnext]
  exact ⟨hfollows, Host.keeps_nothing ledger nothing, Session.startAt_agrees ledger host⟩

end FreePrograms
