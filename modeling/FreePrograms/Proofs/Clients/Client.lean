/-
# Clients

A `Client` is a host that makes programs of others, runs them and leaves runs half driven, in any
order.  It has a state of its own, a shelf of programs and a shelf of steps, each of them a run that
waits for the answer to an effect.  It can

* make a program of new parts and of clones of programs on the shelf (`Recipe`), or drop one;
* carry a program out to its end, as a run with a handler, a fold, steps that are driven or a
  deferred computation (`Course`), and go on with the outcome, also if that is a halt;
* fold a program into steps, go on with the answer to a step, drive the steps that are left to their
  end, or abandon them.

The functions that it hands in are clients again.  So a run can be started, or gone on with, while
another one waits for its handler.  A step on the shelf is what a step of a fold holds: where the
program came to (`Code.steps_eq`), so the client sees the effect and handles it as it likes.

What a client does is said once (`Client.perform`), for two settings.  `together` all programs are
kept as they were made, with the parts that they share, and all runs are made on one session, with
one table of known tails.  `apart` a program is kept as the tree that it was put together as.  Each
run gets a program that is made afresh, and a session of its own, on which nothing has happened; of
that session it is only the table that is kept, until the run is over.
-/
import FreePrograms.Proofs.Run.Interpreters
import FreePrograms.Proofs.Tree.Follows

namespace FreePrograms

variable {S : Signature} {K : Host S} {σ α R : Type} {a b : S.Ty}

/-! ## 1. Programs made of others -/

/-- How a program is made, of new parts and of clones of programs that are there. -/
inductive Recipe (S : Signature) : S.Ty → Type where
  | pure {a : S.Ty} (value : S.El a) : Recipe S a
  | lift {a : S.Ty} (effect : S.Effect) : Recipe S a
  | liftWith {a : S.Ty} (effect : S.Effect) (decode : Packed S → Except (Halt S) (S.El a)) :
    Recipe S a
  | bindAs {a b : S.Ty} (provenance : Provenance) (recipe : Recipe S a)
    (function : S.El a → Recipe S b) : Recipe S b
  | followedByKept {a b : S.Ty} (recipe : Recipe S a) (place : Nat) : Recipe S b
  /-- The program on the shelf at that place, as it is. -/
  | clone {a : S.Ty} (place : Nat) : Recipe S a
  /-- A halt in place of a program. -/
  | refuse {a : S.Ty} (halt : Halt S) : Recipe S a

/-- The branch with something more put behind its tree. -/
def Branch.grow (branch : Branch S a) (more : Tree S a → Tree S b) : Branch S b :=
  match branch with
  | .tree first => .tree (more first)
  | .refuse halt => .refuse halt

/-- The tree of the branch, or its halt. -/
def Branch.orHalt : Branch S a → Run K (Tree S a)
  | .tree found => return found
  | .refuse halt => throw halt

namespace Recipe

/-- The program, of programs as they were made. -/
def build (programs : Nat → Option ((type : S.Ty) × Program S type)) {a : S.Ty} :
    Recipe S a → Building S (Program S a)
  | .pure value => return .pure value
  | .lift effect => return .lift effect
  | .liftWith effect decode => return .liftWith effect decode
  | .bindAs provenance recipe function => do
    (← recipe.build programs).bindAs provenance fun value => (function value).build programs
  | .followedByKept recipe place => do (← recipe.build programs).followedByKept place
  | .clone place =>
    match programs place with
    | some ⟨type, program⟩ => if h : type = a then return h ▸ program else throw (.absent place)
    | none => throw (.absent place)
  | .refuse halt => throw halt

/-- How the program is put together in the end, of trees in place of programs. -/
def branch (trees : Trees S) {a : S.Ty} : Recipe S a → Branch S a
  | .pure value => .tree (.pure value)
  | .lift effect => .tree (.lift effect)
  | .liftWith effect decode => .tree (.liftWith effect decode)
  | .bindAs provenance recipe function =>
    (recipe.branch trees).grow fun tree =>
      tree.bindAs provenance fun value => (function value).branch trees
  | .followedByKept recipe place =>
    (recipe.branch trees).grow fun tree => tree.followedByKept place
  | .clone place =>
    match trees place with
    | some ⟨type, tree⟩ => if h : type = a then .tree (h ▸ tree) else .refuse (.absent place)
    | none => .refuse (.absent place)
  | .refuse halt => .refuse halt

end Recipe

/-! ## 2. Clients -/

/-- What is seen of a step: the result, or the effect. -/
inductive Sight (S : Signature) where
  | result (value : Packed S)
  | asking (effect : S.Effect)

mutual

/-- A computation of a client, with a state of its own. -/
inductive Client (S : Signature) (σ : Type) : Type → Type 1 where
  | yield {α : Type} (value : α) : Client S σ α
  /-- Halts; if this is inside a run, it is the run that halts. -/
  | halt {α : Type} (halt : Halt S) : Client S σ α
  /-- Looks at the state and changes it. -/
  | access {α : Type} (change : σ → σ) (next : σ → Client S σ α) : Client S σ α
  /-- Makes a program and puts it on the shelf. -/
  | make {α : Type} {a : S.Ty} (recipe : Recipe S a) (next : Except (Halt S) Nat → Client S σ α) :
    Client S σ α
  | drop {α : Type} (place : Nat) (next : Client S σ α) : Client S σ α
  /-- Carries a program out to its end. -/
  | carryOut {α R : Type} (place : Nat) (course : Course S σ R)
    (next : Except (Halt S) R → Client S σ α) : Client S σ α
  /-- Folds a program into steps and puts the first one on the shelf. -/
  | start {α : Type} (place : Nat) (next : Except (Halt S) (Nat × Sight S) → Client S σ α) :
    Client S σ α
  /-- Takes a step off the shelf, goes on with an answer, and puts the next step in its place. -/
  | resume {α : Type} (place : Nat) (answer : Packed S)
    (next : Except (Halt S) (Sight S) → Client S σ α) : Client S σ α
  /-- Takes a step off the shelf and drives it to the end. -/
  | drive {α : Type} (place : Nat) (force : S.Effect → Client S σ (Packed S))
    (next : Except (Halt S) (Packed S) → Client S σ α) : Client S σ α
  | abandon {α : Type} (place : Nat) (next : Client S σ α) : Client S σ α

/-- How a program is carried out, with functions that are clients. -/
inductive Course (S : Signature) (σ : Type) : Type → Type 1 where
  /-- The run with a handler that may refuse. -/
  | tryRun {Failure : Type} (handler : S.Effect → Client S σ (Except Failure (Packed S))) :
    Course S σ (Except Failure (Packed S))
  /-- The run with a handler that answers every effect. -/
  | run (handler : S.Effect → Client S σ (Packed S)) : Course S σ (Packed S)
  /-- The fold.  A rendered effect either gives the fold at once or an answer for the fold of the
  rest, of which the fold is made then. -/
  | fold {N M : Type} (render : S.Effect → Client S σ N) (finish : Packed S → Client S σ M)
    (choose : N → Client S σ (Except M (Packed S))) (combine : N → M → Client S σ M) : Course S σ M
  /-- The fold into steps, which are driven to their end. -/
  | steps {N M : Type} (render : S.Effect → Client S σ N) (finish : Packed S → Client S σ M)
    (force : N → Client S σ (Packed S)) : Course S σ M
  /-- The fold into steps that gives the first one to a driver, which drives them to their end. -/
  | drive {N M : Type} (render : S.Effect → Client S σ N) (finish : Packed S → Client S σ M)
    (force : N → Client S σ (Packed S)) : Course S σ M
  /-- The fold into deferred computations that are chained; the whole one is forced. -/
  | chain {N : Type} (render : S.Effect → Client S σ N) (force : N → Client S σ (Packed S)) :
    Course S σ (Packed S)
  /-- The fold into steps that makes one deferred computation of them, which is forced. -/
  | defer {N : Type} (render : S.Effect → Client S σ N) (force : N → Client S σ (Packed S)) :
    Course S σ (Packed S)

end

/-! ## 3. What a client does -/

/-- Where a client works: what becomes of each of its steps. -/
structure Setting (K : Host S) (σ : Type) where
  access (change : σ → σ) : Run K σ
  /-- Notes that an effect was handed to the client. -/
  note (effect : S.Effect) : Run K Unit
  make {a : S.Ty} (recipe : Recipe S a) : Run K Nat
  drop (place : Nat) : Run K Unit
  /-- Carries out the program on the shelf in the given way. -/
  carryOut {R : Type} (place : Nat) (work : (type : S.Ty) → Program S type → Run K R) : Run K R
  start (place : Nat) : Run K (Nat × Sight S)
  resume (place : Nat) (answer : Packed S) : Run K (Sight S)
  drive (place : Nat) (force : S.Effect → Run K (Packed S)) : Run K (Packed S)
  abandon (place : Nat) : Run K Unit

mutual

/-- What the client does, with at most so many turns for each part of a run. -/
def Client.perform (setting : Setting K σ) (turns : Nat) {α : Type} : Client S σ α → Run K α
  | .yield value => return value
  | .halt halt => throw halt
  | .access change next => do (next (← setting.access change)).perform setting turns
  | .make recipe next => do (next (← Run.attempt (setting.make recipe))).perform setting turns
  | .drop place next => do
    setting.drop place
    next.perform setting turns
  | .carryOut place course next => do
    let outcome ← Run.attempt (setting.carryOut place fun _ program =>
      course.perform setting turns program)
    (next outcome).perform setting turns
  | .start place next => do (next (← Run.attempt (setting.start place))).perform setting turns
  | .resume place answer next => do
    (next (← Run.attempt (setting.resume place answer))).perform setting turns
  | .drive place force next => do
    let outcome ← Run.attempt (setting.drive place fun effect => do
      setting.note effect
      (force effect).perform setting turns)
    (next outcome).perform setting turns
  | .abandon place next => do
    setting.abandon place
    next.perform setting turns

/-- Carries out a program. -/
def Course.perform (setting : Setting K σ) (turns : Nat) {type : S.Ty} {R : Type} :
    Course S σ R → Program S type → Run K R
  | .tryRun handler, program => do
    let result ← (Interpreter.tryRun fun effect => do
      setting.note effect
      (handler effect).perform setting turns).carryOut turns program
    return result.map (Packed.mk type)
  | .run handler, program => do
    let value ← (Interpreter.run fun effect => do
      setting.note effect
      (handler effect).perform setting turns).carryOut turns program
    return ⟨type, value⟩
  | .fold render finish choose combine, program =>
    (Interpreter.fold ⟨fun effect => do
        setting.note effect
        (render effect).perform setting turns,
      fun value => (finish ⟨type, value⟩).perform setting turns⟩
      fun effect rest => do
        match ← (choose effect).perform setting turns with
        | .error value => return value
        | .ok answer => (combine effect (← rest answer)).perform setting turns).carryOut turns
          program
  | .steps render finish force, program =>
    (Interpreter.steps ⟨fun effect => do
        setting.note effect
        (render effect).perform setting turns,
      fun value => (finish ⟨type, value⟩).perform setting turns⟩
      fun effect => (force effect).perform setting turns).carryOut turns program
  | .drive render finish force, program =>
    (Interpreter.drive ⟨fun effect => do
        setting.note effect
        (render effect).perform setting turns,
      fun value => (finish ⟨type, value⟩).perform setting turns⟩
      fun step => step.runIn turns fun effect =>
        (force effect).perform setting turns).carryOut turns program
  | .chain render force, program => do
    let rendering : Rendering K type (Deferred K (Packed S)) (Deferred K (S.El type)) :=
      ⟨fun effect => do
          setting.note effect
          let rendered ← (render effect).perform setting turns
          return ⟨(force rendered).perform setting turns⟩,
        fun value => return .now value⟩
    let deferred ← (Interpreter.fold rendering fun effect rest => return effect.bind rest).carryOut
      turns program
    return ⟨type, ← deferred.force⟩
  | .defer render force, program => do
    let value ← (Interpreter.defer fun effect => do
      setting.note effect
      let rendered ← (render effect).perform setting turns
      return ⟨(force rendered).perform setting turns⟩).carryOut turns program
    return ⟨type, value⟩

end

/-! ## 4. The two settings -/

/-- Things that are taken and left at places. -/
structure Shelf (α : Type) where
  /-- The first place that was never used. -/
  size : Nat
  item : Nat → Option α

namespace Shelf

/-- Nothing is there. -/
def empty : Shelf α := ⟨0, fun _ => none⟩

/-- Something else at a place. -/
def put (shelf : Shelf α) (place : Nat) (item : Option α) : Shelf α :=
  ⟨shelf.size, fun other => if other = place then item else shelf.item other⟩

/-- Something at the first place that was never used. -/
def push (shelf : Shelf α) (item : α) : Shelf α :=
  ⟨shelf.size + 1, (shelf.put shelf.size (some item)).item⟩

end Shelf

/-- What there is: the state of the client, the effects handed to it and the functions applied, in
one order, its programs, and its steps. -/
structure World (S : Signature) (σ P H : Type) where
  state : σ
  journal : List (Happening S)
  programs : Shelf P
  steps : Shelf H

/-- The world in which nothing has happened. -/
def World.start {P H : Type} (state : σ) : World S σ P H := ⟨state, [], .empty, .empty⟩

/-- The world as a host, which keeps the given programs. -/
def Host.ofWorld (σ P H : Type) (kept : List ((type : S.Ty) × Program S type)) : Host S where
  State := World S σ P H
  observe callback world := { world with journal := world.journal ++ [.applied callback] }
  kept place := kept[place]?

namespace Setting

variable {P H : Type} {kept : List ((type : S.Ty) × Program S type)}

/-- Looks at the state of the client and changes it. -/
def accessState (change : σ → σ) : Run (Host.ofWorld σ P H kept) σ := do
  let world ← Run.host
  Run.onHost fun world => { world with state := change world.state }
  return world.state

/-- Notes an effect in the journal. -/
def noteEffect (effect : S.Effect) : Run (Host.ofWorld σ P H kept) Unit :=
  Run.onHost fun world => { world with journal := world.journal ++ [.handled effect] }

/-- Something else at a place for programs. -/
def putProgram (place : Nat) (program : Option P) : Run (Host.ofWorld σ P H kept) Unit :=
  Run.onHost fun world => { world with programs := world.programs.put place program }

/-- A further program. -/
def pushProgram (program : P) : Run (Host.ofWorld σ P H kept) Nat := do
  let world ← Run.host
  Run.onHost fun world => { world with programs := world.programs.push program }
  return world.programs.size

/-- Something else at a place for steps. -/
def putStep (place : Nat) (step : Option H) : Run (Host.ofWorld σ P H kept) Unit :=
  Run.onHost fun world => { world with steps := world.steps.put place step }

/-- A further step. -/
def pushStep (step : H) : Run (Host.ofWorld σ P H kept) Nat := do
  let world ← Run.host
  Run.onHost fun world => { world with steps := world.steps.push step }
  return world.steps.size

/-- What is at a place for programs. -/
def program (place : Nat) : Run (Host.ofWorld σ P H kept) P := do
  let world ← Run.host
  match world.programs.item place with
  | some program => return program
  | none => throw (.absent place)

/-- What is at a place for steps, taken away from there. -/
def takeStep (place : Nat) : Run (Host.ofWorld σ P H kept) H := do
  let world ← Run.host
  match world.steps.item place with
  | some step => do
    putStep place none
    return step
  | none => throw (.absent place)

end Setting

/-- What is seen of a step. -/
def Reached.sight {type : S.Ty} : Reached S type → Sight S
  | .result value => .result ⟨type, value⟩
  | .asking waiting => .asking waiting.effect

/-- Goes on from a step with an answer, unless it is the final one. -/
def Reached.resume {type : S.Ty} (turns : Nat) (place : Nat) (answer : Packed S) :
    Reached S type → Run K (Reached S type)
  | .result _ => throw (.absent place)
  | .asking waiting => do (← waiting.answer answer).reach type turns

/-- Drives the steps from a step to their end, forcing each effect. -/
def Reached.drive {type : S.Ty} (turns : Nat) (force : S.Effect → Run K (Packed S))
    (reached : Reached S type) : Run K (Packed S) := do
  let step ← reached.steps ⟨fun effect => return effect, fun value => return value⟩ turns
  return ⟨type, ← step.runIn turns force⟩

section Together

variable (σ) (kept : List ((type : S.Ty) × Program S type))

/-- The host of clients that work together: programs as they were made, and steps. -/
abbrev Host.together : Host S :=
  .ofWorld σ ((type : S.Ty) × Program S type) ((type : S.Ty) × Reached S type) kept

/-- **All on one session**, with programs that share what they share. -/
def Setting.together (turns : Nat) : Setting (Host.together σ kept) σ where
  access := accessState
  note := noteEffect
  make {a} recipe := do
    let world ← Run.host
    let program ← Run.building (recipe.build world.programs.item)
    pushProgram ⟨a, program⟩
  drop place := putProgram place none
  carryOut place work := do
    let ⟨type, program⟩ ← program place
    work type program
  start place := do
    let ⟨type, program⟩ ← program place
    let reached ← program.code.reach type turns
    let step ← pushStep ⟨type, reached⟩
    return (step, reached.sight)
  resume place answer := do
    let ⟨type, reached⟩ ← takeStep place
    let reached ← reached.resume turns place answer
    putStep place (some ⟨type, reached⟩)
    return reached.sight
  drive place force := do
    let ⟨_, reached⟩ ← takeStep place
    reached.drive turns force
  abandon place := putStep place none

/-- The host of clients that work apart: trees, and steps with the table of the run that they are
from. -/
abbrev Host.apart : Host S :=
  .ofWorld σ ((type : S.Ty) × Tree S type) ((type : S.Ty) × Reached S type × Memo (Frame S)) kept

/-- Work on a session of its own, with the given table, where nothing else has happened.  The host
is that of the other session, and all that is left in the end is the host and the table. -/
def Run.privately (memo : Memo (Frame S)) (work : Run K R) : Run K (R × Memo (Frame S)) :=
  fun session =>
    match work { Session.startAt 0 session.host with memo := memo } with
    | .ok result last => .ok (result, last.memo) { session with host := last.host }
    | .error halt last => .error halt { session with host := last.host }

/-- Work on a session of its own, with the program of a tree that is made there.  The names before
`first` are those of the programs that the host keeps. -/
def Run.afresh {type : S.Ty} (first : Cell) (tree : Tree S type) (work : Program S type → Run K R) :
    Run K (R × Memo (Frame S)) :=
  let (program, next) := tree.build.run first
  Run.privately ⟨next, {}, 0⟩ (work program)

/-- **Each run apart**, with a program that is made afresh. -/
def Setting.apart (first : Cell) (turns : Nat) : Setting (Host.apart σ kept) σ where
  access := accessState
  note := noteEffect
  make {a} recipe := do
    let world ← Run.host
    let tree ← (recipe.branch world.programs.item).orHalt
    pushProgram ⟨a, tree⟩
  drop place := putProgram place none
  carryOut place work := do
    let ⟨type, tree⟩ ← program place
    return (← Run.afresh first tree (work type)).1
  start place := do
    let ⟨type, tree⟩ ← program place
    let (reached, memo) ← Run.afresh first tree fun program => program.code.reach type turns
    let step ← pushStep ⟨type, reached, memo⟩
    return (step, reached.sight)
  resume place answer := do
    let ⟨type, reached, memo⟩ ← takeStep place
    let (reached, memo) ← Run.privately memo (reached.resume turns place answer)
    putStep place (some ⟨type, reached, memo⟩)
    return reached.sight
  drive place force := do
    let ⟨_, reached, memo⟩ ← takeStep place
    return (← Run.privately memo (reached.drive turns force)).1
  abandon place := putStep place none

end Together

/-! ## 5. What is seen -/

/-- The programs of trees, made one after the other. -/
def Tree.buildEach : List ((type : S.Ty) × Tree S type) →
    Naming (List ((type : S.Ty) × Program S type))
  | [] => return []
  | ⟨type, tree⟩ :: trees => do
    let program ← tree.build
    return ⟨type, program⟩ :: (← buildEach trees)

/-- What is seen of the work of a client: the value or the halt, the state that it left, and the
effects handled and the functions applied, in one order. -/
def World.seen {P H : Type} {kept : List ((type : S.Ty) × Program S type)} :
    EStateM.Result (Halt S) (Session (Host.ofWorld σ P H kept)) α →
      Except (Halt S) α × σ × List (Happening S)
  | .ok a session => (.ok a, session.host.state, session.host.journal)
  | .error halt session => (.error halt, session.host.state, session.host.journal)

/-- What is seen of a client that works on one session, where the schedule says which nodes have
other owners when they are popped. -/
def Client.together (client : Client S σ α) (trees : List ((type : S.Ty) × Tree S type))
    (turns : Nat) (schedule : Nat → Ownership) (state : σ) :
    Except (Halt S) α × σ × List (Happening S) :=
  let (kept, first) := (Tree.buildEach trees).run 0
  World.seen (client.perform (Setting.together σ kept turns) turns
    { Session.startAt first (World.start state) with schedule := schedule })

/-- What is seen of a client each of whose runs is apart. -/
def Client.apart (client : Client S σ α) (trees : List ((type : S.Ty) × Tree S type)) (turns : Nat)
    (state : σ) : Except (Halt S) α × σ × List (Happening S) :=
  let (kept, first) := (Tree.buildEach trees).run 0
  World.seen (client.perform (Setting.apart σ kept first turns) turns
    (Session.startAt first (World.start state)))

end FreePrograms
