/-
# Programs as trees

A `Tree` keeps how a program was put together, bind by bind.  It has two readings:

* `Tree.build` makes the program, with its sequence of frames;
* `Tree.run` runs the tree by recursion on how it was put together: a value is returned, an effect
  is handled once, and a bind runs its first part and, if that returned a value, the part that the
  function makes of it, from where the first part left the host.

No sequence and no session occurs in the second reading, so it says what the first one has to come
to.  A function of a tree makes a `Branch`: it may fail where a further tree is wanted.

A tree can refer to one that is kept elsewhere, at a place given by a number, and kept trees can
refer to each other in a circle.  A run is told how deep to go into them (`Tree.runIn`), and is
`exhausted` where a reference is deeper than that.  A run that never ends is exhausted at every
depth.
-/
import FreePrograms.Run.Hosted

namespace FreePrograms

mutual

/-- How a program of the given result type is put together. -/
inductive Tree (S : Signature) : S.Ty → Type where
  | pure {a : S.Ty} (value : S.El a) : Tree S a
  | lift {a : S.Ty} (effect : S.Effect) : Tree S a
  | liftWith {a : S.Ty} (effect : S.Effect) (decode : Packed S → Except (Halt S) (S.El a)) :
    Tree S a
  | bindAs {a b : S.Ty} (provenance : Provenance) (tree : Tree S a)
    (function : S.El a → Branch S b) : Tree S b
  /-- Goes on with what is kept at a place, whatever the result. -/
  | followedByKept {a b : S.Ty} (tree : Tree S a) (place : Nat) : Tree S b

/-- What a function of a tree makes of a value: a further tree, or a halt. -/
inductive Branch (S : Signature) : S.Ty → Type where
  | tree {a : S.Ty} (tree : Tree S a) : Branch S a
  | refuse {a : S.Ty} (halt : Halt S) : Branch S a

end

variable {S : Signature} {K : Host S} {Failure : Type} {a b : S.Ty}

/-! ## 1. The other ways to put trees together -/

/-- The tree that yields a result, or its halt. -/
def Branch.ofResult : Except (Halt S) (S.El a) → Branch S a
  | .ok value => .tree (.pure value)
  | .error halt => .refuse halt

namespace Tree

/-- Goes on with the branch that the given function makes of the result. -/
def bind (tree : Tree S a) (function : S.El a → Branch S b) : Tree S b := tree.bindAs .given function

/-- Another name for `bind`. -/
def andThen (tree : Tree S a) (function : S.El a → Branch S b) : Tree S b := tree.bind function

/-- Yields what the given function makes of the result. -/
def map (tree : Tree S a) (function : S.El a → Except (Halt S) (S.El b)) : Tree S b :=
  tree.bind fun value => .ofResult (function value)

/-- Goes on with `next` whatever the result. -/
def followedBy (tree : Tree S a) (next : Tree S b) : Tree S b :=
  tree.bindAs .glue fun _ => .tree next

end Tree

/-- The branch with a bind behind its tree. -/
def Branch.bind (branch : Branch S a) (function : S.El a → Branch S b) : Branch S b :=
  match branch with
  | .tree first => .tree (first.bind function)
  | .refuse halt => .refuse halt

/-! ## 2. The program of a tree -/

mutual

/-- The program of a tree. -/
def Tree.build {a : S.Ty} : Tree S a → Naming (Program S a)
  | .pure value => return .pure value
  | .lift effect => return .lift effect
  | .liftWith effect decode => return .liftWith effect decode
  | .bindAs provenance tree function => do
    (← tree.build).bindAs provenance fun value => (function value).build
  | .followedByKept tree place => do (← tree.build).followedByKept place

/-- The program of the tree of a branch, unless it has none. -/
def Branch.build {a : S.Ty} : Branch S a → Building S (Program S a)
  | .tree tree => liftM tree.build
  | .refuse halt => throw halt

end

/-! ## 3. The run of a tree -/

/-- The runs of what is kept: by type and place. -/
abbrev KeptRuns (K : Host S) (Failure : Type) :=
  (type : S.Ty) → Nat → Hosted K (Except Failure (S.El type))

mutual

/-- The run of a tree with a handler that may refuse, given the runs of what is kept. -/
def Tree.run (handler : HostHandler K Failure) (kept : KeptRuns K Failure) {a : S.Ty} :
    Tree S a → Hosted K (Except Failure (S.El a))
  | .pure value => return .ok value
  | .lift effect => (handler effect).andThen fun answer => do
    return .ok (← Hosted.except (answer.unpack a .answer))
  | .liftWith effect decode => (handler effect).andThen fun answer => do
    Hosted.observe (.decode answer)
    return .ok (← Hosted.except (decode answer))
  | .bindAs provenance tree function => (tree.run handler kept).andThen fun value => do
    Hosted.observe (.bind provenance ⟨_, value⟩)
    (function value).run handler kept
  | .followedByKept tree place => (tree.run handler kept).andThen fun _ => do
    Hosted.observe (.kept place)
    kept a place

/-- The run of the tree of a branch, or its halt. -/
def Branch.run (handler : HostHandler K Failure) (kept : KeptRuns K Failure) {a : S.Ty} :
    Branch S a → Hosted K (Except Failure (S.El a))
  | .tree tree => tree.run handler kept
  | .refuse halt => throw halt

end

/-- The trees kept at places. -/
abbrev Trees (S : Signature) := Nat → Option ((type : S.Ty) × Tree S type)

/-- The run of the tree kept at a place, which must be of the given type, going so deep into what is
kept. -/
def Trees.run (trees : Trees S) (handler : HostHandler K Failure) (depth : Nat) :
    KeptRuns K Failure := fun expected place =>
  match trees place with
  | some ⟨type, tree⟩ =>
    if h : type = expected then
      match depth with
      | 0 => throw .exhausted
      | depth + 1 => (h ▸ tree).run handler (trees.run handler depth)
    else throw (.absent place)
  | none => throw (.absent place)

/-- The run of a tree, going so deep into what is kept. -/
def Tree.runIn (depth : Nat) (tree : Tree S a) (trees : Trees S)
    (handler : HostHandler K Failure) : Hosted K (Except Failure (S.El a)) :=
  tree.run handler (trees.run handler depth)

/-- The run of a tree ends within the depth: nothing is kept that it could go into, or it is not
exhausted. -/
def Tree.Ends (depth : Nat) (tree : Tree S a) (trees : Trees S) (handler : HostHandler K Failure)
    (host : K.State) : Prop :=
  (∀ place, trees place = none) ∨
    ∀ last, tree.runIn depth trees handler host ≠ .error .exhausted last

end FreePrograms
