/-
# Scripts over queues

A script works on versions by their place in a list of all versions there are.  A version that was
popped from, pushed to or cloned stays where it is, so every later operation can come back to it,
and the versions branch as the script likes.

What an operation does is said once, for any `Kit`: `queues` is the kit of this library and `lists`
that of plain lists.  `perform_follows` takes one operation and `run_follows` a whole script;
`script_eq_lists` starts from no version at all.

A fold is given a function that can have effects of its own, in any monad.  The script has the
effects of all its folds, so their order is part of what the two kits agree on.
-/
import FreePrograms.Proofs.Queue.Removals

namespace FreePrograms.Queue

variable {m : Type → Type} {α γ σ : Type}

/-! ## 1. What a script does -/

/-- An operation on the versions at the given places. -/
inductive Operation (m : Type → Type) (α γ : Type) where
  | new
  | push (place : Nat) (a : α)
  /-- What is left of the version becomes a version, if there is an element to remove. -/
  | popLast (place : Nat)
  | popFirst (place : Nat)
  | clone (place : Nat)
  /-- From the last element to the first. -/
  | fold (place : Nat) (seed : γ) (f : α → γ → m γ)
  /-- Asks an iterator for so many elements. -/
  | iterate (place : Nat) (n : Nat)
  | length (place : Nat)
  | isEmpty (place : Nat)
  | same (left right : Nat)

/-- What an operation found out. -/
inductive Answer (α γ : Type) where
  /-- There is no version at a place. -/
  | absent
  | done
  | popped (element : Option α)
  | folded (acc : γ)
  /-- The elements that came, and whether the iterator has come to its end. -/
  | iterated (elements : List α) (ended : Bool)
  | length (n : Nat)
  | isEmpty (empty : Bool)
  | same (equal : Bool)

/-- What a script needs of a kind `σ` of queues. -/
structure Kit (m : Type → Type) (α γ σ : Type) where
  new : σ
  push : σ → α → σ
  popLast : σ → Option (α × σ)
  popFirst : σ → Option (α × σ)
  fold : (α → γ → m γ) → γ → σ → m γ
  iterate : σ → Nat → List α × Bool
  length : σ → Nat
  isEmpty : σ → Bool
  same : σ → σ → Bool

namespace Kit

variable [Monad m]

/-- What a step needs of the version at a place, and of the versions if there is none. -/
def onPlace (versions : List σ) (place : Nat) (step : σ → m (Answer α γ) × List σ) :
    m (Answer α γ) × List σ :=
  match versions[place]? with
  | none => (pure .absent, versions)
  | some version => step version

/-- The answer to a removal; what is left is added at the end. -/
def removed (versions : List σ) : Option (α × σ) → m (Answer α γ) × List σ
  | none => (pure (.popped none), versions)
  | some (a, rest) => (pure (.popped (some a)), versions ++ [rest])

variable (kit : Kit m α γ σ)

/-- Carries out an operation: the answer, and the versions that there are then. -/
def perform (versions : List σ) : Operation m α γ → m (Answer α γ) × List σ
  | .new => (pure .done, versions ++ [kit.new])
  | .push place a => onPlace versions place fun version =>
    (pure .done, versions ++ [kit.push version a])
  | .popLast place => onPlace versions place fun version => removed versions (kit.popLast version)
  | .popFirst place => onPlace versions place fun version => removed versions (kit.popFirst version)
  | .clone place => onPlace versions place fun version => (pure .done, versions ++ [version])
  | .fold place seed f => onPlace versions place fun version =>
    (.folded <$> kit.fold f seed version, versions)
  | .iterate place n => onPlace versions place fun version =>
    let (elements, ended) := kit.iterate version n
    (pure (.iterated elements ended), versions)
  | .length place => onPlace versions place fun version =>
    (pure (.length (kit.length version)), versions)
  | .isEmpty place => onPlace versions place fun version =>
    (pure (.isEmpty (kit.isEmpty version)), versions)
  | .same left right => onPlace versions left fun left => onPlace versions right fun right =>
    (pure (.same (kit.same left right)), versions)

/-- Carries out the operations one after the other. -/
def run : List (Operation m α γ) → List σ → m (List (Answer α γ) × List σ)
  | [], versions => return ([], versions)
  | operation :: operations, versions => do
    let (answer, versions) := kit.perform versions operation
    let answer ← answer
    let (answers, versions) ← run operations versions
    return (answer :: answers, versions)

end Kit

/-- The operations of this library. -/
def queues [Monad m] [BEq α] : Kit m α γ (Queue α) where
  new := .empty
  push := Queue.push
  popLast := Queue.popLast
  popFirst := Queue.popFirst
  fold f seed version := version.foldrM f seed
  iterate version n :=
    let (elements, rest) := Iteration.take n version.iterator
    (elements, (Iteration.next? rest).isNone)
  length := Queue.length
  isEmpty := Queue.isEmpty
  same := Queue.same

/-- The same operations of plain lists. -/
def lists [Monad m] [BEq α] : Kit m α γ (List α) where
  new := []
  push version a := version ++ [a]
  popLast version := version.getLast?.map fun a => (a, version.dropLast)
  popFirst version := version.head?.map fun a => (a, version.tail)
  fold f seed version := version.foldrM f seed
  iterate version n := (version.take n, version.length ≤ n)
  length := List.length
  isEmpty := List.isEmpty
  same left right := left == right

/-! ## 2. One operation -/

/-- The versions are counted and hold the lists. -/
structure Hold (versions : List (Queue α)) (contents : List (List α)) : Prop where
  toList : versions.map Queue.toList = contents
  counted : ∀ version ∈ versions, version.Counted

theorem Hold.append {versions : List (Queue α)} {contents : List (List α)}
    (h : Hold versions contents) {version : Queue α} (hv : version.Counted) :
    Hold (versions ++ [version]) (contents ++ [version.toList]) := by
  refine ⟨by rw [List.map_append, h.toList, List.map_singleton], fun other hother => ?_⟩
  rcases List.mem_append.mp hother with hother | hother
  · exact h.counted other hother
  · rw [List.mem_singleton.mp hother]
    exact hv

/-- A step gives the same answer on versions as on their lists, and keeps them together. -/
structure Follows (step : m (Answer α γ) × List (Queue α)) (done : m (Answer α γ) × List (List α)) :
    Prop where
  answer : step.1 = done.1
  versions : Hold step.2 done.2

variable [Monad m] {versions : List (Queue α)} {contents : List (List α)}

/-- A place holds a version exactly if it holds a list, and then the list of the version. -/
theorem Hold.onPlace (h : Hold versions contents) (place : Nat)
    {step : Queue α → m (Answer α γ) × List (Queue α)}
    {done : List α → m (Answer α γ) × List (List α)}
    (hstep : ∀ version, version.Counted → Follows (step version) (done version.toList)) :
    Follows (Kit.onPlace versions place step) (Kit.onPlace contents place done) := by
  have hplace : contents[place]? = versions[place]?.map Queue.toList := by
    rw [← h.toList, List.getElem?_map]
  unfold Kit.onPlace
  rw [hplace]
  cases hv : versions[place]? with
  | none => exact ⟨rfl, h⟩
  | some version => exact hstep version (h.counted version (List.mem_of_getElem? hv))

/-- A removal that leaves a counted queue adds it and its list. -/
theorem Hold.removed (h : Hold versions contents) {popped : Option (α × Queue α)}
    {removal : Option (α × List α)} (heq : popped.map (Prod.map id Queue.toList) = removal)
    (hrest : ∀ a rest, popped = some (a, rest) → rest.Counted) :
    Follows (Kit.removed versions popped : m (Answer α γ) × List (Queue α))
      (Kit.removed contents removal) := by
  subst heq
  cases popped with
  | none => exact ⟨rfl, h⟩
  | some popped =>
    obtain ⟨a, rest⟩ := popped
    exact ⟨rfl, h.append (hrest a rest rfl)⟩

/-- **One operation keeps versions and lists together**, and gives the same answer on both. -/
theorem perform_follows [LawfulMonad m] [BEq α] (h : Hold versions contents)
    (operation : Operation m α γ) :
    Follows (queues.perform versions operation) (lists.perform contents operation) := by
  cases operation with
  | new => exact ⟨rfl, h.append counted_empty⟩
  | push place a =>
    refine h.onPlace place fun version hv => ⟨rfl, ?_⟩
    have := h.append (hv.push a)
    simpa [queues, lists] using this
  | popLast place =>
    exact h.onPlace place fun version hv =>
      h.removed version.popLast_eq fun a rest hp => hv.popLast hp
  | popFirst place =>
    exact h.onPlace place fun version hv =>
      h.removed version.popFirst_eq fun a rest hp => hv.popFirst hp
  | clone place => exact h.onPlace place fun version hv => ⟨rfl, h.append hv⟩
  | fold place seed f =>
    exact h.onPlace place fun version hv => ⟨by simp [queues, lists, foldrM_eq], h⟩
  | iterate place n =>
    refine h.onPlace place fun version hv => ⟨?_, h⟩
    have htake := version.iterator_yields.take_eq n
    have hended := version.iterator_yields.take_isNone n
    simp [queues, lists, htake, hended]
  | length place =>
    exact h.onPlace place fun version hv => ⟨by simp [queues, lists, hv.length_eq], h⟩
  | isEmpty place =>
    exact h.onPlace place fun version hv => ⟨by simp [queues, lists, isEmpty_eq], h⟩
  | same left right =>
    refine h.onPlace left fun first hfirst => h.onPlace right fun second hsecond => ⟨?_, h⟩
    simp [queues, lists, hfirst.same_eq hsecond]

/-! ## 3. A whole script -/

/-- A script gives the same answers on versions and on lists, and leaves the versions of the
lists. -/
theorem run_follows [LawfulMonad m] [BEq α] (operations : List (Operation m α γ))
    (h : Hold versions contents) :
    Prod.map id (List.map toList) <$> queues.run operations versions =
      lists.run operations contents := by
  induction operations generalizing versions contents with
  | nil => simp [Kit.run, h.toList]
  | cons operation operations ih =>
    have hop := perform_follows h operation
    simp only [Kit.run, hop.answer, ← ih hop.versions, map_bind, bind_map_left, map_pure]
    rfl

/-- **A script over queues is the same script over lists.**  From no version at all, any operations
give the same answers with the same effects in the same order, and in the end every place holds a
queue with the elements of the list that it holds among the lists.  So no removal is told by how the
elements lie in the two lists of a queue, and none shows in the version it was made from. -/
theorem script_eq_lists [LawfulMonad m] [BEq α] (operations : List (Operation m α γ)) :
    (do
        let (answers, versions) ← queues.run operations []
        return (answers, versions.map toList)) =
      lists.run operations [] := by
  have hold : Hold ([] : List (Queue α)) [] := ⟨rfl, by simp⟩
  rw [← run_follows operations hold, map_eq_pure_bind]
  rfl

/-- Three elements come in at the far end and are taken from both ends, on branches that each turn
the lists over. -/
def turnings : List (Operation (Except String) Nat Nat) :=
  [.new, .push 0 1, .push 1 2, .push 2 3, .popFirst 3, .popLast 4, .popLast 5, .popLast 6,
    .popFirst 4, .fold 3 0 fun a acc => .ok (a + 10 * acc)]

theorem turnings_branch :
    (do
        let (answers, versions) ← queues.run turnings []
        return (answers, versions.map toList)) =
      .ok ([.done, .done, .done, .done, .popped (some 1), .popped (some 3), .popped (some 2),
          .popped none, .popped (some 2), .folded 321],
        [[], [1], [1, 2], [1, 2, 3], [2, 3], [2], [], [3]]) :=
  (script_eq_lists turnings).trans rfl

end FreePrograms.Queue
