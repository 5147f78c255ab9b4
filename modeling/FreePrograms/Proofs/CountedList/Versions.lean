/-
# Versions of lists that know their length

A script works on versions by their place in a list of all versions there are.  Most operations add
a version at the end, and none touches one that is there, so a script can come back to any version
and the versions branch as it likes.

What an operation does is said once, for any `Kit`: `counted` is the kit of this library and `lists`
that of plain lists.  The invariant is `Hold`: the versions have the items of the lists, and every
number is right.  It is kept by one operation (`perform_follows`) and so by a script (`run_follows`).

`versions_represent_lists` starts from no version at all.  The answers are those over plain lists,
and every version does what its list does (`Represents`).  In particular its number is the number of
the elements that an iterator gives, so it is zero only if there are none, and what `tail` and
`uncons` take off it is there to be taken.
-/
import Mathlib.Data.List.Forall2
import FreePrograms.CountedList

namespace FreePrograms.CountedList

variable {α σ : Type}

/-! ## 1. What a script does -/

/-- An operation on the versions at the given places. -/
inductive Operation (α : Type) where
  | new
  | singleton (a : α)
  | ofList (elements : List α)
  | cons (place : Nat) (a : α)
  | tail (place : Nat)
  /-- The tail becomes a version, if there is a first element. -/
  | uncons (place : Nat)
  | reverse (place : Nat)
  | clone (place : Nat)
  | head (place : Nat)
  /-- Asks an iterator for so many elements. -/
  | iterate (place : Nat) (n : Nat)
  | length (place : Nat)
  | isEmpty (place : Nat)

/-- What an operation found out. -/
inductive Answer (α : Type) where
  /-- There is no version at a place. -/
  | absent
  | done
  | uncons (head : Option α)
  | head (head : Option α)
  /-- The elements that came, and whether the iterator has come to its end. -/
  | iterated (elements : List α) (ended : Bool)
  | length (n : Nat)
  | isEmpty (empty : Bool)

/-- What a script needs of a kind `σ` of lists. -/
structure Kit (α σ : Type) where
  new : σ
  singleton : α → σ
  ofList : List α → σ
  cons : σ → α → σ
  tail : σ → σ
  uncons : σ → Option (α × σ)
  reverse : σ → σ
  head : σ → Option α
  iterate : σ → Nat → List α × Bool
  length : σ → Nat
  isEmpty : σ → Bool

namespace Kit

/-- What a step makes of the version at a place, and of the versions if there is none. -/
def onPlace (versions : List σ) (place : Nat) (step : σ → Answer α × List σ) :
    Answer α × List σ :=
  match versions[place]? with
  | none => (.absent, versions)
  | some version => step version

/-- The answer to a split; the tail is added at the end. -/
def unconsed (versions : List σ) : Option (α × σ) → Answer α × List σ
  | none => (.uncons none, versions)
  | some (a, rest) => (.uncons (some a), versions ++ [rest])

variable (kit : Kit α σ)

/-- Carries out an operation: the answer, and the versions that there are then. -/
def perform (versions : List σ) : Operation α → Answer α × List σ
  | .new => (.done, versions ++ [kit.new])
  | .singleton a => (.done, versions ++ [kit.singleton a])
  | .ofList elements => (.done, versions ++ [kit.ofList elements])
  | .cons place a => onPlace versions place fun version =>
    (.done, versions ++ [kit.cons version a])
  | .tail place => onPlace versions place fun version => (.done, versions ++ [kit.tail version])
  | .uncons place => onPlace versions place fun version => unconsed versions (kit.uncons version)
  | .reverse place => onPlace versions place fun version =>
    (.done, versions ++ [kit.reverse version])
  | .clone place => onPlace versions place fun version => (.done, versions ++ [version])
  | .head place => onPlace versions place fun version => (.head (kit.head version), versions)
  | .iterate place n => onPlace versions place fun version =>
    let (elements, ended) := kit.iterate version n
    (.iterated elements ended, versions)
  | .length place => onPlace versions place fun version => (.length (kit.length version), versions)
  | .isEmpty place => onPlace versions place fun version =>
    (.isEmpty (kit.isEmpty version), versions)

/-- Carries out the operations one after the other. -/
def run : List (Operation α) → List σ → List (Answer α) × List σ
  | [], versions => ([], versions)
  | operation :: operations, versions =>
    let (answer, versions) := kit.perform versions operation
    let (answers, versions) := run operations versions
    (answer :: answers, versions)

end Kit

/-- The operations of this library. -/
def counted : Kit α (CountedList α) where
  new := .empty
  singleton := CountedList.singleton
  ofList := CountedList.ofList
  cons := CountedList.cons
  tail := CountedList.tail
  uncons := CountedList.uncons
  reverse := CountedList.reverse
  head := CountedList.head?
  iterate version n :=
    let (elements, rest) := Iteration.take n version.iterator
    (elements, (Iteration.next? rest).isNone)
  length := CountedList.length
  isEmpty := CountedList.isEmpty

/-- The same operations of plain lists. -/
def lists : Kit α (List α) where
  new := []
  singleton a := [a]
  ofList elements := elements
  cons version a := a :: version
  tail := List.tail
  uncons version := version.head?.map fun a => (a, version.tail)
  reverse := List.reverse
  head := List.head?
  iterate version n := (version.take n, version.length ≤ n)
  length := List.length
  isEmpty := List.isEmpty

/-! ## 2. What is asked of a version -/

@[simp] theorem items_tail (list : CountedList α) : list.tail.items = list.items.tail := by
  obtain ⟨_ | ⟨a, rest⟩, n⟩ := list <;> rfl

theorem uncons_eq (list : CountedList α) :
    list.uncons.map (Prod.map id items) = list.items.head?.map fun a => (a, list.items.tail) := by
  obtain ⟨_ | ⟨a, rest⟩, n⟩ := list <;> rfl

/-- **No element, no length**: of a counted list emptiness and the number say the same. -/
theorem Counted.isEmpty_iff {list : CountedList α} (h : list.Counted) :
    list.isEmpty = true ↔ list.length = 0 := by
  rw [h]
  simp [isEmpty]

/-- **What a tail takes off the number is there**, if there is an element. -/
theorem Counted.tail_length {list : CountedList α} (h : list.Counted)
    (hne : list.isEmpty = false) : list.tail.length + 1 = list.length := by
  obtain ⟨_ | ⟨a, rest⟩, n⟩ := list
  · cases hne
  · have hn : n = rest.length + 1 := h
    simp only [CountedList.tail]
    omega

theorem Counted.uncons_length {list rest : CountedList α} {a : α} (h : list.Counted)
    (hu : list.uncons = some (a, rest)) : rest.length + 1 = list.length := by
  obtain ⟨_ | ⟨b, items⟩, n⟩ := list
  · cases hu
  · have hn : n = items.length + 1 := h
    cases hu
    simp only
    omega

/-- The version does what the list does, and its number is right. -/
structure Represents (version : CountedList α) (list : List α) : Prop where
  /-- To ask an iterator for the next element again and again is to go along the list. -/
  yields : Iteration.Yields version.iterator list
  iterated (n : Nat) : (Iteration.take n version.iterator).1 = list.take n
  ended (n : Nat) : Iteration.next? (Iteration.take n version.iterator).2 = none ↔ list.length ≤ n
  head : version.head? = list.head?
  tail : version.tail.items = list.tail
  uncons : version.uncons.map (Prod.map id items) = list.head?.map fun a => (a, list.tail)
  length : version.length = list.length
  empty : version.isEmpty = true ↔ version.length = 0
  /-- What is taken off the number is there to be taken. -/
  tail_length : version.isEmpty = false → version.tail.length + 1 = version.length
  uncons_length (a : α) (rest : CountedList α) :
    version.uncons = some (a, rest) → rest.length + 1 = version.length
  reverse : version.reverse.items = list.reverse
  reverse_yields : Iteration.Yields version.reverse.iterator list.reverse
  reverse_length : version.reverse.length = version.length

/-- **A counted version represents its items.** -/
theorem Counted.represents {version : CountedList α} (h : version.Counted) :
    version.Represents version.items where
  yields := version.iterator_yields
  iterated := version.iterator_yields.take_eq
  ended := version.iterator_yields.take_ended
  head := rfl
  tail := items_tail version
  uncons := uncons_eq version
  length := h
  empty := h.isEmpty_iff
  tail_length := h.tail_length
  uncons_length _ _ := h.uncons_length
  reverse := items_reverse version
  reverse_yields := items_reverse version ▸ version.reverse.iterator_yields
  reverse_length := by
    rw [version.counted_reverse, items_reverse, List.length_reverse, h]

/-! ## 3. One operation -/

/-- The versions are counted and have the items of the lists. -/
structure Hold (versions : List (CountedList α)) (contents : List (List α)) : Prop where
  items : versions.map CountedList.items = contents
  counted : ∀ version ∈ versions, version.Counted

/-- A step gives the same answer on versions as on their lists, and keeps them together. -/
structure Follows (step : Answer α × List (CountedList α)) (done : Answer α × List (List α)) :
    Prop where
  answer : step.1 = done.1
  versions : Hold step.2 done.2

variable {versions : List (CountedList α)} {contents : List (List α)}

/-- A counted version is added beside its list. -/
theorem Hold.add (h : Hold versions contents) {version : CountedList α} (hv : version.Counted)
    {list : List α} (hlist : version.items = list) (answer : Answer α) :
    Follows (answer, versions ++ [version]) (answer, contents ++ [list]) := by
  subst hlist
  refine ⟨rfl, by rw [List.map_append, h.items, List.map_singleton], fun other hother => ?_⟩
  rcases List.mem_append.mp hother with hother | hother
  · exact h.counted other hother
  · rw [List.mem_singleton.mp hother]
    exact hv

/-- A place holds a version exactly if it holds a list, and then the items of the version. -/
theorem Hold.onPlace (h : Hold versions contents) (place : Nat)
    {step : CountedList α → Answer α × List (CountedList α)}
    {done : List α → Answer α × List (List α)}
    (hstep : ∀ version, version.Counted → Follows (step version) (done version.items)) :
    Follows (Kit.onPlace versions place step) (Kit.onPlace contents place done) := by
  have hplace : contents[place]? = versions[place]?.map CountedList.items := by
    rw [← h.items, List.getElem?_map]
  unfold Kit.onPlace
  rw [hplace]
  cases hv : versions[place]? with
  | none => exact ⟨rfl, h⟩
  | some version => exact hstep version (h.counted version (List.mem_of_getElem? hv))

/-- **One operation keeps versions and lists together**, and gives the same answer on both. -/
theorem perform_follows (h : Hold versions contents) (operation : Operation α) :
    Follows (counted.perform versions operation) (lists.perform contents operation) := by
  cases operation with
  | new => exact h.add counted_empty rfl .done
  | singleton a => exact h.add (counted_empty.cons a) rfl .done
  | ofList elements => exact h.add (counted_ofList elements) (items_ofList elements) .done
  | cons place a => exact h.onPlace place fun version hv => h.add (hv.cons a) rfl .done
  | tail place =>
    exact h.onPlace place fun version hv => h.add hv.tail (items_tail version) .done
  | uncons place =>
    refine h.onPlace place fun version hv => ?_
    have huncons : (lists (α := α)).uncons version.items
        = version.uncons.map (Prod.map id CountedList.items) := (uncons_eq version).symm
    simp only [counted, huncons]
    cases hu : version.uncons with
    | none => exact ⟨rfl, h⟩
    | some split =>
      obtain ⟨a, rest⟩ := split
      exact h.add (hv.uncons hu) rfl (.uncons (some a))
  | reverse place =>
    exact h.onPlace place fun version _ =>
      h.add version.counted_reverse (items_reverse version) .done
  | clone place => exact h.onPlace place fun version hv => h.add hv rfl .done
  | head place => exact h.onPlace place fun version _ => ⟨rfl, h⟩
  | iterate place n =>
    refine h.onPlace place fun version _ => ⟨?_, h⟩
    have htake := version.iterator_yields.take_eq n
    have hended := version.iterator_yields.take_isNone n
    simp only [counted, lists, htake, hended]
  | length place => exact h.onPlace place fun version hv => ⟨congrArg Answer.length hv, h⟩
  | isEmpty place => exact h.onPlace place fun version _ => ⟨rfl, h⟩

/-! ## 4. A whole script -/

/-- A script keeps versions and lists together, and gives the same answers on both. -/
theorem run_follows (operations : List (Operation α)) (h : Hold versions contents) :
    (counted.run operations versions).1 = (lists.run operations contents).1 ∧
      Hold (counted.run operations versions).2 (lists.run operations contents).2 := by
  induction operations generalizing versions contents with
  | nil => exact ⟨rfl, h⟩
  | cons operation operations ih =>
    have hop := perform_follows h operation
    obtain ⟨hanswers, hversions⟩ := ih hop.versions
    simp only [Kit.run]
    exact ⟨by rw [hop.answer, hanswers], hversions⟩

/-- An operation leaves every version that is there. -/
theorem Kit.perform_keeps (kit : Kit α σ) (versions : List σ) (operation : Operation α) :
    versions <+: (kit.perform versions operation).2 := by
  have hplace (place : Nat) (step : σ → Answer α × List σ)
      (hstep : ∀ version, versions <+: (step version).2) :
      versions <+: (onPlace versions place step).2 := by
    unfold onPlace
    cases versions[place]? with
    | none => exact List.prefix_refl versions
    | some version => exact hstep version
  cases operation with
  | new | singleton | ofList => exact List.prefix_append _ _
  | cons place | tail place | reverse place | clone place =>
    exact hplace place _ fun _ => List.prefix_append _ _
  | head place | iterate place | length place | isEmpty place =>
    exact hplace place _ fun _ => List.prefix_refl versions
  | uncons place =>
    refine hplace place _ fun version => ?_
    cases kit.uncons version with
    | none => exact List.prefix_refl versions
    | some split => exact List.prefix_append _ _

theorem Kit.run_keeps (kit : Kit α σ) (operations : List (Operation α)) (versions : List σ) :
    versions <+: (kit.run operations versions).2 := by
  induction operations generalizing versions with
  | nil => exact List.prefix_refl versions
  | cons operation operations ih =>
    exact (kit.perform_keeps versions operation).trans (ih _)

/-- A script goes on from where an earlier part of it came to. -/
theorem Kit.run_append (kit : Kit α σ) (earlier later : List (Operation α)) (versions : List σ) :
    kit.run (earlier ++ later) versions =
      ((kit.run earlier versions).1 ++ (kit.run later (kit.run earlier versions).2).1,
        (kit.run later (kit.run earlier versions).2).2) := by
  induction earlier generalizing versions with
  | nil => rfl
  | cons operation earlier ih =>
    simp only [List.cons_append, Kit.run, ih]

/-- **Versions do what plain lists do.**  From no version at all, any operations give the answers
that they give over plain lists, and in the end every place holds a version that does what the list
at that place does, with the right number.  Whatever comes later in a script, the versions that were
there before are still what they were. -/
theorem versions_represent_lists (earlier later : List (Operation α)) :
    let before := counted.run earlier []
    let after := counted.run (earlier ++ later) []
    let plain := lists.run (earlier ++ later) []
    after.1 = plain.1 ∧ List.Forall₂ Represents after.2 plain.2 ∧
      before.1 <+: after.1 ∧ before.2 <+: after.2 := by
  intro before after plain
  have hold : Hold ([] : List (CountedList α)) [] := ⟨rfl, by simp⟩
  obtain ⟨hanswers, hitems, hcounted⟩ := run_follows (earlier ++ later) hold
  refine ⟨hanswers, ?_, ?_, ?_⟩
  · rw [← hitems, List.forall₂_map_right_iff, List.forall₂_same]
    exact fun version hversion => (hcounted version hversion).represents
  · simp only [after, Kit.run_append]
    exact List.prefix_append _ _
  · simp only [after, Kit.run_append]
    exact counted.run_keeps later _

end FreePrograms.CountedList
