/-
# Histories of versions

An `Operation` works on versions by their place in a list of all versions there are, and most add a
version at the end, so a history of operations can branch as it likes: any version can be linked
with any other, with itself or with an older one, split, walked through, compared or dropped, again
and again.  All versions share one table of tails, which every split writes to.

What a history does is said once, for any `Kit` of operations.  `sequences` is the kit of this
library and `lists` that of plain lists.  `history_eq_lists` says that a history of sequences gives
the answers that it gives over lists, and that every version, walked through in the end, yields the
list of the same place.  So no operation shows in what another version yields.
-/
import FreePrograms.Proofs.Sequence.Split

namespace FreePrograms.Sequence

variable {α σ : Type}

/-! ## 1. What a history does -/

/-- An operation on the versions at the given places. -/
inductive Operation (α : Type) where
  | new
  | singleton (a : α)
  | ofList (elements : List α)
  | snoc (place : Nat) (a : α)
  | link (source other : Nat)
  /-- The others become a version, if there is a first element. -/
  | uncons (place : Nat)
  | clone (place : Nat)
  /-- The versions behind the one that is dropped move up. -/
  | drop (place : Nat)
  | first (place : Nat)
  | isEmpty (place : Nat)
  /-- Asks an iterator for so many elements. -/
  | iterate (place : Nat) (n : Nat)
  | same (left right : Nat)

/-- What an operation found out. -/
inductive Answer (α : Type) where
  /-- There is no version at a place. -/
  | absent
  | done
  | uncons (head : Option α)
  | first (head : Option α)
  | isEmpty (empty : Bool)
  /-- The elements that came, and whether the iterator has come to its end. -/
  | iterate (elements : List α) (ended : Bool)
  | same (equal : Bool)

/-- What a history needs of a kind `σ` of sequences. -/
structure Kit (m : Type → Type) (α σ : Type) where
  new : σ
  singleton : α → m σ
  ofList : List α → m σ
  snoc : σ → α → m σ
  link : σ → σ → m σ
  uncons : σ → m (Option (α × σ))
  first : σ → Option α
  isEmpty : σ → Bool
  iterate : σ → Nat → m (List α × Bool)
  same : σ → σ → m Bool

namespace Kit

variable {m : Type → Type} [Monad m] (kit : Kit m α σ)

/-- Adds a version at the end. -/
def add (versions : List σ) (version : m σ) : m (Answer α × List σ) := do
  return (.done, versions ++ [← version])

/-- Carries out an operation. -/
def perform (versions : List σ) : Operation α → m (Answer α × List σ)
  | .new => add versions (pure kit.new)
  | .singleton a => add versions (kit.singleton a)
  | .ofList elements => add versions (kit.ofList elements)
  | .snoc place a =>
    match versions[place]? with
    | none => return (.absent, versions)
    | some version => add versions (kit.snoc version a)
  | .link source other =>
    match versions[source]?, versions[other]? with
    | some source, some other => add versions (kit.link source other)
    | _, _ => return (.absent, versions)
  | .uncons place =>
    match versions[place]? with
    | none => return (.absent, versions)
    | some version => do
      match ← kit.uncons version with
      | none => return (.uncons none, versions)
      | some (head, rest) => return (.uncons (some head), versions ++ [rest])
  | .clone place =>
    match versions[place]? with
    | none => return (.absent, versions)
    | some version => add versions (pure version)
  | .drop place => return (.done, versions.eraseIdx place)
  | .first place =>
    match versions[place]? with
    | none => return (.absent, versions)
    | some version => return (.first (kit.first version), versions)
  | .isEmpty place =>
    match versions[place]? with
    | none => return (.absent, versions)
    | some version => return (.isEmpty (kit.isEmpty version), versions)
  | .iterate place n =>
    match versions[place]? with
    | none => return (.absent, versions)
    | some version => do
      let (elements, ended) ← kit.iterate version n
      return (.iterate elements ended, versions)
  | .same left right =>
    match versions[left]?, versions[right]? with
    | some left, some right => do return (.same (← kit.same left right), versions)
    | _, _ => return (.absent, versions)

/-- Carries out the operations one after the other. -/
def run : List (Operation α) → List σ → m (List (Answer α) × List σ)
  | [], versions => return ([], versions)
  | operation :: operations, versions => do
    let (answer, versions) ← kit.perform versions operation
    let (answers, versions) ← run operations versions
    return (answer :: answers, versions)

end Kit

/-- The operations of this library. -/
def sequences [BEq α] : Kit (Splitting α) α (Sequence α) where
  new := .empty
  singleton a := Memo.naming (Sequence.singleton a)
  ofList elements := Memo.naming (Sequence.ofList elements)
  snoc version a := Memo.naming (version.snoc a)
  link source other := Memo.naming (source.link other)
  uncons := uncons
  first := first?
  isEmpty := Sequence.isEmpty
  iterate version n := do
    let (elements, left) ← version.drain n #[]
    return (elements.toList, left.isEmpty)
  same := Sequence.same

/-- The same operations of plain lists. -/
def lists [BEq α] : Kit Id α (List α) where
  new := []
  singleton a := pure [a]
  ofList elements := pure elements
  snoc version a := pure (version ++ [a])
  link source other := pure (source ++ other)
  uncons
    | [] => pure none
    | a :: rest => pure (some (a, rest))
  first := List.head?
  isEmpty := List.isEmpty
  iterate version n := pure (version.take n, (version.drop n).isEmpty)
  same left right := pure (left == right)

/-! ## 2. One operation -/

section

variable {ledger : Ledger α}

/-- The versions are sound and hold the lists. -/
def Hold (ledger : Ledger α) (versions : List (Sequence α)) (contents : List (List α)) : Prop :=
  versions.map toList = contents ∧ ∀ version ∈ versions, version.Sound ledger

theorem Hold.mono {later : Ledger α} {versions : List (Sequence α)} {contents : List (List α)}
    (h : Hold ledger versions contents) (hlater : ledger <+: later) :
    Hold later versions contents :=
  ⟨h.1, fun version hversion => (h.2 version hversion).mono hlater⟩

theorem Hold.append {versions : List (Sequence α)} {contents : List (List α)}
    (h : Hold ledger versions contents) {version : Sequence α} (hv : version.Sound ledger) :
    Hold ledger (versions ++ [version]) (contents ++ [version.toList]) := by
  refine ⟨by rw [List.map_append, h.1, List.map_singleton], fun other hother => ?_⟩
  rcases List.mem_append.mp hother with hother | hother
  · exact h.2 other hother
  · rw [List.mem_singleton.mp hother]
    exact hv

theorem Hold.eraseIdx {versions : List (Sequence α)} {contents : List (List α)}
    (h : Hold ledger versions contents) (place : Nat) :
    Hold ledger (versions.eraseIdx place) (contents.eraseIdx place) := by
  refine ⟨?_, fun version hversion => h.2 version (List.mem_of_mem_eraseIdx hversion)⟩
  rw [← h.1, List.eraseIdx_eq_take_drop_succ, List.eraseIdx_eq_take_drop_succ, List.map_append,
    List.map_take, List.map_drop]

/-- A place holds a version exactly if it holds a list, and then the list of the version. -/
theorem Hold.lookup {versions : List (Sequence α)} {contents : List (List α)}
    (h : Hold ledger versions contents) (place : Nat) :
    contents[place]? = versions[place]?.map toList ∧
      ∀ version, versions[place]? = some version → version.Sound ledger := by
  refine ⟨by rw [← h.1, List.getElem?_map], fun version hversion => ?_⟩
  exact h.2 version (List.mem_of_getElem? hversion)

/-- An operation does to versions what it does to their lists. -/
def Follows (ledger : Ledger α) (steps : Splitting α (Answer α × List (Sequence α)))
    (done : Id (Answer α × List (List α))) : Prop :=
  Splitting.Ensures ledger steps fun later made =>
    made.1 = done.run.1 ∧ Hold later made.2 done.run.2

theorem follows_pure {versions : List (Sequence α)} {contents : List (List α)}
    (h : Hold ledger versions contents) (answer : Answer α) :
    Follows ledger (pure (answer, versions)) (pure (answer, contents)) :=
  .pure ⟨rfl, h⟩

theorem follows_add {versions : List (Sequence α)} {contents : List (List α)}
    (h : Hold ledger versions contents) {steps : Splitting α (Sequence α)} {list : List α}
    (hsteps : Splitting.Ensures ledger steps fun later made =>
      made.Sound later ∧ made.toList = list) :
    Follows ledger (Kit.add versions steps) (Kit.add contents (pure list)) := by
  refine hsteps.bind fun later made hlater hmade => .pure ⟨rfl, ?_⟩
  rw [← hmade.2]
  exact (h.mono hlater).append hmade.1

/-- A walk of so many elements tells those of the list, and whether none is left. -/
theorem walk_ensures {version : Sequence α} (hs : version.Sound ledger) (n : Nat) :
    Splitting.Ensures ledger (do
        let (elements, left) ← version.drain n #[]
        return (elements.toList, left.isEmpty)) fun _ came =>
      came = (version.toList.take n, (version.toList.drop n).isEmpty) := by
  refine (drain_ensures hs n #[]).bind ?_
  rintro later ⟨out, left⟩ - ⟨hout, -, hleft⟩
  refine .pure (Prod.ext ?_ ?_)
  · exact hout
  · exact (isEmpty_eq left).trans (congrArg List.isEmpty hleft)

/-- **One operation keeps versions and lists together**, and gives the same answer on both. -/
theorem perform_follows [BEq α] {versions : List (Sequence α)} {contents : List (List α)}
    (h : Hold ledger versions contents) (operation : Operation α) :
    Follows ledger (sequences.perform versions operation) (lists.perform contents operation) := by
  cases operation with
  | new => exact follows_add h (.pure ⟨.empty, toList_empty⟩)
  | singleton a => exact follows_add h (.naming (singleton_ensures a))
  | ofList elements => exact follows_add h (.naming (ofList_ensures elements))
  | snoc place a =>
    obtain ⟨hplace, hsound⟩ := h.lookup place
    rw [Kit.perform, Kit.perform, hplace]
    cases hv : versions[place]? with
    | none => exact follows_pure h .absent
    | some version => exact follows_add h (.naming (snoc_ensures (hsound version hv) a))
  | link source other =>
    obtain ⟨hsource, hsource_sound⟩ := h.lookup source
    obtain ⟨hother, hother_sound⟩ := h.lookup other
    rw [Kit.perform, Kit.perform, hsource, hother]
    cases hs : versions[source]? with
    | none => exact follows_pure h .absent
    | some first =>
      cases ho : versions[other]? with
      | none => exact follows_pure h .absent
      | some second =>
        exact follows_add h
          (.naming (link_ensures (hsource_sound first hs) (hother_sound second ho)))
  | uncons place =>
    obtain ⟨hplace, hsound⟩ := h.lookup place
    rw [Kit.perform, Kit.perform, hplace]
    cases hv : versions[place]? with
    | none => exact follows_pure h .absent
    | some version =>
      refine (uncons_ensures (hsound version hv)).bind fun later popped hlater hpopped => ?_
      dsimp only [Option.map_some]
      generalize version.toList = list at hpopped ⊢
      cases hpopped with
      | nil => exact follows_pure (h.mono hlater) (.uncons none)
      | cons head sound => exact .pure ⟨rfl, (h.mono hlater).append sound⟩
  | clone place =>
    obtain ⟨hplace, hsound⟩ := h.lookup place
    rw [Kit.perform, Kit.perform, hplace]
    cases hv : versions[place]? with
    | none => exact follows_pure h .absent
    | some version => exact follows_add h (.pure ⟨hsound version hv, rfl⟩)
  | drop place => exact .pure ⟨rfl, h.eraseIdx place⟩
  | first place =>
    obtain ⟨hplace, -⟩ := h.lookup place
    rw [Kit.perform, Kit.perform, hplace]
    cases versions[place]? with
    | none => exact follows_pure h .absent
    | some version => exact .pure ⟨congrArg Answer.first (first?_eq_head? version), h⟩
  | isEmpty place =>
    obtain ⟨hplace, -⟩ := h.lookup place
    rw [Kit.perform, Kit.perform, hplace]
    cases versions[place]? with
    | none => exact follows_pure h .absent
    | some version => exact .pure ⟨congrArg Answer.isEmpty (isEmpty_eq version), h⟩
  | iterate place n =>
    obtain ⟨hplace, hsound⟩ := h.lookup place
    rw [Kit.perform, Kit.perform, hplace]
    cases hv : versions[place]? with
    | none => exact follows_pure h .absent
    | some version =>
      have hcame := walk_ensures (hsound version hv) n
      refine hcame.bind ?_
      rintro later _ hlater rfl
      exact .pure ⟨rfl, h.mono hlater⟩
  | same left right =>
    obtain ⟨hleft, hleft_sound⟩ := h.lookup left
    obtain ⟨hright, hright_sound⟩ := h.lookup right
    rw [Kit.perform, Kit.perform, hleft, hright]
    cases hl : versions[left]? with
    | none => exact follows_pure h .absent
    | some first =>
      cases hr : versions[right]? with
      | none => exact follows_pure h .absent
      | some second =>
        refine (same_ensures (hleft_sound first hl) (hright_sound second hr)).bind ?_
        intro later equal hlater hequal
        exact .pure ⟨congrArg Answer.same hequal, h.mono hlater⟩

/-! ## 3. A whole history -/

/-- A history keeps versions and lists together, and gives the same answers on both. -/
theorem run_ensures [BEq α] (operations : List (Operation α)) {versions : List (Sequence α)}
    {contents : List (List α)} (h : Hold ledger versions contents) :
    Splitting.Ensures ledger (sequences.run operations versions) fun later made =>
      made.1 = (lists.run operations contents).run.1 ∧
        Hold later made.2 (lists.run operations contents).run.2 := by
  induction operations generalizing versions contents ledger with
  | nil => exact .pure ⟨rfl, h⟩
  | cons operation operations ih =>
    rw [Kit.run]
    refine (perform_follows h operation).bind ?_
    rintro later ⟨answer, versions⟩ hlater ⟨hanswer, hversions⟩
    refine (ih hversions).bind ?_
    rintro last ⟨answers, versions⟩ hlast ⟨hanswers, hversions⟩
    refine .pure ⟨?_, hversions⟩
    exact congr (congrArg List.cons hanswer) hanswers

end

/-- **A history of sequences is the same history of lists.**  From nothing at all, any operations
give the same answers, leave versions with the contents of the lists, and each of the versions that
are left then yields its list when it is walked through. -/
theorem history_eq_lists [BEq α] (operations : List (Operation α)) :
    let made := (sequences.run operations []).run Memo.empty
    let contents := ((lists (α := α)).run operations []).run
    made.1.1 = contents.1 ∧ made.1.2.map toList = contents.2 ∧
      ∀ version ∈ made.1.2, (version.elements.run made.2).1.toList = version.toList := by
  intro made contents
  have hold : Hold [] ([] : List (Sequence α)) [] := ⟨rfl, by simp⟩
  obtain ⟨ledger, -, hagrees, hanswers, hversions, hsound⟩ :=
    run_ensures operations hold Memo.empty Memo.agrees_empty
  refine ⟨hanswers, hversions, fun version hversion => ?_⟩
  obtain ⟨later, -, -, hout, -⟩ :=
    drain_ensures (hsound version hversion) version.length #[] made.2 hagrees
  have hall : version.toList.take version.length = version.toList := by
    rw [(hsound version hversion).length_eq, List.take_length]
  rw [hall] at hout
  exact hout

end FreePrograms.Sequence
