/-
# Comparing and showing collections by their contents

Lists, queues and sequences hold their elements in different ways, and versions of one collection
share parts of them.  Nothing of that is seen by comparing two versions or by writing one out: both
look at the contents, first element to last.

* Two versions are equal exactly if their contents match (`Matching`): as many elements, and equal
  ones at equal positions.  Equality of elements is any relation that can be decided.  Where it does
  not hold of an element and itself, a version with that element is not equal to itself, which no
  comparison of shared parts would find out.
* The texts are those of the plain list of the contents, in all three collections by the same
  functions of `Listing`.

What is looked at is said once for any collection (`Looks`), and `Looks.ByContents` says that it
goes by the contents.  `looks_go_by_contents` is about the versions that any operations lead to.
-/
import FreePrograms.Datum
import FreePrograms.Proofs.CountedList.Versions
import FreePrograms.Proofs.Queue.History
import FreePrograms.Proofs.Sequence.History

namespace FreePrograms

variable {α γ σ : Type}

/-! ## 1. Contents that match -/

/-- As many elements, and equal ones at equal positions. -/
def Matching [BEq α] (left right : List α) : Prop :=
  left.length = right.length ∧
    ∀ i (hl : i < left.length) (hr : i < right.length), (left[i] == right[i]) = true

/-- **Lists are equal exactly if they match**, whatever the equality of elements is. -/
theorem beq_iff_matching [BEq α] {left right : List α} :
    (left == right) = true ↔ Matching left right := by
  rw [← Iteration.length_and_zip_eq, Bool.and_eq_true, beq_iff_eq, List.all_eq_true]
  refine and_congr_right fun hlength => ⟨fun h i hl hr => ?_, fun h pair hpair => ?_⟩
  · have hi : i < (left.zip right).length := by
      rw [List.length_zip]
      omega
    have := h (left.zip right)[i] (List.getElem_mem hi)
    simpa using this
  · obtain ⟨i, hi, rfl⟩ := List.getElem_of_mem hpair
    rw [List.getElem_zip]
    rw [List.length_zip] at hi
    exact h i (by omega) (by omega)

/-- An element that is not equal to itself keeps a list from matching itself. -/
theorem not_matching_self [BEq α] {list : List α} {a : α} (ha : a ∈ list)
    (hself : (a == a) = false) : ¬ Matching list list := by
  rintro ⟨-, h⟩
  obtain ⟨i, hi, rfl⟩ := List.getElem_of_mem ha
  rw [h i hi hi] at hself
  cases hself

/-! ## 2. What is looked at -/

/-- What can be looked at in a kind `σ` of collections. -/
structure Looks (α σ : Type) where
  contents : σ → List α
  /-- What an iterator gives. -/
  iterated : σ → List α
  same : σ → σ → Bool
  differs : σ → σ → Bool
  text : Listing.Style → (α → String) → σ → String

namespace Looks

/-- Lists that know their length. -/
def lists [BEq α] : Looks α (CountedList α) where
  contents := CountedList.items
  iterated version := Iteration.toList version.iterator
  same left right := left == right
  differs left right := left != right
  text := CountedList.text

/-- Queues. -/
def queues [BEq α] : Looks α (Queue α) where
  contents := Queue.toList
  iterated version := Iteration.toList version.iterator
  same left right := left == right
  differs left right := left != right
  text := Queue.text

/-- Sequences, each look with the table of tails that there is. -/
def sequences [BEq α] (memo : Memo α) : Looks α (Sequence α) where
  contents := Sequence.toList
  iterated version := (version.elements.run memo).1.toList
  same left right := ((left.same right).run memo).1
  differs left right := ((left.differs right).run memo).1
  text style entry version := ((version.text style entry).run memo).1

/-- The versions hold the plain lists, and are compared and written as these are. -/
structure ByContents [BEq α] (looks : Looks α σ) (versions : List σ) (plain : List (List α)) :
    Prop where
  contents : versions.map looks.contents = plain
  iterated : ∀ version ∈ versions, looks.iterated version = looks.contents version
  same : ∀ left ∈ versions, ∀ right ∈ versions,
    looks.same left right = true ↔ Matching (looks.contents left) (looks.contents right)
  differs : ∀ left ∈ versions, ∀ right ∈ versions,
    looks.differs left right = !looks.same left right
  /-- No version with an element that is not equal to itself is equal to itself. -/
  self : ∀ version ∈ versions, ∀ a ∈ looks.contents version, (a == a) = false →
    looks.same version version = false
  text : ∀ version ∈ versions, ∀ style entry,
    looks.text style entry version = Listing.write style ((looks.contents version).map entry)

/-- **It is enough to iterate as lists are gone through, and to compare as they are compared.** -/
theorem ByContents.of_same [BEq α] {looks : Looks α σ} {versions : List σ} {plain : List (List α)}
    (contents : versions.map looks.contents = plain)
    (iterated : ∀ version ∈ versions, looks.iterated version = looks.contents version)
    (same : ∀ left ∈ versions, ∀ right ∈ versions,
      looks.same left right = (looks.contents left == looks.contents right))
    (differs : ∀ left ∈ versions, ∀ right ∈ versions,
      looks.differs left right = !looks.same left right)
    (text : ∀ version ∈ versions, ∀ style entry,
      looks.text style entry version = Listing.write style ((looks.iterated version).map entry)) :
    looks.ByContents versions plain where
  contents := contents
  iterated := iterated
  same left hleft right hright := by rw [same left hleft right hright, beq_iff_matching]
  differs := differs
  self version hversion a ha hself := by
    rw [same version hversion version hversion, Bool.eq_false_iff, Ne, beq_iff_matching]
    exact not_matching_self ha hself
  text version hversion style entry := by
    rw [text version hversion style entry, iterated version hversion]

end Looks

/-! ## 3. Lists, queues and sequences -/

/-- Two counted lists are the same exactly if their items are. -/
theorem CountedList.Counted.same_eq [BEq α] {left right : CountedList α} (hl : left.Counted)
    (hr : right.Counted) : left.same right = (left.items == right.items) := by
  rw [CountedList.same, hl, hr, left.iterator_yields.same_eq right.iterator_yields]

/-- The loop goes on from its first element as the line does, behind what is written. -/
theorem CountedList.display_loop (entry : α → String) (a : α) (items : List α) (out : String) :
    (items.foldl (fun (out, first) a => ((if first then out else out ++ ", ") ++ entry a, false))
      (out ++ entry a, false)).1 = out ++ ", ".intercalate ((a :: items).map entry) := by
  induction items generalizing a out with
  | nil => simp
  | cons b items ih =>
    refine (ih b (out ++ entry a ++ ", ")).trans ?_
    simp [String.append_assoc]

/-- **A list is displayed on one line of a listing.** -/
theorem CountedList.display_eq (entry : α → String) (list : CountedList α) :
    list.display entry = Listing.line (list.items.map entry) := by
  rw [CountedList.display, list.iterator_yields.fold_eq]
  obtain ⟨_ | ⟨a, items⟩, n⟩ := list
  · rfl
  · have hloop := CountedList.display_loop entry a items "["
    simp only [List.foldl_cons, if_true, hloop]
    rfl

/-- Versions that counted lists were made by go by their items. -/
theorem CountedList.run_byContents [BEq α] (operations : List (CountedList.Operation α)) :
    Looks.lists.ByContents (CountedList.counted.run operations []).2
      (CountedList.lists.run operations []).2 := by
  have hold : CountedList.Hold ([] : List (CountedList α)) [] := ⟨rfl, by simp⟩
  obtain ⟨-, hitems, hcounted⟩ := CountedList.run_follows operations hold
  exact .of_same hitems (fun version _ => version.iterator_yields.toList_eq)
    (fun left hleft right hright => (hcounted left hleft).same_eq (hcounted right hright))
    (fun _ _ _ _ => rfl) (fun _ _ _ _ => rfl)

/-- A script keeps queues and lists together. -/
theorem Queue.run_hold [BEq α] (operations : List (Queue.Operation Id α γ))
    {versions : List (Queue α)} {contents : List (List α)} (h : Queue.Hold versions contents) :
    Queue.Hold (Queue.queues.run operations versions).run.2
      (Queue.lists.run operations contents).run.2 := by
  induction operations generalizing versions contents with
  | nil => exact h
  | cons operation operations ih => exact ih (Queue.perform_follows h operation).versions

theorem Queue.run_byContents [BEq α] (operations : List (Queue.Operation Id α γ)) :
    Looks.queues.ByContents (Queue.queues.run operations []).run.2
      (Queue.lists.run operations []).run.2 := by
  have hold : Queue.Hold ([] : List (Queue α)) [] := ⟨rfl, by simp⟩
  obtain ⟨hcontents, hcounted⟩ := Queue.run_hold operations hold
  exact .of_same hcontents (fun version _ => version.iterator_yields.toList_eq)
    (fun left hleft right hright => (hcounted left hleft).same_eq (hcounted right hright))
    (fun _ _ _ _ => rfl) (fun _ _ _ _ => rfl)

theorem Sequence.run_byContents [BEq α] (operations : List (Sequence.Operation α)) :
    let made := (Sequence.sequences.run operations []).run Memo.empty
    (Looks.sequences made.2).ByContents made.1.2
      (Sequence.lists.run operations []).run.2 := by
  intro made
  have hold : Sequence.Hold [] ([] : List (Sequence α)) [] := ⟨rfl, by simp⟩
  obtain ⟨ledger, -, hagrees, -, hcontents, hsound⟩ :=
    Sequence.run_ensures operations hold Memo.empty Memo.agrees_empty
  refine .of_same hcontents (fun version hversion => ?_) (fun left hleft right hright => ?_)
    (fun _ _ _ _ => rfl) (fun _ _ _ _ => rfl)
  · obtain ⟨later, -, -, hout, -⟩ :=
      Sequence.drain_ensures (hsound version hversion) version.length #[] made.2 hagrees
    have hall : version.toList.take version.length = version.toList := by
      rw [(hsound version hversion).length_eq, List.take_length]
    rw [hall] at hout
    exact hout
  · obtain ⟨later, -, -, hequal⟩ :=
      Sequence.same_ensures (hsound left hleft) (hsound right hright) made.2 hagrees
    exact hequal

/-- **Looks go by the contents.**  Whatever operations versions of lists, of queues and of sequences
were made by, they hold what the same operations on plain lists leave, they are equal exactly if
their contents match, and they are written as the plain lists are, by one function for all three
collections. -/
theorem looks_go_by_contents [BEq α] (onLists : List (CountedList.Operation α))
    (onQueues : List (Queue.Operation Id α γ)) (onSequences : List (Sequence.Operation α)) :
    let lists := (CountedList.counted.run onLists []).2
    let queues := (Queue.queues.run onQueues []).run.2
    let sequences := (Sequence.sequences.run onSequences []).run Memo.empty
    Looks.lists.ByContents lists (CountedList.lists.run onLists []).2 ∧
      (∀ version ∈ lists, ∀ entry, version.display entry = Listing.line (version.items.map entry)) ∧
      Looks.queues.ByContents queues (Queue.lists.run onQueues []).run.2 ∧
      (Looks.sequences sequences.2).ByContents sequences.1.2
        (Sequence.lists.run onSequences []).run.2 :=
  ⟨CountedList.run_byContents onLists, fun version _ entry => version.display_eq entry,
    Queue.run_byContents onQueues, Sequence.run_byContents onSequences⟩

/-- Two data, the second of which is not equal to itself. -/
def withNan : List Datum := [.unit, .nan]

/-- Where all versions hold these data, no two are equal, and they are written in the same way. -/
theorem Looks.ByContents.of_withNan {looks : Looks Datum σ} {versions : List σ}
    (h : looks.ByContents versions [withNan, withNan]) :
    ∀ left ∈ versions, ∀ right ∈ versions, looks.same left right = false ∧
      looks.text .line (·.kind.name) left = "[unit, nan]" := by
  have hcontents : ∀ version ∈ versions, looks.contents version = withNan := by
    intro version hversion
    have hmem := List.mem_map_of_mem (f := looks.contents) hversion
    rw [h.contents] at hmem
    simpa using hmem
  intro left hleft right hright
  constructor
  · rw [Bool.eq_false_iff, Ne, h.same left hleft right hright, hcontents left hleft,
      hcontents right hright]
    exact not_matching_self (a := .nan) (by simp [withNan]) rfl
  · rw [h.text left hleft, hcontents left hleft]
    decide

/-- A clone of a list or of a sequence with such data is written as the original is.  But it is not
equal to it, nor is the original to itself. -/
theorem clones_with_nan :
    let lists := (CountedList.counted.run [.ofList withNan, .clone 0] []).2
    let sequences := (Sequence.sequences.run [.ofList withNan, .clone 0] []).run Memo.empty
    (∀ left ∈ lists, ∀ right ∈ lists, (left == right) = false ∧
      left.text .line (·.kind.name) = "[unit, nan]") ∧
    ∀ left ∈ sequences.1.2, ∀ right ∈ sequences.1.2,
      ((left.same right).run sequences.2).1 = false ∧
      ((left.text .line (·.kind.name)).run sequences.2).1 = "[unit, nan]" := by
  obtain ⟨hlists, -, -, hsequences⟩ := looks_go_by_contents (γ := Unit)
    [.ofList withNan, .clone 0] [] [.ofList withNan, .clone 0]
  exact ⟨hlists.of_withNan, hsequences.of_withNan⟩

end FreePrograms
