/-
# A split under any coherent table

The ways to a tail differ in what the table of tails knows: the tail of the node, that of some node
farther along its chain of sources, or none of them.  Here the table is any that is coherent for the
chain, whether or not some run of this library leads to it, and whatever else it holds.
`coherent_split` says that every way ends with the contents of the children, and that what is
written on the way keeps every node coherent that was so before.

`Splitting.Leaves ledger memo steps post` speaks of steps begun with the table `memo`: each tail
that is known then was known in `memo` or has the contents that the ledger has under its name
(`Memo.Adds`), and `post` holds of the result.
-/
import FreePrograms.Proofs.Sequence.Split

namespace FreePrograms

variable {α β γ : Type} {ledger : Ledger α}

/-! ## 1. What is written -/

/-- Each tail that the later table knows was known before, or has the contents in the ledger. -/
def Memo.Adds (ledger : Ledger α) (memo later : Memo α) : Prop :=
  ∀ cell tail, later.tail? cell = some tail →
    memo.tail? cell = some tail ∨ ledger[cell]? = some tail.toList

theorem Memo.Adds.refl (memo : Memo α) : memo.Adds ledger memo := fun _ _ ht => .inl ht

theorem Memo.Adds.trans {memo later last : Memo α} (h : memo.Adds ledger later)
    (h' : later.Adds ledger last) : memo.Adds ledger last := by
  intro cell tail ht
  rcases h' cell tail ht with ht | ht
  · exact h cell tail ht
  · exact .inr ht

/-- **What is coherent stays coherent**, whatever node the tails were written for. -/
theorem Memo.Adds.coherent {memo later : Memo α} (h : memo.Adds ledger later)
    {node : Sequence α} (hs : node.Sound ledger) (hmemo : memo.Coherent node) :
    later.Coherent node := by
  intro times cell tail hc ht
  rcases h cell tail ht with ht | hentry
  · exact hmemo times cell tail hc ht
  · rw [(hs.ascend times).entry hc] at hentry
    rw [← Option.some.inj hentry, Sequence.behind, Sequence.contents_eq]

/-- The steps, begun with this table, add to it, and what is said holds of their result. -/
structure Splitting.Leaves (ledger : Ledger α) (memo : Memo α) (steps : Splitting α β)
    (post : β → Prop) : Prop where
  adds : memo.Adds ledger (steps.run memo).2
  result : post (steps.run memo).1

namespace Splitting.Leaves

variable {memo : Memo α} {steps : Splitting α β} {post : β → Prop}

theorem pure {b : β} (h : post b) : Splitting.Leaves ledger memo (Pure.pure b) post :=
  ⟨.refl memo, h⟩

theorem bind {next : β → Splitting α γ} {post' : γ → Prop}
    (h : Splitting.Leaves ledger memo steps post)
    (hnext : ∀ later b, post b → Splitting.Leaves ledger later (next b) post') :
    Splitting.Leaves ledger memo (steps >>= next) post' := by
  obtain ⟨hadds, hresult⟩ := hnext (steps.run memo).2 _ h.result
  exact ⟨h.adds.trans hadds, hresult⟩

/-- Steps may depend on the table, which is the one that they begin with. -/
theorem get {next : Memo α → Splitting α β} (h : Splitting.Leaves ledger memo (next memo) post) :
    Splitting.Leaves ledger memo (MonadState.get >>= next) post :=
  ⟨h.adds, h.result⟩

/-- Steps that take names write no tail. -/
theorem naming {steps : Naming β} (h : ∀ next, post (steps.run next).1) :
    Splitting.Leaves ledger memo (Memo.naming steps) post :=
  ⟨fun _ _ ht => .inl ht, h memo.next⟩

theorem noteCollapse :
    Splitting.Leaves ledger memo (Memo.noteCollapse : Splitting α Unit) fun _ => True :=
  ⟨fun _ _ ht => .inl ht, trivial⟩

/-- A tail that is written has the contents that the ledger has under the name. -/
theorem record {cell : Cell} {tail : Sequence α} (entry : ledger[cell]? = some tail.toList) :
    Splitting.Leaves ledger memo (Memo.record cell tail) fun _ => True := by
  refine ⟨fun c t ht => ?_, trivial⟩
  simp only [Memo.tail?, Memo.record, StateT.run, Std.HashMap.getElem?_insertIfNew] at ht
  split at ht
  · next hc =>
    obtain rfl : cell = c := by simpa using hc.1
    cases ht
    exact .inr entry
  · exact .inl ht

end Splitting.Leaves

namespace Sequence

open Splitting (Leaves)

variable {memo : Memo α}

/-! ## 2. The ways to a tail -/

/-- Linking all of a list, from its last sequence to its first, concatenates, whatever names are
taken. -/
theorem toList_foldrM_link (items : List (Sequence α)) (next : Cell) :
    ((items.foldrM link empty).run next).1.toList = items.flatMap toList := by
  induction items with
  | nil => exact toList_empty
  | cons item rest ih =>
    rw [List.foldrM_cons, StateT.run_bind]
    change toList ((item.link _).run _).1 = _
    rw [toList_link, ih, List.flatMap_cons]

theorem link_leaves (source other : Sequence α) :
    Leaves ledger memo (Memo.naming (source.link other)) fun made =>
      made.toList = source.toList ++ other.toList :=
  .naming fun next => toList_link source other next

/-- No origin to start from: the children are collapsed. -/
theorem collapse_leaves (children : Queue (Sequence α)) :
    Leaves ledger memo (collapse children) fun made =>
      made.toList = children.toList.flatMap toList := by
  refine Leaves.noteCollapse.bind fun later _ _ => .naming fun next => ?_
  rw [Queue.foldrM_eq]
  exact toList_foldrM_link children.toList next

/-- No tail is known on the chain of the source: its children are collapsed. -/
theorem collapseAt_leaves {source : Sequence α} (hs : source.Sound ledger) {cell : Cell}
    (hc : source.cell? = some cell) :
    Leaves ledger memo (collapseAt cell source.children) fun made =>
      made.toList = source.behind := by
  refine (collapse_leaves source.children).bind fun later made hmade => ?_
  have hbehind : made.toList = source.behind := by rw [hmade, behind, contents_eq]
  have entry : ledger[cell]? = some made.toList := hbehind ▸ hs.entry hc
  exact (Leaves.record entry).bind fun _ _ _ => .pure hbehind

/-- A tail is known: the links below it are replayed. -/
theorem replay_leaves {tail : Sequence α} {below : List (Cell × Sequence α)} {last : List α}
    (hl : Leads ledger tail.toList below last) :
    Leaves ledger memo (Memo.replay below tail) fun made => made.toList = last := by
  induction below generalizing tail memo with
  | nil =>
    cases hl
    exact .pure rfl
  | cons link below ih =>
    obtain ⟨cell, other⟩ := link
    cases hl with
    | cons sound entry rest =>
      refine (link_leaves tail other).bind fun later longer hlonger => ?_
      rw [← hlonger] at entry rest
      exact (Leaves.record entry).bind fun _ _ _ => ih rest

/-- The tail of a source leads to that of what was linked behind it. -/
theorem link_behind_leaves {source other : Sequence α} {steps : Splitting α (Sequence α)}
    (h : Leaves ledger memo steps fun made => made.toList = source.behind) :
    Leaves ledger memo (do Memo.naming ((← steps).link other)) fun made =>
      made.toList = source.behind ++ other.toList := by
  refine h.bind fun later made hmade => ?_
  rw [← hmade]
  exact link_leaves made other

/-- **Every way to a tail ends with the contents behind the head**, under any coherent table. -/
theorem rest_leaves {sequence : Sequence α} (hs : sequence.Sound ledger)
    (hmemo : memo.Coherent sequence) :
    Leaves ledger memo sequence.rest fun made => made.toList = sequence.behind := by
  cases hs with
  | empty => exact .pure (by simp [behind, Sequence.children, contents_eq])
  | root entry =>
    rw [behind, contents_eq]
    exact collapse_leaves _
  | @linked cell head source other hsource hother head_eq other_nonempty entry =>
    rw [rest, behind_linked]
    split
    · next hc => cases source <;> simp [cell?, first?] at hc head_eq
    · next name hname =>
      refine .get ?_
      dsimp only
      split
      · next tail below hnearest =>
        have hleads := hmemo.source.nearest_eq_some hsource (.nil source.behind) hnearest
        exact link_behind_leaves (replay_leaves hleads)
      · exact link_behind_leaves (collapseAt_leaves hsource hname)

/-- The tail of a node, known or written now. -/
theorem tail_leaves {sequence : Sequence α} (hs : sequence.Sound ledger)
    (hmemo : memo.Coherent sequence) {cell : Cell} (hc : sequence.cell? = some cell) :
    Leaves ledger memo (sequence.tail cell) fun made => made.toList = sequence.behind := by
  rw [tail]
  refine .get ?_
  split
  · next tail ht => exact .pure (hmemo.known hc ht)
  · refine (rest_leaves hs hmemo).bind fun later made hmade => ?_
    have entry : ledger[cell]? = some made.toList := hmade ▸ hs.entry hc
    exact (Leaves.record entry).bind fun _ _ _ => .pure hmade

/-- The tail of a node that is taken apart, known or found. -/
theorem tailUnwritten_leaves {sequence : Sequence α} (hs : sequence.Sound ledger)
    (hmemo : memo.Coherent sequence) {cell : Cell} (hc : sequence.cell? = some cell) :
    Leaves ledger memo (sequence.tailUnwritten cell) fun made =>
      made.toList = sequence.behind := by
  rw [tailUnwritten]
  refine .get ?_
  split
  · next tail ht => exact .pure (hmemo.known hc ht)
  · exact rest_leaves hs hmemo

/-! ## 3. One split -/

/-- The head, and a sequence of the contents behind it. -/
def SplitsOff (sequence : Sequence α) (popped : Option (α × Sequence α)) : Prop :=
  ∃ head rest, sequence.first? = some head ∧ popped = some (head, rest) ∧
    rest.toList = sequence.behind

theorem uncons_leaves {sequence : Sequence α} (hs : sequence.Sound ledger)
    (hmemo : memo.Coherent sequence) (hne : sequence.isEmpty = false) :
    Leaves ledger memo sequence.uncons sequence.SplitsOff := by
  cases sequence with
  | empty => cases hne
  | root cell head children =>
    exact (tail_leaves hs hmemo rfl).bind fun _ rest hrest => .pure ⟨head, rest, rfl, rfl, hrest⟩
  | linked cell n head children source other =>
    exact (tail_leaves hs hmemo rfl).bind fun _ rest hrest => .pure ⟨head, rest, rfl, rfl, hrest⟩

theorem pop_leaves {sequence : Sequence α} (hs : sequence.Sound ledger)
    (hmemo : memo.Coherent sequence) (hne : sequence.isEmpty = false) (ownership : Ownership) :
    Leaves ledger memo (sequence.pop ownership) sequence.SplitsOff := by
  cases ownership with
  | shared => exact uncons_leaves hs hmemo hne
  | unique =>
    cases sequence with
    | empty => cases hne
    | root cell head children =>
      exact (tailUnwritten_leaves hs hmemo rfl).bind fun _ rest hrest =>
        .pure ⟨head, rest, rfl, rfl, hrest⟩
    | linked cell n head children source other =>
      exact (tailUnwritten_leaves hs hmemo rfl).bind fun _ rest hrest =>
        .pure ⟨head, rest, rfl, rfl, hrest⟩

/-- The ways to split a sequence: by `uncons`, and by `pop` whoever else has its node. -/
def splits (sequence : Sequence α) : List (Splitting α (Option (α × Sequence α))) :=
  [sequence.uncons, sequence.pop .shared, sequence.pop .unique]

theorem splits_leaves {sequence : Sequence α} (hs : sequence.Sound ledger)
    (hmemo : memo.Coherent sequence) (hne : sequence.isEmpty = false) :
    ∀ split ∈ sequence.splits, Leaves ledger memo split sequence.SplitsOff := by
  intro split hsplit
  simp only [splits, List.mem_cons, List.not_mem_nil, or_false] at hsplit
  rcases hsplit with rfl | rfl | rfl
  · exact uncons_leaves hs hmemo hne
  · exact pop_leaves hs hmemo hne .shared
  · exact pop_leaves hs hmemo hne .unique

/-- **A split gives the head and what the children hold, under any coherent table.**  The
sequence is any that `singleton` and `link` can make, as are all that the operations of this library
give.  Its tail may be known, or that of any node farther along its chain of sources, with the links
below that node to be replayed, or no tail at all, and there may be no such chain.  Every way to
split the sequence gives its head and a rest with the elements of its children in queue order, which
are those of their plain collapse under any table whatever.  The table is coherent afterwards, for
this sequence and for every other for which it was so before.  No two coherent tables, and no two
ways to split, differ in the elements of the rest. -/
theorem coherent_split {sequence : Sequence α} (hs : sequence.Sound ledger)
    (hne : sequence.isEmpty = false) (hmemo : memo.Coherent sequence) :
    ∀ split ∈ sequence.splits, ∃ head rest,
      sequence.first? = some head ∧ (split.run memo).1 = some (head, rest) ∧
      rest.toList = sequence.children.toList.flatMap toList ∧
      (∀ plain : Memo α, rest.toList = ((collapse sequence.children).run plain).1.toList) ∧
      (∀ node, node.Sound ledger → memo.Coherent node → (split.run memo).2.Coherent node) ∧
      ∀ memo' : Memo α, memo'.Coherent sequence → ∀ split' ∈ sequence.splits, ∃ rest',
        (split'.run memo').1 = some (head, rest') ∧ rest'.toList = rest.toList := by
  intro split hsplit
  have hleaves := splits_leaves hs hmemo hne split hsplit
  obtain ⟨head, rest, hhead, hpopped, hrest⟩ := hleaves.result
  have helements : rest.toList = sequence.children.toList.flatMap toList := by
    rw [hrest, behind, contents_eq]
  refine ⟨head, rest, hhead, hpopped, helements, fun plain => ?_, fun node hnode hcoherent => ?_,
    fun memo' hmemo' split' hsplit' => ?_⟩
  · have hplain : Leaves ledger plain (collapse sequence.children) _ := collapse_leaves _
    rw [helements, hplain.result]
  · exact hleaves.adds.coherent hnode hcoherent
  · obtain ⟨head', rest', hhead', hpopped', hrest'⟩ :=
      (splits_leaves hs hmemo' hne split' hsplit').result
    obtain rfl : head = head' := Option.some.inj (hhead.symm.trans hhead')
    exact ⟨rest', hpopped', hrest'.trans hrest.symm⟩

/-- Four elements, linked one after the other. -/
def fourLinked : Sequence Nat := ((ofList [1, 2, 3, 4]).run 0).1

/-- Two links below `fourLinked` a tail is known, and no other; it is not made of nodes that the
chain has. -/
def farKnown : Memo Nat := ⟨7, {(2, root 99 2 .empty)}, 0⟩

theorem farKnown_coherent : farKnown.Coherent fourLinked := by
  intro times cell tail hc ht
  obtain ⟨rfl, rfl⟩ : 2 = cell ∧ root 99 2 .empty = tail := by
    simpa [farKnown, Memo.tail?, Std.HashMap.singleton_eq_insert,
      Std.HashMap.getElem?_insert] using ht
  -- The third node of the chain alone has this name.
  rcases times with _ | _ | _ | _ | times
  · cases hc
  · cases hc
  · rfl
  · cases hc
  · cases hc

theorem fourLinked_splits :
    (∃ rest, (fourLinked.uncons.run farKnown).1 = some (1, rest) ∧ rest.toList = [2, 3, 4] ∧
      (fourLinked.uncons.run farKnown).2.Coherent fourLinked) ∧
    ∃ rest, ((fourLinked.pop .unique).run farKnown).1 = some (1, rest) ∧ rest.toList = [2, 3, 4] ∧
      ((fourLinked.pop .unique).run farKnown).2.Coherent fourLinked := by
  have hmade : Naming.Ensures [] (ofList [1, 2, 3, 4]) _ := ofList_ensures [1, 2, 3, 4]
  obtain ⟨ledger, -, -, hs, -⟩ := hmade
  constructor
  · obtain ⟨head, rest, hhead, hpopped, hrest, -, hcoherent, -⟩ :=
      coherent_split hs rfl farKnown_coherent fourLinked.uncons (.head _)
    cases hhead
    exact ⟨rest, hpopped, hrest, hcoherent fourLinked hs farKnown_coherent⟩
  · obtain ⟨head, rest, hhead, hpopped, hrest, -, hcoherent, -⟩ :=
      coherent_split hs rfl farKnown_coherent (fourLinked.pop .unique)
        (.tail _ (.tail _ (.head _)))
    cases hhead
    exact ⟨rest, hpopped, hrest, hcoherent fourLinked hs farKnown_coherent⟩

end Sequence

end FreePrograms
