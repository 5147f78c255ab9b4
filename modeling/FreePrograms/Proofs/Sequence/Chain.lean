/-
# The chain of sources of a node

A node made by a link remembers what it was linked from, that remembers the same, and so on down to
a node that no link made.  A split looks for a known tail along this chain and then replays the
links that it passed, so all that it reads of the table of tails are the entries of this chain.

`Memo.Coherent memo sequence` is what these entries have to satisfy: each holds what the children of
its node hold.  It says nothing of any other entry, nor of how the entries came to be there, nor of
the nodes that a known tail is made of.  `Memo.Coherent.nearest_eq_some` says that what is replayed
from the nearest known tail then leads to the contents behind the head of the node.
-/
import FreePrograms.Proofs.Sequence.Ledger

namespace FreePrograms

variable {α : Type}

namespace Sequence

/-! ## 1. The chain -/

/-- The operands of the link that made a node: what it was linked from, and what behind. -/
def origin? : Sequence α → Option (Sequence α × Sequence α)
  | linked _ _ _ _ source other => some (source, other)
  | empty | root .. => none

/-- Goes from a node to what it was linked from, so many times, or until there is nothing. -/
def ascend : Nat → Sequence α → Sequence α
  | 0, sequence => sequence
  | n + 1, sequence =>
    match sequence.origin? with
    | some (source, _) => ascend n source
    | none => sequence

/-- What is behind the head of a node that linking made. -/
theorem behind_linked (cell : Cell) (n : Nat) (head : α) (source other : Sequence α) :
    (linked cell n head (source.children.push other) source other).behind
      = source.behind ++ other.toList :=
  contents_push source.children other

theorem Sound.ascend {ledger : Ledger α} {sequence : Sequence α} (hs : sequence.Sound ledger)
    (times : Nat) : (sequence.ascend times).Sound ledger := by
  induction times generalizing sequence with
  | zero => exact hs
  | succ times ih =>
    cases hs with
    | empty => exact .empty
    | root entry => exact .root entry
    | linked source_sound => exact ih source_sound

end Sequence

open Sequence

/-! ## 2. Coherent tables -/

/-- Each tail that is known on the chain of sources holds what the children of its node hold, in
their order. -/
def Memo.Coherent (memo : Memo α) (sequence : Sequence α) : Prop :=
  ∀ times cell tail, (sequence.ascend times).cell? = some cell → memo.tail? cell = some tail →
    tail.toList = (sequence.ascend times).children.toList.flatMap toList

namespace Memo.Coherent

variable {memo : Memo α} {ledger : Ledger α} {sequence : Sequence α}

/-- A table that fits the ledger is coherent for all that is sound. -/
theorem of_agrees (hmemo : memo.Agrees ledger) (hs : sequence.Sound ledger) :
    memo.Coherent sequence := by
  intro times cell tail hc ht
  have hentry := (hs.ascend times).entry hc
  rw [hmemo.tail_eq ht, behind, contents_eq] at hentry
  exact Option.some.inj hentry

/-- A known tail of the node itself. -/
theorem known (h : memo.Coherent sequence) {cell : Cell} (hc : sequence.cell? = some cell)
    {tail : Sequence α} (ht : memo.tail? cell = some tail) : tail.toList = sequence.behind := by
  rw [behind, contents_eq]
  exact h 0 cell tail hc ht

/-- The chain of a source is a part of the chain. -/
theorem source {cell : Cell} {n : Nat} {head : α} {children : Queue (Sequence α)}
    {source other : Sequence α} (h : memo.Coherent (linked cell n head children source other)) :
    memo.Coherent source :=
  fun times => h (times + 1)

end Memo.Coherent

/-! ## 3. What is replayed -/

/-- The links to be replayed lead from one tail to another, and the ledger has each tail that is
passed. -/
inductive Sequence.Leads (ledger : Ledger α) :
    List α → List (Cell × Sequence α) → List α → Prop
  | nil (contents : List α) : Leads ledger contents [] contents
  | cons {contents last : List α} {cell : Cell} {other : Sequence α}
    {below : List (Cell × Sequence α)} (sound : other.Sound ledger)
    (entry : ledger[cell]? = some (contents ++ other.toList))
    (rest : Leads ledger (contents ++ other.toList) below last) :
    Leads ledger contents ((cell, other) :: below) last

theorem Sequence.Leads.mono {ledger later : Ledger α} (h : ledger <+: later) {first last : List α}
    {below : List (Cell × Sequence α)} (hl : Leads ledger first below last) :
    Leads later first below last := by
  induction hl with
  | nil contents => exact .nil contents
  | cons sound entry _ ih => exact .cons (sound.mono h) (entry_mono h entry) ih

/-- What a search finds is known. -/
theorem Memo.known_of_nearest {memo : Memo α} {sequence tail : Sequence α}
    {below found : List (Cell × Sequence α)}
    (h : memo.nearest sequence below = some (tail, found)) :
    ∃ cell, memo.tail? cell = some tail := by
  fun_induction Memo.nearest memo sequence below with
  | case1 => cases h
  | case2 =>
    obtain ⟨known, ht, heq⟩ := Option.map_eq_some_iff.mp h
    cases heq
    exact ⟨_, ht⟩
  | case3 _ _ _ _ _ _ _ known ht =>
    cases h
    exact ⟨_, ht⟩
  | case4 _ _ _ _ _ _ _ _ ih => exact ih h

/-- **What is replayed below the nearest known tail leads to the same end** as what was to be
replayed before the search. -/
theorem Memo.Coherent.nearest_eq_some {ledger : Ledger α} {memo : Memo α}
    {sequence tail : Sequence α} (hs : sequence.Sound ledger) (hmemo : memo.Coherent sequence)
    {below found : List (Cell × Sequence α)} {last : List α}
    (hl : Leads ledger sequence.behind below last)
    (h : memo.nearest sequence below = some (tail, found)) :
    Leads ledger tail.toList found last := by
  induction hs generalizing below with
  | empty => cases h
  | root entry =>
    obtain ⟨known, ht, heq⟩ := Option.map_eq_some_iff.mp h
    cases heq
    rw [hmemo.known rfl ht]
    exact hl
  | @linked cell head source other hsource hother head_eq other_nonempty entry source_ih _ =>
    rw [Memo.nearest] at h
    split at h
    · next known ht =>
      cases h
      rw [hmemo.known rfl ht]
      exact hl
    · rw [behind_linked] at hl
      exact source_ih hmemo.source (.cons hother entry hl) h

end FreePrograms
