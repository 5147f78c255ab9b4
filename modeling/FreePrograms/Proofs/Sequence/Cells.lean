/-
# Tails in cells that are written once

Where tails are kept in cells beside the nodes, each cell is to be written once.  To write one that
is written already is then a mistake, and so is to ask for the value of a cell while that value is
being worked out.  `Guarded.uncons` is the split with such cells: it ends at the first mistake.

`uncons_guarded` says that a split never makes one, and does what `uncons` does.  Two facts carry
this.  No name comes twice on a chain of sources, so the cell of the node, which is being worked out
all the while, is not among those that the replay writes.  And the walk has passed only cells that
are empty.
-/
import Mathlib.Data.List.Nodup
import FreePrograms.Proofs.Sequence.Sharing

namespace FreePrograms

variable {α β γ : Type}

/-! ## 1. Cells that are to be written once -/

/-- A mistake with a cell: to write one that is written, or to enter one whose value is being worked
out. -/
inductive Mistake where
  | written (cell : Cell)
  | entered (cell : Cell)

/-- The table of tails, and the cells whose values are being worked out, the innermost first. -/
structure Cells (α : Type) where
  memo : Memo α
  entered : List Cell

/-- Steps that end at the first mistake. -/
abbrev Guarded (α : Type) := StateT (Cells α) (Except Mistake)

namespace Guarded

open Sequence (collapse)

/-- Steps that are no matter of the cells, or known to be right. -/
def lift (steps : Splitting α β) : Guarded α β := fun ⟨memo, entered⟩ =>
  let (b, memo) := steps.run memo
  .ok (b, ⟨memo, entered⟩)

/-- Writes a cell, which has to be empty. -/
def set (cell : Cell) (tail : Sequence α) : Guarded α Unit := fun cells =>
  if (cells.memo.tail? cell).isSome then .error (.written cell)
  else lift (Memo.record cell tail) cells

/-- Works out the value of a cell, which has not to be under way. -/
def within (cell : Cell) (init : Guarded α β) : Guarded α β := fun ⟨memo, entered⟩ =>
  if cell ∈ entered then .error (.entered cell)
  else do
    let (b, cells) ← init ⟨memo, cell :: entered⟩
    return (b, ⟨cells.memo, entered⟩)

/-- The value of a cell, worked out and written if it is empty. -/
def getOrInit (cell : Cell) (init : Guarded α (Sequence α)) : Guarded α (Sequence α) := do
  match (← get).memo.tail? cell with
  | some tail => return tail
  | none =>
    let tail ← within cell init
    set cell tail
    return tail

/-- Links the operands behind a known tail, nearest node first, and writes each cell passed. -/
def replay : List (Cell × Sequence α) → Sequence α → Guarded α (Sequence α)
  | [], tail => pure tail
  | (cell, other) :: below, tail => do
    let tail ← lift (Memo.naming (tail.link other))
    set cell tail
    replay below tail

/-- The tail of a node whose own cell is empty. -/
def rest : Sequence α → Guarded α (Sequence α)
  | .empty => pure .empty
  | .root _ _ children => lift (collapse children)
  | .linked _ _ _ children source other =>
    match source.cell? with
    | none => lift (collapse children)
    | some cell => do
      let tail ← match (← get).memo.nearest source [] with
        | some (tail, below) => replay below tail
        | none => getOrInit cell (lift (collapse source.children))
      lift (Memo.naming (tail.link other))

/-- The first element and a sequence of the others. -/
def uncons : Sequence α → Guarded α (Option (α × Sequence α))
  | .empty => pure none
  | sequence@(.root cell head _) | sequence@(.linked cell _ head _ _ _) => do
    return some (head, ← getOrInit cell (rest sequence))

/-! ## 2. Steps without a mistake -/

/-- Begun with this table, and with these cells entered, the guarded steps make no mistake and do
what the others do. -/
def Does (memo : Memo α) (entered : List Cell) (guarded : Guarded α β) (steps : Splitting α β) :
    Prop :=
  guarded.run ⟨memo, entered⟩ = .ok ((steps.run memo).1, ⟨(steps.run memo).2, entered⟩)

namespace Does

variable {memo : Memo α} {entered : List Cell} {guarded : Guarded α β} {steps : Splitting α β}
  {cell : Cell}

theorem pure (b : β) : Does memo entered (Pure.pure b) (Pure.pure b) := rfl

theorem lift (steps : Splitting α β) : Does memo entered (Guarded.lift steps) steps := rfl

theorem bind {guarded' : β → Guarded α γ} {next : β → Splitting α γ}
    (h : Does memo entered guarded steps)
    (hnext : Does (steps.run memo).2 entered (guarded' (steps.run memo).1)
      (next (steps.run memo).1)) :
    Does memo entered (guarded >>= guarded') (steps >>= next) := by
  rw [Does, StateT.run_bind, h]
  exact hnext

/-- What is made of the value at once is no matter of the cells. -/
theorem map {f : β → γ} (h : Does memo entered guarded steps) :
    Does memo entered (do return f (← guarded)) (do return f (← steps)) := h.bind (.pure _)

/-- Steps may depend on the table, which is the same on both sides. -/
theorem get {guarded' : Cells α → Guarded α γ} {next : Memo α → Splitting α γ}
    (h : Does memo entered (guarded' ⟨memo, entered⟩) (next memo)) :
    Does memo entered (MonadState.get >>= guarded') (MonadState.get >>= next) := h

/-- Only the guarded steps may read what they begin with. -/
theorem reading {guarded' : Cells α → Guarded α β}
    (h : Does memo entered (guarded' ⟨memo, entered⟩) steps) :
    Does memo entered (MonadState.get >>= guarded') steps := h

/-- **To write an empty cell is no mistake.** -/
theorem set (hempty : memo.tail? cell = none) (tail : Sequence α) :
    Does memo entered (Guarded.set cell tail) (Memo.record cell tail) := by
  rw [Does, StateT.run, Guarded.set, hempty]
  rfl

/-- Only what the steps do with this table is of interest. -/
theorem congr {steps' : Splitting α β} (h : Does memo entered guarded steps)
    (heq : steps'.run memo = steps.run memo) : Does memo entered guarded steps' := by
  rw [Does, heq]
  exact h

/-- **To enter a cell that is not entered yet is no mistake.** -/
theorem within (houtside : cell ∉ entered) (h : Does memo (cell :: entered) guarded steps) :
    Does memo entered (Guarded.within cell guarded) steps := by
  have hrun : guarded ⟨memo, cell :: entered⟩ = _ := h
  rw [Does, StateT.run, Guarded.within, if_neg houtside, hrun]
  rfl

/-- A cell that is not entered yet, and is empty still when its value is there, is written without a
mistake. -/
theorem getOrInit {init : Guarded α (Sequence α)} {work : Splitting α (Sequence α)}
    (hempty : memo.tail? cell = none) (houtside : cell ∉ entered)
    (hinit : Does memo (cell :: entered) init work)
    (hstill : (work.run memo).2.tail? cell = none) :
    Does memo entered (Guarded.getOrInit cell init) (do
      let tail ← work
      Memo.record cell tail
      return tail) := by
  rw [Guarded.getOrInit]
  refine .reading ?_
  dsimp only
  rw [hempty]
  exact (within houtside hinit).bind ((set hstill _).bind (.pure _))

/-- A cell that is written is looked up. -/
theorem getOrInit_known {tail : Sequence α} (hknown : memo.tail? cell = some tail)
    (init : Guarded α (Sequence α)) :
    Does memo entered (Guarded.getOrInit cell init) (Pure.pure tail) := by
  rw [Guarded.getOrInit]
  refine .reading ?_
  dsimp only
  rw [hknown]
  exact .pure tail

/-- **Links are replayed without a mistake** where the cells to be written are empty, and none comes
twice. -/
theorem replay {below : List (Cell × Sequence α)} (hnodup : (below.map Prod.fst).Nodup)
    (hempty : ∀ name ∈ below.map Prod.fst, memo.tail? name = none) (tail : Sequence α) :
    Does memo entered (Guarded.replay below tail) (Memo.replay below tail) := by
  induction below generalizing tail memo with
  | nil => exact .pure tail
  | cons link below ih =>
    obtain ⟨cell, other⟩ := link
    rw [List.map_cons, List.nodup_cons] at hnodup
    have hfirst : (((Memo.naming (tail.link other)).run memo).2).tail? cell = none :=
      hempty cell List.mem_cons_self
    refine (lift _).bind ((set hfirst _).bind (ih hnodup.2 (fun name hname => ?_) _))
    -- what was written just now is not among the others
    have hother : name ∉ [cell] := by
      rw [List.mem_singleton]
      rintro rfl
      exact hnodup.1 hname
    refine ((Splitting.Writes.record cell _).others name hother).trans ?_
    exact hempty name (List.mem_cons_of_mem cell hname)

end Does

end Guarded

namespace Sequence

open Guarded (Does)
open Splitting (Writes)

variable {memo : Memo α} {entered : List Cell}

/-! ## 3. A split without a mistake -/

theorem mem_chain_of_cell? {sequence : Sequence α} {cell : Cell}
    (h : sequence.cell? = some cell) : cell ∈ sequence.chain := by
  cases sequence with
  | empty => cases h
  | root => exact List.mem_singleton.mpr (Option.some.inj h).symm
  | linked => exact List.mem_cons.mpr (.inl (Option.some.inj h).symm)

/-- To find a tail is to make no mistake, while nothing on the chain of the source is entered. -/
theorem rest_guarded {cell : Cell} {n : Nat} {head : α} {children : Queue (Sequence α)}
    {source other : Sequence α} (hsource : source.isEmpty = false) (hnodup : source.chain.Nodup)
    (houtside : ∀ name ∈ source.chain, name ∉ entered) :
    Does memo entered (Guarded.rest (linked cell n head children source other))
      (linked cell n head children source other).rest := by
  obtain ⟨name, hname, -⟩ := exists_cell hsource
  rw [Guarded.rest, rest, hname]
  dsimp only
  refine .get ?_
  cases hnearest : memo.nearest source [] with
  | some found =>
    obtain ⟨tail, below⟩ := found
    obtain ⟨before, known, farther, hchain, hempty, -, hbelow⟩ := Memo.nearest_eq_some hnearest
    rw [List.map_nil, List.append_nil] at hbelow
    rw [hchain] at hnodup
    refine (Does.replay ?_ ?_ tail).bind (.lift _)
    · rw [hbelow]
      exact List.nodup_reverse.mpr (List.nodup_append.mp hnodup).1
    · rw [hbelow]
      exact fun passed hpassed => hempty passed (List.mem_reverse.mp hpassed)
  | none =>
    have hmem := mem_chain_of_cell? hname
    have hempty : memo.tail? name = none := by
      cases hknown : memo.tail? name with
      | none => rfl
      | some tail =>
        have hknows : memo.KnowsOn source := ⟨name, hmem, by rw [hknown]; rfl⟩
        exact absurd hknows (Memo.nearest_eq_none_iff.mp hnearest)
    have hstill : (((collapse source.children).run memo).2).tail? name = none :=
      ((collapse_writes source.children).others name List.not_mem_nil).trans hempty
    exact (Does.getOrInit hempty (houtside name hmem) (.lift _) hstill).bind (.lift _)

/-- What the search for the tail of a source writes lies on its chain. -/
theorem passed_subset_chain {source : Sequence α} :
    ∀ cell ∈ passed memo source, cell ∈ source.chain := by
  intro cell hcell
  rw [passed] at hcell
  cases hnearest : memo.nearest source [] with
  | none =>
    rw [hnearest] at hcell
    exact mem_chain_of_cell? (Option.mem_toList.mp hcell)
  | some found =>
    obtain ⟨tail, below⟩ := found
    obtain ⟨before, known, farther, hchain, -, -, hbelow⟩ := Memo.nearest_eq_some hnearest
    rw [hnearest] at hcell
    dsimp only at hcell
    rw [hbelow, List.map_nil, List.append_nil, List.mem_reverse] at hcell
    rw [hchain]
    exact List.mem_append_left _ hcell

/-- To read the table first is to go on with the one that there is. -/
theorem get_bind_run (next : Memo α → Splitting α β) (memo : Memo α) :
    (MonadState.get >>= next).run memo = (next memo).run memo := rfl

/-- A known tail is looked up. -/
theorem tail_run_of_known {sequence known : Sequence α} {cell : Cell}
    (h : memo.tail? cell = some known) : (sequence.tail cell).run memo = (known, memo) := by
  rw [tail, get_bind_run, h]
  rfl

/-- A tail that is not known is found and written. -/
theorem tail_run_of_unknown {sequence : Sequence α} {cell : Cell} (h : memo.tail? cell = none) :
    (sequence.tail cell).run memo = StateT.run (do
      let tail ← sequence.rest
      Memo.record cell tail
      return tail) memo := by
  rw [tail, get_bind_run, h]

/-- The tail of a node is looked up, or worked out, without a mistake. -/
theorem tail_guarded {sequence : Sequence α} {cell : Cell} (houtside : cell ∉ entered)
    (hrest : memo.tail? cell = none → Does memo (cell :: entered) (Guarded.rest sequence)
      sequence.rest ∧ (sequence.rest.run memo).2.tail? cell = none) :
    Does memo entered (Guarded.getOrInit cell (Guarded.rest sequence)) (sequence.tail cell) := by
  cases hcell : memo.tail? cell with
  | some tail =>
    refine (Does.getOrInit_known hcell _).congr ?_
    rw [tail_run_of_known hcell]
    rfl
  | none =>
    obtain ⟨hdoes, hstill⟩ := hrest hcell
    exact (Does.getOrInit hcell houtside hdoes hstill).congr (tail_run_of_unknown hcell)

/-- **A split makes no mistake with the cells**, and does what it does without regard to them. -/
theorem uncons_guarded {sequence : Sequence α} (hs : sequence.HasSource)
    (hnodup : sequence.chain.Nodup) : Does memo [] (Guarded.uncons sequence) sequence.uncons := by
  cases sequence with
  | empty => exact .pure none
  | root cell head children =>
    refine (tail_guarded List.not_mem_nil fun hempty => ⟨.lift (collapse children), ?_⟩).map
    exact ((collapse_writes children).others cell List.not_mem_nil).trans hempty
  | linked cell n head children source other =>
    rw [chain, List.nodup_cons] at hnodup
    refine (tail_guarded List.not_mem_nil fun hempty => ⟨?_, ?_⟩).map
    · refine rest_guarded hs hnodup.2 fun name hname hentered => ?_
      rw [List.mem_singleton.mp hentered] at hname
      exact hnodup.1 hname
    · have hunpassed : cell ∉ passed memo source := fun h => hnodup.1 (passed_subset_chain cell h)
      exact ((rest_writes hs).others cell hunpassed).trans hempty

end Sequence

end FreePrograms
