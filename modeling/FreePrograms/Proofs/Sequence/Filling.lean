/-
# Which cells a split fills, and with what

`Filling` says what a split fills by what is known when it begins.  Nothing is filled if the tail of
the node is known.  Otherwise the node is filled together with the nodes that lie between it and its
nearest ancestor with a known tail, each with the tail of its own source and its own operand linked
behind; or, if there is no such ancestor, together with its source alone, which is collapsed.

Either way the tail of the source is known in the end.  Hence a split of what `snoc` made of a
version leaves a known tail there, and all that is linked behind this version is split by one link
from then on (`splits_fill_cells`).  A node whose tail was known before tells nothing of its source:
its split fills nothing.
-/
import Mathlib.Data.Nat.Find
import FreePrograms.Proofs.Sequence.Cells

namespace FreePrograms

variable {α : Type}

/-! ## 1. The nearest known tail -/

/-- The tail of a node, if it is known. -/
def Memo.tailOf? (memo : Memo α) (node : Sequence α) : Option (Sequence α) :=
  node.cell?.bind memo.tail?

/-- The first node with a known tail, on the way from this one to its source and so on, comes after
so many steps. -/
structure Memo.NearestAt (memo : Memo α) (node : Sequence α) (steps : Nat) : Prop where
  known : memo.Knows (node.ascend steps)
  before : ∀ i < steps, ¬ memo.Knows (node.ascend i)

/-- The nodes passed in so many steps, from this one on. -/
def Sequence.passing (node : Sequence α) (steps : Nat) : List (Sequence α) :=
  (List.range steps).map fun i => node.ascend i

/-- The name of each node passed in so many steps, and its own operand, the nearest first. -/
def Sequence.links : Nat → Sequence α → List (Cell × Sequence α)
  | n + 1, .linked cell _ _ _ source other => (cell, other) :: source.links n
  | _, _ => []

theorem Memo.knows_iff {memo : Memo α} {node : Sequence α} {cell : Cell}
    (hcell : node.cell? = some cell) : memo.Knows node ↔ (memo.tail? cell).isSome := by
  simp [Memo.Knows, hcell]

theorem Memo.tailOf?_eq {memo : Memo α} {node : Sequence α} {cell : Cell}
    (hcell : node.cell? = some cell) : memo.tailOf? node = memo.tail? cell := by
  rw [Memo.tailOf?, hcell]
  rfl

theorem Memo.Knows.exists_tail {memo : Memo α} {node : Sequence α} (h : memo.Knows node) :
    ∃ tail, memo.tailOf? node = some tail := by
  obtain ⟨cell, hcell, hknown⟩ := h
  rw [Memo.tailOf?_eq hcell]
  exact Option.isSome_iff_exists.mp hknown

theorem Memo.Knows.isEmpty {memo : Memo α} {node : Sequence α} (h : memo.Knows node) :
    node.isEmpty = false := by
  obtain ⟨cell, hcell, -⟩ := h
  exact Sequence.isEmpty_of_cell? hcell

theorem Memo.not_knows {memo : Memo α} {node : Sequence α} {cell : Cell}
    (hcell : node.cell? = some cell) (h : ¬ memo.Knows node) : memo.tail? cell = none := by
  rw [Memo.knows_iff hcell] at h
  exact Option.not_isSome_iff_eq_none.mp h

/-- Some node on the way has a known tail, and then one is the first, or none has. -/
theorem Memo.exists_nearestAt (memo : Memo α) (node : Sequence α) :
    (∃ steps, memo.NearestAt node steps) ∨ ∀ i, ¬ memo.Knows (node.ascend i) := by
  classical
  by_cases h : ∃ i, memo.Knows (node.ascend i)
  · exact .inl ⟨Nat.find h, Nat.find_spec h, fun i hi => Nat.find_min h hi⟩
  · exact .inr fun i hi => h ⟨i, hi⟩

namespace Memo.NearestAt

variable {memo : Memo α} {n steps : Nat} {cell : Cell} {head : α} {children : Queue (Sequence α)}
  {source other node tail : Sequence α}

/-- The source of a node with no known tail is one step nearer. -/
theorem of_linked (h : memo.NearestAt (.linked cell n head children source other) (steps + 1)) :
    memo.NearestAt source steps :=
  ⟨h.known, fun i hi => h.before (i + 1) (Nat.succ_lt_succ hi)⟩

/-- Only a node that a link made leads to a known tail farther away. -/
theorem eq_linked (h : memo.NearestAt node (steps + 1)) :
    ∃ cell n head children source other, node = .linked cell n head children source other := by
  cases node with
  | empty => exact absurd h.known (h.before 0 (Nat.succ_pos steps))
  | root cell head children => exact absurd h.known (h.before 0 (Nat.succ_pos steps))
  | linked cell n head children source other => exact ⟨cell, n, head, children, source, other, rfl⟩

/-- **The search finds it**, and has passed the links on the way. -/
theorem nearest_eq (h : memo.NearestAt node steps)
    (htail : memo.tailOf? (node.ascend steps) = some tail) (below : List (Cell × Sequence α)) :
    memo.nearest node below = some (tail, (node.links steps).reverse ++ below) := by
  induction steps generalizing node below with
  | zero =>
    cases node with
    | empty => cases htail
    | root cell head children =>
      have hknown : memo.tail? cell = some tail := htail
      rw [Memo.nearest, hknown]
      rfl
    | linked cell n head children source other =>
      have hknown : memo.tail? cell = some tail := htail
      rw [Memo.nearest, hknown]
      rfl
  | succ steps ih =>
    obtain ⟨cell, n, head, children, source, other, rfl⟩ := h.eq_linked
    have hunknown := Memo.not_knows rfl (h.before 0 (Nat.succ_pos steps))
    rw [Memo.nearest, hunknown]
    dsimp only
    rw [ih h.of_linked htail, Sequence.links, List.reverse_cons, List.append_assoc]
    rfl

end Memo.NearestAt

namespace Sequence

theorem mem_chain_of_ascend {node : Sequence α} {i : Nat} {cell : Cell}
    (h : (node.ascend i).cell? = some cell) : cell ∈ node.chain := by
  induction i generalizing node with
  | zero => exact mem_chain_of_cell? h
  | succ i ih =>
    cases node with
    | empty => cases h
    | root => exact mem_chain_of_cell? h
    | linked => exact List.mem_cons_of_mem _ (ih h)

/-- A name on the chain is that of the node after some steps. -/
theorem exists_ascend {node : Sequence α} {cell : Cell} (h : cell ∈ node.chain) :
    ∃ i, (node.ascend i).cell? = some cell := by
  fun_induction chain node with
  | case1 => cases h
  | case2 => exact ⟨0, congrArg some (List.mem_singleton.mp h).symm⟩
  | case3 _ _ _ _ _ _ ih =>
    rcases List.mem_cons.mp h with rfl | h
    · exact ⟨0, rfl⟩
    · obtain ⟨i, hi⟩ := ih h
      exact ⟨i + 1, hi⟩

end Sequence

/-! ## 2. What is filled -/

/-- The cells of these nodes are empty in the table and filled in the later one, and no other cell
differs. -/
structure Memo.Fills (memo : Memo α) (nodes : List (Sequence α)) (later : Memo α) : Prop where
  empty : ∀ node ∈ nodes, ¬ memo.Knows node
  filled : ∀ node ∈ nodes, later.Knows node
  others : ∀ cell, (∀ node ∈ nodes, node.cell? ≠ some cell) → later.tail? cell = memo.tail? cell

/-- The cell of the node holds the tail of its source with its own operand linked behind. -/
def Memo.HoldsLink (memo : Memo α) (node : Sequence α) : Prop :=
  ∃ source other tail next, node.origin? = some (source, other) ∧
    memo.tailOf? source = some tail ∧
    memo.tailOf? node = some ((tail.link other).run next).1

/-- An empty cell holds what is written there. -/
theorem Memo.tail?_record {memo : Memo α} {cell : Cell} (h : memo.tail? cell = none)
    (tail : Sequence α) : ((Memo.record cell tail).run memo).2.tail? cell = some tail := by
  have hempty : cell ∉ memo.tails := by simpa [Memo.tail?] using h
  simp only [Memo.tail?, Memo.record, StateT.run, Std.HashMap.getElem?_insertIfNew]
  rw [if_pos ⟨BEq.rfl, hempty⟩]

theorem Memo.HoldsLink.mono {memo later : Memo α} {node : Sequence α} (h : memo.HoldsLink node)
    (hkept : ∀ cell tail, memo.tail? cell = some tail → later.tail? cell = some tail) :
    later.HoldsLink node := by
  have hkept' : ∀ {node tail : Sequence α}, memo.tailOf? node = some tail →
      later.tailOf? node = some tail := by
    intro node tail h
    obtain ⟨cell, hcell, htail⟩ := Option.bind_eq_some_iff.mp h
    rw [Memo.tailOf?_eq hcell]
    exact hkept cell tail htail
  obtain ⟨source, other, tail, next, horigin, hsource, hnode⟩ := h
  exact ⟨source, other, tail, next, horigin, hkept' hsource, hkept' hnode⟩

namespace Sequence

variable {memo : Memo α}

theorem passing_succ (cell : Cell) (n : Nat) (head : α) (children : Queue (Sequence α))
    (source other : Sequence α) (steps : Nat) :
    (linked cell n head children source other).passing (steps + 1)
      = linked cell n head children source other :: source.passing steps := by
  rw [passing, List.range_succ_eq_map, List.map_cons, List.map_map]
  rfl

theorem replay_append (above below : List (Cell × Sequence α)) (tail : Sequence α) :
    Memo.replay (above ++ below) tail = (do Memo.replay below (← Memo.replay above tail)) := by
  induction above generalizing tail with
  | nil => rfl
  | cons link above ih =>
    obtain ⟨cell, other⟩ := link
    simp only [List.cons_append, Memo.replay, ih, bind_assoc]

/-- Steps that began with this table came to the tail of the node: they filled these cells and
collapsed so many queues of children. -/
structure Brings (memo : Memo α) (node : Sequence α) (nodes : List (Sequence α)) (collapses : Nat)
    (made : Sequence α × Memo α) : Prop where
  fills : memo.Fills nodes made.2
  tail : made.2.tailOf? node = some made.1
  collapses : made.2.collapses = memo.collapses + collapses

section Linked

variable {cell : Cell} {n : Nat} {head : α} {children : Queue (Sequence α)}
  {source other : Sequence α} {nodes : List (Sequence α)} {collapses : Nat}
  {made : Sequence α × Memo α}

/-- **One link on from the tail of the source**: the cell of the node is filled too, with that tail
and the operand of the node linked behind. -/
theorem Brings.link (h : Brings memo source nodes collapses made)
    (hempty : memo.tail? cell = none) (hother : ∀ node ∈ nodes, node.cell? ≠ some cell) :
    let longer := (Memo.replay [(cell, other)] made.1).run made.2
    Brings memo (linked cell n head children source other)
      (linked cell n head children source other :: nodes) collapses longer ∧
    longer.2.HoldsLink (linked cell n head children source other) ∧
    longer.2.tailOf? source = some made.1 := by
  intro longer
  have hwrites : Splitting.Writes made.2 (Memo.replay [(cell, other)] made.1) [cell] 0 :=
    .replay _ made.1 made.2
  have hstill : made.2.tail? cell = none := (h.fills.others cell hother).trans hempty
  have hwritten : longer.2.tail? cell = some longer.1 := Memo.tail?_record hstill _
  have hkept : longer.2.tailOf? source = some made.1 := by
    obtain ⟨name, hname, htail⟩ := Option.bind_eq_some_iff.mp h.tail
    rw [Memo.tailOf?_eq hname]
    exact hwrites.keeps made.2 name made.1 htail
  have hlink : longer.2.HoldsLink (linked cell n head children source other) :=
    ⟨source, other, made.1, made.2.next, rfl, hkept, hwritten⟩
  refine ⟨⟨⟨?_, ?_, ?_⟩, hwritten, ?_⟩, hlink, hkept⟩
  · intro node hnode
    rcases List.mem_cons.mp hnode with rfl | hnode
    · rw [Memo.knows_iff rfl, hempty]
      simp
    · exact h.fills.empty node hnode
  · intro node hnode
    rcases List.mem_cons.mp hnode with rfl | hnode
    · rw [Memo.knows_iff rfl, hwritten]
      rfl
    · obtain ⟨name, hname, hknown⟩ := h.fills.filled node hnode
      obtain ⟨tail, htail⟩ := Option.isSome_iff_exists.mp hknown
      exact ⟨name, hname, by rw [hwrites.keeps made.2 name tail htail]; rfl⟩
  · intro name hname
    have hne : name ∉ [cell] := by
      rw [List.mem_singleton]
      rintro rfl
      exact hname _ List.mem_cons_self rfl
    exact (hwrites.others name hne).trans
      (h.fills.others name fun node hnode => hname node (List.mem_cons_of_mem _ hnode))
  · exact hwrites.collapses_eq.trans h.collapses

end Linked

/-- **The links back to the nearest known tail are replayed**: the cells of the nodes passed are
filled, each from that of its source. -/
theorem replay_brings {node tail : Sequence α} {steps : Nat} (hnodup : node.chain.Nodup)
    (h : memo.NearestAt node steps) (htail : memo.tailOf? (node.ascend steps) = some tail) :
    let made := (Memo.replay (node.links steps).reverse tail).run memo
    Brings memo node (node.passing steps) 0 made ∧
      ∀ i < steps, made.2.HoldsLink (node.ascend i) := by
  induction steps generalizing node with
  | zero =>
    exact ⟨⟨⟨by simp [passing], by simp [passing], fun _ _ => rfl⟩, htail, rfl⟩, by simp⟩
  | succ steps ih =>
    intro made
    obtain ⟨cell, n, head, children, source, other, rfl⟩ := h.eq_linked
    rw [chain, List.nodup_cons] at hnodup
    obtain ⟨hbrings, hlinks⟩ := ih hnodup.2 h.of_linked htail
    have hmade : made = (Memo.replay [(cell, other)]
        ((Memo.replay (source.links steps).reverse tail).run memo).1).run
          ((Memo.replay (source.links steps).reverse tail).run memo).2 := by
      change (Memo.replay ((cell, other) :: source.links steps).reverse tail).run memo = _
      rw [List.reverse_cons, replay_append]
      rfl
    have hchain : ∀ passed ∈ source.passing steps, passed.cell? ≠ some cell := by
      intro passed hpassed hcell
      obtain ⟨i, -, rfl⟩ := List.mem_map.mp hpassed
      exact hnodup.1 (mem_chain_of_ascend hcell)
    have hempty := Memo.not_knows rfl (h.before 0 (Nat.succ_pos steps))
    obtain ⟨hlonger, hlink, -⟩ : Brings memo (linked cell n head children source other) _ 0 _ ∧ _ :=
      hbrings.link hempty hchain
    rw [hmade, passing_succ]
    refine ⟨hlonger, fun i hi => ?_⟩
    cases i with
    | zero => exact hlink
    | succ i =>
      exact (hlinks i (Nat.lt_of_succ_lt_succ hi)).mono fun cell tail =>
        Splitting.Keeps.replay _ _ _ cell tail

/-! ## 3. What a split fills -/

/-- A source is collapsed: its cell is filled, and no other. -/
theorem collapseAt_brings {source : Sequence α} {name : Cell} (hname : source.cell? = some name)
    (hempty : memo.tail? name = none) :
    Brings memo source [source] 1 ((collapseAt name source.children).run memo) ∧
      ((collapseAt name source.children).run memo).1 = ((collapse source.children).run memo).1 := by
  have hwrites : Splitting.Writes memo (collapseAt name source.children) [name] 1 :=
    collapseAt_writes name source.children
  have hstill : ((collapse source.children).run memo).2.tail? name = none :=
    ((collapse_writes source.children).others name List.not_mem_nil).trans hempty
  have hwritten : ((collapseAt name source.children).run memo).2.tail? name
      = some ((collapseAt name source.children).run memo).1 := Memo.tail?_record hstill _
  refine ⟨⟨⟨?_, ?_, ?_⟩, ?_, hwrites.collapses_eq⟩, rfl⟩
  · intro node hnode
    rw [List.mem_singleton.mp hnode, Memo.knows_iff hname, hempty]
    simp
  · intro node hnode
    rw [List.mem_singleton.mp hnode, Memo.knows_iff hname, hwritten]
    rfl
  · intro cell hcell
    refine hwrites.others cell fun hmem => ?_
    rw [List.mem_singleton.mp hmem] at hcell
    exact hcell source List.mem_cons_self hname
  · rw [Memo.tailOf?_eq hname]
    exact hwritten

section Linked

variable {cell : Cell} {n : Nat} {head : α} {children : Queue (Sequence α)}
  {source other : Sequence α}

/-- The tail of a linked node is one link on from that of its source, however this one is found. -/
theorem tail_run_of_rest {steps : Splitting α (Sequence α)} (hempty : memo.tail? cell = none)
    (hrest : (linked cell n head children source other).rest.run memo
      = StateT.run (do Memo.naming ((← steps).link other)) memo) :
    ((linked cell n head children source other).tail cell).run memo
      = (Memo.replay [(cell, other)] (steps.run memo).1).run (steps.run memo).2 := by
  rw [tail_run_of_unknown hempty, StateT.run_bind, hrest]
  rfl

/-- With a known tail farther away the links back to it are replayed. -/
theorem tail_run_of_nearest {steps : Nat} {tail : Sequence α} (hsource : source.isEmpty = false)
    (h : memo.NearestAt (linked cell n head children source other) (steps + 1))
    (htail : memo.tailOf? (source.ascend steps) = some tail) :
    ((linked cell n head children source other).tail cell).run memo
      = (Memo.replay ((linked cell n head children source other).links (steps + 1)).reverse
          tail).run memo := by
  obtain ⟨name, hname, -⟩ := exists_cell hsource
  have hnearest := h.of_linked.nearest_eq htail []
  rw [List.append_nil] at hnearest
  have hrest : (linked cell n head children source other).rest.run memo
      = StateT.run (do
          Memo.naming ((← Memo.replay (source.links steps).reverse tail).link other)) memo := by
    rw [rest, hname]
    dsimp only
    rw [get_bind_run, hnearest]
  rw [tail_run_of_rest (Memo.not_knows rfl (h.before 0 (Nat.succ_pos steps))) hrest]
  rw [Sequence.links, List.reverse_cons, replay_append]
  rfl

/-- Without one the source is collapsed, and the node is one link on from it. -/
theorem tail_brings_of_none (hsource : source.isEmpty = false) (houtside : cell ∉ source.chain)
    (h : ∀ i, ¬ memo.Knows ((linked cell n head children source other).ascend i)) :
    let made := ((linked cell n head children source other).tail cell).run memo
    Brings memo (linked cell n head children source other)
      [linked cell n head children source other, source] 1 made ∧
    made.2.HoldsLink (linked cell n head children source other) ∧
    made.2.tailOf? source = some ((collapse source.children).run memo).1 := by
  obtain ⟨name, hname, -⟩ := exists_cell hsource
  have hunknown : ¬ memo.KnowsOn source := by
    rintro ⟨passed, hpassed, hknown⟩
    obtain ⟨i, hi⟩ := exists_ascend hpassed
    exact h (i + 1) ⟨passed, hi, hknown⟩
  have hrest : (linked cell n head children source other).rest.run memo
      = StateT.run (do
          Memo.naming ((← collapseAt name source.children).link other)) memo := by
    rw [rest, hname]
    dsimp only
    rw [get_bind_run, Memo.nearest_eq_none_iff.mpr hunknown]
  have hother : ∀ node ∈ [source], node.cell? ≠ some cell := by
    intro node hnode hcell
    rw [List.mem_singleton.mp hnode] at hcell
    exact houtside (mem_chain_of_cell? hcell)
  have hempty := Memo.not_knows rfl (h 0)
  obtain ⟨hbrings, hvalue⟩ := collapseAt_brings hname (Memo.not_knows hname (h 1))
  rw [tail_run_of_rest hempty hrest, ← hvalue]
  exact hbrings.link hempty hother

end Linked

/-- What a split fills, and with what, by what is known when it begins. -/
structure Filling (memo : Memo α) (node : Sequence α) (after : Memo α) : Prop where
  /-- Where the tail of the node is known, nothing happens. -/
  known : memo.Knows node → after = memo
  /-- Otherwise the node is filled with the nodes before its nearest ancestor with a known tail.
  Each holds the tail of its own source with its own operand linked behind, and nothing is
  collapsed. -/
  nearest : ∀ steps, memo.NearestAt node (steps + 1) →
    memo.Fills (node.passing (steps + 1)) after ∧
    (∀ i ≤ steps, after.HoldsLink (node.ascend i)) ∧ after.collapses = memo.collapses
  /-- If there is no such ancestor, it is filled with its source alone, which is collapsed. -/
  source : ∀ source other, node.origin? = some (source, other) →
    (∀ i, ¬ memo.Knows (node.ascend i)) →
    memo.Fills [node, source] after ∧ after.HoldsLink node ∧
    after.tailOf? source = some ((collapse source.children).run memo).1 ∧
    after.collapses = memo.collapses + 1
  /-- What no link made is collapsed itself. -/
  alone : node.origin? = none → ¬ memo.Knows node →
    memo.Fills [node] after ∧
    after.tailOf? node = some ((collapse node.children).run memo).1 ∧
    after.collapses = memo.collapses + 1

/-- A split leaves the table that finding the tail leaves. -/
theorem uncons_run (memo : Memo α) {node : Sequence α} {cell : Cell}
    (hcell : node.cell? = some cell) :
    ∃ head, node.first? = some head ∧ node.uncons.run memo
      = (some (head, ((node.tail cell).run memo).1), ((node.tail cell).run memo).2) := by
  cases node with
  | empty => cases hcell
  | root name head children =>
    cases hcell
    exact ⟨head, rfl, rfl⟩
  | linked name n head children source other =>
    cases hcell
    exact ⟨head, rfl, rfl⟩

/-- **What a split fills**: no name must come twice on the chain, so that no cell is filled before
its turn. -/
theorem filling {node : Sequence α} (hs : node.HasSource) (hnodup : node.chain.Nodup)
    (hne : node.isEmpty = false) : Filling memo node (node.uncons.run memo).2 := by
  obtain ⟨cell, hcell, -⟩ := exists_cell hne
  obtain ⟨head, -, hrun⟩ := uncons_run memo hcell
  rw [hrun]
  dsimp only
  refine ⟨?_, ?_, ?_, ?_⟩
  · intro hknown
    obtain ⟨tail, htail⟩ := hknown.exists_tail
    rw [Memo.tailOf?_eq hcell] at htail
    rw [tail_run_of_known htail]
  · intro steps h
    obtain ⟨tail, htail⟩ := h.known.exists_tail
    obtain ⟨hbrings, hlinks⟩ := replay_brings hnodup h htail
    obtain ⟨name, n, first, children, source, other, rfl⟩ := h.eq_linked
    cases hcell
    rw [tail_run_of_nearest hs h htail]
    exact ⟨hbrings.fills, fun i hi => hlinks i (Nat.lt_succ_of_le hi), hbrings.collapses⟩
  · intro source other horigin hnone
    cases node with
    | empty => cases horigin
    | root => cases horigin
    | linked name n first children source other =>
      cases horigin
      cases hcell
      rw [chain, List.nodup_cons] at hnodup
      obtain ⟨hbrings, hlink, hsource⟩ := tail_brings_of_none hs hnodup.1 hnone
      exact ⟨hbrings.fills, hlink, hsource, hbrings.collapses⟩
  · intro horigin hunknown
    cases node with
    | empty => cases hne
    | linked => cases horigin
    | root name first children =>
      cases hcell
      have hempty := Memo.not_knows rfl hunknown
      rw [tail_run_of_unknown hempty]
      have hname : (root cell first children).cell? = some cell := rfl
      obtain ⟨hbrings, hvalue⟩ := collapseAt_brings hname hempty
      refine ⟨hbrings.fills, ?_, hbrings.collapses⟩
      exact hbrings.tail.trans (congrArg some hvalue)

/-! ## 4. All that is linked behind one node -/

/-- Where the tail of a linked node is found, it is from that of its source, which is known then. -/
theorem Filling.knows_source {node source other : Sequence α} {after : Memo α}
    (h : Filling memo node after) (horigin : node.origin? = some (source, other))
    (hunknown : ¬ memo.Knows node) : after.Knows source := by
  have hlink : after.HoldsLink node := by
    rcases Memo.exists_nearestAt memo node with ⟨steps, hnearest⟩ | hnone
    · cases steps with
      | zero => exact absurd hnearest.known hunknown
      | succ steps => exact (h.nearest steps hnearest).2.1 0 (Nat.zero_le steps)
    · exact (h.source source other horigin hnone).2.1
  obtain ⟨_, _, tail, _, horigin', htail, -⟩ := hlink
  cases horigin.symm.trans horigin'
  obtain ⟨cell, hcell, hknown⟩ := Option.bind_eq_some_iff.mp htail
  exact ⟨cell, hcell, by rw [hknown]; rfl⟩

/-- The split of the node does nothing but to link its operand behind the known tail of its source
and to write the cell of the node. -/
def SplitsByLink (memo : Memo α) (node : Sequence α) : Prop :=
  ∃ cell head source other tail, node.cell? = some cell ∧ node.first? = some head ∧
    node.origin? = some (source, other) ∧ memo.tailOf? source = some tail ∧
    node.uncons.run memo = StateT.run (do
      let rest ← Memo.naming (tail.link other)
      Memo.record cell rest
      return some (head, rest)) memo

/-- **Behind a known tail a split is one link.** -/
theorem splitsByLink {node source other : Sequence α}
    (horigin : node.origin? = some (source, other)) (hsource : memo.Knows source)
    (hunknown : ¬ memo.Knows node) : SplitsByLink memo node := by
  cases node with
  | empty => cases horigin
  | root => cases horigin
  | linked cell n head children source other =>
    cases horigin
    obtain ⟨tail, htail⟩ := hsource.exists_tail
    have hnearest : memo.NearestAt (linked cell n head children source other) 1 :=
      ⟨hsource, fun i hi => by rwa [Nat.lt_one_iff.mp hi]⟩
    have hcell : (linked cell n head children source other).cell? = some cell := rfl
    obtain ⟨first, hfirst, hrun⟩ := uncons_run memo hcell
    rw [tail_run_of_nearest hsource.isEmpty hnearest htail] at hrun
    exact ⟨cell, first, source, other, tail, hcell, hfirst, rfl, htail, hrun⟩

/-- One more element behind a version makes a node with this version as its source, and a name that
was not given before. -/
theorem Stock.exists_snoc [BEq α] {stock : Stock α} {place : Nat} {base : Sequence α}
    (hversion : stock.versions[place]? = some base) (hne : base.isEmpty = false) (a : α) :
    ∃ made one, (stock.move (.perform (.snoc place a))).versions = stock.versions ++ [made] ∧
      made.origin? = some (base, one) ∧ made.cell? = some (stock.memo.next + 1) ∧
      ∀ cell, (stock.move (.perform (.snoc place a))).memo.tail? cell = stock.memo.tail? cell := by
  obtain ⟨head, hhead⟩ := exists_first? hne
  have hmove : stock.move (.perform (.snoc place a))
      = ⟨stock.versions ++ [((base.snoc a).run stock.memo.next).1],
          ((Memo.naming (base.snoc a)).run stock.memo).2⟩ := by
    simp only [Stock.move, Move.carryOut, Kit.perform, hversion]
    rfl
  have hmade : ((base.snoc a).run stock.memo.next).1
      = linked (stock.memo.next + 1) (base.length + 1) head
          (base.children.push (root stock.memo.next a .empty)) base
          (root stock.memo.next a .empty) := by
    change ((base.link (root stock.memo.next a .empty)).run (stock.memo.next + 1)).1 = _
    rw [link, hhead]
    rfl
  rw [hmove, hmade]
  exact ⟨_, root stock.memo.next a .empty, rfl, rfl, rfl, fun _ => rfl⟩

/-- To split a version leaves the table of the split, and the versions that there were. -/
theorem Stock.exists_uncons [BEq α] {stock : Stock α} {place : Nat} {node : Sequence α}
    (hversion : stock.versions[place]? = some node) :
    ∃ rest, stock.move (.perform (.uncons place))
      = ⟨stock.versions ++ rest, (node.uncons.run stock.memo).2⟩ := by
  have hkit : (sequences : Kit (Splitting α) α (Sequence α)).uncons node = node.uncons := rfl
  simp only [Stock.move, Move.carryOut, Kit.perform, hversion, hkit, StateT.run_bind]
  generalize node.uncons.run stock.memo = split
  obtain ⟨popped, later⟩ := split
  cases popped with
  | none => exact ⟨[], by rw [List.append_nil]; rfl⟩
  | some popped => exact ⟨[popped.2], rfl⟩

/-- After a split of what one more element behind a version makes, the tail of the version is
known. -/
theorem Stock.Sound.knows_after_snoc [BEq α] {ledger : Ledger α} {stock : Stock α}
    (hs : stock.Sound ledger) {place : Nat} {base : Sequence α}
    (hversion : stock.versions[place]? = some base) (hne : base.isEmpty = false) (a : α) :
    (stock.moves [.perform (.snoc place a), .perform (.uncons stock.versions.length)]).memo.Knows
      base := by
  obtain ⟨made, one, hversions, horigin, hcell, htails⟩ := Stock.exists_snoc hversion hne a
  obtain ⟨later, hlater⟩ := hs.move (.perform (.snoc place a))
  have hplace : (stock.move (.perform (.snoc place a))).versions[stock.versions.length]?
      = some made := by
    rw [hversions]
    simp
  -- its name is beyond all that the table knows
  have hunknown : ¬ (stock.move (.perform (.snoc place a))).memo.Knows made := by
    rw [Memo.knows_iff hcell, htails]
    intro hknown
    obtain ⟨tail, htail⟩ := Option.isSome_iff_exists.mp hknown
    obtain ⟨hlt, -⟩ := List.getElem?_eq_some_iff.mp (hs.agrees.tail_eq htail)
    rw [← hs.agrees.next_eq] at hlt
    exact Nat.not_succ_lt_self hlt
  have hsound : made.Sound later := hlater.versions made (List.mem_of_getElem? hplace)
  obtain ⟨rest, hsplit⟩ := Stock.exists_uncons hplace
  change ((stock.move (.perform (.snoc place a))).move (.perform (.uncons _))).memo.Knows base
  rw [hsplit]
  have hmade := isEmpty_of_cell? hcell
  exact (filling hsound.hasSource hsound.chain_nodup hmade).knows_source horigin hunknown

/-- **Which cells a split fills, in every stock.**  After any moves, the split of any node that the
stock has fills the cells that `Filling` says, each with what it says, and no other; and with cells
that are written once it comes to the same end, so it never writes a cell that is written and never
asks for the value of one that is being worked out.

Once what `snoc` made of a version is split, the tail of that version is known for good.  Every node
that is linked behind the version then either has a known tail itself, or its split is one link. -/
theorem splits_fill_cells [BEq α] (moves : List (Move α)) :
    let stock : Stock α := Stock.empty.moves moves
    (∀ node, stock.Has node → node.isEmpty = false →
      Filling stock.memo node (node.uncons.run stock.memo).2 ∧
      (Guarded.uncons node).run ⟨stock.memo, []⟩
        = .ok ((node.uncons.run stock.memo).1, ⟨(node.uncons.run stock.memo).2, []⟩)) ∧
    ∀ place base a, stock.versions[place]? = some base → base.isEmpty = false →
      let split := stock.moves [.perform (.snoc place a), .perform (.uncons stock.versions.length)]
      split.memo.Knows base ∧
      ∀ further node other, node.origin? = some (base, other) →
        ¬ (split.moves further).memo.Knows node →
        SplitsByLink (split.moves further).memo node := by
  intro stock
  obtain ⟨ledger, hsound⟩ := Stock.Sound.of_moves moves
  refine ⟨fun node hnode hne => ?_, fun place base a hversion hne => ?_⟩
  · have hs := hsound.node hnode
    exact ⟨filling hs.hasSource hs.chain_nodup hne, uncons_guarded hs.hasSource hs.chain_nodup⟩
  · intro split
    have hknown : split.memo.Knows base := hsound.knows_after_snoc hversion hne a
    refine ⟨hknown, fun further node other horigin hunknown => ?_⟩
    obtain ⟨cell, hcell, hsome⟩ := hknown
    obtain ⟨tail, htail⟩ := Option.isSome_iff_exists.mp hsome
    have hstays : (split.moves further).memo.tail? cell = some tail :=
      Stock.tail?_moves further htail
    exact splitsByLink horigin ⟨cell, hcell, by rw [hstays]; rfl⟩ hunknown

/-- The same versions as in `linkedTwice`, with the tail of the first one known. -/
def firstKnown : Stock Nat := Stock.empty.moves (linkings ++ [.perform (.uncons 0)])

theorem exists_firstKnown : ∃ rest, firstKnown
    = ⟨linkedTwice.versions ++ rest, ((single 0).uncons.run linkedTwice.memo).2⟩ := by
  have hversion : linkedTwice.versions[0]? = some (single 0) := rfl
  obtain ⟨rest, hsplit⟩ := Stock.exists_uncons hversion
  refine ⟨rest, ?_⟩
  rw [← hsplit, firstKnown, Stock.moves, List.foldl_append]
  rfl

theorem firstKnown_fills : linkedTwice.memo.Fills [single 0] firstKnown.memo := by
  obtain ⟨rest, hfirst⟩ := exists_firstKnown
  have hunknown : ¬ linkedTwice.memo.Knows (single 0) :=
    fun ⟨cell, _, hknown⟩ => linkedTwice_unknown cell hknown
  have hsource : (single 0).HasSource := trivial
  rw [hfirst]
  exact ((filling hsource (List.nodup_singleton 0) rfl).alone rfl hunknown).1

/-- One more element behind the first of these versions. -/
def snoced : Sequence Nat := (((single 0).snoc 5).run 9).1

theorem snoced_fills :
    (linkedTwice.move (.perform (.snoc 0 5))).memo.Fills [snoced, single 0]
      (linkedTwice.moves [.perform (.snoc 0 5), .perform (.uncons 9)]).memo := by
  have hempty : ∀ cell, ¬ ((linkedTwice.move (.perform (.snoc 0 5))).memo.tail? cell).isSome :=
    linkedTwice_unknown
  have hunknown : ∀ i, ¬ (linkedTwice.move (.perform (.snoc 0 5))).memo.Knows (snoced.ascend i) :=
    fun i ⟨cell, _, hknown⟩ => hempty cell hknown
  have hversion : (linkedTwice.move (.perform (.snoc 0 5))).versions[9]? = some snoced := rfl
  obtain ⟨rest, hsplit⟩ := Stock.exists_uncons hversion
  have hnodup : snoced.chain.Nodup := by
    change [10, 0].Nodup
    decide
  have hmoves : linkedTwice.moves [.perform (.snoc 0 5), .perform (.uncons 9)]
      = (linkedTwice.move (.perform (.snoc 0 5))).move (.perform (.uncons 9)) := rfl
  have hsource : snoced.HasSource := rfl
  rw [hmoves, hsplit]
  exact ((filling hsource hnodup rfl).source (single 0) _ rfl hunknown).1

/-- The tail of the first version is known, so the split of a sequence two links away fills its own
cell and that of its source, and collapses nothing.  With no tail known, what `snoc` makes of the
first version is split: then each sequence one link away is split by one link. -/
theorem twoAway_filled :
    let after := ((twoAway 1 2 5).uncons.run firstKnown.memo).2
    (firstKnown.memo.Fills [twoAway 1 2 5, oneAway 1 5] after ∧
      after.HoldsLink (twoAway 1 2 5) ∧ after.HoldsLink (oneAway 1 5) ∧
      after.collapses = firstKnown.memo.collapses) ∧
    let split := linkedTwice.moves [.perform (.snoc 0 5), .perform (.uncons 9)]
    split.memo.Knows (single 0) ∧ SplitsByLink split.memo (oneAway 3 7) := by
  refine ⟨?_, ?_⟩
  · obtain ⟨hfill, -⟩ := splits_fill_cells (linkings ++ [Move.perform (.uncons 0)])
    have has : firstKnown.Has (twoAway 1 2 5) := by
      obtain ⟨rest, hfirst⟩ := exists_firstKnown
      refine .version ?_
      rw [hfirst, linkedTwice_eq]
      simp
    have hnearest : firstKnown.memo.NearestAt (twoAway 1 2 5) 2 := by
      refine ⟨firstKnown_fills.filled (single 0) List.mem_cons_self, ?_⟩
      have hunknown : ∀ cell, cell ≠ 0 → ¬ (firstKnown.memo.tail? cell).isSome := by
        intro cell hcell
        rw [firstKnown_fills.others cell (by simpa [single, cell?] using hcell.symm)]
        exact linkedTwice_unknown cell
      intro i hi
      obtain rfl | rfl : i = 0 ∨ i = 1 := by omega
      · rw [Memo.knows_iff rfl]
        exact hunknown 6 (by decide)
      · rw [Memo.knows_iff rfl]
        exact hunknown 5 (by decide)
    obtain ⟨hfills, hlinks, hcollapses⟩ := (hfill _ has rfl).1.nearest 1 hnearest
    exact ⟨hfills, hlinks 0 (by decide), hlinks 1 (by decide), hcollapses⟩
  · obtain ⟨-, hsnoc⟩ := splits_fill_cells linkings
    obtain ⟨hknown, hlater⟩ := hsnoc 0 (single 0) 5 rfl rfl
    refine ⟨hknown, hlater [] (oneAway 3 7) (single 3) rfl ?_⟩
    change ¬ (linkedTwice.moves [.perform (.snoc 0 5), .perform (.uncons 9)]).memo.Knows _
    have hnames : ∀ node ∈ [snoced, single 0], node.cell? ≠ some 7 := by
      change ∀ node ∈ [linked 10 2 0 _ (single 0) _, single 0], node.cell? ≠ some 7
      simp [single, cell?]
    rw [Memo.knows_iff rfl, snoced_fills.others 7 hnames]
    exact linkedTwice_unknown 7

end Sequence

end FreePrograms
