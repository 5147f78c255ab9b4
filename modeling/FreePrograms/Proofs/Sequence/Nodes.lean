/-
# The nodes of sequences, and what is known of them

A node keeps the same thing more than once: its head and its children are those of the sequence that
it was linked from and of the one linked behind, it remembers both of these, and the contents behind
its head may stand in the table of tails as well.  `Sequence.WellFormed` says that all of this fits
together for one node.

A `Stock` is all versions that there are, with the table that they share.  A `Move` is an operation
on versions, or the splitting of one that is given up, whoever else has its node.
`stock_wellFormed` says that after any moves every node that the stock has is well formed: the nodes
of versions, of what they are made of, and of known tails.  And what is known once stays as it is
under every further move, for the table is only ever written where nothing is written yet
(`Splitting.Keeps`).
-/
import FreePrograms.Proofs.Sequence.History

namespace FreePrograms

variable {α β γ : Type}

namespace Sequence

/-! ## 1. One node -/

/-- What a node keeps more than once fits together. -/
structure WellFormed (memo : Memo α) (node : Sequence α) : Prop where
  /-- No child is empty. -/
  children_nonempty : ∀ child ∈ node.children.toList, child.isEmpty = false
  /-- What no link made has no children. -/
  children_of_root : node.origin? = none → node.children.toList = []
  /-- Head and children are those of the operands, and neither operand is empty. -/
  of_operands : ∀ source other, node.origin? = some (source, other) →
    source.isEmpty = false ∧ other.isEmpty = false ∧ node.first? = source.first? ∧
      node.children.toList = source.children.toList ++ [other]
  /-- As many steps as there are children lead from source to source to a node that no link made. -/
  ascent_ends : (node.ascend node.children.toList.length).origin? = none ∧
    (node.ascend node.children.toList.length).isEmpty = node.isEmpty
  /-- A known tail holds what the children hold, in their order. -/
  known_tail : ∀ cell tail, node.cell? = some cell → memo.tail? cell = some tail →
    tail.toList = node.children.toList.flatMap toList

section Sound

variable {ledger : Ledger α} {node : Sequence α}

theorem isEmpty_of_first? {head : α} (h : node.first? = some head) : node.isEmpty = false := by
  cases node with
  | empty => cases h
  | root => rfl
  | linked => rfl

theorem isEmpty_of_cell? {cell : Cell} (h : node.cell? = some cell) : node.isEmpty = false := by
  cases node with
  | empty => cases h
  | root => rfl
  | linked => rfl

theorem exists_first? (h : node.isEmpty = false) : ∃ head, node.first? = some head := by
  cases node with
  | empty => cases h
  | root _ head _ => exact ⟨head, rfl⟩
  | linked _ _ head _ _ _ => exact ⟨head, rfl⟩

theorem Sound.children_nonempty (hs : node.Sound ledger) :
    ∀ child ∈ node.children.toList, child.isEmpty = false := by
  induction hs with
  | empty => simp [Sequence.children]
  | root entry => simp [Sequence.children]
  | linked _ _ _ other_nonempty _ source_ih _ =>
    intro child hchild
    simp only [Sequence.children, Queue.toList_push, List.mem_append, List.mem_singleton] at hchild
    rcases hchild with hchild | rfl
    · exact source_ih child hchild
    · exact other_nonempty

theorem Sound.ascent_ends (hs : node.Sound ledger) :
    (node.ascend node.children.toList.length).origin? = none ∧
      (node.ascend node.children.toList.length).isEmpty = node.isEmpty := by
  induction hs with
  | empty => exact ⟨rfl, rfl⟩
  | root entry => exact ⟨rfl, rfl⟩
  | @linked cell head source other _ _ head_eq _ _ source_ih _ =>
    -- one child more, and one step more
    have hlength : (Sequence.linked cell (source.length + other.length) head
        (source.children.push other) source other).children.toList.length
          = source.children.toList.length + 1 := by
      change (source.children.push other).toList.length = _
      rw [Queue.toList_push, List.length_append, List.length_singleton]
    rw [hlength]
    exact ⟨source_ih.1, source_ih.2.trans (isEmpty_of_first? head_eq)⟩

/-- **A sound node is well formed**, with every table that fits the ledger. -/
theorem Sound.wellFormed {memo : Memo α} (hmemo : memo.Agrees ledger) (hs : node.Sound ledger) :
    node.WellFormed memo where
  children_nonempty := hs.children_nonempty
  children_of_root := by
    intro horigin
    cases hs with
    | empty => rfl
    | root entry => rfl
    | linked => cases horigin
  of_operands := by
    intro source other horigin
    cases hs with
    | empty => cases horigin
    | root entry => cases horigin
    | linked _ _ head_eq other_nonempty _ =>
      cases horigin
      exact ⟨isEmpty_of_first? head_eq, other_nonempty, head_eq.symm,
        Queue.toList_push source.children other⟩
  ascent_ends := hs.ascent_ends
  known_tail := by
    intro cell tail hcell htail
    rw [(known_tail hmemo hs hcell htail).2, behind, contents_eq]

/-- The operands of a sound node are sound. -/
theorem Sound.operands (hs : node.Sound ledger) {source other : Sequence α}
    (h : node.origin? = some (source, other)) : source.Sound ledger ∧ other.Sound ledger := by
  cases hs with
  | empty => cases h
  | root entry => cases h
  | linked source_sound other_sound _ _ _ =>
    cases h
    exact ⟨source_sound, other_sound⟩

end Sound

end Sequence

/-! ## 2. What is known stays known -/

/-- The steps leave every tail that is known as it is. -/
def Splitting.Keeps (steps : Splitting α β) : Prop :=
  ∀ memo cell tail, memo.tail? cell = some tail → (steps.run memo).2.tail? cell = some tail

namespace Splitting.Keeps

theorem pure (b : β) : Splitting.Keeps (Pure.pure b : Splitting α β) := fun _ _ _ h => h

theorem bind {steps : Splitting α β} {next : β → Splitting α γ} (h : Splitting.Keeps steps)
    (hnext : ∀ b, Splitting.Keeps (next b)) : Splitting.Keeps (steps >>= next) :=
  fun memo cell tail ht => hnext _ _ cell tail (h memo cell tail ht)

theorem get : Splitting.Keeps (MonadState.get : Splitting α (Memo α)) := fun _ _ _ h => h

theorem naming (steps : Naming β) : Splitting.Keeps (Memo.naming steps : Splitting α β) :=
  fun _ _ _ h => h

theorem noteCollapse : Splitting.Keeps (Memo.noteCollapse : Splitting α Unit) := fun _ _ _ h => h

/-- **A tail is written only where none is known.** -/
theorem record (cell : Cell) (tail : Sequence α) : Splitting.Keeps (Memo.record cell tail) := by
  intro memo c t ht
  have hknown : c ∈ memo.tails := (Std.HashMap.getElem?_eq_some_iff.mp ht).1
  simp only [Memo.tail?, Memo.record, StateT.run, Std.HashMap.getElem?_insertIfNew]
  rw [if_neg]
  · exact ht
  · rintro ⟨hc, hunknown⟩
    exact hunknown ((beq_iff_eq.mp hc) ▸ hknown)

theorem replay (below : List (Cell × Sequence α)) (tail : Sequence α) :
    Splitting.Keeps (Memo.replay below tail) := by
  induction below generalizing tail with
  | nil => exact pure tail
  | cons link below ih =>
    obtain ⟨cell, other⟩ := link
    exact (naming (tail.link other)).bind fun tail => (record cell tail).bind fun _ => ih tail

end Splitting.Keeps

namespace Sequence

open Splitting (Keeps)

theorem collapse_keeps (children : Queue (Sequence α)) : Keeps (collapse children) :=
  Keeps.noteCollapse.bind fun _ => Keeps.naming (children.foldrM link empty)

theorem collapseAt_keeps (cell : Cell) (children : Queue (Sequence α)) :
    Keeps (collapseAt cell children) :=
  (collapse_keeps children).bind fun tail => (Keeps.record cell tail).bind fun _ => .pure tail

theorem rest_keeps (sequence : Sequence α) : Keeps sequence.rest := by
  cases sequence with
  | empty => exact .pure empty
  | root cell head children => exact collapse_keeps children
  | linked cell n head children source other =>
    rw [rest]
    split
    · exact collapse_keeps children
    · next name _ =>
      refine Keeps.get.bind fun memo => ?_
      dsimp only
      split
      · next tail below _ => exact (Keeps.replay below tail).bind fun tail => .naming _
      · exact (collapseAt_keeps name source.children).bind fun tail => .naming _

theorem tail_keeps (sequence : Sequence α) (cell : Cell) : Keeps (sequence.tail cell) := by
  refine Keeps.get.bind fun memo => ?_
  split
  · exact .pure _
  · exact (rest_keeps sequence).bind fun tail => (Keeps.record cell tail).bind fun _ => .pure tail

theorem tailUnwritten_keeps (sequence : Sequence α) (cell : Cell) :
    Keeps (sequence.tailUnwritten cell) := by
  refine Keeps.get.bind fun memo => ?_
  split
  · exact .pure _
  · exact rest_keeps sequence

theorem uncons_keeps (sequence : Sequence α) : Keeps sequence.uncons := by
  cases sequence with
  | empty => exact .pure none
  | root cell head children => exact (tail_keeps _ cell).bind fun _ => .pure _
  | linked cell n head children source other => exact (tail_keeps _ cell).bind fun _ => .pure _

theorem pop_keeps (ownership : Ownership) (sequence : Sequence α) :
    Keeps (sequence.pop ownership) := by
  cases ownership with
  | shared => exact uncons_keeps sequence
  | unique =>
    cases sequence with
    | empty => exact .pure none
    | root cell head children => exact (tailUnwritten_keeps _ cell).bind fun _ => .pure _
    | linked cell n head children source other =>
      exact (tailUnwritten_keeps _ cell).bind fun _ => .pure _

theorem drain_keeps (n : Nat) (sequence : Sequence α) (out : Array α) :
    Keeps (sequence.drain n out) := by
  induction n generalizing sequence out with
  | zero => exact .pure (out, sequence)
  | succ n ih =>
    refine (uncons_keeps sequence).bind fun popped => ?_
    cases popped with
    | none => exact .pure (out, sequence)
    | some popped => exact ih popped.2 (out.push popped.1)

theorem agree_keeps [BEq α] (n : Nat) (left right : Sequence α) : Keeps (agree n left right) := by
  induction n generalizing left right with
  | zero => exact .pure true
  | succ n ih =>
    refine (uncons_keeps left).bind fun first => (uncons_keeps right).bind fun second => ?_
    split
    · exact .pure true
    · split
      · exact ih _ _
      · exact .pure false
    · exact .pure false

/-! ## 3. A stock of versions -/

/-- What can be done to versions: an operation on them, or to split one that is given up, so that
the others take its place. -/
inductive Move (α : Type) where
  | perform (operation : Operation α)
  | pop (place : Nat) (ownership : Ownership)

/-- The versions after a move. -/
def Move.carryOut [BEq α] (versions : List (Sequence α)) :
    Move α → Splitting α (List (Sequence α))
  | .perform operation => do return (← sequences.perform versions operation).2
  | .pop place ownership =>
    match versions[place]? with
    | none => return versions
    | some version => do
      match ← version.pop ownership with
      | none => return versions.eraseIdx place
      | some (_, rest) => return versions.set place rest

/-- All versions that there are, and the table that they share. -/
structure Stock (α : Type) where
  versions : List (Sequence α)
  memo : Memo α

namespace Stock

/-- No version, and nothing is known. -/
def empty : Stock α := ⟨[], .empty⟩

/-- The stock after a move. -/
def move [BEq α] (stock : Stock α) (move : Move α) : Stock α :=
  let (versions, memo) := (move.carryOut stock.versions).run stock.memo
  ⟨versions, memo⟩

/-- The stock after the moves, one after the other. -/
def moves [BEq α] (stock : Stock α) (moves : List (Move α)) : Stock α := moves.foldl move stock

/-- The nodes that a stock has: those of the versions and of the known tails, and all that these are
made of. -/
inductive Has (stock : Stock α) : Sequence α → Prop
  | version {node : Sequence α} (h : node ∈ stock.versions) : Has stock node
  | known {cell : Cell} {tail : Sequence α} (h : stock.memo.tail? cell = some tail) : Has stock tail
  | child {node child : Sequence α} (h : Has stock node) (hc : child ∈ node.children.toList) :
    Has stock child
  | source {node source other : Sequence α} (h : Has stock node)
    (ho : node.origin? = some (source, other)) : Has stock source
  | other {node source other : Sequence α} (h : Has stock node)
    (ho : node.origin? = some (source, other)) : Has stock other

/-- All versions are sound, and the table fits. -/
structure Sound (ledger : Ledger α) (stock : Stock α) : Prop where
  versions : ∀ version ∈ stock.versions, version.Sound ledger
  agrees : stock.memo.Agrees ledger

theorem Sound.node {ledger : Ledger α} {stock : Stock α} (hs : stock.Sound ledger)
    {node : Sequence α} (h : stock.Has node) : node.Sound ledger := by
  induction h with
  | version h => exact hs.versions _ h
  | known h => exact hs.agrees.tail_sound h
  | child _ hc ih => exact ih.children _ hc
  | source _ ho ih => exact (ih.operands ho).1
  | other _ ho ih => exact (ih.operands ho).2

end Stock

/-! ## 4. Every move -/

section Moves

variable [BEq α] {ledger : Ledger α}

/-- **A move leaves sound versions**, and a table that fits. -/
theorem Move.carryOut_ensures {versions : List (Sequence α)}
    (hversions : ∀ version ∈ versions, version.Sound ledger) (move : Move α) :
    Splitting.Ensures ledger (move.carryOut versions) fun later made =>
      ∀ version ∈ made, version.Sound later := by
  cases move with
  | perform operation =>
    have hold : Hold ledger versions (versions.map toList) := ⟨rfl, hversions⟩
    refine (perform_follows hold operation).bind ?_
    rintro later made - ⟨-, hmade⟩
    exact .pure hmade.2
  | pop place ownership =>
    rw [carryOut]
    split
    · exact .pure hversions
    · next version hversion =>
      have hsound := hversions version (List.mem_of_getElem? hversion)
      refine (pop_ensures hsound ownership).bind fun later popped hlater hpopped => ?_
      have hothers : ∀ other ∈ versions, other.Sound later :=
        fun other hother => (hversions other hother).mono hlater
      generalize version.toList = contents at hpopped
      cases hpopped with
      | nil => exact .pure fun other hother => hothers other (List.mem_of_mem_eraseIdx hother)
      | cons head sound =>
        refine .pure fun other hother => ?_
        rcases List.mem_or_eq_of_mem_set hother with hother | rfl
        · exact hothers other hother
        · exact sound

theorem Stock.Sound.move {stock : Stock α} (hs : stock.Sound ledger) (move : Move α) :
    ∃ later, (stock.move move).Sound later := by
  obtain ⟨later, -, hagrees, hmade⟩ := move.carryOut_ensures hs.versions stock.memo hs.agrees
  exact ⟨later, hmade, hagrees⟩

theorem Stock.Sound.moves (moves : List (Move α)) {stock : Stock α} (hs : stock.Sound ledger) :
    ∃ later, (stock.moves moves).Sound later := by
  induction moves generalizing stock ledger with
  | nil => exact ⟨ledger, hs⟩
  | cons move moves ih =>
    obtain ⟨later, hlater⟩ := hs.move move
    exact ih hlater

/-- An operation of the kit keeps what is known. -/
theorem perform_keeps (versions : List (Sequence α)) (operation : Operation α) :
    Keeps (sequences.perform versions operation) := by
  have hadd : ∀ {made : Splitting α (Sequence α)}, Keeps made →
      Keeps (Kit.add versions made : Splitting α (Answer α × List (Sequence α))) :=
    fun hmade => hmade.bind fun _ => .pure _
  cases operation with
  | new => exact hadd (.pure _)
  | singleton a => exact hadd (.naming _)
  | ofList elements => exact hadd (.naming _)
  | snoc place a =>
    rw [Kit.perform]
    split
    · exact .pure _
    · exact hadd (.naming _)
  | link source other =>
    rw [Kit.perform]
    split
    · exact hadd (.naming _)
    · exact .pure _
  | uncons place =>
    rw [Kit.perform]
    split
    · exact .pure _
    · next version _ =>
      refine (uncons_keeps version).bind fun popped => ?_
      cases popped with
      | none => exact .pure _
      | some popped => exact .pure _
  | clone place =>
    rw [Kit.perform]
    split
    · exact .pure _
    · exact hadd (.pure _)
  | drop place => exact .pure _
  | first place =>
    rw [Kit.perform]
    split
    · exact .pure _
    · exact .pure _
  | isEmpty place =>
    rw [Kit.perform]
    split
    · exact .pure _
    · exact .pure _
  | iterate place n =>
    rw [Kit.perform]
    split
    · exact .pure _
    · next version _ =>
      have hwalk : Keeps (sequences.iterate version n) :=
        (drain_keeps n version #[]).bind fun _ => .pure _
      exact hwalk.bind fun _ => .pure _
  | same left right =>
    rw [Kit.perform]
    split
    · exact (agree_keeps _ _ _).bind fun _ => .pure _
    · exact .pure _

theorem Move.carryOut_keeps (versions : List (Sequence α)) (move : Move α) :
    Keeps (move.carryOut versions) := by
  cases move with
  | perform operation => exact (perform_keeps versions operation).bind fun _ => .pure _
  | pop place ownership =>
    rw [carryOut]
    split
    · exact .pure _
    · next version _ =>
      refine (pop_keeps ownership version).bind fun popped => ?_
      cases popped with
      | none => exact .pure _
      | some popped => exact .pure _

theorem Stock.tail?_moves (moves : List (Move α)) {stock : Stock α} {cell : Cell}
    {tail : Sequence α} (h : stock.memo.tail? cell = some tail) :
    (stock.moves moves).memo.tail? cell = some tail := by
  induction moves generalizing stock with
  | nil => exact h
  | cons move moves ih =>
    exact ih (Move.carryOut_keeps stock.versions move stock.memo cell tail h)

/-- **Every node of every stock is well formed, and what is known stays.**  After any moves,
beginning with no version, each node that the stock has keeps the same thing wherever it keeps it
twice; and no further moves change a tail that is known. -/
theorem stock_wellFormed (moves : List (Move α)) :
    (∀ node, (Stock.empty.moves moves).Has node →
      node.WellFormed (Stock.empty.moves moves).memo) ∧
    ∀ (further : List (Move α)) cell tail,
      (Stock.empty.moves moves).memo.tail? cell = some tail →
        ((Stock.empty.moves moves).moves further).memo.tail? cell = some tail := by
  have hempty : (Stock.empty : Stock α).Sound [] := ⟨by simp [Stock.empty], Memo.agrees_empty⟩
  obtain ⟨ledger, hsound⟩ := hempty.moves moves
  refine ⟨?_, ?_⟩
  · intro node hnode
    exact (hsound.node hnode).wellFormed hsound.agrees
  · intro further cell tail htail
    exact Stock.tail?_moves further htail

end Moves

end Sequence

end FreePrograms
