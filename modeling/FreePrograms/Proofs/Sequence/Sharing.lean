/-
# What a split writes, and who shares a collapse

A split of a node writes tails along its chain of sources and nowhere else.  `Splitting.Writes` says
of steps, begun with a given table, under which names they leave a tail that was not there before,
and how many queues of children they collapse.  For a split these names are a function of the table
(`Sequence.written`), and a queue is collapsed exactly if no tail is known along the chain
(`Sequence.uncons_writes`).

Two sequences that were derived from one by links have the chain of that one in common, so the
second split can profit from what the first one wrote.  But the first one collapses its *immediate*
source.  That is what both have in common only if the first is one link away from it and had no tail
of its own; `collapses_shared_iff` says exactly when the second split collapses nothing, and
`twoAway_collapse_twice` is a case in which it collapses another queue.
-/
import FreePrograms.Proofs.Sequence.Nodes

namespace FreePrograms

variable {α β γ : Type}

/-! ## 1. The names along a chain -/

namespace Sequence

/-- The names of the nodes on the chain of sources, from the node itself on. -/
def chain : Sequence α → List Cell
  | empty => []
  | root cell _ _ => [cell]
  | linked cell _ _ _ source _ => cell :: source.chain

/-- The sequence was derived from another one by links, which made the nodes of the given names,
the latest first. -/
inductive Derived (base : Sequence α) : List Cell → Sequence α → Prop
  | base : Derived base [] base
  | link {made : List Cell} {cell : Cell} {length : Nat} {head : α}
    {children : Queue (Sequence α)} {source other : Sequence α}
    (before : Derived base made source) :
    Derived base (cell :: made) (linked cell length head children source other)

theorem Derived.chain_eq {base sequence : Sequence α} {made : List Cell}
    (h : Derived base made sequence) : sequence.chain = made ++ base.chain := by
  induction h with
  | base => rfl
  | link before ih =>
    rw [chain, ih]
    rfl

/-- What was derived by links is not empty. -/
theorem Derived.isEmpty {base sequence : Sequence α} {made : List Cell}
    (h : Derived base made sequence) (hmade : made ≠ []) : sequence.isEmpty = false := by
  cases h with
  | base => exact absurd rfl hmade
  | link => rfl

/-- A node that there is has a name, which is on its chain. -/
theorem exists_cell {sequence : Sequence α} (h : sequence.isEmpty = false) :
    ∃ cell, sequence.cell? = some cell ∧ cell ∈ sequence.chain := by
  cases sequence with
  | empty => cases h
  | root cell head children => exact ⟨cell, rfl, List.mem_cons_self⟩
  | linked cell n head children source other => exact ⟨cell, rfl, List.mem_cons_self⟩

/-- To link two sequences that are not empty is to derive one. -/
theorem Derived.run_link {base source other : Sequence α} {made : List Cell}
    (h : Derived base made source) (hsource : source.isEmpty = false)
    (hother : other.isEmpty = false) (next : Cell) :
    Derived base (next :: made) ((source.link other).run next).1 := by
  obtain ⟨head, hhead⟩ := exists_first? hsource
  rw [Sequence.link, hhead, hother]
  exact .link h

/-- The contents behind the head of a node on the chain are no more than those of the node. -/
theorem Sound.length_entry_le {ledger : Ledger α} {sequence : Sequence α}
    (hs : sequence.Sound ledger) {cell : Cell} (hc : cell ∈ sequence.chain) :
    ∃ entry, ledger[cell]? = some entry ∧ entry.length ≤ sequence.behind.length := by
  induction hs with
  | empty => cases hc
  | root entry =>
    obtain rfl := List.mem_singleton.mp hc
    exact ⟨[], entry, Nat.zero_le _⟩
  | linked _ _ _ _ entry source_ih _ =>
    rw [behind_linked]
    rcases List.mem_cons.mp hc with rfl | hc
    · exact ⟨_, entry, Nat.le_refl _⟩
    · obtain ⟨passed, hpassed, hle⟩ := source_ih hc
      refine ⟨passed, hpassed, ?_⟩
      rw [List.length_append]
      omega

/-- **No name comes twice on a chain**: each node has more behind its head than its source. -/
theorem Sound.chain_nodup {ledger : Ledger α} {sequence : Sequence α} (hs : sequence.Sound ledger) :
    sequence.chain.Nodup := by
  induction hs with
  | empty => exact List.nodup_nil
  | root entry => exact by simp [chain]
  | linked source_sound _ _ other_nonempty entry source_ih _ =>
    refine List.nodup_cons.mpr ⟨fun hc => ?_, source_ih⟩
    obtain ⟨passed, hpassed, hle⟩ := source_sound.length_entry_le hc
    obtain rfl := Option.some.inj (entry.symm.trans hpassed)
    rw [isEmpty_eq, List.isEmpty_eq_false_iff, ← List.length_pos_iff] at other_nonempty
    rw [List.length_append] at hle
    omega

end Sequence

/-- Some tail is known on the chain of sources. -/
def Memo.KnowsOn (memo : Memo α) (sequence : Sequence α) : Prop :=
  ∃ cell ∈ sequence.chain, (memo.tail? cell).isSome

/-- The tail of the node is known. -/
def Memo.Knows (memo : Memo α) (sequence : Sequence α) : Prop :=
  ∃ cell, sequence.cell? = some cell ∧ (memo.tail? cell).isSome

/-- The search finds nothing exactly where nothing is known. -/
theorem Memo.nearest_eq_none_iff {memo : Memo α} {sequence : Sequence α}
    {below : List (Cell × Sequence α)} :
    memo.nearest sequence below = none ↔ ¬ memo.KnowsOn sequence := by
  fun_induction Memo.nearest memo sequence below with
  | case1 => simp [KnowsOn, Sequence.chain]
  | case2 => simp [KnowsOn, Sequence.chain]
  | case3 _ _ _ _ _ _ _ tail ht => simp [KnowsOn, Sequence.chain, ht]
  | case4 _ _ _ _ _ _ _ ht ih =>
    rw [ih]
    simp [KnowsOn, Sequence.chain, ht]

theorem Memo.knowsOn_of_nearest {memo : Memo α} {sequence : Sequence α}
    {below : List (Cell × Sequence α)} {found : Sequence α × List (Cell × Sequence α)}
    (h : memo.nearest sequence below = some found) : memo.KnowsOn sequence := by
  refine Classical.byContradiction fun hnone => ?_
  rw [Memo.nearest_eq_none_iff.mpr hnone] at h
  cases h

/-- **The search passes the names before the first one that is known**, and they are to be replayed
from the far end on. -/
theorem Memo.nearest_eq_some {memo : Memo α} {sequence tail : Sequence α}
    {below found : List (Cell × Sequence α)}
    (h : memo.nearest sequence below = some (tail, found)) :
    ∃ passed cell farther, sequence.chain = passed ++ cell :: farther ∧
      (∀ name ∈ passed, memo.tail? name = none) ∧ memo.tail? cell = some tail ∧
      found.map Prod.fst = passed.reverse ++ below.map Prod.fst := by
  fun_induction Memo.nearest memo sequence below with
  | case1 => cases h
  | case2 cell =>
    obtain ⟨known, ht, heq⟩ := Option.map_eq_some_iff.mp h
    cases heq
    exact ⟨[], cell, [], rfl, by simp, ht, rfl⟩
  | case3 cell _ _ _ source _ _ known ht =>
    cases h
    exact ⟨[], cell, source.chain, rfl, by simp, ht, rfl⟩
  | case4 cell _ _ _ _ _ _ ht ih =>
    obtain ⟨passed, known, farther, hchain, hpassed, hknown, hfound⟩ := ih h
    refine ⟨cell :: passed, known, farther, ?_, ?_, hknown, ?_⟩
    · rw [Sequence.chain, hchain, List.cons_append]
    · intro name hname
      rcases List.mem_cons.mp hname with rfl | hname
      · exact ht
      · exact hpassed name hname
    · rw [hfound]
      simp

/-! ## 2. Steps and what they write -/

/-- The steps, begun with this table, leave tails under the given names that had none, change no
other entry, and collapse so many queues of children. -/
structure Splitting.Writes (memo : Memo α) (steps : Splitting α β) (names : List Cell)
    (collapses : Nat) : Prop where
  keeps : Splitting.Keeps steps
  known : ∀ cell ∈ names, ((steps.run memo).2.tail? cell).isSome
  others : ∀ cell, cell ∉ names → (steps.run memo).2.tail? cell = memo.tail? cell
  collapses_eq : (steps.run memo).2.collapses = memo.collapses + collapses

namespace Splitting.Writes

variable {memo : Memo α} {steps : Splitting α β} {names : List Cell} {collapses : Nat}

theorem pure (b : β) : Splitting.Writes memo (Pure.pure b) [] 0 where
  keeps := .pure b
  known := by simp
  others _ _ := rfl
  collapses_eq := rfl

theorem bind {next : β → Splitting α γ} {names' : List Cell} {collapses' : Nat}
    (h : Splitting.Writes memo steps names collapses)
    (hnext : ∀ later b, Splitting.Writes later (next b) names' collapses') :
    Splitting.Writes memo (steps >>= next) (names ++ names') (collapses + collapses') := by
  have hrest := hnext (steps.run memo).2 (steps.run memo).1
  refine ⟨h.keeps.bind fun b => (hnext memo b).keeps, ?_, ?_, ?_⟩
  · intro cell hcell
    rcases List.mem_append.mp hcell with hcell | hcell
    · obtain ⟨tail, htail⟩ := Option.isSome_iff_exists.mp (h.known cell hcell)
      exact Option.isSome_iff_exists.mpr ⟨tail, hrest.keeps _ cell tail htail⟩
    · exact hrest.known cell hcell
  · intro cell hcell
    rw [List.mem_append, not_or] at hcell
    exact (hrest.others cell hcell.2).trans (h.others cell hcell.1)
  · have hcount := hrest.collapses_eq
    rw [h.collapses_eq, Nat.add_assoc] at hcount
    exact hcount

/-- Steps may depend on the table, which is the one that they begin with. -/
theorem get {next : Memo α → Splitting α β} (hkeeps : Splitting.Keeps (MonadState.get >>= next))
    (h : Splitting.Writes memo (next memo) names collapses) :
    Splitting.Writes memo (MonadState.get >>= next) names collapses :=
  ⟨hkeeps, h.known, h.others, h.collapses_eq⟩

/-- What is made of the value at once writes nothing. -/
theorem map {f : β → γ} (h : Splitting.Writes memo steps names collapses) :
    Splitting.Writes memo (do return f (← steps)) names collapses :=
  ⟨h.keeps.bind fun _ => .pure _, h.known, h.others, h.collapses_eq⟩

theorem naming (steps : Naming β) : Splitting.Writes memo (Memo.naming steps) [] 0 where
  keeps := .naming steps
  known := by simp
  others _ _ := rfl
  collapses_eq := rfl

theorem noteCollapse : Splitting.Writes memo (Memo.noteCollapse : Splitting α Unit) [] 1 where
  keeps := .noteCollapse
  known := by simp
  others _ _ := rfl
  collapses_eq := rfl

theorem record (cell : Cell) (tail : Sequence α) :
    Splitting.Writes memo (Memo.record cell tail) [cell] 0 where
  keeps := .record cell tail
  known := by
    intro name hname
    obtain rfl := List.mem_singleton.mp hname
    simp only [Memo.tail?, Memo.record, StateT.run, Std.HashMap.getElem?_insertIfNew]
    split
    · rfl
    · next h =>
      have hmem : name ∈ memo.tails := by simpa using h
      rw [Std.HashMap.getElem?_eq_some_getElem hmem]
      rfl
  others := by
    intro name hname
    rw [List.mem_singleton] at hname
    simp only [Memo.tail?, Memo.record, StateT.run, Std.HashMap.getElem?_insertIfNew]
    rw [if_neg]
    rintro ⟨heq, -⟩
    exact hname (LawfulBEq.eq_of_beq heq).symm
  collapses_eq := rfl

theorem replay (below : List (Cell × Sequence α)) (tail : Sequence α) (memo : Memo α) :
    Splitting.Writes memo (Memo.replay below tail) (below.map Prod.fst) 0 := by
  induction below generalizing tail memo with
  | nil => exact .pure tail
  | cons link below ih =>
    obtain ⟨cell, other⟩ := link
    exact (naming (tail.link other)).bind fun _ longer =>
      (record cell longer).bind fun later _ => ih longer later

end Splitting.Writes

/-! ## 3. One split -/

namespace Sequence

open Splitting (Keeps Writes)

variable {memo : Memo α}

theorem collapse_writes (children : Queue (Sequence α)) : Writes memo (collapse children) [] 1 :=
  Writes.noteCollapse.bind fun _ _ => .naming _

theorem collapseAt_writes (cell : Cell) (children : Queue (Sequence α)) :
    Writes memo (collapseAt cell children) [cell] 1 :=
  (collapse_writes children).bind fun _ tail => (Writes.record cell tail).map

/-- What is linked behind a tail writes nothing more. -/
theorem link_behind_writes {steps : Splitting α (Sequence α)} {names : List Cell} {collapses : Nat}
    (h : Writes memo steps names collapses) (other : Sequence α) :
    Writes memo (do Memo.naming ((← steps).link other)) names collapses := by
  have hlinked := h.bind fun _ tail => .naming (tail.link other)
  rw [List.append_nil] at hlinked
  exact hlinked

/-- The names under which the search for the tail of a node writes on its way: those passed before
the nearest known tail, or that of the immediate source. -/
def passed (memo : Memo α) (source : Sequence α) : List Cell :=
  match memo.nearest source [] with
  | some (_, below) => below.map Prod.fst
  | none => source.cell?.toList

/-- The names under which a split writes: none if the tail of the node is known, and otherwise those
that the search for it writes, and the name of the node. -/
def written (memo : Memo α) : Sequence α → List Cell
  | empty => []
  | root cell _ _ => if (memo.tail? cell).isSome then [] else [cell]
  | linked cell _ _ _ source _ =>
    if (memo.tail? cell).isSome then [] else passed memo source ++ [cell]

/-- How many queues of children a split collapses: one, unless a tail is known on the chain. -/
def collapsed (memo : Memo α) (sequence : Sequence α) : Nat :=
  if (memo.nearest sequence []).isSome then 0 else 1

theorem collapsed_eq_zero_iff {sequence : Sequence α} :
    collapsed memo sequence = 0 ↔ memo.KnowsOn sequence := by
  have hnone : memo.nearest sequence [] = none ↔ _ := Memo.nearest_eq_none_iff
  rw [collapsed]
  cases hnearest : memo.nearest sequence [] with
  | none => simp [hnone.mp hnearest]
  | some found => simpa [hnearest] using hnone

theorem collapsed_le (memo : Memo α) (sequence : Sequence α) : collapsed memo sequence ≤ 1 := by
  rw [collapsed]
  split <;> omega

section Linked

variable {cell : Cell} {n : Nat} {head : α} {children : Queue (Sequence α)}
  {source other : Sequence α}

theorem knowsOn_linked_iff : memo.KnowsOn (linked cell n head children source other) ↔
    (memo.tail? cell).isSome ∨ memo.KnowsOn source := by
  simp [Memo.KnowsOn, chain]

theorem collapsed_linked (hc : memo.tail? cell = none) :
    collapsed memo (linked cell n head children source other) = collapsed memo source := by
  have hiff : collapsed memo (linked cell n head children source other) = 0
      ↔ collapsed memo source = 0 := by
    rw [collapsed_eq_zero_iff, collapsed_eq_zero_iff, knowsOn_linked_iff, hc]
    simp
  have hlinked := collapsed_le memo (linked cell n head children source other)
  have hsource := collapsed_le memo source
  omega

/-- **The tail of a node that is not known**: it comes from the nearest tail that is known, or from
the children of the immediate source. -/
theorem rest_writes (hne : source.isEmpty = false) :
    Writes memo (linked cell n head children source other).rest (passed memo source)
      (collapsed memo source) := by
  have hkeeps := rest_keeps (linked cell n head children source other)
  rw [rest] at hkeeps ⊢
  split
  · next hname => cases source <;> simp [cell?, isEmpty] at hname hne
  · next name hname =>
    rw [hname] at hkeeps
    refine .get hkeeps ?_
    dsimp only
    rw [passed, collapsed]
    cases hnearest : memo.nearest source [] with
    | some found =>
      obtain ⟨tail, below⟩ := found
      exact link_behind_writes (.replay below tail memo) other
    | none =>
      rw [hname]
      exact link_behind_writes (collapseAt_writes name source.children) other

end Linked

/-- Sources of links are not empty, as `link` makes them. -/
def HasSource : Sequence α → Prop
  | linked _ _ _ _ source _ => source.isEmpty = false
  | empty | root .. => True

/-- The tail of a node, known or written now. -/
theorem tail_writes {sequence : Sequence α} {cell : Cell} {names : List Cell}
    (hrest : memo.tail? cell = none → Writes memo sequence.rest names (collapsed memo sequence))
    (hc : sequence.cell? = some cell) :
    Writes memo (sequence.tail cell)
      (if (memo.tail? cell).isSome then [] else names ++ [cell]) (collapsed memo sequence) := by
  have hkeeps := tail_keeps sequence cell
  rw [tail] at hkeeps ⊢
  refine .get hkeeps ?_
  cases hknown : memo.tail? cell with
  | some tail =>
    have hcollapsed : collapsed memo sequence = 0 := by
      refine collapsed_eq_zero_iff.mpr ⟨cell, ?_, by rw [hknown]; rfl⟩
      cases sequence with
      | empty => cases hc
      | root => simpa [chain, cell?, eq_comm] using hc
      | linked => simp [chain, (Option.some.inj hc).symm]
    rw [hcollapsed]
    exact .pure tail
  | none => exact (hrest hknown).bind fun _ tail => (Writes.record cell tail).map

/-- **What a split writes, and whether it collapses**: the names are those of `written`, and one
queue of children is collapsed unless a tail is known on the chain. -/
theorem uncons_writes {sequence : Sequence α} (hs : sequence.HasSource)
    (hne : sequence.isEmpty = false) :
    Writes memo sequence.uncons (written memo sequence) (collapsed memo sequence) := by
  cases sequence with
  | empty => cases hne
  | root cell head children =>
    have hnames : written memo (root cell head children)
        = if (memo.tail? cell).isSome then [] else [] ++ [cell] := rfl
    rw [hnames]
    refine Writes.map (tail_writes (fun hnone => ?_) rfl)
    have hcollapsed : collapsed memo (root cell head children) = 1 := by
      simp [collapsed, Memo.nearest, hnone]
    rw [hcollapsed]
    exact collapse_writes children
  | linked cell n head children source other =>
    refine Writes.map (tail_writes (fun hnone => ?_) rfl)
    rw [collapsed_linked hnone]
    exact rest_writes hs

theorem Sound.hasSource {ledger : Ledger α} {sequence : Sequence α} (hs : sequence.Sound ledger) :
    sequence.HasSource := by
  cases hs with
  | empty => trivial
  | root => trivial
  | linked _ _ head_eq => exact isEmpty_of_first? head_eq

/-! ## 4. Two splits of derived sequences -/

/-- What the search for the tail of a node passes before it comes to a known tail is derived, if no
tail is known farther along. -/
theorem Derived.passed_subset {base source : Sequence α} {made : List Cell}
    (h : Derived base made source) (hmade : made ≠ []) (hbase : ¬ memo.KnowsOn base) :
    ∀ cell ∈ passed memo source, cell ∈ made := by
  intro cell hcell
  rw [passed] at hcell
  cases hnearest : memo.nearest source [] with
  | none =>
    rw [hnearest] at hcell
    cases h with
    | base => exact absurd rfl hmade
    | link => simp_all [cell?]
  | some found =>
    obtain ⟨tail, below⟩ := found
    obtain ⟨before, known, farther, hchain, -, hknown, hbelow⟩ := Memo.nearest_eq_some hnearest
    rw [hnearest] at hcell
    dsimp only at hcell
    rw [hbelow] at hcell
    have hbefore : cell ∈ before := by simpa using hcell
    rw [h.chain_eq] at hchain
    rcases List.append_eq_append_iff.mp hchain with ⟨between, -, hfarther⟩ | ⟨between, heq, -⟩
    · -- The known tail would be farther along.
      exact absurd ⟨known, by rw [hfarther]; simp, by rw [hknown]; rfl⟩ hbase
    · rw [heq]
      exact List.mem_append_left between hbefore

/-- A split of a derived sequence writes no name of the chain of another one, unless it is a name
of the sequence that both were derived from. -/
theorem Derived.written_apart {ledger : Ledger α} {base first second : Sequence α}
    {made made' : List Cell} (hs : first.Sound ledger) (hfirst : Derived base made first)
    (hsecond : Derived base made' second) (apart : ∀ cell ∈ made, cell ∉ made')
    (h : ∀ cell ∈ written memo first, cell ∈ made) :
    ∀ cell ∈ second.chain, cell ∉ written memo first := by
  intro cell hcell hwritten
  have hmade := h cell hwritten
  rw [hsecond.chain_eq] at hcell
  rcases List.mem_append.mp hcell with hcell | hcell
  · exact apart cell hmade hcell
  · have hnodup := hs.chain_nodup
    rw [hfirst.chain_eq, List.nodup_append] at hnodup
    exact hnodup.2.2 cell hmade cell hcell rfl

/-- Where no tail is known on the chain of the sequence that it was derived from, a split writes
only names of nodes that were made by deriving it, unless it is one link away and has no known
tail. -/
theorem Derived.written_subset {base first : Sequence α} {made : List Cell}
    (h : Derived base made first) (hmade : made ≠ []) (hbase : ¬ memo.KnowsOn base)
    (hfar : made.length = 1 → memo.Knows first) : ∀ cell ∈ written memo first, cell ∈ made := by
  cases h with
  | base => exact absurd rfl hmade
  | @link before cell _ _ _ source _ hbefore =>
    intro name hname
    rw [written] at hname
    split at hname
    · cases hname
    · next hunknown =>
      rcases List.mem_append.mp hname with hname | hname
      · have hfarther : before ≠ [] := by
          rintro rfl
          obtain ⟨_, hcell, hknown⟩ := hfar rfl
          cases hcell
          exact hunknown hknown
        exact List.mem_cons_of_mem cell (hbefore.passed_subset hfarther hbase name hname)
      · rw [List.mem_singleton.mp hname]
        exact List.mem_cons_self

/-- **A second split finds a known tail exactly if** there was one on its chain before the first
split, or the first split wrote that of the sequence that both were derived from: if it was one link
away and had no known tail itself. -/
theorem Derived.knowsOn_iff {ledger : Ledger α} {base first second : Sequence α}
    {made made' : List Cell} (hs : first.Sound ledger) (hfirst : Derived base made first)
    (hsecond : Derived base made' second) (hmade : made ≠ [])
    (apart : ∀ cell ∈ made, cell ∉ made') :
    (first.uncons.run memo).2.KnowsOn second ↔
      memo.KnowsOn second ∨ made.length = 1 ∧ ¬ memo.Knows first := by
  have hwrites : Writes memo first.uncons _ _ :=
    uncons_writes hs.hasSource (hfirst.isEmpty hmade)
  have hkept : ∀ cell, (memo.tail? cell).isSome →
      ((first.uncons.run memo).2.tail? cell).isSome := by
    intro cell hcell
    obtain ⟨tail, htail⟩ := Option.isSome_iff_exists.mp hcell
    exact Option.isSome_iff_exists.mpr ⟨tail, hwrites.keeps memo cell tail htail⟩
  have hbase_mem : ∀ cell ∈ base.chain, cell ∈ second.chain := by
    intro cell hcell
    rw [hsecond.chain_eq]
    exact List.mem_append_right made' hcell
  refine ⟨fun hknows => ?_, ?_⟩
  · refine Classical.byContradiction fun hneither => ?_
    rw [not_or, not_and, Classical.not_not] at hneither
    have hbase : ¬ memo.KnowsOn base := fun ⟨cell, hcell, hknown⟩ =>
      hneither.1 ⟨cell, hbase_mem cell hcell, hknown⟩
    have hwritten := hfirst.written_apart hs hsecond apart
      (hfirst.written_subset hmade hbase hneither.2)
    obtain ⟨cell, hcell, hknown⟩ := hknows
    rw [hwrites.others cell (hwritten cell hcell)] at hknown
    exact hneither.1 ⟨cell, hcell, hknown⟩
  · rintro (⟨cell, hcell, hknown⟩ | ⟨hone, hunknown⟩)
    · exact ⟨cell, hcell, hkept cell hknown⟩
    · cases hfirst with
      | base => cases hone
      | @link before cell _ _ _ source _ hbefore =>
        obtain rfl : before = [] := by simpa using hone
        cases hbefore
        have hcell : ¬ (memo.tail? cell).isSome := fun h => hunknown ⟨cell, rfl, h⟩
        cases hnearest : memo.nearest base [] with
        | some found =>
          obtain ⟨name, hname, hknown⟩ := Memo.knowsOn_of_nearest hnearest
          exact ⟨name, hbase_mem name hname, hkept name hknown⟩
        | none =>
          have hbase : base.isEmpty = false := hs.hasSource
          obtain ⟨name, hname, hchain⟩ := exists_cell hbase
          refine ⟨name, hbase_mem name hchain, hwrites.known name ?_⟩
          rw [written, if_neg hcell, passed, hnearest, hname]
          exact List.mem_append_left [cell] List.mem_cons_self

/-- After any moves there is a ledger that the stock fits. -/
theorem Stock.Sound.of_moves [BEq α] (moves : List (Move α)) :
    ∃ ledger, (Stock.empty.moves moves).Sound ledger := by
  have hempty : (Stock.empty : Stock α).Sound [] := ⟨by simp [Stock.empty], Memo.agrees_empty⟩
  exact hempty.moves moves

/-- **When the second split collapses nothing.**  Take any two sequences that are there after any
moves, and that were derived from one by links, the first by one link at least, without further
nodes in common.  Once the first one is split, the split of the second one collapses no queue of
children exactly if a tail was known before on its own chain of sources, or if the first one was
derived by one link and its own tail was not known.  Otherwise it collapses one. -/
theorem collapses_shared_iff [BEq α] (moves : List (Move α)) {base first second : Sequence α}
    {made made' : List Cell} (has : (Stock.empty.moves moves).Has first)
    (has' : (Stock.empty.moves moves).Has second) (hfirst : Derived base made first)
    (hsecond : Derived base made' second) (hmade : made ≠ []) (hmade' : made' ≠ [])
    (apart : ∀ cell ∈ made, cell ∉ made') :
    let memo := (Stock.empty.moves moves).memo
    let after := (first.uncons.run memo).2
    let last := (second.uncons.run after).2
    (last.collapses = after.collapses ↔
      memo.KnowsOn second ∨ made.length = 1 ∧ ¬ memo.Knows first) ∧
    last.collapses ≤ after.collapses + 1 := by
  intro memo after last
  obtain ⟨ledger, hsound⟩ := Stock.Sound.of_moves moves
  have hcount : last.collapses = after.collapses + collapsed after second :=
    (uncons_writes (hsound.node has').hasSource (hsecond.isEmpty hmade')).collapses_eq
  have hle := collapsed_le after second
  refine ⟨?_, by omega⟩
  rw [← hfirst.knowsOn_iff (hsound.node has) hsecond hmade apart, ← collapsed_eq_zero_iff]
  change last.collapses = after.collapses ↔ collapsed after second = 0
  omega

/-! ## 5. Two links away -/

/-- A node without children, made first in its turn: it holds the number of its name. -/
def single (cell : Cell) : Sequence Nat := root cell cell .empty

/-- Links two nodes behind the first, and then two others behind the first. -/
def linkings : List (Move Nat) :=
  [.perform (.singleton 0), .perform (.singleton 1), .perform (.singleton 2),
    .perform (.singleton 3), .perform (.singleton 4), .perform (.link 0 1), .perform (.link 5 2),
    .perform (.link 0 3), .perform (.link 7 4)]

/-- All versions that this makes. -/
def linkedTwice : Stock Nat := Stock.empty.moves linkings

/-- One link away from the first node, and two links; the names are those from `next` on. -/
def oneAway (behind next : Cell) : Sequence Nat := (((single 0).link (single behind)).run next).1

def twoAway (behind after next : Cell) : Sequence Nat :=
  (((oneAway behind next).link (single after)).run (next + 1)).1

theorem linkedTwice_eq : linkedTwice = ⟨[single 0, single 1, single 2, single 3, single 4,
    oneAway 1 5, twoAway 1 2 5, oneAway 3 7, twoAway 3 4 7], ⟨9, {}, 0⟩⟩ := rfl

theorem oneAway_derived (behind next : Cell) : Derived (single 0) [next] (oneAway behind next) :=
  Derived.base.run_link rfl rfl next

theorem twoAway_derived (behind after next : Cell) :
    Derived (single 0) [next + 1, next] (twoAway behind after next) :=
  (oneAway_derived behind next).run_link rfl rfl (next + 1)

theorem linkedTwice_has {node : Sequence Nat}
    (h : node ∈ [oneAway 1 5, twoAway 1 2 5, oneAway 3 7, twoAway 3 4 7]) :
    linkedTwice.Has node := by
  refine .version ?_
  rw [linkedTwice_eq]
  exact List.mem_append_right [single 0, single 1, single 2, single 3, single 4] h

theorem linkedTwice_unknown (cell : Cell) : ¬ (linkedTwice.memo.tail? cell).isSome := by
  rw [linkedTwice_eq]
  simp [Memo.tail?]

theorem linkedTwice_knows_nothing (node : Sequence Nat) : ¬ linkedTwice.memo.KnowsOn node :=
  fun ⟨cell, _, hknown⟩ => linkedTwice_unknown cell hknown

/-- Nothing is known, and the first sequence is one link away: the second split shares its
collapse. -/
theorem oneAway_shares :
    let after := ((oneAway 1 5).uncons.run linkedTwice.memo).2
    ((twoAway 3 4 7).uncons.run after).2.collapses = after.collapses := by
  have has : linkedTwice.Has (oneAway 1 5) := linkedTwice_has (by simp)
  have has' : linkedTwice.Has (twoAway 3 4 7) := linkedTwice_has (by simp)
  have hshared := collapses_shared_iff linkings has has' (oneAway_derived 1 5)
    (twoAway_derived 3 4 7) (by simp) (by simp) (by simp)
  exact hshared.1.mpr (.inr ⟨rfl, fun ⟨cell, _, hknown⟩ => linkedTwice_unknown cell hknown⟩)

/-- **Two links away nothing is shared.**  No tail is known, and two sequences were derived from one
node by two links each, with no other node in common.  The first split collapses the source of the
first sequence, and the second one collapses that of the second. -/
theorem twoAway_collapse_twice :
    linkedTwice.Has (twoAway 1 2 5) ∧ linkedTwice.Has (twoAway 3 4 7) ∧
    (single 0).isEmpty = false ∧
    Derived (single 0) [6, 5] (twoAway 1 2 5) ∧ Derived (single 0) [8, 7] (twoAway 3 4 7) ∧
    let after := ((twoAway 1 2 5).uncons.run linkedTwice.memo).2
    after.collapses = 1 ∧ ((twoAway 3 4 7).uncons.run after).2.collapses = 2 := by
  have has : linkedTwice.Has (twoAway 1 2 5) := linkedTwice_has (by simp)
  refine ⟨has, linkedTwice_has (by simp), rfl, twoAway_derived 1 2 5, twoAway_derived 3 4 7, ?_⟩
  intro after
  have hcollapsed : ∀ {memo : Memo Nat} {node : Sequence Nat}, ¬ memo.KnowsOn node →
      collapsed memo node = 1 := by
    intro memo node hunknown
    have hle := collapsed_le memo node
    have hne := mt collapsed_eq_zero_iff.mp hunknown
    omega
  have hafter : after.collapses = 1 := by
    have hwrites : Writes linkedTwice.memo (twoAway 1 2 5).uncons _ _ := uncons_writes rfl rfl
    have hcount := hwrites.collapses_eq
    rw [hcollapsed (linkedTwice_knows_nothing (twoAway 1 2 5))] at hcount
    exact hcount
  obtain ⟨ledger, hsound⟩ := Stock.Sound.of_moves linkings
  have hunknown : ¬ after.KnowsOn (twoAway 3 4 7) := by
    rw [(twoAway_derived 1 2 5).knowsOn_iff (hsound.node has) (twoAway_derived 3 4 7) (by simp)
      (by simp)]
    rintro (hknown | ⟨hone, -⟩)
    · exact linkedTwice_knows_nothing (twoAway 3 4 7) hknown
    · cases hone
  have hwrites : Writes after (twoAway 3 4 7).uncons _ _ := uncons_writes rfl rfl
  refine ⟨hafter, ?_⟩
  rw [hwrites.collapses_eq, hafter, hcollapsed hunknown]

end Sequence

end FreePrograms
