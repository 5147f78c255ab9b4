/-
# Splitting gives the head and the other contents

Each operation on sequences has one statement here, which says what it leaves of a ledger and what
its result holds: `link` appends, `collapse` concatenates, and every way to a tail ends with the
contents behind the head (`tail_ensures`), be the tail known already, found by replaying the links
below a known one, or found by collapsing.  So `uncons` and `pop` split as a list is split, and the
walks made of them go through the contents one after the other.
-/
import FreePrograms.Proofs.Queue.Removals
import FreePrograms.Proofs.Sequence.Chain

namespace FreePrograms

variable {α β : Type}

namespace Sequence

variable {ledger : Ledger α}

/-! ## 1. Making sequences -/

theorem singleton_ensures (a : α) : Naming.Ensures ledger (singleton a) fun later made =>
    made.Sound later ∧ made.toList = [a] :=
  (Naming.Ensures.fresh []).bind fun _ _ _ entry =>
    .pure ⟨.root entry, by simp [toList, contents_eq]⟩

/-- **Linking appends.** -/
theorem link_ensures {source other : Sequence α} (hs : source.Sound ledger)
    (ho : other.Sound ledger) : Naming.Ensures ledger (source.link other) fun later made =>
      made.Sound later ∧ made.toList = source.toList ++ other.toList := by
  unfold link
  split
  · next h =>
    rw [(first?_eq_none_iff source).mp h]
    exact .pure ⟨ho, by simp⟩
  · next h =>
    exact .pure ⟨hs, by simp [toList_eq_nil h]⟩
  · next head hhead hother =>
    refine (Naming.Ensures.fresh (source.behind ++ other.toList)).bind ?_
    intro later cell hlater entry
    refine .pure ⟨.linked (hs.mono hlater) (ho.mono hlater) hhead hother entry, ?_⟩
    rw [toList_of_first? hhead]
    simp [toList, contents_push, behind]

theorem snoc_ensures {sequence : Sequence α} (hs : sequence.Sound ledger) (a : α) :
    Naming.Ensures ledger (sequence.snoc a) fun later made =>
      made.Sound later ∧ made.toList = sequence.toList ++ [a] := by
  refine (singleton_ensures a).bind ?_
  intro later one hlater hone
  have hlink := link_ensures (hs.mono hlater) hone.1
  rw [hone.2] at hlink
  exact hlink

theorem snocEach_ensures {sequence : Sequence α} (hs : sequence.Sound ledger) (elements : List α) :
    Naming.Ensures ledger (sequence.snocEach elements) fun later made =>
      made.Sound later ∧ made.toList = sequence.toList ++ elements := by
  induction elements generalizing sequence ledger with
  | nil => exact .pure ⟨hs, by simp⟩
  | cons a rest ih =>
    refine (snoc_ensures hs a).bind ?_
    intro later longer hlater hlonger
    have hrest := ih hlonger.1
    rw [hlonger.2, List.append_assoc] at hrest
    exact hrest

theorem ofList_ensures (elements : List α) :
    Naming.Ensures ledger (ofList elements) fun later made =>
      made.Sound later ∧ made.toList = elements := by
  have h := snocEach_ensures (Sound.empty : Sound ledger empty) elements
  simp only [toList_empty, List.nil_append] at h
  exact h

/-! ## 2. Finding a tail -/

/-- Linking all of a list, from its last sequence to its first, concatenates. -/
theorem foldrM_link_ensures (items : List (Sequence α))
    (hitems : ∀ item ∈ items, item.Sound ledger) :
    Naming.Ensures ledger (items.foldrM link empty) fun later made =>
      made.Sound later ∧ made.toList = items.flatMap toList := by
  induction items with
  | nil => exact .pure ⟨.empty, by simp⟩
  | cons item rest ih =>
    rw [List.foldrM_cons]
    refine (ih fun other hother => hitems other (List.mem_cons_of_mem item hother)).bind ?_
    intro later made hlater hmade
    have hlink := link_ensures ((hitems item List.mem_cons_self).mono hlater) hmade.1
    rw [hmade.2] at hlink
    exact hlink

/-- **Collapsing concatenates.** -/
theorem collapse_ensures {children : Queue (Sequence α)}
    (hchildren : ∀ child ∈ children.toList, child.Sound ledger) :
    Splitting.Ensures ledger (collapse children) fun later made =>
      made.Sound later ∧ made.toList = contents children := by
  refine .noteCollapse_bind (.naming ?_)
  rw [Queue.foldrM_eq, contents_eq]
  exact foldrM_link_ensures children.toList hchildren

theorem collapseAt_ensures {source : Sequence α} (hs : source.Sound ledger) {cell : Cell}
    (hc : source.cell? = some cell) :
    Splitting.Ensures ledger (collapseAt cell source.children) fun later made =>
      made.Sound later ∧ made.toList = source.behind := by
  refine (collapse_ensures hs.children).bind ?_
  intro later made hlater hmade
  have entry : later[cell]? = some made.toList := by
    rw [hmade.2]
    exact entry_mono hlater (hs.entry hc)
  exact .record_bind entry hmade.1 (.pure hmade)

/-- A tail that the table has is that of the ledger. -/
theorem known_tail {memo : Memo α} (hmemo : memo.Agrees ledger) {sequence tail : Sequence α}
    (hs : sequence.Sound ledger) {cell : Cell} (hc : sequence.cell? = some cell)
    (h : memo.tail? cell = some tail) : tail.Sound ledger ∧ tail.toList = sequence.behind := by
  have hentry := hs.entry hc
  rw [hmemo.tail_eq h] at hentry
  exact ⟨hmemo.tail_sound h, Option.some.inj hentry⟩

theorem replay_ensures {tail : Sequence α} (ht : tail.Sound ledger)
    {below : List (Cell × Sequence α)} {last : List α} (hl : Leads ledger tail.toList below last) :
    Splitting.Ensures ledger (Memo.replay below tail) fun later made =>
      made.Sound later ∧ made.toList = last := by
  induction below generalizing tail ledger with
  | nil =>
    cases hl
    exact .pure ⟨ht, rfl⟩
  | cons link below ih =>
    obtain ⟨cell, other⟩ := link
    cases hl with
    | cons sound entry rest =>
      refine (Splitting.Ensures.naming (link_ensures ht sound)).bind ?_
      intro later longer hlater hlonger
      rw [← hlonger.2] at entry rest
      exact .record_bind (entry_mono hlater entry) hlonger.1 (ih hlonger.1 (rest.mono hlater))

/-- The tail of a source leads to that of what was linked behind it. -/
theorem link_behind_ensures {source other : Sequence α} (hother : other.Sound ledger)
    {steps : Splitting α (Sequence α)} (h : Splitting.Ensures ledger steps fun later made =>
      made.Sound later ∧ made.toList = source.behind) :
    Splitting.Ensures ledger (do Memo.naming ((← steps).link other)) fun later made =>
      made.Sound later ∧ made.toList = source.behind ++ other.toList := by
  refine h.bind fun later made hlater hmade => .naming ?_
  rw [← hmade.2]
  exact link_ensures hmade.1 (hother.mono hlater)

/-- **A tail that is found holds the contents behind the head**, whatever the table knew. -/
theorem rest_ensures {sequence : Sequence α} (hs : sequence.Sound ledger) :
    Splitting.Ensures ledger sequence.rest fun later made =>
      made.Sound later ∧ made.toList = sequence.behind := by
  have hchildren := hs.children
  cases hs with
  | empty => exact .pure ⟨.empty, by simp [behind, Sequence.children, contents_eq]⟩
  | root entry => exact collapse_ensures hchildren
  | @linked cell head source other hsource hother head_eq other_nonempty entry =>
    rw [rest, behind_linked]
    split
    · next hc => cases source <;> simp [cell?, first?] at hc head_eq
    · next name hname =>
      refine .get fun memo hmemo => ?_
      dsimp only
      split
      · next tail below hfound =>
        obtain ⟨_, hknown⟩ := Memo.known_of_nearest hfound
        have hcoherent := Memo.Coherent.of_agrees hmemo hsource
        have hleads := hcoherent.nearest_eq_some hsource (.nil source.behind) hfound
        exact link_behind_ensures hother (replay_ensures (hmemo.tail_sound hknown) hleads)
      · exact link_behind_ensures hother (collapseAt_ensures hsource hname)

/-! ## 3. One split -/

/-- **The tail of a node holds the contents behind its head**, and may be written under its name. -/
theorem tail_ensures {sequence : Sequence α} (hs : sequence.Sound ledger) {cell : Cell}
    (hc : sequence.cell? = some cell) :
    Splitting.Ensures ledger (sequence.tail cell) fun later made =>
      made.Sound later ∧ made.toList = sequence.behind := by
  rw [tail]
  refine .get fun memo hmemo => ?_
  split
  · next tail htail => exact .pure (known_tail hmemo hs hc htail)
  · refine (rest_ensures hs).bind fun later made hlater hmade => ?_
    have entry : later[cell]? = some made.toList := by
      rw [hmade.2]
      exact entry_mono hlater (hs.entry hc)
    exact .record_bind entry hmade.1 (.pure hmade)

/-- A tail that is not written holds the same. -/
theorem tailUnwritten_ensures {sequence : Sequence α} (hs : sequence.Sound ledger) {cell : Cell}
    (hc : sequence.cell? = some cell) :
    Splitting.Ensures ledger (sequence.tailUnwritten cell) fun later made =>
      made.Sound later ∧ made.toList = sequence.behind := by
  rw [tailUnwritten]
  refine .get fun memo hmemo => ?_
  split
  · next tail htail => exact .pure (known_tail hmemo hs hc htail)
  · exact rest_ensures hs

/-- What a split of these contents is: nothing if there are none, and else the head and a sound
sequence of the others. -/
inductive Splits (ledger : Ledger α) : List α → Option (α × Sequence α) → Prop
  | nil : Splits ledger [] none
  | cons (head : α) {rest : Sequence α} (sound : rest.Sound ledger) :
    Splits ledger (head :: rest.toList) (some (head, rest))

/-- A head and a tail are a split. -/
theorem splits_of_tail {sequence : Sequence α} {head : α} (hhead : sequence.first? = some head)
    {steps : Splitting α (Sequence α)} (h : Splitting.Ensures ledger steps fun later made =>
      made.Sound later ∧ made.toList = sequence.behind) :
    Splitting.Ensures ledger (do return some (head, ← steps)) fun later popped =>
      Splits later sequence.toList popped := by
  refine h.bind fun later made _ hmade => .pure ?_
  rw [toList_of_first? hhead, ← hmade.2]
  exact .cons head hmade.1

/-- **A split gives the head and the others**, and leaves a table that fits. -/
theorem uncons_ensures {sequence : Sequence α} (hs : sequence.Sound ledger) :
    Splitting.Ensures ledger sequence.uncons fun later popped =>
      Splits later sequence.toList popped := by
  cases sequence with
  | empty =>
    rw [toList_empty]
    exact .pure .nil
  | root cell head children => exact splits_of_tail rfl (tail_ensures hs rfl)
  | linked cell n head children source other => exact splits_of_tail rfl (tail_ensures hs rfl)

/-- **A sequence that is given up splits in the same way**, whoever else holds its node. -/
theorem pop_ensures {sequence : Sequence α} (hs : sequence.Sound ledger) (ownership : Ownership) :
    Splitting.Ensures ledger (sequence.pop ownership) fun later popped =>
      Splits later sequence.toList popped := by
  cases ownership with
  | shared => exact uncons_ensures hs
  | unique =>
    cases sequence with
    | empty =>
      rw [toList_empty]
      exact .pure .nil
    | root cell head children => exact splits_of_tail rfl (tailUnwritten_ensures hs rfl)
    | linked cell n head children source other =>
      exact splits_of_tail rfl (tailUnwritten_ensures hs rfl)

/-! ## 4. Walks -/

/-- **A walk goes through the contents**, and leaves those that it has not come to. -/
theorem drain_ensures {sequence : Sequence α} (hs : sequence.Sound ledger) (n : Nat)
    (out : Array α) : Splitting.Ensures ledger (sequence.drain n out) fun later drained =>
      drained.1.toList = out.toList ++ sequence.toList.take n ∧ drained.2.Sound later ∧
        drained.2.toList = sequence.toList.drop n := by
  induction n generalizing sequence out ledger with
  | zero => exact .pure ⟨by simp, hs, by simp⟩
  | succ n ih =>
    rw [drain]
    refine (uncons_ensures hs).bind fun later popped hlater hpopped => ?_
    generalize hcontents : sequence.toList = contents at hpopped ⊢
    cases hpopped with
    | nil => exact .pure ⟨by simp, hs.mono hlater, by simp [hcontents]⟩
    | cons head sound =>
      refine (ih sound (out.push head)).mono ?_
      rintro last ⟨drained, left⟩ - ⟨htaken, hleft⟩
      exact ⟨by simpa using htaken, hleft⟩

/-- **Two walks in step compare the contents**, as far as they are told to go. -/
theorem agree_ensures [BEq α] {left right : Sequence α} (hl : left.Sound ledger)
    (hr : right.Sound ledger) (n : Nat) :
    Splitting.Ensures ledger (agree n left right) fun _ equal =>
      left.toList.length < n → equal = (left.toList == right.toList) := by
  induction n generalizing left right ledger with
  | zero => exact .pure fun h => absurd h (Nat.not_lt_zero _)
  | succ n ih =>
    rw [agree]
    refine (uncons_ensures hl).bind fun middle first hmiddle hfirst => ?_
    refine (uncons_ensures (hr.mono hmiddle)).bind fun later second hlater hsecond => ?_
    generalize left.toList = lefts at hfirst ⊢
    generalize right.toList = rights at hsecond ⊢
    cases hfirst with
    | nil =>
      cases hsecond with
      | nil => exact .pure fun _ => rfl
      | cons b _ => exact .pure fun _ => rfl
    | cons a hrest =>
      cases hsecond with
      | nil => exact .pure fun _ => rfl
      | @cons b rest' hrest' =>
        dsimp only
        split
        · next hab =>
          refine (ih (hrest.mono hlater) hrest').mono fun _ equal _ hequal hlength => ?_
          rw [hequal (by simpa using hlength), List.cons_beq_cons, hab, Bool.true_and]
        · next hab =>
          refine .pure fun _ => ?_
          rw [List.cons_beq_cons, Bool.eq_false_iff.mpr hab, Bool.false_and]

/-- Equality is that of the contents, whatever equality of elements is. -/
theorem same_ensures [BEq α] {left right : Sequence α} (hl : left.Sound ledger)
    (hr : right.Sound ledger) :
    Splitting.Ensures ledger (left.same right) fun _ equal =>
      equal = (left.toList == right.toList) :=
  (agree_ensures hl hr (left.length + 1)).mono fun _ _ _ h =>
    h (by rw [hl.length_eq]; exact Nat.lt_succ_self _)

end Sequence

end FreePrograms
