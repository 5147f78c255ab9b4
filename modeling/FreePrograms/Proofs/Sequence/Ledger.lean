/-
# The ledger of a table of tails

Whether a split is right depends on what the table of tails holds, and the table is written by the
splits of all sequences.  So nothing can be said of one sequence alone.  What holds all of them
together is a `Ledger`: under each name that was given, the contents behind the head of the node of
that name.  It is no part of what runs; it only ever grows, and `<+:` says that one ledger is an
earlier state of another.

* `Sequence.Sound ledger s`: every node in `s` was made by `singleton` or by `link`, and is in the
  ledger with the contents behind its head.
* `Memo.Agrees memo ledger`: as many names were given as the ledger has entries, and each tail that
  the table holds is sound and has the contents in the ledger.

`Naming.Ensures` and `Splitting.Ensures` say of steps that they take a state that fits a ledger to
one that fits a later ledger, and what is true of their result then.  Both go through binds
(`Naming.Ensures.bind`, `Splitting.Ensures.bind`), so the steps of this library are reasoned about
one after the other.
-/
import FreePrograms.Sequence.Memo

namespace FreePrograms

variable {α β γ : Type}

/-- The contents behind the head of each node named so far, by its name. -/
abbrev Ledger (α : Type) := List (List α)

/-! ## 1. Sound sequences -/

namespace Sequence

/-- The contents behind the head. -/
def behind (sequence : Sequence α) : List α := contents sequence.children

/-- A sequence made by `singleton` and `link`, whose nodes are in the ledger. -/
inductive Sound (ledger : Ledger α) : Sequence α → Prop
  | empty : Sound ledger .empty
  | root {cell : Cell} {head : α} (entry : ledger[cell]? = some []) :
    Sound ledger (.root cell head .empty)
  | linked {cell : Cell} {head : α} {source other : Sequence α} (source_sound : Sound ledger source)
    (other_sound : Sound ledger other) (head_eq : source.first? = some head)
    (other_nonempty : other.isEmpty = false)
    (entry : ledger[cell]? = some (source.behind ++ other.toList)) :
    Sound ledger (.linked cell (source.length + other.length) head (source.children.push other)
      source other)

theorem toList_of_first? {sequence : Sequence α} {head : α} (h : sequence.first? = some head) :
    sequence.toList = head :: sequence.behind := by
  cases sequence with
  | empty => cases h
  | root cell a children =>
    cases h
    simp [toList, behind, Sequence.children]
  | linked cell n a children source other =>
    cases h
    simp [toList, behind, Sequence.children]

theorem first?_eq_none_iff (sequence : Sequence α) :
    sequence.first? = none ↔ sequence = .empty := by
  cases sequence <;> simp [first?]

/-- The first element is that of the contents. -/
theorem first?_eq_head? (sequence : Sequence α) : sequence.first? = sequence.toList.head? := by
  cases h : sequence.first? with
  | none =>
    rw [(first?_eq_none_iff sequence).mp h]
    simp
  | some head => rw [toList_of_first? h, List.head?_cons]

/-- A sequence is empty exactly if it has no contents. -/
theorem isEmpty_eq (sequence : Sequence α) : sequence.isEmpty = sequence.toList.isEmpty := by
  cases sequence <;> simp [isEmpty, toList]

/-- Names that were given keep their entries. -/
theorem entry_mono {ledger later : Ledger α} (h : ledger <+: later) {cell : Cell} {entry : List α}
    (he : ledger[cell]? = some entry) : later[cell]? = some entry := by
  obtain ⟨more, rfl⟩ := h
  have hlt : cell < ledger.length := (List.getElem?_eq_some_iff.mp he).1
  rw [List.getElem?_append_left hlt]
  exact he

theorem Sound.mono {ledger later : Ledger α} (h : ledger <+: later) {sequence : Sequence α}
    (hs : sequence.Sound ledger) : sequence.Sound later := by
  induction hs with
  | empty => exact .empty
  | root entry => exact .root (entry_mono h entry)
  | linked _ _ head_eq other_nonempty entry source_ih other_ih =>
    exact .linked source_ih other_ih head_eq other_nonempty (entry_mono h entry)

/-- The number in the nodes of a sound sequence counts its elements. -/
theorem Sound.length_eq {ledger : Ledger α} {sequence : Sequence α} (hs : sequence.Sound ledger) :
    sequence.length = sequence.toList.length := by
  induction hs with
  | empty => simp [length]
  | root entry => simp [length, toList, contents_eq]
  | @linked cell head source other _ _ head_eq _ _ source_ih other_ih =>
    change source.length + other.length = _
    rw [source_ih, other_ih, toList_of_first? head_eq]
    simp only [toList, contents_push, List.length_cons, List.length_append, behind]
    omega

/-- The node of a sound sequence is in the ledger with what is behind its head. -/
theorem Sound.entry {ledger : Ledger α} {sequence : Sequence α} (hs : sequence.Sound ledger)
    {cell : Cell} (hc : sequence.cell? = some cell) : ledger[cell]? = some sequence.behind := by
  cases hs with
  | empty => cases hc
  | root entry =>
    cases hc
    simpa [behind, children, contents_eq] using entry
  | linked _ _ _ _ entry =>
    cases hc
    simpa [behind, children, contents_push] using entry

/-- The children of a sound sequence are sound. -/
theorem Sound.children {ledger : Ledger α} {sequence : Sequence α} (hs : sequence.Sound ledger) :
    ∀ child ∈ sequence.children.toList, child.Sound ledger := by
  induction hs with
  | empty => simp [Sequence.children]
  | root entry => simp [Sequence.children]
  | linked _ other_sound _ _ _ source_ih _ =>
    intro child hchild
    simp only [Sequence.children, Queue.toList_push, List.mem_append, List.mem_singleton] at hchild
    rcases hchild with hchild | rfl
    · exact source_ih child hchild
    · exact other_sound

end Sequence

/-- The table of tails fits the ledger. -/
structure Memo.Agrees (memo : Memo α) (ledger : Ledger α) : Prop where
  next_eq : memo.next = ledger.length
  tail_eq {cell : Cell} {tail : Sequence α} :
    memo.tail? cell = some tail → ledger[cell]? = some tail.toList
  tail_sound {cell : Cell} {tail : Sequence α} : memo.tail? cell = some tail → tail.Sound ledger

/-- **Nothing is known and nothing is named.** -/
theorem Memo.agrees_empty : (Memo.empty : Memo α).Agrees [] where
  next_eq := rfl
  tail_eq h := by simp [Memo.tail?, Memo.empty] at h
  tail_sound h := by simp [Memo.tail?, Memo.empty] at h

/-- A table fits every later ledger, once as many names are given. -/
theorem Memo.Agrees.mono {memo : Memo α} {ledger later : Ledger α} (h : memo.Agrees ledger)
    (hlater : ledger <+: later) : Memo.Agrees ⟨later.length, memo.tails, memo.collapses⟩ later where
  next_eq := rfl
  tail_eq ht := Sequence.entry_mono hlater (h.tail_eq ht)
  tail_sound ht := (h.tail_sound ht).mono hlater

/-! ## 2. Tables that fit, and steps that take names -/

/-- The steps, begun when the names of the ledger were given, give further names only, and what is
said holds of the names given then and of the result. -/
def Naming.Ensures (ledger : Ledger α) (steps : Naming β) (post : Ledger α → β → Prop) : Prop :=
  ∃ later, ledger <+: later ∧ (steps.run ledger.length).2 = later.length ∧
    post later (steps.run ledger.length).1

namespace Naming.Ensures

variable {ledger : Ledger α} {steps : Naming β} {post : Ledger α → β → Prop}

theorem pure {b : β} (h : post ledger b) : Naming.Ensures ledger (Pure.pure b) post :=
  ⟨ledger, List.prefix_refl ledger, rfl, h⟩

theorem bind {next : β → Naming γ} {post' : Ledger α → γ → Prop}
    (h : Naming.Ensures ledger steps post)
    (hnext : ∀ later b, ledger <+: later → post later b → Naming.Ensures later (next b) post') :
    Naming.Ensures ledger (steps >>= next) post' := by
  obtain ⟨later, hlater, hlength, hpost⟩ := h
  obtain ⟨last, hlast, hlength', hpost'⟩ := hnext later _ hlater hpost
  rw [← hlength] at hlength' hpost'
  exact ⟨last, hlater.trans hlast, hlength', hpost'⟩

theorem mono {post' : Ledger α → β → Prop} (h : Naming.Ensures ledger steps post)
    (himp : ∀ later b, ledger <+: later → post later b → post' later b) :
    Naming.Ensures ledger steps post' := by
  obtain ⟨later, hlater, hlength, hpost⟩ := h
  exact ⟨later, hlater, hlength, himp later _ hlater hpost⟩

/-- A new name gets the entry that one likes. -/
theorem fresh (entry : List α) :
    Naming.Ensures ledger Naming.fresh fun later cell => later[cell]? = some entry :=
  ⟨ledger ++ [entry], List.prefix_append ledger [entry], by simp [Naming.fresh, StateT.run],
    by simp [Naming.fresh, StateT.run]⟩

end Naming.Ensures

/-! ## 3. Steps that split -/

/-- The steps, begun with a table that fits the ledger, leave one that fits a later ledger, and what
is said holds of that ledger and of the result. -/
def Splitting.Ensures (ledger : Ledger α) (steps : Splitting α β) (post : Ledger α → β → Prop) :
    Prop :=
  ∀ memo, memo.Agrees ledger → ∃ later, ledger <+: later ∧ (steps.run memo).2.Agrees later ∧
    post later (steps.run memo).1

namespace Splitting.Ensures

variable {ledger : Ledger α} {steps : Splitting α β} {post : Ledger α → β → Prop}

theorem pure {b : β} (h : post ledger b) : Splitting.Ensures ledger (Pure.pure b) post :=
  fun _ hmemo => ⟨ledger, List.prefix_refl ledger, hmemo, h⟩

theorem bind {next : β → Splitting α γ} {post' : Ledger α → γ → Prop}
    (h : Splitting.Ensures ledger steps post)
    (hnext : ∀ later b, ledger <+: later → post later b → Splitting.Ensures later (next b) post') :
    Splitting.Ensures ledger (steps >>= next) post' := by
  intro memo hmemo
  obtain ⟨later, hlater, hagrees, hpost⟩ := h memo hmemo
  obtain ⟨last, hlast, hagrees', hpost'⟩ := hnext later _ hlater hpost _ hagrees
  exact ⟨last, hlater.trans hlast, hagrees', hpost'⟩

theorem mono {post' : Ledger α → β → Prop} (h : Splitting.Ensures ledger steps post)
    (himp : ∀ later b, ledger <+: later → post later b → post' later b) :
    Splitting.Ensures ledger steps post' := by
  intro memo hmemo
  obtain ⟨later, hlater, hagrees, hpost⟩ := h memo hmemo
  exact ⟨later, hlater, hagrees, himp later _ hlater hpost⟩

/-- Steps may depend on the table that they find. -/
theorem get {next : Memo α → Splitting α β}
    (h : ∀ memo, memo.Agrees ledger → Splitting.Ensures ledger (next memo) post) :
    Splitting.Ensures ledger (MonadState.get >>= next) post :=
  fun memo hmemo => h memo hmemo memo hmemo

/-- Steps that take names leave the tails alone. -/
theorem naming {steps : Naming β} (h : Naming.Ensures ledger steps post) :
    Splitting.Ensures ledger (Memo.naming steps) post := by
  intro memo hmemo
  obtain ⟨later, hlater, hlength, hpost⟩ := h
  rw [← hmemo.next_eq] at hlength hpost
  refine ⟨later, hlater, ?_, hpost⟩
  have hagrees := hmemo.mono hlater
  rw [← hlength] at hagrees
  exact hagrees

/-- **A tail may be written where the ledger has its contents**, and the steps go on from there.  A
name that has a tail keeps it. -/
theorem record_bind {cell : Cell} {tail : Sequence α} {next : Unit → Splitting α β}
    (entry : ledger[cell]? = some tail.toList) (sound : tail.Sound ledger)
    (h : Splitting.Ensures ledger (next ()) post) :
    Splitting.Ensures ledger (Memo.record cell tail >>= next) post := by
  intro memo hmemo
  have hwritten : ∀ {c : Cell} {t : Sequence α},
      ((Memo.record cell tail).run memo).2.tail? c = some t →
        memo.tail? c = some t ∨ (cell = c ∧ tail = t) := by
    intro c t ht
    simp only [Memo.tail?, Memo.record, StateT.run, Std.HashMap.getElem?_insertIfNew] at ht
    split at ht
    · next hc => exact Or.inr ⟨by simpa using hc.1, Option.some.inj ht⟩
    · exact Or.inl ht
  have hagrees : ((Memo.record cell tail).run memo).2.Agrees ledger := by
    refine ⟨hmemo.next_eq, ?_, ?_⟩
    · intro c t ht
      rcases hwritten ht with ht | ⟨rfl, rfl⟩
      · exact hmemo.tail_eq ht
      · exact entry
    · intro c t ht
      rcases hwritten ht with ht | ⟨rfl, rfl⟩
      · exact hmemo.tail_sound ht
      · exact sound
  exact h _ hagrees

/-- The note of a collapse is no matter of the tails. -/
theorem noteCollapse_bind {next : Unit → Splitting α β}
    (h : Splitting.Ensures ledger (next ()) post) :
    Splitting.Ensures ledger (Memo.noteCollapse >>= next) post := by
  intro memo hmemo
  have hagrees : ((Memo.noteCollapse : Splitting α Unit).run memo).2.Agrees ledger :=
    ⟨hmemo.next_eq, hmemo.tail_eq, hmemo.tail_sound⟩
  exact h _ hagrees

end Splitting.Ensures

end FreePrograms
