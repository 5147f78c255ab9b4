/-
# What can be seen of a program without running it

Of a program it can be asked whether it is done and whether it starts with an effect, and its outline
shows that effect and whether frames wait.  All this is read off the node and the emptiness of the
sequence of frames.  It tells the truth about every run, whatever interpreter the program is given
to (`Program.inspection_true`): a program is done exactly if no function is applied and no effect is
met in the run, it starts with an effect exactly if this effect is the first thing that happens, and
it is neither exactly if a function is applied first.

What happens is what the host notes: the effects that are handed to it, the functions of the program
that are applied, and the references to kept programs that are followed.
-/
import FreePrograms.Program.Outline
import FreePrograms.Proofs.Run.Openings
import FreePrograms.Proofs.Tree.Machine

namespace FreePrograms

variable {S : Signature} {K : Host S} {a b : S.Ty} {R : Type}

/-! ## 1. What comes first on a spine -/

/-- A node and frames of a tree that is a value alone, that starts with an effect, or of which a
frame comes first that takes the value. -/
inductive Outset {S : Signature} : Node S → List (Frame S) → {a : S.Ty} → Tree S a → Prop
  | value {a : S.Ty} (value : S.El a) : Outset (.value ⟨a, value⟩) [] (.pure value)
  | ask (effect : S.Effect) (frame : Frame S) (frames : List (Frame S)) {a : S.Ty}
    (tree : Tree S a) : Outset (.ask effect frame) frames tree
  | calls {frame : Frame S} {value : Packed S} {callback : Callback S}
    (calls : frame.Calls value callback) (frames : List (Frame S)) {a : S.Ty} (tree : Tree S a) :
    Outset (.value value) (frame :: frames) tree

/-- **The first frame of a tree takes the value that the tree starts with.** -/
theorem Spine.outset {ledger : Ledger (Frame S)} {node : Node S} {frames : List (Frame S)} :
    {a : S.Ty} → {tree : Tree S a} → Spine ledger node frames tree → Outset node frames tree
  | _, .pure _, .pure value => .value value
  | _, .lift _, .lift effect => .ask effect _ _ _
  | _, .liftWith _ _, .liftWith effect _ => .ask effect _ _ _
  | _, .bindAs _ _ _, .bindAs provenance first _ =>
    match first.outset with
    | .value value => .calls (.bind provenance value _) _ _
    | .ask effect frame _ _ => .ask effect frame _ _
    | .calls calls _ _ => .calls calls _ _
  | _, .followedByKept _ _, .followedByKept first place =>
    match first.outset with
    | .value value => .calls (.kept place _ ⟨_, value⟩) _ _
    | .ask effect frame _ _ => .ask effect frame _ _
    | .calls calls _ _ => .calls calls _ _

/-! ## 2. What is seen, and what happens -/

namespace Happening

/-- Whether an effect was handled or a frame that was waiting was applied.  To make a value out of an
answer is neither: it belongs to the effect. -/
def goesOn : Happening S → Bool
  | handled _ | applied (.bind _ _) | applied (.kept _) => true
  | applied (.decode _) => false

/-- The first effect or frame. -/
def first (happened : List (Happening S)) : Option (Happening S) := happened.find? goesOn

/-- A frame that takes the value and is noted at once is the first that is. -/
theorem first_of_calls {frame : Frame S} {value : Packed S} {callback : Callback S}
    (h : frame.Calls value callback) (rest : List (Happening S)) :
    first (applied callback :: rest) = some (applied callback) := by
  cases h <;> rfl

end Happening

namespace Program

/-- What the code of a program of a tree does first. -/
theorem Follows.opens {ledger : Ledger (Frame S)} {program : Program S a} {tree : Tree S a}
    (follows : program.Follows ledger tree) : ∃ first, program.code.Opens first := by
  obtain ⟨⟨node, frames⟩⟩ := program
  have houtset : Outset node frames.toList tree := follows.spine.outset
  generalize hframes : frames.toList = list at houtset
  cases houtset with
  | value value => exact ⟨_, .done hframes⟩
  | ask effect frame => exact ⟨_, .asks effect frame frames⟩
  | calls calls => exact ⟨_, .applies calls hframes⟩

section Looks

variable (value : Packed S) (effect : S.Effect) (frame : Frame S) (frames : Sequence (Frame S))

@[simp] theorem isDone_value :
    (⟨.mk (.value value) frames⟩ : Program S a).isDone = frames.toList.isEmpty :=
  Sequence.isEmpty_eq frames

@[simp] theorem isDone_ask : (⟨.mk (.ask effect frame) frames⟩ : Program S a).isDone = false := rfl

@[simp] theorem isSuspended_value :
    (⟨.mk (.value value) frames⟩ : Program S a).isSuspended = false := rfl

@[simp] theorem isSuspended_ask :
    (⟨.mk (.ask effect frame) frames⟩ : Program S a).isSuspended = true := rfl

@[simp] theorem outline_effect_value :
    (⟨.mk (.value value) frames⟩ : Program S a).outline.effect = none := rfl

@[simp] theorem outline_effect_ask :
    (⟨.mk (.ask effect frame) frames⟩ : Program S a).outline.effect = some effect := rfl

end Looks

/-- What is seen of the program tells what happens in a run. -/
structure Shows (program : Program S a) (happened : List (Happening S)) : Prop where
  /-- No frame is applied, and no effect is met. -/
  done : program.isDone = true ↔ Happening.first happened = none
  /-- An effect is met before any frame is applied. -/
  suspended : program.isSuspended = true ↔
    ∃ effect, Happening.first happened = some (.handled effect)
  /-- The first effect is the one of the outline. -/
  effect (effect : S.Effect) :
    program.outline.effect = some effect ↔ Happening.first happened = some (.handled effect)
  /-- A frame is applied before the first effect or the final value. -/
  neither : program.isDone = false ∧ program.isSuspended = false ↔
    ∃ callback, Happening.first happened = some (.applied callback)

/-- **What a code does first is what is seen of it.** -/
theorem shows_of_opens {program : Program S a} {first : Option (Happening S)}
    (opens : program.code.Opens first) {happened : List (Happening S)}
    (h : happened.head? = first) : program.Shows happened := by
  obtain ⟨code⟩ := program
  cases opens with
  | done hframes =>
    rw [List.head?_eq_none_iff] at h
    subst h
    constructor <;> simp [Happening.first, hframes]
  | asks effect frame frames =>
    obtain ⟨rest, rfl⟩ := List.head?_eq_some_iff.mp h
    constructor <;> simp [Happening.first, Happening.goesOn]
  | applies calls hframes =>
    obtain ⟨rest, rfl⟩ := List.head?_eq_some_iff.mp h
    have hfirst := Happening.first_of_calls calls rest
    constructor <;> simp [hfirst, hframes]

namespace Outline

/-- The effect is shown, if there is one, and nothing else is shown as an effect. -/
theorem shows_effect_iff (effectText : S.Effect → String) (outline : Outline S) (text : String) :
    ("effect", text) ∈ (outline.fields effectText).2 ↔
      ∃ effect, outline.effect = some effect ∧ text = effectText effect := by
  obtain ⟨_ | effect, pending⟩ := outline <;> simp [fields]

/-- No frame is shown to wait exactly if none does. -/
theorem shows_none_iff (effectText : S.Effect → String) (outline : Outline S) :
    ("continuations", "\"<none>\"") ∈ (outline.fields effectText).2 ↔ outline.pending = false := by
  obtain ⟨_ | effect, _ | _⟩ := outline <;> simp [fields]

end Outline

theorem outline_pending (program : Program S a) :
    program.outline.pending = !program.code.frames.toList.isEmpty := by
  obtain ⟨⟨node, frames⟩⟩ := program
  cases node <;> exact congrArg (!·) (Sequence.isEmpty_eq frames)

/-! ## 3. Programs that go on -/

/-- Of the second program the same is seen as of the first one, and it is not done. -/
structure GoesOnAs (program : Program S a) (bound : Program S b) : Prop where
  suspended : bound.isSuspended = program.isSuspended
  effect : bound.outline.effect = program.outline.effect
  done : bound.isDone = false

/-- **A frame behind a program does not change what it starts with.** -/
theorem attach_goesOnAs (program : Program S a) (frame : Frame S) (next : Cell) :
    program.GoesOnAs ((program.attach frame : Naming (Program S b)).run next).1 := by
  obtain ⟨⟨node, frames⟩⟩ := program
  have hframes : ((frames.snoc frame).run next).1.isEmpty = false := by
    simp [Sequence.isEmpty_eq]
  cases node with
  | value value => exact ⟨rfl, rfl, hframes⟩
  | ask effect frame => exact ⟨rfl, rfl, rfl⟩

/-- **Inspection tells the truth about every run.**  Take a program of a tree on a session, and an
interpreter that notes the effects that it is given.  What is added to the journal when the program
is carried out is shown by the program: it is done exactly if no function is applied and no effect
is met, it is suspended exactly if an effect is met first, which is the one of its outline, and
neither exactly if a frame is applied first: a function, or a reference to a kept program.  The
outline shows that effect and no other, and it shows that no frame waits exactly if none does.
Whatever goes on from the program is suspended as it is, shows the same effect, and is not done. -/
theorem inspection_true {program : Program S a} {tree : Tree S a} {trees : Trees S}
    {session : Session K.noting} (stands : program.StandsFor tree trees session)
    {turns : Nat} {interpreter : Interpreter K.noting a R}
    (notes : interpreter.Notes (turns + 2)) (effectText : S.Effect → String) :
    (∃ happened, (Run.last (interpreter.carryOut (turns + 2) program session)).journal
        = session.journal ++ happened ∧ program.Shows happened) ∧
      (∀ text, ("effect", text) ∈ (program.outline.fields effectText).2 ↔
        ∃ effect, program.outline.effect = some effect ∧ text = effectText effect) ∧
      (("continuations", "\"<none>\"") ∈ (program.outline.fields effectText).2 ↔
        program.code.frames.toList = []) ∧
      ∀ (b : S.Ty) (next : Cell),
        (∀ function : S.El a → Building S (Program S b),
          program.GoesOnAs ((program.bind function).run next).1 ∧
            program.GoesOnAs ((program.andThen function).run next).1) ∧
        (∀ function : S.El a → Except (Halt S) (S.El b),
          program.GoesOnAs ((program.map function).run next).1) ∧
        ∀ other : Program S b, program.GoesOnAs ((program.followedBy other).run next).1 := by
  obtain ⟨follows, -, agrees⟩ := stands
  obtain ⟨first, opens⟩ := follows.opens
  have hjournal := (notes.begins opens follows.sound agrees).journal
  refine ⟨?_, program.outline.shows_effect_iff effectText, ?_, fun b next => ⟨?_, ?_, ?_⟩⟩
  · obtain ⟨happened, hadded, hfirst⟩ := hjournal.exists_added
    exact ⟨happened, hadded, shows_of_opens opens hfirst⟩
  · rw [Outline.shows_none_iff, outline_pending]
    simp
  · exact fun _ => ⟨program.attach_goesOnAs _ next, program.attach_goesOnAs _ next⟩
  · exact fun _ => program.attach_goesOnAs _ next
  · exact fun _ => program.attach_goesOnAs _ next

end Program

/-- A value that goes on to what is kept at place zero. -/
def idleTree : Tree Jobs.signature Jobs.Ty.unit :=
  (Tree.pure () : Tree Jobs.signature Jobs.Ty.unit).followedByKept 0

/-- The program of that tree, made after the one that is kept, and the next name. -/
def idle : Program Jobs.signature Jobs.Ty.unit × Cell := idleTree.build.run busy.2

theorem idle_standsFor (jobs : Nat) :
    idle.1.StandsFor idleTree busyTrees (Session.startAt idle.2 (jobs, []) :
      Session busyHost.noting) := by
  obtain ⟨ledger, hnext, -, keeps⟩ := busy_follows
  obtain ⟨later, hlater, hlength, follows⟩ := idleTree.build_follows ledger
  have hidle : idle.2 = later.length := by
    rw [← hlength, ← hnext]
    rfl
  have hprogram : idle.1.Follows later idleTree := by
    rw [← hnext] at follows
    exact follows
  rw [hidle]
  exact ⟨hprogram, keeps.mono hlater, Session.startAt_agrees later _⟩

/-- Binds of a value show neither an effect nor a value alone, and in a run with a handler that notes
effects the first thing that happens is that a frame is applied.  So it is with a value that goes on
to what is kept. -/
theorem nested_shown :
    (∃ happened callback,
      (Run.last ((nested.build.run 0).1.tryRunIn 12 countJob.noting.onSession
        (.startAt (nested.build.run 0).2 (0, [])))).journal = happened ∧
      Happening.first happened = some (.applied callback)) ∧
    ∃ happened callback,
      (Run.last (idle.1.tryRunIn 12 tire.noting.onSession (.startAt idle.2 (1, [])))).journal
        = happened ∧
      Happening.first happened = some (.applied callback) := by
  have hstands := nested.build_standsFor (K := countingHost.noting) (fun _ => rfl) (0, [])
  have hnotes : (Interpreter.tryRun countJob.noting.onSession :
      Interpreter countingHost.noting Jobs.Ty.count _).Notes 12 :=
    .tryRun fun effect => Hosted.noting_begins effect (countJob effect)
  have hidles : (Interpreter.tryRun tire.noting.onSession :
      Interpreter busyHost.noting Jobs.Ty.unit _).Notes 12 :=
    .tryRun fun effect => Hosted.noting_begins effect (tire effect)
  constructor
  · obtain ⟨⟨happened, hjournal, hshows⟩, -⟩ :=
      Program.inspection_true hstands hnotes fun _ => "job"
    obtain ⟨callback, hfirst⟩ := hshows.neither.mp ⟨rfl, rfl⟩
    exact ⟨happened, callback, hjournal, hfirst⟩
  · obtain ⟨⟨happened, hjournal, hshows⟩, -⟩ :=
      Program.inspection_true (idle_standsFor 1) hidles fun _ => "job"
    obtain ⟨callback, hfirst⟩ := hshows.neither.mp ⟨rfl, rfl⟩
    exact ⟨happened, callback, hjournal, hfirst⟩

end FreePrograms
