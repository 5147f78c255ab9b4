/-
# Total programs

A program is *total* if every function in it returns: it was put together from values and effects
by binds, its functions give total programs in turn, and nothing in it is kept elsewhere
(`Program.Total`).  What is asked of a function is asked at every value and whichever names are taken
by then.

The definition is inductive, so a total program is a tree of programs in which no branch is endless,
although a function may give a program for each of infinitely many values.  The class is closed
under the combinators (`Program.generated`).  What a total code does in a turn is known: at a value
it is at its end, or its first frame applies and leaves a total code (`Code.Total.turn_value`), and at
an effect it takes the answer, or halts because the answer is of another type
(`Code.Total.turn_ask`).
-/
import FreePrograms.Proofs.Tree.Follows
import FreePrograms.Proofs.Tree.Settles
import FreePrograms.Proofs.Tree.Turns

namespace FreePrograms

variable {S : Signature} {K : Host S} {a b c : S.Ty}

/-! ## 1. Total codes -/

/-- A value of the given type, or an effect whose frame makes a value of that type of each answer
or expects that type. -/
inductive Node.Total {S : Signature} : Node S → S.Ty → Prop
  | value {a : S.Ty} (value : S.El a) : Total (.value ⟨a, value⟩) a
  | expect (effect : S.Effect) (a : S.Ty) : Total (.ask effect (.expect a)) a
  | decode (effect : S.Effect) {a : S.Ty} {decode : Packed S → Except (Halt S) (S.El a)}
    (returns : ∀ answer, ∃ value, decode answer = .ok value) :
    Total (.ask effect (.decode a decode)) a

mutual

/-- Frames that take a value of the first type, one after the other, up to a value of the second
type, by functions that return total codes. -/
inductive TotalFrames {S : Signature} : Ledger (Frame S) → S.Ty → List (Frame S) → S.Ty → Prop
  | nil {ledger : Ledger (Frame S)} {a : S.Ty} : TotalFrames ledger a [] a
  | cons {ledger : Ledger (Frame S)} {a b c : S.Ty} {frames : List (Frame S)}
    {function : S.El a → Cell → Except (Halt S) (Code S × Cell)} (provenance : Provenance)
    (returns : ∀ value later, ledger <+: later →
      TotalReturn later (function value later.length) b)
    (rest : TotalFrames ledger b frames c) :
    TotalFrames ledger a (.bind provenance a function :: frames) c

/-- What a function returns, begun when the names of the ledger were given, is a total code. -/
inductive TotalReturn {S : Signature} :
    Ledger (Frame S) → Except (Halt S) (Code S × Cell) → S.Ty → Prop
  | code {ledger later : Ledger (Frame S)} {code : Code S} {b : S.Ty} (hlater : ledger <+: later)
    (total : Code.Total later code b) : TotalReturn ledger (.ok (code, later.length)) b

/-- A code whose functions all return, with a result of the given type. -/
inductive Code.Total {S : Signature} : Ledger (Frame S) → Code S → S.Ty → Prop
  | intro {ledger : Ledger (Frame S)} {node : Node S} {frames : Sequence (Frame S)} {a b : S.Ty}
    (node_total : node.Total a) (frames_total : TotalFrames ledger a frames.toList b)
    (sound : frames.Sound ledger) : Code.Total ledger (.mk node frames) b

end

namespace TotalFrames

variable {ledger later : Ledger (Frame S)} {frames more : List (Frame S)}

theorem mono (h : ledger <+: later) : {a : S.Ty} → {frames : List (Frame S)} →
    TotalFrames ledger a frames b → TotalFrames later a frames b
  | _, _, .nil => .nil
  | _, _, .cons provenance returns rest =>
    .cons provenance (fun value last hlast => returns value last (h.trans hlast)) (rest.mono h)

/-- Frames that fit end to end, one list after the other. -/
theorem append : {a : S.Ty} → {frames : List (Frame S)} → TotalFrames ledger a frames b →
    TotalFrames ledger b more c → TotalFrames ledger a (frames ++ more) c
  | _, _, .nil, h => h
  | _, _, .cons provenance returns rest, h => .cons provenance returns (rest.append h)

end TotalFrames

theorem Code.Total.mono {ledger later : Ledger (Frame S)} (h : ledger <+: later) {code : Code S}
    (hcode : code.Total ledger a) : code.Total later a := by
  cases hcode with
  | intro node_total frames_total sound =>
    exact .intro node_total (frames_total.mono h) (sound.mono h)

theorem Code.Total.frames_sound {ledger : Ledger (Frame S)} {code : Code S}
    (h : code.Total ledger a) : code.frames.Sound ledger := by
  cases h with
  | intro _ _ sound => exact sound

theorem TotalReturn.exists_made {ledger : Ledger (Frame S)}
    {result : Except (Halt S) (Code S × Cell)} (h : TotalReturn ledger result b) :
    ∃ later made, ledger <+: later ∧ result = .ok (made, later.length) ∧
      made.frames.Sound later ∧ made.Total later b := by
  cases h with
  | @code _ later made _ hlater total => exact ⟨later, made, hlater, rfl, total.frames_sound, total⟩

/-- A program whose functions all return. -/
def Program.Total (ledger : Ledger (Frame S)) (program : Program S a) : Prop :=
  program.code.Total ledger a

/-- Steps that make a total program, begun when the names of the ledger were given. -/
def Building.Total (ledger : Ledger (Frame S)) (steps : Building S (Program S b)) : Prop :=
  TotalReturn ledger ((steps ledger.length).map fun made => (made.1.code, made.2)) b

namespace Building.Total

variable {ledger : Ledger (Frame S)}

/-- Steps that only take names. -/
theorem of_ensures {steps : Naming (Program S b)}
    (h : Naming.Ensures ledger steps fun later made => made.Total later) :
    Building.Total ledger (liftM steps) := by
  obtain ⟨later, hlater, hlength, hmade⟩ := h
  have hreturn := TotalReturn.code hlater hmade
  rw [← hlength] at hreturn
  exact hreturn

/-- A program that was there before, returned. -/
theorem ready {program : Program S b} (h : program.Total ledger) :
    Building.Total ledger (Pure.pure program) := .code (List.prefix_refl ledger) h

end Building.Total

/-! ## 2. The combinators -/

namespace Program

variable {ledger later : Ledger (Frame S)} {program : Program S a}

theorem Total.mono (h : ledger <+: later) (hprogram : program.Total ledger) :
    program.Total later := Code.Total.mono h hprogram

/-- A program without frames. -/
theorem bare_total {node : Node S} (h : node.Total a) :
    (⟨.mk node .empty⟩ : Program S a).Total ledger :=
  .intro h (by rw [Sequence.toList_empty]; exact .nil) .empty

theorem pure_total (value : S.El a) : (pure value).Total ledger := bare_total (.value value)

theorem lift_total (effect : S.Effect) : (lift effect : Program S a).Total ledger :=
  bare_total (.expect effect a)

theorem liftWith_total (effect : S.Effect) {decode : Packed S → Except (Halt S) (S.El a)}
    (returns : ∀ answer, ∃ value, decode answer = .ok value) :
    (liftWith effect decode).Total ledger := bare_total (.decode effect returns)

/-- **A bind of total programs is total.** -/
theorem bindAs_total (provenance : Provenance) (hprogram : program.Total ledger)
    {function : S.El a → Building S (Program S b)}
    (returns : ∀ value later, ledger <+: later → (function value).Total later) :
    Naming.Ensures ledger (program.bindAs provenance function) fun later made =>
      made.Total later := by
  obtain ⟨node, frames⟩ := program
  cases hprogram with
  | @intro _ _ frames _ _ node_total frames_total sound =>
  refine (Sequence.snoc_ensures sound _).bind fun later made hlater hmade => .pure ?_
  refine .intro node_total ?_ hmade.1
  rw [hmade.2]
  refine (frames_total.mono hlater).append (.cons provenance (fun value last hlast => ?_) .nil)
  have hreturn : TotalReturn last _ b := returns value last (hlater.trans hlast)
  rw [← code_of_steps] at hreturn
  exact hreturn

theorem bind_total (hprogram : program.Total ledger)
    {function : S.El a → Building S (Program S b)}
    (returns : ∀ value later, ledger <+: later → (function value).Total later) :
    Naming.Ensures ledger (program.bind function) fun later made => made.Total later :=
  bindAs_total .given hprogram returns

theorem andThen_total (hprogram : program.Total ledger)
    {function : S.El a → Building S (Program S b)}
    (returns : ∀ value later, ledger <+: later → (function value).Total later) :
    Naming.Ensures ledger (program.andThen function) fun later made => made.Total later :=
  bindAs_total .given hprogram returns

theorem map_total (hprogram : program.Total ledger)
    {function : S.El a → Except (Halt S) (S.El b)}
    (returns : ∀ value, ∃ result, function value = .ok result) :
    Naming.Ensures ledger (program.map function) fun later made => made.Total later := by
  refine bindAs_total .given hprogram fun value later _ => ?_
  obtain ⟨result, hresult⟩ := returns value
  rw [hresult]
  exact Building.Total.ready (pure_total result)

theorem followedBy_total (hprogram : program.Total ledger) {next : Program S b}
    (hnext : next.Total ledger) :
    Naming.Ensures ledger (program.followedBy next) fun later made => made.Total later :=
  bindAs_total .glue hprogram fun _ _ hlater => .ready (hnext.mono hlater)

/-- The class of total programs: values and effects are in it, and what the combinators make of
programs of the class, if the functions handed in return, and return programs of the class where
programs are wanted. -/
structure Generated (ledger : Ledger (Frame S)) : Prop where
  pure {a : S.Ty} (value : S.El a) : (Program.pure value).Total ledger
  lift {a : S.Ty} (effect : S.Effect) : (Program.lift effect : Program S a).Total ledger
  liftWith {a : S.Ty} (effect : S.Effect) {decode : Packed S → Except (Halt S) (S.El a)}
    (returns : ∀ answer, ∃ value, decode answer = .ok value) :
    (Program.liftWith effect decode).Total ledger
  bind {a b : S.Ty} {program : Program S a} (total : program.Total ledger)
    {function : S.El a → Building S (Program S b)}
    (returns : ∀ value later, ledger <+: later → (function value).Total later) :
    Naming.Ensures ledger (program.bind function) fun later made => made.Total later
  andThen {a b : S.Ty} {program : Program S a} (total : program.Total ledger)
    {function : S.El a → Building S (Program S b)}
    (returns : ∀ value later, ledger <+: later → (function value).Total later) :
    Naming.Ensures ledger (program.andThen function) fun later made => made.Total later
  map {a b : S.Ty} {program : Program S a} (total : program.Total ledger)
    {function : S.El a → Except (Halt S) (S.El b)}
    (returns : ∀ value, ∃ result, function value = .ok result) :
    Naming.Ensures ledger (program.map function) fun later made => made.Total later
  followedBy {a b : S.Ty} {program : Program S a} (total : program.Total ledger)
    {next : Program S b} (next_total : next.Total ledger) :
    Naming.Ensures ledger (program.followedBy next) fun later made => made.Total later

/-- **The combinators make total programs of total ones.** -/
theorem generated (ledger : Ledger (Frame S)) : Generated ledger where
  pure := pure_total
  lift := lift_total
  liftWith := liftWith_total
  bind := bind_total
  andThen := andThen_total
  map := map_total
  followedBy := followedBy_total

end Program

/-! ## 3. What a total code does in a turn -/

/-- One iteration of the loop at a value: the first frame is applied to it, and the other frames are
put behind what it makes; or there is no frame. -/
def Code.applyFirst (value : Packed S) (frames : Sequence (Frame S)) : Run K (Option (Code S)) := do
  match ← Run.pop frames with
  | none => return none
  | some (frame, rest) =>
    let code ← frame.apply value
    return some (← code.append rest)

theorem Code.advance_value (turns : Nat) (value : Packed S) (frames : Sequence (Frame S)) :
    (Code.mk (.value value) frames).advance (turns + 1) = (do
      match ← Code.applyFirst value frames with
      | none => return .finished value
      | some code => code.advance turns : Run K (Stop S)) := by
  rw [Code.advance, Code.applyFirst, bind_assoc]
  refine bind_congr ?_
  intro popped
  cases popped with
  | none => rfl
  | some popped => simp only [bind_assoc, pure_bind]

/-- The code is the given one with further frames behind it. -/
structure Code.Joins (ledger : Ledger (Frame S)) (made : Code S) (rest : List (Frame S))
    (next : Code S) : Prop where
  node_eq : next.node = made.node
  sound : next.frames.Sound ledger
  frames_eq : next.frames.toList = made.frames.toList ++ rest

section Turn

variable {ledger : Ledger (Frame S)} {session : Session K} {sequence : Sequence (Frame S)}

theorem Code.append_joins {made : Code S} (hmade : made.frames.Sound ledger)
    (sound : sequence.Sound ledger) (agrees : session.memo.Agrees ledger) :
    ∃ later next last, ledger <+: later ∧ last.memo.Agrees later ∧
      Run.naming (made.append sequence) session = .ok next last ∧
      Code.Joins later made sequence.toList next := by
  obtain ⟨later, next, last, hlater, hagrees, -, happend, hnode, hsound, hframes⟩ :=
    Run.naming_eq (Code.append_ensures made hmade sound) agrees
  exact ⟨later, next, last, hlater, hagrees, happend, hnode, hsound, hframes⟩

/-- **No frame is left.** -/
theorem Code.applyFirst_nil (sound : sequence.Sound ledger) (hframes : sequence.toList = [])
    (agrees : session.memo.Agrees ledger) (value : Packed S) :
    ∃ later last, ledger <+: later ∧ last.memo.Agrees later ∧
      Code.applyFirst value sequence session = .ok none last := by
  obtain ⟨later, popped, last, hlater, hagrees, -, hpop, hsplits⟩ := Run.pop_eq sound agrees
  rw [hframes] at hsplits
  cases hsplits
  exact ⟨later, last, hlater, hagrees, bind_of_ok hpop⟩

/-- **The frame of a bind applies** if its function returns a code; the other frames come behind that
code. -/
theorem Code.applyFirst_bind {provenance : Provenance}
    {function : S.El a → Cell → Except (Halt S) (Code S × Cell)} {rest : List (Frame S)}
    {good : Ledger (Frame S) → Code S → Prop} (sound : sequence.Sound ledger)
    (hframes : sequence.toList = .bind provenance a function :: rest)
    (agrees : session.memo.Agrees ledger) (value : S.El a)
    (returns : ∀ later, ledger <+: later → ∃ last made, later <+: last ∧
      function value later.length = .ok (made, last.length) ∧ made.frames.Sound last ∧
      good last made) :
    ∃ made between later next last, ledger <+: between ∧ good between made ∧ between <+: later ∧
      last.memo.Agrees later ∧ Code.Joins later made rest next ∧
      Code.applyFirst ⟨a, value⟩ sequence session = .ok (some next) last := by
  obtain ⟨later, popped, s, hlater, hagrees, -, hpop, hsplits⟩ := Run.pop_eq sound agrees
  rw [hframes] at hsplits
  cases hsplits with
  | @cons _ pending hpending =>
  obtain ⟨between, made, hbetween, hmade, hsound, hgood⟩ := returns later hlater
  have happly : (Frame.bind provenance a function).apply ⟨a, value⟩ s
      = .ok made ((s.observed (.bind provenance ⟨a, value⟩)).named between.length) := by
    have hbuilt : function value (s.observed (.bind provenance ⟨a, value⟩)).memo.next
        = .ok (made, between.length) := hagrees.next_eq ▸ hmade
    have hobserve : (Run.observe (.bind provenance ⟨a, value⟩) : Run K Unit) s
        = .ok () (s.observed (.bind provenance ⟨a, value⟩)) := rfl
    rw [Frame.bind_apply, bind_of_ok hobserve]
    exact Run.building_of_ok hbuilt
  have hnamed : ((s.observed (.bind provenance ⟨a, value⟩)).named between.length).memo.Agrees
      between := hagrees.mono hbetween
  obtain ⟨final, next, last, hfinal, hagrees', happend, hjoins⟩ :=
    Code.append_joins hsound (hpending.mono hbetween) hnamed
  refine ⟨made, between, final, next, last, hlater.trans hbetween, hgood, hfinal, hagrees', hjoins,
    ?_⟩
  have hrest : (do
      let code ← (Frame.bind provenance a function).apply ⟨a, value⟩
      return some (← code.append pending) : Run K (Option (Code S))) s = .ok (some next) last := by
    rw [bind_of_ok happly]
    exact bind_of_ok happend
  exact (bind_of_ok hpop).trans hrest

/-- What takes an answer made a value of it; the frames that are pending come behind the value. -/
theorem Waiting.answer_value {effect : S.Effect} {frame : Frame S} {answer : Packed S}
    {value : S.El a} {taken : Session K} (sound : sequence.Sound ledger)
    (agrees : taken.memo.Agrees ledger)
    (happly : frame.apply answer session = .ok (.ofValue a value) taken) :
    ∃ later next last, ledger <+: later ∧ last.memo.Agrees later ∧
      Code.Joins later (.ofValue a value) sequence.toList next ∧
      Waiting.answer ⟨effect, frame, sequence⟩ answer session = .ok next last := by
  have hempty : (Code.ofValue a value).frames.Sound ledger := .empty
  obtain ⟨later, next, last, hlater, hagrees, happend, hjoins⟩ :=
    Code.append_joins hempty sound agrees
  exact ⟨later, next, last, hlater, hagrees, hjoins, (bind_of_ok happly).trans happend⟩

/-- **A total node takes an answer**, or the answer is of another type than it expects. -/
theorem Node.Total.answer {effect : S.Effect} {frame : Frame S}
    (h : (Node.ask effect frame).Total a) (sound : sequence.Sound ledger)
    (agrees : session.memo.Agrees ledger) (answer : Packed S) :
    Waiting.answer ⟨effect, frame, sequence⟩ answer session
        = .error (.mismatch .answer a) session ∨
      ∃ value later next last, ledger <+: later ∧ last.memo.Agrees later ∧
        Code.Joins later (.ofValue a value) sequence.toList next ∧
        Waiting.answer ⟨effect, frame, sequence⟩ answer session = .ok next last := by
  cases h with
  | expect =>
    by_cases htype : answer.type = a
    · obtain ⟨type, value⟩ := answer
      subst htype
      have happly : (Frame.expect type).apply ⟨type, value⟩ session
          = .ok (.ofValue type value) session := by
        rw [Frame.apply, Packed.unpack_self]
        rfl
      exact .inr ⟨value, Waiting.answer_value sound agrees happly⟩
    · refine .inl ?_
      rw [Waiting.answer, Frame.apply, Packed.unpack_of_ne .answer htype]
      rfl
  | @decode _ _ decode returns =>
    obtain ⟨value, hvalue⟩ := returns answer
    have hagrees : (session.observed (.decode answer)).memo.Agrees ledger := agrees
    have happly : (Frame.decode a decode).apply answer session
        = .ok (.ofValue a value) (session.observed (.decode answer)) := by
      rw [Frame.apply, hvalue]
      rfl
    exact .inr ⟨value, Waiting.answer_value sound hagrees happly⟩

end Turn

/-! ## 4. Total codes stay total -/

/-- The code, whose results are of the given type, is total on the session. -/
inductive Code.TotalOn (type : S.Ty) (code : Code S) (session : Session K) : Prop
  | intro {ledger : Ledger (Frame S)} (total : code.Total ledger type)
    (agrees : session.memo.Agrees ledger)

section Total

variable {ledger later : Ledger (Frame S)} {session : Session K}

theorem Code.Joins.total {made next : Code S} {rest : List (Frame S)} {between : Ledger (Frame S)}
    (hjoins : Code.Joins later made rest next) (hbetween : between <+: later)
    (hmade : made.Total between b) (hrest : TotalFrames later b rest c) : next.Total later c := by
  cases hmade with
  | @intro _ _ frames _ _ node_total frames_total sound =>
  obtain ⟨node, sequence⟩ := next
  obtain ⟨hnode, hsound, hframes⟩ := hjoins
  cases hnode
  refine .intro node_total ?_ hsound
  rw [show sequence.toList = frames.toList ++ rest from hframes]
  exact (frames_total.mono hbetween).append hrest

/-- **A total code at a value** is at its end, with a value of its type, or its first frame applies
and leaves a total code. -/
theorem Code.Total.turn_value {value : Packed S} {frames : Sequence (Frame S)}
    (h : (Code.mk (.value value) frames).Total ledger b) (agrees : session.memo.Agrees ledger) :
    (∃ result last, value = ⟨b, result⟩ ∧
      Code.applyFirst value frames session = .ok none last) ∨
    ∃ next last, next.TotalOn b last ∧
      Code.applyFirst value frames session = .ok (some next) last := by
  cases h with
  | intro node_total frames_total sound =>
  cases node_total with
  | value value =>
  generalize hframes : frames.toList = list at frames_total
  cases frames_total with
  | nil =>
    obtain ⟨later, last, -, -, happly⟩ := Code.applyFirst_nil sound hframes agrees ⟨b, value⟩
    exact .inl ⟨value, last, rfl, happly⟩
  | cons provenance returns rest =>
    obtain ⟨made, between, later, next, last, hbetween, hmade, hlater, hagrees, hjoins, happly⟩ :=
      Code.applyFirst_bind sound hframes agrees value
        fun later hlater => (returns value later hlater).exists_made
    have hrest := rest.mono (hbetween.trans hlater)
    exact .inr ⟨next, last, ⟨hjoins.total hlater hmade hrest, hagrees⟩, happly⟩

/-- **A total code at an effect** takes an answer and is total then, or halts because the answer is
of another type. -/
theorem Code.Total.turn_ask {effect : S.Effect} {frame : Frame S} {frames : Sequence (Frame S)}
    (h : (Code.mk (.ask effect frame) frames).Total ledger b) (agrees : session.memo.Agrees ledger)
    (answer : Packed S) :
    (∃ expected, Waiting.answer ⟨effect, frame, frames⟩ answer session
      = .error (.mismatch .answer expected) session) ∨
    ∃ next last, next.TotalOn b last ∧
      Waiting.answer ⟨effect, frame, frames⟩ answer session = .ok next last := by
  cases h with
  | @intro _ _ _ a _ node_total frames_total sound =>
  obtain hmismatch | ⟨value, later, next, last, hlater, hagrees, hjoins, hanswer⟩ :=
    node_total.answer sound agrees answer
  · exact .inl ⟨a, hmismatch⟩
  · have hmade : (Code.ofValue a value).Total later a := Program.pure_total value
    exact .inr ⟨next, last,
      ⟨hjoins.total (List.prefix_refl later) hmade (frames_total.mono hlater), hagrees⟩, hanswer⟩

end Total

end FreePrograms
