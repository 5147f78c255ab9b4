/-
# Programs are run as the plain stack machine runs them

A program holds its frames in sequences that are linked and split again in every turn, with a table
of tails that all programs share.  The machine has a list of frames.  Turn by turn the two do the
same: the first frame of the list is the one that is split off, it is applied on the same session,
and what is put behind the frames that it returned are the others, in their order
(`Code.Fits.turn_value`, `Code.Fits.resumed`).  So to advance a program is to let the machine run
until it stops (`Code.Fits.advance_comes`), whatever a program comes to is where a history of the
machine leads (`Code.Fits.goes`), and so is where a run with a handler ends (`Code.Fits.ends`).
-/
import FreePrograms.Proofs.Run.Calls
import FreePrograms.Proofs.Run.Stacked
import FreePrograms.Proofs.Tree.Beside
import FreePrograms.Proofs.Tree.Run
import FreePrograms.Proofs.Tree.Turns

namespace FreePrograms

variable {S : Signature} {K : Host S} {type : S.Ty} {Failure : Type} {allowed : Halt S → Prop}

/-! ## 1. One turn -/

/-- Frames are put behind those of a code as the machine puts them. -/
theorem Code.append_stack {ledger : Ledger (Frame S)} {made : Code S} {rest : Sequence (Frame S)}
    {session : Session K} (hmade : made.frames.Sound ledger) (hrest : rest.Sound ledger)
    (agrees : session.memo.Agrees ledger) :
    ∃ next last, Run.naming (made.append rest) session = .ok next last ∧ session.Tabled last ∧
      next.stack = Stack.returned made rest.toList := by
  obtain ⟨later, next, last, -, -, -, happend, hnode, -, hframes⟩ :=
    Run.naming_eq (made.append_ensures hmade hrest) agrees
  refine ⟨next, last, happend, Run.naming_tabled happend, ?_⟩
  rw [Code.stack, Stack.returned, hnode, hframes]

namespace Code.Fits

variable {base : Ledger (Frame S)} {code next : Code S} {session last : Session K}

/-- **A turn at a value.**  There is no frame, or the first one is taken off, and what it returns
has the others behind it. -/
theorem turn_value (keeps : (K.equal allowed).Keeps base base) {value : Packed S}
    {frames : Sequence (Frame S)}
    (h : (Code.mk (.value value) frames).Fits allowed base type session) :
    ((Code.mk (.value value) frames).stack = ⟨.value value, []⟩ ∧
      ∃ popped, Run.pop frames session = .ok none popped) ∨
    ∃ frame rest popped,
      (Code.mk (.value value) frames).stack = ⟨.value value, frame :: rest.toList⟩ ∧
      Run.pop frames session = .ok (some (frame, rest)) popped ∧
      ∀ made applied, frame.apply value popped = .ok made applied →
        ∃ next linked, Run.naming (made.append rest) applied = .ok next linked ∧
          applied.Tabled linked ∧ next.stack = Stack.returned made rest.toList := by
  obtain ⟨first, second, agrees, agrees', codes⟩ := h
  cases codes with
  | intro nodes chain sound sound' =>
  cases nodes with
  | value value =>
  obtain ⟨_, popped, s, -, -, -, hpop, hsplits⟩ := Run.pop_eq sound agrees
  obtain ⟨later, later', hlater, hlater', hagrees, hagrees', hpopped⟩ :=
    (Pact.Abreast.pop sound sound' chain).equal_ok agrees agrees' hpop
  rw [Code.stack, Code.node, Code.frames]
  generalize frames.toList = list at hsplits
  cases hsplits with
  | nil => exact .inl ⟨rfl, s, hpop⟩
  | @cons frame rest _ =>
    refine .inr ⟨frame, rest, s, rfl, hpop, ?_⟩
    intro made applied happly
    cases hpopped with
    | some link _ hsound _ =>
    have hkeeps := keeps.mono (first.trans hlater) (second.trans hlater')
    obtain ⟨final, final', hfinal, -, hagrees, -, hcodes⟩ :=
      (link.apply hkeeps value).equal_ok hagrees hagrees' happly
    exact append_stack hcodes.sound (hsound.mono hfinal) hagrees

/-- **A turn at an effect.**  What its frame returns for the answer has the pending frames behind
it; if it halts, nothing else happens. -/
theorem resumed {effect : S.Effect} {frame : Frame S} {frames : Sequence (Frame S)}
    (h : (Code.mk (.ask effect frame) frames).Fits allowed base type session) (answer : Packed S) :
    (∀ made applied, frame.apply answer session = .ok made applied →
      ∃ next last, Waiting.answer ⟨effect, frame, frames⟩ answer session = .ok next last ∧
        applied.Tabled last ∧ next.stack = Stack.returned made frames.toList) ∧
    (∀ halt last, frame.apply answer session = .error halt last →
      Waiting.answer ⟨effect, frame, frames⟩ answer session = .error halt last) := by
  obtain ⟨first, second, agrees, agrees', codes⟩ := h
  cases codes with
  | intro nodes chain sound sound' =>
  cases nodes with
  | ask effect takes =>
  refine ⟨?_, fun halt last happly => bind_of_error happly⟩
  intro made applied happly
  obtain ⟨later, later', hlater, -, hagrees, -, hcodes⟩ :=
    (takes.apply answer).equal_ok agrees agrees' happly
  obtain ⟨next, last, happend, htabled, hstack⟩ :=
    append_stack hcodes.sound (sound.mono hlater) hagrees
  exact ⟨next, last, (bind_of_ok happly).trans happend, htabled, hstack⟩

end Code.Fits

/-! ## 2. Up to the next effect -/

/-- What the machine comes to from a stack in so many turns, without answers: it stops, its next
frame cannot be applied, or it took as many turns as it may.  Meanwhile the table may change. -/
inductive Stack.Comes (stack : Stack S) (session : Session K) :
    Nat → EStateM.Result (Halt S) (Session K) (FreePrograms.Stop S) → Prop
  | stopped {turns : Nat} {history : History S} {stack' : Stack S} {stop : FreePrograms.Stop S}
    {last : Session K} (goes : stack.Goes Session.Tabled session history stack' last)
    (alone : history.answers = []) (fewer : history.length < turns)
    (stops : stack'.stopped = some stop.stack) : Comes stack session turns (.ok stop last)
  | stuck {turns : Nat} {history : History S} {value : Packed S} {frame : Frame S}
    {pending : List (Frame S)} {halt : Halt S} {before last : Session K}
    (goes : stack.Goes Session.Tabled session history ⟨.value value, frame :: pending⟩ before)
    (alone : history.answers = []) (fewer : history.length < turns)
    (apply : frame.apply value before = .error halt last) :
    Comes stack session turns (.error halt last)
  | exhausted {turns : Nat} {history : History S} {stack' : Stack S} {last : Session K}
    (goes : stack.Goes Session.Tabled session history stack' last) (alone : history.answers = [])
    (all : history.length = turns) : Comes stack session turns (.error .exhausted last)

namespace Stack.Comes

variable {stack : Stack S} {session later : Session K} {turns : Nat}
  {result : EStateM.Result (Halt S) (Session K) (FreePrograms.Stop S)}

/-- After the table changed. -/
theorem meanwhile (happens : session.Tabled later) (h : stack.Comes later turns result) :
    stack.Comes session turns result := by
  cases h with
  | stopped goes alone fewer stops => exact .stopped (.meanwhile happens goes) alone fewer stops
  | stuck goes alone fewer apply => exact .stuck (.meanwhile happens goes) alone fewer apply
  | exhausted goes alone all => exact .exhausted (.meanwhile happens goes) alone all

/-- After one turn more. -/
theorem applied {value : Packed S} {frame : Frame S} {pending : List (Frame S)} {code : Code S}
    (apply : frame.apply value session = .ok code later)
    (h : (returned code pending).Comes later turns result) :
    (⟨.value value, frame :: pending⟩ : Stack S).Comes session (turns + 1) result := by
  cases h with
  | stopped goes alone fewer stops =>
    exact .stopped (.applied apply goes) alone (Nat.succ_lt_succ fewer) stops
  | stuck goes alone fewer fails =>
    exact .stuck (.applied apply goes) alone (Nat.succ_lt_succ fewer) fails
  | exhausted goes alone all =>
    exact .exhausted (.applied apply goes) alone (congrArg Nat.succ all)

end Stack.Comes

/-- What may happen between two turns: the table changes, or anything else that leaves tables that
fit. -/
def Session.Meanwhile (session later : Session K) : Prop :=
  session.Tabled later ∨ session.Onward later

namespace Code.Fits

variable {base : Ledger (Frame S)} {code next : Code S} {session last : Session K}

/-- **To advance is to let the machine run** until it stops. -/
theorem advance_comes (keeps : (K.equal allowed).Keeps base base) (turns : Nat)
    (h : code.Fits allowed base type session) :
    code.stack.Comes session turns (code.advance turns session) := by
  induction turns generalizing code session with
  | zero => exact .exhausted .here rfl rfl
  | succ turns ih =>
    obtain ⟨node, frames⟩ := code
    cases node with
    | ask effect frame => exact .stopped .here rfl (Nat.succ_pos turns) rfl
    | value value =>
      rw [Code.advance]
      rcases h.turn_value keeps with ⟨hstack, s, hpop⟩ | ⟨frame, rest, s, hstack, hpop, hturn⟩
      · rw [bind_of_ok hpop, hstack]
        exact .stopped (.meanwhile (Run.pop_tabled hpop) .here) rfl (Nat.succ_pos turns) rfl
      · rw [bind_of_ok hpop, hstack]
        refine .meanwhile (Run.pop_tabled hpop) ?_
        dsimp only
        cases happly : frame.apply value s with
        | error halt last =>
          rw [bind_of_error happly]
          exact .stuck .here rfl (Nat.succ_pos turns) happly
        | ok made applied =>
          rw [bind_of_ok happly]
          obtain ⟨next, linked, happend, htabled, hnext⟩ := hturn made applied happly
          have hcomes := ih (h.applied keeps hpop happly happend)
          rw [hnext] at hcomes
          have hlinked : (liftM (made.append rest) : Run K (Code S)) applied = .ok next linked :=
            happend
          rw [bind_of_ok hlinked]
          exact .applied happly (.meanwhile htabled hcomes)

/-! ## 3. Everything a program comes to -/

/-- **Where a program comes to, a history of the machine leads.** -/
theorem goes (keeps : (K.equal allowed).Keeps base base) (h : code.Fits allowed base type session)
    (hcomes : code.ComesTo session next last) :
    ∃ history, code.stack.Goes Session.Meanwhile session history next.stack last := by
  induction hcomes with
  | here => exact ⟨[], .here⟩
  | onward _ honward ih =>
    obtain ⟨history, hgoes⟩ := ih
    exact ⟨_, hgoes.trans (.meanwhile (.inr honward) .here)⟩
  | @applied value frames rest frame made next s popped applied linked before pop apply append ih =>
    obtain ⟨history, hgoes⟩ := ih
    rcases (h.comesTo keeps before).turn_value keeps with
      ⟨-, s', hpop⟩ | ⟨_, _, s', hstack, hpop, hturn⟩
    · cases pop.symm.trans hpop
    · cases pop.symm.trans hpop
      obtain ⟨_, _, happend, htabled, hnext⟩ := hturn made applied apply
      cases append.symm.trans happend
      rw [hstack] at hgoes
      rw [hnext]
      have hturn : Stack.Goes Session.Meanwhile ⟨.value value, frame :: rest.toList⟩ popped
          [.applied frame value made.frames.toList] (Stack.returned made rest.toList) linked :=
        .applied apply (.meanwhile (.inl htabled) .here)
      exact ⟨_, hgoes.trans (.meanwhile (.inl (Run.pop_tabled pop)) hturn)⟩
  | @answered effect frame frames answer next s last before hanswer ih =>
    obtain ⟨history, hgoes⟩ := ih
    obtain ⟨htakes, hhalts⟩ := (h.comesTo keeps before).resumed answer
    cases happly : frame.apply answer s with
    | error halt final => cases hanswer.symm.trans (hhalts halt final happly)
    | ok made applied =>
      obtain ⟨_, _, hnext, htabled, hstack⟩ := htakes made applied happly
      cases hanswer.symm.trans hnext
      rw [hstack]
      exact ⟨_, hgoes.trans (.answered happly (.meanwhile (.inl htabled) .here))⟩

end Code.Fits

/-! ## 4. Runs with a handler -/

/-- Stopped at a value, the machine has nothing pending. -/
theorem Stack.eq_of_finished {stack : Stack S} {value : Packed S}
    (h : stack.stopped = some (.finished value)) : stack = ⟨.value value, []⟩ := by
  obtain ⟨node, pending⟩ := stack
  cases node with
  | ask effect frame => cases h
  | value other =>
    cases pending with
    | nil =>
      cases h
      rfl
    | cons frame pending => cases h

/-- Stopped at an effect, it has the frames of the stop pending. -/
theorem Stack.eq_of_waiting {stack : Stack S} {effect : S.Effect} {frame : Frame S}
    {pending : List (Frame S)} (h : stack.stopped = some (.waiting effect frame pending)) :
    stack = ⟨.ask effect frame, pending⟩ := by
  obtain ⟨node, pending'⟩ := stack
  cases node with
  | ask effect' frame' =>
    cases h
    rfl
  | value value =>
    cases pending' with
    | nil => cases h
    | cons frame' pending' => cases h

/-- How a run with a handler ends where the machine stands, after so many answers. -/
inductive Stack.Ends (handler : Handler K Failure) (answers : Nat) :
    Stack S → Session K → EStateM.Result (Halt S) (Session K) (Except Failure (Packed S)) → Prop
  /-- The value is the result, and nothing is pending. -/
  | finished {value : Packed S} {last : Session K} :
    Ends handler answers ⟨.value value, []⟩ last
      (.ok (.ok value) (last.told (.programFinished answers)))
  | refused {effect : S.Effect} {frame : Frame S} {pending : List (Frame S)}
    {asked last : Session K} {failure : Failure}
    (call : handler effect asked = .ok (.error failure) last) :
    Ends handler answers ⟨.ask effect frame, pending⟩ asked
      (.ok (.error failure) (last.told (.handlerFailed (answers + 1))))
  /-- The handler halts. -/
  | struck {effect : S.Effect} {frame : Frame S} {pending : List (Frame S)}
    {asked last : Session K} {halt : Halt S} (call : handler effect asked = .error halt last) :
    Ends handler answers ⟨.ask effect frame, pending⟩ asked (.error halt last)
  /-- The frame of the effect does not take the answer. -/
  | misanswered {effect : S.Effect} {frame : Frame S} {pending : List (Frame S)}
    {asked answered last : Session K} {answer : Packed S} {halt : Halt S}
    (call : handler effect asked = .ok (.ok answer) answered)
    (apply : frame.apply answer answered = .error halt last) :
    Ends handler answers ⟨.ask effect frame, pending⟩ asked (.error halt last)
  /-- The first of the pending frames halts. -/
  | stuck {value : Packed S} {frame : Frame S} {pending : List (Frame S)}
    {before last : Session K} {halt : Halt S}
    (apply : frame.apply value before = .error halt last) :
    Ends handler answers ⟨.value value, frame :: pending⟩ before (.error halt last)
  | exhausted {stack : Stack S} {last : Session K} :
    Ends handler answers stack last (.error .exhausted last)

namespace Code.Fits

variable {base : Ledger (Frame S)} {code : Code S} {session asked : Session K} {turns : Nat}
  {waiting : Waiting S}

/-- Up to an effect the machine goes to where the effect is on top. -/
theorem goes_waiting (keeps : (K.equal allowed).Keeps base base)
    (h : code.Fits allowed base type session)
    (advance : code.advance turns session = .ok (.waiting waiting) asked) :
    ∃ history, code.stack.Goes Session.Meanwhile session history
        ⟨.ask waiting.effect waiting.frame, waiting.pending.toList⟩ asked ∧
      history.answers = [] := by
  have hcomes := h.advance_comes keeps turns
  rw [advance] at hcomes
  cases hcomes with
  | stopped goes alone _ stops =>
    obtain rfl := Stack.eq_of_waiting stops
    exact ⟨_, goes.mono fun _ _ => .inl, alone⟩

/-- Where a fitting code waits for an answer, what waits fits. -/
theorem waits (keeps : (K.equal allowed).Keeps base base)
    (h : code.Fits allowed base type session)
    (advance : code.advance turns session = .ok (.waiting waiting) asked) :
    (Code.mk (.ask waiting.effect waiting.frame) waiting.pending).Fits allowed base type asked := by
  obtain ⟨first, second, agrees, agrees', codes⟩ := h
  obtain ⟨later, later', hlater, hlater', hagrees, hagrees', hstops⟩ :=
    (codes.advance (keeps.mono first second) turns).equal_ok agrees agrees' advance
  cases hstops with
  | waiting waits =>
  cases waits with
  | intro effect takes chain sound sound' =>
  exact ⟨first.trans hlater, second.trans hlater', hagrees, hagrees',
    .intro (.ask effect takes) chain sound sound'⟩

/-- **A run with a handler ends where a history of the machine leads**, with a turn for each answer,
whatever the handler does that leaves tables that fit. -/
theorem ends (keeps : (K.equal allowed).Keeps base base) {handler : Handler K Failure}
    (onward : ∀ effect (session : Session K), session.Onward (Run.last (handler effect session)))
    {effects : Nat} {calls : List (Call K S.Effect)}
    {result : EStateM.Result (Halt S) (Session K) (Except Failure (Packed S))}
    (hruns : Code.Runs handler turns effects code session calls result)
    (h : code.Fits allowed base type session) :
    ∃ history stack last, code.stack.Goes Session.Meanwhile session history stack last ∧
      stack.Ends handler (effects + history.answers.length) last result := by
  induction hruns with
  | exhausted => exact ⟨[], _, _, .here, .exhausted⟩
  | @stuck turns _ _ _ _ _ advance =>
    have hcomes := h.advance_comes keeps turns
    rw [advance] at hcomes
    cases hcomes with
    | stuck goes _ _ apply => exact ⟨_, _, _, goes.mono fun _ _ => .inl, .stuck apply⟩
    | exhausted goes _ _ => exact ⟨_, _, _, goes.mono fun _ _ => .inl, .exhausted⟩
  | @finished turns _ _ _ _ _ advance =>
    have hcomes := h.advance_comes keeps turns
    rw [advance] at hcomes
    cases hcomes with
    | stopped goes alone _ stops =>
      obtain rfl := Stack.eq_of_finished stops
      refine ⟨_, _, _, goes.mono fun _ _ => .inl, ?_⟩
      rw [alone]
      exact .finished
  | refused advance call =>
    obtain ⟨history, hgoes, alone⟩ := h.goes_waiting keeps advance
    refine ⟨history, _, _, hgoes, ?_⟩
    rw [alone]
    exact .refused call
  | struck advance call =>
    obtain ⟨history, hgoes, alone⟩ := h.goes_waiting keeps advance
    exact ⟨history, _, _, hgoes, .struck call⟩
  | @misanswered _ _ _ _ asked answered _ waiting answer _ advance call taken =>
    obtain ⟨history, hgoes, alone⟩ := h.goes_waiting keeps advance
    have honward := onward waiting.effect asked
    rw [call] at honward
    obtain ⟨htakes, hhalts⟩ := ((h.waits keeps advance).onward honward).resumed answer
    refine ⟨history, _, _, hgoes, .misanswered call ?_⟩
    cases happly : waiting.frame.apply answer answered with
    | error halt last => exact (hhalts halt last happly).symm.trans taken
    | ok made applied =>
      obtain ⟨next, last, hnext, -⟩ := htakes made applied happly
      cases hnext.symm.trans taken
  | @answered _ effects _ _ _ asked answered _ waiting answer _ _ advance call taken _ ih =>
    obtain ⟨history, hgoes, alone⟩ := h.goes_waiting keeps advance
    have honward := onward waiting.effect asked
    rw [call] at honward
    have hfits := (h.waits keeps advance).onward honward
    obtain ⟨htakes, hhalts⟩ := hfits.resumed answer
    obtain ⟨rest, stack, last, hrest, hends⟩ := ih (hfits.answered taken)
    cases happly : waiting.frame.apply answer answered with
    | error halt last => cases taken.symm.trans (hhalts halt last happly)
    | ok made applied =>
      obtain ⟨_, _, hnext, htabled, hstack⟩ := htakes made applied happly
      cases taken.symm.trans hnext
      rw [hstack] at hrest
      have hturn : Stack.Goes Session.Meanwhile
          ⟨.ask waiting.effect waiting.frame, waiting.pending.toList⟩ asked
          (.answered waiting.effect answer made.frames.toList :: rest) stack last :=
        .meanwhile (.inr honward) (.answered happly (.meanwhile (.inl htabled) hrest))
      refine ⟨_, stack, last, hgoes.trans hturn, ?_⟩
      have hcount : effects + (rest.answers.length + 1) = effects + 1 + rest.answers.length := by
        omega
      rw [History.answers_append, alone, List.nil_append, History.answers_answered,
        List.length_cons, hcount]
      exact hends

end Code.Fits

/-! ## 5. Programs -/

/-- A program of a tree fits the session on which it stands for the tree. -/
theorem Program.StandsFor.fits {program : Program S type} {tree : Tree S type} {trees : Trees S}
    {session : Session K} (stands : program.StandsFor tree trees session) :
    ∃ base, (K.equal fun _ => True).Keeps base base ∧
      program.code.Fits (fun _ => True) base type session := by
  obtain ⟨follows, keeps, agrees⟩ := stands
  refine ⟨_, keeps.keeps keeps (trees.failsWith_any.beside fun _ _ => trivial),
    List.prefix_refl _, List.prefix_refl _, agrees, agrees, ?_⟩
  exact follows.codes follows (tree.failsWith_any.beside fun _ _ => trivial)

/-- A packed value that was given back is of the type that it was given back at. -/
theorem Packed.eq_of_unpack {packed : Packed S} {a : S.Ty} {boundary : Boundary} {value : S.El a}
    (h : packed.unpack a boundary = .ok value) : packed = ⟨a, value⟩ := by
  by_cases htype : packed.type = a
  · obtain ⟨_, inner⟩ := packed
    subst htype
    rw [Packed.unpack_self] at h
    cases h
    rfl
  · rw [Packed.unpack_of_ne boundary htype] at h
    cases h

/-- A run of a program that yields its value ends where the machine has nothing pending. -/
theorem Stack.Ends.of_yields {handler : Handler K Failure} {answers : Nat} {stack : Stack S}
    {last final : Session K} {value : S.El type}
    {result : EStateM.Result (Halt S) (Session K) (Except Failure (Packed S))}
    (ends : stack.Ends handler answers last result)
    (h : Program.ended type result = .ok (.ok value) final) :
    stack = ⟨.value ⟨type, value⟩, []⟩ := by
  cases ends with
  | @finished packed =>
    rw [Program.ended] at h
    cases hvalue : packed.unpack type .result with
    | ok inner =>
      rw [hvalue] at h
      cases h
      rw [Packed.eq_of_unpack hvalue]
    | error halt =>
      rw [hvalue] at h
      cases h
  | refused | struck | misanswered | stuck | exhausted => cases h

/-- **A program is run as the plain stack machine runs it.**  Take a program that stands for a tree,
on any session, and whatever it comes to, by whoever gives the answers and whatever happens to the
session between two turns that leaves tables that fit.

A history of the machine leads there: it took the same turns, and the frames that ever were pending
are those that were applied and those that still are pending, each as often.

From there, to advance the program is to let the machine run.  In the same number of turns it stops
at the same value with nothing pending, or at the same effect with the frames of the program
pending, in their order, or its next frame halts in the same way; and it applied its frames on the
sessions on which the program did, of which meanwhile only the table had changed.  The machine run
alone, without any change of the table, shows the same, and the host sees the same of it.

What the frame of an effect returns for an answer has exactly the pending frames behind it.

So it is in a run with a handler: it ends where a history of the machine leads, with all frames
that ever were pending either applied or pending there.  If it yields a value, they all were
applied, each as often as it came to be pending. -/
theorem Program.runs_as_machine {program : Program S type} {tree : Tree S type} {trees : Trees S}
    {session : Session K} (stands : program.StandsFor tree trees session) :
    (∀ {code : Code S} {later : Session K}, program.code.ComesTo session code later →
      (∃ history, program.code.stack.Goes Session.Meanwhile session history code.stack later ∧
        (program.code.frames.toList ++ history.brought).Perm
          (history.applications.map Prod.fst ++ code.frames.toList)) ∧
      (∀ turns, code.stack.Comes later turns (code.advance turns later) ∧
        hostResult ((do return (← code.advance turns).stack.shown : Run K _) later)
          = hostResult ((do return (← code.stack.run turns).shown : Run K _) later)) ∧
      (∀ effect frame frames, code = .mk (.ask effect frame) frames → ∀ answer,
        (∀ made applied, frame.apply answer later = .ok made applied →
          ∃ next last, Waiting.answer ⟨effect, frame, frames⟩ answer later = .ok next last ∧
            applied.Tabled last ∧ next.stack = Stack.returned made frames.toList) ∧
        (∀ halt last, frame.apply answer later = .error halt last →
          Waiting.answer ⟨effect, frame, frames⟩ answer later = .error halt last))) ∧
    (∀ {Failure : Type} (handler : Handler K Failure),
      (∀ effect (s : Session K), s.Onward (Run.last (handler effect s))) → ∀ turns,
        ∃ history stack last result,
          program.code.stack.Goes Session.Meanwhile session history stack last ∧
          (program.code.frames.toList ++ history.brought).Perm
            (history.applications.map Prod.fst ++ stack.pending) ∧
          stack.Ends handler history.answers.length last result ∧
          program.tryRunIn turns handler session = Program.ended type result ∧
          ∀ value final, program.tryRunIn turns handler session = .ok (.ok value) final →
            stack = ⟨.value ⟨type, value⟩, []⟩ ∧
              (program.code.frames.toList ++ history.brought).Perm
                (history.applications.map Prod.fst)) := by
  obtain ⟨base, keeps, fits⟩ := stands.fits
  refine ⟨?_, ?_⟩
  · intro code later hcomes
    have hfits := fits.comesTo keeps hcomes
    obtain ⟨history, hgoes⟩ := fits.goes keeps hcomes
    refine ⟨⟨history, hgoes, hgoes.accounts⟩, ?_, ?_⟩
    · intro turns
      refine ⟨hfits.advance_comes keeps turns, ?_⟩
      obtain ⟨first, second, agrees, agrees', codes⟩ := hfits
      exact codes.stacks.shown_eq (keeps.mono first second) turns agrees agrees' rfl
    · rintro effect frame frames rfl answer
      exact hfits.resumed answer
  · intro Failure handler onward turns
    have hentered : session.Onward (session.told (.enter .run)) :=
      fun ledger agrees => ⟨ledger, List.prefix_refl ledger, agrees⟩
    have hruns := Code.runs handler turns 0 program.code (session.told (.enter .run))
    obtain ⟨history, stack, last, hgoes, hends⟩ :=
      (fits.onward hentered).ends keeps onward hruns
    rw [Nat.zero_add] at hends
    have haccounts := hgoes.accounts
    have hended := program.tryRunIn_eq_ended turns handler session
    refine ⟨history, stack, last, _, .meanwhile (.inr hentered) hgoes, haccounts, hends, hended, ?_⟩
    intro value final hyields
    obtain rfl := hends.of_yields (hended.symm.trans hyields)
    rw [List.append_nil] at haccounts
    exact ⟨rfl, haccounts⟩

/-- A computation of the host leaves the table as it is. -/
theorem Run.hosted_onward {α : Type} (work : Hosted K α) (session : Session K) :
    session.Onward (Run.last (Run.hosted work session)) := by
  intro ledger agrees
  unfold Run.hosted
  cases work session.host with
  | ok a host => exact ⟨ledger, List.prefix_refl ledger, agrees⟩
  | error halt host => exact ⟨ledger, List.prefix_refl ledger, agrees⟩

/-- Yields a sum. -/
def addTo (first : Nat) : Nat → Branch Jobs.signature Jobs.Ty.count := fun second =>
  .tree (.pure (first + second : Nat))

/-- Does a job and adds two. -/
def jobAndTwo : Nat → Branch Jobs.signature Jobs.Ty.count := fun first =>
  .tree ((Tree.lift Jobs.Effect.job1 : Tree Jobs.signature Jobs.Ty.unit).bind fun _ =>
    .tree ((Tree.pure (2 : Nat) : Tree Jobs.signature Jobs.Ty.count).bind (addTo first)))

/-- Yields the double. -/
def double : Nat → Branch Jobs.signature Jobs.Ty.count := fun sum => .tree (.pure (sum + sum : Nat))

/-- Binds that bring binds of their own, with a job on the way. -/
def nested : Tree Jobs.signature Jobs.Ty.count :=
  ((Tree.pure (1 : Nat) : Tree Jobs.signature Jobs.Ty.count).bind jobAndTwo).bind double

/-- A host that counts jobs and keeps nothing. -/
abbrev countingHost : Host Jobs.signature where
  State := Nat
  observe _ jobs := jobs
  kept _ := none

/-- Does every job and counts it. -/
def countJob : HostHandler countingHost String := fun _ jobs => .ok (.ok Jobs.unitAnswer) (jobs + 1)

/-- The binds are applied once each, and six comes out. -/
theorem nested_applied_once : ∃ turns history last,
    (nested.build.run 0).1.code.stack.Goes Session.Meanwhile
      (Session.startAt (nested.build.run 0).2 0 : Session countingHost) history
      ⟨.value ⟨Jobs.Ty.count, (6 : Nat)⟩, []⟩ last ∧
    ((nested.build.run 0).1.code.frames.toList ++ history.brought).Perm
      (history.applications.map Prod.fst) ∧
    ∃ final, (nested.build.run 0).1.tryRunIn turns countJob.onSession
      (.startAt (nested.build.run 0).2 0) = .ok (.ok (6 : Nat)) final := by
  have hrun : nested.runIn 0 (fun _ => none) countJob 0 = .ok (.ok (6 : Nat)) 1 := rfl
  have hstands := nested.build_standsFor (K := countingHost) (fun _ => rfl) 0
  obtain ⟨turns, h⟩ := hstands.tryRunIn_eq countJob (.inl fun _ => rfl)
  have hhost := (h turns (Nat.le_refl turns)).trans hrun
  obtain ⟨-, hruns⟩ := Program.runs_as_machine hstands
  obtain ⟨history, stack, last, result, hgoes, -, -, -, hyields⟩ :=
    hruns countJob.onSession (fun _ _ => Run.hosted_onward _ _) turns
  cases hresult : (nested.build.run 0).1.tryRunIn turns countJob.onSession
      (.startAt (nested.build.run 0).2 0) with
  | error halt final =>
    rw [hresult] at hhost
    cases hhost
  | ok value final =>
    rw [hresult] at hhost
    obtain ⟨rfl, -⟩ := EStateM.Result.ok.inj hhost
    obtain ⟨rfl, haccounts⟩ := hyields _ _ hresult
    exact ⟨turns, history, last, hgoes, haccounts, final, hresult⟩

end FreePrograms
