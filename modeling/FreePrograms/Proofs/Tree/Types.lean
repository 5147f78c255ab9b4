/-
# Types fit

Values of different types stand side by side in a program, and each frame takes its value back at
the type that it was made for.  A program of a tree, whose functions fail for causes of their own
only, never gives a frame or the end of a run a value of another type.  Answers to effects are from
outside, and can be of any type.  So a run can come to one mismatch only: at the frame of an effect
that was lifted at a type, when the answer is of another type.

The invariant is that the code is abreast with itself under the pact of a host with itself
(`Host.alone`, `Code.FitsOn`): its frames form a chain whose types fit end to end.  It is kept by
each turn of a program (`Code.FitsOn.turn`), whoever gives the answers and whatever happens to the
session between two turns, as long as the table still fits (`Code.ComesTo`).  So it is kept in every
interpreter.
-/
import FreePrograms.Proofs.Run.Interpreters
import FreePrograms.Proofs.Tree.Beside
import FreePrograms.Proofs.Tree.Machine
import FreePrograms.Proofs.Tree.Turns
import FreePrograms.Proofs.Tree.Ways

namespace FreePrograms

variable {S : Signature} {K : Host S} {type a b : S.Ty} {Failure α R : Type}

/-! ## 1. The pact of a host with itself -/

/-- A function that the host handed in failed. -/
def Halt.IsFault (halt : Halt S) : Prop := ∃ fault, halt = .fault fault

/-- The halt is no mismatch. -/
def Halt.TypesFit (halt : Halt S) : Prop := ∀ boundary expected, halt ≠ .mismatch boundary expected

/-- The host goes together with itself only, and functions of programs fail for causes of their own
only. -/
def Host.alone (K : Host S) : Pact K K := K.equal Halt.IsFault

namespace Pact

variable {possible : Halt S → Prop} {values : Agreement S α α} {ledger ledger' : Ledger (Frame S)}
  {work : Run K α} {session last : Session K}

theorem ordinary_typesFit {halt : Halt S} (h : K.alone.Ordinary halt) : halt.TypesFit := by
  rintro boundary expected rfl
  rcases h with ⟨fault, h⟩ | h | ⟨place, h⟩ <;> cases h

theorem possible_mismatch {boundary : Boundary} {expected : S.Ty}
    (h : K.alone.Possible (.mismatch boundary expected)) : boundary = .answer := by
  rcases h with h | ⟨_, h⟩
  · exact absurd rfl (ordinary_typesFit h boundary expected)
  · cases h
    rfl

end Pact

/-! ## 2. Codes whose types fit -/

/-- The code, whose results are of the given type, fits the session: its frames form a chain, and
the table of the session fits what they were named. -/
inductive Code.FitsOn (base : Ledger (Frame S)) (type : S.Ty) (code : Code S)
    (session : Session K) : Prop
  | intro {ledger ledger' : Ledger (Frame S)} (first : base <+: ledger) (second : base <+: ledger')
    (agrees : session.memo.Agrees ledger) (agrees' : session.memo.Agrees ledger')
    (codes : K.alone.Codes ledger ledger' code code type)

/-- The next turn of the code has the types it was made for.  A value that is the end has the type
of the results; a value that comes to the frame of a bind has the type of its input, and applying a
frame comes to no mismatch.  At an effect there is a frame that expects an answer of some type, and
comes to a mismatch exactly at answers of another type, at once, or there is a frame that decodes
any answer. -/
def Code.TurnFits (type : S.Ty) (session : Session K) : Code S → Prop
  | .mk (.value value) frames => ∀ popped last, Run.pop frames session = .ok popped last →
    match popped with
    | none => value.type = type
    | some (frame, _) =>
      (∀ provenance input function, frame = .bind provenance input function → value.type = input) ∧
        ∀ halt final, frame.apply value last = .error halt final → halt.TypesFit
  | .mk (.ask effect frame) frames =>
    ((∃ expected, frame = .expect expected) ∨ ∃ result decode, frame = .decode result decode) ∧
      ∀ answer boundary expected last,
        Waiting.answer ⟨effect, frame, frames⟩ answer session
            = .error (.mismatch boundary expected) last ↔
          boundary = .answer ∧ frame = .expect expected ∧ answer.type ≠ expected ∧ last = session

/-- An answer comes to a mismatch exactly at a frame that expects another type, and at once. -/
theorem Waiting.answer_mismatch {ledger ledger' : Ledger (Frame S)} {waiting : Waiting S}
    (h : K.alone.Waits ledger ledger' waiting waiting type) (answer : Packed S)
    (boundary : Boundary) (expected : S.Ty) (session last : Session K) :
    waiting.answer answer session = .error (.mismatch boundary expected) last ↔
      boundary = .answer ∧ waiting.frame = .expect expected ∧ answer.type ≠ expected ∧
        last = session := by
  cases h with
  | @intro effect frame _ pending _ a _ takes chain sound sound' =>
  cases takes with
  | expect =>
    by_cases htype : answer.type = a
    · have hanswer : (Waiting.answer ⟨effect, .expect a, pending⟩ answer : Run K (Code S))
          = Run.naming ((Code.ofValue a (htype ▸ answer.value)).append pending) := by
        obtain ⟨inner, value⟩ := answer
        subst htype
        rw [Waiting.answer, Frame.apply, Packed.unpack_self]
        rfl
      refine ⟨fun h => ?_, ?_⟩
      · rw [hanswer] at h
        cases h
      · rintro ⟨-, hframe, hne, -⟩
        cases hframe
        exact absurd htype hne
    · have hanswer : Waiting.answer ⟨effect, .expect a, pending⟩ answer session
          = .error (.mismatch .answer a) session := by
        rw [Waiting.answer, Frame.apply, Packed.unpack_of_ne .answer htype]
        rfl
      rw [hanswer]
      refine ⟨?_, ?_⟩
      · rintro ⟨⟩
        exact ⟨rfl, rfl, htype, rfl⟩
      · rintro ⟨rfl, hframe, -, rfl⟩
        cases hframe
        rfl
  | @decode _ decode _ decoded =>
    obtain ⟨memo, schedule, pops, events, host⟩ := session
    have hanswer : (Waiting.answer ⟨effect, .decode a decode, pending⟩ answer : Run K (Code S))
        ⟨memo, schedule, pops, events, host⟩
        = (do
          let code ← (do return .ofValue a (← Run.except (decode answer)) : Run K (Code S))
          Run.naming (code.append pending) : Run K (Code S))
            ⟨memo, schedule, pops, events, K.observe (.decode answer) host⟩ := rfl
    refine ⟨fun h => ?_, ?_⟩
    · rw [hanswer] at h
      cases hdecode : decode answer with
      | ok value =>
        rw [hdecode] at h
        cases h
      | error halt =>
        have hallowed := decoded answer
        rw [hdecode] at h hallowed
        cases h
        cases hallowed with
        | halt allowed =>
          obtain ⟨fault, hfault⟩ := allowed
          cases hfault
        | spoilt spoilt => exact spoilt.elim
    · rintro ⟨-, hframe, -⟩
      cases hframe

namespace Code.FitsOn

variable {base : Ledger (Frame S)} {code next : Code S} {session last : Session K}

/-- A code of which it is so fits, where functions fail for causes of their own only. -/
theorem fits_iff : code.FitsOn base type session ↔ code.Fits Halt.IsFault base type session :=
  ⟨fun ⟨first, second, agrees, agrees', codes⟩ => ⟨first, second, agrees, agrees', codes⟩,
    fun ⟨first, second, agrees, agrees', codes⟩ => ⟨first, second, agrees, agrees', codes⟩⟩

/-- What steps abreast with themselves leave fits. -/
theorem of_abreast {ledger ledger' : Ledger (Frame S)} {possible : Halt S → Prop}
    {work : Run K (Code S)}
    (h : K.alone.Abreast possible (K.alone.codes type) ledger ledger' work work)
    (first : base <+: ledger) (second : base <+: ledger') (agrees : session.memo.Agrees ledger)
    (agrees' : session.memo.Agrees ledger') (hwork : work session = .ok next last) :
    next.FitsOn base type last :=
  fits_iff.mpr (.of_abreast h first second agrees agrees' hwork)

/-- **Every code that a fitting one comes to fits.** -/
theorem comesTo (keeps : K.alone.Keeps base base) {start : Session K}
    (h : code.FitsOn base type start) (hcomes : code.ComesTo start next last) :
    next.FitsOn base type last :=
  fits_iff.mpr ((fits_iff.mp h).comesTo keeps hcomes)

/-- **The next turn of a fitting code has the types it was made for.** -/
theorem turn (keeps : K.alone.Keeps base base) (h : code.FitsOn base type session) :
    code.TurnFits type session := by
  obtain ⟨first, second, agrees, agrees', codes⟩ := h
  cases codes with
  | intro nodes chain sound sound' =>
  cases nodes with
  | ask effect takes =>
    refine ⟨?_, ?_⟩
    · cases takes with
      | expect => exact .inl ⟨_, rfl⟩
      | decode => exact .inr ⟨_, _, rfl⟩
    · intro answer boundary expected last
      exact Waiting.answer_mismatch (.intro effect takes chain sound sound') answer boundary
        expected session last
  | value value =>
    intro popped last hpop
    obtain ⟨later, later', hlater, hlater', hagrees, hagrees', hpopped⟩ :=
      (Pact.Abreast.pop sound sound' chain).equal_ok agrees agrees' hpop
    cases hpopped with
    | none => rfl
    | some link chain hsound hsound' =>
      refine ⟨?_, ?_⟩
      · rintro provenance input function rfl
        cases link
        rfl
      · intro halt final happly
        have hkeeps := keeps.mono (first.trans hlater) (second.trans hlater')
        exact Pact.ordinary_typesFit ((link.apply hkeeps value).equal_error hagrees hagrees' happly)

end Code.FitsOn

/-! ## 3. Runs with a handler -/

/-- The run of a code with a handler, in so many turns, asks the handler for an effect. -/
inductive Code.Asks (handler : Handler K Failure) :
    Nat → Code S → Session K → Waiting S → Session K → Prop
  | first {turns : Nat} {code : Code S} {session asked : Session K} {waiting : Waiting S}
    (stops : code.advance turns session = .ok (.waiting waiting) asked) :
    Asks handler (turns + 1) code session waiting asked
  | later {turns : Nat} {code next : Code S} {session s answered taken asked : Session K}
    {earlier waiting : Waiting S} {answer : Packed S}
    (stops : code.advance turns session = .ok (.waiting earlier) s)
    (answers : handler earlier.effect s = .ok (.ok answer) answered)
    (takes : earlier.answer answer answered = .ok next taken)
    (rest : Asks handler turns next taken waiting asked) :
    Asks handler (turns + 1) code session waiting asked

/-- The handler is asked for an effect that was lifted at a type, and answers with a value of
another type.  The last session is as the handler left it. -/
def Waiting.Misanswered (handler : Handler K Failure) (waiting : Waiting S) (asked : Session K)
    (expected : S.Ty) (last : Session K) : Prop :=
  ∃ answer, handler waiting.effect asked = .ok (.ok answer) last ∧
    waiting.frame = .expect expected ∧ answer.type ≠ expected

/-- The handler is asked for an effect, and then there is the mismatch: because of its answer, or
because the handler itself came to one. -/
def Waiting.Mismatches (handler : Handler K Failure) (boundary : Boundary) (expected : S.Ty)
    (last : Session K) (waiting : Waiting S) (asked : Session K) : Prop :=
  (boundary = .answer ∧ waiting.Misanswered handler asked expected last) ∨
    handler waiting.effect asked = .error (.mismatch boundary expected) last

section Asks

variable {handler : Handler K Failure} {turns : Nat} {code : Code S} {session s : Session K}
  {post : Waiting S → Session K → Prop}

/-- Where a code does not stop at an effect nothing is asked for. -/
theorem Code.asks_nothing {halt : Halt S} (hstop : code.advance turns session = .error halt s) :
    ¬ ∃ waiting asked, code.Asks handler (turns + 1) session waiting asked ∧
      post waiting asked := by
  rintro ⟨waiting, asked, hasks, -⟩
  cases hasks with
  | first stops => cases hstop.symm.trans stops
  | later stops => cases hstop.symm.trans stops

theorem Code.asks_finished {value : Packed S}
    (hstop : code.advance turns session = .ok (.finished value) s) :
    ¬ ∃ waiting asked, code.Asks handler (turns + 1) session waiting asked ∧
      post waiting asked := by
  rintro ⟨waiting, asked, hasks, -⟩
  cases hasks with
  | first stops => cases hstop.symm.trans stops
  | later stops => cases hstop.symm.trans stops

/-- The first effect asked for is the one at which the code stops; the others are asked for by the
code that takes the answer to it. -/
theorem Code.asks_waiting {first : Waiting S}
    (hstop : code.advance turns session = .ok (.waiting first) s) :
    (∃ waiting asked, code.Asks handler (turns + 1) session waiting asked ∧ post waiting asked) ↔
      post first s ∨ ∃ answer answered next taken,
        handler first.effect s = .ok (.ok answer) answered ∧
          first.answer answer answered = .ok next taken ∧
            ∃ waiting asked, next.Asks handler turns taken waiting asked ∧ post waiting asked := by
  refine ⟨?_, ?_⟩
  · rintro ⟨waiting, asked, hasks, hpost⟩
    cases hasks with
    | first stops =>
      cases hstop.symm.trans stops
      exact .inl hpost
    | later stops answers takes rest =>
      cases hstop.symm.trans stops
      exact .inr ⟨_, _, _, _, answers, takes, waiting, asked, rest, hpost⟩
  · rintro (hpost | ⟨answer, answered, next, taken, answers, takes, waiting, asked, rest, hpost⟩)
    · exact ⟨first, s, .first hstop, hpost⟩
    · exact ⟨waiting, asked, .later hstop answers takes rest, hpost⟩

end Asks

/-- Two steps halt where the first one does, or the second one after it. -/
theorem bind_eq_error_iff {β ε σ : Type} {work : EStateM ε σ α} {next : α → EStateM ε σ β} {e : ε}
    {s last : σ} : (work >>= next) s = .error e last ↔
      work s = .error e last ∨ ∃ a t, work s = .ok a t ∧ next a t = .error e last := by
  cases hwork : work s with
  | ok a t =>
    rw [bind_of_ok hwork]
    refine ⟨fun h => .inr ⟨a, t, rfl, h⟩, ?_⟩
    rintro (h | ⟨_, _, h, hnext⟩)
    · cases h
    · cases h
      exact hnext
  | error e' t =>
    rw [bind_of_error hwork]
    refine ⟨fun h => ?_, ?_⟩
    · cases h
      exact .inl rfl
    · rintro (h | ⟨_, _, h, -⟩)
      · cases h
        rfl
      · cases h

section Mismatch

variable {base ledger ledger' : Ledger (Frame S)} {session last : Session K}
  {handler : Handler K Failure} {boundary : Boundary} {expected : S.Ty}

/-- At an effect there is a mismatch at once, or later, in the run of the code that takes the
answer. -/
theorem Code.serve_mismatch {waiting : Waiting S}
    (waits : K.alone.Waits ledger ledger' waiting waiting type) (turns effects : Nat) :
    Code.serve handler turns effects (.waiting waiting) session
        = .error (.mismatch boundary expected) last ↔
      waiting.Mismatches handler boundary expected last session ∨ ∃ answer answered next taken,
        handler waiting.effect session = .ok (.ok answer) answered ∧
          waiting.answer answer answered = .ok next taken ∧
            next.handle handler turns (effects + 1) taken
              = .error (.mismatch boundary expected) last := by
  rw [Code.serve, bind_eq_error_iff]
  refine ⟨?_, ?_⟩
  · rintro (hhalt | ⟨result, answered, hanswer, hlast⟩)
    · exact .inl (.inr hhalt)
    · cases result with
      | error failure => cases hlast
      | ok answer =>
        rcases bind_eq_error_iff.mp hlast with hhalt | ⟨next, taken, htakes, hlast⟩
        · obtain ⟨hboundary, hframe, htype, rfl⟩ :=
            (Waiting.answer_mismatch waits answer boundary expected answered last).mp hhalt
          exact .inl (.inl ⟨hboundary, answer, hanswer, hframe, htype⟩)
        · exact .inr ⟨answer, answered, next, taken, hanswer, htakes, hlast⟩
  · rintro ((⟨hboundary, answer, hanswer, hframe, htype⟩ | hhalt) |
      ⟨answer, answered, next, taken, hanswer, htakes, hlast⟩)
    · have hhalt := (Waiting.answer_mismatch waits answer boundary expected last last).mpr
        ⟨hboundary, hframe, htype, rfl⟩
      exact .inr ⟨.ok answer, last, hanswer, bind_eq_error_iff.mpr (.inl hhalt)⟩
    · exact .inl hhalt
    · exact .inr ⟨.ok answer, answered, hanswer,
        bind_eq_error_iff.mpr (.inr ⟨next, taken, htakes, hlast⟩)⟩

/-- **A run comes to a mismatch exactly where an answer is of another type** than the effect was
lifted at, unless the handler itself comes to one. -/
theorem Code.FitsOn.handle_mismatch (keeps : K.alone.Keeps base base)
    (hhandler : ∀ effect, K.alone.Steady .equal base base (handler effect) (handler effect))
    (turns effects : Nat) {code : Code S} (h : code.FitsOn base type session) :
    code.handle handler turns effects session = .error (.mismatch boundary expected) last ↔
      ∃ waiting asked, code.Asks handler turns session waiting asked ∧
        waiting.Mismatches handler boundary expected last asked := by
  induction turns generalizing effects code session with
  | zero =>
    refine iff_of_false (fun h => by cases h) ?_
    rintro ⟨_, _, hasks, -⟩
    cases hasks
  | succ turns ih =>
    obtain ⟨first, second, agrees, agrees', codes⟩ := h
    have hadvance := codes.advance (keeps.mono first second) turns
    rw [Code.handle_succ]
    cases hstop : code.advance turns session with
    | error halt s =>
      have hfits := Pact.ordinary_typesFit (hadvance.equal_error agrees agrees' hstop)
      rw [bind_of_error hstop]
      refine iff_of_false ?_ (Code.asks_nothing hstop)
      rintro ⟨⟩
      exact hfits boundary expected rfl
    | ok stop s =>
      rw [bind_of_ok hstop]
      obtain ⟨later, later', hlater, hlater', hagrees, hagrees', hstops⟩ :=
        hadvance.equal_ok agrees agrees' hstop
      have hthen := first.trans hlater
      have hthen' := second.trans hlater'
      cases hstops with
      | finished value => exact iff_of_false (fun h => by cases h) (Code.asks_finished hstop)
      | @waiting waiting _ _ waits =>
        rw [Code.asks_waiting hstop, Code.serve_mismatch waits]
        refine or_congr_right (exists_congr fun answer => exists_congr fun answered =>
          exists_congr fun next => exists_congr fun taken => ?_)
        refine and_congr_right fun hanswer => and_congr_right fun htakes => ih (effects + 1) ?_
        obtain ⟨final, final', hfinal, hfinal', hagrees, hagrees', -⟩ :=
          ((hhandler waiting.effect).mono hthen hthen').abreast.equal_ok hagrees hagrees' hanswer
        exact .of_abreast ((waits.mono hfinal hfinal').answer answer) (hthen.trans hfinal)
          (hthen'.trans hfinal') hagrees hagrees' htakes

end Mismatch

/-! ## 4. Programs -/

/-- The whole run comes to a mismatch where the run of its code does. -/
theorem Program.tryRunIn_mismatch {base : Ledger (Frame S)} {handler : Handler K Failure}
    (keeps : K.alone.Keeps base base)
    (hhandler : ∀ effect, K.alone.Steady .equal base base (handler effect) (handler effect))
    (turns : Nat) {program : Program S type} {session last : Session K} {boundary : Boundary}
    {expected : S.Ty} (h : program.code.FitsOn base type session) :
    program.tryRunIn turns handler session = .error (.mismatch boundary expected) last ↔
      ∃ final, last = final.told (.leave .run) ∧
        ∃ waiting asked,
          program.code.Asks handler turns (session.told (.enter .run)) waiting asked ∧
            waiting.Mismatches handler boundary expected final asked := by
  obtain ⟨first, second, agrees, agrees', codes⟩ := h
  have htold : program.code.FitsOn base type (session.told (.enter .run)) :=
    ⟨first, second, agrees, agrees', codes⟩
  have hhandle := codes.handle (keeps.mono first second)
    (fun effect => (hhandler effect).mono first second) turns 0
  simp only [← htold.handle_mismatch keeps hhandler turns 0]
  rw [tryRunIn_eq, Run.inside_eq]
  cases hresult : program.code.handle handler turns 0 (session.told (.enter .run)) with
  | error halt final =>
    rw [bind_of_error hresult]
    refine ⟨?_, ?_⟩
    · rintro ⟨⟩
      exact ⟨final, rfl, rfl⟩
    · rintro ⟨_, rfl, ⟨⟩⟩
      rfl
  | ok result final =>
    rw [bind_of_ok hresult]
    refine iff_of_false ?_ (by rintro ⟨_, _, ⟨⟩⟩)
    have hagrees : (session.told (.enter .run)).memo.Agrees _ := agrees
    have hagrees' : (session.told (.enter .run)).memo.Agrees _ := agrees'
    obtain ⟨_, _, _, _, _, _, -, htype⟩ := hhandle.equal_ok hagrees hagrees' hresult
    cases result with
    | ok value =>
      obtain ⟨inner, value⟩ := value
      obtain rfl : inner = type := htype ⟨inner, value⟩ rfl
      rw [unpacked, Packed.unpack_self]
      rintro ⟨⟩
    | error failure => rintro ⟨⟩

/-- Every way to run a program halts where the run with a handler does. -/
theorem Program.runBy_error_iff (Failure : Type) {handler : S.Effect → Hosted K (Packed S)}
    (turns : Nat) (program : Program S type) (way : Way (onSessions handler) type)
    (session : Session K) (halt : Halt S) (host : K.State) :
    hostResult (program.runBy turns way session) = .error halt host ↔
      ∃ last, program.tryRunIn turns (answering (onSessions handler) : Handler K Failure) session
        = .error halt last ∧ last.host = host := by
  have hquiet := onSessions_alike handler
  have hway := (program.runBy_alike hquiet turns way).hostResult_eq session
  have htry : hostResult
      (program.tryRunIn turns (answering (onSessions handler) : Handler K Failure) session) = _ :=
    (program.tryRunIn_alike hquiet turns).hostResult_eq session
  rw [hway]
  cases hcomplete : program.code.complete (onSessions handler) type turns session with
  | ok value last =>
    rw [bind_of_ok hcomplete] at htry
    refine iff_of_false (fun h => by cases h) ?_
    rintro ⟨final, hfinal, -⟩
    rw [hfinal] at htry
    cases htry
  | error halt' last =>
    rw [bind_of_error hcomplete] at htry
    cases hresult : program.tryRunIn turns (answering (onSessions handler)) session with
    | ok value final =>
      rw [hresult] at htry
      cases htry
    | error halt'' final =>
      rw [hresult] at htry
      change EStateM.Result.error halt'' final.host = .error halt' last.host at htry
      injection htry with hhalt hhost
      rw [hhalt]
      refine ⟨?_, ?_⟩
      · intro h
        change EStateM.Result.error halt' last.host = .error halt host at h
        injection h with hhalt' hhost'
        exact ⟨final, by rw [hhalt'], hhost.trans hhost'⟩
      · rintro ⟨_, h, rfl⟩
        injection h with hhalt' hlast
        rw [hhalt', ← hlast, hhost]
        rfl

/-- A handler of the host that has no halts but faults comes to a mismatch by its answers only. -/
theorem Waiting.mismatches_onSessions {handler : S.Effect → Hosted K (Packed S)}
    (hfaults : ∀ effect host halt last, handler effect host = .error halt last → halt.IsFault)
    {boundary : Boundary} {expected : S.Ty} {last asked : Session K} {waiting : Waiting S} :
    waiting.Mismatches (answering (onSessions handler) : Handler K Failure) boundary expected last
        asked ↔
      boundary = .answer ∧
        waiting.Misanswered (answering (onSessions handler) : Handler K Failure) asked expected
          last := by
  refine or_iff_left ?_
  intro hhalt
  rcases bind_eq_error_iff.mp hhalt with hhalt | ⟨_, _, _, hhalt⟩
  · rw [onSessions, Run.hosted] at hhalt
    cases hhost : handler waiting.effect asked.host with
    | ok answer host =>
      rw [hhost] at hhalt
      cases hhalt
    | error halt host =>
      rw [hhost] at hhalt
      obtain ⟨fault, hfault⟩ := hfaults _ _ _ _ hhost
      cases hhalt
      cases hfault
  · cases hhalt

/-- In each turn of whatever a program of a tree comes to, types fit. -/
theorem Program.turns_fit {ledger : Ledger (Frame S)} {program : Program S type}
    {tree : Tree S type} {trees : Trees S} {session : Session K}
    (follows : program.Follows ledger tree) (keeps : K.Keeps ledger trees)
    (agrees : session.memo.Agrees ledger) (fails : tree.FailsWith Halt.IsFault)
    (kept_fail : trees.FailsWith Halt.IsFault) {code : Code S} {later : Session K}
    (hcomes : program.code.ComesTo session code later) : code.TurnFits type later := by
  have hkeeps : K.alone.Keeps ledger ledger :=
    keeps.keeps keeps (kept_fail.beside fun _ h => h)
  have hfits : program.code.FitsOn ledger type session :=
    ⟨List.prefix_refl _, List.prefix_refl _, agrees, agrees,
      follows.codes follows (fails.beside fun _ h => h)⟩
  exact (hfits.comesTo hkeeps hcomes).turn hkeeps

/-- **Types fit.**  Take a program of a tree, whose functions, and those of the kept trees, fail for
causes of their own only, and a session whose table fits.

In each turn of whatever the program comes to, a value that comes to the frame of a bind has the
type of its input, the value in the end has the type of the program, and no frame comes to a
mismatch but one that expects an answer: it comes to one exactly at an answer of another type than
its own, at once.  So it is whoever answers, and whatever happens to the session between two turns
that leaves tables that fit.

In every interpreter with steady functions the only mismatch is one of an answer.

The run with a steady handler comes to a mismatch exactly if an effect that was lifted at a type is
answered with a value of another type, on the session that the handler left, unless the handler
itself comes to it.  With a handler of the host that has no halts but faults it is so in every way
to run the program.

Types still fit when programs of trees are put together: by each combinator comes a program whose
turns all have the types that they were made for, if the functions handed in fail for causes of
their own only. -/
theorem Program.types_fit {ledger : Ledger (Frame S)} {program : Program S type}
    {tree : Tree S type} {trees : Trees S} {session : Session K}
    (follows : program.Follows ledger tree) (keeps : K.Keeps ledger trees)
    (agrees : session.memo.Agrees ledger) (fails : tree.FailsWith Halt.IsFault)
    (kept_fail : trees.FailsWith Halt.IsFault) :
    (∀ {code : Code S} {later : Session K}, program.code.ComesTo session code later →
      code.TurnFits type later) ∧
    (∀ {R : Type} (turns : Nat) (values : Agreement S R R) (interpreter : Interpreter K type R),
      K.alone.Interprets turns ledger ledger values interpreter interpreter →
      ∀ {boundary : Boundary} {expected : S.Ty} {last : Session K},
        interpreter.carryOut turns program session = .error (.mismatch boundary expected) last →
          boundary = .answer) ∧
    (∀ {Failure : Type} (handler : Handler K Failure),
      (∀ effect, K.alone.Steady .equal ledger ledger (handler effect) (handler effect)) →
      ∀ turns (boundary : Boundary) (expected : S.Ty) (last : Session K),
        program.tryRunIn turns handler session = .error (.mismatch boundary expected) last ↔
          ∃ final, last = final.told (.leave .run) ∧ ∃ waiting asked,
            program.code.Asks handler turns (session.told (.enter .run)) waiting asked ∧
              waiting.Mismatches handler boundary expected final asked) ∧
    (∀ handler : S.Effect → Hosted K (Packed S),
      (∀ effect host halt last, handler effect host = .error halt last → halt.IsFault) →
      ∀ turns (way : Way (onSessions handler) type) (boundary : Boundary) (expected : S.Ty)
          (host : K.State),
        hostResult (program.runBy turns way session) = .error (.mismatch boundary expected) host ↔
          boundary = .answer ∧ ∃ waiting asked final,
            program.code.Asks (answering (onSessions handler) : Handler K Empty) turns
                (session.told (.enter .run)) waiting asked ∧
              waiting.Misanswered (answering (onSessions handler) : Handler K Empty) asked expected
                  final ∧
                final.host = host) ∧
    Program.Combined ledger (fun {c} steps combined => combined.FailsWith Halt.IsFault →
      ∃ made last, Run.naming steps session = .ok made last ∧
        ∀ {code : Code S} {later : Session K}, made.code.ComesTo last code later →
          code.TurnFits c later) := by
  have hkeeps : K.alone.Keeps ledger ledger :=
    keeps.keeps keeps (kept_fail.beside fun _ h => h)
  have hcodes : K.alone.Codes ledger ledger program.code program.code type :=
    follows.codes follows (fails.beside fun _ h => h)
  have hfits : program.code.FitsOn ledger type session :=
    ⟨List.prefix_refl _, List.prefix_refl _, agrees, agrees, hcodes⟩
  refine ⟨?_, ?_, ?_, ?_, ?_⟩
  · intro code later hcomes
    exact program.turns_fit follows keeps agrees fails kept_fail hcomes
  · intro R turns values interpreter hinterprets boundary expected last hlast
    exact Pact.possible_mismatch
      ((hinterprets.carryOut hkeeps hcodes).abreast.equal_error agrees agrees hlast)
  · intro Failure handler hhandler turns boundary expected last
    exact tryRunIn_mismatch hkeeps hhandler turns hfits
  · intro handler hfaults turns way boundary expected host
    have hhandler : ∀ effect, K.alone.Steady .equal ledger ledger
        (answering (onSessions handler) effect : Run K (Except Empty (Packed S)))
        (answering (onSessions handler) effect) :=
      fun effect => (Pact.Steady.hosted (hfaults effect) ledger ledger).map_equal
    simp only [program.runBy_error_iff Empty, tryRunIn_mismatch hkeeps hhandler turns hfits,
      Waiting.mismatches_onSessions hfaults]
    refine ⟨?_, ?_⟩
    · rintro ⟨_, ⟨final, rfl, waiting, asked, hasks, hboundary, hanswered⟩, hhost⟩
      exact ⟨hboundary, waiting, asked, final, hasks, hanswered, hhost⟩
    · rintro ⟨hboundary, waiting, asked, final, hasks, hanswered, hhost⟩
      exact ⟨_, ⟨final, rfl, waiting, asked, hasks, hboundary, hanswered⟩, hhost⟩
  · refine Program.combined fun hmakes combined_fails => ?_
    obtain ⟨later, made, last, hlater, hagrees, -, hsteps, hmade⟩ := Run.naming_eq hmakes agrees
    exact ⟨made, last, hsteps,
      made.turns_fit hmade (keeps.mono hlater) hagrees combined_fails kept_fail⟩

/-! ## 5. A number that is asked for and not given -/

/-- Asks how many jobs were done. -/
def askCount : Jobs.Effect := .read Jobs.Ty.count fun context => context.jobsDone.size

/-- Does a job, asks how many were done and yields the answer as a length.  One of its frames takes
no value to a number, and the other one a number to a length. -/
def tallyTree : Tree Jobs.signature Jobs.Ty.length :=
  ((Tree.lift Jobs.Effect.job1 : Tree Jobs.signature Jobs.Ty.unit).bind fun _ =>
    .tree (Tree.lift askCount : Tree Jobs.signature Jobs.Ty.count)).map fun count =>
      .ok (UInt64.ofNat count)

/-- The functions of that tree do not fail. -/
theorem tallyTree_failsWith (cause : Halt Jobs.signature → Prop) : tallyTree.FailsWith cause :=
  .bindAs .given (.bindAs .given (.lift _) fun _ => .tree (.lift _)) fun _ => .tree (.pure _)

/-- Does whatever is asked for, and has nothing to tell. -/
def doAnything : Jobs.Effect → Hosted countingHost (Packed Jobs.signature) :=
  fun _ jobs => .ok Jobs.unitAnswer (jobs + 1)

/-- The handler on sessions, with a journal. -/
abbrev doingAnything : Jobs.Effect → Run countingHost.noting (Packed Jobs.signature) :=
  onSessions (K := countingHost.noting) (noted (K := countingHost) doAnything)

/-- The number is asked for behind the first frame, and the answer is no number.  There is the
mismatch of the run, before the second frame is applied to anything. -/
theorem tally_misanswered : ∃ turns waiting asked final,
    (tallyTree.build.run 0).1.code.Asks
        (answering doingAnything : Handler countingHost.noting Empty) turns
        ((Session.startAt (tallyTree.build.run 0).2 (0, []) : Session countingHost.noting).told
          (.enter .run)) waiting asked ∧
      waiting.Misanswered (answering doingAnything : Handler countingHost.noting Empty) asked
          Jobs.Ty.count final ∧
        final.host = (2, [.handled .job1, .applied (.bind .given Jobs.unitAnswer),
          .handled askCount]) := by
  have hrun : ((tallyTree.runIn (K := countingHost.noting) 0 (fun _ => none)
      (answered (K := countingHost.noting) (noted (K := countingHost) doAnything))).value :
        Hosted countingHost.noting UInt64) (0, [])
          = .error (.mismatch .answer Jobs.Ty.count)
            (2, [.handled .job1, .applied (.bind .given Jobs.unitAnswer), .handled askCount]) := rfl
  have hstands := tallyTree.build_standsFor (K := countingHost.noting) (fun _ => rfl) (0, [])
  obtain ⟨enough, hways⟩ := hstands.runBy_eq (K := countingHost.noting)
    (noted (K := countingHost) doAnything) (show tallyTree.Ends 0 _ _ _ from .inl fun _ => rfl)
  have hmismatch := (hways enough (Nat.le_refl enough) .run).trans hrun
  obtain ⟨follows, keeps, agrees⟩ := hstands
  obtain ⟨-, -, -, hexactly, -⟩ := Program.types_fit (K := countingHost.noting) follows keeps agrees
    (tallyTree_failsWith _) (fun _ _ _ h => by cases h)
  have hexact := (hexactly (noted (K := countingHost) doAnything)
    (fun effect host halt last h => by cases h) enough .run .answer Jobs.Ty.count _).mp hmismatch
  exact ⟨enough, hexact.2⟩

end FreePrograms
