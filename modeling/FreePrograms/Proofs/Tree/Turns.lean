/-
# Turns of a program

Whatever a program comes to, it comes to by turns: its first frame is applied to its value, or the
effect that it asks for is answered, by anyone and with anything.  Between two turns anything may
happen to the session that leaves a table that fits (`Code.ComesTo`).  Every interpreter goes by
such turns, and differs in what it does between them.

The invariant of turns is that the code is abreast with itself, on a host that goes together with
itself only (`Code.Fits`): its frames form a chain that fits end to end, and its sequences are what
they were named for.
-/
import FreePrograms.Proofs.Run.Codes

namespace FreePrograms

variable {S : Signature} {K : Host S} {type : S.Ty} {α : Type} {allowed : Halt S → Prop}

/-! ## 1. A host with itself -/

namespace Pact

variable {possible : Halt S → Prop} {values : Agreement S α α} {ledger ledger' : Ledger (Frame S)}
  {work : Run K α} {session last : Session K}

/-- A computation abreast with itself that gave a value left a table that fits. -/
theorem Abreast.equal_ok (h : (K.equal allowed).Abreast possible values ledger ledger' work work)
    (agrees : session.memo.Agrees ledger) (agrees' : session.memo.Agrees ledger') {value : α}
    (hwork : work session = .ok value last) :
    ∃ later later', ledger <+: later ∧ ledger' <+: later' ∧ last.memo.Agrees later ∧
      last.memo.Agrees later' ∧ values.both later later' value value := by
  have hresults :=
    h.results (List.prefix_refl _) (List.prefix_refl _) agrees agrees' (rfl : session.host = _)
  rw [hwork] at hresults
  cases hresults with
  | @ok later later' _ _ _ _ first second hagrees hagrees' _ hvalue =>
    exact ⟨later, later', first, second, hagrees, hagrees', hvalue⟩

/-- A computation abreast with itself comes to possible halts only. -/
theorem Abreast.equal_error
    (h : (K.equal allowed).Abreast possible values ledger ledger' work work)
    (agrees : session.memo.Agrees ledger) (agrees' : session.memo.Agrees ledger') {halt : Halt S}
    (hwork : work session = .error halt last) : possible halt := by
  have hresults :=
    h.results (List.prefix_refl _) (List.prefix_refl _) agrees agrees' (rfl : session.host = _)
  rw [hwork] at hresults
  cases hresults with
  | error _ _ _ _ _ halts => exact halts
  | broken _ _ breaks _ => exact breaks.elim

end Pact

/-! ## 2. What a code comes to -/

/-- Something happened to the session that left tables that fit. -/
def Session.Onward (session later : Session K) : Prop :=
  ∀ ledger, session.memo.Agrees ledger → ∃ ledger', ledger <+: ledger' ∧ later.memo.Agrees ledger'

/-- From one code and session to another by turns of a program: the first frame is applied to the
value, or an effect is answered, with anything and by anyone.  Before each turn whatever leaves
tables that fit may happen to the session. -/
inductive Code.ComesTo (code : Code S) (session : Session K) : Code S → Session K → Prop
  | here : ComesTo code session code session
  | onward {code' : Code S} {session' later : Session K}
    (before : ComesTo code session code' session') (onward : session'.Onward later) :
    ComesTo code session code' later
  | applied {value : Packed S} {frames rest : Sequence (Frame S)} {frame : Frame S}
    {made next : Code S} {s popped applied linked : Session K}
    (before : ComesTo code session (.mk (.value value) frames) s)
    (pop : Run.pop frames s = .ok (some (frame, rest)) popped)
    (apply : frame.apply value popped = .ok made applied)
    (append : Run.naming (made.append rest) applied = .ok next linked) :
    ComesTo code session next linked
  | answered {effect : S.Effect} {frame : Frame S} {frames : Sequence (Frame S)}
    {answer : Packed S} {next : Code S} {s last : Session K}
    (before : ComesTo code session (.mk (.ask effect frame) frames) s)
    (answered : Waiting.answer ⟨effect, frame, frames⟩ answer s = .ok next last) :
    ComesTo code session next last

/-- The code, whose results are of the given type and whose functions come to allowed halts only,
fits the session: its frames form a chain, and the table of the session fits what they were named.
-/
inductive Code.Fits (allowed : Halt S → Prop) (base : Ledger (Frame S)) (type : S.Ty)
    (code : Code S) (session : Session K) : Prop
  | intro {ledger ledger' : Ledger (Frame S)} (first : base <+: ledger) (second : base <+: ledger')
    (agrees : session.memo.Agrees ledger) (agrees' : session.memo.Agrees ledger')
    (codes : (K.equal allowed).Codes ledger ledger' code code type)

namespace Code.Fits

variable {base : Ledger (Frame S)} {code next : Code S} {session last : Session K}

theorem onward (h : code.Fits allowed base type session) (honward : session.Onward last) :
    code.Fits allowed base type last := by
  obtain ⟨first, second, agrees, agrees', codes⟩ := h
  obtain ⟨later, hlater, hagrees⟩ := honward _ agrees
  obtain ⟨later', hlater', hagrees'⟩ := honward _ agrees'
  exact ⟨first.trans hlater, second.trans hlater', hagrees, hagrees', codes.mono hlater hlater'⟩

/-- What steps abreast with themselves leave fits. -/
theorem of_abreast {ledger ledger' : Ledger (Frame S)} {possible : Halt S → Prop}
    {work : Run K (Code S)}
    (h : (K.equal allowed).Abreast possible ((K.equal allowed).codes type) ledger ledger' work work)
    (first : base <+: ledger) (second : base <+: ledger') (agrees : session.memo.Agrees ledger)
    (agrees' : session.memo.Agrees ledger') (hwork : work session = .ok next last) :
    next.Fits allowed base type last := by
  obtain ⟨later, later', hlater, hlater', hagrees, hagrees', hcodes⟩ :=
    h.equal_ok agrees agrees' hwork
  exact ⟨first.trans hlater, second.trans hlater', hagrees, hagrees', hcodes⟩

/-- **A frame is applied**, and what it made, with the other frames behind it, fits. -/
theorem applied (keeps : (K.equal allowed).Keeps base base) {value : Packed S}
    {frames rest : Sequence (Frame S)} {frame : Frame S} {made : Code S}
    {s popped applied : Session K} (h : (Code.mk (.value value) frames).Fits allowed base type s)
    (pop : Run.pop frames s = .ok (some (frame, rest)) popped)
    (apply : frame.apply value popped = .ok made applied)
    (append : Run.naming (made.append rest) applied = .ok next last) :
    next.Fits allowed base type last := by
  obtain ⟨first, second, agrees, agrees', codes⟩ := h
  cases codes with
  | intro nodes chain sound sound' =>
  cases nodes with
  | value value =>
  obtain ⟨later, later', hlater, hlater', hagrees, hagrees', hpopped⟩ :=
    (Pact.Abreast.pop sound sound' chain).equal_ok agrees agrees' pop
  cases hpopped with
  | some link chain hsound hsound' =>
  have hkeeps := keeps.mono (first.trans hlater) (second.trans hlater')
  obtain ⟨final, final', hfinal, hfinal', hagrees, hagrees', hcodes⟩ :=
    (link.apply hkeeps value).equal_ok hagrees hagrees' apply
  have happend := hcodes.append (hsound.mono hfinal) (hsound'.mono hfinal')
    (chain.mono hfinal hfinal')
  exact of_abreast happend ((first.trans hlater).trans hfinal)
    ((second.trans hlater').trans hfinal') hagrees hagrees' append

/-- **An effect is answered**, and the code that takes the answer fits. -/
theorem answered {effect : S.Effect} {frame : Frame S} {frames : Sequence (Frame S)}
    {answer : Packed S} (h : (Code.mk (.ask effect frame) frames).Fits allowed base type session)
    (hanswer : Waiting.answer ⟨effect, frame, frames⟩ answer session = .ok next last) :
    next.Fits allowed base type last := by
  obtain ⟨first, second, agrees, agrees', codes⟩ := h
  cases codes with
  | intro nodes chain sound sound' =>
  cases nodes with
  | ask effect takes =>
  have hwaits := Terms.Waits.intro effect takes chain sound sound'
  exact of_abreast (hwaits.answer answer) first second agrees agrees' hanswer

/-- **Every code that a fitting one comes to fits.** -/
theorem comesTo (keeps : (K.equal allowed).Keeps base base) {start : Session K}
    (h : code.Fits allowed base type start) (hcomes : code.ComesTo start next last) :
    next.Fits allowed base type last := by
  induction hcomes with
  | here => exact h
  | onward _ honward ih => exact ih.onward honward
  | applied _ pop apply append ih => exact ih.applied keeps pop apply append
  | answered _ hanswer ih => exact ih.answered hanswer

end Code.Fits

end FreePrograms
