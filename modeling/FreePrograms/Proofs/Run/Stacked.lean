/-
# The plain stack machine, abreast

A code can be advanced beside the plain stack machine, each on a session of its own.  What the code
does to its sequences the machine does not do at all: to split a sequence, and to put one behind
another, are steps of the first side alone (`Pact.Abreast.first_alone`).  What is left is that both
apply the first of their frames, and these are abreast.  So the two stop in the same turn, at the
same value or effect, or halt alike (`Terms.Stacks.run`).
-/
import FreePrograms.Proofs.Run.Codes
import FreePrograms.Proofs.Run.Machine
import FreePrograms.Proofs.Tree.Settles

namespace FreePrograms

open Pact

variable {S : Signature} {K L : Host S} {b : S.Ty} {α β γ : Type}

/-! ## 1. Steps of the first side alone -/

section Alone

variable {pact : Pact K L} {possible : Halt S → Prop} {values : Agreement S α β}
  {ledger ledger' : Ledger (Frame S)}

/-- A step of the first side that keeps the host, and after which both go on. -/
theorem Pact.Abreast.first_alone {work : Run K γ} {next : γ → Run K α} {work' : Run L β}
    {post : Ledger (Frame S) → γ → Prop}
    (h : ∀ {later : Ledger (Frame S)} {s : Session K}, ledger <+: later → s.memo.Agrees later →
      ∃ last c s', later <+: last ∧ s'.memo.Agrees last ∧ s'.host = s.host ∧ work s = .ok c s' ∧
        post last c)
    (hnext : ∀ {last : Ledger (Frame S)} {c : γ}, ledger <+: last → post last c →
      pact.Abreast possible values last ledger' (next c) work') :
    pact.Abreast possible values ledger ledger' (work >>= next) work' := by
  refine ⟨?_⟩
  intro later later' s t first second agrees agrees' together
  obtain ⟨last, c, s', hlast, hagrees, hhost, hwork, hpost⟩ := h first agrees
  have hgoes := hnext (first.trans hlast) hpost
  have htogether : pact.hosts last s'.host t.host := by
    rw [hhost]
    exact pact.hosts_mono hlast together
  rw [bind_of_ok hwork]
  exact (hgoes.results (List.prefix_refl _) second hagrees agrees' htogether).earlier hlast
    (List.prefix_refl _)

/-- A sequence is split where there is a list on the other side. -/
theorem Pact.Abreast.pop_alone {frames : Sequence (Frame S)} (sound : frames.Sound ledger)
    {next : Option (Frame S × Sequence (Frame S)) → Run K α} {work' : Run L β}
    (hnext : ∀ {last : Ledger (Frame S)} {popped : Option (Frame S × Sequence (Frame S))},
      ledger <+: last → Sequence.Splits last frames.toList popped →
        pact.Abreast possible values last ledger' (next popped) work') :
    pact.Abreast possible values ledger ledger' (Run.pop frames >>= next) work' :=
  .first_alone (fun first agrees => Run.pop_eq (sound.mono first) agrees) hnext

/-- Frames are linked where lists are put one behind the other. -/
theorem Pact.Abreast.append_alone {code : Code S} {frames : Sequence (Frame S)}
    (hcode : code.frames.Sound ledger) (sound : frames.Sound ledger) {next : Code S → Run K α}
    {work' : Run L β}
    (hnext : ∀ {last : Ledger (Frame S)} {made : Code S}, ledger <+: last →
      made.node = code.node ∧ made.frames.Sound last ∧
        made.frames.toList = code.frames.toList ++ frames.toList →
          pact.Abreast possible values last ledger' (next made) work') :
    pact.Abreast possible values ledger ledger'
      ((liftM (code.append frames) : Run K (Code S)) >>= next) work' :=
  .first_alone
    (fun first agrees => Run.naming_eq (code.append_ensures (hcode.mono first) (sound.mono first))
      agrees) hnext

end Alone

/-! ## 2. A code and a stack -/

/-- A code and a stack with the same node but for the functions, whose frames form a chain up to
the given type. -/
inductive Terms.Stacks (terms : Terms S) (ledger ledger' : Ledger (Frame S)) :
    Code S → Stack S → S.Ty → Prop
  | intro {node node' : Node S} {frames : Sequence (Frame S)} {pending : List (Frame S)}
    {a b : S.Ty} (nodes : terms.Nodes node node' a)
    (chain : terms.Chain ledger ledger' a frames.toList pending b) (sound : frames.Sound ledger) :
    Terms.Stacks terms ledger ledger' (.mk node frames) ⟨node', pending⟩ b

/-- A code and a machine stopped at the same value of the given type, or at the same effect. -/
inductive Terms.Stands (terms : Terms S) (ledger ledger' : Ledger (Frame S)) :
    Stop S → Stack.Stop S → S.Ty → Prop
  | finished {b : S.Ty} (value : S.El b) :
    Terms.Stands terms ledger ledger' (.finished ⟨b, value⟩) (.finished ⟨b, value⟩) b
  | waiting (effect : S.Effect) {frame frame' : Frame S} {frames : Sequence (Frame S)}
    {pending : List (Frame S)} {a b : S.Ty} (takes : terms.Takes frame frame' a)
    (chain : terms.Chain ledger ledger' a frames.toList pending b) :
    Terms.Stands terms ledger ledger' (.waiting ⟨effect, frame, frames⟩)
      (.waiting effect frame' pending) b

theorem Terms.Stands.mono {terms : Terms S} {ledger later ledger' later' : Ledger (Frame S)}
    (first : ledger <+: later) (second : ledger' <+: later') {stop : Stop S} {stop' : Stack.Stop S}
    (h : terms.Stands ledger ledger' stop stop' b) : terms.Stands later later' stop stop' b := by
  cases h with
  | finished value => exact .finished value
  | waiting effect takes chain => exact .waiting effect takes (chain.mono first second)

variable {pact : Pact K L} {ledger ledger' : Ledger (Frame S)}

/-- Stops that are abreast, with results of the given type. -/
def Pact.stands (pact : Pact K L) (b : S.Ty) : Agreement S (Stop S) (Stack.Stop S) :=
  ⟨fun ledger ledger' stop stop' => pact.Stands ledger ledger' stop stop' b, Any,
    fun first second h => h.mono first second, fun _ => trivial⟩

/-- A code that is abreast with another is one whose sequence is what it was named for. -/
theorem Terms.Codes.sound {code code' : Code S} (h : pact.Codes ledger ledger' code code' b) :
    code.frames.Sound ledger := by
  cases h with
  | intro _ _ sound _ => exact sound

/-- A code that is abreast with another is abreast with the stack of that one. -/
theorem Terms.Codes.stacks {code code' : Code S} (h : pact.Codes ledger ledger' code code' b) :
    pact.Stacks ledger ledger' code code'.stack b := by
  cases h with
  | intro nodes chain sound _ => exact .intro nodes chain sound

/-- What a code returns, with frames put behind it on both sides. -/
theorem Terms.Codes.returned {later : Ledger (Frame S)} {c : S.Ty} {code code' made : Code S}
    (h : pact.Codes ledger ledger' code code' b) {frames : Sequence (Frame S)}
    {pending : List (Frame S)} (chain : pact.Chain ledger ledger' b frames.toList pending c)
    (first : ledger <+: later)
    (hmade : made.node = code.node ∧ made.frames.Sound later ∧
      made.frames.toList = code.frames.toList ++ frames.toList) :
    pact.Stacks later ledger' made (Stack.returned code' pending) c := by
  obtain ⟨node, linked⟩ := made
  cases h with
  | intro nodes front _ _ =>
  obtain ⟨rfl, sound, hlist⟩ := hmade
  refine .intro nodes ?_ sound
  change linked.toList = _ at hlist
  rw [hlist]
  exact (front.append chain).mono first (List.prefix_refl _)

/-- **A code is advanced beside the machine**, and they stop in the same turn. -/
theorem Terms.Stacks.run (keeps : pact.Keeps ledger ledger') (turns : Nat) {code : Code S}
    {stack : Stack S} (h : pact.Stacks ledger ledger' code stack b) :
    pact.Abreast pact.Ordinary (pact.stands b) ledger ledger' (code.advance turns)
      (stack.run turns) := by
  induction turns generalizing code stack ledger ledger' with
  | zero => exact .throw (Or.inr (Or.inl rfl))
  | succ turns ih =>
    cases h with
    | @intro node _ frames _ _ _ nodes chain sound =>
      cases nodes with
      | ask effect takes => exact .pure (.waiting effect takes chain)
      | value value =>
        rw [Code.advance]
        refine .pop_alone sound ?_
        intro last popped first hsplits
        have hchain := chain.mono first (List.prefix_refl ledger')
        generalize frames.toList = list at hsplits hchain
        cases hsplits with
        | nil =>
          cases hchain
          exact .pure (.finished value)
        | cons head hsound =>
          cases hchain with
          | cons link rest =>
          have hkeeps := keeps.mono first (List.prefix_refl ledger')
          refine (link.apply hkeeps value).bind ?_ ?_
          · exact fun code _ => (Grows.append code _).bind fun code _ => .advance turns code
          · intro later later' code code' hlater hlater' hcodes
            refine .append_alone hcodes.sound (hsound.mono hlater) ?_
            intro final made hfinal hmade
            exact ih ((hkeeps.mono hlater hlater').mono hfinal (List.prefix_refl later'))
              (hcodes.returned (rest.mono hlater hlater') hfinal hmade)

/-! ## 3. What a stopped machine shows -/

/-- What can be seen of a machine that stopped: the value, or the effect and how many frames are
pending. -/
def Stack.Stop.shown : Stack.Stop S → Packed S ⊕ (S.Effect × Nat)
  | finished value => .inl value
  | waiting effect _ pending => .inr (effect, pending.length)

theorem Terms.Chain.length_eq {terms : Terms S} : {a : S.Ty} → {frames frames' : List (Frame S)} →
    terms.Chain ledger ledger' a frames frames' b → frames.length = frames'.length
  | _, _, _, .nil => rfl
  | _, _, _, .cons _ rest => congrArg Nat.succ rest.length_eq

theorem Terms.Stands.shown_eq {terms : Terms S} {stop : Stop S} {stop' : Stack.Stop S}
    (h : terms.Stands ledger ledger' stop stop' b) : stop.stack.shown = stop'.shown := by
  cases h with
  | finished value => rfl
  | waiting effect takes chain =>
    rw [Stop.stack, Stack.Stop.shown, Stack.Stop.shown, chain.length_eq]

/-- **The machine shows what an advanced code does**, on sessions that have the host in common. -/
theorem Terms.Stacks.shown_eq {allowed : Halt S → Prop} {code : Code S} {stack : Stack S}
    (keeps : (K.equal allowed).Keeps ledger ledger')
    (h : (K.equal allowed).Stacks ledger ledger' code stack b) (turns : Nat)
    {session session' : Session K} (agrees : session.memo.Agrees ledger)
    (agrees' : session'.memo.Agrees ledger') (hhost : session.host = session'.host) :
    hostResult ((do return (← code.advance turns).stack.shown : Run K _) session)
      = hostResult ((do return (← stack.run turns).shown : Run K _) session') := by
  have hresults := (h.run keeps turns).results (List.prefix_refl _) (List.prefix_refl _) agrees
    agrees' hhost
  generalize hleft : code.advance turns session = left at hresults
  generalize hright : stack.run turns session' = right at hresults
  cases hresults with
  | @ok _ _ _ _ last last' _ _ _ _ together stands =>
    have hhosts : last.host = last'.host := together
    rw [bind_of_ok hleft, bind_of_ok hright, stands.shown_eq]
    exact congrArg (EStateM.Result.ok _) hhosts
  | @error _ _ _ last last' _ _ _ _ together _ =>
    have hhosts : last.host = last'.host := together
    rw [bind_of_error hleft, bind_of_error hright]
    exact congrArg (EStateM.Result.error _) hhosts
  | broken _ _ breaks _ => exact breaks.elim

end FreePrograms
