/-
# Codes abreast

Two codes that are built in the same way hold their frames in different sequences, with other names,
and the functions of their frames make codes that differ again in this way.  `Terms.Codes` says that
two codes are such a pair, and of which type their results are.  Their frames, read as lists, have
to form a *chain* (`Terms.Chain`): frame by frame they apply functions that return such pairs, and
what the one frame makes is what the next one takes.  So types fit end to end, which is why a value
that comes to a frame always has the type that the frame was made for.

The terms of a pact say to which halts functions may come on both sides, and where the second side
may break: the function there halts where the first one goes on.

Codes that are abreast advance abreast (`Terms.Codes.advance`), frame by frame and turn by turn, and
what takes the answer to an effect makes codes that are abreast again (`Terms.Waits.answer`).
-/
import FreePrograms.Proofs.Run.Abreast

namespace FreePrograms

variable {S : Signature} {K L : Host S} {a b c : S.Ty}

/-! ## 1. Pairs of frames and codes -/

/-- Two functions applied to the same answer made the same of it, or the second one broke. -/
inductive Terms.Decoded (terms : Terms S) (answer : Packed S) {α : Type} :
    Except (Halt S) α → Except (Halt S) α → Prop
  | value (value : α) : Terms.Decoded terms answer (.ok value) (.ok value)
  | halt {halt : Halt S} (allowed : terms.allowed halt) :
    Terms.Decoded terms answer (.error halt) (.error halt)
  | spoilt {result : Except (Halt S) α} {halt : Halt S}
    (spoilt : terms.spoilt (.decode answer) halt) : Terms.Decoded terms answer result (.error halt)

/-- Two frames that take the answer to an effect and make a value of the given type. -/
inductive Terms.Takes (terms : Terms S) : Frame S → Frame S → S.Ty → Prop
  | expect (a : S.Ty) : Terms.Takes terms (.expect a) (.expect a) a
  | decode {a : S.Ty} {decode decode' : Packed S → Except (Halt S) (S.El a)}
    (decoded : ∀ answer, terms.Decoded answer (decode answer) (decode' answer)) :
    Terms.Takes terms (.decode a decode) (.decode a decode') a

/-- Two nodes with the same value, or that ask for the same effect. -/
inductive Terms.Nodes (terms : Terms S) : Node S → Node S → S.Ty → Prop
  | value {a : S.Ty} (value : S.El a) : Terms.Nodes terms (.value ⟨a, value⟩) (.value ⟨a, value⟩) a
  | ask (effect : S.Effect) {frame frame' : Frame S} {a : S.Ty}
    (takes : terms.Takes frame frame' a) :
    Terms.Nodes terms (.ask effect frame) (.ask effect frame') a

mutual

/-- Two frames that take a value of the first type and go on with codes of the second type. -/
inductive Terms.Link {S : Signature} (terms : Terms S) :
    Ledger (Frame S) → Ledger (Frame S) → S.Ty → Frame S → Frame S → S.Ty → Prop
  | bind {ledger ledger' : Ledger (Frame S)} {a b : S.Ty} (provenance : Provenance)
    {function function' : S.El a → Cell → Except (Halt S) (Code S × Cell)}
    (returned : ∀ value later later', ledger <+: later → ledger' <+: later' →
      Terms.Returned terms later later' (.bind provenance ⟨a, value⟩) (function value later.length)
        (function' value later'.length) b) :
    Terms.Link terms ledger ledger' a (.bind provenance a function) (.bind provenance a function') b
  | kept {ledger ledger' : Ledger (Frame S)} {a b : S.Ty} (place : Nat) :
    Terms.Link terms ledger ledger' a (.kept place b) (.kept place b) b

/-- Frames that fit end to end, from a value of the first type to one of the second type. -/
inductive Terms.Chain {S : Signature} (terms : Terms S) :
    Ledger (Frame S) → Ledger (Frame S) → S.Ty → List (Frame S) → List (Frame S) → S.Ty → Prop
  | nil {ledger ledger' : Ledger (Frame S)} {a : S.Ty} : Terms.Chain terms ledger ledger' a [] [] a
  | cons {ledger ledger' : Ledger (Frame S)} {a b c : S.Ty} {frame frame' : Frame S}
    {frames frames' : List (Frame S)} (link : Terms.Link terms ledger ledger' a frame frame' b)
    (rest : Terms.Chain terms ledger ledger' b frames frames' c) :
    Terms.Chain terms ledger ledger' a (frame :: frames) (frame' :: frames') c

/-- Two functions, begun when the names of the ledgers were given, returned codes that are abreast
or came to the same halt; or the second one broke. -/
inductive Terms.Returned {S : Signature} (terms : Terms S) :
    Ledger (Frame S) → Ledger (Frame S) → Callback S → Except (Halt S) (Code S × Cell) →
      Except (Halt S) (Code S × Cell) → S.Ty → Prop
  | code {ledger ledger' later later' : Ledger (Frame S)} {callback : Callback S}
    {code code' : Code S} {b : S.Ty} (first : ledger <+: later) (second : ledger' <+: later')
    (codes : Terms.Codes terms later later' code code' b) :
    Terms.Returned terms ledger ledger' callback (.ok (code, later.length))
      (.ok (code', later'.length)) b
  | halt {ledger ledger' : Ledger (Frame S)} {callback : Callback S} {halt : Halt S} {b : S.Ty}
    (allowed : terms.allowed halt) :
    Terms.Returned terms ledger ledger' callback (.error halt) (.error halt) b
  | spoilt {ledger ledger' : Ledger (Frame S)} {callback : Callback S}
    {result : Except (Halt S) (Code S × Cell)} {halt : Halt S} {b : S.Ty}
    (spoilt : terms.spoilt callback halt) :
    Terms.Returned terms ledger ledger' callback result (.error halt) b

/-- Two codes with the same node but for the functions, whose frames form a chain up to the given
type. -/
inductive Terms.Codes {S : Signature} (terms : Terms S) :
    Ledger (Frame S) → Ledger (Frame S) → Code S → Code S → S.Ty → Prop
  | intro {ledger ledger' : Ledger (Frame S)} {node node' : Node S}
    {frames frames' : Sequence (Frame S)} {a b : S.Ty} (nodes : terms.Nodes node node' a)
    (chain : Terms.Chain terms ledger ledger' a frames.toList frames'.toList b)
    (sound : frames.Sound ledger) (sound' : frames'.Sound ledger') :
    Terms.Codes terms ledger ledger' (.mk node frames) (.mk node' frames') b

end

/-- Two codes that wait for the answer to the same effect. -/
inductive Terms.Waits (terms : Terms S) (ledger ledger' : Ledger (Frame S)) :
    Waiting S → Waiting S → S.Ty → Prop
  | intro (effect : S.Effect) {frame frame' : Frame S} {pending pending' : Sequence (Frame S)}
    {a b : S.Ty} (takes : terms.Takes frame frame' a)
    (chain : terms.Chain ledger ledger' a pending.toList pending'.toList b)
    (sound : pending.Sound ledger) (sound' : pending'.Sound ledger') :
    Terms.Waits terms ledger ledger' ⟨effect, frame, pending⟩ ⟨effect, frame', pending'⟩ b

/-- Two codes stopped at the same value of the given type, or wait for the answer to the same
effect. -/
inductive Terms.Stops (terms : Terms S) (ledger ledger' : Ledger (Frame S)) :
    Stop S → Stop S → S.Ty → Prop
  | finished {b : S.Ty} (value : S.El b) :
    Terms.Stops terms ledger ledger' (.finished ⟨b, value⟩) (.finished ⟨b, value⟩) b
  | waiting {waiting waiting' : Waiting S} {b : S.Ty}
    (waits : terms.Waits ledger ledger' waiting waiting' b) :
    Terms.Stops terms ledger ledger' (.waiting waiting) (.waiting waiting') b

/-- What two sequences gave when the first frame was taken off: nothing, and then the value is of
the final type; or a link, and what goes on from there. -/
inductive Terms.Popped (terms : Terms S) (ledger ledger' : Ledger (Frame S)) (a : S.Ty) :
    Option (Frame S × Sequence (Frame S)) → Option (Frame S × Sequence (Frame S)) → S.Ty → Prop
  | none : Terms.Popped terms ledger ledger' a none none a
  | some {frame frame' : Frame S} {rest rest' : Sequence (Frame S)} {b c : S.Ty}
    (link : terms.Link ledger ledger' a frame frame' b)
    (chain : terms.Chain ledger ledger' b rest.toList rest'.toList c) (sound : rest.Sound ledger)
    (sound' : rest'.Sound ledger') :
    Terms.Popped terms ledger ledger' a (some (frame, rest)) (some (frame', rest')) c

namespace Terms

variable {terms : Terms S} {ledger ledger' later later' : Ledger (Frame S)}

/-! ## 2. Pairs stay pairs when names are taken -/

theorem Link.mono (first : ledger <+: later) (second : ledger' <+: later') {frame frame' : Frame S}
    (h : terms.Link ledger ledger' a frame frame' b) :
    terms.Link later later' a frame frame' b := by
  cases h with
  | bind provenance returned =>
    exact .bind provenance fun value last last' hlast hlast' =>
      returned value last last' (first.trans hlast) (second.trans hlast')
  | kept place => exact .kept place

theorem Chain.mono (first : ledger <+: later) (second : ledger' <+: later') :
    {a : S.Ty} → {frames frames' : List (Frame S)} →
      terms.Chain ledger ledger' a frames frames' b → terms.Chain later later' a frames frames' b
  | _, _, _, .nil => .nil
  | _, _, _, .cons link rest => .cons (link.mono first second) (rest.mono first second)

theorem Chain.append : {a : S.Ty} → {frames frames' more more' : List (Frame S)} →
    terms.Chain ledger ledger' a frames frames' b → terms.Chain ledger ledger' b more more' c →
      terms.Chain ledger ledger' a (frames ++ more) (frames' ++ more') c
  | _, _, _, _, _, .nil, h => h
  | _, _, _, _, _, .cons link rest, h => .cons link (rest.append h)

theorem Codes.mono (first : ledger <+: later) (second : ledger' <+: later') {code code' : Code S}
    (h : terms.Codes ledger ledger' code code' b) : terms.Codes later later' code code' b := by
  cases h with
  | intro nodes chain sound sound' =>
    exact .intro nodes (chain.mono first second) (sound.mono first) (sound'.mono second)

theorem Waits.mono (first : ledger <+: later) (second : ledger' <+: later')
    {waiting waiting' : Waiting S} (h : terms.Waits ledger ledger' waiting waiting' b) :
    terms.Waits later later' waiting waiting' b := by
  cases h with
  | intro effect takes chain sound sound' =>
    exact .intro effect takes (chain.mono first second) (sound.mono first) (sound'.mono second)

theorem Stops.mono (first : ledger <+: later) (second : ledger' <+: later') {stop stop' : Stop S}
    (h : terms.Stops ledger ledger' stop stop' b) : terms.Stops later later' stop stop' b := by
  cases h with
  | finished value => exact .finished value
  | waiting waits => exact .waiting (waits.mono first second)

/-- Splits of a chain give its first link, or there is none. -/
theorem Chain.popped {frames frames' : List (Frame S)}
    (chain : terms.Chain ledger ledger' a frames frames' b)
    {popped popped' : Option (Frame S × Sequence (Frame S))}
    (hsplits : Sequence.Splits ledger frames popped)
    (hsplits' : Sequence.Splits ledger' frames' popped') :
    terms.Popped ledger ledger' a popped popped' b := by
  cases hsplits with
  | nil =>
    cases chain
    cases hsplits'
    exact .none
  | cons head sound =>
    cases chain with
    | cons link rest =>
      cases hsplits' with
      | cons head' sound' => exact .some link rest sound sound'

theorem Popped.mono (first : ledger <+: later) (second : ledger' <+: later')
    {popped popped' : Option (Frame S × Sequence (Frame S))}
    (h : terms.Popped ledger ledger' a popped popped' b) :
    terms.Popped later later' a popped popped' b := by
  cases h with
  | none => exact .none
  | some link chain sound sound' =>
    exact .some (link.mono first second) (chain.mono first second) (sound.mono first)
      (sound'.mono second)

end Terms

open Pact

variable {pact : Pact K L} {ledger ledger' later later' : Ledger (Frame S)}

/-! ## 3. The steps of a code, abreast -/

/-- Codes that are abreast, with results of the given type. -/
def Pact.codes (pact : Pact K L) (b : S.Ty) : Agreement S (Code S) (Code S) :=
  ⟨fun ledger ledger' code code' => pact.Codes ledger ledger' code code' b, Any,
    fun first second h => h.mono first second, fun _ => trivial⟩

/-- Stops that are abreast, with results of the given type. -/
def Pact.stops (pact : Pact K L) (b : S.Ty) : Agreement S (Stop S) (Stop S) :=
  ⟨fun ledger ledger' stop stop' => pact.Stops ledger ledger' stop stop' b, Any,
    fun first second h => h.mono first second, fun _ => trivial⟩

/-- What two functions returned, just noted by the hosts. -/
theorem Pact.Abreast.returned (callback : Callback S) {steps steps' : Building S (Code S)}
    (h : ∀ later later', ledger <+: later → ledger' <+: later' →
      pact.Returned later later' callback (steps later.length) (steps' later'.length) b) :
    pact.Abreast pact.Ordinary (pact.codes b)
      ledger ledger' (do Run.observe callback; Run.building steps)
      (do Run.observe callback; Run.building steps') := by
  refine ⟨?_⟩
  intro later later' s t first second agrees agrees' together
  have hobserved := pact.hosts_observe callback together
  have hreturned := h later later' first second
  rw [← agrees.next_eq, ← agrees'.next_eq] at hreturned
  obtain ⟨⟨next, tails, collapses⟩, schedule, pops, events, host⟩ := s
  obtain ⟨⟨next', tails', collapses'⟩, schedule', pops', events', host'⟩ := t
  change pact.Results _ _ _ _
    (Run.building steps ⟨⟨next, tails, collapses⟩, schedule, pops, events, K.observe callback host⟩)
    (Run.building steps'
      ⟨⟨next', tails', collapses'⟩, schedule', pops', events', L.observe callback host'⟩)
  change pact.Returned later later' callback (steps next) (steps' next') b at hreturned
  generalize hmade : steps next = made at hreturned
  generalize hmade' : steps' next' = made' at hreturned
  cases hreturned with
  | code hlast hlast' codes =>
    rw [Run.building_of_ok hmade, Run.building_of_ok hmade']
    exact .ok hlast hlast' (agrees.mono hlast) (agrees'.mono hlast')
      (pact.hosts_mono hlast hobserved) codes
  | halt allowed =>
    rw [Run.building_of_error hmade, Run.building_of_error hmade']
    exact .error (List.prefix_refl _) (List.prefix_refl _) agrees agrees' hobserved (.inl allowed)
  | @spoilt _ _ _ _ halt _ spoilt =>
    have hright : (Run.building steps' : Run L (Code S))
        ⟨⟨next', tails', collapses'⟩, schedule', pops', events', L.observe callback host'⟩
          = .error halt _ := Run.building_of_error hmade'
    rw [hright]
    refine .broken (List.prefix_refl _) agrees' (pact.breaks_observe spoilt together) ?_
    have hsince := pact.since_hosts hobserved
    cases made with
    | ok made =>
      rw [Run.building_of_ok hmade]
      exact ⟨hsince, trivial⟩
    | error halt =>
      rw [Run.building_of_error hmade]
      exact hsince

/-- What two functions made of an answer, just noted by the hosts. -/
theorem Pact.Abreast.decoded (answer : Packed S) {result result' : Except (Halt S) (S.El a)}
    (h : pact.Decoded answer result result') :
    pact.Abreast pact.Ordinary (pact.codes a)
      ledger ledger'
      (do Run.observe (.decode answer); return .ofValue a (← Run.except result))
      (do Run.observe (.decode answer); return .ofValue a (← Run.except result')) := by
  refine ⟨?_⟩
  intro later later' s t first second agrees agrees' together
  have hobserved := pact.hosts_observe (.decode answer) together
  cases h with
  | value value =>
    refine .ok (s := { s with host := _ }) (t := { t with host := _ }) (List.prefix_refl _)
      (List.prefix_refl _) agrees agrees' hobserved ?_
    exact Terms.Codes.intro (.value value) (by simpa using .nil) .empty .empty
  | halt allowed =>
    exact .error (s := { s with host := _ }) (t := { t with host := _ }) (List.prefix_refl _)
      (List.prefix_refl _) agrees agrees' hobserved (.inl allowed)
  | spoilt spoilt =>
    refine .broken (t := { t with host := _ }) (List.prefix_refl _) agrees'
      (pact.breaks_observe spoilt together) ?_
    have hsince := pact.since_hosts hobserved
    cases result with
    | ok value => exact ⟨hsince, trivial⟩
    | error halt => exact hsince

/-- What is kept at a place is abreast with what the other side keeps there, at every type. -/
def Pact.Keeps (pact : Pact K L) (ledger ledger' : Ledger (Frame S)) : Prop :=
  ∀ place type, pact.Abreast pact.Ordinary
    (pact.codes type) ledger ledger'
    (Run.kept place type) (Run.kept place type)

theorem Pact.Keeps.mono (first : ledger <+: later) (second : ledger' <+: later')
    (h : pact.Keeps ledger ledger') : pact.Keeps later later' :=
  fun place type => (h place type).mono first second

/-- A frame of a bind takes a value of its type. -/
theorem Frame.bind_apply (provenance : Provenance)
    (function : S.El a → Cell → Except (Halt S) (Code S × Cell)) (value : S.El a) :
    ((Frame.bind provenance a function).apply ⟨a, value⟩ : Run K (Code S))
      = (do Run.observe (.bind provenance ⟨a, value⟩); Run.building (function value)) := by
  rw [Frame.apply, Packed.unpack_self]
  rfl

/-- **A link takes a value of its type**, and both sides go on with codes of the other type. -/
theorem Terms.Link.apply (keeps : pact.Keeps ledger ledger') {frame frame' : Frame S}
    (h : pact.Link ledger ledger' a frame frame' b) (value : S.El a) :
    pact.Abreast pact.Ordinary (pact.codes b)
      ledger ledger' (frame.apply ⟨a, value⟩) (frame'.apply ⟨a, value⟩) := by
  cases h with
  | bind provenance returned =>
    rw [Frame.bind_apply, Frame.bind_apply]
    exact Abreast.returned _ fun later later' first second =>
      returned value later later' first second
  | kept place =>
    rw [Frame.apply, Frame.apply]
    exact .observe _ (keeps place b)

/-- **What takes an answer makes a value of its type**, or halts on both sides. -/
theorem Terms.Takes.apply {frame frame' : Frame S} (h : pact.Takes frame frame' a)
    (answer : Packed S) :
    pact.Abreast pact.Possible (pact.codes a)
      ledger ledger' (frame.apply answer) (frame'.apply answer) := by
  cases h with
  | expect =>
    rw [Frame.apply, Frame.apply]
    by_cases htype : answer.type = a
    · obtain ⟨type, value⟩ := answer
      subst htype
      rw [Packed.unpack_self]
      exact Abreast.pure (Terms.Codes.intro (.value value) (by simpa using .nil) .empty .empty)
    · rw [Packed.unpack_of_ne .answer htype]
      exact Abreast.throw (Or.inr ⟨a, rfl⟩)
  | decode decoded =>
    rw [Frame.apply, Frame.apply]
    exact (Abreast.decoded answer (decoded answer)).weaken fun _ => Or.inl

/-- What two sequences gave, up to the given type. -/
def Pact.popped (pact : Pact K L) (a b : S.Ty) :
    Agreement S (Option (Frame S × Sequence (Frame S))) (Option (Frame S × Sequence (Frame S))) :=
  ⟨fun ledger ledger' popped popped' => pact.Popped ledger ledger' a popped popped' b, Any,
    fun first second h => h.mono first second, fun _ => trivial⟩

/-- **Chains are popped abreast**, whoever else holds their nodes and whatever the tables know. -/
theorem Pact.Abreast.pop {frames frames' : Sequence (Frame S)} (sound : frames.Sound ledger)
    (sound' : frames'.Sound ledger')
    (chain : pact.Chain ledger ledger' a frames.toList frames'.toList b) :
    pact.Abreast pact.Ordinary (pact.popped a b) ledger ledger' (Run.pop frames)
      (Run.pop frames') := by
  refine ⟨?_⟩
  rintro later later' ⟨memo, schedule, pops, events, host⟩ ⟨memo', schedule', pops', events', host'⟩
    first second agrees agrees' together
  obtain ⟨last, hlast, hagrees, hsplits⟩ :=
    Sequence.pop_ensures (sound.mono first) (schedule pops) memo agrees
  obtain ⟨last', hlast', hagrees', hsplits'⟩ :=
    Sequence.pop_ensures (sound'.mono second) (schedule' pops') memo' agrees'
  have hchain := chain.mono (first.trans hlast) (second.trans hlast')
  exact .ok (s := ⟨_, schedule, pops + 1, events, host⟩)
    (t := ⟨_, schedule', pops' + 1, events', host'⟩) hlast hlast' hagrees hagrees'
    (pact.hosts_mono hlast together) (hchain.popped hsplits hsplits')

/-- Putting frames behind a code keeps its node and appends. -/
theorem Code.append_ensures (code : Code S) {frames : Sequence (Frame S)}
    (hfront : code.frames.Sound ledger) (sound : frames.Sound ledger) :
    Naming.Ensures ledger (code.append frames) fun later made => made.node = code.node ∧
      made.frames.Sound later ∧ made.frames.toList = code.frames.toList ++ frames.toList :=
  (Sequence.link_ensures hfront sound).bind fun _ _ _ hlinked => .pure ⟨rfl, hlinked⟩

/-- **Chains are put behind codes abreast.** -/
theorem Terms.Codes.append {code code' : Code S} (h : pact.Codes ledger ledger' code code' b)
    {frames frames' : Sequence (Frame S)} (sound : frames.Sound ledger)
    (sound' : frames'.Sound ledger')
    (chain : pact.Chain ledger ledger' b frames.toList frames'.toList c) :
    pact.Abreast pact.Ordinary (pact.codes c)
      ledger ledger' (liftM (code.append frames) : Run K (Code S))
      (liftM (code'.append frames') : Run L (Code S)) := by
  cases h with
  | @intro _ _ node node' before before' a _ nodes front hfront hfront' =>
    refine Abreast.naming
      (fun later first =>
        Code.append_ensures (.mk node before) (hfront.mono first) (sound.mono first))
      (fun later second =>
        Code.append_ensures (.mk node' before') (hfront'.mono second) (sound'.mono second)) ?_
    rintro later later' ⟨_, linked⟩ ⟨_, linked'⟩ first second ⟨rfl, hlinked, hlist⟩
      ⟨rfl, hlinked', hlist'⟩
    have happend := (front.append chain).mono first second
    refine .intro nodes ?_ hlinked hlinked'
    change linked.toList = _ at hlist
    change linked'.toList = _ at hlist'
    rw [hlist, hlist']
    exact happend

/-- **Codes that are abreast advance abreast**, and stop in the same turn. -/
theorem Terms.Codes.advance (keeps : pact.Keeps ledger ledger') (turns : Nat) {code code' : Code S}
    (h : pact.Codes ledger ledger' code code' b) :
    pact.Abreast pact.Ordinary (pact.stops b) ledger ledger' (code.advance turns)
      (code'.advance turns) := by
  induction turns generalizing code code' ledger ledger' with
  | zero => exact .throw (Or.inr (Or.inl rfl))
  | succ turns ih =>
    cases h with
    | intro nodes chain sound sound' =>
      cases nodes with
      | ask effect takes =>
        exact .pure (.waiting (.intro effect takes chain sound sound'))
      | value value =>
        rw [Code.advance, Code.advance]
        refine (Abreast.pop sound sound' chain).bind ?_ ?_
        · intro popped _
          cases popped with
          | none => exact .pure trivial
          | some popped =>
            exact (Grows.apply _ popped.1).bind fun code _ =>
              (Grows.append code popped.2).bind fun code _ => .advance turns code
        · intro later later' popped popped' first second hpopped
          have hkeeps := keeps.mono first second
          cases hpopped with
          | none => exact .pure (.finished value)
          | some link rest hsound hsound' =>
            refine (link.apply hkeeps value).bind ?_ ?_
            · exact fun code _ => (Grows.append code _).bind fun code _ => .advance turns code
            · intro later later' code code' first second hcodes
              have happend := hcodes.append (hsound.mono first) (hsound'.mono second)
                (rest.mono first second)
              refine happend.bind (fun code _ => .advance turns code) ?_
              exact fun code code' hfirst hsecond hcodes =>
                ih ((hkeeps.mono first second).mono hfirst hsecond) hcodes

/-- **What waits for an answer takes it abreast.** -/
theorem Terms.Waits.answer {waiting waiting' : Waiting S}
    (h : pact.Waits ledger ledger' waiting waiting' b) (answer : Packed S) :
    pact.Abreast pact.Possible (pact.codes b) ledger ledger' (waiting.answer answer)
      (waiting'.answer answer) := by
  cases h with
  | intro effect takes chain sound sound' =>
    refine (takes.apply answer).bind (fun code _ => .append code _) ?_
    intro later later' code code' first second hcodes
    have happend := hcodes.append (sound.mono first) (sound'.mono second) (chain.mono first second)
    exact happend.weaken fun _ => Or.inl

end FreePrograms
