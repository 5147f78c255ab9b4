/-
# Computations abreast

Two computations on two sessions can do the same although the sessions have little in common: other
names, other tails that are known, other owners of the nodes that are popped.  `Pact.Abreast` says
so.  Begun on sessions whose tables fit their ledgers and whose hosts go together, both end with
values that go together, or with the same halt, and again the tables fit and the hosts go together.
So the second one can be used in place of the first, and what the first one does to a table is of no
consequence to anything that comes later.

A `Pact` says what it means for two hosts to go together.  It can also let the second side *break*:
it halts alone, at a function that was applied there and on the first side gave something else.  Of
the first side, which goes on, it is then said only that its host comes no less far than the second
one had come (`Pact.since`, `Pact.Grows`), and what is always so of its value (`Agreement.first`).
A pact that allows no breaks is one of equal computations.

Computations abreast go on abreast (`Pact.Abreast.bind`), and the steps of a run have one rule each.
-/
import FreePrograms.Proofs.Run.Habits
import FreePrograms.Proofs.Sequence.Split

namespace FreePrograms

variable {S : Signature} {K L : Host S} {α β γ δ : Type}

/-- What functions of programs may come to. -/
structure Terms (S : Signature) where
  /-- The halts that they may come to on both sides. -/
  allowed : Halt S → Prop
  /-- The halts to which the application of a function may come on the second side alone. -/
  spoilt : Callback S → Halt S → Prop

/-- What two sides that run abreast have in common, and how the second one may break. -/
structure Pact (K L : Host S) extends Terms S where
  /-- The states of the hosts go together, where the names of a ledger of the first side are given.
  -/
  hosts : Ledger (Frame S) → K.State → L.State → Prop
  /-- Where the second side may stop alone: the halt, and how it leaves the host. -/
  breaks : Halt S → L.State → Prop
  /-- The first host has come no less far than the second one had. -/
  since : L.State → K.State → Prop
  hosts_mono {ledger later : Ledger (Frame S)} {s : K.State} {t : L.State} :
    ledger <+: later → hosts ledger s t → hosts later s t
  hosts_observe {ledger : Ledger (Frame S)} {s : K.State} {t : L.State} (callback : Callback S) :
    hosts ledger s t → hosts ledger (K.observe callback s) (L.observe callback t)
  breaks_observe {ledger : Ledger (Frame S)} {s : K.State} {t : L.State} {callback : Callback S}
    {halt : Halt S} :
    spoilt callback halt → hosts ledger s t → breaks halt (L.observe callback t)
  since_hosts {ledger : Ledger (Frame S)} {s : K.State} {t : L.State} : hosts ledger s t → since t s
  since_observe {s : K.State} {t : L.State} (callback : Callback S) :
    since t s → since t (K.observe callback s)

/-- What is said of the values of two sides. -/
structure Agreement (S : Signature) (α β : Type) where
  /-- Of both values, where the names of two ledgers are given. -/
  both : Ledger (Frame S) → Ledger (Frame S) → α → β → Prop
  /-- Of a value of the first side, also if the second side broke. -/
  first : α → Prop
  mono {ledger later ledger' later' : Ledger (Frame S)} {a : α} {b : β} :
    ledger <+: later → ledger' <+: later' → both ledger ledger' a b → both later later' a b
  first_of_both {ledger ledger' : Ledger (Frame S)} {a : α} {b : β} :
    both ledger ledger' a b → first a

/-- The values are equal. -/
def Agreement.equal : Agreement S α α :=
  ⟨fun _ _ a b => a = b, Any, fun _ _ h => h, fun _ => trivial⟩

namespace Pact

variable (pact : Pact K L)

/-- The halts that applying frames may come to: those of functions, of places where nothing is kept,
and the end of turns. -/
def Ordinary (halt : Halt S) : Prop :=
  pact.allowed halt ∨ halt = .exhausted ∨ ∃ place, halt = .absent place

/-- The halts that runs may come to: also answers to effects can be of the wrong type. -/
def Possible (halt : Halt S) : Prop := pact.Ordinary halt ∨ ∃ type, halt = .mismatch .answer type

/-! ## 1. Two results -/

/-- The result on the first side comes no less far than the second host had come, and its value is
one of which the given is so. -/
def Beyond (t : L.State) (first : α → Prop) : EStateM.Result (Halt S) (Session K) α → Prop
  | .ok a session => pact.since t session.host ∧ first a
  | .error _ session => pact.since t session.host

/-- Two results go together: values that do, the same halt, or a break of the second side. -/
inductive Results (possible : Halt S → Prop) (values : Agreement S α β)
    (ledger ledger' : Ledger (Frame S)) :
    EStateM.Result (Halt S) (Session K) α → EStateM.Result (Halt S) (Session L) β → Prop
  | ok {later later' : Ledger (Frame S)} {a : α} {b : β} {s : Session K} {t : Session L}
    (first : ledger <+: later) (second : ledger' <+: later') (agrees : s.memo.Agrees later)
    (agrees' : t.memo.Agrees later') (together : pact.hosts later s.host t.host)
    (value : values.both later later' a b) :
    Results possible values ledger ledger' (.ok a s) (.ok b t)
  | error {later later' : Ledger (Frame S)} {halt : Halt S} {s : Session K} {t : Session L}
    (first : ledger <+: later) (second : ledger' <+: later') (agrees : s.memo.Agrees later)
    (agrees' : t.memo.Agrees later') (together : pact.hosts later s.host t.host)
    (halts : possible halt) : Results possible values ledger ledger' (.error halt s) (.error halt t)
  | broken {later' : Ledger (Frame S)} {result : EStateM.Result (Halt S) (Session K) α}
    {halt : Halt S} {t : Session L} (second : ledger' <+: later') (agrees' : t.memo.Agrees later')
    (breaks : pact.breaks halt t.host) (beyond : pact.Beyond t.host values.first result) :
    Results possible values ledger ledger' result (.error halt t)

/-- The computations do the same on sessions that go together, as long as the second one does not
break. -/
structure Abreast (possible : Halt S → Prop) (values : Agreement S α β)
    (ledger ledger' : Ledger (Frame S)) (work : Run K α) (work' : Run L β) : Prop where
  results {later later' : Ledger (Frame S)} {s : Session K} {t : Session L} : ledger <+: later →
    ledger' <+: later' → s.memo.Agrees later → t.memo.Agrees later' →
      pact.hosts later s.host t.host →
        pact.Results possible values later later' (work s) (work' t)

/-- The host comes no less far by the computation than it had come, and the given is so of its
value. -/
def Grows (first : α → Prop) (work : Run K α) : Prop :=
  ∀ t session, pact.since t session.host → pact.Beyond t first (work session)

/-- The computations are abreast, and the first one alone grows. -/
structure Steady (values : Agreement S α β) (ledger ledger' : Ledger (Frame S)) (work : Run K α)
    (work' : Run L β) : Prop where
  abreast : pact.Abreast pact.Possible values ledger ledger' work work'
  grows : pact.Grows values.first work

variable {pact} {possible : Halt S → Prop} {ledger ledger' later later' : Ledger (Frame S)}
  {values : Agreement S α β} {values' : Agreement S γ δ}

namespace Results

variable {result : EStateM.Result (Halt S) (Session K) α}
  {result' : EStateM.Result (Halt S) (Session L) β}

theorem earlier (first : ledger <+: later) (second : ledger' <+: later')
    (h : pact.Results possible values later later' result result') :
    pact.Results possible values ledger ledger' result result' := by
  cases h with
  | ok hlater hlater' agrees agrees' together value =>
    exact .ok (first.trans hlater) (second.trans hlater') agrees agrees' together value
  | error hlater hlater' agrees agrees' together halts =>
    exact .error (first.trans hlater) (second.trans hlater') agrees agrees' together halts
  | broken hlater' agrees' breaks beyond =>
    exact .broken (second.trans hlater') agrees' breaks beyond

end Results

/-! ## 2. Growing -/

namespace Grows

variable {work : Run K α} {first : α → Prop} {first' : γ → Prop}

theorem pure {a : α} (h : first a) : pact.Grows first (Pure.pure a : Run K α) :=
  fun _ _ hsince => ⟨hsince, h⟩

theorem throw (halt : Halt S) : pact.Grows first (MonadExcept.throw halt : Run K α) :=
  fun _ _ hsince => hsince

theorem bind {next : α → Run K γ} (h : pact.Grows first work)
    (hnext : ∀ a, first a → pact.Grows first' (next a)) : pact.Grows first' (work >>= next) := by
  intro t session hsince
  have hwork := h t session hsince
  cases hresult : work session with
  | ok a last =>
    rw [hresult] at hwork
    rw [bind_of_ok hresult]
    exact hnext a hwork.2 t last hwork.1
  | error halt last =>
    rw [hresult] at hwork
    rw [bind_of_error hresult]
    exact hwork

theorem tell (event : Event) : pact.Grows Any (Run.tell event : Run K Unit) :=
  fun _ _ hsince => ⟨hsince, trivial⟩

theorem inside (span : Span) (h : pact.Grows first work) :
    pact.Grows first (Run.inside span work) := by
  intro t session hsince
  have hwork := h t (session.told (.enter span)) hsince
  rw [Run.inside_eq]
  generalize work (session.told (.enter span)) = result at hwork
  cases result with
  | ok a last => exact hwork
  | error halt last => exact hwork

end Grows

/-- To grow is a habit. -/
def growing (pact : Pact K L) : Habit K where
  Holds first work := pact.Grows first work
  pure := Grows.pure
  throw := Grows.throw
  bind := Grows.bind
  naming _ _ _ hsince := ⟨hsince, trivial⟩
  building steps t session hsince := by
    cases h : steps session.memo.next with
    | ok made =>
      rw [Run.building_of_ok h]
      exact ⟨hsince, trivial⟩
    | error halt =>
      rw [Run.building_of_error h]
      exact hsince
  pop _ _ _ hsince := ⟨hsince, trivial⟩
  observe callback _ _ hsince := ⟨pact.since_observe callback hsince, trivial⟩

namespace Grows

theorem except (result : Except (Halt S) α) : pact.Grows Any (Run.except result : Run K α) :=
  pact.growing.except result

theorem apply (value : Packed S) (frame : Frame S) :
    pact.Grows Any (frame.apply value : Run K (Code S)) := pact.growing.apply value frame

theorem append (code : Code S) (frames : Sequence (Frame S)) :
    pact.Grows Any (liftM (code.append frames) : Run K (Code S)) := pact.growing.append code frames

theorem answer (waiting : Waiting S) (answer : Packed S) :
    pact.Grows Any (waiting.answer answer : Run K (Code S)) := pact.growing.answer waiting answer

theorem advance (turns : Nat) (code : Code S) :
    pact.Grows Any (code.advance turns : Run K (Stop S)) := pact.growing.advance turns code

theorem reach {type : S.Ty} (turns : Nat) (code : Code S) :
    pact.Grows Any (code.reach type turns : Run K _) := pact.growing.reach turns code

end Grows

/-! ## 3. Steps one after the other -/

namespace Abreast

variable {work : Run K α} {work' : Run L β}

theorem mono (first : ledger <+: later) (second : ledger' <+: later')
    (h : pact.Abreast possible values ledger ledger' work work') :
    pact.Abreast possible values later later' work work' :=
  ⟨fun hlast hlast' => h.results (first.trans hlast) (second.trans hlast')⟩

theorem weaken {possible' : Halt S → Prop} (himp : ∀ halt, possible halt → possible' halt)
    (h : pact.Abreast possible values ledger ledger' work work') :
    pact.Abreast possible' values ledger ledger' work work' := by
  refine ⟨?_⟩
  intro later later' s t first second agrees agrees' together
  have hresults := h.results first second agrees agrees' together
  generalize work s = result at hresults
  generalize work' t = result' at hresults
  cases hresults with
  | ok hlast hlast' agrees agrees' together value =>
    exact .ok hlast hlast' agrees agrees' together value
  | error hlast hlast' agrees agrees' together halts =>
    exact .error hlast hlast' agrees agrees' together (himp _ halts)
  | broken hlast' agrees' breaks beyond => exact .broken hlast' agrees' breaks beyond

theorem pure {a : α} {b : β} (h : values.both ledger ledger' a b) :
    pact.Abreast possible values ledger ledger' (Pure.pure a) (Pure.pure b) :=
  ⟨fun first second agrees agrees' together =>
    .ok (List.prefix_refl _) (List.prefix_refl _) agrees agrees' together
      (values.mono first second h)⟩

theorem throw {halt : Halt S} (h : possible halt) :
    pact.Abreast possible values ledger ledger' (MonadExcept.throw halt) (MonadExcept.throw halt) :=
  ⟨fun _ _ agrees agrees' together =>
    .error (List.prefix_refl _) (List.prefix_refl _) agrees agrees' together h⟩

/-- **Computations abreast go on abreast.**  Where the second one broke, the first one goes on
alone, and its host grows. -/
theorem bind {next : α → Run K γ} {next' : β → Run L δ}
    (h : pact.Abreast possible values ledger ledger' work work')
    (grows : ∀ a, values.first a → pact.Grows values'.first (next a))
    (hnext : ∀ {later later'} a b, ledger <+: later → ledger' <+: later' →
      values.both later later' a b →
        pact.Abreast possible values' later later' (next a) (next' b)) :
    pact.Abreast possible values' ledger ledger' (work >>= next) (work' >>= next') := by
  refine ⟨?_⟩
  intro later later' s t first second agrees agrees' together
  have hresults := h.results first second agrees agrees' together
  generalize hwork : work s = result at hresults
  generalize hwork' : work' t = result' at hresults
  cases hresults with
  | ok hlast hlast' agrees agrees' together value =>
    rw [bind_of_ok hwork, bind_of_ok hwork']
    have hgoes := hnext _ _ (first.trans hlast) (second.trans hlast') value
    exact (hgoes.results (List.prefix_refl _) (List.prefix_refl _) agrees agrees'
      together).earlier hlast hlast'
  | error hlast hlast' agrees agrees' together halts =>
    rw [bind_of_error hwork, bind_of_error hwork']
    exact .error hlast hlast' agrees agrees' together halts
  | broken hlast' agrees' breaks beyond =>
    rw [bind_of_error hwork']
    refine .broken hlast' agrees' breaks ?_
    cases result with
    | ok a last =>
      rw [bind_of_ok hwork]
      exact grows a beyond.2 _ last beyond.1
    | error halt last =>
      rw [bind_of_error hwork]
      exact beyond

/-- What is made of the values at once. -/
theorem map {f : α → γ} {g : β → δ} (h : pact.Abreast possible values ledger ledger' work work')
    (hfirst : ∀ a, values.first a → values'.first (f a))
    (hvalues : ∀ {later later'} a b, ledger <+: later → ledger' <+: later' →
      values.both later later' a b → values'.both later later' (f a) (g b)) :
    pact.Abreast possible values' ledger ledger' (do return f (← work))
      (do return g (← work')) := by
  refine ⟨?_⟩
  intro later later' s t first second agrees agrees' together
  have hresults := h.results first second agrees agrees' together
  generalize hwork : work s = result at hresults
  generalize hwork' : work' t = result' at hresults
  cases hresults with
  | ok hlast hlast' agrees agrees' together value =>
    rw [bind_of_ok hwork, bind_of_ok hwork']
    exact .ok hlast hlast' agrees agrees' together
      (hvalues _ _ (first.trans hlast) (second.trans hlast') value)
  | error hlast hlast' agrees agrees' together halts =>
    rw [bind_of_error hwork, bind_of_error hwork']
    exact .error hlast hlast' agrees agrees' together halts
  | broken hlast' agrees' breaks beyond =>
    rw [bind_of_error hwork']
    refine .broken hlast' agrees' breaks ?_
    cases result with
    | ok a last =>
      rw [bind_of_ok hwork]
      exact ⟨beyond.1, hfirst a beyond.2⟩
    | error halt last =>
      rw [bind_of_error hwork]
      exact beyond

/-- A span makes no difference. -/
theorem inside (span : Span) (h : pact.Abreast possible values ledger ledger' work work') :
    pact.Abreast possible values ledger ledger' (Run.inside span work) (Run.inside span work') := by
  refine ⟨?_⟩
  intro later later' s t first second agrees agrees' together
  have hresults := @results _ _ _ _ _ _ _ _ _ _ _ _ h later later' (s.told (.enter span))
    (t.told (.enter span)) first second agrees agrees' together
  rw [Run.inside_eq, Run.inside_eq]
  generalize work (s.told (.enter span)) = result at hresults
  generalize work' (t.told (.enter span)) = result' at hresults
  cases hresults with
  | ok hlast hlast' agrees agrees' together value =>
    exact .ok hlast hlast' agrees agrees' together value
  | error hlast hlast' agrees agrees' together halts =>
    exact .error hlast hlast' agrees agrees' together halts
  | broken hlast' agrees' breaks beyond =>
    refine .broken hlast' agrees' breaks ?_
    cases result with
    | ok a last => exact beyond
    | error halt last => exact beyond

/-- A change of the states of the hosts that keeps them together. -/
theorem onHost {change : K.State → K.State} {change' : L.State → L.State}
    (h : ∀ {later s t}, ledger <+: later → pact.hosts later s t →
      pact.hosts later (change s) (change' t)) :
    pact.Abreast possible .equal ledger ledger' (Run.onHost change) (Run.onHost change') :=
  ⟨fun first _ agrees agrees' together =>
    .ok (List.prefix_refl _) (List.prefix_refl _) agrees agrees' (h first together) rfl⟩

/-- What comes next may depend on the states of the hosts. -/
theorem host_bind {next : K.State → Run K α} {next' : L.State → Run L β}
    (h : ∀ {later later'} s t, ledger <+: later → ledger' <+: later' → pact.hosts later s t →
      pact.Abreast possible values later later' (next s) (next' t)) :
    pact.Abreast possible values ledger ledger' (Run.host >>= next) (Run.host >>= next') :=
  ⟨fun first second agrees agrees' together =>
    (h _ _ first second together).results (List.prefix_refl _) (List.prefix_refl _) agrees agrees'
      together⟩

theorem tell (event : Event) {next : Unit → Run K α} {next' : Unit → Run L β}
    (h : pact.Abreast possible values ledger ledger' (next ()) (next' ())) :
    pact.Abreast possible values ledger ledger' (Run.tell event >>= next)
      (Run.tell event >>= next') := by
  refine ⟨?_⟩
  intro later later' s t first second agrees agrees' together
  exact @results _ _ _ _ _ _ _ _ _ _ _ _ h later later' (s.told event) (t.told event) first second
    agrees agrees' together

/-- Both hosts note what is about to be applied. -/
theorem observe (callback : Callback S) {next : Unit → Run K α} {next' : Unit → Run L β}
    (h : pact.Abreast possible values ledger ledger' (next ()) (next' ())) :
    pact.Abreast possible values ledger ledger' (Run.observe callback >>= next)
      (Run.observe callback >>= next') := by
  refine ⟨?_⟩
  intro later later' s t first second agrees agrees' together
  exact @results _ _ _ _ _ _ _ _ _ _ _ _ h later later' (s.observed callback)
    (t.observed callback) first second agrees agrees' (pact.hosts_observe callback together)

end Abreast

namespace Steady

variable {work : Run K α} {work' : Run L β}

theorem mono (first : ledger <+: later) (second : ledger' <+: later')
    (h : pact.Steady values ledger ledger' work work') :
    pact.Steady values later later' work work' :=
  ⟨h.abreast.mono first second, h.grows⟩

theorem bind {next : α → Run K γ} {next' : β → Run L δ}
    (h : pact.Steady values ledger ledger' work work')
    (grows : ∀ a, values.first a → pact.Grows values'.first (next a))
    (hnext : ∀ {later later'} a b, ledger <+: later → ledger' <+: later' →
      values.both later later' a b →
        pact.Abreast pact.Possible values' later later' (next a) (next' b)) :
    pact.Steady values' ledger ledger' (work >>= next) (work' >>= next') :=
  ⟨h.abreast.bind grows hnext, h.grows.bind grows⟩

theorem inside (span : Span) (h : pact.Steady values ledger ledger' work work') :
    pact.Steady values ledger ledger' (Run.inside span work) (Run.inside span work') :=
  ⟨h.abreast.inside span, h.grows.inside span⟩

end Steady

/-! ## 4. Steps that take names -/

/-- Each side takes names of its own. -/
theorem Abreast.naming {steps : Naming α} {steps' : Naming β} {post : Ledger (Frame S) → α → Prop}
    {post' : Ledger (Frame S) → β → Prop}
    (h : ∀ later, ledger <+: later → Naming.Ensures later steps post)
    (h' : ∀ later', ledger' <+: later' → Naming.Ensures later' steps' post')
    (hvalues : ∀ later later' a b, ledger <+: later → ledger' <+: later' → post later a →
      post' later' b → values.both later later' a b) :
    pact.Abreast possible values ledger ledger' (Run.naming steps) (Run.naming steps') := by
  refine ⟨?_⟩
  intro later later' s t first second agrees agrees' together
  obtain ⟨last, hlast, hagrees, hpost⟩ :=
    Splitting.Ensures.naming (h later first) s.memo agrees
  obtain ⟨last', hlast', hagrees', hpost'⟩ :=
    Splitting.Ensures.naming (h' later' second) t.memo agrees'
  obtain ⟨memo, schedule, pops, events, host⟩ := s
  obtain ⟨memo', schedule', pops', events', host'⟩ := t
  exact .ok (s := ⟨_, schedule, pops, events, host⟩) (t := ⟨_, schedule', pops', events', host'⟩)
    hlast hlast' hagrees hagrees' (pact.hosts_mono hlast together)
    (hvalues _ _ _ _ (first.trans hlast) (second.trans hlast') hpost hpost')

end Pact

/-! ## 5. A host with itself -/

/-- The host goes together with itself only, and functions of programs come to the same halts. -/
def Host.equal (K : Host S) (allowed : Halt S → Prop) : Pact K K where
  hosts _ s t := s = t
  allowed := allowed
  spoilt _ _ := False
  breaks _ _ := False
  since _ _ := True
  hosts_mono _ h := h
  hosts_observe _ h := by rw [h]
  breaks_observe h := h.elim
  since_hosts _ := trivial
  since_observe _ _ := trivial

/-- A computation of the host does the same on sessions that have the host in common. -/
theorem Pact.Steady.hosted {allowed : Halt S → Prop} {work : Hosted K α}
    (h : ∀ host halt last, work host = .error halt last → allowed halt)
    (ledger ledger' : Ledger (Frame S)) :
    (K.equal allowed).Steady .equal ledger ledger' (Run.hosted work) (Run.hosted work) := by
  refine ⟨⟨?_⟩, ?_⟩
  · rintro later later' s t _ _ agrees agrees' hhost
    unfold Run.hosted
    rw [show s.host = t.host from hhost]
    cases hwork : work t.host with
    | ok value host =>
      exact .ok (List.prefix_refl _) (List.prefix_refl _) agrees agrees' rfl rfl
    | error halt host =>
      exact .error (List.prefix_refl _) (List.prefix_refl _) agrees agrees' rfl
        (Or.inl (Or.inl (h t.host halt host hwork)))
  · intro t session _
    unfold Run.hosted
    cases work session.host with
    | ok value host => exact ⟨trivial, trivial⟩
    | error halt host => exact trivial

end FreePrograms
