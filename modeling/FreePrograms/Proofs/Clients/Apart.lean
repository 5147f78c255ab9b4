/-
# Runs do not see each other

Clients that work together share one session: each run finds the tails that earlier runs made known,
pops nodes that other programs and other steps hold, and names go on from where the last run came.
Clients that work apart share nothing of the kind.  It makes no difference
(`Client.together_eq_apart`).

At each moment what is on the shelves goes together (`World.Beside`).  A program as it was made is
one of the tree that is there apart.  A step waits with frames that are abreast with those of the
step apart, in the ledger of the session and in the ledger of the run that the step apart is from.
Each thing that a client can do keeps it so, and runs are abreast (`Terms.Codes.tryRunIn` and the
theorems like it) whatever the functions of the client do, since these are clients again.
-/
import FreePrograms.Proofs.Clients.Client
import FreePrograms.Proofs.Tree.Beside

namespace FreePrograms

variable {S : Signature} {K L : Host S} {σ α β γ R N M : Type} {a b type : S.Ty}

/-! ## 1. Recipes -/

theorem Returns.earlier {ledger later : Ledger (Frame S)} (h : ledger <+: later)
    {made : Except (Halt S) (Code S × Cell)} {branch : Branch S a}
    (hr : Returns later made branch) : Returns ledger made branch := by
  cases hr with
  | tree hlater sound spine => exact .tree (h.trans hlater) sound spine
  | refuse halt => exact .refuse halt

/-- Steps that follow a branch make a program of its tree, or come to its halt. -/
theorem Building.Follows.inv {ledger : Ledger (Frame S)} {steps : Building S (Program S a)}
    {branch : Branch S a} (h : Building.Follows ledger steps branch) :
    (∃ later program tree, ledger <+: later ∧ program.Follows later tree ∧
        steps ledger.length = .ok (program, later.length) ∧ branch = .tree tree) ∨
      ∃ halt, steps ledger.length = .error halt ∧ branch = .refuse halt := by
  unfold Building.Follows at h
  cases hmade : steps ledger.length with
  | error halt =>
    rw [hmade] at h
    cases h
    exact .inr ⟨halt, rfl, rfl⟩
  | ok made =>
    obtain ⟨program, cell⟩ := made
    rw [hmade] at h
    generalize hcode : (Except.ok (program, cell) : Except (Halt S) (Program S a × Cell)).map
      (fun made => (made.1.code, made.2)) = returned at h
    cases h with
    | tree hlater sound spine =>
      cases hcode
      exact .inl ⟨_, program, _, hlater, ⟨sound, spine⟩, rfl, rfl⟩
    | refuse halt => cases hcode

/-- Steps that put something more behind a program follow the tree with more behind it. -/
theorem Building.Follows.grow {ledger : Ledger (Frame S)} {steps : Building S (Program S a)}
    {branch : Branch S a} (h : Building.Follows ledger steps branch)
    {next : Program S a → Naming (Program S b)} {more : Tree S a → Tree S b}
    (hnext : ∀ later program tree, ledger <+: later → program.Follows later tree →
      Naming.Ensures later (next program) fun last made => made.Follows last (more tree)) :
    Building.Follows ledger (do liftM (next (← steps))) (branch.grow more) := by
  have hbind : (do liftM (next (← steps)) : Building S (Program S b)) ledger.length
      = (steps ledger.length).bind fun made =>
          (liftM (next made.1) : Building S (Program S b)) made.2 := rfl
  unfold Building.Follows
  rw [hbind]
  obtain ⟨later, program, tree, hlater, hprogram, hsteps, rfl⟩ | ⟨halt, hsteps, rfl⟩ := h.inv
  · rw [hsteps]
    have hfollows := Building.Follows.tree (hnext later program tree hlater hprogram)
    exact Returns.earlier hlater hfollows
  · rw [hsteps]
    exact .refuse halt

/-- **A recipe makes a program of its tree**, of programs of trees. -/
theorem Recipe.build_follows {programs : Nat → Option ((type : S.Ty) × Program S type)}
    {trees : Trees S} {ledger : Ledger (Frame S)}
    (h : ∀ place, KeptFollows ledger (programs place) (trees place)) :
    {a : S.Ty} → (recipe : Recipe S a) → ∀ later, ledger <+: later →
      Building.Follows later (recipe.build programs) (recipe.branch trees)
  | _, .pure value, _, _ => .ready (Program.pure_follows value)
  | _, .lift effect, _, _ => .ready (Program.lift_follows effect)
  | _, .liftWith effect decode, _, _ => .ready (Program.liftWith_follows effect decode)
  | _, .bindAs provenance recipe function, later, hlater =>
    (Recipe.build_follows h recipe later hlater).grow fun last _ _ hlast hprogram =>
      Program.bindAs_follows provenance hprogram fun value final hfinal =>
        Recipe.build_follows h (function value) final ((hlater.trans hlast).trans hfinal)
  | _, .followedByKept recipe place, later, hlater =>
    (Recipe.build_follows h recipe later hlater).grow fun _ _ _ _ hprogram =>
      Program.followedByKept_follows hprogram place
  | a, .clone place, later, hlater => by
    have hplace := h place
    rw [Recipe.build, Recipe.branch]
    generalize programs place = program at hplace
    generalize trees place = tree at hplace
    cases hplace with
    | none => exact .refuse (.absent place)
    | @some found program tree follows =>
      by_cases htype : found = a
      · subst htype
        simp only [dite_true]
        exact .ready (follows.mono hlater)
      · simp only [dif_neg htype]
        exact .refuse (.absent place)
  | _, .refuse halt, _, _ => .refuse halt

/-! ## 2. The shelves, together and apart -/

/-- Of codes that came to the same the same is seen. -/
theorem Terms.Reaches.sight_eq {terms : Terms S} {ledger ledger' : Ledger (Frame S)}
    {reached reached' : Reached S type} (h : terms.Reaches ledger ledger' reached reached') :
    reached.sight = reached'.sight := by
  cases h with
  | result value => rfl
  | asking waits => exact congrArg Sight.asking waits.effect_eq

/-- A step goes together with the step apart and its table. -/
inductive StepBeside (base ledger : Ledger (Frame S)) :
    Option ((type : S.Ty) × Reached S type) →
      Option ((type : S.Ty) × Reached S type × Memo (Frame S)) → Prop
  | none : StepBeside base ledger none none
  | some {type : S.Ty} {reached reached' : Reached S type} {memo : Memo (Frame S)}
    {own : Ledger (Frame S)} (given : base <+: own) (agrees : memo.Agrees own)
    (reaches : Terms.free.Reaches ledger own reached reached') :
    StepBeside base ledger (some ⟨type, reached⟩) (some ⟨type, reached', memo⟩)

theorem StepBeside.mono {base ledger later : Ledger (Frame S)} (h : ledger <+: later)
    {step : Option ((type : S.Ty) × Reached S type)}
    {step' : Option ((type : S.Ty) × Reached S type × Memo (Frame S))}
    (hs : StepBeside base ledger step step') : StepBeside base later step step' := by
  cases hs with
  | none => exact .none
  | some given agrees reaches => exact .some given agrees (reaches.mono h (List.prefix_refl _))

/-- The shelves have the same places, and what is there goes together. -/
structure Shelf.Beside (items : Option α → Option β → Prop) (shelf : Shelf α) (shelf' : Shelf β) :
    Prop where
  size : shelf.size = shelf'.size
  item (place : Nat) : items (shelf.item place) (shelf'.item place)

namespace Shelf.Beside

variable {items : Option α → Option β → Prop} {shelf : Shelf α} {shelf' : Shelf β}

theorem put (h : shelf.Beside items shelf') (place : Nat) {item : Option α} {item' : Option β}
    (hitem : items item item') : (shelf.put place item).Beside items (shelf'.put place item') := by
  refine ⟨h.size, fun other => ?_⟩
  simp only [Shelf.put]
  split
  · exact hitem
  · exact h.item other

theorem push (h : shelf.Beside items shelf') {item : α} {item' : β}
    (hitem : items (some item) (some item')) :
    (shelf.push item).Beside items (shelf'.push item') := by
  refine ⟨congrArg (· + 1) h.size, fun other => ?_⟩
  have hput := (h.put shelf.size hitem).item other
  rw [Shelf.push, Shelf.push, ← h.size]
  exact hput

theorem mono {items' : Option α → Option β → Prop} (h : shelf.Beside items shelf')
    (himp : ∀ item item', items item item' → items' item item') : shelf.Beside items' shelf' :=
  ⟨h.size, fun place => himp _ _ (h.item place)⟩

end Shelf.Beside

/-- The worlds of clients that work together and of clients that work apart go together. -/
structure World.Beside (base ledger : Ledger (Frame S))
    (world : World S σ ((type : S.Ty) × Program S type) ((type : S.Ty) × Reached S type))
    (world' : World S σ ((type : S.Ty) × Tree S type)
      ((type : S.Ty) × Reached S type × Memo (Frame S))) : Prop where
  state : world.state = world'.state
  journal : world.journal = world'.journal
  programs : world.programs.Beside (KeptFollows ledger) world'.programs
  steps : world.steps.Beside (StepBeside base ledger) world'.steps

theorem World.start_beside (base ledger : Ledger (Frame S)) (state : σ) :
    World.Beside base ledger (.start state) (.start state) :=
  ⟨rfl, rfl, ⟨rfl, fun _ => .none⟩, ⟨rfl, fun _ => .none⟩⟩

/-- What the two settings have in common.  Neither side breaks alone. -/
def Setting.pact (σ : Type) (kept : List ((type : S.Ty) × Program S type))
    (base : Ledger (Frame S)) : Pact (Host.together σ kept) (Host.apart σ kept) where
  toTerms := .free
  hosts ledger world world' := World.Beside base ledger world world'
  breaks _ _ := False
  since _ _ := True
  hosts_mono first h := ⟨h.state, h.journal, h.programs.mono fun _ _ hp => hp.mono first,
    h.steps.mono fun _ _ hs => hs.mono first⟩
  hosts_observe callback h :=
    ⟨h.state, congrArg (fun journal => journal ++ [Happening.applied callback]) h.journal,
      h.programs, h.steps⟩
  breaks_observe h := h.elim
  since_hosts _ := trivial
  since_observe _ _ := trivial

/-! ## 3. Going on from steps -/

section Reached

open Pact

variable {pact : Pact K L} {ledger ledger' : Ledger (Frame S)} {reached reached' : Reached S type}

/-- Steps go on with the same answer. -/
theorem Terms.Reaches.resume (keeps : pact.Keeps ledger ledger') (turns place : Nat)
    (answer : Packed S) (h : pact.Reaches ledger ledger' reached reached') :
    pact.Abreast pact.Possible (pact.reached type) ledger ledger'
      (reached.resume turns place answer) (reached'.resume turns place answer) := by
  cases h with
  | result value => exact .throw (Or.inl (Or.inr (Or.inr ⟨place, rfl⟩)))
  | asking waits =>
    refine (waits.answer answer).bind (fun code _ => .reach turns code) ?_
    exact fun code code' first second hcodes => hcodes.reach (keeps.mono first second) turns

/-- Steps are driven to their end. -/
theorem Terms.Reaches.drive (keeps : pact.Keeps ledger ledger') (turns : Nat)
    {force : S.Effect → Run K (Packed S)} {force' : S.Effect → Run L (Packed S)}
    (hforce : ∀ effect, pact.Steady .equal ledger ledger' (force effect) (force' effect))
    (h : pact.Reaches ledger ledger' reached reached') :
    pact.Abreast pact.Possible .equal ledger ledger' (reached.drive turns force)
      (reached'.drive turns force') := by
  have hrenders : pact.Renders .equal .equal ledger ledger'
      (⟨fun effect => return effect, fun value => return value⟩ : Rendering K type _ _)
      ⟨fun effect => return effect, fun value => return value⟩ :=
    ⟨fun _ => ⟨.pure rfl, .pure trivial⟩, fun _ => ⟨.pure rfl, .pure trivial⟩⟩
  have hdrives : pact.Drives .equal .equal .equal (turns + 1) ledger ledger'
      (fun step : Step K S.Effect (S.El type) => step.runIn turns force)
      (fun step => step.runIn turns force') := (Forces.of_equal hforce).drives turns (turns + 1)
  refine (h.steps keeps hrenders turns).bind ?_ ?_
  · intro step hstep
    rw [Steps.first_eq] at hstep
    exact (hdrives.grows hstep).bind fun _ _ => .pure trivial
  · intro later later' step step' first second hsteps
    refine (hdrives.abreast first second hsteps).bind (fun _ _ => .pure trivial) ?_
    rintro last last' value _ _ _ rfl
    exact .pure rfl

end Reached

/-! ## 4. Computations in the two settings -/

section Computations

variable {kept : List ((type : S.Ty) × Program S type)} {base own ledger ledger' : Ledger (Frame S)}
  {values : Agreement S α β} {values' : Agreement S γ R}

namespace Setting

/-- Every halt is possible. -/
theorem possible (halt : Halt S) : (pact σ kept base).Possible halt := Or.inl (Or.inl trivial)

/-- Neither side goes on alone. -/
theorem grows {first : α → Prop} (hfirst : ∀ a, first a) (work : Run (Host.together σ kept) α) :
    (pact σ kept base).Grows first work := by
  intro t session _
  cases work session with
  | ok a last => exact ⟨trivial, hfirst a⟩
  | error halt last => exact trivial

/-- The computations, together and apart, do the same. -/
abbrev Abreast (base : Ledger (Frame S)) (values : Agreement S α β)
    (ledger ledger' : Ledger (Frame S)) (work : Run (Host.together σ kept) α)
    (work' : Run (Host.apart σ kept) β) : Prop :=
  (pact σ kept base).Abreast (pact σ kept base).Possible values ledger ledger' work work'

theorem Abreast.steady {work : Run (Host.together σ kept) α} {work' : Run (Host.apart σ kept) α}
    (h : Abreast base .equal ledger ledger' work work') :
    (pact σ kept base).Steady .equal ledger ledger' work work' :=
  ⟨h, grows (fun _ => trivial) work⟩

/-- One step after the other. -/
theorem Abreast.andThen {work : Run (Host.together σ kept) α}
    {work' : Run (Host.apart σ kept) β} {next : α → Run (Host.together σ kept) γ}
    {next' : β → Run (Host.apart σ kept) γ} (h : Abreast base values ledger ledger' work work')
    (hnext : ∀ {later later'} a b, ledger <+: later → ledger' <+: later' →
      values.both later later' a b → Abreast base .equal later later' (next a) (next' b)) :
    Abreast base .equal ledger ledger' (work >>= next) (work' >>= next') :=
  h.bind (fun a _ => grows (fun _ => trivial) (next a)) hnext

/-- The outcome may be looked at, also if it is a halt. -/
theorem Abreast.attempt {work : Run (Host.together σ kept) α} {work' : Run (Host.apart σ kept) α}
    (h : Abreast base .equal ledger ledger' work work') :
    Abreast base .equal ledger ledger' (Run.attempt work) (Run.attempt work') := by
  refine ⟨?_⟩
  intro later later' s t first second agrees agrees' together
  have hresults := h.results first second agrees agrees' together
  unfold Run.attempt
  generalize work s = result at hresults
  generalize work' t = result' at hresults
  cases hresults with
  | ok hlast hlast' hagrees hagrees' htogether hvalue =>
    exact .ok hlast hlast' hagrees hagrees' htogether (congrArg Except.ok hvalue)
  | error hlast hlast' hagrees hagrees' htogether _ =>
    exact .ok hlast hlast' hagrees hagrees' htogether rfl
  | broken _ _ breaks _ => exact breaks.elim

/-- The values go together in the ledger of a session of its own, which the table fits. -/
def apartFrom (base : Ledger (Frame S)) (values : Agreement S α β) :
    Agreement S α (β × Memo (Frame S)) where
  both ledger _ a b := ∃ own, base <+: own ∧ b.2.Agrees own ∧ values.both ledger own a b.1
  first := values.first
  mono := by
    rintro ledger later _ _ a b first _ ⟨own, given, agrees, h⟩
    exact ⟨own, given, agrees, values.mono first (List.prefix_refl own) h⟩
  first_of_both := by
    rintro _ _ _ _ ⟨_, -, -, h⟩
    exact values.first_of_both h

/-- **Work on a session of its own does the same**, whatever happened on the other session. -/
theorem Abreast.privately {memo : Memo (Frame S)} (given : base <+: own) (agrees : memo.Agrees own)
    {work : Run (Host.together σ kept) α} {work' : Run (Host.apart σ kept) β}
    (h : Abreast base values ledger own work work') :
    Abreast base (apartFrom base values) ledger ledger' work (Run.privately memo work') := by
  refine ⟨?_⟩
  intro later later' s t first second hagrees hagrees' together
  have hresults := @Pact.Abreast.results _ _ _ _ _ _ _ _ _ _ _ _ h later own s
    { Session.startAt 0 t.host with memo := memo } first (List.prefix_refl own) hagrees agrees
    together
  unfold Run.privately
  generalize work s = result at hresults
  generalize work' { Session.startAt 0 t.host with memo := memo } = result' at hresults
  cases hresults with
  | ok hlast hown hagrees hfits htogether hvalue =>
    exact .ok hlast (List.prefix_refl _) hagrees hagrees' htogether
      ⟨_, given.trans hown, hfits, hvalue⟩
  | error hlast hown hagrees hfits htogether halts =>
    exact .error hlast (List.prefix_refl _) hagrees hagrees' htogether halts
  | broken _ _ breaks _ => exact breaks.elim

/-- Where the values are equal, the table may be given up. -/
theorem Abreast.result {work : Run (Host.together σ kept) α}
    {work' : Run (Host.apart σ kept) (α × Memo (Frame S))}
    (h : Abreast base (apartFrom base .equal) ledger ledger' work work') :
    Abreast base .equal ledger ledger' work (do return (← work').1) := by
  have hmap : Abreast base .equal ledger ledger' (do return id (← work))
      (do return (← work').1) := by
    refine h.map (fun _ _ => trivial) ?_
    rintro later later' a ⟨b, memo⟩ _ _ ⟨own, -, -, rfl⟩
    rfl
  have hwork : (do return id (← work)) = work := bind_pure work
  rwa [hwork] at hmap

/-- **Work with a program made afresh.** -/
theorem Abreast.afresh {tree : Tree S type} {work : Run (Host.together σ kept) α}
    {work' : Program S type → Run (Host.apart σ kept) β}
    (h : ∀ own program, base <+: own → program.Follows own tree →
      Abreast base values ledger own work (work' program)) :
    Abreast base (apartFrom base values) ledger ledger' work
      (Run.afresh base.length tree work') := by
  obtain ⟨own, given, hlength, hfollows⟩ := tree.build_follows base
  have hagrees : (⟨own.length, {}, 0⟩ : Memo (Frame S)).Agrees own :=
    Memo.agrees_empty.mono List.nil_prefix
  rw [← hlength] at hagrees
  exact (h own _ given hfollows).privately given hagrees

end Setting

/-- A program goes together with the tree that is there apart. -/
def Setting.programs :
    Agreement S ((type : S.Ty) × Program S type) ((type : S.Ty) × Tree S type) where
  both ledger _ program tree := KeptFollows ledger (some program) (some tree)
  first := Any
  mono first _ h := h.mono first
  first_of_both _ := trivial

/-- A program that was just made goes together with its tree. -/
def Setting.made : Agreement S (Program S a) (Tree S a) where
  both ledger _ program tree := program.Follows ledger tree
  first := Any
  mono first _ h := h.mono first
  first_of_both _ := trivial

/-- A step goes together with the step that is there apart. -/
def Setting.steps (base : Ledger (Frame S)) : Agreement S ((type : S.Ty) × Reached S type)
    ((type : S.Ty) × Reached S type × Memo (Frame S)) where
  both ledger _ step step' := StepBeside base ledger (some step) (some step')
  first := Any
  mono first _ h := h.mono first
  first_of_both _ := trivial

namespace Setting

theorem accessState_abreast (change : σ → σ) : Abreast base .equal ledger ledger'
    (accessState change : Run (Host.together σ kept) σ) (accessState change) := by
  refine .host_bind fun {later later'} world world' _ _ hworld => ?_
  have hchange : Abreast base .equal later later'
      (Run.onHost fun world => { world with state := change world.state } :
        Run (Host.together σ kept) Unit)
      (Run.onHost fun world => { world with state := change world.state }) :=
    .onHost fun _ h => ⟨congrArg change h.state, h.journal, h.programs, h.steps⟩
  exact hchange.andThen fun _ _ _ _ _ => .pure hworld.state

theorem noteEffect_abreast (effect : S.Effect) : Abreast base .equal ledger ledger'
    (noteEffect effect : Run (Host.together σ kept) Unit) (noteEffect effect) :=
  .onHost fun _ h =>
    ⟨h.state, congrArg (fun journal => journal ++ [Happening.handled effect]) h.journal,
      h.programs, h.steps⟩

theorem putProgram_abreast (place : Nat) : Abreast base .equal ledger ledger'
    (putProgram place none : Run (Host.together σ kept) Unit) (putProgram place none) :=
  .onHost fun _ h => ⟨h.state, h.journal, h.programs.put place .none, h.steps⟩

theorem pushProgram_abreast {program : (type : S.Ty) × Program S type}
    {tree : (type : S.Ty) × Tree S type}
    (hprogram : KeptFollows ledger (some program) (some tree)) :
    Abreast base .equal ledger ledger' (pushProgram program : Run (Host.together σ kept) Nat)
      (pushProgram tree) := by
  refine .host_bind fun {later later'} world world' hlater _ hworld => ?_
  have hpush : Abreast base .equal later later'
      (Run.onHost fun world => { world with programs := world.programs.push program } :
        Run (Host.together σ kept) Unit)
      (Run.onHost fun world => { world with programs := world.programs.push tree }) :=
    .onHost fun hlast h =>
      ⟨h.state, h.journal, h.programs.push (hprogram.mono (hlater.trans hlast)), h.steps⟩
  exact hpush.andThen fun _ _ _ _ _ => .pure hworld.programs.size

theorem putStep_abreast (place : Nat) {step : Option ((type : S.Ty) × Reached S type)}
    {step' : Option ((type : S.Ty) × Reached S type × Memo (Frame S))}
    (hstep : StepBeside base ledger step step') :
    Abreast base .equal ledger ledger' (putStep place step : Run (Host.together σ kept) Unit)
      (putStep place step') :=
  .onHost fun hlater h =>
    ⟨h.state, h.journal, h.programs, h.steps.put place (hstep.mono hlater)⟩

theorem pushStep_abreast {step : (type : S.Ty) × Reached S type}
    {step' : (type : S.Ty) × Reached S type × Memo (Frame S)}
    (hstep : StepBeside base ledger (some step) (some step')) :
    Abreast base .equal ledger ledger' (pushStep step : Run (Host.together σ kept) Nat)
      (pushStep step') := by
  refine .host_bind fun {later later'} world world' hlater _ hworld => ?_
  have hpush : Abreast base .equal later later'
      (Run.onHost fun world => { world with steps := world.steps.push step } :
        Run (Host.together σ kept) Unit)
      (Run.onHost fun world => { world with steps := world.steps.push step' }) :=
    .onHost fun hlast h =>
      ⟨h.state, h.journal, h.programs, h.steps.push (hstep.mono (hlater.trans hlast))⟩
  exact hpush.andThen fun _ _ _ _ _ => .pure hworld.steps.size

theorem program_abreast (place : Nat) : Abreast base programs ledger ledger'
    (program place : Run (Host.together σ kept) _) (program place) := by
  refine .host_bind fun world world' _ _ hworld => ?_
  have hitem := hworld.programs.item place
  generalize world.programs.item place = item at hitem
  generalize world'.programs.item place = item' at hitem
  cases hitem with
  | none => exact .throw (possible _)
  | some follows => exact .pure (.some follows)

theorem takeStep_abreast (place : Nat) : Abreast base (steps base) ledger ledger'
    (takeStep place : Run (Host.together σ kept) _) (takeStep place) := by
  refine .host_bind fun world world' _ _ hworld => ?_
  have hitem := hworld.steps.item place
  generalize world.steps.item place = item at hitem
  generalize world'.steps.item place = item' at hitem
  cases hitem with
  | none => exact .throw (possible _)
  | some given agrees reaches =>
    refine (putStep_abreast place .none).bind (fun _ _ => grows (fun _ => trivial) _) ?_
    exact fun _ _ hlast _ _ => .pure ((StepBeside.some given agrees reaches).mono hlast)

/-- Steps that make a program go together with the branch that they follow. -/
theorem building_abreast {steps : Building S (Program S a)} {branch : Branch S a}
    (h : ∀ later, ledger <+: later → Building.Follows later steps branch) :
    Abreast base made ledger ledger' (Run.building steps : Run (Host.together σ kept) (Program S a))
      branch.orHalt := by
  refine ⟨?_⟩
  intro later later' s t first second agrees agrees' together
  have hmade := (h later first).inv
  rw [← agrees.next_eq] at hmade
  obtain ⟨⟨next, tails, collapses⟩, schedule, pops, events, host⟩ := s
  obtain ⟨last, program, tree, hlast, hprogram, hsteps, rfl⟩ | ⟨halt, hsteps, rfl⟩ := hmade
  · rw [Run.building_of_ok hsteps]
    exact .ok hlast (List.prefix_refl _) (agrees.mono hlast) agrees'
      ((pact σ kept base).hosts_mono hlast together) hprogram
  · rw [Run.building_of_error hsteps]
    exact .error (List.prefix_refl _) (List.prefix_refl _) agrees agrees' together (possible halt)

/-- **Programs are made together and apart.** -/
theorem make_abreast (turns : Nat) (recipe : Recipe S a) : Abreast base .equal ledger ledger'
    ((together σ kept turns).make recipe) ((apart σ kept base.length turns).make recipe) := by
  refine .host_bind fun world world' _ _ hworld => ?_
  refine (building_abreast (recipe.build_follows hworld.programs.item)).andThen ?_
  exact fun program tree _ _ hprogram => pushProgram_abreast (.some hprogram)

/-- **A program is carried out together and apart.** -/
theorem carryOut_abreast (turns : Nat) (place : Nat)
    {work : (type : S.Ty) → Program S type → Run (Host.together σ kept) R}
    {work' : (type : S.Ty) → Program S type → Run (Host.apart σ kept) R}
    (h : ∀ {later own type} {program program' : Program S type}, ledger <+: later → base <+: own →
      Terms.free.Codes later own program.code program'.code type →
        Abreast base .equal later own (work type program) (work' type program')) :
    Abreast base .equal ledger ledger' ((together σ kept turns).carryOut place work)
      ((apart σ kept base.length turns).carryOut place work') := by
  refine (program_abreast place).andThen ?_
  rintro later later' _ _ hlater _ (_ | follows)
  refine (Abreast.afresh fun own program given follows' => ?_).result
  exact h hlater given (follows.codes_same follows')

/-- **A program is folded into steps together and apart.** -/
theorem start_abreast (keeps : (pact σ kept base).Keeps base base) (turns : Nat)
    (first : base <+: ledger) (place : Nat) :
    Abreast base .equal ledger ledger' ((together σ kept turns).start place)
      ((apart σ kept base.length turns).start place) := by
  refine (program_abreast place).andThen ?_
  rintro later later' _ _ hlater _ (_ | follows)
  have hreach : Abreast base _ later later' _ _ := Abreast.afresh fun own program given follows' =>
    (follows.codes_same follows').reach (keeps.mono (first.trans hlater) given) turns
  refine hreach.andThen ?_
  rintro last last' reached ⟨reached', memo⟩ _ _ ⟨own, given, agrees, hreaches⟩
  refine (pushStep_abreast (.some given agrees hreaches)).andThen ?_
  rintro final final' step _ _ _ rfl
  exact .pure (congrArg (step, ·) hreaches.sight_eq)

/-- **A step goes on with an answer together and apart.** -/
theorem resume_abreast (keeps : (pact σ kept base).Keeps base base) (turns : Nat)
    (first : base <+: ledger) (place : Nat) (answer : Packed S) :
    Abreast base .equal ledger ledger' ((together σ kept turns).resume place answer)
      ((apart σ kept base.length turns).resume place answer) := by
  refine (takeStep_abreast place).andThen ?_
  rintro later later' _ _ hlater _ (_ | ⟨given, agrees, hreaches⟩)
  have hresume := hreaches.resume (keeps.mono (first.trans hlater) given) turns place answer
  refine (Abreast.privately given agrees hresume).andThen ?_
  rintro last last' reached ⟨reached', memo⟩ _ _ ⟨own, given, agrees, hreaches⟩
  refine (putStep_abreast place (.some given agrees hreaches)).andThen ?_
  exact fun _ _ _ _ _ => .pure hreaches.sight_eq

/-- **Steps are driven to their end together and apart.** -/
theorem drive_abreast (keeps : (pact σ kept base).Keeps base base) (turns : Nat)
    (first : base <+: ledger) (place : Nat)
    {force : S.Effect → Run (Host.together σ kept) (Packed S)}
    {force' : S.Effect → Run (Host.apart σ kept) (Packed S)}
    (hforce : ∀ {later later'}, ledger <+: later → ∀ effect,
      Abreast base .equal later later' (force effect) (force' effect)) :
    Abreast base .equal ledger ledger' ((together σ kept turns).drive place force)
      ((apart σ kept base.length turns).drive place force') := by
  refine (takeStep_abreast place).andThen ?_
  rintro later later' _ _ hlater _ (_ | ⟨given, agrees, hreaches⟩)
  have hdriven := hreaches.drive (keeps.mono (first.trans hlater) given) turns fun effect =>
    (hforce hlater effect).steady
  exact (Abreast.privately given agrees hdriven).result

/-- An effect is noted before it is handled. -/
theorem noted_steady (effect : S.Effect) {work : Run (Host.together σ kept) α}
    {work' : Run (Host.apart σ kept) α}
    (h : ∀ {later later'}, ledger <+: later → Abreast base .equal later later' work work') :
    (pact σ kept base).Steady .equal ledger ledger' (do noteEffect effect; work)
      (do noteEffect effect; work') :=
  ((noteEffect_abreast effect).andThen fun _ _ hlater _ _ => h hlater).steady

/-- Renderings that note the effect first. -/
theorem noted_renders {render : S.Effect → Run (Host.together σ kept) N}
    {render' : S.Effect → Run (Host.apart σ kept) N}
    {finish : S.El type → Run (Host.together σ kept) M}
    {finish' : S.El type → Run (Host.apart σ kept) M}
    (hrender : ∀ effect {later later'}, ledger <+: later →
      Abreast base .equal later later' (render effect) (render' effect))
    (hfinish : ∀ value, Abreast base .equal ledger ledger' (finish value) (finish' value)) :
    (pact σ kept base).Renders .equal .equal ledger ledger'
      ⟨fun effect => do noteEffect effect; render effect, finish⟩
      ⟨fun effect => do noteEffect effect; render' effect, finish'⟩ :=
  ⟨fun effect => noted_steady effect (hrender effect), fun value => (hfinish value).steady⟩

/-- Renderings into deferred computations that note the effect first. -/
theorem noted_defers (effect : S.Effect) {render : Run (Host.together σ kept) N}
    {render' : Run (Host.apart σ kept) N} {force : N → Run (Host.together σ kept) (Packed S)}
    {force' : N → Run (Host.apart σ kept) (Packed S)}
    (hrender : ∀ {later later'}, ledger <+: later → Abreast base .equal later later' render render')
    (hforce : ∀ rendered {later later'}, ledger <+: later →
      Abreast base .equal later later' (force rendered) (force' rendered)) :
    (pact σ kept base).Steady ((pact σ kept base).deferred .equal) ledger ledger'
      (do
        noteEffect effect
        let rendered ← render
        return ⟨force rendered⟩)
      (do
        noteEffect effect
        let rendered ← render'
        return ⟨force' rendered⟩) := by
  have hfirst : ∀ deferred, ((pact σ kept base).deferred (.equal : Agreement S (Packed S) _)).first
      deferred := fun deferred => grows (fun _ => trivial) deferred.force
  refine ⟨?_, grows hfirst _⟩
  refine (noteEffect_abreast effect).bind (fun _ _ => grows hfirst _) fun _ _ hlater _ _ => ?_
  refine (hrender hlater).bind (fun _ _ => grows hfirst _) ?_
  rintro last last' rendered _ hlast _ rfl
  exact .pure (hforce rendered (hlater.trans hlast)).steady

end Setting

end Computations

/-! ## 6. Clients -/

section Clients

variable {kept : List ((type : S.Ty) × Program S type)} {base : Ledger (Frame S)}

open Setting Pact

mutual

/-- **What a client does, together and apart.** -/
theorem Client.perform_abreast (keeps : (pact σ kept base).Keeps base base) (turns : Nat) :
    {α : Type} → (client : Client S σ α) → ∀ {ledger ledger' : Ledger (Frame S)}, base <+: ledger →
      Setting.Abreast base .equal ledger ledger' (client.perform (together σ kept turns) turns)
        (client.perform (apart σ kept base.length turns) turns)
  | _, .yield value, _, _, _ => .pure rfl
  | _, .halt halt, _, _, _ => .throw (possible halt)
  | _, .access change next, _, _, first => by
    refine (accessState_abreast change).andThen ?_
    rintro later later' state _ hlater _ rfl
    exact (next state).perform_abreast keeps turns (first.trans hlater)
  | _, .make recipe next, _, _, first => by
    refine (make_abreast turns recipe).attempt.andThen ?_
    rintro later later' place _ hlater _ rfl
    exact (next place).perform_abreast keeps turns (first.trans hlater)
  | _, .drop place next, _, _, first => by
    refine (putProgram_abreast place).andThen ?_
    exact fun _ _ hlater _ _ => next.perform_abreast keeps turns (first.trans hlater)
  | _, .carryOut place course next, _, _, first => by
    refine (carryOut_abreast turns place fun hlater given hcodes => ?_).attempt.andThen ?_
    · exact course.perform_abreast keeps turns (first.trans hlater) given hcodes
    · rintro later later' outcome _ hlater _ rfl
      exact (next outcome).perform_abreast keeps turns (first.trans hlater)
  | _, .start place next, _, _, first => by
    refine (start_abreast keeps turns first place).attempt.andThen ?_
    rintro later later' step _ hlater _ rfl
    exact (next step).perform_abreast keeps turns (first.trans hlater)
  | _, .resume place answer next, _, _, first => by
    refine (resume_abreast keeps turns first place answer).attempt.andThen ?_
    rintro later later' sight _ hlater _ rfl
    exact (next sight).perform_abreast keeps turns (first.trans hlater)
  | _, .drive place force next, _, _, first => by
    refine (drive_abreast keeps turns first place fun hlater effect => ?_).attempt.andThen ?_
    · refine (noted_steady effect fun hlast => ?_).abreast
      exact (force effect).perform_abreast keeps turns ((first.trans hlater).trans hlast)
    · rintro later later' outcome _ hlater _ rfl
      exact (next outcome).perform_abreast keeps turns (first.trans hlater)
  | _, .abandon place next, _, _, first => by
    refine (putStep_abreast place .none).andThen ?_
    exact fun _ _ hlater _ _ => next.perform_abreast keeps turns (first.trans hlater)

/-- **Programs whose codes are abreast are carried out by clients together and apart.** -/
theorem Course.perform_abreast (keeps : (pact σ kept base).Keeps base base) (turns : Nat)
    {type : S.Ty} : {R : Type} → (course : Course S σ R) →
      ∀ {ledger own : Ledger (Frame S)} {program program' : Program S type}, base <+: ledger →
        base <+: own → Terms.free.Codes ledger own program.code program'.code type →
          Setting.Abreast base .equal ledger own
            (course.perform (together σ kept turns) turns program)
            (course.perform (apart σ kept base.length turns) turns program')
  | _, .tryRun handler, _, _, _, _, first, given, hcodes => by
    refine (Interprets.carryOut (keeps.mono first given) (.tryRun fun effect => ?_)
      hcodes).map_equal.abreast
    exact noted_steady effect fun hlater =>
      (handler effect).perform_abreast keeps turns (first.trans hlater)
  | _, .run handler, _, _, _, _, first, given, hcodes => by
    refine (Interprets.carryOut (keeps.mono first given) (.run fun effect => ?_)
      hcodes).map_equal.abreast
    exact noted_steady effect fun hlater =>
      (handler effect).perform_abreast keeps turns (first.trans hlater)
  | _, .fold render finish choose combine, _, _, _, _, first, given, hcodes => by
    rw [Course.perform, Course.perform]
    refine (Interprets.carryOut (keeps.mono first given) (.fold (noted_renders ?_ ?_) ?_)
      hcodes).abreast
    · exact fun effect _ _ hlater =>
        (render effect).perform_abreast keeps turns (first.trans hlater)
    · exact fun value => (finish ⟨type, value⟩).perform_abreast keeps turns first
    · refine ⟨?_, ?_⟩
      · rintro later later' effect _ rest rest' hlater _ rfl hrest
        refine Abreast.andThen ((choose effect).perform_abreast keeps turns (first.trans hlater)) ?_
        rintro last last' choice _ hlast hlast' rfl
        cases choice with
        | error value => exact .pure rfl
        | ok answer =>
          refine Abreast.andThen ((hrest answer).abreast.mono hlast hlast') ?_
          rintro final final' value _ hfinal _ rfl
          exact (combine effect value).perform_abreast keeps turns
            (((first.trans hlater).trans hlast).trans hfinal)
      · exact fun _ _ => grows (fun _ => trivial) _
  | _, .steps render finish force, _, _, _, _, first, given, hcodes => by
    rw [Course.perform, Course.perform]
    refine (Interprets.carryOut (keeps.mono first given) (.steps (noted_renders ?_ ?_)
      (.of_equal fun effect => ?_)) hcodes).abreast
    · exact fun effect _ _ hlater =>
        (render effect).perform_abreast keeps turns (first.trans hlater)
    · exact fun value => (finish ⟨type, value⟩).perform_abreast keeps turns first
    · exact Abreast.steady ((force effect).perform_abreast keeps turns first)
  | _, .drive render finish force, _, _, _, _, first, given, hcodes => by
    rw [Course.perform, Course.perform]
    refine (Interprets.carryOut (keeps.mono first given) (.drive (noted_renders ?_ ?_)
      (Forces.drives (.of_equal fun effect => ?_) turns turns)) hcodes).abreast
    · exact fun effect _ _ hlater =>
        (render effect).perform_abreast keeps turns (first.trans hlater)
    · exact fun value => (finish ⟨type, value⟩).perform_abreast keeps turns first
    · exact Abreast.steady ((force effect).perform_abreast keeps turns first)
  | _, .chain render force, _, _, _, _, first, given, hcodes => by
    rw [Course.perform, Course.perform]
    refine (Interprets.carryOut (keeps.mono first given)
      (.fold ⟨fun effect => ?_, fun value => .now value⟩ (chained_combines .equal _ _))
      hcodes).abreast.bind ?_ ?_
    · refine noted_defers effect ?_ ?_
      · exact fun hlater => (render effect).perform_abreast keeps turns (first.trans hlater)
      · exact fun rendered _ _ hlater =>
          (force rendered).perform_abreast keeps turns (first.trans hlater)
    · exact fun _ _ => grows (fun _ => trivial) _
    · exact fun _ _ _ _ hdeferred => hdeferred.map_equal.abreast
  | _, .defer render force, _, _, _, _, first, given, hcodes => by
    rw [Course.perform, Course.perform]
    refine (Interprets.carryOut (keeps.mono first given) (.defer fun effect => ?_)
      hcodes).map_equal.abreast
    refine noted_defers effect ?_ ?_
    · exact fun hlater => (render effect).perform_abreast keeps turns (first.trans hlater)
    · exact fun rendered _ _ hlater =>
        (force rendered).perform_abreast keeps turns (first.trans hlater)

end

/-- Programs that are made one after the other are those of their trees, place by place. -/
theorem Tree.buildEach_ensures (trees : List ((type : S.Ty) × Tree S type)) :
    ∀ ledger : Ledger (Frame S), Naming.Ensures ledger (Tree.buildEach trees) fun later kept =>
      ∀ place : Nat, KeptFollows later kept[place]? trees[place]? := by
  induction trees with
  | nil => exact fun ledger => .pure fun _ => .none
  | cons head trees ih =>
    obtain ⟨type, tree⟩ := head
    intro ledger
    refine (tree.build_follows ledger).bind fun later program _ hprogram => ?_
    refine (ih later).bind fun last kept hlast hkept => .pure ?_
    intro place
    cases place with
    | zero => exact .some (hprogram.mono hlast)
    | succ place => exact hkept place

/-- Of computations in the two settings the same is seen. -/
theorem Setting.Abreast.seen_eq {work : Run (Host.together σ kept) α}
    {work' : Run (Host.apart σ kept) α} (h : Setting.Abreast base .equal base base work work')
    {s : Session (Host.together σ kept)} {t : Session (Host.apart σ kept)}
    (agrees : s.memo.Agrees base) (agrees' : t.memo.Agrees base)
    (hworlds : World.Beside base base s.host t.host) :
    World.seen (work s) = World.seen (work' t) := by
  have hresults := h.results (List.prefix_refl base) (List.prefix_refl base) agrees agrees' hworlds
  generalize work s = result at hresults
  generalize work' t = result' at hresults
  cases hresults with
  | ok _ _ _ _ hworld hvalue =>
    obtain rfl := hvalue
    simp only [World.seen, hworld.state, hworld.journal]
  | error _ _ _ _ hworld _ => simp only [World.seen, hworld.state, hworld.journal]
  | broken _ _ breaks _ => exact breaks.elim

/-- **Runs do not see each other.**  Programs are made of others and dropped, runs are made to the
end, halt, are refused, are left and gone on with, in any order and inside each other; what is seen
is what would be seen if each of them were made with a program of its own, where nothing else was
ever run.  The nodes that are popped may have other owners or not. -/
theorem Client.together_eq_apart (client : Client S σ α)
    (trees : List ((type : S.Ty) × Tree S type)) (turns : Nat) (schedule : Nat → Ownership)
    (state : σ) :
    client.together trees turns schedule state = client.apart trees turns state := by
  obtain ⟨base, -, hlength, hkept⟩ := Tree.buildEach_ensures trees []
  unfold Client.together Client.apart
  generalize (Tree.buildEach trees).run 0 = made at hlength hkept
  obtain ⟨kept, first⟩ := made
  obtain rfl : first = base.length := hlength
  have hbeside : Trees.Beside .free (fun place => trees[place]?) fun place => trees[place]? :=
    (Trees.failsWith_any _).beside fun _ _ => trivial
  have hkeeps : (pact σ kept base).Keeps base base := Host.Keeps.keeps hkept hkept hbeside
  have hagrees := Session.startAt_agrees (K := Host.apart σ kept) base (World.start state)
  exact (client.perform_abreast hkeeps turns (List.prefix_refl base)).seen_eq hagrees hagrees
    (World.start_beside base base state)

end Clients

end FreePrograms
