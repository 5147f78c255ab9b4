/-
# A run that is struck ends there

A function that the host or a program brings can halt in place of what it would do, at any
invocation.  Then the run ends with that halt (`Service.ends_where_struck`).  What was invoked up to
there, with what was given and in which states the host was found, is what is invoked in the run
where nothing is struck; nothing is invoked after it, the host is left as the function left it, and
no end is told.

The two runs are made abreast, until the second one breaks (`Strikes.pact`): both hosts have the
same record, and a break is an invocation at which only the second one halts.  The first run goes on
from there, and its record grows.

What the struck run leaves in the table of known tails is of no consequence.  Every program that was
there before can be carried out again, and does what it would have done (`Session.servesAs`).
-/
import FreePrograms.Proofs.Halts.Quiet
import FreePrograms.Proofs.Halts.Service
import FreePrograms.Proofs.Tree.Beside
import FreePrograms.Script.Plan

namespace FreePrograms

variable {S : Signature} {K L : Host S} {type a b : S.Ty} {α N M R : Type}
  {kept kept' : Nat → Option ((type : S.Ty) × Program S type)}
  {ledger ledger' later : Ledger (Frame S)}

open Pact Run

/-! ## 1. Records -/

namespace Strikes

variable {strikes : Strikes K N M} {record : List (Invocation K N M)}
  {invocation : Invocation K N M}

theorem spares_nil : strikes.Spares [] := by
  intro before invocation hprefix _
  exact absurd (List.prefix_nil.mp hprefix)
    (List.append_ne_nil_of_right_ne_nil _ (List.cons_ne_nil _ _))

theorem Spares.concat (h : strikes.Spares record)
    (hlast : invocation.duty.isHosts → strikes (record ++ [invocation]) = none) :
    strikes.Spares (record ++ [invocation]) := by
  intro before next hprefix hosts
  rcases List.prefix_concat_iff.mp hprefix with heq | hbefore
  · obtain ⟨rfl, hnext⟩ := List.append_inj' heq rfl
    obtain rfl : next = invocation := List.singleton_inj.mp hnext
    exact hlast hosts
  · exact h before next hbefore hosts

/-- **What a run and one that is struck have in common**: the state of the host and the record, on
which nothing is struck.  The second run breaks where it is struck. -/
def pact (strikes : Strikes K N M) (spoils : Callback S → Halt S → Prop)
    (kept kept' : Nat → Option ((type : S.Ty) × Program S type)) :
    Pact (K.recording N M kept) (K.recording N M kept') where
  allowed _ := True
  spoilt := spoils
  hosts _ s t := (s : K.State × List (Invocation K N M)) = t ∧ strikes.Spares t.2
  breaks halt t := strikes.Struck spoils halt t
  since t s := t.2 <+: s.2
  hosts_mono _ h := h
  hosts_observe callback h := by
    obtain ⟨rfl, spared⟩ := h
    exact ⟨rfl, spared.concat fun hosts => nomatch hosts⟩
  breaks_observe spoilt h := .function h.2 spoilt
  since_hosts h := by
    obtain ⟨rfl, -⟩ := h
    exact List.prefix_refl _
  since_observe _ h := h.trans (List.prefix_append _ _)

end Strikes

/-! ## 2. Services abreast -/

/-- A function of the host that is struck. -/
theorem Run.invoke_of_some {strikes : Strikes K N M} {duty : Duty S N M} {work : Hosted K α}
    {session : Session (K.recording N M kept)} {halt : Halt S} {last : K.State}
    (h : strikes (session.host.2 ++ [⟨duty, session.host.1⟩]) = some (halt, last)) :
    Run.invoke strikes duty work session = .error halt
      { session with host := (last, session.host.2 ++ [⟨duty, session.host.1⟩]) } := by
  simp only [Run.invoke, Run.hosted, Hosted.invoke, h]

/-- A function of the host that is spared. -/
theorem Run.invoke_of_none {strikes : Strikes K N M} {duty : Duty S N M} {work : Hosted K α}
    {session : Session (K.recording N M kept)}
    (h : strikes (session.host.2 ++ [⟨duty, session.host.1⟩]) = none) :
    Run.invoke strikes duty work session =
      match work session.host.1 with
      | .ok a last =>
        .ok a { session with host := (last, session.host.2 ++ [⟨duty, session.host.1⟩]) }
      | .error halt last =>
        .error halt
          { session with host := (last, session.host.2 ++ [⟨duty, session.host.1⟩]) } := by
  simp only [Run.invoke, Run.hosted, Hosted.invoke, h]
  cases work session.host.1 with
  | ok a last => rfl
  | error halt last => rfl

/-- Functions of the host that are invoked on both sides do the same. -/
def Pact.Invokes (pact : Pact (K.recording N M kept) (K.recording N M kept'))
    (strikes strikes' : Strikes K N M) : Prop :=
  ∀ {α : Type} {duty : Duty S N M} (work : Hosted K α) (ledger ledger' : Ledger (Frame S)),
    duty.isHosts → pact.Steady .equal ledger ledger' (Run.invoke strikes duty work)
      (Run.invoke strikes' duty work)

/-- **A function of the host does the same, or the second one is struck.** -/
theorem Strikes.pact_invokes (strikes : Strikes K N M) (spoils : Callback S → Halt S → Prop) :
    (strikes.pact spoils kept kept').Invokes .never strikes := by
  intro α duty work ledger ledger' hosts
  refine ⟨⟨?_⟩, ?_⟩
  · rintro later later' s t first second agrees agrees' ⟨hsame, spared⟩
    rw [Run.invoke_of_none (rfl : Strikes.never _ = none), hsame]
    cases hstrikes : strikes (t.host.2 ++ [⟨duty, t.host.1⟩]) with
    | some struck =>
      obtain ⟨halt, last⟩ := struck
      rw [Run.invoke_of_some hstrikes]
      refine .broken (List.prefix_refl _) agrees' (.duty spared hosts hstrikes) ?_
      cases work t.host.1 with
      | ok a final => exact ⟨List.prefix_refl _, trivial⟩
      | error halt' final => exact List.prefix_refl _
    | none =>
      rw [Run.invoke_of_none hstrikes]
      have hspared := spared.concat fun _ => hstrikes
      cases work t.host.1 with
      | ok a final =>
        exact .ok (List.prefix_refl _) (List.prefix_refl _) agrees agrees' ⟨rfl, hspared⟩ rfl
      | error halt final =>
        exact .error (List.prefix_refl _) (List.prefix_refl _) agrees agrees' ⟨rfl, hspared⟩
          (Or.inl (Or.inl trivial))
  · intro t session hsince
    rw [Run.invoke_of_none (rfl : Strikes.never _ = none)]
    have hgrown := List.IsPrefix.trans hsince (List.prefix_append _ [⟨duty, session.host.1⟩])
    cases work session.host.1 with
    | ok a final => exact ⟨hgrown, trivial⟩
    | error halt final => exact hgrown

section Services

variable {pact : Pact (K.recording N M kept) (K.recording N M kept')}
  {strikes strikes' : Strikes K N M}

namespace Service

theorem rendering_renders (invokes : pact.Invokes strikes strikes') (render : S.Effect → Hosted K N)
    (finish : S.El type → Hosted K M) : pact.Renders .equal .equal ledger ledger'
      (rendering strikes render finish) (rendering strikes' render finish) :=
  ⟨fun effect => invokes (render effect) _ _ rfl, fun value => invokes (finish value) _ _ rfl⟩

theorem force_forces (invokes : pact.Invokes strikes strikes') (force : N → Hosted K (Packed S)) :
    pact.Forces .equal ledger ledger'
      (fun effect => Run.invoke strikes (.force effect) (force effect))
      fun effect => Run.invoke strikes' (.force effect) (force effect) :=
  .of_equal fun effect => invokes (force effect) _ _ rfl

theorem deferring_steady (invokes : pact.Invokes strikes strikes') (render : S.Effect → Hosted K N)
    (force : N → Hosted K (Packed S)) (effect : S.Effect) :
    pact.Steady (pact.deferred .equal) ledger ledger' (deferring strikes render force effect)
      (deferring strikes' render force effect) := by
  refine (invokes (render effect) _ _ rfl).bind ?_ ?_
  · exact fun rendered _ => .pure (invokes (force rendered) [] [] rfl).grows
  · rintro later later' rendered _ _ _ rfl
    exact .pure (invokes (force rendered) _ _ rfl)

theorem concluded_grows (invokes : pact.Invokes strikes strikes') (conclude : N → M → Hosted K M)
    (effect : N) {rest : Packed S → Run (K.recording N M kept) M}
    (hrest : ∀ answer, pact.Grows Any (rest answer)) (choice : Except M (Packed S)) :
    pact.Grows Any (concluded strikes conclude effect rest choice) := by
  cases choice with
  | error value => exact .pure trivial
  | ok answer =>
    exact (hrest answer).bind fun value _ => (invokes (conclude effect value) [] [] rfl).grows

/-- To combine is to do the same, if the rests of the folds do. -/
theorem combination_combines (invokes : pact.Invokes strikes strikes')
    (combine : N → Hosted K (Except M (Packed S))) (conclude : N → M → Hosted K M) :
    pact.Combines .equal .equal ledger ledger' (combination strikes combine conclude)
      (combination strikes' combine conclude) := by
  refine ⟨?_, ?_⟩
  · rintro later later' effect _ rest rest' first second rfl hrest
    refine (invokes (combine effect) _ _ rfl).abreast.bind ?_ ?_
    · exact fun choice _ =>
        concluded_grows invokes conclude effect (fun answer => (hrest answer).grows) choice
    · rintro last last' choice _ hlast hlast' rfl
      cases choice with
      | error value => exact .pure rfl
      | ok answer =>
        refine ((hrest answer).abreast.mono hlast hlast').bind ?_ ?_
        · exact fun value _ => (invokes (conclude effect value) [] [] rfl).grows
        · rintro final final' value _ _ _ rfl
          exact (invokes (conclude effect value) _ _ rfl).abreast
  · intro effect rest _ hrest
    exact (invokes (combine effect) [] [] rfl).grows.bind fun choice _ =>
      concluded_grows invokes conclude effect hrest choice

/-- **Programs whose codes are abreast are served abreast.** -/
theorem perform_steady (invokes : pact.Invokes strikes strikes') (keeps : pact.Keeps ledger ledger')
    (turns : Nat) {program program' : Program S type}
    (hcodes : pact.Codes ledger ledger' program.code program'.code type)
    (service : Service K type N M R) :
    pact.Steady .equal ledger ledger' (service.perform turns strikes program)
      (service.perform turns strikes' program') := by
  cases service with
  | tryRun answer =>
    exact hcodes.tryRunIn keeps (fun effect => invokes (answer effect) _ _ rfl) turns
  | run answer => exact hcodes.runIn keeps (fun effect => invokes (answer effect) _ _ rfl) turns
  | fold render finish combine conclude =>
    exact hcodes.fold keeps (rendering_renders invokes render finish)
      (combination_combines invokes combine conclude) turns
  | chain render force =>
    have hrenders : pact.Renders (pact.deferred .equal) (pact.deferred .equal) ledger ledger'
        (⟨deferring strikes render force, fun value => return .now value⟩ : Rendering _ type _ _)
        ⟨deferring strikes' render force, fun value => return .now value⟩ :=
      ⟨deferring_steady invokes render force, fun value => .now value⟩
    refine (hcodes.fold keeps hrenders (chained_combines .equal _ _) turns).bind (fun _ h => h) ?_
    exact fun _ _ _ _ hdeferred => hdeferred.abreast
  | steps render finish force =>
    exact (Interprets.steps (rendering_renders invokes render finish)
      (force_forces invokes force)).carryOut keeps hcodes
  | drive render finish force =>
    exact hcodes.driveIn keeps (rendering_renders invokes render finish)
      ((force_forces invokes force).drives turns turns)
  | defer render force => exact hcodes.deferIn keeps (deferring_steady invokes render force) turns

/-- A combination of the host tells nothing if the rest of the fold does not. -/
theorem combination_quiet (strikes : Strikes K N M) (combine : N → Hosted K (Except M (Packed S)))
    (conclude : N → M → Hosted K M) (effect : N) {rest : Packed S → Run (K.recording N M kept) M}
    (hrest : ∀ answer, Quiet Any (rest answer)) :
    Quiet Any (combination strikes combine conclude effect rest) := by
  refine (Quiet.hosted _).bind fun choice _ => ?_
  cases choice with
  | error value => exact quiet.pure trivial
  | ok answer => exact (hrest answer).bind fun value _ => .hosted _

/-- Rendering into computations that force tells nothing, and nor do these. -/
theorem deferring_quiet (strikes : Strikes K N M) (render : S.Effect → Hosted K N)
    (force : N → Hosted K (Packed S)) (effect : S.Effect) :
    Quiet (fun deferred : Deferred (K.recording N M kept) (Packed S) => Quiet Any deferred.force)
      (deferring strikes render force effect) :=
  (Quiet.hosted _).bind fun _ _ _ => ⟨.hosted _, rfl⟩

/-- **A service that halts tells no end.** -/
theorem perform_reticent (invokes : pact.Invokes strikes strikes')
    (keeps : pact.Keeps ledger ledger') (turns : Nat) {program program' : Program S type}
    (hcodes : pact.Codes ledger ledger' program.code program'.code type)
    {s : Session (K.recording N M kept)} {t : Session (K.recording N M kept')}
    (agrees : s.memo.Agrees ledger) (agrees' : t.memo.Agrees ledger')
    (together : pact.hosts ledger s.host t.host) (service : Service K type N M R) :
    ReticentOn t (service.perform turns strikes' program') := by
  have hquiet : ∀ {α : Type} (work : Hosted (K.recording N M kept') α),
      Quiet Any (Run.hosted work) := fun work => .hosted work
  cases service with
  | tryRun answer =>
    exact hcodes.tryRunIn_quiet keeps (fun effect => invokes (answer effect) _ _ rfl)
      (fun effect => .hosted _) turns agrees agrees' together
  | run answer =>
    exact hcodes.runIn_quiet keeps (fun effect => invokes (answer effect) _ _ rfl)
      (fun effect => .hosted _) turns agrees agrees' together
  | fold render finish combine conclude =>
    exact (program'.foldIn_quiet (fun _ => hquiet _) (fun _ => hquiet _)
      (fun _ hrest => combination_quiet strikes' combine conclude _ hrest) turns).on t
  | chain render force =>
    exact (program'.chained_quiet (deferring_quiet strikes' render force) turns).on t
  | steps render finish force =>
    exact (program'.stepsIn_reticent (fun _ => hquiet _) (fun _ => hquiet _) (fun _ _ => hquiet _)
      turns).on t
  | drive render finish force =>
    exact (Reticent.inside .drive (program'.stepsIn_reticent (fun _ => hquiet _) (fun _ => hquiet _)
      (fun _ _ => hquiet _) turns)).on t
  | defer render force =>
    exact (program'.deferIn_reticent (deferring_quiet strikes' render force) turns).on t

end Service

end Services

/-! ## 3. Programs that are carried out again -/

/-- Of computations that are abreast with themselves the same is seen, whatever the tables know. -/
theorem Pact.Abreast.seen_eq {allowed possible : Halt S → Prop} {work work' : Run K α}
    (h : (K.equal allowed).Abreast possible .equal ledger ledger' work work') {s t : Session K}
    (agrees : s.memo.Agrees ledger) (agrees' : t.memo.Agrees ledger') (hhost : s.host = t.host) :
    Run.seen (work s) = Run.seen (work' t) := by
  have hresults := h.results (List.prefix_refl _) (List.prefix_refl _) agrees agrees' hhost
  generalize work s = result at hresults
  generalize work' t = result' at hresults
  cases hresults with
  | ok _ _ _ _ hlast hvalue => exact Prod.ext (congrArg Except.ok hvalue) hlast
  | error _ _ _ _ hlast _ => exact Prod.ext rfl hlast
  | broken _ _ breaks _ => exact breaks.elim

/-- On the second session every program does what it would have done on the first one, if it was
there when the names of the ledger were given: in every service, struck or not, and from every state
of the host. -/
def Session.ServesAs (K : Host S) (kept : Nat → Option ((type : S.Ty) × Program S type))
    (ledger : Ledger (Frame S)) (session last : Session L) : Prop :=
  ∀ {type : S.Ty} {N M R : Type} (program : Program S type) (tree : Tree S type)
    (service : Service K type N M R) (turns : Nat) (strikes : Strikes K N M)
    (host : (K.recording N M kept).State), program.Follows ledger tree →
      Run.seen (service.perform turns strikes program (last.handOver host))
        = Run.seen (service.perform turns strikes program (session.handOver host))

/-- **What runs leave in the table is of no consequence** to the programs that were there before. -/
theorem Session.servesAs {trees : Trees S} {session last : Session L}
    (keeps : ∀ place, KeptFollows ledger (kept place) (trees place))
    (agrees : session.memo.Agrees ledger) (hlater : ledger <+: later)
    (hlast : last.memo.Agrees later) : session.ServesAs K kept ledger last := by
  intro type N M R program tree service turns strikes host follows
  have hinvokes : ((K.recording N M kept).equal fun _ => True).Invokes strikes strikes :=
    fun _ later later' _ => Pact.Steady.hosted (fun _ _ _ _ => trivial) later later'
  have hbeside : Trees.Beside Terms.free trees trees :=
    (Trees.failsWith_any trees).beside fun _ _ => trivial
  have hkeeps : ((K.recording N M kept).equal fun _ => True).Keeps later ledger :=
    Host.Keeps.keeps (fun place => (keeps place).mono hlater) keeps hbeside
  have hsteady := service.perform_steady hinvokes hkeeps turns
    ((follows.mono hlater).codes_same follows)
  exact hsteady.abreast.seen_eq (s := last.handOver host) (t := session.handOver host) hlast
    agrees rfl

/-! ## 4. Runs that are struck -/

/-- How a run that can be struck ended, beside the one that is not.  Either it was spared, and the
same is seen of both.  Or it halted where it was struck, and the record up to there is that of the
other run. -/
inductive Strikes.Meets (strikes : Strikes K N M) (spoils : Callback S → Halt S → Prop)
    (other : EStateM.Result (Halt S) (Session (K.recording N M kept)) R) :
    EStateM.Result (Halt S) (Session (K.recording N M kept')) R → Prop
  | spared {result : EStateM.Result (Halt S) (Session (K.recording N M kept')) R}
    (same : Run.seen result = Run.seen other) (spares : strikes.Spares (Run.seen result).2.2) :
    Meets strikes spoils other result
  | struck {halt : Halt S} {last : Session (K.recording N M kept')}
    (struck : strikes.Struck spoils halt last.host)
    (before : last.host.2 <+: (Run.seen other).2.2) :
    Meets strikes spoils other (.error halt last)

/-- What two runs abreast come to, the second of which can be struck. -/
theorem Strikes.meets_of_results {strikes : Strikes K N M} {spoils : Callback S → Halt S → Prop}
    {possible : Halt S → Prop} {other : EStateM.Result (Halt S) (Session (K.recording N M kept)) R}
    {result : EStateM.Result (Halt S) (Session (K.recording N M kept')) R}
    (h : (strikes.pact spoils kept kept').Results possible .equal ledger ledger' other result) :
    strikes.Meets spoils other result := by
  cases h with
  | ok _ _ _ _ hlast hvalue =>
    obtain rfl := hvalue
    exact .spared (Prod.ext rfl hlast.1.symm) hlast.2
  | error _ _ _ _ hlast _ => exact .spared (Prod.ext rfl hlast.1.symm) hlast.2
  | broken _ _ breaks beyond =>
    refine .struck breaks ?_
    cases other with
    | ok a last => exact beyond.1
    | error halt last => exact beyond

/-- The table of the second run fits in the end, however that run ended. -/
theorem Pact.Results.agrees_last {pact : Pact K L} {possible : Halt S → Prop}
    {values : Agreement S R R} {other : EStateM.Result (Halt S) (Session K) R}
    {result : EStateM.Result (Halt S) (Session L) R}
    (h : pact.Results possible values ledger ledger' other result) :
    ∃ later, ledger' <+: later ∧ (Run.last result).memo.Agrees later := by
  cases h with
  | ok _ second _ agrees' _ _ => exact ⟨_, second, agrees'⟩
  | error _ second _ agrees' _ _ => exact ⟨_, second, agrees'⟩
  | broken second agrees' _ _ => exact ⟨_, second, agrees'⟩

/-- Before the invocation that was struck the record is spared. -/
theorem Strikes.Struck.record {strikes : Strikes K N M} {spoils : Callback S → Halt S → Prop}
    {halt : Halt S} {host : K.State × List (Invocation K N M)}
    (h : strikes.Struck spoils halt host) :
    ∃ before invocation, host.2 = before ++ [invocation] ∧ strikes.Spares before := by
  cases h with
  | duty spared _ _ => exact ⟨_, _, rfl, spared⟩
  | function spared _ => exact ⟨_, _, rfl, spared⟩

/-- Where a function of the host would be struck, the run halts, there or before. -/
theorem Strikes.Meets.halts {strikes : Strikes K N M} {spoils : Callback S → Halt S → Prop}
    {other : EStateM.Result (Halt S) (Session (K.recording N M kept)) R}
    {result : EStateM.Result (Halt S) (Session (K.recording N M kept')) R}
    (h : strikes.Meets spoils other result) {before : List (Invocation K N M)}
    {invocation : Invocation K N M} (hrecord : before ++ [invocation] <+: (Run.seen other).2.2)
    (hosts : invocation.duty.isHosts) (hstrikes : strikes (before ++ [invocation]) ≠ none) :
    ∃ halt last, result = .error halt last ∧ last.host.2 <+: before ++ [invocation] := by
  cases h with
  | spared same spares =>
    rw [same] at spares
    exact absurd (spares before invocation hrecord hosts) hstrikes
  | @struck halt last struck hbefore =>
    refine ⟨halt, last, rfl, ?_⟩
    obtain ⟨earlier, final, hhost, spared⟩ := struck.record
    rw [hhost] at hbefore ⊢
    rcases List.prefix_or_prefix_of_prefix hbefore hrecord with hfirst | hsecond
    · exact hfirst
    · rcases List.prefix_concat_iff.mp hsecond with hsame | hspared
      · exact hsame ▸ List.prefix_refl _
      · exact absurd (spared before invocation hspared hosts) hstrikes

/-- **A run that is struck ends there.**  Take a program and one that is put together in the same
way, whose functions may halt where those of the first one do not, each on a session whose table
fits, with the same state of the host and nothing on record.  The first one is served without being
struck, the second one by functions of the host that may be struck.

The second run is spared, or it halts where it was struck.  It is struck, there or before, if a
function of the host would be that the first run invokes.  If it halts it tells no end.  And
programs that were there before do what they would have done. -/
theorem Service.ends_where_struck {tree tree' : Tree S type} {trees trees' : Trees S}
    {program program' : Program S type} {session : Session (K.recording N M kept)}
    {session' : Session (K.recording N M kept')} {state : K.State} (strikes : Strikes K N M)
    (spoils : Callback S → Halt S → Prop)
    (beside : Tree.Beside ⟨fun _ => True, spoils⟩ tree tree')
    (kept_beside : Trees.Beside ⟨fun _ => True, spoils⟩ trees trees')
    (follows : program.Follows ledger tree) (follows' : program'.Follows ledger' tree')
    (keeps : (K.recording N M kept).Keeps ledger trees)
    (keeps' : (K.recording N M kept').Keeps ledger' trees') (agrees : session.memo.Agrees ledger)
    (agrees' : session'.memo.Agrees ledger') (begins : session.host = (state, []))
    (begins' : session'.host = (state, [])) (service : Service K type N M R) (turns : Nat) :
    let result := service.perform turns strikes program' session'
    strikes.Meets spoils (service.perform turns .never program session) result ∧
      (∀ before invocation,
        before ++ [invocation] <+: (Run.seen (service.perform turns .never program session)).2.2 →
          invocation.duty.isHosts → strikes (before ++ [invocation]) ≠ none →
            ∃ halt last, result = .error halt last ∧ last.host.2 <+: before ++ [invocation]) ∧
      (∀ halt last, result = .error halt last → last.endings = session'.endings) ∧
      session'.ServesAs K kept' ledger' (Run.last result) := by
  have hinvokes : (strikes.pact spoils kept kept').Invokes .never strikes :=
    strikes.pact_invokes spoils
  have hkeeps : (strikes.pact spoils kept kept').Keeps ledger ledger' :=
    keeps.keeps keeps' kept_beside
  have hcodes : (strikes.pact spoils kept kept').Codes ledger ledger' program.code program'.code
      type := follows.codes follows' beside
  have htogether : (strikes.pact spoils kept kept').hosts ledger session.host session'.host := by
    rw [begins, begins']
    exact ⟨rfl, strikes.spares_nil⟩
  have hresults := (service.perform_steady hinvokes hkeeps turns hcodes).abreast.results
    (List.prefix_refl _) (List.prefix_refl _) agrees agrees' htogether
  have hreticent := service.perform_reticent hinvokes hkeeps turns hcodes agrees agrees' htogether
  have hmeets := Strikes.meets_of_results hresults
  obtain ⟨later, hlater, hagrees⟩ := hresults.agrees_last
  refine ⟨hmeets, ?_, hreticent, Session.servesAs keeps' agrees' hlater hagrees⟩
  exact fun before invocation hrecord hosts hstrikes => hmeets.halts hrecord hosts hstrikes

/-! ## 5. A job that is cut off -/

/-- Washes, then dries. -/
def laundryTree : Tree Script.signature ResultType.unit :=
  (Tree.lift (.job "wash") : Tree Script.signature ResultType.unit).bind fun _ =>
    .tree (.lift (.job "dry"))

/-- The program of that tree, and the next name. -/
def laundry : Program Script.signature ResultType.unit × Cell := laundryTree.build.run 0

/-- A host that counts the jobs that it did, and keeps no programs. -/
abbrev laundryHost : Host Script.signature := ⟨Nat, fun _ jobs => jobs, fun _ => none⟩

/-- The host with a record, where nothing happened. -/
def laundryStart : Session (laundryHost.recording Unit Unit fun _ => none) :=
  .startAt laundry.2 (0, [])

/-- Does every job. -/
def doJobs : Service laundryHost ResultType.unit Unit Unit Unit :=
  .run fun _ jobs => .ok ⟨ResultType.unit, ()⟩ (jobs + 1)

/-- What is on record when both jobs were begun. -/
def laundryRecord : List (Invocation laundryHost Unit Unit) :=
  [⟨.answer (.job "wash"), 0⟩, ⟨.applied (.bind .given ⟨ResultType.unit, ()⟩), 1⟩,
    ⟨.answer (.job "dry"), 1⟩]

/-- The third function that is invoked is cut off. -/
def outage : Strikes laundryHost Unit Unit := fun record =>
  if record.length = 3 then some (.fault (.handlerFailed "outage"), 1) else none

/-- **The second job is cut off.**  The first one was done, no end is told, and the program can be
carried out again. -/
theorem laundry_cut_off :
    ∃ last, doJobs.perform 9 outage laundry.1 laundryStart
        = .error (.fault (.handlerFailed "outage")) last ∧
      last.host = (1, laundryRecord) ∧ last.endings = [] ∧
        Run.seen (doJobs.perform 9 .never laundry.1 (last.handOver laundryStart.host))
          = Run.seen (doJobs.perform 9 .never laundry.1 laundryStart) := by
  obtain ⟨ledger, -, hlength, hfollows⟩ := laundryTree.build_follows []
  have hlaundry : laundry.2 = ledger.length := hlength
  have hagrees : laundryStart.memo.Agrees ledger := by
    rw [laundryStart, hlaundry]
    exact Session.startAt_agrees ledger _
  have hbeside : Tree.Beside Terms.free laundryTree laundryTree :=
    laundryTree.failsWith_any.beside fun _ _ => trivial
  have hnothing : (laundryHost.recording Unit Unit fun _ => none).Keeps ledger fun _ => none :=
    Host.keeps_nothing ledger fun _ => rfl
  obtain ⟨hmeets, -, htold, hagain⟩ := Service.ends_where_struck outage (fun _ _ => False) hbeside
    (fun _ => .none) hfollows hfollows hnothing hnothing hagrees hagrees rfl rfl doJobs 9
  have hrecord :
      (Run.seen (doJobs.perform 9 .never laundry.1 laundryStart)).2.2 = laundryRecord := by
    with_unfolding_all rfl
  change outage.Meets _ (doJobs.perform 9 .never laundry.1 laundryStart)
    (doJobs.perform 9 outage laundry.1 laundryStart) at hmeets
  change ∀ halt last, doJobs.perform 9 outage laundry.1 laundryStart = .error halt last → _ at htold
  change laundryStart.ServesAs laundryHost _ ledger
    (Run.last (doJobs.perform 9 outage laundry.1 laundryStart)) at hagain
  generalize doJobs.perform 9 outage laundry.1 laundryStart = result at hmeets htold hagain ⊢
  cases hmeets with
  | spared same spares =>
    rw [same, hrecord] at spares
    cases spares (laundryRecord.take 2) _ (List.prefix_refl laundryRecord) rfl
  | @struck halt last struck before =>
    rw [hrecord] at before
    generalize hhost : last.host = host at struck before
    cases struck with
    | @duty earlier invocation state _ _ strikes_at =>
      obtain ⟨hlength, rfl, rfl⟩ : (earlier ++ [invocation]).length = 3 ∧
          Halt.fault (Script.Fault.handlerFailed "outage") = halt ∧ 1 = state := by
        simpa [outage] using strikes_at
      obtain hsame : earlier ++ [invocation] = laundryRecord := before.eq_of_length hlength
      refine ⟨last, rfl, hhost.trans (by rw [hsame]), htold _ last rfl, ?_⟩
      exact hagain laundry.1 laundryTree doJobs 9 .never (0, []) hfollows
    | function _ spoils_at => exact spoils_at.elim

end FreePrograms
