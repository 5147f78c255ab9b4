/-
# Trees beside each other

Two trees are *beside* each other, on the terms of a pact, if they are put together in the same way
and their functions make branches that are beside each other again: both go on, or both come to the
same halt.  Where the terms let the second side break, a function there may refuse where the first
one does not (`Branch.Beside`).  A tree is beside itself if its functions come to halts that the
terms allow (`Tree.FailsWith`, `Tree.FailsWith.beside`).

Programs of such trees are abreast (`Program.Follows.codes`): their frames, which go up the two
spines, form a chain whose types fit end to end.  So it is for all that is kept
(`Host.Keeps.keeps`), and what was shown of codes that are abreast holds of programs.
-/
import FreePrograms.Proofs.Run.Codes
import FreePrograms.Proofs.Tree.Follows

namespace FreePrograms

variable {S : Signature} {K L : Host S} {a b : S.Ty}

/-! ## 1. Trees -/

mutual

/-- The trees are put together in the same way, of parts and functions that do the same. -/
inductive Tree.Beside {S : Signature} (terms : Terms S) :
    {a : S.Ty} → Tree S a → Tree S a → Prop
  | pure {a : S.Ty} (value : S.El a) : Tree.Beside terms (.pure value) (.pure value)
  | lift {a : S.Ty} (effect : S.Effect) : Tree.Beside terms (@Tree.lift S a effect) (.lift effect)
  | liftWith {a : S.Ty} (effect : S.Effect) {decode decode' : Packed S → Except (Halt S) (S.El a)}
    (decoded : ∀ answer, terms.Decoded answer (decode answer) (decode' answer)) :
    Tree.Beside terms (.liftWith effect decode) (.liftWith effect decode')
  | bindAs {a b : S.Ty} {tree tree' : Tree S a} (provenance : Provenance)
    {function function' : S.El a → Branch S b} (first : Tree.Beside terms tree tree')
    (branches : ∀ value, Branch.Beside terms (.bind provenance ⟨a, value⟩) (function value)
      (function' value)) :
    Tree.Beside terms (.bindAs provenance tree function) (.bindAs provenance tree' function')
  | followedByKept {a b : S.Ty} {tree tree' : Tree S a} (first : Tree.Beside terms tree tree')
    (place : Nat) :
    Tree.Beside terms (@Tree.followedByKept S a b tree place) (.followedByKept tree' place)

/-- The branches have trees beside each other, or the same halt; or the second one is a halt to
which the application of the function may come on its side alone. -/
inductive Branch.Beside {S : Signature} (terms : Terms S) :
    Callback S → {a : S.Ty} → Branch S a → Branch S a → Prop
  | tree {callback : Callback S} {a : S.Ty} {tree tree' : Tree S a}
    (beside : Tree.Beside terms tree tree') :
    Branch.Beside terms callback (.tree tree) (.tree tree')
  | refuse {callback : Callback S} {a : S.Ty} {halt : Halt S} (allowed : terms.allowed halt) :
    Branch.Beside terms callback (@Branch.refuse S a halt) (.refuse halt)
  | spoilt {callback : Callback S} {a : S.Ty} (branch : Branch S a) {halt : Halt S}
    (spoilt : terms.spoilt callback halt) : Branch.Beside terms callback branch (.refuse halt)

end

mutual

/-- The functions of the tree fail for the given causes only. -/
inductive Tree.FailsWith {S : Signature} (cause : Halt S → Prop) : {a : S.Ty} → Tree S a → Prop
  | pure {a : S.Ty} (value : S.El a) : Tree.FailsWith cause (.pure value)
  | lift {a : S.Ty} (effect : S.Effect) : Tree.FailsWith cause (@Tree.lift S a effect)
  | liftWith {a : S.Ty} (effect : S.Effect) {decode : Packed S → Except (Halt S) (S.El a)}
    (causes : ∀ answer halt, decode answer = .error halt → cause halt) :
    Tree.FailsWith cause (.liftWith effect decode)
  | bindAs {a b : S.Ty} {tree : Tree S a} (provenance : Provenance) {function : S.El a → Branch S b}
    (first : Tree.FailsWith cause tree)
    (branches : ∀ value, Branch.FailsWith cause (function value)) :
    Tree.FailsWith cause (.bindAs provenance tree function)
  | followedByKept {a b : S.Ty} {tree : Tree S a} (first : Tree.FailsWith cause tree)
    (place : Nat) :
    Tree.FailsWith cause (@Tree.followedByKept S a b tree place)

/-- The halt of the branch is one of the given causes, and the functions of its tree fail for those
only. -/
inductive Branch.FailsWith {S : Signature} (cause : Halt S → Prop) : {a : S.Ty} → Branch S a → Prop
  | tree {a : S.Ty} {tree : Tree S a} (fails : Tree.FailsWith cause tree) :
    Branch.FailsWith cause (.tree tree)
  | refuse {a : S.Ty} {halt : Halt S} (caused : cause halt) :
    Branch.FailsWith cause (@Branch.refuse S a halt)

end

section Reflexive

variable {terms : Terms S} {cause : Halt S → Prop}

mutual

/-- **A tree is beside itself** if the terms allow what its functions fail for. -/
theorem Tree.FailsWith.beside (himp : ∀ halt, cause halt → terms.allowed halt) :
    {a : S.Ty} → {tree : Tree S a} → tree.FailsWith cause → Tree.Beside terms tree tree
  | _, .pure _, .pure value => .pure value
  | _, .lift _, .lift effect => .lift effect
  | _, .liftWith _ decode, .liftWith effect causes => by
    refine .liftWith effect fun answer => ?_
    cases h : decode answer with
    | ok value => exact .value value
    | error halt => exact .halt (himp halt (causes answer halt h))
  | _, .bindAs _ _ _, .bindAs provenance first branches =>
    .bindAs provenance (first.beside himp) fun value => (branches value).beside himp _
  | _, .followedByKept _ _, .followedByKept first place =>
    .followedByKept (first.beside himp) place

theorem Branch.FailsWith.beside (himp : ∀ halt, cause halt → terms.allowed halt) :
    {a : S.Ty} → {branch : Branch S a} → branch.FailsWith cause → ∀ callback : Callback S,
      Branch.Beside terms callback branch branch
  | _, .tree _, .tree fails => fun _ => .tree (fails.beside himp)
  | _, .refuse _, .refuse caused => fun _ => .refuse (himp _ caused)

end

mutual

/-- Every tree fails for some cause or other. -/
theorem Tree.failsWith_any : {a : S.Ty} → (tree : Tree S a) → tree.FailsWith fun _ => True
  | _, .pure value => .pure value
  | _, .lift effect => .lift effect
  | _, .liftWith effect _ => .liftWith effect fun _ _ _ => trivial
  | _, .bindAs provenance tree function =>
    .bindAs provenance tree.failsWith_any fun value => (function value).failsWith_any
  | _, .followedByKept tree place => .followedByKept tree.failsWith_any place

theorem Branch.failsWith_any : {a : S.Ty} → (branch : Branch S a) → branch.FailsWith fun _ => True
  | _, .tree tree => .tree tree.failsWith_any
  | _, .refuse _ => .refuse trivial

end

end Reflexive

/-! ## 2. Their programs -/

section Programs

variable {terms : Terms S} {ledger ledger' : Ledger (Frame S)}

mutual

/-- **The frames of trees beside each other form a chain**, from the node to the type of the trees.
-/
theorem Tree.Beside.chain : {a : S.Ty} → (tree tree' : Tree S a) →
    ∀ {ledger ledger' : Ledger (Frame S)} {node node' : Node S} {frames frames' : List (Frame S)},
      Tree.Beside terms tree tree' → Spine ledger node frames tree →
      Spine ledger' node' frames' tree' →
        ∃ b, terms.Nodes node node' b ∧ terms.Chain ledger ledger' b frames frames' a
  | a, .pure value, _ => by
    intro beside hspine hspine'
    cases beside
    cases hspine
    cases hspine'
    exact ⟨a, .value value, .nil⟩
  | a, .lift effect, _ => by
    intro beside hspine hspine'
    cases beside
    cases hspine
    cases hspine'
    exact ⟨a, .ask effect (.expect a), .nil⟩
  | a, .liftWith effect decode, _ => by
    intro beside hspine hspine'
    cases beside with
    | liftWith _ decoded =>
    cases hspine
    cases hspine'
    exact ⟨a, .ask effect (.decode decoded), .nil⟩
  | _, .bindAs provenance tree function, _ => by
    intro beside hspine hspine'
    cases beside with
    | @bindAs _ _ _ tree' _ _ function' first branches =>
    cases hspine with
    | bindAs _ before returns =>
    cases hspine' with
    | bindAs _ before' returns' =>
    obtain ⟨b, hnodes, hchain⟩ := Tree.Beside.chain tree tree' first before before'
    refine ⟨b, hnodes, hchain.append (.cons (.bind provenance ?_) .nil)⟩
    intro value later later' hlater hlater'
    exact Branch.Beside.returned (function value) (function' value) (branches value)
      (returns value later hlater) (returns' value later' hlater')
  | _, .followedByKept tree place, _ => by
    intro beside hspine hspine'
    cases beside with
    | @followedByKept _ _ _ tree' first _ =>
    cases hspine with
    | followedByKept before =>
    cases hspine' with
    | followedByKept before' =>
    obtain ⟨b, hnodes, hchain⟩ := Tree.Beside.chain tree tree' first before before'
    exact ⟨b, hnodes, hchain.append (.cons (.kept place) .nil)⟩

/-- **What functions return of branches beside each other is abreast.** -/
theorem Branch.Beside.returned : {b : S.Ty} → (branch branch' : Branch S b) →
    ∀ {ledger ledger' : Ledger (Frame S)} {callback : Callback S}
      {made made' : Except (Halt S) (Code S × Cell)},
      Branch.Beside terms callback branch branch' → Returns ledger made branch →
      Returns ledger' made' branch' → terms.Returned ledger ledger' callback made made' b
  | _, .tree tree, _ => by
    intro beside hreturns hreturns'
    cases beside with
    | @tree _ _ _ tree' beside =>
      cases hreturns with
      | @tree _ _ code _ _ hlater sound spine =>
      cases hreturns' with
      | @tree _ _ code' _ _ hlater' sound' spine' =>
      obtain ⟨node, frames⟩ := code
      obtain ⟨node', frames'⟩ := code'
      obtain ⟨b, hnodes, hchain⟩ := Tree.Beside.chain tree tree' beside spine spine'
      exact .code hlater hlater' (.intro hnodes hchain sound sound')
    | spoilt _ spoilt =>
      cases hreturns'
      exact .spoilt spoilt
  | _, .refuse halt, _ => by
    intro beside hreturns hreturns'
    cases beside with
    | refuse allowed =>
      cases hreturns
      cases hreturns'
      exact .halt allowed
    | spoilt _ spoilt =>
      cases hreturns'
      exact .spoilt spoilt

end

/-- **Programs of trees beside each other are abreast.** -/
theorem Program.Follows.codes {program program' : Program S a} {tree tree' : Tree S a}
    (follows : program.Follows ledger tree) (follows' : program'.Follows ledger' tree')
    (beside : Tree.Beside terms tree tree') :
    terms.Codes ledger ledger' program.code program'.code a := by
  obtain ⟨⟨node, frames⟩⟩ := program
  obtain ⟨⟨node', frames'⟩⟩ := program'
  obtain ⟨b, hnodes, hchain⟩ :=
    Tree.Beside.chain tree tree' beside follows.spine follows'.spine
  exact .intro hnodes hchain follows.sound follows'.sound

/-- Functions of programs may come to any halt, and to the same one on both sides. -/
def Terms.free : Terms S := ⟨fun _ => True, fun _ _ => False⟩

/-- Programs of the same tree are abreast. -/
theorem Program.Follows.codes_same {program program' : Program S a} {tree : Tree S a}
    (follows : program.Follows ledger tree) (follows' : program'.Follows ledger' tree) :
    Terms.free.Codes ledger ledger' program.code program'.code a :=
  follows.codes follows' (tree.failsWith_any.beside fun _ _ => trivial)

/-! ## 3. What is kept -/

/-- What is kept at two places is beside each other. -/
inductive KeptBeside (terms : Terms S) : Option ((type : S.Ty) × Tree S type) →
    Option ((type : S.Ty) × Tree S type) → Prop
  | none : KeptBeside terms none none
  | some {type : S.Ty} {tree tree' : Tree S type} (beside : Tree.Beside terms tree tree') :
    KeptBeside terms (some ⟨type, tree⟩) (some ⟨type, tree'⟩)

/-- The kept trees are beside each other, place by place. -/
def Trees.Beside (terms : Terms S) (trees trees' : Trees S) : Prop :=
  ∀ place, KeptBeside terms (trees place) (trees' place)

/-- The functions of the kept trees fail for the given causes only. -/
def Trees.FailsWith (cause : Halt S → Prop) (trees : Trees S) : Prop :=
  ∀ place type tree, trees place = some ⟨type, tree⟩ → tree.FailsWith cause

theorem Trees.failsWith_any (trees : Trees S) : trees.FailsWith fun _ => True :=
  fun _ _ tree _ => tree.failsWith_any

/-- Kept trees are beside themselves if the terms allow what their functions fail for. -/
theorem Trees.FailsWith.beside {cause : Halt S → Prop}
    (himp : ∀ halt, cause halt → terms.allowed halt) {trees : Trees S}
    (h : trees.FailsWith cause) : trees.Beside terms trees := by
  intro place
  cases htree : trees place with
  | none => exact .none
  | some kept => exact .some ((h place kept.1 kept.2 htree).beside himp)

/-- **What is kept is abreast** if it is of trees beside each other. -/
theorem Host.Keeps.keeps {pact : Pact K L} {trees trees' : Trees S} (keeps : K.Keeps ledger trees)
    (keeps' : L.Keeps ledger' trees') (beside : Trees.Beside pact.toTerms trees trees') :
    pact.Keeps ledger ledger' := by
  intro place type
  have hplace := keeps place
  have hplace' := keeps' place
  have hbeside := beside place
  unfold Run.kept
  generalize K.kept place = kept at hplace
  generalize L.kept place = kept' at hplace'
  generalize trees place = tree at hplace hbeside
  generalize trees' place = tree' at hplace' hbeside
  cases hbeside with
  | none =>
    cases hplace
    cases hplace'
    exact .throw (Or.inr (Or.inr ⟨place, rfl⟩))
  | @some found tree tree' htrees =>
    cases hplace with
    | some follows =>
    cases hplace' with
    | some follows' =>
    by_cases htype : found = type
    · subst htype
      simp only [if_true]
      exact .pure (follows.codes follows' htrees)
    · simp only [if_neg htype]
      exact .throw (Or.inr (Or.inr ⟨place, rfl⟩))

end Programs

end FreePrograms
