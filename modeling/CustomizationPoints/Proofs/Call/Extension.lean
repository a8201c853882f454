import CustomizationPoints.Proofs.Call.Mirror
import CustomizationPoints.Proofs.Call.Outcome

/-!
# What one more declaration does to a call

A call of a declaration that is registered already can be made before and after one more
registration.  What the new declaration does to it is decided at one place.  If the call does
not come to the parent of the new declaration, or the new declaration is hidden from it or
does not accept its arguments, then nothing changes.  Otherwise the new declaration joins the
candidates below its parent, as the last of them, and the call goes on from there
(`Call.Joined`).

## What the host may look at

A registration changes the node of the parent, by one more override.  The host is shown this
node, so it could notice.  All statements here are about hosts that do not look at the
overrides of a node (`Oracle.IgnoresOverrides`), and for them the two nodes are the same.
-/

namespace CustomizationPoints

/-- The host's answers do not depend on the overrides of the nodes that it is asked about. -/
structure Oracle.IgnoresOverrides (oracle : Oracle Id) : Prop where
  viable : ∀ (node : Node) (overrides : List DeclId) (arguments : List HostType),
    oracle.viable { node with overrides } arguments = oracle.viable node arguments
  pick : ∀ (candidates : List Node) (overrides : Node → List DeclId)
    (arguments : List HostType),
    oracle.pick (candidates.map fun node => { node with overrides := overrides node }) arguments =
      oracle.pick candidates arguments

theorem Node.gaining_eq (decl : Declaration) (id : DeclId) (node : Node) :
    node.gaining decl id = { node with overrides := (node.gaining decl id).overrides } := by
  rcases node.gaining_eq_or decl id with h | h <;> rw [h]
  rfl

theorem Node.map_id_gaining (decl : Declaration) (id : DeclId) (nodes : List Node) :
    (nodes.map (Node.gaining decl id)).map (·.id) = nodes.map (·.id) := by
  rw [List.map_map]
  exact List.map_congr_left fun node _ => node.id_gaining decl id

theorem Node.map_displayName_gaining (decl : Declaration) (id : DeclId) (nodes : List Node) :
    (nodes.map (Node.gaining decl id)).map (·.displayName) = nodes.map (·.displayName) := by
  rw [List.map_map]
  exact List.map_congr_left fun node _ => node.displayName_gaining decl id

namespace Oracle.IgnoresOverrides

variable {oracle : Oracle Id} (blind : oracle.IgnoresOverrides)

include blind

theorem viable_gaining (decl : Declaration) (id : DeclId) (node : Node)
    (arguments : List HostType) :
    oracle.viable (node.gaining decl id) arguments = oracle.viable node arguments := by
  rw [Node.gaining_eq]
  exact blind.viable node _ arguments

theorem pick_gaining (decl : Declaration) (id : DeclId) (candidates : List Node)
    (arguments : List HostType) :
    oracle.pick (candidates.map (Node.gaining decl id)) arguments =
      oracle.pick candidates arguments := by
  rw [← blind.pick candidates (fun node => (node.gaining decl id).overrides) arguments]
  refine congrArg (oracle.pick · arguments) (List.map_congr_left fun node _ => ?_)
  exact node.gaining_eq decl id

end Oracle.IgnoresOverrides

namespace Call

/-- How a call ends that entered at `entry` and went through `upto`, when `new` has joined the
candidates below the last declaration there. -/
inductive Joined (call : Call) (new entry : Node) (upto : List Node) :
    Except CallError Resolution → Prop where
  /-- The new declaration is the target. -/
  | selected {parent : Node} (last : upto.getLastD entry = parent)
      (first : call.candidates parent = [] ∨
        call.oracle.pick (call.candidates parent ++ [new]) call.arguments = some new.id)
      (body : new.decl.isPure = false) :
      Joined call new entry upto (.ok {
        target := new.id
        path := (entry :: upto ++ [new]).map (·.id)
        associated := call.associated })
  /-- The new declaration takes over, and has no body. -/
  | withoutBody {parent : Node} (last : upto.getLastD entry = parent)
      (first : call.candidates parent = [] ∨
        call.oracle.pick (call.candidates parent ++ [new]) call.arguments = some new.id)
      (pureEnd : new.decl.isPure = true) :
      Joined call new entry upto (.error (.noViableCandidate entry.displayName call.arguments
        (.pureWithoutOverride new.id new.displayName)))
  /-- An old candidate takes over, and the call goes on as it would have gone on from there. -/
  | passedOn {parent next : Node} {rest : List Node} {result : Except CallError Resolution}
      (last : upto.getLastD entry = parent) (candidate : next ∈ call.candidates parent)
      (answer : call.oracle.pick (call.candidates parent ++ [new]) call.arguments = some next.id)
      (chain : call.MaximalChain next rest)
      (settles : call.Settles entry (upto ++ next :: rest) result) :
      Joined call new entry upto result
  /-- The host does not pick any of the candidates. -/
  | ambiguous {parent : Node} (last : upto.getLastD entry = parent)
      (others : call.candidates parent ≠ [])
      (unanswered : call.oracle.pick (call.candidates parent ++ [new]) call.arguments = none) :
      Joined call new entry upto (.error (.ambiguousOverride parent.id parent.displayName
        call.arguments ((call.candidates parent ++ [new]).map (·.id))
        ((call.candidates parent ++ [new]).map (·.displayName))))
  /-- The host picks something that is not a candidate. -/
  | invalid {parent : Node} {answer : DeclId} (last : upto.getLastD entry = parent)
      (others : call.candidates parent ≠ [])
      (answered : call.oracle.pick (call.candidates parent ++ [new]) call.arguments = some answer)
      (stranger : ∀ node ∈ call.candidates parent ++ [new], node.id ≠ answer) :
      Joined call new entry upto (.error (.invalidOracleAnswer parent.id parent.displayName answer))

/-- The same call after one more registration. -/
def extended (call : Call) (decl : Declaration) : Call :=
  { call with registry := call.registry.add decl }

/-- A registered node after the registration. -/
abbrev gained (call : Call) (decl : Declaration) : Node → Node :=
  Node.gaining decl call.registry.nextId

variable {call : Call} {conversions : Conversions Id} {decl : Declaration}

/-! ## The candidates after the registration -/

section Extended

variable (forest : call.registry.IsForest) (blind : call.oracle.IgnoresOverrides)
  {current : Node}

include forest blind

/-- The new declaration comes after the old candidates, if it is a candidate. -/
theorem candidates_extended (current : Node) :
    (call.extended decl).candidates (call.gained decl current) =
      (call.candidates current).map (call.gained decl) ++
        if call.isCandidate current (call.registry.newNode decl) then
          [call.registry.newNode decl] else [] := by
  have hnode : ∀ node, (call.extended decl).isCandidate (call.gained decl current)
      (call.gained decl node) = call.isCandidate current node := by
    intro node
    have hviable := blind.viable_gaining decl call.registry.nextId node call.arguments
    rw [Bool.eq_iff_iff, isCandidate_iff, isCandidate_iff]
    simp only [extended, ClassSet.Sees, Node.decl_gaining, Node.id_gaining]
    rw [hviable]
  have hnew : (call.extended decl).isCandidate (call.gained decl current)
      (call.registry.newNode decl) = call.isCandidate current (call.registry.newNode decl) := by
    rw [Bool.eq_iff_iff, isCandidate_iff, isCandidate_iff]
    simp only [extended, Node.id_gaining]
  have hcomp : (call.extended decl).isCandidate (call.gained decl current) ∘
      call.gained decl = call.isCandidate current := funext hnode
  rw [candidates, extended, forest.all_add, List.filter_append, List.filter_map]
  rw [extended] at hcomp hnew
  rw [hcomp, List.filter_singleton, hnew, cond_eq_ite]
  rfl

theorem candidates_extended_of_other
    (other : call.isCandidate current (call.registry.newNode decl) = false) :
    (call.extended decl).candidates (call.gained decl current) =
      (call.candidates current).map (call.gained decl) := by
  rw [candidates_extended forest blind, other, if_neg Bool.false_ne_true, List.append_nil]

/-- Where the new declaration is no candidate, the call does what it did. -/
theorem mirrors_extended
    (other : call.isCandidate current (call.registry.newNode decl) = false) :
    call.Mirrors (call.extended decl) id (call.gained decl) current where
  listed := by
    rw [candidates_extended_of_other forest blind other]
  renamed node _ := Node.id_gaining decl _ node
  picks _ := by
    rw [candidates_extended_of_other forest blind other]
    have hpick := blind.pick_gaining decl call.registry.nextId (call.candidates current)
      call.arguments
    rw [Option.map_id]
    exact hpick
  faithful answer _ node _ h := h

/-- A chain that ends away from the new declaration settles as it did. -/
theorem Settles.extended {entry : Node} {below : List Node}
    {result : Except CallError Resolution} (settles : call.Settles entry below result)
    (other : call.isCandidate (below.getLastD entry) (call.registry.newNode decl) = false) :
    (call.extended decl).Settles (call.gained decl entry) (below.map (call.gained decl))
      result := by
  have hlast : (below.map (call.gained decl)).getLastD (call.gained decl entry) =
      call.gained decl (below.getLastD entry) := List.getLastD_map
  have hcandidates := candidates_extended_of_other forest blind other
  have hpick : (call.extended decl).oracle.pick ((call.candidates (below.getLastD entry)).map
      (call.gained decl)) (call.extended decl).arguments =
        call.oracle.pick (call.candidates (below.getLastD entry)) call.arguments :=
    blind.pick_gaining decl _ _ _
  cases settles with
  | selected last done body =>
    subst last
    have h : (call.extended decl).Settles (call.gained decl entry)
        (below.map (call.gained decl)) _ :=
      .selected hlast (by rw [hcandidates, done, List.map_nil]) (by rw [Node.decl_gaining, body])
    rw [Node.id_gaining, ← List.map_cons, Node.map_id_gaining] at h
    exact h
  | withoutBody last done pureEnd =>
    subst last
    have h : (call.extended decl).Settles (call.gained decl entry)
        (below.map (call.gained decl)) _ :=
      .withoutBody hlast (by rw [hcandidates, done, List.map_nil])
        (by rw [Node.decl_gaining, pureEnd])
    rw [Node.id_gaining, Node.displayName_gaining, Node.displayName_gaining] at h
    exact h
  | ambiguous last several unanswered =>
    subst last
    have h : (call.extended decl).Settles (call.gained decl entry)
        (below.map (call.gained decl)) _ :=
      .ambiguous hlast (by rw [hcandidates, List.length_map]; exact several)
        (by rw [hcandidates, hpick, unanswered])
    rw [hcandidates, Node.id_gaining, Node.displayName_gaining, Node.map_id_gaining,
      Node.map_displayName_gaining] at h
    exact h
  | @invalid parent answer last several answered stranger =>
    subst last
    have hstranger : ∀ node ∈ (call.extended decl).candidates
        (call.gained decl (below.getLastD entry)), node.id ≠ answer := by
      rw [hcandidates]
      intro node hnode
      obtain ⟨old, hold, rfl⟩ := List.mem_map.1 hnode
      rw [Node.id_gaining]
      exact stranger old hold
    have h : (call.extended decl).Settles (call.gained decl entry)
        (below.map (call.gained decl)) _ :=
      .invalid hlast (by rw [hcandidates, List.length_map]; exact several)
        (by rw [hcandidates, hpick, answered]) hstranger
    rw [Node.id_gaining, Node.displayName_gaining] at h
    exact h

end Extended

/-! ## Below the parent of the new declaration -/

section Parent

variable (forest : call.registry.IsForest) (admits : call.registry.Admits conversions decl)
  (blind : call.oracle.IgnoresOverrides)

theorem isCandidate_newNode_of_ne {current : Node} (h : decl.parent ≠ some current.id) :
    call.isCandidate current (call.registry.newNode decl) = false := by
  refine Bool.eq_false_iff.2 fun hcandidate => h ?_
  have hparent := (isCandidate_iff.1 hcandidate).1
  rw [Registry.decl_newNode] at hparent
  exact hparent

include forest

theorem candidates_extended_parent (blind : call.oracle.IgnoresOverrides) {parent : Node}
    (accepted : call.isCandidate parent (call.registry.newNode decl) = true) :
    (call.extended decl).candidates (call.gained decl parent) =
      (call.candidates parent).map (call.gained decl) ++ [call.registry.newNode decl] := by
  rw [candidates_extended forest blind, if_pos accepted]

/-- With the new declaration the other candidates are several. -/
theorem two_le_candidates_extended (blind : call.oracle.IgnoresOverrides) {parent : Node}
    (accepted : call.isCandidate parent (call.registry.newNode decl) = true)
    (others : call.candidates parent ≠ []) :
    2 ≤ ((call.extended decl).candidates (call.gained decl parent)).length := by
  have hpositive := List.length_pos_of_ne_nil others
  rw [candidates_extended_parent forest blind accepted, List.length_append, List.length_map,
    List.length_singleton]
  omega

/-- Up to the parent of the new declaration the call goes as before. -/
theorem maximalChain_extended (blind : call.oracle.IgnoresOverrides) {entry : Node}
    {upto onwards : List Node} (links : (entry :: upto).IsChain call.TakesOver)
    (hparent : decl.parent = some (upto.getLastD entry).id)
    (chain : (call.extended decl).MaximalChain (call.gained decl (upto.getLastD entry)) onwards) :
    (call.extended decl).MaximalChain (call.gained decl entry)
      (upto.map (call.gained decl) ++ onwards) := by
  have hordered := pairwise_of_isChain forest links
  rw [← dropLast_append_getLastD entry upto, List.pairwise_append] at hordered
  have hmirrors : ∀ current ∈ (entry :: upto).dropLast,
      call.Mirrors (call.extended decl) id (call.gained decl) current := by
    intro current hcurrent
    refine mirrors_extended forest blind (isCandidate_newNode_of_ne fun hsame => ?_)
    -- the parent of the new declaration comes later than all that leads to it
    have hlt := hordered.2.2 current hcurrent _ (List.mem_singleton.2 rfl)
    rw [Option.some.inj (hsame.symm.trans hparent)] at hlt
    exact Nat.lt_irrefl _ hlt
  exact mirror_upto links hmirrors chain

/-- Below the candidates beside the new declaration, the new one is nowhere a candidate. -/
theorem isCandidate_newNode_below {parent next : Node} {rest : List Node}
    (hparent : decl.parent = some parent.id) (candidate : next ∈ call.candidates parent)
    (chain : call.MaximalChain next rest) :
    ∀ current ∈ next :: rest, call.isCandidate current (call.registry.newNode decl) = false := by
  intro current hcurrent
  refine isCandidate_newNode_of_ne fun hsame => ?_
  obtain ⟨hnext, hbelow, -⟩ := mem_candidates.1 candidate
  have hlt := forest.parent next hnext parent.id hbelow
  -- the parent of the new declaration comes before all that its candidates lead to
  rw [← Option.some.inj (hsame.symm.trans hparent)] at hlt
  rcases List.mem_cons.1 hcurrent with rfl | hmem
  · exact Nat.lt_irrefl _ hlt
  · have hlater := List.rel_of_pairwise_cons (pairwise_of_isChain forest chain.links) hmem
    exact Nat.lt_asymm hlt hlater

include admits

/-- Nothing overrides the new declaration yet. -/
theorem candidates_newNode :
    (call.extended decl).candidates (call.registry.newNode decl) = [] := by
  refine List.filter_eq_nil_iff.2 fun node hnode hcandidate => ?_
  have hmem := mem_candidates.1 (List.mem_filter.2 ⟨hnode, hcandidate⟩)
  have hparent := hmem.2.1
  rw [Registry.id_newNode] at hparent
  rcases forest.mem_all_add.1 hnode with ⟨old, hold, rfl⟩ | rfl
  · rw [Node.decl_gaining] at hparent
    exact forest.parent_ne_nextId admits.room hold hparent
  · rw [Registry.decl_newNode] at hparent
    exact admits.parent_ne_nextId forest hparent

include blind

/-- The host is asked about the old candidates and the new one. -/
theorem pick_extended_parent {parent : Node}
    (accepted : call.isCandidate parent (call.registry.newNode decl) = true) :
    (call.extended decl).oracle.pick ((call.extended decl).candidates (call.gained decl parent))
        (call.extended decl).arguments =
      call.oracle.pick (call.candidates parent ++ [call.registry.newNode decl])
        call.arguments := by
  have hself : call.gained decl (call.registry.newNode decl) = call.registry.newNode decl := by
    rw [gained, Node.gaining, Registry.id_newNode, if_neg (admits.parent_ne_nextId forest)]
  have hoffered : (call.candidates parent).map (call.gained decl) ++
      [call.registry.newNode decl] = (call.candidates parent ++ [call.registry.newNode decl]).map
        (call.gained decl) := by
    rw [List.map_append, List.map_singleton, hself]
  rw [candidates_extended_parent forest blind accepted, hoffered]
  exact blind.pick_gaining decl _ _ _

/-- The new declaration takes over where it is the only candidate, or the one that the host
picks. -/
theorem takesOver_newNode {parent : Node}
    (accepted : call.isCandidate parent (call.registry.newNode decl) = true)
    (first : call.candidates parent = [] ∨
      call.oracle.pick (call.candidates parent ++ [call.registry.newNode decl]) call.arguments =
        some (call.registry.newNode decl).id) :
    (call.extended decl).TakesOver (call.gained decl parent) (call.registry.newNode decl) := by
  have hcandidates := candidates_extended_parent forest blind accepted
  by_cases hnone : call.candidates parent = []
  · rw [hnone, List.map_nil, List.nil_append] at hcandidates
    exact .only hcandidates
  · refine .picked (two_le_candidates_extended forest blind accepted hnone) ?_ ?_
    · rw [hcandidates]
      exact List.mem_append_right _ (List.mem_singleton.2 rfl)
    · rw [pick_extended_parent forest admits blind accepted]
      exact first.resolve_left hnone

/-- Where the new declaration takes over, the chain ends there: it has no overrides yet. -/
theorem maximalChain_newNode {entry : Node} {upto : List Node}
    (links : (entry :: upto).IsChain call.TakesOver)
    (hparent : decl.parent = some (upto.getLastD entry).id)
    (accepted : call.isCandidate (upto.getLastD entry) (call.registry.newNode decl) = true)
    (first : call.candidates (upto.getLastD entry) = [] ∨
      call.oracle.pick (call.candidates (upto.getLastD entry) ++ [call.registry.newNode decl])
        call.arguments = some (call.registry.newNode decl).id) :
    (call.extended decl).MaximalChain (call.gained decl entry)
      (upto.map (call.gained decl) ++ [call.registry.newNode decl]) := by
  have stuck : ∀ next, ¬(call.extended decl).TakesOver (call.registry.newNode decl) next :=
    fun next => not_takesOver_of_nil (candidates_newNode forest admits)
  refine maximalChain_extended forest blind links hparent (MaximalChain.cons_iff.2 ⟨?_, ?_⟩)
  · exact takesOver_newNode forest admits blind accepted first
  · exact MaximalChain.nil_iff.2 stuck

/-- **The call after the registration** goes to the parent of the new declaration as before,
and ends as the candidates there, with the new one among them, let it end. -/
theorem Joined.extended {entry : Node} {upto : List Node}
    {result : Except CallError Resolution} (links : (entry :: upto).IsChain call.TakesOver)
    (hparent : decl.parent = some (upto.getLastD entry).id)
    (accepted : call.isCandidate (upto.getLastD entry) (call.registry.newNode decl) = true)
    (joined : call.Joined (call.registry.newNode decl) entry upto result) :
    ∃ below, (call.extended decl).MaximalChain (call.gained decl entry) below ∧
      (call.extended decl).Settles (call.gained decl entry) below result := by
  have hcandidates := candidates_extended_parent forest blind accepted
  have hpick := pick_extended_parent forest admits blind accepted
  have honwards : ∀ {onwards : List Node},
      (call.extended decl).MaximalChain (call.gained decl (upto.getLastD entry)) onwards →
        (call.extended decl).MaximalChain (call.gained decl entry)
          (upto.map (call.gained decl) ++ onwards) :=
    fun chain => maximalChain_extended forest blind links hparent chain
  have several : call.candidates (upto.getLastD entry) ≠ [] →
      2 ≤ ((call.extended decl).candidates (call.gained decl (upto.getLastD entry))).length :=
    two_le_candidates_extended forest blind accepted
  have hnew : (call.candidates (upto.getLastD entry) = [] ∨
      call.oracle.pick (call.candidates (upto.getLastD entry) ++ [call.registry.newNode decl])
        call.arguments = some (call.registry.newNode decl).id) →
      (call.extended decl).MaximalChain (call.gained decl entry)
        (upto.map (call.gained decl) ++ [call.registry.newNode decl]) :=
    maximalChain_newNode forest admits blind links hparent accepted
  have hstuck : (∀ next, ¬(call.extended decl).TakesOver
      (call.gained decl (upto.getLastD entry)) next) →
      (call.extended decl).MaximalChain (call.gained decl entry)
        (upto.map (call.gained decl)) := by
    intro stuck
    have hchain := honwards (MaximalChain.nil_iff.2 stuck)
    rwa [List.append_nil] at hchain
  cases joined with
  | selected last first body =>
    subst last
    refine ⟨_, hnew first, ?_⟩
    have h : (call.extended decl).Settles (call.gained decl entry)
        (upto.map (call.gained decl) ++ [call.registry.newNode decl]) _ :=
      .selected List.getLastD_concat (candidates_newNode forest admits) body
    rw [← List.cons_append, ← List.map_cons, List.map_append, Node.map_id_gaining,
      ← List.map_append] at h
    exact h
  | withoutBody last first pureEnd =>
    subst last
    refine ⟨_, hnew first, ?_⟩
    have h : (call.extended decl).Settles (call.gained decl entry)
        (upto.map (call.gained decl) ++ [call.registry.newNode decl]) _ :=
      .withoutBody List.getLastD_concat (candidates_newNode forest admits) pureEnd
    rw [Node.displayName_gaining] at h
    exact h
  | @passedOn _ next rest _ last candidate answer chain settles =>
    subst last
    have htakes : (call.extended decl).TakesOver (call.gained decl (upto.getLastD entry))
        (call.gained decl next) := by
      refine .picked (several (List.ne_nil_of_mem candidate)) ?_ ?_
      · rw [hcandidates]
        exact List.mem_append_left _ (List.mem_map_of_mem candidate)
      · rw [hpick, Node.id_gaining]
        exact answer
    have hother := isCandidate_newNode_below forest hparent candidate chain
    have hrest : (call.extended decl).MaximalChain (call.gained decl next)
        (rest.map (call.gained decl)) :=
      chain.mirror fun current hcurrent => mirrors_extended forest blind (hother current hcurrent)
    have hchain := honwards (MaximalChain.cons_iff.2 ⟨htakes, hrest⟩)
    rw [← List.map_cons, ← List.map_append] at hchain
    refine ⟨_, hchain, settles.extended forest blind ?_⟩
    rw [getLastD_append_cons]
    exact hother _ List.getLastD_mem_cons
  | ambiguous last others unanswered =>
    subst last
    have stuck := not_takesOver_of_unanswered (several others) (hpick.trans unanswered)
    refine ⟨_, hstuck stuck, ?_⟩
    have h : (call.extended decl).Settles (call.gained decl entry)
        (upto.map (call.gained decl)) _ :=
      .ambiguous List.getLastD_map (several others) (hpick.trans unanswered)
    rw [Node.id_gaining, Node.displayName_gaining, hcandidates, List.map_append, List.map_append,
      Node.map_id_gaining, Node.map_displayName_gaining, ← List.map_append,
      ← List.map_append] at h
    exact h
  | @invalid _ answer last others answered stranger =>
    subst last
    have hstranger : ∀ node ∈ (call.extended decl).candidates
        (call.gained decl (upto.getLastD entry)), node.id ≠ answer := by
      intro node hnode
      rw [hcandidates] at hnode
      rcases List.mem_append.1 hnode with hold | hnew
      · obtain ⟨old, hmem, rfl⟩ := List.mem_map.1 hold
        rw [Node.id_gaining]
        exact stranger old (List.mem_append_left _ hmem)
      · exact stranger node (List.mem_append_right _ hnew)
    have hanswered := hpick.trans answered
    have stuck := (not_takesOver_iff (several others) hanswered).2 hstranger
    refine ⟨_, hstuck stuck, ?_⟩
    have h : (call.extended decl).Settles (call.gained decl entry)
        (upto.map (call.gained decl)) _ :=
      .invalid List.getLastD_map (several others) hanswered hstranger
    rw [Node.id_gaining, Node.displayName_gaining] at h
    exact h

end Parent

/-- With the new declaration among them, the candidates let the call end in one way. -/
theorem exists_joined (call : Call) (forest : call.registry.IsForest) (new entry : Node)
    (upto : List Node) : ∃ result, call.Joined new entry upto result := by
  have hnew : (call.candidates (upto.getLastD entry) = [] ∨ call.oracle.pick
      (call.candidates (upto.getLastD entry) ++ [new]) call.arguments = some new.id) →
      ∃ result, call.Joined new entry upto result := by
    intro first
    cases hpure : new.decl.isPure with
    | false => exact ⟨_, .selected rfl first hpure⟩
    | true => exact ⟨_, .withoutBody rfl first hpure⟩
  by_cases others : call.candidates (upto.getLastD entry) = []
  · exact hnew (Or.inl others)
  · cases hpick : (call.oracle.pick (call.candidates (upto.getLastD entry) ++ [new])
      call.arguments).run with
    | none => exact ⟨_, .ambiguous rfl others hpick⟩
    | some answer =>
      by_cases hnamed : ∃ node ∈ call.candidates (upto.getLastD entry) ++ [new], node.id = answer
      · obtain ⟨node, hnode, rfl⟩ := hnamed
        rcases List.mem_append.1 hnode with hold | hself
        · obtain ⟨rest, chain⟩ := call.exists_maximalChain forest (mem_candidates.1 hold).1
          have hlast := getLastD_append_cons upto node rest entry
          obtain ⟨result, settles⟩ := exists_settles (hlast ▸ chain.stuck)
          exact ⟨result, .passedOn rfl hold hpick chain settles⟩
        · rw [List.mem_singleton.1 hself] at hpick
          exact hnew (Or.inr hpick)
      · exact ⟨_, .invalid rfl others hpick fun node hnode hid => hnamed ⟨node, hnode, hid⟩⟩

end Call

namespace Registry

section Descends

variable {conversions : Conversions Id} {registry : Registry} (forest : registry.IsForest)
  {decl : Declaration} (admits : registry.Admits conversions decl) {oracle : Oracle Id}
  (blind : oracle.IgnoresOverrides) {classes : ClassHierarchy Id} {arguments : List HostType}
  {root : DeclId} {entry : Node} (registered : registry.node? root = some entry)
  (named : entry.decl.name ≠ none) (accepts : oracle.viable entry arguments = true)

include forest admits blind registered named accepts

variable (decl) in
omit forest admits registered in
/-- A call still may enter where it entered. -/
theorem enters_gaining : (entry.gaining decl registry.nextId).decl.name ≠ none ∧
    oracle.viable (entry.gaining decl registry.nextId) arguments = true := by
  rw [Node.decl_gaining]
  exact ⟨named, (blind.viable_gaining decl registry.nextId entry arguments).trans accepts⟩

/-- After the registration, too, a chain settles the call. -/
theorem resolve_add_of_settles {below : List Node} {result : Except CallError Resolution}
    (chain : ((registry.call oracle classes arguments).extended decl).MaximalChain
      (entry.gaining decl registry.nextId) below)
    (settles : ((registry.call oracle classes arguments).extended decl).Settles
      (entry.gaining decl registry.nextId) below result) :
    outcome ((registry.add decl).resolve oracle classes root arguments) = result := by
  obtain ⟨hname, hviable⟩ := enters_gaining decl blind named accepts
  exact resolve_of_settles (forest.add admits) (forest.node?_add admits registered) hname hviable
    chain settles

/-- A call that meets the new declaration nowhere ends as before. -/
theorem resolve_add_of_nowhere {below : List Node}
    (chain : (registry.call oracle classes arguments).MaximalChain entry below)
    (nowhere : ∀ current ∈ entry :: below, (registry.call oracle classes arguments).isCandidate
      current (registry.newNode decl) = false) :
    outcome ((registry.add decl).resolve oracle classes root arguments) =
      outcome (registry.resolve oracle classes root arguments) := by
  have settles := (resolve_iff_settles forest registered named accepts chain).1 rfl
  have hmirrors := fun current hcurrent =>
    Call.mirrors_extended forest blind (nowhere current hcurrent)
  exact resolve_add_of_settles forest admits blind registered named accepts
    (chain.mirror hmirrors) (settles.extended forest blind (nowhere _ List.getLastD_mem_cons))

/-- A call that comes to the parent of the new declaration ends as the candidates there let it
end. -/
theorem resolve_add_iff_joined {upto : List Node}
    (links : (entry :: upto).IsChain (registry.call oracle classes arguments).TakesOver)
    (hparent : decl.parent = some (upto.getLastD entry).id)
    (accepted : (registry.call oracle classes arguments).isCandidate (upto.getLastD entry)
      (registry.newNode decl) = true) {result : Except CallError Resolution} :
    outcome ((registry.add decl).resolve oracle classes root arguments) = result ↔
      (registry.call oracle classes arguments).Joined (registry.newNode decl) entry upto
        result := by
  have hjoined : ∀ {result : Except CallError Resolution},
      (registry.call oracle classes arguments).Joined (registry.newNode decl) entry upto result →
        outcome ((registry.add decl).resolve oracle classes root arguments) = result := by
    intro result joined
    obtain ⟨below, chain, settles⟩ :=
      joined.extended forest admits blind links hparent accepted
    exact resolve_add_of_settles forest admits blind registered named accepts chain settles
  constructor
  · rintro rfl
    obtain ⟨result, joined⟩ := (registry.call oracle classes arguments).exists_joined forest
      (registry.newNode decl) entry upto
    rw [hjoined joined]
    exact joined
  · exact hjoined

/-- A call that stopped at the parent of the new declaration for want of candidates goes one
further. -/
theorem resolve_add_of_stopped {below : List Node}
    (chain : (registry.call oracle classes arguments).MaximalChain entry below)
    (hparent : decl.parent = some (below.getLastD entry).id)
    (accepted : (registry.call oracle classes arguments).isCandidate (below.getLastD entry)
      (registry.newNode decl) = true)
    (done : (registry.call oracle classes arguments).candidates (below.getLastD entry) = []) :
    (∃ visited, (registry.add decl).Visits oracle classes root arguments visited ∧
      visited.map (·.id) = (entry :: below).map (·.id) ++ [registry.nextId]) ∧
    (decl.isPure = false → outcome ((registry.add decl).resolve oracle classes root arguments) =
      .ok {
        target := registry.nextId
        path := (entry :: below).map (·.id) ++ [registry.nextId]
        associated := (classes.associated arguments).run }) ∧
    (decl.isPure = true → outcome ((registry.add decl).resolve oracle classes root arguments) =
      .error (.noViableCandidate entry.displayName arguments
        (.pureWithoutOverride registry.nextId (registry.newNode decl).displayName))) := by
  obtain ⟨hname, hviable⟩ := enters_gaining decl blind named accepts
  have hchain := Call.maximalChain_newNode forest admits blind chain.links hparent accepted
    (Or.inl done)
  have hjoined : ∀ {result : Except CallError Resolution},
      (registry.call oracle classes arguments).Joined (registry.newNode decl) entry below result →
        outcome ((registry.add decl).resolve oracle classes root arguments) = result :=
    (resolve_add_iff_joined forest admits blind registered named accepts chain.links hparent
      accepted).2
  refine ⟨⟨_, .descends (forest.node?_add admits registered) hname hviable hchain, ?_⟩,
    fun hbody => ?_, fun hpure => ?_⟩
  · show ((entry :: below).map (Node.gaining decl registry.nextId) ++
      [registry.newNode decl]).map (·.id) = _
    rw [List.map_append, Node.map_id_gaining, List.map_singleton, id_newNode]
  · have h := hjoined (.selected rfl (Or.inl done) (by rw [decl_newNode, hbody]))
    rw [List.map_append, List.map_singleton, id_newNode] at h
    exact h
  · have h := hjoined (.withoutBody rfl (Or.inl done) (by rw [decl_newNode, hpure]))
    rw [id_newNode] at h
    exact h

end Descends

/-- **What one more declaration does to a call.**  Let a reachable registry accept a
declaration as `new`, and compare a call before and after, for a host that does not look at
overrides.

If the host rejects `new`, or the call does not see `new`, or the call does not visit the
parent of `new`, then the outcome is the same.  If the call stopped at the parent for want of
candidates, then it goes one further, to `new`.  Wherever the call visits the parent, `new`
joins the candidates there, and this decides the outcome. -/
theorem resolve_add {conversions : Conversions Id} {registry grown : Registry}
    (reachable : registry.Reachable conversions) {decl : Declaration} {id : DeclId}
    (accepted : outcome (registry.register conversions decl) = .ok (id, grown))
    {oracle : Oracle Id} (blind : oracle.IgnoresOverrides) (classes : ClassHierarchy Id)
    {root : DeclId} {entry : Node} (registered : registry.node? root = some entry)
    (arguments : List HostType) :
    ∃ new visited, grown.node? id = some new ∧
      registry.Visits oracle classes root arguments visited ∧
      ((oracle.viable new arguments = false ∨
          ¬(classes.associated arguments).run.Sees new ∨
            ∀ node ∈ visited, decl.parent ≠ some node.id) →
        outcome (grown.resolve oracle classes root arguments) =
          outcome (registry.resolve oracle classes root arguments)) ∧
      (oracle.viable new arguments = true → (classes.associated arguments).run.Sees new →
        (∀ below, visited = entry :: below → decl.parent = some (below.getLastD entry).id →
          (registry.call oracle classes arguments).candidates (below.getLastD entry) = [] →
          (∃ visited', grown.Visits oracle classes root arguments visited' ∧
            visited'.map (·.id) = visited.map (·.id) ++ [id]) ∧
          (decl.isPure = false → outcome (grown.resolve oracle classes root arguments) =
            .ok {
              target := id
              path := visited.map (·.id) ++ [id]
              associated := (classes.associated arguments).run }) ∧
          (decl.isPure = true → outcome (grown.resolve oracle classes root arguments) =
            .error (.noViableCandidate entry.displayName arguments
              (.pureWithoutOverride id new.displayName)))) ∧
        ∀ upto, (entry :: upto) <+: visited → decl.parent = some (upto.getLastD entry).id →
          ∀ result, outcome (grown.resolve oracle classes root arguments) = result ↔
            (registry.call oracle classes arguments).Joined new entry upto result) := by
  obtain ⟨admits, rfl, rfl⟩ := (registry.register_eq_ok_iff conversions decl id grown).1 accepted
  have forest : registry.IsForest := reachable.isForest
  have hnew : (registry.add decl).node? registry.nextId = some (registry.newNode decl) :=
    (forest.add admits).node?_eq_some_iff.2
      ⟨forest.mem_all_add.2 (Or.inr rfl), registry.id_newNode decl⟩
  have hgrown := forest.node?_add admits registered
  have hviable := blind.viable_gaining decl registry.nextId entry arguments
  have hnil : ∀ upto, ¬(entry :: upto) <+: [] := fun upto h => nomatch List.prefix_nil.1 h
  rcases resolve_cases forest oracle classes arguments registered with
    ⟨hnone, hout⟩ | ⟨hsome, hrejects, hout⟩ | ⟨hsome, haccepts, below, chain, -⟩
  · refine ⟨_, [], hnew, .turnedAway registered (Or.inl hnone), fun _ => ?_,
      fun _ _ => ⟨fun _ h => (nomatch h), fun upto h => absurd h (hnil upto)⟩⟩
    rw [hout, resolve_of_unnamed hgrown (by rw [Node.decl_gaining, hnone]), Node.id_gaining,
      (forest.node?_eq_some_iff.1 registered).2]
  · refine ⟨_, [], hnew, .turnedAway registered (Or.inr hrejects), fun _ => ?_,
      fun _ _ => ⟨fun _ h => (nomatch h), fun upto h => absurd h (hnil upto)⟩⟩
    rw [hout, resolve_of_rejected hgrown (by rw [Node.decl_gaining]; exact hsome)
      (hviable.trans hrejects), Node.displayName_gaining]
  · refine ⟨_, entry :: below, hnew, .descends registered hsome haccepts chain, fun hother => ?_,
      fun hnewAccepted hnewSeen => ?_⟩
    · refine resolve_add_of_nowhere forest admits blind registered hsome haccepts chain ?_
      intro current hcurrent
      refine Bool.eq_false_iff.2 fun hcandidate => ?_
      obtain ⟨hparent, hseen, haccepted⟩ := Call.isCandidate_iff.1 hcandidate
      rcases hother with hrejected | hhidden | hunvisited
      · exact Bool.false_ne_true (hrejected.symm.trans haccepted)
      · exact hhidden hseen
      · rw [decl_newNode] at hparent
        exact hunvisited current hcurrent hparent
    · have hcandidate : ∀ upto : List Node, decl.parent = some (upto.getLastD entry).id →
          (registry.call oracle classes arguments).isCandidate (upto.getLastD entry)
            (registry.newNode decl) = true := by
        intro upto hparent
        refine Call.isCandidate_iff.2 ⟨?_, hnewSeen, hnewAccepted⟩
        rw [decl_newNode]
        exact hparent
      refine ⟨fun below' hbelow hparent hdone => ?_, fun upto hupto hparent result => ?_⟩
      · cases hbelow
        exact resolve_add_of_stopped forest admits blind registered hsome haccepts chain hparent
          (hcandidate below hparent) hdone
      · have hlinks := List.IsChain.prefix chain.links hupto
        exact resolve_add_iff_joined forest admits blind registered hsome haccepts hlinks hparent
          (hcandidate upto hparent)

theorem ignoresOverrides_latestFirst : latestFirst.IgnoresOverrides where
  viable _ _ _ := rfl
  pick candidates overrides _ := by
    show (candidates.map fun node => { node with overrides := overrides node }).getLast?.map
      (fun node => node.id) = candidates.getLast?.map (·.id)
    rw [List.getLast?_map, Option.map_map]
    rfl

/-- In the sample the call stops at the last declaration, and goes on to a new override of it.
It does not go on to a friend that it does not see, nor to an override of a declaration that it
does not visit. -/
theorem resolve_add_sampleTree :
    let registry := empty.run .identity sampleTree
    let outcomeWith (decl : Declaration) : Except CallError Resolution :=
      outcome ((registry.add decl).resolve latestFirst ⟨fun _ => [], fun _ => none⟩ ⟨0⟩ [])
    outcomeWith { space := .global, parent := some ⟨4⟩ } =
      .ok { target := ⟨5⟩, path := [⟨0⟩, ⟨3⟩, ⟨4⟩, ⟨5⟩], associated := .empty } ∧
    outcomeWith
        { space := .global, parent := some ⟨4⟩, friendOf := some ⟨⟨7⟩, .classType, "K"⟩ } =
      .ok { target := ⟨4⟩, path := [⟨0⟩, ⟨3⟩, ⟨4⟩], associated := .empty } ∧
    outcomeWith { space := .global, parent := some ⟨1⟩ } =
      .ok { target := ⟨4⟩, path := [⟨0⟩, ⟨3⟩, ⟨4⟩], associated := .empty } := by
  intro registry outcomeWith
  have reachable : registry.Reachable .identity := ⟨sampleTree, rfl⟩
  have registered : registry.node? ⟨0⟩ = some _ := rfl
  have before : outcome (registry.resolve latestFirst ⟨fun _ => [], fun _ => none⟩ ⟨0⟩ []) =
      .ok { target := ⟨4⟩, path := [⟨0⟩, ⟨3⟩, ⟨4⟩], associated := .empty } := rfl
  refine ⟨?_, ?_, ?_⟩
  · have accepted : outcome (registry.register .identity { space := .global, parent := some ⟨4⟩ }) =
        .ok (⟨5⟩, _) := rfl
    obtain ⟨new, visited, hnew, visits, -, joins⟩ := resolve_add reachable accepted
      ignoresOverrides_latestFirst ⟨fun _ => [], fun _ => none⟩ registered []
    have hpath := visits.path_eq reachable.isForest before
    cases hnew
    cases visits with
    | turnedAway _ _ => exact nomatch hpath
    | @descends entry below again named accepts chain =>
      obtain rfl := Option.some.inj (again.symm.trans registered)
      obtain ⟨done, -, hresolution⟩ := ((resolve_iff_settles reachable.isForest again named accepts
        chain).1 before).of_ok
      have htarget := congrArg Resolution.target hresolution
      have hstopped := (joins rfl (Or.inl rfl)).1 below rfl (congrArg some htarget) done
      refine (hstopped.2.1 rfl).trans ?_
      rw [← hpath]
      rfl
  · have accepted : outcome (registry.register .identity
        { space := .global, parent := some ⟨4⟩, friendOf := some ⟨⟨7⟩, .classType, "K"⟩ }) =
        .ok (⟨5⟩, _) := rfl
    obtain ⟨new, visited, hnew, -, unchanged, -⟩ := resolve_add reachable accepted
      ignoresOverrides_latestFirst ⟨fun _ => [], fun _ => none⟩ registered []
    cases hnew
    exact (unchanged (Or.inr (Or.inl (by decide)))).trans before
  · have accepted : outcome (registry.register .identity { space := .global, parent := some ⟨1⟩ }) =
        .ok (⟨5⟩, _) := rfl
    obtain ⟨new, visited, -, visits, unchanged, -⟩ := resolve_add reachable accepted
      ignoresOverrides_latestFirst ⟨fun _ => [], fun _ => none⟩ registered []
    have hpath := visits.path_eq reachable.isForest before
    refine (unchanged (Or.inr (Or.inr fun node hnode hparent => ?_))).trans before
    have hvisited := List.mem_map_of_mem (f := (·.id)) hnode
    rw [← hpath, ← Option.some.inj hparent] at hvisited
    exact absurd hvisited (by decide)

end Registry

end CustomizationPoints
