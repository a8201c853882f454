import CustomizationPoints.Call.Descent
import CustomizationPoints.Proofs.PlainHost
import CustomizationPoints.Proofs.Registry.Forest
import Mathlib.Data.List.Chain

/-!
# The chain of a call

Where a call goes can be said without the loop that finds it.  Below every declaration there
are the *candidates*: the registered overrides of it that the call sees and that accept its
arguments.  One of them *takes over* if it is the only one, or if the host picks
it out of several.  Following this relation from the entry as far as it leads gives a chain,
and the descent is exactly this chain.

## What has to be shown

The relation reads the parents of the registered declarations, and the descent reads the
stored lists of overrides.  In a forest the two give the same candidates in the same order
(`run_candidates`), so the relation is one step of the descent (`takesOver_iff_step`).

One declaration is taken over by one other at most, so the chain is unique.  Identities grow
along it, so it is shorter than the registry is large, and the bound of the descent is never
the reason for its end (`descend_eq`).
-/

namespace CustomizationPoints

/-- The end of a list does not depend on what stands before one of its members. -/
theorem getLastD_append_cons {α : Type} (before : List α) (next : α) (rest : List α) (a : α) :
    (before ++ next :: rest).getLastD a = rest.getLastD next := by
  induction before generalizing a with
  | nil => rw [List.nil_append, List.getLastD_cons]
  | cons b before ih => rw [List.cons_append, List.getLastD_cons, ih]

theorem dropLast_append_getLastD {α : Type} (a : α) (rest : List α) :
    (a :: rest).dropLast ++ [rest.getLastD a] = a :: rest := by
  rw [← List.getLast_eq_getLastD (List.cons_ne_nil a rest), List.dropLast_append_getLast]

/-- A call as the descent sees it, after its entry has accepted the arguments. -/
structure Call where
  registry : Registry
  oracle : Oracle Id
  associated : ClassSet
  arguments : List HostType

namespace Call

variable (call : Call)

/-- Whether the call could go from `current` to `node`: an override of it, which the call sees
and which accepts the arguments. -/
def isCandidate (current node : Node) : Bool :=
  node.decl.parent = some current.id && call.associated.Sees node &&
    call.oracle.viable node call.arguments

/-- The candidates below a declaration, in registration order. -/
def candidates (current : Node) : List Node := call.registry.all.filter (call.isCandidate current)

/-- One of the candidates takes over the call: the only one, or the one that the host picks
out of several. -/
inductive TakesOver (current next : Node) : Prop where
  | only (single : call.candidates current = [next])
  | picked (several : 2 ≤ (call.candidates current).length)
      (candidate : next ∈ call.candidates current)
      (answer : call.oracle.pick (call.candidates current) call.arguments = some next.id)

/-- The declarations `below` are those through which the call goes from `entry`, as far as
it goes. -/
structure MaximalChain (entry : Node) (below : List Node) : Prop where
  /-- Each declaration is taken over by the next one. -/
  links : List.IsChain call.TakesOver (entry :: below)
  /-- Nothing takes over the last one. -/
  stuck : ∀ next, ¬call.TakesOver (below.getLastD entry) next

/-- What the descent does at one declaration. -/
def step (current : Node) : Except CallError (Option Node) :=
  outcome (call.registry.stepDown call.oracle call.associated call.arguments current)

variable {call}

theorem isCandidate_iff {current node : Node} :
    call.isCandidate current node = true ↔ node.decl.parent = some current.id ∧
      call.associated.Sees node ∧ call.oracle.viable node call.arguments = true := by
  rw [isCandidate, Bool.and_eq_true, Bool.and_eq_true, decide_eq_true_eq, decide_eq_true_eq,
    and_assoc]

theorem mem_candidates {current node : Node} :
    node ∈ call.candidates current ↔ node ∈ call.registry.all ∧
      node.decl.parent = some current.id ∧ call.associated.Sees node ∧
        call.oracle.viable node call.arguments = true := by
  rw [candidates, List.mem_filter, isCandidate_iff]

/-- What takes over is a candidate. -/
theorem TakesOver.mem_candidates {current next : Node} (h : call.TakesOver current next) :
    next ∈ call.candidates current := by
  cases h with
  | only single => rw [single]; exact List.mem_singleton.2 rfl
  | picked _ candidate _ => exact candidate

theorem TakesOver.mem_all {current next : Node} (h : call.TakesOver current next) :
    next ∈ call.registry.all :=
  (Call.mem_candidates.1 h.mem_candidates).1

/-- Where nothing is a candidate, nothing takes over. -/
theorem not_takesOver_of_nil {current next : Node} (h : call.candidates current = []) :
    ¬call.TakesOver current next := by
  intro htakes
  have hmem := htakes.mem_candidates
  rw [h] at hmem
  exact List.not_mem_nil hmem

namespace MaximalChain

variable {entry next : Node} {below : List Node}

theorem nil_iff : call.MaximalChain entry [] ↔ ∀ next, ¬call.TakesOver entry next :=
  ⟨fun chain => chain.stuck, fun stuck => ⟨List.isChain_singleton entry, stuck⟩⟩

theorem cons_iff : call.MaximalChain entry (next :: below) ↔
    call.TakesOver entry next ∧ call.MaximalChain next below := by
  constructor
  · rintro ⟨links, stuck⟩
    rw [List.isChain_cons_cons] at links
    rw [List.getLastD_cons] at stuck
    exact ⟨links.1, links.2, stuck⟩
  · rintro ⟨htakes, links, stuck⟩
    refine ⟨List.isChain_cons_cons.2 ⟨htakes, links⟩, ?_⟩
    rw [List.getLastD_cons]
    exact stuck

/-- The chain from a declaration on a chain is the rest of it. -/
theorem rest {before after : List Node} {node : Node} (chain : call.MaximalChain entry below)
    (split : entry :: below = before ++ node :: after) : call.MaximalChain node after := by
  induction before generalizing entry below with
  | nil =>
    obtain ⟨rfl, rfl⟩ := List.cons.inj split
    exact chain
  | cons first before ih =>
    obtain ⟨rfl, rfl⟩ := List.cons.inj split
    cases before with
    | nil => exact (cons_iff.1 chain).2
    | cons next before => exact ih (cons_iff.1 chain).2 rfl

end MaximalChain

/-! ## One step -/

/-- Of several candidates the descent takes the one that the host names. -/
theorem choose_of_several {m : Type → Type} [Monad m] (oracle : Oracle m)
    (arguments : List HostType) (current : Node) {candidates : List Node}
    (several : 2 ≤ candidates.length) :
    oracle.choose arguments current candidates = (do
      match ← oracle.pick candidates arguments with
      | none =>
        throw (.ambiguousOverride current.id current.displayName arguments
          (candidates.map (·.id)) (candidates.map (·.displayName)))
      | some answer =>
        match candidates.find? fun node => node.id = answer with
        | none => throw (.invalidOracleAnswer current.id current.displayName answer)
        | some chosen => pure (some chosen)) := by
  obtain _ | ⟨first, _ | ⟨second, rest⟩⟩ := candidates
  · exact absurd several (by decide)
  · exact absurd several (by simp)
  · rfl

theorem outcome_choose (oracle : Oracle Id) (arguments : List HostType) (current : Node)
    {candidates : List Node} (h : 2 ≤ candidates.length) :
    outcome (oracle.choose arguments current candidates) =
      match (oracle.pick candidates arguments).run with
      | none => .error (.ambiguousOverride current.id current.displayName arguments
          (candidates.map (·.id)) (candidates.map (·.displayName)))
      | some answer =>
        match candidates.find? fun node => node.id = answer with
        | none => .error (.invalidOracleAnswer current.id current.displayName answer)
        | some chosen => .ok (some chosen) := by
  rw [choose_of_several oracle arguments current h, liftM_eq_lift, outcome_lift_bind]
  cases (oracle.pick candidates arguments).run with
  | none => rfl
  | some answer =>
    dsimp only
    cases candidates.find? fun node => decide (node.id = answer) <;> rfl

section Forest

variable (forest : call.registry.IsForest) {current next : Node}
  (hcurrent : current ∈ call.registry.all)

include forest hcurrent

/-- The stored overrides give the candidates, in their order. -/
theorem run_candidates : (call.registry.candidates call.oracle call.associated call.arguments
    current : Id (List Node)) = call.candidates current := by
  rw [Registry.candidates_id, Registry.visibleOverrides, forest.nodesOf_overrides hcurrent,
    List.filter_filter, List.filter_filter, candidates]
  refine List.filter_congr fun node _ => ?_
  rw [isCandidate, ClassSet.decide_sees, Bool.and_comm, Bool.and_comm (call.oracle.viable node call.arguments),
    Bool.and_assoc]

theorem step_eq : call.step current =
    outcome (call.oracle.choose call.arguments current (call.candidates current)) := by
  rw [step, Registry.stepDown, liftM_eq_lift, outcome_lift_bind, run_candidates forest hcurrent]
  rfl

theorem step_of_nil (h : call.candidates current = []) : call.step current = .ok none := by
  rw [step_eq forest hcurrent, h]
  rfl

theorem step_of_singleton (h : call.candidates current = [next]) :
    call.step current = .ok (some next) := by
  rw [step_eq forest hcurrent, h]
  rfl

theorem step_of_several (h : 2 ≤ (call.candidates current).length) :
    call.step current =
      match (call.oracle.pick (call.candidates current) call.arguments).run with
      | none => .error (.ambiguousOverride current.id current.displayName call.arguments
          ((call.candidates current).map (·.id)) ((call.candidates current).map (·.displayName)))
      | some answer =>
        match (call.candidates current).find? fun node => node.id = answer with
        | none => .error (.invalidOracleAnswer current.id current.displayName answer)
        | some chosen => .ok (some chosen) := by
  rw [step_eq forest hcurrent, outcome_choose call.oracle call.arguments current h]

omit hcurrent in
/-- The host's answer names a candidate exactly if a candidate has this identity. -/
theorem find?_candidates {answer : DeclId} :
    (call.candidates current).find? (fun node => decide (node.id = answer)) = some next ↔
      next ∈ call.candidates current ∧ next.id = answer :=
  forest.find?_id fun _ h => (mem_candidates.1 h).1

/-- **Taking over is one step of the descent.** -/
theorem takesOver_iff_step : call.TakesOver current next ↔ call.step current = .ok (some next) := by
  constructor
  · intro h
    cases h with
    | only single => exact step_of_singleton forest hcurrent single
    | picked several candidate answer =>
      rw [step_of_several forest hcurrent several, answer]
      dsimp only [Id.run]
      rw [(find?_candidates forest).2 ⟨candidate, rfl⟩]
  · intro h
    rcases hlist : call.candidates current with _ | ⟨first, _ | ⟨second, rest⟩⟩
    · rw [step_of_nil forest hcurrent hlist] at h
      exact nomatch h
    · rw [step_of_singleton forest hcurrent hlist] at h
      cases h
      exact .only hlist
    · have several : 2 ≤ (call.candidates current).length := by
        rw [hlist]
        simp
      rw [step_of_several forest hcurrent several] at h
      split at h
      next => exact nomatch h
      next answer hanswer =>
        split at h
        next => exact nomatch h
        next chosen hfound =>
          cases h
          obtain ⟨candidate, rfl⟩ := (find?_candidates forest).1 hfound
          exact .picked several candidate hanswer

/-- One declaration at most takes over. -/
theorem TakesOver.unique {other : Node} (h : call.TakesOver current next)
    (hother : call.TakesOver current other) : other = next := by
  rw [takesOver_iff_step forest hcurrent] at h hother
  rw [h] at hother
  exact (Option.some.inj (Except.ok.inj hother)).symm

omit hcurrent in
/-- Identities grow along the chain. -/
theorem TakesOver.position_lt (h : call.TakesOver current next) :
    current.id.position < next.id.position :=
  forest.parent next h.mem_all current.id (Call.mem_candidates.1 h.mem_candidates).2.1

end Forest

/-! ## The whole chain -/

/-- The chain from a registered declaration passes through registered ones. -/
theorem MaximalChain.mem_all {current : Node} {below : List Node}
    (chain : call.MaximalChain current below) : ∀ node ∈ below, node ∈ call.registry.all := by
  induction below generalizing current with
  | nil => exact fun node h => absurd h List.not_mem_nil
  | cons next rest ih =>
    obtain ⟨htakes, hrest⟩ := MaximalChain.cons_iff.1 chain
    intro node hnode
    rcases List.mem_cons.1 hnode with rfl | hmem
    · exact htakes.mem_all
    · exact ih hrest node hmem

theorem MaximalChain.last_mem_all {current : Node} {below : List Node}
    (hcurrent : current ∈ call.registry.all) (chain : call.MaximalChain current below) :
    below.getLastD current ∈ call.registry.all := by
  rcases below.eq_nil_or_concat' with rfl | ⟨before, last, rfl⟩
  · exact hcurrent
  · rw [List.getLastD_concat]
    exact chain.mem_all last (List.mem_append_right _ (List.mem_singleton.2 rfl))

section Forest

variable (forest : call.registry.IsForest)

include forest

/-- Along a chain the identities are in order. -/
theorem pairwise_of_isChain {nodes : List Node} (links : nodes.IsChain call.TakesOver) :
    nodes.Pairwise fun a b => a.id.position < b.id.position :=
  forest.pairwise_of_isChain (links.imp fun _ _ h =>
    ⟨h.mem_all, (mem_candidates.1 h.mem_candidates).2.1⟩)

/-- There are more declarations after an entry than its chain has. -/
theorem MaximalChain.length_lt {current : Node} {below : List Node}
    (hcurrent : current ∈ call.registry.all) (chain : call.MaximalChain current below) :
    current.id.position + below.length < call.registry.size := by
  induction below generalizing current with
  | nil => exact forest.position_lt hcurrent
  | cons next rest ih =>
    obtain ⟨htakes, hrest⟩ := MaximalChain.cons_iff.1 chain
    have hlt := htakes.position_lt forest
    have hlength := ih htakes.mem_all hrest
    rw [List.length_cons]
    omega

omit forest in
/-- **Every declaration has a chain.** -/
theorem exists_maximalChain (call : Call) (forest : call.registry.IsForest) {current : Node}
    (hcurrent : current ∈ call.registry.all) :
    ∃ below, call.MaximalChain current below := by
  -- on the number of declarations after `current`
  induction hleft : call.registry.size - current.id.position
    using Nat.strong_induction_on generalizing current with
  | _ left ih =>
    by_cases h : ∃ next, call.TakesOver current next
    · obtain ⟨next, htakes⟩ := h
      have hlt := htakes.position_lt forest
      have hsize := forest.position_lt htakes.mem_all
      obtain ⟨below, chain⟩ := ih (call.registry.size - next.id.position) (by omega)
        htakes.mem_all rfl
      exact ⟨next :: below, MaximalChain.cons_iff.2 ⟨htakes, chain⟩⟩
    · exact ⟨[], MaximalChain.nil_iff.2 fun next htakes => h ⟨next, htakes⟩⟩

/-- **A declaration has one chain only.** -/
theorem MaximalChain.unique {current : Node} {below other : List Node}
    (hcurrent : current ∈ call.registry.all) (chain : call.MaximalChain current below)
    (hother : call.MaximalChain current other) : other = below := by
  induction below generalizing current other with
  | nil =>
    cases other with
    | nil => rfl
    | cons next rest =>
      exact absurd (MaximalChain.cons_iff.1 hother).1 (MaximalChain.nil_iff.1 chain next)
  | cons next rest ih =>
    obtain ⟨htakes, hrest⟩ := MaximalChain.cons_iff.1 chain
    cases other with
    | nil => exact absurd htakes (MaximalChain.nil_iff.1 hother next)
    | cons next' rest' =>
      obtain ⟨htakes', hrest'⟩ := MaximalChain.cons_iff.1 hother
      obtain rfl := htakes.unique forest hcurrent htakes'
      rw [ih htakes.mem_all hrest hrest']

/-- **The descent follows the chain.**  At its last declaration it stops or fails. -/
theorem MaximalChain.descend_eq {current : Node} {below : List Node}
    (hcurrent : current ∈ call.registry.all) (chain : call.MaximalChain current below)
    {bound : Nat} (hbound : below.length < bound) :
    outcome (call.registry.descend call.oracle call.associated call.arguments bound current) =
      (call.step (below.getLastD current)).map fun _ => below := by
  induction below generalizing current bound with
  | nil =>
    obtain ⟨bound, rfl⟩ := Nat.exists_eq_add_one_of_ne_zero (Nat.ne_of_gt hbound)
    rw [Registry.descend, outcome_bind, List.getLastD_nil]
    cases hstep : call.step current with
    | error e => rw [step] at hstep; rw [hstep]; rfl
    | ok answer =>
      cases answer with
      | none => rw [step] at hstep; rw [hstep]; rfl
      | some next =>
        exact absurd ((takesOver_iff_step forest hcurrent).2 hstep)
          (MaximalChain.nil_iff.1 chain next)
  | cons next rest ih =>
    obtain ⟨htakes, hrest⟩ := MaximalChain.cons_iff.1 chain
    obtain ⟨bound, rfl⟩ :=
      Nat.exists_eq_add_one_of_ne_zero (Nat.ne_of_gt (Nat.zero_lt_of_lt hbound))
    have hlength : rest.length < bound := Nat.lt_of_succ_lt_succ hbound
    rw [Registry.descend, outcome_bind_of_ok ((takesOver_iff_step forest hcurrent).1 htakes),
      outcome_bind, ih htakes.mem_all hrest hlength, List.getLastD_cons]
    cases call.step (rest.getLastD next) <;> rfl

end Forest

end Call
end CustomizationPoints
