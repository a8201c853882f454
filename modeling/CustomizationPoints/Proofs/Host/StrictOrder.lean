import CustomizationPoints.Host.Rules
import CustomizationPoints.Proofs.Host.Pairwise
import Mathlib.Data.List.Nodup
import Mathlib.Data.Fintype.Card
import Mathlib.Data.Set.Finite.Basic

/-!
# Comparisons that are strict orders

A host that compares candidates two at a time answers with the unique maximal one, that is with
the only candidate that nothing outranks.  What it is asked for is the candidate that outranks all
others.  For an arbitrary comparison these are two things; for a strict order they are the same
(`uniqueMaximal_eq_some_iff`).

The step from one to the other is that nothing is lost below the top: among finitely many
candidates, everything is maximal or outranked by something that is (`exists_maximal_above`).  So
if one candidate is the only maximal one, then it outranks every other candidate.
-/

namespace CustomizationPoints

/-- The comparison is a strict order on these declarations. -/
structure OrdersStrictly (more : Node → Node → Bool) (nodes : List Node) : Prop where
  irrefl : ∀ a ∈ nodes, more a a = false
  trans : ∀ a ∈ nodes, ∀ b ∈ nodes, ∀ c ∈ nodes,
    more a b = true → more b c = true → more a c = true

/-- The declaration is more specialized than every other one. -/
def Dominates (more : Node → Node → Bool) (nodes : List Node) (winner : Node) : Prop :=
  ∀ other ∈ nodes, other.id ≠ winner.id → more winner other = true

namespace OrdersStrictly

variable {more : Node → Node → Bool} {nodes : List Node} (order : OrdersStrictly more nodes)

theorem mono {others : List Node} (order : OrdersStrictly more nodes)
    (h : ∀ node ∈ others, node ∈ nodes) : OrdersStrictly more others where
  irrefl a ha := order.irrefl a (h a ha)
  trans a ha b hb c hc := order.trans a (h a ha) b (h b hb) c (h c hc)

include order

/-- Nothing is outranked by something that it outranks. -/
theorem asymm {a b : Node} (ha : a ∈ nodes) (hb : b ∈ nodes) (h : more a b = true) :
    more b a = false := by
  by_contra hba
  have hself := order.trans a ha b hb a ha h (Bool.eq_true_of_not_eq_false hba)
  rw [order.irrefl a ha] at hself
  exact nomatch hself

/-- Going up from one declaration to a more specialized one comes to an end. -/
theorem wellFounded :
    WellFounded fun a b : {node // node ∈ nodes} => more a.val b.val = true := by
  have : Finite {node // node ∈ nodes} := (List.finite_toSet nodes).to_subtype
  have : IsTrans {node // node ∈ nodes} fun a b => more a.val b.val = true :=
    ⟨fun a b c => order.trans a.val a.property b.val b.property c.val c.property⟩
  have : Std.Irrefl fun a b : {node // node ∈ nodes} => more a.val b.val = true :=
    ⟨fun a h => by rw [order.irrefl a.val a.property] at h; exact nomatch h⟩
  exact Finite.wellFounded_of_trans_of_irrefl _

/-- **Everything is maximal or below something that is.** -/
theorem exists_maximal_above {node : Node} (h : node ∈ nodes) :
    ∃ top ∈ nodes, (top = node ∨ more top node = true) ∧
      ∀ other ∈ nodes, more other top = false := by
  -- on the declarations that are more specialized
  induction hmember : (⟨node, h⟩ : {node // node ∈ nodes}) using order.wellFounded.induction
    generalizing node with
  | _ member ih =>
    subst hmember
    by_cases hmaximal : ∀ other ∈ nodes, more other node = false
    · exact ⟨node, h, Or.inl rfl, hmaximal⟩
    · push Not at hmaximal
      obtain ⟨higher, hhigher, hmore⟩ := hmaximal
      have hmore : more higher node = true := Bool.eq_true_of_not_eq_false hmore
      obtain ⟨top, htop, hreaches, hnothing⟩ := ih ⟨higher, hhigher⟩ hmore hhigher rfl
      refine ⟨top, htop, Or.inr ?_, hnothing⟩
      rcases hreaches with rfl | hreaches
      · exact hmore
      · exact order.trans top htop higher hhigher node h hreaches hmore

end OrdersStrictly

/-- A host that goes by levels orders declarations strictly. -/
theorem ordersStrictly_level (nodes : List Node) :
    OrdersStrictly OrderRule.level.prefers nodes where
  irrefl _ _ := decide_eq_false (UInt32.lt_irrefl _)
  trans _ _ _ _ _ _ hab hbc :=
    decide_eq_true (UInt32.lt_trans (of_decide_eq_true hbc) (of_decide_eq_true hab))

section Maximal

variable {more : Node → Node → Id Bool} {nodes : List Node}
  (distinct : (nodes.map (·.id)).Nodup) (order : OrdersStrictly more nodes)

include distinct order

/-- The maximal declarations are those that nothing outranks. -/
theorem mem_maximal_iff {node : Node} : node ∈ (maximal (m := Id) more nodes).run ↔
    node ∈ nodes ∧ ∀ other ∈ nodes, more other node = false := by
  rw [maximal_id]
  refine List.mem_filter.trans (and_congr_right fun hnode => ?_)
  rw [Bool.not_eq_true', List.any_eq_false]
  refine forall_congr' fun other => forall_congr' fun hother => ?_
  by_cases hid : other.id = node.id
  · -- the declaration itself is passed over, and does not outrank itself
    obtain rfl := List.inj_on_of_nodup_map distinct hother hnode hid
    simp [order.irrefl other hother]
  · simp [hid]

/-- Among some declarations there is a maximal one. -/
theorem maximal_ne_nil (h : nodes ≠ []) : (maximal (m := Id) more nodes).run ≠ [] := by
  obtain ⟨node, hnode⟩ := List.exists_mem_of_ne_nil nodes h
  obtain ⟨top, htop, -, hnothing⟩ := order.exists_maximal_above hnode
  exact List.ne_nil_of_mem ((mem_maximal_iff distinct order).2 ⟨htop, hnothing⟩)

/-- **One declaration is the only maximal one exactly if it outranks all others.** -/
theorem maximal_eq_singleton_iff {winner : Node} :
    (maximal (m := Id) more nodes).run = [winner] ↔
      winner ∈ nodes ∧ Dominates more nodes winner := by
  constructor
  · intro h
    have hmem : ∀ {node : Node}, node ∈ nodes → (∀ other ∈ nodes, more other node = false) →
        node = winner := by
      intro node hnode hnothing
      have hmaximal := (mem_maximal_iff distinct order).2 ⟨hnode, hnothing⟩
      rw [h] at hmaximal
      exact List.mem_singleton.1 hmaximal
    have hwinner : winner ∈ (maximal (m := Id) more nodes).run := by
      rw [h]
      exact List.mem_singleton.2 rfl
    refine ⟨mem_of_mem_maximal more hwinner, fun other hother hid => ?_⟩
    obtain ⟨top, htop, hreaches, hnothing⟩ := order.exists_maximal_above hother
    obtain rfl := hmem htop hnothing
    exact hreaches.resolve_left fun hsame => hid (congrArg Node.id hsame.symm)
  · rintro ⟨hwinner, dominates⟩
    have hnodup : (maximal (m := Id) more nodes).run.Nodup := by
      rw [maximal_id]
      exact (List.Nodup.of_map _ distinct).filter _
    refine List.perm_singleton.1 ((List.perm_ext_iff_of_nodup hnodup
      (List.nodup_singleton winner)).2 fun node => ?_)
    rw [mem_maximal_iff distinct order, List.mem_singleton]
    constructor
    · rintro ⟨hnode, hnothing⟩
      by_contra hne
      have hid : node.id ≠ winner.id := fun hid =>
        hne (List.inj_on_of_nodup_map distinct hnode hwinner hid)
      have hmore := dominates node hnode hid
      rw [hnothing winner hwinner] at hmore
      exact nomatch hmore
    · rintro rfl
      refine ⟨hwinner, fun other hother => ?_⟩
      by_cases hid : other.id = node.id
      · obtain rfl := List.inj_on_of_nodup_map distinct hother hwinner hid
        exact order.irrefl other hother
      · exact order.asymm hwinner hother (dominates other hother hid)

/-- **The answer is the declaration that outranks all others.** -/
theorem uniqueMaximal_eq_some_iff {answer : DeclId} :
    uniqueMaximal (m := Id) more nodes = some answer ↔
      ∃ winner ∈ nodes, winner.id = answer ∧ Dominates more nodes winner := by
  rw [uniqueMaximal_id]
  constructor
  · intro h
    split at h
    next winner hmaximal =>
      obtain ⟨hwinner, dominates⟩ := (maximal_eq_singleton_iff distinct order).1 hmaximal
      exact ⟨winner, hwinner, Option.some.inj h, dominates⟩
    next => exact nomatch h
  · rintro ⟨winner, hwinner, rfl, dominates⟩
    rw [(maximal_eq_singleton_iff distinct order).2 ⟨hwinner, dominates⟩]

/-- Several declarations are maximal exactly if there is something to choose from and nothing that
outranks all the rest. -/
theorem two_le_length_maximal_iff : 2 ≤ (maximal (m := Id) more nodes).run.length ↔
    nodes ≠ [] ∧ ¬∃ winner ∈ nodes, Dominates more nodes winner := by
  have hdominated : (∃ winner ∈ nodes, Dominates more nodes winner) ↔
      ∃ winner, (maximal (m := Id) more nodes).run = [winner] :=
    exists_congr fun _ => (maximal_eq_singleton_iff distinct order).symm
  have hnonempty := maximal_ne_nil distinct order
  rw [hdominated]
  rcases hmaximal : (maximal (m := Id) more nodes).run with _ | ⟨winner, _ | ⟨other, rest⟩⟩
  · simp [not_imp_not.1 hnonempty hmaximal]
  · simp
  · have hnodes : nodes ≠ [] := by
      rintro rfl
      exact nomatch hmaximal
    simp [hnodes]

/-- There is no answer exactly if there is nothing to choose from, or several maximal
declarations. -/
theorem uniqueMaximal_eq_none_iff : uniqueMaximal (m := Id) more nodes = none ↔
    nodes = [] ∨ 2 ≤ (maximal (m := Id) more nodes).run.length := by
  have hsilent : uniqueMaximal (m := Id) more nodes = none ↔
      ¬∃ winner ∈ nodes, Dominates more nodes winner := by
    rw [Option.eq_none_iff_forall_ne_some]
    constructor
    · rintro silent ⟨winner, hwinner, dominates⟩
      exact silent _
        ((uniqueMaximal_eq_some_iff distinct order).2 ⟨winner, hwinner, rfl, dominates⟩)
    · intro undominated answer hanswer
      obtain ⟨winner, hwinner, -, dominates⟩ :=
        (uniqueMaximal_eq_some_iff distinct order).1 hanswer
      exact undominated ⟨winner, hwinner, dominates⟩
  rw [hsilent, two_le_length_maximal_iff distinct order]
  by_cases hnodes : nodes = []
  · simp [hnodes]
  · simp [hnodes]

end Maximal

end CustomizationPoints
