import CustomizationPoints.Proofs.Registry.Filling
import CustomizationPoints.Proofs.Registry.Forest
import CustomizationPoints.Registry.DirectAccess

/-!
# Direct access finds what it needs

In a forest, registering by direct access does not break off: it comes to the same as registering
with look-ups, whatever the declaration is and whatever the host answers (`completes_declareAt`).

The two are followed step by step (`Completes`).  All steps are the same but those that go to a
place.  What has to be known there comes from two sources.  The check of the parent has passed, so
the parent is registered.  And the registry is a forest, so the seed that a registered declaration
has stored is registered, too.  What is written before the last access is a name, which moves
nobody from his place.
-/

namespace CustomizationPoints
namespace Filling

variable {m : Type → Type} [Monad m] {α β : Type}

/-- Work by direct access on the registry does not break off and comes to the same as the other
work. -/
def Completes (registry : Registry) (work : DirectFilling m α) (lookingUp : Filling m α) : Prop :=
  (work.run.run registry).run = some <$> lookingUp.run.run registry

variable [LawfulMonad m] {registry : Registry}

theorem run_checkFirst_bind (x : ExceptT RegistrationError m β) (next : β → DirectFilling m α)
    (registry : Registry) : ((checkFirst x >>= next).run.run registry).run =
      x.run >>= fun
        | .ok b => ((next b).run.run registry).run
        | .error e => pure (some (.error e, registry)) := by
  rw [checkFirst, run_check_bind, ExceptT.run_mk, OptionT.run_bind, OptionT.run_lift,
    Option.elimM, bind_assoc]
  congr 1
  funext result
  rw [pure_bind]
  cases result <;> rfl

namespace Completes

/-! ## Steps that are the same -/

theorem pure (a : α) : Completes (m := m) registry (Pure.pure a) (Pure.pure a) :=
  (map_pure some _).symm

theorem get_bind {next : Registry → DirectFilling m α} {other : Registry → Filling m α}
    (rest : Completes registry (next registry) (other registry)) :
    Completes registry (get >>= next) (get >>= other) := by
  rw [Completes, run_get_bind, run_get_bind]
  exact rest

theorem modify_bind {f : Registry → Registry} {next : Unit → DirectFilling m α}
    {other : Unit → Filling m α} (rest : Completes (f registry) (next ()) (other ())) :
    Completes registry (modify f >>= next) (modify f >>= other) := by
  rw [Completes, run_modify_bind, run_modify_bind]
  exact rest

/-- The host is asked once on either side, and gives one answer. -/
theorem check_bind {x : ExceptT RegistrationError m β} {next : β → DirectFilling m α}
    {other : β → Filling m α} (rest : ∀ b, Completes registry (next b) (other b)) :
    Completes registry (checkFirst x >>= next) (check x >>= other) := by
  rw [Completes, run_checkFirst_bind, run_check_bind, map_bind]
  congr 1
  funext result
  cases result with
  | ok b => exact rest b
  | error e => exact (map_pure some _).symm

/-- When the work goes on after a check that asks nobody, the check has passed. -/
theorem pureCheck_bind {x : Except RegistrationError β} {next : β → DirectFilling m α}
    {other : β → Filling m α} (rest : ∀ b, x = .ok b → Completes registry (next b) (other b)) :
    Completes registry (checkFirst (liftM x) >>= next) (check (liftM x) >>= other) := by
  have hrun : (liftM x : ExceptT RegistrationError m β).run = Pure.pure x := rfl
  rw [Completes, run_checkFirst_bind, run_check_bind, hrun, pure_bind, pure_bind]
  cases x with
  | ok b => exact rest b rfl
  | error e => exact (map_pure some _).symm

/-! ## Access to a place -/

/-- At a place that is taken, direct access finds the node. -/
theorem nodeAt_bind {id : DeclId} {node : Node} {next : Node → DirectFilling m α}
    {other : Filling m α} (h : registry.node? id = some node)
    (rest : Completes registry (next node) other) :
    Completes registry (nodeAt id >>= next) other := by
  have hfound : (OptionT.mk (Pure.pure (some node)) : OptionT m Node) = Pure.pure node := rfl
  rw [Completes, nodeAt, bind_assoc, run_get_bind, h, hfound, ExceptT.run_bind_lift,
    StateT.run_bind, StateT.run_lift, pure_bind, pure_bind]
  exact rest

/-- The seed of a registered declaration is at its place, so the override is compared with it. -/
theorem checkAgainstSeedAt_bind (forest : registry.IsForest) {conversions : Conversions m}
    {decl : Declaration} {parent : Option Node} {next : Unit → DirectFilling m α}
    {other : Unit → Filling m α} (hparent : ∀ above, parent = some above → above ∈ registry.all)
    (rest : Completes registry (next ()) (other ())) :
    Completes registry (checkAgainstSeedAt conversions decl parent >>= next)
      (check (registry.checkAgainstSeed conversions decl parent) >>= other) := by
  cases parent with
  | none =>
    rw [Completes, checkAgainstSeedAt, pure_bind, run_check_bind, Registry.checkAgainstSeed,
      ExceptT.run_pure, pure_bind]
    exact rest
  | some above =>
    obtain ⟨seed, hseed, hid, -⟩ := forest.exists_seed (hparent above rfl)
    have hplace : registry.node? above.seed = some seed :=
      forest.node?_eq_some_iff.2 ⟨hseed, hid⟩
    rw [checkAgainstSeedAt, bind_assoc, Registry.checkAgainstSeed, forest.seedAbove_eq hseed hid]
    exact nodeAt_bind hplace (check_bind fun _ => rest)

end Completes

/-! ## The whole registration -/

/-- With the parent registered, writing finds its place. -/
theorem completes_writeAt {decl : Declaration} (id : DeclId)
    (hparent : ∀ above, decl.parent = some above → ∃ node, registry.node? above = some node) :
    Completes (m := m) registry (writeAt id decl >>= fun _ => pure id)
      (write id decl (decl.parent.bind registry.node?) >>= fun _ => pure id) := by
  unfold writeAt write useName noteSeed store noteOverrideAt noteOverride
  cases habove : decl.parent with
  | none =>
    simp only [Option.mapM_none, pure_bind, Option.bind_none]
    cases decl.name with
    | none =>
      simp only [bind_assoc]
      exact .modify_bind (.modify_bind (.pure id))
    | some name =>
      simp only [bind_assoc]
      exact .modify_bind (.modify_bind (.modify_bind (.pure id)))
  | some above =>
    obtain ⟨node, hnode⟩ := hparent above habove
    simp only [Option.mapM_some, bind_assoc, bind_map_left, Option.bind_some, hnode]
    refine .nodeAt_bind hnode ?_
    cases decl.name with
    | none =>
      simp only [bind_assoc]
      exact .nodeAt_bind hnode (.modify_bind (.modify_bind (.pure id)))
    | some name =>
      simp only [bind_assoc]
      -- the name is written before the parent is looked for again
      exact .modify_bind (.nodeAt_bind hnode (.modify_bind (.modify_bind (.pure id))))

/-- **Direct access finds what registering needs.** -/
theorem completes_declareAt (forest : registry.IsForest) (conversions : Conversions m)
    (decl : Declaration) :
    Completes registry (declareAt conversions decl) (declare conversions decl) := by
  refine Completes.get_bind (Completes.pureCheck_bind fun parent hparent => ?_)
  obtain ⟨rfl, hknown⟩ := (registry.overridden_eq_ok_iff decl parent).1 hparent
  refine .check_bind fun _ => .check_bind fun _ => ?_
  refine .checkAgainstSeedAt_bind forest ?_ (.check_bind fun id => ?_)
  · intro above habove
    obtain ⟨id, -, hnode⟩ := Option.bind_eq_some_iff.1 habove
    exact (forest.node?_eq_some_iff.1 hnode).1
  · refine completes_writeAt id fun above habove => ?_
    obtain ⟨node, hnode, -⟩ := hknown above habove
    exact ⟨node, hnode⟩

end Filling
end CustomizationPoints
