import CustomizationPoints.Proofs.PlainHost
import CustomizationPoints.Registry.Filling

/-!
# A refusal writes nothing

Filling a registry in place and computing the next registry come to the same.  This is a statement
about the order of the steps: every step that may be refused stands before the first one that
writes, so what a refusal leaves is the registry as it was.

The registration is followed step by step beside the computation (`Commits`).  A check is the same
step on both sides and changes nothing (`Commits.check_bind`), and when the last check has passed,
all that is left is to write (`commits_write`).  The host may answer as it likes: it is asked the
same questions on both sides.
-/

namespace CustomizationPoints
namespace Filling

variable {m : Type → Type} [Monad m] {α β : Type}

/-- The answer and the registry after it, if a refusal leaves the registry as it was. -/
def committed (registry : Registry) :
    Except RegistrationError (α × Registry) → Except RegistrationError α × Registry
  | .ok (a, next) => (.ok a, next)
  | .error e => (.error e, registry)

/-- Work in place on the registry comes to what is computed from it, and leaves nothing else
behind. -/
def Commits (registry : Registry) (work : Filling m α)
    (computed : ExceptT RegistrationError m (α × Registry)) : Prop :=
  work.run.run registry = committed registry <$> computed.run

variable [LawfulMonad m]

theorem pure_committed (registry : Registry) (result : Except RegistrationError (α × Registry)) :
    (pure (committed registry result) : m (Except RegistrationError α × Registry)) =
      committed registry <$> pure result := (map_pure _ _).symm

/-! ## Steps of the work -/

theorem run_get_bind (next : Registry → Filling m α) (registry : Registry) :
    (get >>= next).run.run registry = (next registry).run.run registry := by
  show (ExceptT.lift (StateT.get : StateT Registry m Registry) >>= next).run.run registry = _
  rw [ExceptT.run_bind_lift, StateT.run_bind]
  exact pure_bind _ _

theorem run_modify_bind (f : Registry → Registry) (next : Unit → Filling m α)
    (registry : Registry) :
    ((modify f : Filling m Unit) >>= next).run.run registry = (next ()).run.run (f registry) := by
  show (ExceptT.lift (StateT.modifyGet fun old => ((), f old) : StateT Registry m Unit)
    >>= next).run.run registry = _
  rw [ExceptT.run_bind_lift, StateT.run_bind]
  exact pure_bind _ _

theorem run_modify (f : Registry → Registry) (registry : Registry) :
    (modify f : Filling m Unit).run.run registry = pure (.ok (), f registry) := by
  rw [← bind_pure (modify f : Filling m Unit), run_modify_bind]
  rfl

/-- A check asks, and the work goes on where it started, or ends there. -/
theorem run_check_bind (x : ExceptT RegistrationError m β) (next : β → Filling m α)
    (registry : Registry) : (check x >>= next).run.run registry =
      x.run >>= fun
        | .ok b => (next b).run.run registry
        | .error e => pure (.error e, registry) := by
  have hcheck : (check x).run.run registry = (fun result => (result, registry)) <$> x.run := by
    rw [check, ExceptT.run_mk, StateT.run_lift, bind_pure_comp]
  rw [ExceptT.run_bind, StateT.run_bind, hcheck, bind_map_left]
  congr 1
  funext result
  cases result <;> rfl

/-- A check that refuses ends the work before anything is written. -/
theorem Commits.check_bind {registry : Registry} {x : ExceptT RegistrationError m β}
    {next : β → Filling m α} {computed : β → ExceptT RegistrationError m (α × Registry)}
    (rest : ∀ b, Commits registry (next b) (computed b)) :
    Commits registry (check x >>= next) (x >>= computed) := by
  rw [Commits, run_check_bind, ExceptT.run_bind, map_bind]
  congr 1
  funext result
  cases result with
  | ok b => exact rest b
  | error e => exact pure_committed registry (.error e)

/-! ## Writing -/

theorem node_eq (id : DeclId) (decl : Declaration) (parent : Option Node) :
    node id decl parent =
      { id, seed := (node id decl parent).seed, depth := (node id decl parent).depth, decl } := by
  cases parent <;> rfl

theorem place_eq_insert (registry : Registry) (id : DeclId) (decl : Declaration)
    (parent : Option Node) : registry.place id decl parent =
      registry.insert id (node id decl parent).seed (node id decl parent).depth decl := by
  cases parent <;> rfl

/-- Writing to the parts of the registry, one after another, puts the declaration in its place. -/
theorem run_write (registry : Registry) (id : DeclId) (decl : Declaration)
    (parent : Option Node) : (write id decl parent).run.run registry =
      (pure (.ok (), registry.place id decl parent) : m _) := by
  have hnode := (node_eq id decl parent).symm
  rw [place_eq_insert]
  unfold write useName noteOverride noteSeed store
  cases hname : decl.name <;> cases habove : decl.parent <;>
    simp only [run_modify_bind, run_modify, Registry.insert, Declaration.isSeed, hname, habove,
      hnode, Option.isNone_none, Option.isNone_some, if_true, if_false, Bool.false_eq_true]

theorem commits_write (registry : Registry) (id : DeclId) (decl : Declaration)
    (parent : Option Node) : Commits (m := m) registry
      (write id decl parent >>= fun _ => pure id) (pure (id, registry.place id decl parent)) := by
  rw [Commits, ExceptT.run_bind, StateT.run_bind, run_write, pure_bind, ExceptT.run_pure]
  exact pure_committed registry (.ok (id, registry.place id decl parent))

/-! ## Requests -/

/-- **Registering in place is registering.** -/
theorem commits_declare (registry : Registry) (conversions : Conversions m)
    (decl : Declaration) :
    Commits registry (declare conversions decl) (registry.register conversions decl) := by
  -- both read the registry once, at the start, and then make the same checks in the same order
  rw [declare, Registry.register]
  refine (run_get_bind _ registry).trans ?_
  exact Commits.check_bind fun parent => .check_bind fun _ => .check_bind fun _ =>
    .check_bind fun _ => .check_bind fun id => commits_write registry id decl parent

/-- **Announcing in place is announcing.** -/
theorem run_announce (registry : Registry) (name : QualifiedName) :
    (announce name : Filling m Unit).run.run registry =
      pure (committed registry ((registry.announce name).map fun next => ((), next))) := by
  rw [announce, run_get_bind, Registry.announce]
  cases registry.use? name with
  | none => exact run_modify _ registry
  | some use => cases use <;> rfl

end Filling
end CustomizationPoints
