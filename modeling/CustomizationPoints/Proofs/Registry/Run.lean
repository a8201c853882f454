import CustomizationPoints.Proofs.Registry.Acceptance
import Mathlib.Data.Set.Insert

/-!
# Filling a registry

A registry is filled by requests: declarations to register and ordinary functions to
announce.  A request may be refused, and a refusal leaves the registry as it was, so a run
takes any list of requests to a registry.  A registry is *reachable* if some run leads to it
from the empty one, all with the same conversions.

## What a run can do

`Registry.Step` lists the three ways in which a request can be granted, each with its
condition and its effect.  Everything that holds of reachable registries is proved from
these three cases: `run_induction` carries a property along a run, together with the list
of the requests that were granted so far.
-/

namespace CustomizationPoints

/-- A request to a registry that is being filled. -/
inductive Request where
  /-- Register a declaration. -/
  | declare (decl : Declaration)
  /-- Announce an ordinary function. -/
  | announce (name : QualifiedName)
  deriving DecidableEq

/-- The declarations among some requests. -/
def Request.declared (requests : List Request) : List Declaration :=
  requests.filterMap fun
    | .declare decl => some decl
    | .announce _ => none

/-- The names of ordinary functions that some requests announce. -/
def Request.announced (requests : List Request) : Set QualifiedName :=
  {name | .announce name ∈ requests}

@[simp] theorem Request.declared_append (first second : List Request) :
    Request.declared (first ++ second) = Request.declared first ++ Request.declared second :=
  List.filterMap_append

@[simp] theorem Request.declared_declare (decl : Declaration) :
    Request.declared [.declare decl] = [decl] := rfl

@[simp] theorem Request.declared_announce (name : QualifiedName) :
    Request.declared [.announce name] = [] := rfl

/-- The declarations are those for which there is a request. -/
theorem Request.mem_declared {requests : List Request} {decl : Declaration} :
    decl ∈ Request.declared requests ↔ .declare decl ∈ requests := by
  rw [Request.declared, List.mem_filterMap]
  constructor
  · rintro ⟨request, hmem, hdeclares⟩
    cases request with
    | declare own => rwa [Option.some.inj hdeclares] at hmem
    | announce name => exact nomatch hdeclares
  · exact fun h => ⟨_, h, rfl⟩

theorem Request.announced_append_declare (requests : List Request) (decl : Declaration) :
    Request.announced (requests ++ [.declare decl]) = Request.announced requests := by
  ext name
  simp [Request.announced]

theorem Request.announced_append_announce (requests : List Request) (name : QualifiedName) :
    Request.announced (requests ++ [.announce name]) =
      Request.announced requests ∪ {name} := by
  ext other
  rw [Set.mem_union, Set.mem_singleton_iff]
  simp [Request.announced]

namespace Registry

variable (conversions : Conversions Id)

/-- The registry to which a request leads, or the reason of the refusal. -/
def attempt (registry : Registry) : Request → Except RegistrationError Registry
  | .declare decl => (outcome (registry.register conversions decl)).map (·.2)
  | .announce name => registry.announce name

/-- The registry after a request; a refusal leaves it as it was. -/
def after (registry : Registry) (request : Request) : Registry :=
  match registry.attempt conversions request with
  | .ok next => next
  | .error _ => registry

/-- The registry after some requests, in order. -/
def run (registry : Registry) (requests : List Request) : Registry :=
  requests.foldl (after conversions) registry

/-- The requests of a run that are granted, in order. -/
def granted (registry : Registry) : List Request → List Request
  | [] => []
  | request :: rest =>
    match registry.attempt conversions request with
    | .ok next => request :: next.granted rest
    | .error _ => registry.granted rest

/-- Some run leads from the empty registry to this one. -/
def Reachable (registry : Registry) : Prop :=
  ∃ requests, registry = empty.run conversions requests

/-! ## One request -/

/-- The ways in which a request can be granted. -/
inductive Step (registry : Registry) : Request → Registry → Prop where
  | declare {decl : Declaration} (admits : registry.Admits conversions decl) :
      Step registry (.declare decl) (registry.add decl)
  | announce {name : QualifiedName} (free : registry.use? name = none) :
      Step registry (.announce name) (registry.insertFunction name)
  | repeated {name : QualifiedName} (known : registry.use? name = some .ordinaryFunction) :
      Step registry (.announce name) registry

variable {conversions}

theorem announce_eq_ok_iff {registry next : Registry} {name : QualifiedName} :
    registry.announce name = .ok next ↔
      (registry.use? name = none ∧ next = registry.insertFunction name) ∨
        (registry.use? name = some .ordinaryFunction ∧ next = registry) := by
  unfold announce
  split
  next id used => simp [used]
  next used => simpa [used] using eq_comm
  next free => simpa [free] using eq_comm

theorem attempt_eq_ok_iff {registry next : Registry} {request : Request} :
    registry.attempt conversions request = .ok next ↔
      registry.Step conversions request next := by
  cases request with
  | declare decl =>
    constructor
    · intro h
      rw [attempt] at h
      cases hout : outcome (registry.register conversions decl) with
      | error e => rw [hout] at h; exact nomatch h
      | ok result =>
        obtain ⟨id, grown⟩ := result
        rw [hout] at h
        cases h
        obtain ⟨admits, -, rfl⟩ := (registry.register_eq_ok_iff conversions decl _ _).1 hout
        exact .declare admits
    · rintro ⟨admits⟩
      rw [attempt, (registry.register_eq_ok_iff conversions decl _ _).2 ⟨admits, rfl, rfl⟩]
      rfl
  | announce name =>
    rw [attempt, announce_eq_ok_iff]
    constructor
    · rintro (⟨free, rfl⟩ | ⟨known, rfl⟩)
      · exact .announce free
      · exact .repeated known
    · rintro (_ | free | known)
      · exact Or.inl ⟨free, rfl⟩
      · exact Or.inr ⟨known, rfl⟩

/-! ## Runs -/

@[simp] theorem run_nil (registry : Registry) : registry.run conversions [] = registry := rfl

theorem run_cons (registry : Registry) (request : Request) (rest : List Request) :
    registry.run conversions (request :: rest) =
      (registry.after conversions request).run conversions rest := rfl

theorem run_append (registry : Registry) (first second : List Request) :
    registry.run conversions (first ++ second) =
      (registry.run conversions first).run conversions second :=
  List.foldl_append

/-- The granted requests are some of the requests, in the same order. -/
theorem granted_sublist (conversions : Conversions Id) (registry : Registry)
    (requests : List Request) : (registry.granted conversions requests).Sublist requests := by
  induction requests generalizing registry with
  | nil => exact List.Sublist.slnil
  | cons request rest ih =>
    rw [granted]
    split
    · exact (ih _).cons_cons request
    · exact (ih registry).cons request

theorem granted_append (registry : Registry) (first second : List Request) :
    registry.granted conversions (first ++ second) =
      registry.granted conversions first ++
        (registry.run conversions first).granted conversions second := by
  induction first generalizing registry with
  | nil => rfl
  | cons request rest ih =>
    rw [List.cons_append, granted, granted, run_cons, after]
    cases registry.attempt conversions request with
    | error e => exact ih registry
    | ok next => exact congrArg (request :: ·) (ih next)

/-- All requests are granted if all of the first ones are, and then all of the others. -/
theorem granted_append_eq_self_iff {registry : Registry} {first second : List Request} :
    registry.granted conversions (first ++ second) = first ++ second ↔
      registry.granted conversions first = first ∧
        (registry.run conversions first).granted conversions second = second := by
  rw [granted_append]
  constructor
  · intro h
    -- nothing can be missing from one part, since the other part cannot make up for it
    have hfirst := (granted_sublist conversions registry first).length_le
    have hsecond :=
      (granted_sublist conversions (registry.run conversions first) second).length_le
    have hlength := congrArg List.length h
    rw [List.length_append, List.length_append] at hlength
    exact List.append_inj h (by omega)
  · rintro ⟨hfirst, hsecond⟩
    rw [hfirst, hsecond]

/-- A single request is granted if there is a step for it. -/
theorem granted_singleton_eq_self_iff {registry : Registry} {request : Request} :
    registry.granted conversions [request] = [request] ↔
      ∃ next, registry.Step conversions request next := by
  simp only [← attempt_eq_ok_iff, granted]
  cases registry.attempt conversions request with
  | error e => simp
  | ok next => simp

/-- A property of the granted requests and the registry that every step keeps holds at the
end of every run, wherever the run starts. -/
theorem run_induction_from {P : List Request → Registry → Prop}
    (step : ∀ before registry request next, P before registry →
      registry.Step conversions request next → P (before ++ [request]) next)
    (requests : List Request) (before : List Request) (registry : Registry)
    (start : P before registry) :
    P (before ++ registry.granted conversions requests)
      (registry.run conversions requests) := by
  induction requests generalizing before registry with
  | nil => simpa [granted] using start
  | cons request rest ih =>
    rw [run_cons, after, granted]
    cases hattempt : registry.attempt conversions request with
    | error e => exact ih before registry start
    | ok next =>
      have kept := step before registry request next start (attempt_eq_ok_iff.1 hattempt)
      simpa using ih (before ++ [request]) next kept

/-- What holds of the empty registry and is kept by every step holds of every run. -/
theorem run_induction {P : List Request → Registry → Prop} (start : P [] empty)
    (step : ∀ before registry request next, P before registry →
      registry.Step conversions request next → P (before ++ [request]) next)
    (requests : List Request) :
    P (empty.granted conversions requests) (empty.run conversions requests) :=
  run_induction_from step requests [] empty start

/-- What holds of the empty registry and is kept by every step holds of every reachable
registry. -/
theorem Reachable.induction {P : Registry → Prop} {registry : Registry}
    (reachable : registry.Reachable conversions) (start : P empty)
    (step : ∀ registry request next, P registry → registry.Step conversions request next →
      P next) : P registry := by
  obtain ⟨requests, rfl⟩ := reachable
  exact run_induction (P := fun _ registry => P registry) start
    (fun _ registry request next => step registry request next) requests

/-- A granted request leads from a reachable registry to a reachable one. -/
theorem Reachable.step {registry next : Registry} {request : Request}
    (reachable : registry.Reachable conversions)
    (step : registry.Step conversions request next) : next.Reachable conversions := by
  obtain ⟨requests, rfl⟩ := reachable
  refine ⟨requests ++ [request], ?_⟩
  rw [run_append, run_cons, run_nil, after, attempt_eq_ok_iff.2 step]

end Registry
end CustomizationPoints
