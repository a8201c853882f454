import CustomizationPoints.Proofs.PlainHost
import CustomizationPoints.Registry.Register

/-!
# What a registration accepts

Registering a declaration runs through a list of checks and then stores it.  Here each
check is read as the condition under which it passes, and the conditions are collected in
one statement, `Registry.Admits`: a registration succeeds exactly if its registry admits
the declaration, and then it returns the next identity and the registry with the
declaration added (`register_eq_ok_iff`).

Nothing below this file needs to know in which order the checks are made.
-/

namespace CustomizationPoints

/-! ## Agreement with a seed -/

/-- Two return types of which both are spelled out, or both are deduced. -/
inductive ReturnType.SameKind : ReturnType → ReturnType → Prop where
  | concrete (expected found : HostType) : SameKind (.concrete expected) (.concrete found)
  | deduced (expected found : Option Constraint) : SameKind (.deduced expected) (.deduced found)

/-- The classification of return types tells apart those that are not of the same kind, and no
others. -/
theorem ReturnType.sameKind_iff {expected found : ReturnType} :
    expected.SameKind found ↔ expected.kind = found.kind := by
  constructor
  · intro same
    cases same with
    | concrete expected found => rfl
    | deduced expected found => rfl
  · intro same
    cases expected with
    | concrete expected =>
      cases found with
      | concrete found => exact .concrete expected found
      | deduced constraint => exact nomatch same
    | deduced expected =>
      cases found with
      | concrete type => exact nomatch same
      | deduced found => exact .deduced expected found

/-- What the seed of a tree demands of a declaration in it. -/
structure Declaration.AgreesWith (conversions : Conversions Id) (decl seed : Declaration) :
    Prop where
  /-- Both return types are spelled out, or both are deduced. -/
  sameKind : seed.returnType.SameKind decl.returnType
  /-- A spelled out return type is the seed's, or converts to it. -/
  reaches : ∀ expected found, seed.returnType = .concrete expected →
    decl.returnType = .concrete found →
      found = expected ∨ (conversions.implicit found expected).run = true
  /-- The promise of the seed never to throw is kept. -/
  nothrow : seed.exceptions = .nothrow → decl.exceptions = .nothrow

/-- A seed agrees with itself. -/
theorem Declaration.AgreesWith.refl (conversions : Conversions Id) (seed : Declaration) :
    seed.AgreesWith conversions seed where
  sameKind := ReturnType.sameKind_iff.2 rfl
  reaches expected found hexpected hfound := by
    rw [hexpected] at hfound
    exact Or.inl (ReturnType.concrete.inj hfound).symm
  nothrow := id

/-- The name of a declaration together with its namespace. -/
def Declaration.qualifiedName? (decl : Declaration) : Option QualifiedName :=
  decl.name.map fun name => ⟨decl.space, name⟩

/-! ## The checks, one at a time -/

theorem Conversions.reaches_eq_true_iff (conversions : Conversions Id)
    (source target : HostType) :
    (conversions.reaches source target).run = true ↔
      source = target ∨ (conversions.implicit source target).run = true := by
  unfold Conversions.reaches
  by_cases h : source = target
  · simp [h]
  · simp [h]

theorem Declaration.checkBody_eq_ok_iff (decl : Declaration) :
    decl.checkBody = .ok () ↔ ¬(decl.isPure = true ∧ decl.isFinal = true) := by
  unfold Declaration.checkBody
  split <;> simp_all

theorem Declaration.checkReturnKind_eq_ok_iff (decl : Declaration) (seed : Node) :
    decl.checkReturnKind seed = .ok () ↔ seed.decl.returnType.SameKind decl.returnType := by
  rw [ReturnType.sameKind_iff]
  unfold Declaration.checkReturnKind
  split <;> simp_all

theorem Declaration.checkReturnType_eq_ok_iff (conversions : Conversions Id)
    (decl : Declaration) (seed : Node) :
    outcome (decl.checkReturnType conversions seed) = .ok () ↔
      ∀ expected found, seed.decl.returnType = .concrete expected →
        decl.returnType = .concrete found →
          found = expected ∨ (conversions.implicit found expected).run = true := by
  unfold Declaration.checkReturnType
  split
  next expected found hseed hdecl =>
    rw [liftM_eq_lift, outcome_lift_bind, hseed, hdecl]
    have asked := conversions.reaches_eq_true_iff found expected
    constructor
    · intro h expected' found' hexpected hfound
      cases hexpected
      cases hfound
      split at h
      next yes => exact asked.1 yes
      next no => exact nomatch h
    · intro h
      rw [if_pos (asked.2 (h expected found rfl rfl)), outcome_pure]
  next hnot =>
    rw [outcome_pure]
    exact ⟨fun _ expected found hexpected hfound => (hnot expected found hexpected hfound).elim,
      fun _ => rfl⟩

theorem Declaration.checkExceptions_eq_ok_iff (decl : Declaration) (seed : Node) :
    decl.checkExceptions seed = .ok () ↔
      (seed.decl.exceptions = .nothrow → decl.exceptions = .nothrow) := by
  unfold Declaration.checkExceptions
  rw [← ExceptionSpec.isNothrow_iff, ← ExceptionSpec.isNothrow_iff]
  split <;> simp_all

namespace Registry

theorem checkName_eq_ok_iff (registry : Registry) (decl : Declaration) :
    registry.checkName decl = .ok () ↔
      ∀ name, decl.qualifiedName? = some name → registry.use? name = none := by
  unfold checkName Declaration.qualifiedName?
  cases decl.name with
  | none => simp
  | some name => by_cases h : registry.use? ⟨decl.space, name⟩ = none <;> simp [h]

theorem overridden_eq_ok_iff (registry : Registry) (decl : Declaration)
    (parent : Option Node) :
    registry.overridden decl = .ok parent ↔
      parent = decl.parent.bind registry.node? ∧
        ∀ id, decl.parent = some id →
          ∃ node, registry.node? id = some node ∧ node.decl.isFinal = false := by
  unfold overridden
  cases decl.parent with
  | none => simpa using eq_comm
  | some id =>
    cases hnode : registry.node? id with
    | none => simp [hnode]
    | some node =>
      cases hfinal : node.decl.isFinal with
      | true => simp [hnode, hfinal]
      | false => simpa [hnode, hfinal] using eq_comm

theorem checkAgainstSeed_eq_ok_iff (registry : Registry) (conversions : Conversions Id)
    (decl : Declaration) (parent : Option Node) :
    outcome (registry.checkAgainstSeed conversions decl parent) = .ok () ↔
      ∀ node, parent = some node →
        decl.AgreesWith conversions (registry.seedAbove node).decl := by
  cases parent with
  | none => exact ⟨fun _ node hnode => (nomatch hnode), fun _ => rfl⟩
  | some node =>
    unfold checkAgainstSeed
    simp only [outcome_bind_eq_ok, outcome_check]
    constructor
    · rintro ⟨⟨⟩, hkind, ⟨⟩, htype, hexceptions⟩ node' hnode
      cases hnode
      exact ⟨(decl.checkReturnKind_eq_ok_iff _).1 hkind,
        (decl.checkReturnType_eq_ok_iff conversions _).1 htype,
        (decl.checkExceptions_eq_ok_iff _).1 hexceptions⟩
    · intro h
      have agrees := h node rfl
      exact ⟨(), (decl.checkReturnKind_eq_ok_iff _).2 agrees.sameKind, (),
        (decl.checkReturnType_eq_ok_iff conversions _).2 agrees.reaches,
        (decl.checkExceptions_eq_ok_iff _).2 agrees.nothrow⟩

/-! ## The whole registration -/

/-- The identity of the next declaration. -/
def nextId (registry : Registry) : DeclId := ⟨UInt32.ofNat registry.size⟩

/-- The registry with one more declaration, in its place. -/
def add (registry : Registry) (decl : Declaration) : Registry :=
  registry.place registry.nextId decl (decl.parent.bind registry.node?)

/-- The declaration may be registered: everything that the checks ask for. -/
structure Admits (registry : Registry) (conversions : Conversions Id) (decl : Declaration) :
    Prop where
  /-- What it overrides is registered, open, and in a tree whose seed it agrees with. -/
  parent : ∀ id, decl.parent = some id → ∃ node, registry.node? id = some node ∧
    node.decl.isFinal = false ∧ decl.AgreesWith conversions (registry.seedAbove node).decl
  /-- Its name is free. -/
  name : ∀ name, decl.qualifiedName? = some name → registry.use? name = none
  /-- It has a body, or may be overridden. -/
  body : ¬(decl.isPure = true ∧ decl.isFinal = true)
  /-- There is an identity left. -/
  room : registry.size < UInt32.size

/-- While there is room, the next identity names the next place. -/
theorem position_nextId {registry : Registry} (room : registry.size < UInt32.size) :
    registry.nextId.position = registry.size :=
  DeclId.position_of_next (if_pos room)

theorem next_eq_ok_iff (registry : Registry) (id : DeclId) :
    DeclId.next registry.size = .ok id ↔
      registry.size < UInt32.size ∧ id = registry.nextId := by
  unfold DeclId.next
  split
  next room => simp [room, nextId, eq_comm]
  next full => simp [full]

/-- **What a registration accepts, and what it returns.** -/
theorem register_eq_ok_iff (registry : Registry) (conversions : Conversions Id)
    (decl : Declaration) (id : DeclId) (grown : Registry) :
    outcome (registry.register conversions decl) = .ok (id, grown) ↔
      registry.Admits conversions decl ∧ id = registry.nextId ∧ grown = registry.add decl := by
  unfold register
  simp only [outcome_bind_eq_ok, outcome_check, outcome_pure, overridden_eq_ok_iff,
    next_eq_ok_iff]
  constructor
  · rintro ⟨parent, ⟨rfl, hparent⟩, ⟨⟩, hname, ⟨⟩, hbody, ⟨⟩, hseed, _, ⟨room, rfl⟩, hgrown⟩
    cases hgrown
    rw [checkAgainstSeed_eq_ok_iff] at hseed
    refine ⟨⟨fun id hid => ?_, (registry.checkName_eq_ok_iff decl).1 hname,
      decl.checkBody_eq_ok_iff.1 hbody, room⟩, rfl, rfl⟩
    obtain ⟨node, hnode, hopen⟩ := hparent id hid
    exact ⟨node, hnode, hopen, hseed node (by rw [hid, Option.bind_some, hnode])⟩
  · rintro ⟨admits, rfl, rfl⟩
    have hparent : ∀ id, decl.parent = some id →
        ∃ node, registry.node? id = some node ∧ node.decl.isFinal = false := by
      intro id hid
      obtain ⟨node, hnode, hopen, -⟩ := admits.parent id hid
      exact ⟨node, hnode, hopen⟩
    have hseed : ∀ node, decl.parent.bind registry.node? = some node →
        decl.AgreesWith conversions (registry.seedAbove node).decl := by
      intro node hnode
      obtain ⟨id, hid, hfound⟩ := Option.bind_eq_some_iff.1 hnode
      obtain ⟨node', hnode', -, agrees⟩ := admits.parent id hid
      rw [hfound] at hnode'
      cases hnode'
      exact agrees
    exact ⟨_, ⟨rfl, hparent⟩, (), (registry.checkName_eq_ok_iff decl).2 admits.name,
      (), decl.checkBody_eq_ok_iff.2 admits.body,
      (), (registry.checkAgainstSeed_eq_ok_iff conversions decl _).2 hseed,
      _, ⟨admits.room, rfl⟩, rfl⟩

end Registry

/-! ## A host that converts one type -/

/-- The narrower of two types. -/
def HostType.narrow : HostType := ⟨⟨1⟩, .other, "int"⟩

/-- The wider one. -/
def HostType.wide : HostType := ⟨⟨2⟩, .other, "long"⟩

/-- The narrower type converts to the wider one, but the conversion may throw. -/
def Conversions.widening : Conversions Id where
  implicit source goal := decide (source = .narrow ∧ goal = .wide)
  nothrow _ _ := false

end CustomizationPoints
