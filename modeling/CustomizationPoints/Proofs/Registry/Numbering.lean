import CustomizationPoints.Proofs.Registry.Forest
import Mathlib.Data.List.FinRange

/-!
# The identities that a list of requests gives out

If all requests of a list are granted, the declarations among them receive the identities
`0`, `1`, `2` and so on, in their order.  So the identity of each is known in advance: it is
the number of declarations before it (`Request.idAt`).

The same requests in another order give out other identities, and a declaration refers to
its parent by identity.  `Request.reorder` puts requests in another order and renames the
parents accordingly.  Its two main facts are that every declaration can be found under its new
identity (`getElem?_reorder`) and that the new order has the same declarations and the same
announcements (`perm_reorder`).
-/

namespace CustomizationPoints

/-- The declaration with its parent renamed. -/
def Declaration.rename (f : DeclId → DeclId) (decl : Declaration) : Declaration :=
  { decl with parent := decl.parent.map f }

namespace Request

/-- The request with the parent of its declaration renamed. -/
def rename (f : DeclId → DeclId) : Request → Request
  | .declare decl => .declare (decl.rename f)
  | .announce name => .announce name

/-- Whether a declaration is to be registered. -/
def isDeclaration : Request → Bool
  | .declare _ => true
  | .announce _ => false

theorem isDeclaration_iff {request : Request} :
    request.isDeclaration = true ↔ ∃ decl, request = .declare decl := by
  cases request <;> simp [isDeclaration]

/-- The identity that the declaration at place `i` receives if all requests are granted. -/
def idAt (requests : List Request) (i : Nat) : DeclId :=
  ⟨UInt32.ofNat (declared (requests.take i)).length⟩

@[simp] theorem declared_cons_declare (decl : Declaration) (rest : List Request) :
    declared (.declare decl :: rest) = decl :: declared rest := rfl

@[simp] theorem declared_cons_announce (name : QualifiedName) (rest : List Request) :
    declared (.announce name :: rest) = declared rest := rfl

theorem declared_map_rename (f : DeclId → DeclId) (requests : List Request) :
    declared (requests.map (rename f)) = (declared requests).map (Declaration.rename f) := by
  induction requests with
  | nil => rfl
  | cons request rest ih =>
    cases request with
    | declare decl => rw [List.map_cons, rename, declared_cons_declare, declared_cons_declare, ih,
        List.map_cons]
    | announce name =>
      rw [List.map_cons, rename, declared_cons_announce, declared_cons_announce, ih]

theorem idAt_map_rename (f : DeclId → DeclId) (requests : List Request) (i : Nat) :
    idAt (requests.map (rename f)) i = idAt requests i := by
  rw [idAt, ← List.map_take, declared_map_rename, List.length_map, idAt]

/-! ## Places of declarations -/

section Places

variable {requests : List Request} {i j : Nat} {decl other : Declaration}

/-- The declaration at place `i` comes after as many declarations as stand before it. -/
theorem getElem?_declared (h : requests[i]? = some (.declare decl)) :
    (declared requests)[(declared (requests.take i)).length]? = some decl := by
  obtain ⟨hi, hget⟩ := List.getElem?_eq_some_iff.1 h
  have hsplit : declared requests =
      declared (requests.take i) ++ decl :: declared (requests.drop (i + 1)) := by
    rw [← declared_cons_declare, ← hget, ← List.drop_eq_getElem_cons hi, ← declared_append,
      List.take_append_drop]
  rw [hsplit, List.getElem?_append_right (Nat.le_refl _), Nat.sub_self, List.getElem?_cons_zero]

/-- A later place has more declarations before it. -/
theorem length_declared_take_lt (h : requests[i]? = some (.declare decl)) (hij : i < j) :
    (declared (requests.take i)).length < (declared (requests.take j)).length := by
  have htake : (requests.take j)[i]? = some (.declare decl) := by
    rw [List.getElem?_take_of_lt hij, h]
  have hat := getElem?_declared htake
  rw [List.take_take, Nat.min_eq_left (Nat.le_of_lt hij)] at hat
  exact (List.getElem?_eq_some_iff.1 hat).1

/-- Every declaration stands at some place. -/
theorem exists_place {k : Nat} (h : (declared requests)[k]? = some decl) :
    ∃ i, requests[i]? = some (.declare decl) ∧ (declared (requests.take i)).length = k := by
  induction requests generalizing k with
  | nil => simp [declared] at h
  | cons request rest ih =>
    cases request with
    | announce name =>
      obtain ⟨i, hi, hlength⟩ := ih h
      exact ⟨i + 1, hi, hlength⟩
    | declare first =>
      cases k with
      | zero =>
        cases h
        exact ⟨0, rfl, rfl⟩
      | succ k =>
        obtain ⟨i, hi, hlength⟩ := ih h
        exact ⟨i + 1, hi, congrArg Nat.succ hlength⟩

variable (room : (declared requests).length ≤ UInt32.size)

include room

/-- While there are enough identities, the identity is the number of declarations before. -/
theorem position_idAt (h : requests[i]? = some (.declare decl)) :
    (idAt requests i).position = (declared (requests.take i)).length :=
  UInt32.toNat_ofNat_of_lt
    (Nat.lt_of_lt_of_le (List.getElem?_eq_some_iff.1 (getElem?_declared h)).1 room)

theorem getElem?_position_idAt (h : requests[i]? = some (.declare decl)) :
    (declared requests)[(idAt requests i).position]? = some decl := by
  rw [position_idAt room h]
  exact getElem?_declared h

/-- Later declarations receive greater identities. -/
theorem idAt_lt (h : requests[i]? = some (.declare decl))
    (h' : requests[j]? = some (.declare other)) (hij : i < j) :
    (idAt requests i).position < (idAt requests j).position := by
  rw [position_idAt room h, position_idAt room h']
  exact length_declared_take_lt h hij

theorem eq_of_idAt_eq (h : requests[i]? = some (.declare decl))
    (h' : requests[j]? = some (.declare other)) (heq : idAt requests i = idAt requests j) :
    i = j := by
  rcases Nat.lt_trichotomy i j with hlt | rfl | hlt
  · exact absurd (idAt_lt room h h' hlt) (heq ▸ Nat.lt_irrefl _)
  · rfl
  · exact absurd (idAt_lt room h' h hlt) (heq ▸ Nat.lt_irrefl _)

/-- The declaration with an identity stands at the place that gives it out. -/
theorem exists_idAt {id : DeclId} (h : (declared requests)[id.position]? = some decl) :
    ∃ i, requests[i]? = some (.declare decl) ∧ idAt requests i = id := by
  obtain ⟨i, hi, hlength⟩ := exists_place h
  refine ⟨i, hi, DeclId.eq_of_position_eq ?_⟩
  rw [position_idAt room hi, hlength]

end Places

/-! ## Another order -/

section Order

variable (requests : List Request) (order : Equiv.Perm (Fin requests.length))

/-- The requests in another order, as they are: `order` says from which place the request at a
new place comes. -/
def shuffle : List Request := List.ofFn fun place => requests.get (order place)

/-- The identity that a declaration receives in the new order, given the one that it receives in
the old order. -/
def newId (id : DeclId) : DeclId :=
  match (List.finRange requests.length).find? fun place =>
      (requests.get place).isDeclaration && idAt requests place = id with
  | some place => idAt (shuffle requests order) (order.symm place)
  | none => id

/-- **The requests in another order**, with the parents named as they are named there. -/
def reorder : List Request := (shuffle requests order).map (rename (newId requests order))

theorem perm_shuffle : (shuffle requests order).Perm requests := by
  have h := order.ofFn_comp_perm requests.get
  rw [List.ofFn_get] at h
  exact h

/-- The new order has the same requests, up to the names of parents. -/
theorem perm_reorder :
    (reorder requests order).Perm (requests.map (rename (newId requests order))) :=
  (perm_shuffle requests order).map _

theorem length_declared_reorder :
    (declared (reorder requests order)).length = (declared requests).length := by
  rw [reorder, declared_map_rename, List.length_map]
  exact ((perm_shuffle requests order).filterMap _).length_eq

/-- Announcements have no parents to be renamed. -/
theorem announced_reorder : announced (reorder requests order) = announced requests := by
  ext name
  show .announce name ∈ reorder requests order ↔ .announce name ∈ requests
  rw [(perm_reorder requests order).mem_iff, List.mem_map]
  constructor
  · rintro ⟨request, hmem, heq⟩
    cases request with
    | declare decl => exact nomatch heq
    | announce other => rwa [← heq]
  · exact fun hmem => ⟨.announce name, hmem, rfl⟩

@[simp] theorem length_reorder : (reorder requests order).length = requests.length := by
  rw [(perm_reorder requests order).length_eq, List.length_map]

/-- What stood at a place stands at its new place. -/
theorem getElem?_reorder (place : Fin requests.length) :
    (reorder requests order)[(order.symm place).val]? =
      some ((requests.get place).rename (newId requests order)) := by
  rw [reorder, List.getElem?_map, shuffle, List.getElem?_ofFn, dif_pos (order.symm place).isLt]
  simp

variable {requests order}

/-- The declarations of the new order are those of the old one. -/
theorem exists_oldPlace {i : Nat} {other : Declaration}
    (h : (reorder requests order)[i]? = some (.declare other)) :
    ∃ (place : Fin requests.length) (decl : Declaration),
      requests[place.val]? = some (.declare decl) ∧ (order.symm place).val = i := by
  have hlt : i < requests.length := by
    rw [← length_reorder requests order]
    exact (List.getElem?_eq_some_iff.1 h).1
  have hplace : order.symm (order ⟨i, hlt⟩) = ⟨i, hlt⟩ := order.symm_apply_apply _
  have hget := getElem?_reorder requests order (order ⟨i, hlt⟩)
  rw [hplace, h] at hget
  cases hrequest : requests.get (order ⟨i, hlt⟩) with
  | declare decl =>
    exact ⟨_, decl, List.getElem?_eq_some_iff.2 ⟨(order ⟨i, hlt⟩).isLt, hrequest⟩,
      congrArg Fin.val hplace⟩
  | announce name =>
    rw [hrequest] at hget
    exact nomatch hget

/-- A declaration that receives `idAt requests place` in the old order receives the identity of
its new place in the new order. -/
theorem newId_idAt (room : (declared requests).length ≤ UInt32.size)
    (place : Fin requests.length) {decl : Declaration}
    (h : requests[place.val]? = some (.declare decl)) :
    newId requests order (idAt requests place) =
      idAt (reorder requests order) (order.symm place) := by
  have hfound : (List.finRange requests.length).find? (fun other =>
      (requests.get other).isDeclaration && idAt requests other = idAt requests place) =
        some place := by
    cases hfind : (List.finRange requests.length).find? fun other =>
        (requests.get other).isDeclaration && idAt requests other = idAt requests place with
    | none =>
      have hget : requests.get place = .declare decl := (List.getElem?_eq_some_iff.1 h).2
      exact absurd (Bool.and_eq_true_iff.2 ⟨isDeclaration_iff.2 ⟨decl, hget⟩, decide_eq_true rfl⟩)
        (List.find?_eq_none.1 hfind place (List.mem_finRange place))
    | some other =>
      have hother := List.find?_some hfind
      rw [Bool.and_eq_true, isDeclaration_iff, decide_eq_true_eq] at hother
      obtain ⟨⟨decl', hget⟩, hid⟩ := hother
      have h' : requests[other.val]? = some (.declare decl') :=
        List.getElem?_eq_some_iff.2 ⟨other.isLt, hget⟩
      rw [Fin.ext (eq_of_idAt_eq room h' h hid)]
  rw [newId, hfound, reorder, idAt_map_rename]

end Order

end Request
end CustomizationPoints
