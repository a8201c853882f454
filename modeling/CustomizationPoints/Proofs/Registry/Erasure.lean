import CustomizationPoints.Proofs.Registry.Filling
import CustomizationPoints.Proofs.Registry.Names

/-!
# Requests that leave no trace

While a registry is being filled, some requests change nothing: those that are refused, and those
that announce a function whose name is announced already.  They can be left out of a session.  What
is left runs as before, request by request: each finds the same registry and gets the same answer,
the same new identity among them, and the registry at the end is the same.

That a single refusal changes nothing is shown for the work in place, which writes to the registry
as it goes (`Filling.commits_declare`).  Here it is lifted to sessions of any length, with any
choice of what to leave out (`requests_erasable`).
-/

namespace CustomizationPoints

/-- A request of a session, with the registry that it found and the answer that it got: the
identity of the new declaration, if there is one, or the reason of the refusal. -/
structure Exchange where
  request : Request
  before : Registry
  answer : Except RegistrationError (Option DeclId)

namespace Exchange

/-- The request was granted. -/
def isGranted (exchange : Exchange) : Bool := exchange.answer.isOk

/-- The request announces a function whose name is announced already. -/
def isRepeated (exchange : Exchange) : Bool :=
  match exchange.request with
  | .declare _ => false
  | .announce name => exchange.before.use? name = some .ordinaryFunction

/-- The request did nothing. -/
def isIdle (exchange : Exchange) : Bool := !exchange.isGranted || exchange.isRepeated

/-- Some exchanges of a session, in order; those that are missing did nothing. -/
inductive Thins : List Exchange → List Exchange → Prop where
  | nil : Thins [] []
  | keep (exchange : Exchange) {kept all : List Exchange} (rest : Thins kept all) :
      Thins (exchange :: kept) (exchange :: all)
  | drop {exchange : Exchange} {kept all : List Exchange}
      (idle : exchange.isIdle = true) (rest : Thins kept all) :
      Thins kept (exchange :: all)

/-- All refused requests may be missing at once. -/
theorem thins_granted (exchanges : List Exchange) :
    Thins (exchanges.filter (·.isGranted)) exchanges := by
  induction exchanges with
  | nil => exact .nil
  | cons exchange rest ih =>
    cases h : exchange.isGranted with
    | true =>
      rw [List.filter_cons_of_pos h]
      exact .keep exchange ih
    | false =>
      rw [List.filter_cons_of_neg (by rw [h]; exact Bool.false_ne_true)]
      exact .drop (by rw [isIdle, h]; rfl) ih

end Exchange

namespace Filling

variable (conversions : Conversions Id)

/-- A request served in place: the answer, and the registry that it leaves. -/
def serve (registry : Registry) :
    Request → Except RegistrationError (Option DeclId) × Registry
  | .declare decl =>
    Prod.map (Except.map some) id ((declare conversions decl).run.run registry).run
  | .announce name =>
    Prod.map (Except.map fun _ => none) id ((announce name : Filling Id Unit).run.run registry).run

/-- The exchanges of a session and the registry at its end. -/
def session (registry : Registry) : List Request → List Exchange × Registry
  | [] => ([], registry)
  | request :: rest =>
    let served := serve conversions registry request
    let others := session served.2 rest
    (⟨request, registry, served.1⟩ :: others.1, others.2)

variable {conversions}

/-! ## One request -/

theorem serve_declare (registry : Registry) (decl : Declaration) :
    serve conversions registry (.declare decl) = committed registry
      ((outcome (registry.register conversions decl)).map fun new => (some new.1, new.2)) := by
  have hrun : (declare conversions decl).run.run registry =
      committed registry (outcome (registry.register conversions decl)) :=
    commits_declare registry conversions decl
  rw [serve, hrun]
  cases outcome (registry.register conversions decl) <;> rfl

theorem serve_announce (registry : Registry) (name : QualifiedName) :
    serve conversions registry (.announce name) =
      committed registry ((registry.announce name).map fun next => (none, next)) := by
  rw [serve, run_announce]
  cases registry.announce name <;> rfl

/-- **A request is granted by one of the steps, or it leaves the registry as it was.** -/
theorem serve_cases (conversions : Conversions Id) (registry : Registry) (request : Request) :
    (∃ answer next, registry.Step conversions request next ∧
      serve conversions registry request = (.ok answer, next)) ∨
    ∃ e, registry.attempt conversions request = .error e ∧
      serve conversions registry request = (.error e, registry) := by
  cases hattempt : registry.attempt conversions request with
  | ok next =>
    refine Or.inl ?_
    have step := Registry.attempt_eq_ok_iff.1 hattempt
    cases request with
    | declare decl =>
      obtain ⟨new, hnew, rfl⟩ := map_eq_ok_iff.1 hattempt
      exact ⟨some new.1, new.2, step, by rw [serve_declare, hnew]; rfl⟩
    | announce name =>
      rw [Registry.attempt] at hattempt
      exact ⟨none, next, step, by rw [serve_announce, hattempt]; rfl⟩
  | error e =>
    refine Or.inr ⟨e, rfl, ?_⟩
    cases request with
    | declare decl => rw [serve_declare, map_eq_error_iff.1 hattempt]; rfl
    | announce name =>
      rw [Registry.attempt] at hattempt
      rw [serve_announce, hattempt]
      rfl

/-- Served in place or not, a request leads to the same registry. -/
theorem serve_snd (registry : Registry) (request : Request) :
    (serve conversions registry request).2 = registry.after conversions request := by
  rcases serve_cases conversions registry request with
    ⟨answer, next, step, hserve⟩ | ⟨e, hattempt, hserve⟩
  · rw [hserve, Registry.after, Registry.attempt_eq_ok_iff.2 step]
  · rw [hserve, Registry.after, hattempt]

/-- A refused request, and a repeated announcement, leave the registry as it was. -/
theorem serve_of_idle {registry : Registry} {request : Request}
    (idle : Exchange.isIdle ⟨request, registry, (serve conversions registry request).1⟩ = true) :
    (serve conversions registry request).2 = registry := by
  rcases serve_cases conversions registry request with
    ⟨answer, next, step, hserve⟩ | ⟨e, -, hserve⟩
  · rw [hserve] at idle ⊢
    cases step with
    | declare _ => exact nomatch idle
    | announce free =>
      have known := of_decide_eq_true idle
      rw [free] at known
      exact nomatch known
    | repeated _ => rfl
  · rw [hserve]

/-- After a request, the names of announced functions are those from before and the one that it
announced. -/
theorem use?_serve (registry : Registry) (request : Request) (name : QualifiedName) :
    (serve conversions registry request).2.use? name = some .ordinaryFunction ↔
      registry.use? name = some .ordinaryFunction ∨
        request = .announce name ∧ (serve conversions registry request).1.isOk = true := by
  rcases serve_cases conversions registry request with
    ⟨answer, next, step, hserve⟩ | ⟨e, -, hserve⟩
  · rw [hserve]
    cases step with
    | @declare decl admits =>
      rw [Registry.use?_add]
      by_cases own : decl.qualifiedName? = some name
      · simp [own, admits.name name own]
      · simp [own]
    | @announce announced free =>
      rw [Registry.use?_insertFunction]
      by_cases own : name = announced
      · simp [own, Except.isOk, Except.toBool]
      · simp [own, Ne.symm own]
    | @repeated announced known =>
      by_cases own : name = announced
      · simp [own, known]
      · simp [Ne.symm own]
  · rw [hserve]
    simp [Except.isOk, Except.toBool]

/-! ## Sessions -/

/-- A session leads to the same registry as the requests do. -/
theorem session_snd (registry : Registry) (requests : List Request) :
    (session conversions registry requests).2 = registry.run conversions requests := by
  induction requests generalizing registry with
  | nil => rfl
  | cons request rest ih => rw [session, Registry.run_cons, ← serve_snd]; exact ih _

/-- Without requests that did nothing, a session is what was left of it. -/
theorem session_of_thins {registry : Registry} {requests : List Request} {kept : List Exchange}
    (thins : Exchange.Thins kept (session conversions registry requests).1) :
    session conversions registry (kept.map (·.request)) =
      (kept, (session conversions registry requests).2) := by
  induction requests generalizing registry kept with
  | nil =>
    cases thins
    rfl
  | cons request rest ih =>
    cases thins with
    | keep _ thins => rw [List.map_cons, session, ih thins, session]
    | drop idle thins =>
      -- the request that is left out changed nothing, so the others start where it started
      rw [serve_of_idle idle] at thins
      rw [ih thins, session, serve_of_idle idle]

/-- A name is announced already where it was announced before the session, or by an earlier
request. -/
theorem before_use?_iff {registry : Registry} {requests : List Request} {exchange : Exchange}
    {earlier later : List Exchange}
    (split : (session conversions registry requests).1 = earlier ++ exchange :: later)
    (name : QualifiedName) :
    exchange.before.use? name = some .ordinaryFunction ↔
      registry.use? name = some .ordinaryFunction ∨
        ∃ past ∈ earlier, past.request = .announce name ∧ past.isGranted = true := by
  induction requests generalizing registry earlier with
  | nil => exact absurd split (by simp [session])
  | cons request rest ih =>
    -- either the exchange is the first one, or the first one is among the earlier ones
    cases earlier with
    | nil =>
      obtain ⟨rfl, -⟩ := List.cons.inj split
      simp
    | cons first earlier =>
      obtain ⟨rfl, others⟩ := List.cons.inj split
      rw [ih others, use?_serve, or_assoc, List.exists_mem_cons_iff]
      rfl

/-- **Requests that do nothing leave no trace.**  Any of the refused requests and the repeated
announcements of a session can be left out: every other request finds the same registry as in the
full session and gets the same answer, and the registry at the end is the same, the one to which
all requests lead.  In particular the granted requests alone make the same registry.  An
announcement is a repeated one if its name was announced before the session or by an earlier
request. -/
theorem requests_erasable (conversions : Conversions Id) (registry : Registry)
    (requests : List Request) :
    let exchanges := (session conversions registry requests).1
    let granted := exchanges.filter (·.isGranted)
    (∀ kept, Exchange.Thins kept exchanges →
      session conversions registry (kept.map (·.request)) =
        (kept, registry.run conversions requests)) ∧
    session conversions registry (granted.map (·.request)) =
      (granted, registry.run conversions requests) ∧
    ∀ earlier exchange later, exchanges = earlier ++ exchange :: later →
      ∀ name, exchange.before.use? name = some .ordinaryFunction ↔
        registry.use? name = some .ordinaryFunction ∨
          ∃ past ∈ earlier, past.request = .announce name ∧ past.isGranted = true := by
  intro exchanges granted
  have thinned : ∀ kept, Exchange.Thins kept exchanges →
      session conversions registry (kept.map (·.request)) =
        (kept, registry.run conversions requests) := by
    intro kept thins
    rw [session_of_thins thins, session_snd]
  exact ⟨thinned, thinned granted (Exchange.thins_granted exchanges),
    fun earlier exchange later split => before_use?_iff split⟩

/-- A function is announced twice, and two declarations are refused: the name of the first is that
of the function, and the second overrides nothing that is registered. -/
def troubledSession : List Request :=
  [.announce ⟨.global, "h"⟩,
    .declare { space := .global, name := some "f" },
    .announce ⟨.global, "h"⟩,
    .declare { space := .global, name := some "h", parent := some ⟨0⟩ },
    .declare { space := .global, parent := some ⟨7⟩ },
    .declare { space := .global, name := some "g", parent := some ⟨0⟩ }]

/-- Three requests do all the work, and the last one gets the second identity either way. -/
theorem requests_erasable_troubledSession :
    ∃ kept, Exchange.Thins kept (session .identity .empty troubledSession).1 ∧
      kept.map (·.answer) = [.ok none, .ok (some ⟨0⟩), .ok (some ⟨1⟩)] ∧
      session .identity .empty (kept.map (·.request)) =
        (kept, Registry.empty.run .identity troubledSession) ∧
      ∃ first second repeated later,
        (session .identity .empty troubledSession).1 = [first, second] ++ repeated :: later ∧
          repeated.before.use? ⟨.global, "h"⟩ = some .ordinaryFunction := by
  obtain ⟨thinned, -, known⟩ := requests_erasable .identity .empty troubledSession
  obtain ⟨kept, thins, answers⟩ :
      ∃ kept, Exchange.Thins kept (session .identity .empty troubledSession).1 ∧
        kept.map (·.answer) = [.ok none, .ok (some ⟨0⟩), .ok (some ⟨1⟩)] :=
    ⟨_, .keep _ <| .keep _ <| .drop (by decide) <| .drop (by decide) <| .drop (by decide) <|
      .keep _ .nil, rfl⟩
  refine ⟨kept, thins, answers, thinned kept thins, _, _, _, _, rfl, ?_⟩
  exact (known [_, _] _ _ rfl ⟨.global, "h"⟩).2 (Or.inr ⟨_, List.mem_cons_self, rfl, rfl⟩)

end Filling
end CustomizationPoints
