import Mathlib

namespace Persistence

inductive EntityType
  | share
  deriving DecidableEq

-- The backends hand a share through. What is in it is left to them.
inductive PersistenceEvent (Share : Type)
  | share (s : Share)
  deriving DecidableEq

def PersistenceEvent.entityType {Share : Type} : PersistenceEvent Share → EntityType
  | .share _ => .share

inductive PersistenceError
  | channelFull
  | io (message : String)
  | connection (message : String)
  | encoding (message : String)
  | shutdown
  | custom (message : String)
  deriving DecidableEq

abbrev Outcome := Except PersistenceError Unit

structure Call (Backend Share : Type) where
  backend : Backend
  event   : PersistenceEvent Share
  outcome : Outcome

def Call.Failed {Backend Share : Type} (c : Call Backend Share) : Prop :=
  ∃ e, c.outcome = .error e

-- What all backends do with an event. They are shared between the routes, and perhaps with others, so
-- what a call finds may come from any call before it.
abbrev PersistenceBackend (Backend Share σ : Type) :=
  Backend → PersistenceEvent Share → σ → Outcome × σ

-- The state of all backends, with a record of the calls.
structure Backends (Backend Share σ : Type) where
  state : σ
  calls : List (Call Backend Share)

structure BackendRoute (Backend : Type) where
  backend  : Backend
  entities : List EntityType
  fallback : Option Backend

structure CompositeBackend (Backend : Type) where
  routes : List (BackendRoute Backend)

section Persist

variable {Backend Share σ : Type} (P : PersistenceBackend Backend Share σ)

namespace Backends

variable (w : Backends Backend Share σ)

def persistEvent (b : Backend) (event : PersistenceEvent Share) : Outcome × Backends Backend Share σ :=
  let r := P b event w.state
  (r.1, { state := r.2, calls := w.calls ++ [⟨b, event, r.1⟩] })

end Backends

namespace BackendRoute

variable (route : BackendRoute Backend) (event : PersistenceEvent Share)

def handles (entityType : EntityType) : Bool :=
  entityType ∈ route.entities

-- One round of the loop over the routes. A primary that fails without a fallback drops the event.
def persistEvent (lastError : Option PersistenceError) (w : Backends Backend Share σ) :
    Option PersistenceError × Backends Backend Share σ :=
  if route.handles event.entityType then
    match w.persistEvent P route.backend event with
    | (.ok _, w)    => (lastError, w)
    | (.error _, w) =>
      match route.fallback with
      | none          => (lastError, w)
      | some fallback =>
        match w.persistEvent P fallback event with
        | (.ok _, w)     => (lastError, w)
        | (.error e₂, w) => (some e₂, w)
  else
    (lastError, w)

end BackendRoute

namespace CompositeBackend

def persistEvents (event : PersistenceEvent Share) :
    List (BackendRoute Backend) → Option PersistenceError → Backends Backend Share σ →
      Option PersistenceError × Backends Backend Share σ
  | [], lastError, w              => (lastError, w)
  | route :: routes, lastError, w =>
    let r := route.persistEvent P event lastError w
    persistEvents event routes r.1 r.2

def persistEvent (c : CompositeBackend Backend) (event : PersistenceEvent Share)
    (w : Backends Backend Share σ) : Outcome × Backends Backend Share σ :=
  let r := persistEvents P event c.routes none w
  (r.1.elim (.ok ()) .error, r.2)

end CompositeBackend

end Persist

section Delivery

variable {Backend Share σ : Type} {P : PersistenceBackend Backend Share σ}
variable {route : BackendRoute Backend} {routes : List (BackendRoute Backend)}
variable {event : PersistenceEvent Share} {w : Backends Backend Share σ}
variable {calls calls' : List (Call Backend Share)} {lastError : Option PersistenceError}
variable {x x' x'' : σ}

-- The calls are made one after another: each has the outcome that its backend gives in the state that
-- it finds, and leaves the next one the state that comes of it.
inductive Performs (P : PersistenceBackend Backend Share σ) : σ → List (Call Backend Share) → σ → Prop
  | nil {x : σ} : Performs P x [] x
  | cons {x x' : σ} {b : Backend} {event : PersistenceEvent Share} {calls : List (Call Backend Share)} :
    Performs P (P b event x).2 calls x' → Performs P x (⟨b, event, (P b event x).1⟩ :: calls) x'

theorem Performs.append (h : Performs P x calls x') (h' : Performs P x' calls' x'') :
    Performs P x (calls ++ calls') x'' := by
  induction h with
  | nil       => exact h'
  | cons _ ih => exact .cons (ih h')

-- The calls that a route for the entity of an event makes for it: its primary, and where that fails
-- its fallback, if it has one.
inductive BackendRoute.Tries (route : BackendRoute Backend) (event : PersistenceEvent Share) :
    List (Call Backend Share) → Prop
  | persisted : Tries route event [⟨route.backend, event, .ok ()⟩]
  | dropped {e : PersistenceError} (h : route.fallback = none) :
    Tries route event [⟨route.backend, event, .error e⟩]
  | fellBack {e : PersistenceError} {fallback : Backend} {outcome : Outcome}
    (h : route.fallback = some fallback) :
    Tries route event [⟨route.backend, event, .error e⟩, ⟨fallback, event, outcome⟩]

-- A primary and its fallback have both failed.
def Lost : List (Call Backend Share) → Prop
  | [primary, fallback] => primary.Failed ∧ fallback.Failed
  | _                   => False

namespace BackendRoute

theorem persistEvent_skips (h : ¬route.handles event.entityType) :
    route.persistEvent P event lastError w = (lastError, w) :=
  if_neg h

-- The calls of one route, which are performed, and whether it leaves an error behind.
theorem persistEvent_tries (lastError : Option PersistenceError) (w : Backends Backend Share σ)
    (h : route.handles event.entityType) :
    ∃ calls, route.Tries event calls ∧
      (route.persistEvent P event lastError w).2.calls = w.calls ++ calls ∧
      Performs P w.state calls (route.persistEvent P event lastError w).2.state ∧
      ((route.persistEvent P event lastError w).1.isSome ↔ lastError.isSome ∨ Lost calls) := by
  have hp : Performs P w.state [⟨route.backend, event, (P route.backend event w.state).1⟩]
      (P route.backend event w.state).2 := .cons .nil
  rw [persistEvent, if_pos h, Backends.persistEvent]
  generalize P route.backend event w.state = r at hp
  obtain ⟨outcome, x⟩ := r
  cases outcome with
  | ok    => exact ⟨_, .persisted, rfl, hp, (or_iff_left id).symm⟩
  | error e =>
    cases hf : route.fallback with
    | none          => exact ⟨_, .dropped hf, rfl, hp, (or_iff_left id).symm⟩
    | some fallback =>
      have hp' : Performs P x [⟨fallback, event, (P fallback event x).1⟩] (P fallback event x).2 :=
        .cons .nil
      simp only [Backends.persistEvent]
      generalize P fallback event x = r at hp'
      obtain ⟨outcome, x'⟩ := r
      have ht : route.Tries event [⟨route.backend, event, .error e⟩, ⟨fallback, event, outcome⟩] :=
        .fellBack hf
      cases outcome with
      | ok    => exact ⟨_, ht, by simp, hp.append hp', by simp [Lost, Call.Failed]⟩
      | error => exact ⟨_, ht, by simp, hp.append hp', by simp [Lost, Call.Failed]⟩

end BackendRoute

namespace CompositeBackend

theorem persistEvents_skips (h : ∀ route ∈ routes, ¬route.handles event.entityType) :
    persistEvents P event routes lastError w = (lastError, w) := by
  induction routes with
  | nil                  => rfl
  | cons route routes ih =>
    obtain ⟨hr, h⟩ := List.forall_mem_cons.mp h
    rw [persistEvents, BackendRoute.persistEvent_skips hr]
    exact ih h

theorem persistEvents_tries (event : PersistenceEvent Share) (routes : List (BackendRoute Backend))
    (lastError : Option PersistenceError) (w : Backends Backend Share σ) :
    ∃ tries : List (List (Call Backend Share)),
      List.Forall₂ (BackendRoute.Tries · event) (routes.filter (·.handles event.entityType)) tries ∧
      (persistEvents P event routes lastError w).2.calls = w.calls ++ tries.flatten ∧
      Performs P w.state tries.flatten (persistEvents P event routes lastError w).2.state ∧
      ((persistEvents P event routes lastError w).1.isSome ↔
        lastError.isSome ∨ ∃ calls ∈ tries, Lost calls) := by
  induction routes generalizing lastError w with
  | nil => exact ⟨[], .nil, by simp [persistEvents], .nil, by simp [persistEvents]⟩
  | cons route routes ih =>
    rw [persistEvents]
    by_cases h : route.handles event.entityType
    case neg =>
      rw [BackendRoute.persistEvent_skips h, List.filter_cons, if_neg h]
      exact ih lastError w
    case pos =>
      have ⟨calls, ht, hc, hp, he⟩ := route.persistEvent_tries (P := P) lastError w h
      have ⟨tries, hts, hcs, hps, hes⟩ := ih (route.persistEvent P event lastError w).1
        (route.persistEvent P event lastError w).2
      rw [List.filter_cons, if_pos h]
      refine ⟨calls :: tries, .cons ht hts, ?_, hp.append hps, ?_⟩
      · rw [hcs, hc, List.append_assoc, List.flatten_cons]
      · rw [hes, he, or_assoc]
        simp

-- Whatever the backends do with it, every route for the entity of an event makes its calls, in the
-- order of the routes, and nothing else is called. The calls are performed, one after another, and
-- the result is an error when one of the routes has lost the event.
theorem persistEvent_delivers (P : PersistenceBackend Backend Share σ) (c : CompositeBackend Backend)
    (event : PersistenceEvent Share) (w : Backends Backend Share σ) :
    ∃ tries : List (List (Call Backend Share)),
      List.Forall₂ (BackendRoute.Tries · event)
        (c.routes.filter (·.handles event.entityType)) tries ∧
      (c.persistEvent P event w).2.calls = w.calls ++ tries.flatten ∧
      Performs P w.state tries.flatten (c.persistEvent P event w).2.state ∧
      ((∃ e, (c.persistEvent P event w).1 = .error e) ↔ ∃ calls ∈ tries, Lost calls) := by
  have ⟨tries, ht, hc, hp, he⟩ := persistEvents_tries (P := P) event c.routes none w
  refine ⟨tries, ht, hc, hp, ?_⟩
  rw [Option.isSome_none, Bool.false_eq_true, false_or] at he
  rw [← he, persistEvent]
  cases (persistEvents P event c.routes none w).1 <;> simp

end CompositeBackend

-- The calls of the routes as a function of the route, which says what each of them makes of the event.
theorem exists_tries_map {tries : List (List (Call Backend Share))} (hn : routes.Nodup)
    (h : List.Forall₂ (BackendRoute.Tries · event) routes tries) :
    ∃ f : BackendRoute Backend → List (Call Backend Share),
      tries = routes.map f ∧ ∀ route ∈ routes, route.Tries event (f route) := by
  classical
  induction h with
  | nil => exact ⟨fun _ => [], rfl, by simp⟩
  | @cons route calls routes tries ht hts ih =>
    obtain ⟨hr, hn⟩ := List.nodup_cons.mp hn
    obtain ⟨f, hf, hs⟩ := ih hn
    have hne : ∀ r ∈ routes, Function.update f route calls r = f r := fun r hm =>
      Function.update_of_ne (ne_of_mem_of_not_mem hm hr) _ _
    refine ⟨Function.update f route calls, ?_, ?_⟩
    · rw [List.map_cons, Function.update_self, List.map_congr_left hne, hf]
    · simp only [List.forall_mem_cons, Function.update_self]
      exact ⟨ht, fun r hm => (hne r hm).symm ▸ hs r hm⟩

instance : DecidablePred fun c : Call Backend Share => c.Failed
  | ⟨_, _, .error e⟩ => isTrue ⟨e, rfl⟩
  | ⟨_, _, .ok _⟩    => isFalse fun h => by
    obtain ⟨e, he⟩ := h
    cases he

theorem Call.outcome_of_not_failed {c : Call Backend Share} (h : ¬c.Failed) : c.outcome = .ok () := by
  cases ho : c.outcome with
  | ok    => rfl
  | error => exact absurd ⟨_, ho⟩ h

-- The primary has failed, which is the first to be called.
def FailedOver (calls : List (Call Backend Share)) : Prop :=
  ∃ c ∈ calls.head?, c.Failed

instance {calls : List (Call Backend Share)} : Decidable (FailedOver calls) :=
  Option.decidableExistsMem _

namespace BackendRoute.Tries

theorem countP_backend [DecidableEq Backend] (h : route.Tries event calls) (b : Backend) :
    calls.countP (·.backend = b) = (if route.backend = b then 1 else 0) +
      if route.fallback = some b ∧ FailedOver calls then 1 else 0 := by
  cases h with
  | persisted   => simp [FailedOver, Call.Failed, List.countP_cons]
  | dropped h   => simp [h, List.countP_cons]
  | fellBack h  => simp [FailedOver, Call.Failed, h, List.countP_cons, Nat.add_comm]

-- A backend of the route that fails in none of its calls has the event persisted.
theorem persists {b : Backend} (h : route.Tries event calls)
    (hb : b = route.backend ∨ route.fallback = some b)
    (hw : ∀ c ∈ calls, c.backend = b → ¬c.Failed) : ∃ c ∈ calls, ¬c.Failed := by
  cases h with
  | persisted  => exact ⟨_, List.mem_singleton_self _, by simp [Call.Failed]⟩
  | dropped h  =>
    obtain rfl | hb := hb
    · exact ⟨_, List.mem_singleton_self _, (List.forall_mem_cons.mp hw).left rfl⟩
    · rw [h] at hb
      cases hb
  | fellBack h =>
    have ⟨hp, hf⟩ := List.forall_mem_cons.mp hw
    obtain rfl | hb := hb
    · exact ⟨_, List.mem_cons_self, hp rfl⟩
    · cases h.symm.trans hb
      exact ⟨_, List.mem_cons_of_mem _ List.mem_cons_self, (List.forall_mem_cons.mp hf).left rfl⟩

end BackendRoute.Tries

end Delivery

section Control

variable {Backend σ : Type}

-- What all backends do when they are flushed, or shut down.
abbrev Control (Backend σ : Type) :=
  Backend → σ → Outcome × σ

-- The state of all backends, with a record of those that have been called.
structure Controlled (Backend σ : Type) where
  state : σ
  calls : List Backend

variable (op : Control Backend σ)

def Controlled.call (w : Controlled Backend σ) (b : Backend) : Outcome × Controlled Backend σ :=
  let r := op b w.state
  (r.1, { state := r.2, calls := w.calls ++ [b] })

def keepError (lastError : Option PersistenceError) : Outcome → Option PersistenceError
  | .ok _    => lastError
  | .error e => some e

-- One round of the loop over the routes in `flush` and in `shutdown`.
def BackendRoute.control (route : BackendRoute Backend) (lastError : Option PersistenceError)
    (w : Controlled Backend σ) : Option PersistenceError × Controlled Backend σ :=
  let r := w.call op route.backend
  let lastError := keepError lastError r.1
  match route.fallback with
  | none          => (lastError, r.2)
  | some fallback =>
    let r := r.2.call op fallback
    (keepError lastError r.1, r.2)

namespace CompositeBackend

def controlAll : List (BackendRoute Backend) → Option PersistenceError → Controlled Backend σ →
    Option PersistenceError × Controlled Backend σ
  | [], lastError, w              => (lastError, w)
  | route :: routes, lastError, w =>
    let r := route.control op lastError w
    controlAll routes r.1 r.2

variable (c : CompositeBackend Backend) (w : Controlled Backend σ)

def flush : Outcome × Controlled Backend σ :=
  let r := controlAll op c.routes none w
  (r.1.elim (.ok ()) .error, r.2)

def shutdown : Outcome × Controlled Backend σ :=
  let r := controlAll op c.routes none w
  (r.1.elim (.ok ()) .error, r.2)

end CompositeBackend

-- The primary is called, and then the fallback, whatever comes of it.
def BackendRoute.reached (route : BackendRoute Backend) : List Backend :=
  route.backend :: route.fallback.toList

-- What comes of a state when one backend after another is called.
def Control.performAll (op : Control Backend σ) (bs : List Backend) (x : σ) : σ :=
  bs.foldl (fun x b => (op b x).2) x

theorem BackendRoute.control_calls (op : Control Backend σ) (route : BackendRoute Backend)
    (lastError : Option PersistenceError) (w : Controlled Backend σ) :
    (route.control op lastError w).2.calls = w.calls ++ route.reached ∧
      (route.control op lastError w).2.state = op.performAll route.reached w.state := by
  rw [control, reached]
  cases route.fallback with
  | none   => exact ⟨rfl, rfl⟩
  | some b => simp [Controlled.call, Control.performAll]

theorem CompositeBackend.controlAll_calls (op : Control Backend σ)
    (routes : List (BackendRoute Backend)) (lastError : Option PersistenceError)
    (w : Controlled Backend σ) :
    (controlAll op routes lastError w).2.calls = w.calls ++ routes.flatMap (·.reached) ∧
      (controlAll op routes lastError w).2.state =
        op.performAll (routes.flatMap (·.reached)) w.state := by
  induction routes generalizing lastError w with
  | nil                  => simp [controlAll, Control.performAll]
  | cons route routes ih =>
    obtain ⟨hc, hx⟩ := route.control_calls op lastError w
    obtain ⟨hcs, hxs⟩ := ih (route.control op lastError w).1 (route.control op lastError w).2
    rw [controlAll, List.flatMap_cons]
    refine ⟨?_, ?_⟩
    · rw [hcs, hc, List.append_assoc]
    · rw [hxs, hx, Control.performAll, Control.performAll, Control.performAll, List.foldl_append]

theorem count_reached [DecidableEq Backend] (routes : List (BackendRoute Backend)) (b : Backend) :
    (routes.flatMap (·.reached)).count b =
      routes.countP (·.backend = b) + routes.countP (·.fallback = some b) := by
  induction routes with
  | nil                  => rfl
  | cons route routes ih =>
    have hr : route.reached.count b = (if route.backend = b then 1 else 0) +
        if route.fallback = some b then 1 else 0 := by
      rw [BackendRoute.reached]
      cases route.fallback <;> simp [List.count_cons, Nat.add_comm]
    simp only [List.flatMap_cons, List.count_append, List.countP_cons, decide_eq_true_eq, hr, ih]
    omega

end Control

end Persistence
