import StratumApps.Persistence.Config

namespace Persistence

variable {F M Share σ : Type} [DecidableEq F] [DecidableEq M]

-- The section says that its backend gets events like this one.
def Section.lists (event : PersistenceEvent Share) (s : Section F M) : Bool :=
  event.entityType ∈ s.entityTypes

-- What the sections make of an event that is persisted. Each section that lists it calls its backend,
-- and the one that it names as its fallback when that has failed.
structure Persists (sections : List (Section F M)) (event : PersistenceEvent Share)
    (tries : Section F M → List (Call (Backend F M) Share))
    (calls : List (Call (Backend F M) Share)) : Prop where
  tried  : ∀ s ∈ sections.filter (·.lists event), (s.route sections).Tries event (tries s)
  called : calls.Perm <| (sections.filter (·.lists event)).flatMap tries
  count  : ∀ b, calls.countP (·.backend = b) =
    (sections.filter (·.lists event)).countP (·.backend = b) +
    (sections.filter (·.lists event)).countP
      fun s => (s.route sections).fallback = some b ∧ FailedOver (tries s)
  works  : ∀ s ∈ sections.filter (·.lists event), ∀ b,
    b = s.backend ∨ (s.route sections).fallback = some b →
    (∀ c ∈ calls, c.backend = b → ¬c.Failed) → ∃ c ∈ calls, c.outcome = .ok ()

-- How often the sections have a backend called by `flush` and by `shutdown`.
def Reaches (sections : List (Section F M)) (calls : List (Backend F M)) : Prop :=
  ∀ b, calls.count b =
    sections.countP (·.backend = b) + sections.countP fun s => (s.route sections).fallback = some b

section Routes

variable {sections : List (Section F M)} {p : PersistenceManager F M}
variable {event : PersistenceEvent Share} {tries : Section F M → List (Call (Backend F M) Share)}

theorem countP_flatMap_tries {l : List (Section F M)} (b : Backend F M)
    (h : ∀ s ∈ l, (s.route sections).Tries event (tries s)) :
    (l.flatMap tries).countP (·.backend = b) = l.countP (·.backend = b) +
      l.countP fun s => (s.route sections).fallback = some b ∧ FailedOver (tries s) := by
  induction l with
  | nil         => rfl
  | cons s l ih =>
    obtain ⟨ht, h⟩ := List.forall_mem_cons.mp h
    have hb : (s.route sections).backend = s.backend := rfl
    rw [List.flatMap_cons, List.countP_append, ht.countP_backend, ih h, hb]
    simp only [List.countP_cons, decide_eq_true_eq]
    omega

theorem persists_of_perm {P : PersistenceBackend (Backend F M) Share σ}
    {w : Backends (Backend F M) Share σ} (hb : (sections.map (·.backend)).Nodup)
    (hp : p.backend.routes.Perm (sections.map (·.route sections))) :
    ∃ tries calls, (p.backend.persistEvent P event w).2.calls = w.calls ++ calls ∧
      Performs P w.state calls (p.backend.persistEvent P event w).2.state ∧
      Persists sections event tries calls := by
  obtain ⟨ls, hls, hc, hperf, _⟩ :=
    CompositeBackend.persistEvents_tries (P := P) event p.backend.routes none w
  have hfilter : (p.backend.routes.filter (·.handles event.entityType)).Perm
      ((sections.filter (·.lists event)).map (·.route sections)) := by
    refine (hp.filter _).trans ?_
    rw [List.filter_map]
    exact .refl _
  have hroutes : (sections.map (·.route sections)).Nodup := by
    refine .of_map (·.backend) ?_
    rw [List.map_map]
    exact hb
  have hn : (p.backend.routes.filter (·.handles event.entityType)).Nodup :=
    (hp.nodup_iff.mpr hroutes).filter _
  obtain ⟨f, rfl, hf⟩ := exists_tries_map hn hls
  have ht : ∀ s ∈ sections.filter (·.lists event),
      (s.route sections).Tries event (f (s.route sections)) := fun s hs =>
    hf _ <| hfilter.mem_iff.mpr <| List.mem_map_of_mem hs
  have hcalled : List.Perm ((p.backend.routes.filter (·.handles event.entityType)).map f).flatten
      ((sections.filter (·.lists event)).flatMap fun s => f (s.route sections)) := by
    have h := hfilter.flatMap_right f
    rwa [List.flatMap_map] at h
  refine ⟨fun s => f (s.route sections), _, hc, hperf, ht, hcalled, fun b => ?_, fun s hs b hsb hw => ?_⟩
  · rw [hcalled.countP_eq]
    exact countP_flatMap_tries b ht
  · have hsub : ∀ c ∈ f (s.route sections), c ∈ _ := fun c hm =>
      hcalled.mem_iff.mpr <| List.mem_flatMap.mpr ⟨s, hs, hm⟩
    obtain ⟨c, hm, hk⟩ := (ht s hs).persists hsb fun c hm => hw c (hsub c hm)
    exact ⟨c, hsub c hm, Call.outcome_of_not_failed hk⟩

theorem reaches_of_perm {op : Control (Backend F M) σ} {w : Controlled (Backend F M) σ}
    (hp : p.backend.routes.Perm (sections.map (·.route sections))) :
    ∃ calls, (CompositeBackend.controlAll op p.backend.routes none w).2.calls = w.calls ++ calls ∧
      (CompositeBackend.controlAll op p.backend.routes none w).2.state =
        op.performAll calls w.state ∧
      Reaches sections calls := by
  obtain ⟨hc, hx⟩ := CompositeBackend.controlAll_calls op p.backend.routes none w
  refine ⟨_, hc, hx, fun b => ?_⟩
  rw [count_reached, hp.countP_eq, hp.countP_eq, List.countP_map, List.countP_map]
  rfl

end Routes

variable {cfg : PersistenceConfig} {new : Constructors F M} {p : PersistenceManager F M}
variable {order : Iteration ((_ : String) × Backend F M)}

omit [DecidableEq F] [DecidableEq M] in
-- The enabled entities are those of the routes, so that no event is held back that a route handles.
theorem PersistenceManager.persist_eq (h : cfg.intoPersistence new order = .ok p)
    (P : PersistenceBackend (Backend F M) Share σ) (event : PersistenceEvent Share)
    (w : Backends (Backend F M) Share σ) :
    p.persist P event w = (p.backend.persistEvent P event w).2 := by
  obtain ⟨sections, _, _, _, hp, _, he⟩ := PersistenceConfig.intoPersistence_routes h
  rw [persist]
  split_ifs with hm
  case pos => rfl
  case neg =>
    have hr : ∀ route ∈ p.backend.routes, ¬route.handles event.entityType := by
      intro route hroute
      obtain ⟨s, hs, rfl⟩ := List.mem_map.mp <| hp.mem_iff.mp hroute
      simp only [BackendRoute.handles, decide_eq_true_eq]
      exact fun hh => hm (he s hs hh)
    rw [CompositeBackend.persistEvent, CompositeBackend.persistEvents_skips hr]

-- Whatever the order of the map is, each section has its route, so that its backend is called for it
-- and, as a fallback or with one, for others.
theorem PersistenceConfig.intoPersistence_wires (h : cfg.intoPersistence new order = .ok p) :
    ∃ sections, cfg.sections new = .ok sections ∧
      (sections.map (·.backend)).Nodup ∧
      (∀ s ∈ sections, ∀ name, s.fallback = some name → ∃ s' ∈ sections, s'.name = name) ∧
      (∀ (Share σ : Type) (P : PersistenceBackend (Backend F M) Share σ) event w, ∃ tries calls,
        (p.backend.persistEvent P event w).2.calls = w.calls ++ calls ∧
        Performs P w.state calls (p.backend.persistEvent P event w).2.state ∧
        Persists sections event tries calls) ∧
      ∀ (σ : Type) (op : Control (Backend F M) σ) w,
        (∃ calls, (p.backend.flush op w).2.calls = w.calls ++ calls ∧
          (p.backend.flush op w).2.state = op.performAll calls w.state ∧ Reaches sections calls) ∧
        ∃ calls, (p.backend.shutdown op w).2.calls = w.calls ++ calls ∧
          (p.backend.shutdown op w).2.state = op.performAll calls w.state ∧ Reaches sections calls := by
  obtain ⟨sections, hs, _, hb, hp, hf, _⟩ := intoPersistence_routes h
  exact ⟨sections, hs, hb, hf, fun _ _ _ _ _ => persists_of_perm hb hp,
    fun _ _ _ => ⟨reaches_of_perm hp, reaches_of_perm hp⟩⟩

namespace Sample

def infallible : Constructors Unit Unit where
  file _ _    := .ok ()
  metrics _ _ := .ok ()

def asInserted : Iteration ((_ : String) × Backend Unit Unit) where
  iterate := id
  perm l  := .refl l

def shares : PersistenceConfig where
  file    := some { filePath := "./pool_shares.log", fallback := some "metrics" }
  metrics := some { resourcePath := "/metrics", port := 9091 }

-- The queue of the file is full.
def full : PersistenceBackend (Backend Unit Unit) Unit Unit
  | .file _, _, _    => (.error .channelFull, ())
  | .metrics _, _, _ => (.ok (), ())

def done : Control (Backend Unit Unit) Unit :=
  fun _ _ => (.ok (), ())

end Sample

open Sample in
theorem recorded_twice : ∃ p, shares.intoPersistence infallible asInserted = .ok p ∧
    ((p.backend.persistEvent full (.share ()) ⟨(), []⟩).2.calls.countP
      fun c => c.backend = .metrics () ∧ ¬c.Failed) = 2 ∧
    (p.backend.flush done ⟨(), []⟩).2.calls.count (.metrics ()) = 2 ∧
    (p.backend.shutdown done ⟨(), []⟩).2.calls.count (.metrics ()) = 2 := by
  exact ⟨_, rfl, by decide, by decide, by decide⟩

open Sample in
theorem intoPersistence_wires_sample : ∃ p, shares.intoPersistence infallible asInserted = .ok p ∧
    ∃ sections, shares.sections infallible = .ok sections ∧
      ∃ calls, (p.backend.flush done ⟨(), []⟩).2.calls = calls ∧ Reaches sections calls := by
  have h : shares.intoPersistence infallible asInserted = .ok _ := rfl
  obtain ⟨sections, hs, _, _, _, hr⟩ := PersistenceConfig.intoPersistence_wires h
  obtain ⟨calls, hc, _, hr⟩ := (hr Unit done ⟨(), []⟩).left
  exact ⟨_, h, sections, hs, calls, hc, hr⟩

end Persistence
