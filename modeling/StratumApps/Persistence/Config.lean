import StratumApps.Lib.Handler
import StratumApps.Lib.Map
import StratumApps.Persistence.Composite

namespace Persistence

structure FileBackendConfig where
  filePath    : String
  channelSize : ℕ := 10000
  entities    : List String := ["shares"]
  fallback    : Option String := none

structure MetricsBackendConfig where
  resourcePath : String
  port         : UInt16
  entities     : List String := ["shares"]
  fallback     : Option String := none

structure PersistenceConfig where
  file    : Option FileBackendConfig := none
  metrics : Option MetricsBackendConfig := none

inductive Error
  | io (message : String)
  | configMismatch
  | custom (message : String)
  deriving DecidableEq

def parseEntityType : String → Option EntityType
  | "shares" => some .share
  | _        => none

-- How the backends are made, which can fail.
structure Constructors (F M : Type) where
  file    : String → ℕ → Except Error F
  metrics : String → UInt16 → Except Error M

inductive Backend (F M : Type)
  | file (backend : F)
  | metrics (backend : M)
  deriving DecidableEq

-- The order in which a hash map is iterated over, which can be any.
structure Iteration (α : Type) where
  iterate : List α → List α
  perm    : ∀ l, (iterate l).Perm l

-- The maps that are filled from the sections of a configuration.
structure Tables (F M : Type) where
  backends         : Map String (Backend F M)
  backendEntities  : Map String (List EntityType)
  backendFallbacks : Map String (Option String)
  allEntities      : List EntityType

-- `Persistence` of the source, which hands events to its backend.
structure PersistenceManager (F M : Type) where
  backend         : CompositeBackend (Backend F M)
  enabledEntities : List EntityType

variable {F M : Type}

namespace Tables

def empty : Tables F M where
  backends         := ∅
  backendEntities  := ∅
  backendFallbacks := ∅
  allEntities      := []

variable (t : Tables F M)

def insert (name : String) (backend : Backend F M) (entities : List String)
    (fallback : Option String) : Tables F M :=
  let entities := entities.filterMap parseEntityType
  { backends         := t.backends.insert name backend
    backendEntities  := t.backendEntities.insert name entities
    backendFallbacks := t.backendFallbacks.insert name fallback
    allEntities      := t.allEntities ++ entities }

def route (name : String) (backend : Backend F M) : Except Error (BackendRoute (Backend F M)) :=
  let route : BackendRoute (Backend F M) :=
    { backend  := backend
      entities := (t.backendEntities.lookup name).getD []
      fallback := none }
  match t.backendFallbacks.lookup name with
  | some (some fallbackName) =>
    match t.backends.lookup fallbackName with
    | some fallback => .ok { route with fallback := some fallback }
    | none          =>
      .error <| .custom s!"Fallback '{fallbackName}' not found for backend '{name}'"
  | _ => .ok route

end Tables

def FileBackendConfig.insert (c : FileBackendConfig) (new : Constructors F M) (t : Tables F M) :
    Except Error (Tables F M) := do
  let backend ← new.file c.filePath c.channelSize
  return t.insert "file" (.file backend) c.entities c.fallback

def MetricsBackendConfig.insert (c : MetricsBackendConfig) (new : Constructors F M)
    (t : Tables F M) : Except Error (Tables F M) := do
  let backend ← new.metrics c.resourcePath c.port
  return t.insert "metrics" (.metrics backend) c.entities c.fallback

namespace PersistenceConfig

variable (cfg : PersistenceConfig) (new : Constructors F M)

def tables : Except Error (Tables F M) := do
  let t ← cfg.file.elim (pure .empty) (·.insert new .empty)
  cfg.metrics.elim (pure t) (·.insert new t)

def intoPersistence (order : Iteration ((_ : String) × Backend F M)) :
    Except Error (PersistenceManager F M) := do
  let t ← cfg.tables new
  if t.backends.entries.isEmpty then
    throw <| .custom <| "No persistence backends configured. " ++
      "Add [persistence.file] or [persistence.metrics] section."
  let routes ← (order.iterate t.backends.entries).mapM fun e => t.route e.1 e.2
  return { backend := ⟨routes⟩, enabledEntities := t.allEntities }

end PersistenceConfig

-- The event goes to the backend when its entity is enabled. What the backend returns is only logged.
def PersistenceManager.persist {Share σ : Type} (p : PersistenceManager F M)
    (P : PersistenceBackend (Backend F M) Share σ) (event : PersistenceEvent Share)
    (w : Backends (Backend F M) Share σ) : Backends (Backend F M) Share σ :=
  if event.entityType ∈ p.enabledEntities then (p.backend.persistEvent P event w).2 else w

-- A section of a configuration with the backend that is made from it.
structure Section (F M : Type) where
  name     : String
  backend  : Backend F M
  entities : List String
  fallback : Option String

def FileBackendConfig.toSection (c : FileBackendConfig) (new : Constructors F M) :
    Except Error (Section F M) := do
  let backend ← new.file c.filePath c.channelSize
  return ⟨"file", .file backend, c.entities, c.fallback⟩

def MetricsBackendConfig.toSection (c : MetricsBackendConfig) (new : Constructors F M) :
    Except Error (Section F M) := do
  let backend ← new.metrics c.resourcePath c.port
  return ⟨"metrics", .metrics backend, c.entities, c.fallback⟩

def PersistenceConfig.sections (cfg : PersistenceConfig) (new : Constructors F M) :
    Except Error (List (Section F M)) := do
  let file ← cfg.file.elim (pure []) fun c => return [← c.toSection new]
  let metrics ← cfg.metrics.elim (pure []) fun c => return [← c.toSection new]
  return file ++ metrics

namespace Section

variable (s : Section F M) (sections : List (Section F M))

def entityTypes : List EntityType :=
  s.entities.filterMap parseEntityType

def entry : (_ : String) × Backend F M :=
  ⟨s.name, s.backend⟩

-- The route of a section among the others, one of which may be its fallback.
def route : BackendRoute (Backend F M) where
  backend  := s.backend
  entities := s.entityTypes
  fallback := s.fallback.bind fun name => (sections.map entry).dlookup name

end Section

variable {cfg : PersistenceConfig} {new : Constructors F M} {sections : List (Section F M)}
variable {s : Section F M} {t : Tables F M}

-- What the maps hold for the sections that have been inserted.
structure Tables.Of (t : Tables F M) (sections : List (Section F M)) : Prop where
  backends  : t.backends.entries.Perm (sections.map Section.entry)
  entities  : ∀ s ∈ sections, t.backendEntities.lookup s.name = some s.entityTypes
  fallbacks : ∀ s ∈ sections, t.backendFallbacks.lookup s.name = some s.fallback
  enabled   : ∀ s ∈ sections, s.entityTypes ⊆ t.allEntities

namespace Tables.Of

theorem empty : (empty : Tables F M).Of [] where
  backends  := .refl _
  entities  := by simp
  fallbacks := by simp
  enabled   := by simp

theorem insert (h : t.Of sections) (hs : s.name ∉ sections.map (·.name)) :
    (t.insert s.name s.backend s.entities s.fallback).Of (sections ++ [s]) := by
  have hne : ∀ s' ∈ sections, s'.name ≠ s.name := fun s' hs' heq =>
    hs <| List.mem_map.mpr ⟨s', hs', heq⟩
  have hb : s.name ∉ t.backends := fun hb => by
    rw [AList.mem_keys, AList.keys, List.keys, (h.backends.map _).mem_iff, List.map_map] at hb
    exact hs hb
  constructor
  case backends =>
    rw [Tables.insert, AList.entries_insert_of_notMem hb, List.map_append]
    exact (h.backends.cons _).trans (List.perm_append_singleton _ _).symm
  case entities =>
    intro s' hs'
    rw [Tables.insert, Map.lookup_insert_ite]
    rcases List.mem_append.mp hs' with hs' | hs'
    · rw [if_neg (hne s' hs'), h.entities s' hs']
    · cases List.mem_singleton.mp hs'
      rw [if_pos rfl, Section.entityTypes]
  case fallbacks =>
    intro s' hs'
    rw [Tables.insert, Map.lookup_insert_ite]
    rcases List.mem_append.mp hs' with hs' | hs'
    · rw [if_neg (hne s' hs'), h.fallbacks s' hs']
    · cases List.mem_singleton.mp hs'
      rw [if_pos rfl]
  case enabled =>
    intro s' hs'
    rcases List.mem_append.mp hs' with hs' | hs'
    · exact List.Subset.trans (h.enabled s' hs') (List.subset_append_left _ _)
    · cases List.mem_singleton.mp hs'
      exact List.subset_append_right _ _

end Tables.Of

open Handler

theorem FileBackendConfig.insert_eq_ok {c : FileBackendConfig} {t' : Tables F M}
    (h : c.insert new t = .ok t') : ∃ s, c.toSection new = .ok s ∧
      s.name = "file" ∧ (∃ b, s.backend = .file b) ∧
      t' = t.insert s.name s.backend s.entities s.fallback := by
  obtain ⟨b, hb, h⟩ := bind_eq_ok.mp h
  refine ⟨⟨"file", .file b, c.entities, c.fallback⟩, ?_, rfl, ⟨b, rfl⟩, (pure_eq_ok.mp h).symm⟩
  rw [toSection, hb]
  rfl

theorem MetricsBackendConfig.insert_eq_ok {c : MetricsBackendConfig} {t' : Tables F M}
    (h : c.insert new t = .ok t') : ∃ s, c.toSection new = .ok s ∧
      s.name = "metrics" ∧ (∃ b, s.backend = .metrics b) ∧
      t' = t.insert s.name s.backend s.entities s.fallback := by
  obtain ⟨b, hb, h⟩ := bind_eq_ok.mp h
  refine ⟨⟨"metrics", .metrics b, c.entities, c.fallback⟩, ?_, rfl, ⟨b, rfl⟩, (pure_eq_ok.mp h).symm⟩
  rw [toSection, hb]
  rfl

namespace PersistenceConfig

-- The maps are those of the sections, whose names and whose backends are all different.
theorem tables_of (h : cfg.tables new = .ok t) : ∃ sections, cfg.sections new = .ok sections ∧
    t.Of sections ∧ (sections.map (·.name)).Nodup ∧ (sections.map (·.backend)).Nodup := by
  obtain ⟨t₁, hf, hm⟩ := bind_eq_ok.mp h
  rw [sections]
  cases hcf : cfg.file with
  | none   =>
    rw [hcf] at hf
    cases pure_eq_ok.mp hf
    cases hcm : cfg.metrics with
    | none   =>
      rw [hcm] at hm
      cases pure_eq_ok.mp hm
      exact ⟨[], rfl, .empty, .nil, .nil⟩
    | some m =>
      rw [hcm] at hm
      obtain ⟨s, hs, _, _, rfl⟩ := m.insert_eq_ok hm
      have hto : Tables.Of _ ([] ++ [s]) := Tables.Of.empty.insert (by simp)
      exact ⟨[s], by simp [hs], hto, by simp⟩
  | some f =>
    rw [hcf] at hf
    obtain ⟨s, hs, hn, ⟨b, hb⟩, rfl⟩ := f.insert_eq_ok hf
    have hto : Tables.Of _ ([] ++ [s]) := Tables.Of.empty.insert (by simp)
    cases hcm : cfg.metrics with
    | none   =>
      rw [hcm] at hm
      cases pure_eq_ok.mp hm
      exact ⟨[s], by simp [hs], hto, by simp⟩
    | some m =>
      rw [hcm] at hm
      obtain ⟨s', hs', hn', ⟨b', hb'⟩, rfl⟩ := m.insert_eq_ok hm
      have hne : s'.name ∉ [s].map (·.name) := by simp [hn, hn']
      exact ⟨[s, s'], by simp [hs, hs']; rfl, hto.insert hne, by simp [hn, hn'], by simp [hb, hb']⟩

end PersistenceConfig

-- What a route comes to when it can be made.
def Tables.routeOf (t : Tables F M) (e : (_ : String) × Backend F M) :
    BackendRoute (Backend F M) where
  backend  := e.2
  entities := (t.backendEntities.lookup e.1).getD []
  fallback := (t.backendFallbacks.lookup e.1).join.bind (t.backends.lookup ·)

theorem Tables.route_eq_ok {e : (_ : String) × Backend F M} {route : BackendRoute (Backend F M)}
    (h : t.route e.1 e.2 = .ok route) :
    (∀ name, t.backendFallbacks.lookup e.1 = some (some name) → name ∈ t.backends) ∧
      t.routeOf e = route := by
  rw [Tables.route] at h
  rw [Tables.routeOf]
  split at h
  case h_1 name hf =>
    split at h
    case h_1 b hb =>
      cases h
      refine ⟨fun name' hf' => ?_, by simp [hf, hb]⟩
      cases hf.symm.trans hf'
      exact Map.mem_iff_lookup.mpr ⟨b, hb⟩
    case h_2 => cases h
  case h_2 hf =>
    cases h
    refine ⟨fun name hl => absurd hl (hf name), ?_⟩
    cases hl : t.backendFallbacks.lookup e.1 with
    | none   => rfl
    | some f =>
      cases f with
      | none      => rfl
      | some name => exact absurd hl (hf name)

theorem Tables.Of.routeOf_entry (h : t.Of sections) (hs : s ∈ sections) :
    t.routeOf s.entry = s.route sections := by
  have hl (name : String) : t.backends.lookup name = (sections.map Section.entry).dlookup name :=
    List.perm_dlookup name t.backends.nodupKeys h.backends
  simp only [Tables.routeOf, Section.route, Section.entry, h.entities s hs, h.fallbacks s hs, hl,
    Option.getD_some, Option.join_some]

namespace PersistenceConfig

variable {order : Iteration ((_ : String) × Backend F M)} {p : PersistenceManager F M}

-- Each section becomes one route, in some order, and its fallback is one of the sections.
theorem intoPersistence_routes (h : cfg.intoPersistence new order = .ok p) :
    ∃ sections, cfg.sections new = .ok sections ∧
      (sections.map (·.name)).Nodup ∧ (sections.map (·.backend)).Nodup ∧
      p.backend.routes.Perm (sections.map (·.route sections)) ∧
      (∀ s ∈ sections, ∀ name, s.fallback = some name → ∃ s' ∈ sections, s'.name = name) ∧
      ∀ s ∈ sections, s.entityTypes ⊆ p.enabledEntities := by
  obtain ⟨t, ht, h⟩ := bind_eq_ok.mp h
  obtain ⟨sections, hs, hto, hn, hb⟩ := tables_of ht
  by_cases he : t.backends.entries.isEmpty
  case pos =>
    rw [if_pos he] at h
    cases h
  case neg =>
    rw [if_neg he] at h
    obtain ⟨routes, hr, h⟩ := bind_eq_ok.mp h
    cases pure_eq_ok.mp h
    have hr := (forall₂_of_mapM hr).imp fun e route => Tables.route_eq_ok
    obtain ⟨hk, hr⟩ := (List.forall₂_and_left _ _).mp hr
    rw [← List.forall₂_map_left_iff, List.forall₂_eq_eq_eq] at hr
    have hp : (order.iterate t.backends.entries).Perm (sections.map Section.entry) :=
      (order.perm _).trans hto.backends
    refine ⟨sections, hs, hn, hb, ?_, fun s hs name hf => ?_, hto.enabled⟩
    · have hr' : sections.map (·.route sections) = (sections.map Section.entry).map t.routeOf := by
        rw [List.map_map]
        exact List.map_congr_left fun s hs => (hto.routeOf_entry hs).symm
      rw [← hr, hr']
      exact hp.map _
    · have hm : name ∈ t.backends := hk s.entry
        (hp.mem_iff.mpr <| List.mem_map_of_mem hs) name (hf ▸ hto.fallbacks s hs)
      rw [AList.mem_keys, AList.keys, List.keys, (hto.backends.map _).mem_iff, List.map_map] at hm
      obtain ⟨s', hs', hn'⟩ := List.mem_map.mp hm
      exact ⟨s', hs', hn'⟩

end PersistenceConfig

end Persistence
