import StratumApps.Pool.Work

open Sv2 Handler StratumCore

namespace Pool

variable {C : StratumCore} {cfg : Config} {d : DownstreamId} {c : ChannelId}
variable {messages : List RouteMessageTo}

namespace ChannelManager

variable {s s' : ChannelManager C} {D : Downstream C}

section Vardiff

variable {key : VardiffKey} {vardiff vardiff' : C.VardiffState}

variable {κ μ ω ε : Type} {S : ShareChannels κ μ ω ε} {channels channels' : Map ChannelId κ}

end Vardiff

section Flag

variable {D' : Downstream C}

def customWork (s : ChannelManager C) (d : DownstreamId) : Option Bool :=
  (s.downstream.lookup d).map (·.requiresCustomWork)

theorem bare_iff {V : Set ChannelId} :
    D.Bare ↔ (D.ids V).group = none ∧ (D.ids V).standard = ∅ := by
  rw [Downstream.ids, Option.map_eq_none_iff, Set.eq_empty_iff_forall_notMem]
  exact ⟨fun h => ⟨h.groupChannels, h.standardChannels⟩, fun h => ⟨h.left, h.right⟩⟩

-- A downstream that brings its own work has no channels that the pool makes work for.
def BringsOwn (s : ChannelManager C) (d : DownstreamId) : Prop :=
  ∀ D, s.downstream.lookup d = some D → D.requiresCustomWork = true → D.Bare

theorem bringsOwn_iff : s.BringsOwn d ↔ (s.customWork d = some true →
    ∀ x, s.ids d = some x → x.group = none ∧ x.standard = ∅) := by
  simp only [BringsOwn, customWork, ids, Option.map_eq_some_iff, bare_iff (V := s.vardiffIds d)]
  constructor
  · rintro h ⟨D, hD, hw⟩ x ⟨D₁, hD₁, rfl⟩
    cases hD.symm.trans hD₁
    exact h D hD hw
  · exact fun h D hD hw => h ⟨D, hD, hw⟩ _ ⟨D, hD, rfl⟩

theorem BringsOwn.of_same (h : s.BringsOwn d) (hw : s'.customWork d = s.customWork d)
    (hi : s'.ids d = s.ids d) : s'.BringsOwn d := by
  rw [bringsOwn_iff, hw, hi]
  exact bringsOwn_iff.mp h

theorem BringsOwn.new (h : s.downstream.lookup d = some .new) : s.BringsOwn d := by
  intro D hD hw
  cases h.symm.trans hD
  cases hw

end Flag

end ChannelManager

namespace System

variable {s s' : System C} {a : Action} {tr : List (Machine.Event (System C) Action)}

def BringsOwn (s : System C) : Prop :=
  ∀ d, s.manager.BringsOwn d

-- The work that a step sends: none to the extended channels of a downstream that brings its own, and
-- one message of each kind to every extended channel of the others. The group channel and, with a
-- prev hash, the standard channels of a downstream are told in front of them.
structure Supplies (s : System C) (a : Action) (s' : System C) (messages : List RouteMessageTo) :
    Prop where
  sent     : s'.sent = s.sent ++ messages
  custom   : ∀ d D, s.manager.downstream.lookup d = some D → D.requiresCustomWork = true →
    Idle d messages
  template : ∀ t, a = .templateMessage (.newTemplate t) → s'.status = .running → ∀ d D,
    s.manager.downstream.lookup d = some D → D.requiresCustomWork = false →
      ∃ l, jobs d messages = l ++ D.extendedChannels.keys ∧ l.length ≤ 1 ∧
        ∀ c ∈ l, ∃ g, D.groupChannels = some g ∧ C.group.getChannelId g = c
  prevHash : ∀ p, a = .templateMessage (.setNewPrevHash p) → s'.status = .running → ∀ d D,
    s.manager.downstream.lookup d = some D → D.requiresCustomWork = false →
      ∃ l, prevHashes d messages = l ++ D.extendedChannels.keys ∧
        ∀ c ∈ l, c ∈ D.standardChannels ∨
          ∃ g, D.groupChannels = some g ∧ C.group.getChannelId g = c
  opened   : a = .downstreamMessage → s'.status = .running → ∀ d D D' c,
    s.manager.downstream.lookup d = some D → s'.manager.downstream.lookup d = some D' →
      D.requiresCustomWork = false → c ∉ D.extendedChannels → c ∈ D'.extendedChannels →
        jobs d messages = [c] ∧ prevHashes d messages = [c]

theorem Supplies.idle (hs : s'.sent = s.sent ++ messages) (hi : ∀ d, Idle d messages)
    (ht : ∀ t, a ≠ .templateMessage (.newTemplate t))
    (hp : ∀ p, a ≠ .templateMessage (.setNewPrevHash p)) (hd : a ≠ .downstreamMessage) :
    s.Supplies a s' messages where
  sent           := hs
  custom d _ _ _ := hi d
  template t h   := absurd h (ht t)
  prevHash p h   := absurd h (hp p)
  opened h       := absurd h hd

theorem Supplies.quiet (hs : s'.sent = s.sent) (ht : ∀ t, a ≠ .templateMessage (.newTemplate t))
    (hp : ∀ p, a ≠ .templateMessage (.setNewPrevHash p)) (hd : a ≠ .downstreamMessage) :
    s.Supplies a s' [] :=
  .idle (by rw [hs, List.append_nil]) (fun _ => ⟨rfl, rfl⟩) ht hp hd

-- A step that ends the pool sends nothing.
theorem Supplies.stopped {fault : Fault PoolError} (hs : s'.sent = s.sent)
    (hf : s'.status = .stopped fault) : s.Supplies a s' [] where
  sent           := by rw [hs, List.append_nil]
  custom _ _ _ _ := ⟨rfl, rfl⟩
  template _ _ h := nomatch hf.symm.trans h
  prevHash _ _ h := nomatch hf.symm.trans h
  opened _ h     := nomatch hf.symm.trans h

end System

namespace Sample

def openExtended : Mining :=
  .openExtendedMiningChannel ⟨1, "miner", 0x447a0000, .allOnes 256, 4⟩

end Sample

end Pool
