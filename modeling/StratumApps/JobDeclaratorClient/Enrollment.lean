import StratumApps.JobDeclaratorClient.Registry

open Sv2 Handler StratumCore

namespace Jdc

variable {C : StratumCore} {cfg : Config} {d d' : DownstreamId} {c c' : ChannelId}
variable {t : NewTemplate} {p : SetNewPrevHash} {outputs : List TxOut}

namespace ChannelManager

variable {s s' s₁ : ChannelManager C} {D D' D₁ : Downstream C} {o : Outcome C} {m n : ℕ}

-- What a channel needs for a share beside its jobs: a vardiff state, and a prev hash.
def Ready (s : ChannelManager C) (d : DownstreamId) (c : ChannelId) : Prop :=
  (d, c) ∈ s.vardiff ∧ s.lastNewPrevHash.isSome

def Enrolled (s : ChannelManager C) : Prop :=
  ∀ d D, s.downstream.lookup d = some D →
    D.Enrolled d s.downstreamChannelIdAndJobIdToTemplateId (s.Ready d)

-- No downstream runs out of channel ids by that many open requests.
def Room (n : ℕ) (s : ChannelManager C) : Prop :=
  ∀ d D, s.downstream.lookup d = some D → D.channelIdFactory.toNat + 2 * n < 2 ^ 32

theorem Room.mono (h : s.Room n) (hm : m ≤ n) : s.Room m := by
  intro d D hD
  have := h d D hD
  omega

-- No channel is opened, no channel gets a job, and the registry stays.
structure Stays (s s' : ChannelManager C) : Prop where
  downstream : s.downstream.Stems (Map.Continues Downstream.Stays fun _ => False) s'.downstream
  registry   : s'.downstreamChannelIdAndJobIdToTemplateId = s.downstreamChannelIdAndJobIdToTemplateId
  ready      : ∀ d c, s.Ready d c → s'.Ready d c

theorem stays_composes :
    Map.Composes (Map.Continues (Downstream.Stays (C := C)) fun _ => False) :=
  Map.Continues.composes .refl (fun _ _ _ => .trans) fun _ _ => False.elim

theorem Stays.of_same (hd : s'.downstream = s.downstream)
    (hr : s'.downstreamChannelIdAndJobIdToTemplateId = s.downstreamChannelIdAndJobIdToTemplateId)
    (hv : s'.vardiff = s.vardiff) (hp : s'.lastNewPrevHash = s.lastNewPrevHash) : s.Stays s' where
  downstream := hd ▸ .refl stays_composes _
  registry   := hr
  ready _ _  := And.imp (hv ▸ ·) (hp ▸ ·)

theorem Enrolled.stays (h : s.Enrolled) (hs : s.Stays s') : s'.Enrolled := by
  intro d D' hD'
  obtain ⟨D, hD, hst⟩ := hs.downstream.of_continues hD'
  rw [hs.registry]
  exact ((h d D hD).stays hst).mono (fun _ _ => rfl) fun c _ => hs.ready d c

theorem Room.stays (h : s.Room n) (hs : s.Stays s') : s'.Room n := by
  intro d D' hD'
  obtain ⟨D, hD, hst⟩ := hs.downstream.of_continues hD'
  rw [hst.channelIdFactory]
  exact h d D hD

-- A handler that changes a single downstream, and the records of it.
theorem Enrolled.insert (h : s.Enrolled) (hd : s'.downstream = s.downstream.insert d D')
    (hD : D'.Enrolled d s'.downstreamChannelIdAndJobIdToTemplateId (s'.Ready d))
    (hr : ∀ d' c, d' ≠ d → templateOf s'.downstreamChannelIdAndJobIdToTemplateId d' c =
      templateOf s.downstreamChannelIdAndJobIdToTemplateId d' c)
    (hv : ∀ d' c, d' ≠ d → s.Ready d' c → s'.Ready d' c) : s'.Enrolled := by
  intro d' D hl
  rw [hd, Map.lookup_insert_ite] at hl
  split at hl
  case isTrue he =>
    cases hl
    exact he ▸ hD
  case isFalse he => exact (h d' D hl).mono (fun c _ => hr d' c he) fun c _ => hv d' c he

theorem Room.insert (h : s.Room n) (hd : s'.downstream = s.downstream.insert d D')
    (hD : D'.channelIdFactory.toNat + 2 * n < 2 ^ 32) : s'.Room n := by
  intro d' D hl
  rw [hd, Map.lookup_insert_ite] at hl
  split at hl
  case isTrue  =>
    cases hl
    exact hD
  case isFalse => exact h d' D hl

section Opens

variable {prevHash : SetNewPrevHash} {paid : List TxOut} {extranoncePrefix : Bytes}

end Opens

section Messages

variable {κ μ ω ε : Type} [JobMessage μ] [ShareMessage ω] {S : ShareChannels κ μ ω ε}

end Messages

section Vardiff

variable {κ μ ω ε : Type} [JobMessage μ] [ShareMessage ω] {S : ShareChannels κ μ ω ε}

end Vardiff

section Templates

theorem Stays.renewToken {asked : Bool} (h : s.Stays s') : s.Stays (s'.renewToken cfg asked).1 := by
  rw [ChannelManager.renewToken]
  split <;> exact ⟨h.downstream, h.registry, h.ready⟩

variable {registry registry' : Registry} {messages messages' : List RouteMessageTo}
variable {ready : ChannelId → Prop}

end Templates

end ChannelManager

namespace System

open ChannelManager

variable {s s' : System C} {a : Action}

-- The condition: no downstream uses up its channel ids.
def Roomy (s : System C) (_ : Action) : Prop :=
  s.manager.Room (s.manager.pendingDownstreamRequests.length + 1)

end System

end Jdc
