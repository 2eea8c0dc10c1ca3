import StratumApps.JobDeclaratorClient.Channels
import StratumApps.JobDeclaratorClient.Prefixes

open Sv2 Handler StratumCore

namespace Jdc

variable {C : StratumCore} {cfg : Config} {d : DownstreamId} {p : Bytes}

-- A channel that keeps its prefix, or has one that starts with that of the upstream.
def Stemmed {κ μ ω ε : Type} (S : ShareChannels κ μ ω ε) (p : Bytes) : Option κ → κ → Prop :=
  Map.Continues (fun x x' => S.getExtranoncePrefix x' = S.getExtranoncePrefix x)
    fun x => p <+: S.getExtranoncePrefix x

theorem Stemmed.startsWith {κ μ ω ε : Type} {S : ShareChannels κ μ ω ε} {o : Option κ} {x : κ}
    (h : Stemmed S p o x) (ho : ∀ x, o = some x → p <+: S.getExtranoncePrefix x) :
    p <+: S.getExtranoncePrefix x := by
  cases h with
  | kept he => exact he ▸ ho _ rfl
  | made hp => exact hp

namespace Downstream

variable {D D' : Downstream C}

end Downstream

namespace ChannelManager

variable {s s' s₁ : ChannelManager C}

-- The factories are made from the prefix of the upstream, and all channels have prefixes that start
-- with it.
structure Behind (s : ChannelManager C) (p : Bytes) : Prop where
  standard : C.extranonce.From p s.extranoncePrefixFactoryStandard
  extended : C.extranonce.From p s.extranoncePrefixFactoryExtended
  channels : ∀ e ∈ s.prefixes, p <+: e.2.2

theorem Behind.of_same (h : s.Behind p) (hs : s.SamePrefixes s') : s'.Behind p where
  standard := hs.standard ▸ h.standard
  extended := hs.extended ▸ h.extended
  channels e he := h.channels e (hs.channels.subset he)

-- The invariant: whatever the prefix of the upstream is, everything is behind it.
def Rooted (s : ChannelManager C) : Prop :=
  ∀ p, s.upstreamPrefix = some p → s.Behind p

theorem Rooted.of_same (h : s.Rooted) (hs : s.SamePrefixes s') : s'.Rooted :=
  fun p hp => (h p (hs.upstream.symm.trans hp)).of_same hs

section Templates

variable {t : NewTemplate} {tip : SetNewPrevHash} {o : Outcome C}

end Templates

section Upstream

variable {o : Outcome C}

-- Once the upstream channel has taken the prefix, all channels get theirs.
def Renews (s : ChannelManager C) (msg : SetExtranoncePrefix) : Prop :=
  ∀ upstream upstream' extranonces, s.upstreamChannel = some upstream →
    C.upstream.setExtranoncePrefix upstream msg.extranoncePrefix.1 = (.ok (), upstream') →
    newExtranonces msg.extranoncePrefix.1 (fullExtranonceSize msg upstream') = .ok extranonces →
    renewsDownstreams s.downstream.entries extranonces extranonces

-- A new channel of the upstream has a prefix that those of all channels start with already.
def Admits (s : ChannelManager C) (msg : OpenExtendedMiningChannelSuccess) : Prop :=
  ∀ outputs request extranonces, C.deserializeOutputs s.coinbaseOutputs = .ok outputs →
    s.pendingDownstreamRequests.head? = some request →
    newExtranonces (C := C) msg.extranoncePrefix.1
      (msg.extranoncePrefix.1.length + msg.extranonceSize.toNat) = .ok extranonces →
    ∀ e ∈ s.prefixes, msg.extranoncePrefix.1 <+: e.2.2

end Upstream

section Shares

-- The shares that messages forward to the upstream.
def forwarded (messages : List RouteMessageTo) : List SubmitSharesExtended :=
  messages.filterMap fun
    | .upstream (.submitSharesExtended share) => some share
    | _                                       => none

section Submit

variable {κ μ ω ε : Type} {S : ShareChannels κ μ ω ε}
variable {share : ShareFields} {prevHash : SetNewPrevHash} {channel : κ} {q : Bytes}

variable [JobMessage μ] [ShareMessage ω] {solutionExtranonce : Bytes → Bytes → Bytes → Bytes}
variable {channels : Map ChannelId κ} {set : Map ChannelId κ → Downstream C} {msg : ω}

end Submit

end Shares

end ChannelManager

namespace System

open ChannelManager

variable {s s' : System C} {a : Action}

-- The condition: a new channel of the upstream comes with a prefix that the channels are behind, and
-- a new prefix of the upstream is followed by one for every channel.
def Sound (s : ChannelManager C) : Action → Prop
  | .poolMessage (.openExtendedMiningChannelSuccess m) => s.Admits m
  | .poolMessage (.setExtranoncePrefix m)              => s.Renews m
  | _                                                  => True

end System

-- A client whose upstream has opened a channel for its first downstream.
namespace Rebased

open Sample

def joined : List Action :=
  [.setJdMode .coinbaseOnly, .setUpstreamState .noChannel, future 1, prevHash 1, .connect,
    openExtended 0, opened]

def share : Mining :=
  .submitSharesExtended (submit 0 1)

-- The upstream has a job for the template of the channel, and its prefix has changed in between.
def accepted : List Action :=
  joined ++ [allocate [1], prevHash 1, .poolMessage (.setCustomMiningJobSuccess ⟨7, 1, 5⟩),
    .poolMessage (.setExtranoncePrefix ⟨7, fit [8, 8]⟩)]

theorem accepted_exec : ((machine reference (config [] [])).exec (start rewardOutputs)
    accepted).any fun s =>
      (s.manager.handleDownstreamMessage (config [] []) 0 share).toOption.any fun o =>
        (ChannelManager.forwarded o.messages).map (·.extranonce.1) =
          [[0, 0, 0, 1, 1, 2, 3, 4]] := by
  decide +kernel

end Rebased

end Jdc
