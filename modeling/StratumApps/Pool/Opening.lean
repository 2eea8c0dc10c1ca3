import StratumApps.Pool.Answers

open Sv2 Handler StratumCore

namespace Pool

variable {C : StratumCore} {cfg : Config} {d : DownstreamId} {c : ChannelId} {m : Mining}
variable {t : NewTemplate} {p : SetNewPrevHash}

namespace ChannelManager

variable {s s' : ChannelManager C} {D : Downstream C} {messages : List RouteMessageTo}

-- What a request to open a channel needs apart from a prev hash that fits the template.
structure AcceptsStandard (s : ChannelManager C) (cfg : Config) (D : Downstream C)
    (msg : OpenStandardMiningChannel) (t : NewTemplate) : Prop where
  work    : D.requiresCustomWork = false
  group   : (!D.requiresStandardJobs && D.groupChannels.isNone) = true →
    ∃ g₀ g₁, C.group.newForPool D.channelIdFactory fullExtranonceSize cfg.poolTagString = .ok g₀ ∧
      C.group.onNewTemplate g₀ t [cfg.poolCoinbaseOutput t] = (.ok (), g₁)
  channel : ∃ pre ch c₁,
    (C.extranonce.nextPrefixStandard s.extranoncePrefixFactoryStandard).1 = .ok pre ∧
      C.standard.newForPool (standardParams cfg (standardChannelId D) pre msg) cfg.poolTagString =
        .ok ch ∧
      (C.standard.getExtranoncePrefix ch).length ≤ 32 ∧
      C.standard.onNewTemplate ch t [cfg.poolCoinbaseOutput t] = (.ok (), c₁)
  vardiff : Returns C.vardiff.new

structure AcceptsExtended (s : ChannelManager C) (cfg : Config) (D : Downstream C)
    (msg : OpenExtendedMiningChannel) (t : NewTemplate) (p : SetNewPrevHash) : Prop where
  channel : ∃ pre ch,
    (C.extranonce.nextPrefixExtended s.extranoncePrefixFactoryExtended
      msg.minExtranonceSize.toNat).1 = .ok pre ∧
      C.extended.newForPool (extendedParams cfg D.channelIdFactory pre msg) true
        msg.minExtranonceSize cfg.poolTagString = .ok ch ∧
      (C.extended.getExtranoncePrefix ch).length ≤ 32 ∧
      if D.requiresCustomWork then ∃ c₁, C.extended.onSetNewPrevHash ch p = (.ok (), c₁) else
        ∃ c₁, C.extended.onNewTemplate ch t [cfg.poolCoinbaseOutput t] = (.ok (), c₁)
  vardiff : Returns C.vardiff.new

def Accepts (s : ChannelManager C) (cfg : Config) (D : Downstream C) (t : NewTemplate)
    (p : SetNewPrevHash) : Mining → Prop
  | .openStandardMiningChannel msg => s.AcceptsStandard cfg D msg t
  | .openExtendedMiningChannel msg => s.AcceptsExtended cfg D msg t p
  | _                              => False

section Accepted

variable (hC : C.Lawful) (hR : C.Refuses) (ht : t.futureTemplate = true)
variable (hf : s.lastFutureTemplate = some t) (hp : s.lastNewPrevHash = some p)
include hC hR ht hf hp

end Accepted

-- The channel of that id mines on a job made from the template with that id.
def Mines {κ μ ε : Type} (J : JobStore κ μ ε) (t : TemplateId) (channels : Map ChannelId κ)
    (c : ChannelId) : Prop :=
  ∃ ch job, channels.lookup c = some ch ∧ J.getActiveJob ch = some job ∧ job.getTemplateId = some t

-- The request is answered with the id of a channel that is open and mines on that template, or
-- waits for custom work.
def Opened (s' : ChannelManager C) (d : DownstreamId) (messages : List RouteMessageTo)
    (t : TemplateId) : Mining → Prop
  | .openStandardMiningChannel msg => ∃ D' success,
    .downstream d (.openStandardMiningChannelSuccess success) ∈ messages ∧
      success.requestId = msg.requestId ∧ s'.downstream.lookup d = some D' ∧
      Mines C.standard.toJobStore t D'.standardChannels success.channelId
  | .openExtendedMiningChannel msg => ∃ D' success,
    .downstream d (.openExtendedMiningChannelSuccess success) ∈ messages ∧
      success.requestId = msg.requestId ∧ s'.downstream.lookup d = some D' ∧
      if D'.requiresCustomWork then success.channelId ∈ D'.extendedChannels else
        Mines C.extended.toJobStore t D'.extendedChannels success.channelId
  | _ => False

end ChannelManager

namespace System

variable {s s' : System C} {tr : List (Machine.Event (System C) Action)}

end System

namespace Sample

-- A request waits for the manager after those templates and prev hashes.
def request (templates : List Action) : List Action :=
  templates ++ connected ++ [.receive 1 openStandard]

def activated : List Action :=
  [future 1, prevHash 1]

end Sample

end Pool
