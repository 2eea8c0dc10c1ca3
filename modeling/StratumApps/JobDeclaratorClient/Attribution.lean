import StratumApps.JobDeclaratorClient.Enrollment
import StratumApps.JobDeclaratorClient.Provenance
import StratumApps.JobDeclaratorClient.Translation

open Sv2 Handler StratumCore

namespace Jdc

variable {C : StratumCore} {cfg : Config} {d : DownstreamId}

namespace ChannelManager

variable {s s' : ChannelManager C} {D : Downstream C} {o : Outcome C} {t : TemplateId} {j : UpstreamJobId}

section Forwards

-- What a valid share for a job of the template is for the upstream, from a channel with that prefix.
-- It is sent once, as a share for the job that the upstream has given for the template, when there is
-- one and the upstream channel takes the share.
structure Credits (s : ChannelManager C) (share : ShareFields) (extranoncePrefix : Bytes)
    (t : TemplateId) (sent : List SubmitSharesExtended) : Prop where
  held    : s.jdMode = .soloMining ∨ s.upstreamChannel = none ∨
    s.templateIdToUpstreamJobId.lookup t = none → sent = []
  offered : ∀ upstream jobId, s.jdMode ≠ .soloMining → s.upstreamChannel = some upstream →
    s.templateIdToUpstreamJobId.lookup t = some jobId → ∃ extranonce : B032,
      extranonce.1 = extranoncePrefix.drop (C.upstream.getExtranoncePrefix upstream).length ++
        share.extranonce ∧
      (Returns (C.upstream.validateShare upstream (upstreamShare share upstream jobId extranonce)).1 →
        sent = [{ upstreamShare share upstream jobId extranonce with
          sequenceNumber := s.sequenceNumberFactory }]) ∧
      (¬Returns (C.upstream.validateShare upstream
        (upstreamShare share upstream jobId extranonce)).1 → sent = [])

variable {κ μ ω ε : Type} {S : ShareChannels κ μ ω ε} {share : ShareFields} {channel : κ}
variable {prevHash : SetNewPrevHash} {extranoncePrefix : Bytes} {msg : ω}

variable [JobMessage μ] [ShareMessage ω] {solutionExtranonce : Bytes → Bytes → Bytes → Bytes}
variable {channels : Map ChannelId κ} {set : Map ChannelId κ → Downstream C}

-- A valid share is for a job of its channel, and whichever such job it is, the share is forwarded as
-- one for the template of that job.
structure Attributes (s : ChannelManager C) (S : ShareChannels κ μ ω ε) (channel : κ)
    (share : ShareFields) (sent : List SubmitSharesExtended) : Prop where
  accepted : ∃ job, S.Accepts channel job ∧ job.getJobId = share.jobId
  credited : ∀ job, S.Accepts channel job → job.getJobId = share.jobId →
    ∃ t, job.getTemplateId = some t ∧ s.Credits share (S.getExtranoncePrefix channel) t sent

end Forwards

section Handlers

end Handlers

end ChannelManager

namespace System

open ChannelManager

variable {tr : List (Event C)} {s s' : System C} {a : Action} {t : TemplateId} {j : UpstreamJobId}

section Assigned

-- The upstream has given the job for the template, as the answer to the record of a template with
-- that id, and the client has not fallen back since.
structure Assigned (tr : List (Event C)) (t : TemplateId) (j : UpstreamJobId) : Prop where
  answered : ∃ tr₁ e tr₂ msg declared, tr = tr₁ ++ e :: tr₂ ∧
    (∀ e' ∈ tr₂, ∀ outputs, e'.act ≠ .fallback outputs) ∧
    e.act = .poolMessage (.setCustomMiningJobSuccess msg) ∧ msg.jobId = j ∧
    e.pre.manager.lastDeclareJobStore.lookup msg.requestId = some declared ∧
    declared.template.templateId = t ∧ Known tr₁ declared

theorem Assigned.snoc {e : Event C} (h : Assigned tr t j)
    (he : ∀ outputs, e.act ≠ .fallback outputs) : Assigned (tr ++ [e]) t j := by
  obtain ⟨tr₁, e₁, tr₂, msg, declared, rfl, hf, h⟩ := h
  refine ⟨tr₁, e₁, tr₂ ++ [e], msg, declared, by simp, fun e' he' => ?_, h⟩
  obtain he' | he' := List.mem_append.mp he'
  · exact hf e' he'
  · cases List.mem_singleton.mp he'
    exact he

end Assigned

section Attributed

variable {κ μ ω ε : Type} [JobMessage μ] [ShareMessage ω] {S : ShareChannels κ μ ω ε}
variable {share : ShareFields} {channel : κ} {prevHash : SetNewPrevHash} {msg : ω} {d : DownstreamId}
variable {solutionExtranonce : Bytes → Bytes → Bytes → Bytes} {channels : Map ChannelId κ}
variable {set : Map ChannelId κ → Downstream C}

-- What becomes of a valid share, when the client goes on: it is forwarded as one for the template of
-- its job. The registry does not know the jobs of a group of standard channels, which are left out.
-- A job that the upstream has for a template was given for a custom job of that template.
structure Attributed (tr : List (Event C)) (e : Event C) : Prop where
  standard : ∀ d msg D channel res, e.act = .downstreamMessage d (.submitSharesStandard msg) →
    e.pre.manager.downstream.lookup d = some D → D.groupChannels = none →
    D.standardChannels.lookup msg.channelId = some channel →
    (C.standard.validateShare channel msg).1 = .ok res → e.post.status = .running →
      e.pre.manager.Attributes C.standard.toShareChannels channel (standardShare msg)
        (forwarded (messages e))
  extended : ∀ d msg D channel res, e.act = .downstreamMessage d (.submitSharesExtended msg) →
    e.pre.manager.downstream.lookup d = some D →
    D.extendedChannels.lookup msg.channelId = some channel →
    (C.extended.validateShare channel msg).1 = .ok res → e.post.status = .running →
      e.pre.manager.Attributes C.extended.toShareChannels channel (extendedShare msg)
        (forwarded (messages e))
  assigned : ∀ t j, e.pre.manager.templateIdToUpstreamJobId.lookup t = some j → Assigned tr t j

end Attributed

end System

-- A miner submits a share for a template that the upstream has a job for.
namespace Submitted

open Sample Rebased

def submitted : List Action :=
  accepted ++ [.downstreamMessage 0 share]

end Submitted

end Jdc
