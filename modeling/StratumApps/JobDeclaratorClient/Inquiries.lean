import StratumApps.JobDeclaratorClient.Messages
import StratumApps.JobDeclaratorClient.Provenance
import StratumApps.JobDeclaratorClient.Registry

open Sv2 Handler StratumCore

namespace StratumCore

-- A channel that finds a block with a template says which, and it is that of one of its jobs.
structure ShareChannels.Finds {κ μ ω ε : Type} (S : ShareChannels κ μ ω ε) : Prop where
  blockFound : ∀ c share hash t coinbase,
    (S.validateShare c share).1 = .ok (.blockFound hash (some t) coinbase) →
      ∃ job, S.Accepts c job ∧ job.getTemplateId = some t

structure Finds (C : StratumCore) : Prop where
  standard : C.standard.toShareChannels.Finds
  extended : C.extended.toShareChannels.Finds

namespace JobStore

variable {κ μ ε : Type} {J : JobStore κ μ ε} {A B : NewTemplate → Prop} {c : κ}

-- The jobs of the channel are all of templates of that kind.
def Of (J : JobStore κ μ ε) (A : NewTemplate → Prop) (c : κ) : Prop :=
  ∀ job, J.Knows c job → ∃ t, job.template = some t ∧ A t

theorem Of.mono (h : J.Of A c) (ha : ∀ t, A t → B t) : J.Of B c := by
  intro job hj
  obtain ⟨t, ht, h⟩ := h job hj
  exact ⟨t, ht, ha t h⟩

variable [JobMessage μ]

end JobStore

-- A block that one of the channels finds is of such a template.
theorem ShareChannels.Finds.template {κ μ ω ε : Type} {S : ShareChannels κ μ ω ε} (h : S.Finds)
    {A : NewTemplate → Prop} {channels : Map ChannelId κ} {t : TemplateId}
    (hx : ∀ c x, channels.lookup c = some x → S.Of A x) (hs : S.Solves channels t) :
    ∃ template, A template ∧ template.templateId = t := by
  obtain ⟨c, x, share, hash, coinbase, hl, hv⟩ := hs
  obtain ⟨job, hj, ht⟩ := h.blockFound x share hash t coinbase hv
  obtain ⟨template, hm, ha⟩ := hx c x hl job (.inl hj)
  rw [Job.getTemplateId, hm] at ht
  exact ⟨template, ha, Option.some.inj ht⟩

end StratumCore

namespace Jdc

variable {C : StratumCore} {cfg : Config} {d : DownstreamId} {A B : NewTemplate → Prop}
variable {P : TemplateId → Prop} {messages messages' : List RouteMessageTo} {mode : JdMode}

-- The template that a message to the template provider is about.
def RouteMessageTo.named : RouteMessageTo → Option TemplateId
  | templateProvider (.requestTransactionData m) => some m.templateId
  | templateProvider (.submitSolution m)         => some m.templateId
  | _                                            => none

-- The messages to the template provider are about such templates only.
def Names (P : TemplateId → Prop) : List RouteMessageTo → Prop :=
  Only fun m => ∀ t, m.named = some t → P t

theorem Names.mono {Q : TemplateId → Prop} (h : Names P messages) (hp : ∀ t, P t → Q t) :
    Names Q messages :=
  fun m hm t ht => hp t (h m hm t ht)

namespace System

open ChannelManager

variable {s s' : System C} {a : Action} {tr : List (Event C)}

end System

end Jdc
