import StratumApps.JobDeclaratorClient.Channels

open Sv2 Handler StratumCore

namespace StratumCore.JobStore

variable {κ μ ε : Type} {J : JobStore κ μ ε} {P : κ → Prop} {A : NewTemplate → Prop} {c c' : κ}

-- A property of channels that is about their jobs, and that channels keep whatever they take, as long
-- as the templates are of that kind.
structure Steady (J : JobStore κ μ ε) (A : NewTemplate → Prop) (P : κ → Prop) : Prop where
  keeps    : ∀ c c', J.Keeps c c' → P c → P c'
  opened   : ∀ c k t outputs c₁ p c₂, A t → J.Fresh c k →
    J.onNewTemplate c t outputs = (.ok (), c₁) → J.onSetNewPrevHash c₁ p = (.ok (), c₂) → P c₂
  template : ∀ c t outputs, A t → P c → P (J.onNewTemplate c t outputs).2
  tip      : ∀ c p, P c → P (J.onSetNewPrevHash c p).2

-- The future jobs of a channel are stored under their templates.
def Stocked (J : JobStore κ μ ε) (c : κ) : Prop :=
  ∀ t job, J.futureJob c t = some job → job.getTemplateId = some t

theorem Stocked.keeps (h : J.Stocked c) (hk : J.Keeps c c') : J.Stocked c' := by
  rwa [Stocked, hk.futureJob]

-- Where the job of a template is, once a channel has made it.
def latest (J : JobStore κ μ ε) (c : κ) (t : NewTemplate) : Option (Job μ) :=
  if t.futureTemplate then J.futureJob c t.templateId else J.getActiveJob c

namespace Lawful

variable [JobMessage μ] {t : NewTemplate} {p : SetNewPrevHash} {outputs : List TxOut}

-- All jobs of a channel that has made one of a template are from before, but for that one.
theorem made (hJ : J.Lawful) (hn : J.onNewTemplate c t outputs = (.ok (), c')) :
    ∃ job, J.Makes c t outputs job ∧ J.latest c' t = some job ∧
      ∀ job', J.Knows c' job' → job' = job ∨ J.Knows c job' := by
  have past {job : Job μ} (hp : ∃ j, (J.getPastJobs c').lookup j = some job) : J.Knows c job :=
    have ⟨j, hj⟩ := hp
    .inl (hJ.newTemplatePast c t outputs c' j job hn hj)
  cases ht : t.futureTemplate with
  | true =>
    obtain ⟨_, ha, ⟨job, hm, hf⟩, ho⟩ := hJ.newFutureTemplate c t outputs c' ht hn
    refine ⟨job, hm, by rw [latest, if_pos ht, hf], ?_⟩
    rintro job' ((hact | hpast) | ⟨t', hfut⟩)
    · exact .inr (.inl (.inl (ha ▸ hact)))
    · exact .inr (past hpast)
    · by_cases ht' : t' = t.templateId
      case pos =>
        subst ht'
        exact .inl (Option.some_inj.mp (hfut.symm.trans hf))
      case neg => exact .inr (.inr ⟨t', ho t' ht' ▸ hfut⟩)
  | false =>
    obtain ⟨_, hs, job, hm, ha⟩ := hJ.newTemplate c t outputs c' ht hn
    refine ⟨job, hm, by rw [latest, if_neg (by simp [ht]), ha], ?_⟩
    rintro job' ((hact | hpast) | ⟨t', hfut⟩)
    · exact .inl (Option.some_inj.mp (hact.symm.trans ha))
    · exact .inr (past hpast)
    · exact .inr (.inr ⟨t', hs ▸ hfut⟩)

end Lawful

end StratumCore.JobStore

namespace Jdc

variable {C : StratumCore} {cfg : Config} {d : DownstreamId}

section Jobs

variable {κ μ ε : Type} {J : JobStore κ μ ε} {c c' : κ} {t : NewTemplate} {outputs : List TxOut}
variable {j : JobId} {job : Job μ}

end Jobs

-- The channels take a template. A standard channel may take the job that its group has made of it.
def Origins.taken (t : NewTemplate) (outputs : List TxOut) : Origins C where
  __            := Origins.template t outputs
  standard o x' := ∃ x, o = some x ∧ (x' = x ∨ x' = (C.standard.onNewTemplate x t outputs).2 ∨
    ∃ job, job.template = some t ∧
      x' = (C.standard.onGroupChannelJob (C.standard.onNewTemplate x t outputs).2 job).2)

-- A property for each kind of channel.
structure Traits (C : StratumCore) where
  standard : C.Standard → Prop
  extended : C.Extended → Prop
  group    : C.Group → Prop

namespace Traits

variable {T : Traits C}

-- A standard channel keeps it with a job that its group has made, too.
structure Steady (T : Traits C) (A : NewTemplate → Prop) : Prop where
  standard    : C.standard.Steady A T.standard
  extended    : C.extended.Steady A T.extended
  group       : C.group.Steady A T.group
  standardJob : ∀ x job t, job.template = some t → A t → T.standard x →
    T.standard (C.standard.onGroupChannelJob x job).2

end Traits

structure Downstream.All (T : Traits C) (D : Downstream C) : Prop where
  standard : ∀ c x, D.standardChannels.lookup c = some x → T.standard x
  extended : ∀ c x, D.extendedChannels.lookup c = some x → T.extended x
  group    : ∀ g, D.groupChannels = some g → T.group g

namespace ChannelManager

variable {s s' s₁ : ChannelManager C} {T : Traits C} {A : NewTemplate → Prop} {o : Outcome C}

def All (T : Traits C) (s : ChannelManager C) : Prop :=
  ∀ d D, s.downstream.lookup d = some D → D.All T

theorem All.getD (h : s.All T) (d : DownstreamId) : ((s.downstream.lookup d).getD .new).All T := by
  cases hl : s.downstream.lookup d with
  | none   => exact ⟨fun _ _ hx => (by cases hx), fun _ _ hx => (by cases hx),
      fun _ hg => (by cases hg)⟩
  | some D => exact h d D hl

section Template

variable {d : DownstreamId} {D D' : Downstream C} {t : NewTemplate} {outputs : List TxOut}

end Template

section Renew

variable {κ μ ω ε : Type} [JobMessage μ] [ShareMessage ω] {S : ShareChannels κ μ ω ε}

end Renew

end ChannelManager

namespace System

open ChannelManager

variable {s s' : System C} {a : Action} {T : Traits C} {A : NewTemplate → Prop}

end System

end Jdc
