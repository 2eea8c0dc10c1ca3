import StratumApps.Lib.Map
import StratumApps.Sv2.Mining
import StratumApps.Sv2.TemplateDistribution

open Sv2

namespace StratumCore

class JobMessage (μ : Type) where
  channelId : μ → ChannelId
  jobId     : μ → JobId

instance : JobMessage NewMiningJob where
  channelId := NewMiningJob.channelId
  jobId     := NewMiningJob.jobId

instance : JobMessage NewExtendedMiningJob where
  channelId := NewExtendedMiningJob.channelId
  jobId     := NewExtendedMiningJob.jobId

-- A job with the template it was made from, or no template when the job is a custom one.
structure Job (μ : Type) where
  template        : Option NewTemplate
  coinbaseOutputs : List TxOut
  jobMessage      : μ
  deriving DecidableEq

abbrev StandardJob := Job NewMiningJob

abbrev ExtendedJob := Job NewExtendedMiningJob

namespace Job

variable {μ : Type} [JobMessage μ] (job : Job μ)

def getJobId : JobId :=
  JobMessage.jobId job.jobMessage

def getChannelId : ChannelId :=
  JobMessage.channelId job.jobMessage

def getTemplateId : Option TemplateId :=
  job.template.map NewTemplate.templateId

variable {job} {job' job'' : Job μ}

-- An activated job has a new message, for the same work under the same id.
structure Same (job job' : Job μ) : Prop where
  template        : job'.template = job.template
  coinbaseOutputs : job'.coinbaseOutputs = job.coinbaseOutputs
  jobId           : job'.getJobId = job.getJobId
  channelId       : job'.getChannelId = job.getChannelId

theorem Same.refl (job : Job μ) : Same job job :=
  ⟨rfl, rfl, rfl, rfl⟩

theorem Same.trans (h₁ : Same job job') (h₂ : Same job' job'') : Same job job'' where
  template        := h₂.template.trans h₁.template
  coinbaseOutputs := h₂.coinbaseOutputs.trans h₁.coinbaseOutputs
  jobId           := h₂.jobId.trans h₁.jobId
  channelId       := h₂.channelId.trans h₁.channelId

end Job

-- What the group, standard and extended channels of a server have in common: the jobs made from the
-- templates. An operation that fails may have changed the channel.
structure JobStore (κ μ ε : Type) where
  getChannelId             : κ → ChannelId
  getFutureTemplateToJobId : κ → Map TemplateId JobId
  getFutureJobs            : κ → Map JobId (Job μ)
  getActiveJob             : κ → Option (Job μ)
  getPastJobs              : κ → Map JobId (Job μ)
  onNewTemplate            : κ → NewTemplate → List TxOut → Except ε Unit × κ
  onSetNewPrevHash         : κ → SetNewPrevHash → Except ε Unit × κ

namespace JobStore

variable {κ μ ε : Type} (J : JobStore κ μ ε)

def futureJob (c : κ) (t : TemplateId) : Option (Job μ) :=
  (J.getFutureTemplateToJobId c).lookup t |>.bind (J.getFutureJobs c).lookup

-- No job of the channel changes.
structure Keeps (c c' : κ) : Prop where
  channelId : J.getChannelId c' = J.getChannelId c
  futureJob : J.futureJob c' = J.futureJob c
  activeJob : J.getActiveJob c' = J.getActiveJob c
  pastJobs  : J.getPastJobs c' = J.getPastJobs c

variable {J} in
theorem Keeps.trans {c₁ c₂ c₃ : κ} (h₁ : J.Keeps c₁ c₂) (h₂ : J.Keeps c₂ c₃) : J.Keeps c₁ c₃ where
  channelId := h₂.channelId.trans h₁.channelId
  futureJob := h₂.futureJob.trans h₁.futureJob
  activeJob := h₂.activeJob.trans h₁.activeJob
  pastJobs  := h₂.pastJobs.trans h₁.pastJobs

theorem Keeps.refl (c : κ) : J.Keeps c c :=
  ⟨rfl, rfl, rfl, rfl⟩

structure Fresh (c : κ) (channelId : ChannelId) : Prop where
  channelId : J.getChannelId c = channelId
  futureJob : ∀ t, J.futureJob c t = none
  activeJob : J.getActiveJob c = none
  pastJobs  : J.getPastJobs c = ∅

-- The jobs that a share may be for: the active one and, until the next prev hash, those before it.
def Accepts (c : κ) (job : Job μ) : Prop :=
  J.getActiveJob c = some job ∨ ∃ j, (J.getPastJobs c).lookup j = some job

def Knows (c : κ) (job : Job μ) : Prop :=
  J.Accepts c job ∨ ∃ t, J.futureJob c t = some job

def Holds (c : κ) : Prop :=
  (J.getActiveJob c).isSome ∨ ∃ t, (J.futureJob c t).isSome

variable {J} in
theorem Holds.of_futureJob {c : κ} {t : TemplateId} {job : Job μ} (h : J.futureJob c t = some job) :
    J.Holds c :=
  .inr ⟨t, by simp [h]⟩

variable [JobMessage μ]

-- The job that the channel makes of a template.
structure Makes (c : κ) (t : NewTemplate) (outputs : List TxOut) (job : Job μ) : Prop where
  template        : job.template = some t
  coinbaseOutputs : job.coinbaseOutputs = outputs
  channelId       : job.getChannelId = J.getChannelId c
  fresh           : ∀ job', J.Knows c job' → job'.getJobId ≠ job.getJobId

-- The stored job of a template becomes the active one, under the same id, and is stored no more.
structure Activates (t : TemplateId) (job : Job μ) (c' : κ) : Prop where
  activeJob : ∃ job', J.getActiveJob c' = some job' ∧ Job.Same job job'
  consumed  : J.futureJob c' t = none

-- What the channels promise of their jobs.
structure Lawful : Prop where
  newFutureTemplate : ∀ c t outputs c', t.futureTemplate = true →
    J.onNewTemplate c t outputs = (.ok (), c') →
      J.getChannelId c' = J.getChannelId c ∧ J.getActiveJob c' = J.getActiveJob c ∧
        (∃ job, J.Makes c t outputs job ∧ J.futureJob c' t.templateId = some job) ∧
        ∀ t', t' ≠ t.templateId → J.futureJob c' t' = J.futureJob c t'
  newTemplate : ∀ c t outputs c', t.futureTemplate = false →
    J.onNewTemplate c t outputs = (.ok (), c') →
      J.getChannelId c' = J.getChannelId c ∧ J.futureJob c' = J.futureJob c ∧
        ∃ job, J.Makes c t outputs job ∧ J.getActiveJob c' = some job
  newTemplateError : ∀ c t outputs e c', J.onNewTemplate c t outputs = (.error e, c') → J.Keeps c c'
  newTemplatePast : ∀ c t outputs c' j job, J.onNewTemplate c t outputs = (.ok (), c') →
    (J.getPastJobs c').lookup j = some job → J.Accepts c job
  setNewPrevHash : ∀ c p job, J.futureJob c p.templateId = some job →
    ∃ c', J.onSetNewPrevHash c p = (.ok (), c') ∧ J.Activates p.templateId job c'
  setNewPrevHashFuture : ∀ c p r c', J.onSetNewPrevHash c p = (r, c') →
    J.getChannelId c' = J.getChannelId c ∧
      ∀ t job, J.futureJob c' t = some job → J.futureJob c t = some job
  setNewPrevHashKnows : ∀ c p r c' job', J.onSetNewPrevHash c p = (r, c') → J.Knows c' job' →
    ∃ job, J.Knows c job ∧ Job.Same job job'

-- A channel with jobs takes a prev hash only if it has a future job for its template. Not all channels
-- are like that.
structure Refuses : Prop where
  setNewPrevHash : ∀ c p c', J.futureJob c p.templateId = none → J.Holds c →
    J.onSetNewPrevHash c p ≠ (.ok (), c')

variable {J}

-- Every future job of a channel is one for the template it is stored under, carries the id of the
-- channel, and has been told.
structure Told (J : JobStore κ μ ε) (told : Job μ → Prop) (k : ChannelId) (c : κ) : Prop where
  channelId : J.getChannelId c = k
  futureJob : ∀ t job, J.futureJob c t = some job →
    job.getTemplateId = some t ∧ job.getChannelId = k ∧ told job

-- What a channel of that id may become of `old` by an operation that tells some jobs: its future
-- jobs are old ones, or are told.
structure Tells (J : JobStore κ μ ε) (told : Job μ → Prop) (k : ChannelId) (old : Option κ)
    (c : κ) : Prop where
  channelId : J.getChannelId c = k ∨ ∃ c₀, old = some c₀ ∧ J.getChannelId c = J.getChannelId c₀
  futureJob : ∀ t job, J.futureJob c t = some job →
    (∃ c₀, old = some c₀ ∧ J.futureJob c₀ t = some job) ∨
      job.getTemplateId = some t ∧ job.getChannelId = J.getChannelId c ∧ told job

section Tells

variable {P Q : Job μ → Prop} {k k' : ChannelId} {old : Option κ} {c c' : κ}

theorem Tells.told (h : J.Tells P k old c) (ho : ∀ c₀, old = some c₀ → J.Told Q k c₀)
    (hpq : ∀ job, P job → Q job) : J.Told Q k c := by
  have hc : J.getChannelId c = k := by
    cases h.channelId
    case inl hc => exact hc
    case inr hc =>
      have ⟨c₀, ho', hc⟩ := hc
      exact hc.trans (ho c₀ ho').channelId
  refine ⟨hc, fun t job hj => ?_⟩
  cases h.futureJob t job hj
  case inl hj =>
    have ⟨c₀, ho', hj⟩ := hj
    exact (ho c₀ ho').futureJob t job hj
  case inr hj => exact ⟨hj.left, hj.right.left.trans hc, hpq _ hj.right.right⟩

theorem Told.mono (h : J.Told P k c) (hpq : ∀ job, P job → Q job) : J.Told Q k c where
  channelId := h.channelId
  futureJob t job hj :=
    have ⟨ht, hc, hp⟩ := h.futureJob t job hj
    ⟨ht, hc, hpq _ hp⟩

theorem Tells.of_shrinks (hc : J.getChannelId c' = J.getChannelId c)
    (h : ∀ t job, J.futureJob c' t = some job → J.futureJob c t = some job) :
    J.Tells P k (some c) c' where
  channelId := .inr ⟨c, rfl, hc⟩
  futureJob t job hj := .inl ⟨c, rfl, h t job hj⟩

theorem Tells.refl : J.Tells P k (some c) c :=
  .of_shrinks rfl fun _ _ => id

theorem Tells.of_keeps (h : J.Keeps c c') : J.Tells P k (some c) c' :=
  .of_shrinks h.channelId fun t job hj => by rwa [h.futureJob] at hj

theorem Tells.of_none (hc : J.getChannelId c = k) (h : ∀ t, J.futureJob c t = none) :
    J.Tells P k old c where
  channelId := .inl hc
  futureJob t job hj := by simp [h t] at hj

theorem Tells.mono (h : J.Tells P k old c) (hpq : ∀ job, P job → Q job) : J.Tells Q k old c where
  channelId := h.channelId
  futureJob t job hj := (h.futureJob t job hj).imp_right fun h => ⟨h.1, h.2.1, hpq _ h.2.2⟩

theorem Tells.keeps (h : J.Tells P k old c) (hk : J.Keeps c c') : J.Tells P k old c' where
  channelId := by simpa only [hk.channelId] using h.channelId
  futureJob t job hj := by
    rw [hk.futureJob] at hj
    simpa only [hk.channelId] using h.futureJob t job hj

section Channels

variable {m : Map ChannelId κ}

theorem tells_lookup : ∀ k c, m.lookup k = some c → J.Tells P k (m.lookup k) c :=
  fun _ _ h => h ▸ .refl

theorem tells_erase : ∀ k c, (m.erase k').lookup k = some c → J.Tells P k (m.lookup k) c := by
  intro k c h
  rw [Map.lookup_erase_ite] at h
  split at h
  case isTrue  => cases h
  case isFalse => exact h ▸ .refl

theorem tells_insert (hc : J.Tells P k' (m.lookup k') c') :
    ∀ k c, (m.insert k' c').lookup k = some c → J.Tells P k (m.lookup k) c := by
  intro k c h
  rw [Map.lookup_insert_ite] at h
  split at h
  case isTrue he =>
    cases h
    exact he ▸ hc
  case isFalse => exact h ▸ .refl

end Channels

end Tells

namespace Lawful

variable {c c₁ c₂ : κ} {t : NewTemplate} {p : SetNewPrevHash} {outputs : List TxOut} {job : Job μ}
variable {k : ChannelId} {P : Job μ → Prop}

-- A fresh channel that has taken a future template and then a prev hash: the prev hash is the one of
-- the template, the job of the template is the active one, and no future job is left.
theorem fresh_activated (hJ : J.Lawful) (hR : J.Refuses) (hf : J.Fresh c k)
    (ht : t.futureTemplate = true) (hn : J.onNewTemplate c t outputs = (.ok (), c₁))
    (hp : J.onSetNewPrevHash c₁ p = (.ok (), c₂)) :
    t.templateId = p.templateId ∧ J.getChannelId c₂ = k ∧ (∀ t', J.futureJob c₂ t' = none) ∧
      ∃ job, J.getActiveJob c₂ = some job ∧ job.template = some t := by
  have ⟨hc, _, ⟨job, hm, hj⟩, ho⟩ := hJ.newFutureTemplate c t outputs c₁ ht hn
  have he : t.templateId = p.templateId := by
    by_contra he
    have hnone : J.futureJob c₁ p.templateId = none := by
      rw [ho _ (Ne.symm he), hf.futureJob]
    exact hR.setNewPrevHash c₁ p c₂ hnone (.of_futureJob hj) hp
  have ⟨c', hp', ha⟩ := hJ.setNewPrevHash c₁ p job (he ▸ hj)
  cases hp.symm.trans hp'
  have ⟨hc', hs⟩ := hJ.setNewPrevHashFuture c₁ p _ _ hp
  have ⟨job', hj', hs'⟩ := ha.activeJob
  refine ⟨he, hc'.trans (hc.trans hf.channelId), fun t' => ?_, job', hj',
    hs'.template.trans hm.template⟩
  by_cases h : t' = p.templateId
  case pos => exact h ▸ ha.consumed
  case neg =>
    rw [Option.eq_none_iff_forall_ne_some]
    intro job hjob
    have := hs t' job hjob
    simp [ho t' (he ▸ h), hf.futureJob] at this

-- Whatever the prev hash is, the channel holds no future job but that of the template.
theorem tells_started {r : Except ε Unit} (hJ : J.Lawful) (old : Option κ) (hf : J.Fresh c k)
    (ht : t.futureTemplate = true) (hn : J.onNewTemplate c t outputs = (.ok (), c₁))
    (hj : J.futureJob c₁ t.templateId = some job) (hs : P job)
    (hp : J.onSetNewPrevHash c₁ p = (r, c₂)) : J.Tells P k old c₂ := by
  have ⟨hc, _, ⟨job', hm, hj'⟩, ho⟩ := hJ.newFutureTemplate c t outputs c₁ ht hn
  have ⟨hc', hsub⟩ := hJ.setNewPrevHashFuture c₁ p r c₂ hp
  refine ⟨.inl (hc'.trans (hc.trans hf.channelId)), fun t' job'' h => .inr ?_⟩
  have h' := hsub t' job'' h
  by_cases he : t' = t.templateId
  case neg =>
    rw [ho t' he, hf.futureJob] at h'
    cases h'
  case pos =>
    subst he
    cases hj.symm.trans h'
    cases hj.symm.trans hj'
    refine ⟨?_, ?_, hs⟩
    · rw [Job.getTemplateId, hm.template, Option.map_some]
    · rw [hm.channelId, hc']
      exact hc.symm

theorem tells_setNewPrevHash {r : Except ε Unit} (hJ : J.Lawful)
    (h : J.onSetNewPrevHash c p = (r, c₁)) : J.Tells P k (some c) c₁ :=
  have ⟨hc, hs⟩ := hJ.setNewPrevHashFuture c p r c₁ h
  .of_shrinks hc hs

end Lawful

end JobStore

end StratumCore
