import StratumApps.JobDeclaratorClient.Provenance
import StratumApps.JobDeclaratorClient.Traits

open Sv2 Handler StratumCore

namespace StratumCore.JobStore

variable {κ μ ε : Type} [JobMessage μ] {J : JobStore κ μ ε} {c : κ} {t : TemplateId}
variable {p : SetNewPrevHash} {job : Job μ}

-- What the prev hash of a template leaves of a channel: it turns to the job it has for the template.
-- A step that fails leaves it as it was.
inductive Turns (J : JobStore κ μ ε) (t : TemplateId) (c : κ) : κ → Prop
  | stays : Turns J t c c
  | turns {job : Job μ} {c' : κ} :
    J.futureJob c t = some job → J.Activates t job c' → Turns J t c c'

theorem Lawful.turns (hJ : J.Lawful) (hj : J.futureJob c p.templateId = some job) :
    J.Turns p.templateId c (J.onSetNewPrevHash c p).2 := by
  obtain ⟨c', h, ha⟩ := hJ.setNewPrevHash c p job hj
  exact h ▸ .turns hj ha

end StratumCore.JobStore

namespace Jdc

variable {C : StratumCore} {cfg : Config} {d : DownstreamId} {p : SetNewPrevHash}

-- All channels of a downstream have a job that waits for the prev hash of the template.
structure Downstream.Awaits (D : Downstream C) (t : TemplateId) : Prop where
  standard : ∀ c x, D.standardChannels.lookup c = some x → (C.standard.futureJob x t).isSome
  extended : ∀ c x, D.extendedChannels.lookup c = some x → (C.extended.futureJob x t).isSome
  group    : ∀ g, D.groupChannels = some g → (C.group.futureJob g t).isSome

def ChannelManager.Awaits (s : ChannelManager C) (t : TemplateId) : Prop :=
  ∀ d D, s.downstream.lookup d = some D → D.Awaits t

-- What a prev hash of the template leaves of the channels.
def Origins.turned (t : TemplateId) : Origins C where
  standard o x := ∃ y, o = some y ∧ C.standard.Turns t y x
  extended o x := ∃ y, o = some y ∧ C.extended.Stocked y ∧ C.extended.Turns t y x
  group    o x := ∃ y, o = some y ∧ C.group.Stocked y ∧ C.group.Turns t y x

section Channels

variable {D D' : Downstream C} {s s' : ChannelManager C}

end Channels

section Announcements

variable {κ μ ε : Type} [JobMessage μ] {J : JobStore κ μ ε} {c c' : κ} {channelId : ChannelId}
variable {messages messages' : List RouteMessageTo}

-- The messages that tell a downstream the job that one of its channels has for the template.
inductive Downstream.Announces (d : DownstreamId) (p : SetNewPrevHash) (D : Downstream C) :
    RouteMessageTo → Prop
  | group {g : C.Group} {job : ExtendedJob} : D.groupChannels = some g →
    C.group.futureJob g p.templateId = some job →
    Announces d p D (.downstream d (setNewPrevHashMp (C.group.getChannelId g) job.getJobId p))
  | standard {c : ChannelId} {x : C.Standard} {job : StandardJob} :
    D.standardChannels.lookup c = some x → C.standard.futureJob x p.templateId = some job →
    Announces d p D (.downstream d (setNewPrevHashMp c job.getJobId p))
  | extended {c : ChannelId} {x : C.Extended} {job : ExtendedJob} :
    D.extendedChannels.lookup c = some x → C.extended.futureJob x p.templateId = some job →
    Announces d p D (.downstream d (setNewPrevHashMp c job.getJobId p))

namespace Downstream

variable {D : Downstream C} {g : Option C.Group}

end Downstream

namespace ChannelManager

variable {s s' : ChannelManager C} {o : Outcome C}

-- Whatever tells a downstream of a new prev hash.
def Announced (s : ChannelManager C) (p : SetNewPrevHash) (messages : List RouteMessageTo) : Prop :=
  ∀ d msg, .downstream d (.setNewPrevHash msg) ∈ messages →
    ∃ D, s.downstream.lookup d = some D ∧ D.Announces d p (.downstream d (.setNewPrevHash msg))

end ChannelManager

end Announcements

namespace System

variable {tr : List (Event C)} {s s' : System C} {a : Action} {m : SetNewPrevHash}

-- The condition: what the client has for the last future template is for the template of the prev
-- hash, its declaration has not been activated by another, and all channels have a job that waits for
-- it.
structure Current (s : ChannelManager C) (m : SetNewPrevHash) : Prop where
  customized : s.jdMode = .coinbaseOnly → s.upstreamChannel.isSome → s.jobFactory.isSome →
    s.allocateTokens.isSome → ∀ last, s.lastFutureTemplate = some last →
      last.templateId = m.templateId
  declared   : s.jdMode = .fullTemplate → ∀ last k declared, s.lastFutureTemplate = some last →
    s.lastDeclareJobStore.lookup k = some declared → declared.declareMiningJob.isSome →
    declared.template.templateId = last.templateId → last.templateId = m.templateId ∧
      (declared.template.futureTemplate = true ∨ declared.prevHash = some m)
  awaits     : s.Awaits m.templateId

def Timely (s : System C) (a : Action) : Prop :=
  ∀ m, a = .templateMessage (.setNewPrevHash m) → Current s.manager m

-- A prev hash is one for its template: the declaration or the custom job that is sent is of that
-- template, with its transactions and with the prev hash, and so are the jobs that the channels
-- turn to and those that are announced.
structure Activates (tr : List (Event C)) (e : Event C) (m : SetNewPrevHash) : Prop where
  declared   : ∀ job ∈ declarations (messages e), ∃ template data paid declared,
    Source tr template data paid job ∧ template.templateId = m.templateId ∧
      e.post.manager.lastDeclareJobStore.lookup job.requestId = some declared ∧
      declared.declareMiningJob = some job ∧ declared.prevHash = some m ∧
      declared.template = { template with futureTemplate := false } ∧
      declared.txList = data.transactionList
  customized : ∀ job ∈ customJobs (messages e), ∃ template outputs,
    Arrived tr (.newTemplate template) ∧ template.templateId = m.templateId ∧
      CustomOf C template m outputs job
  channels   : e.pre.manager.Stems (.turned m.templateId) e.post.manager
  announced  : e.pre.manager.Announced m (messages e)

theorem Sourced.customizes (hi : Sourced tr s.manager) (hm : Current s.manager m)
    {ds : List DeclareMiningJob} {cs : List SetCustomMiningJob} {job : SetCustomMiningJob}
    (h : Works cfg s.manager (.templateMessage (.setNewPrevHash m)) s'.manager ds cs) (hj : job ∈ cs) :
    ∃ template outputs, Arrived tr (.newTemplate template) ∧ template.templateId = m.templateId ∧
      CustomOf C template m outputs job := by
  generalize hpre : s.manager = pre at h hm
  generalize s'.manager = post at h
  cases h with
  | kept => cases hj
  | tip _ hc _ =>
    cases hc with
    | idle => cases hj
    | @made upstream factory token template prevHash hu hf ht hl hp hmode =>
      cases hp
      have hu : pre.upstreamChannel.isSome := by
        simp only [ChannelManager.tipped, ChannelManager.onChainTipUpdate,
          ChannelManager.recordPrevHash, Option.map_eq_some_iff] at hu
        obtain ⟨_, ⟨_, hu, _⟩, _⟩ := hu
        rw [hu]
        rfl
      have hf : pre.jobFactory = some factory := hf
      have ht : pre.allocateTokens = some token := ht
      exact ⟨template, _, hi.last _ (hpre ▸ hl),
        hm.customized hmode hu (by rw [hf]; rfl) (by rw [ht]; rfl) template hl,
        ChannelManager.customOf_makeCustomJob hj⟩

-- The condition, as it can be computed.
def awaits (s : ChannelManager C) (t : TemplateId) : Bool :=
  s.downstream.entries.all fun D =>
    (D.2.standardChannels.entries.all fun c => (C.standard.futureJob c.2 t).isSome) &&
      (D.2.extendedChannels.entries.all fun c => (C.extended.futureJob c.2 t).isSome) &&
        D.2.groupChannels.all fun g => (C.group.futureJob g t).isSome

def timely (e : Event C) : Bool :=
  match e.act with
  | .templateMessage (.setNewPrevHash m) =>
    e.pre.manager.jdMode ≠ .coinbaseOnly &&
      (e.pre.manager.lastDeclareJobStore.entries.all fun r =>
        e.pre.manager.lastFutureTemplate.all (·.templateId = m.templateId) &&
          r.2.template.futureTemplate) && awaits e.pre.manager m.templateId
  | _ => true

end System

-- A client with templates of its own, with two declared templates for the future.
namespace Outstanding

open Sample

def outstanding : List Action :=
  [.setJdMode .fullTemplate, .setUpstreamState .noChannel, future 1, prevHash 1, .connect,
    openExtended 0, opened, allocate [1], future 2, data 2, future 3, data 3]

end Outstanding

end Jdc
