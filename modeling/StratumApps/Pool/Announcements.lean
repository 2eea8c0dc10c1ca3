import StratumApps.Pool.Invariants

open Sv2 Handler StratumCore

namespace Pool

variable {C : StratumCore} {cfg : Config} {d : DownstreamId} {k : ChannelId} {j : JobId}
variable {p : SetNewPrevHash} {messages messages' : List RouteMessageTo}

namespace Downstream

variable {D D' : Downstream C} {sent : List RouteMessageTo}

-- The future jobs that the channels of a downstream hold are jobs of the templates they are held
-- for, and have been sent.
structure Told (sent : List RouteMessageTo) (d : DownstreamId) (D : Downstream C) : Prop where
  group    : C.Refuses → ∀ g, D.groupChannels = some g →
    C.group.Told (Sends sent d .newExtendedMiningJob) (C.group.getChannelId g) g
  standard : D.groupChannels = none → ∀ c ch, D.standardChannels.lookup c = some ch →
    C.standard.Told (Sends sent d .newMiningJob) c ch
  extended : ∀ c ch, D.extendedChannels.lookup c = some ch →
    C.extended.Told (Sends sent d .newExtendedMiningJob) c ch

theorem Told.new : (Downstream.new : Downstream C).Told sent d where
  group    := by simp [Downstream.new]
  standard := by simp [Downstream.new]
  extended := by simp [Downstream.new]

theorem Told.evolves {sent' : List RouteMessageTo} (h : D.Told sent d) (hE : D.Evolves sent' d D')
    (hs : sent ⊆ sent') : D'.Told sent' d where
  group hR g hg := by
    have ht := (hE.group hR g hg).told (fun g₀ hg₀ => ?_) (fun _ => id)
    · exact ht.channelId ▸ ht
    · rw [hg₀]
      exact (h.group hR g₀ hg₀).mono fun _ => Sends.mono hs
  standard hg c ch hc :=
    (hE.standard hg c ch hc).told
      (fun ch₀ hc₀ => (h.standard (hE.ungrouped hg) c ch₀ hc₀).mono fun _ => Sends.mono hs)
      fun _ => id
  extended c ch hc :=
    (hE.extended c ch hc).told (fun ch₀ hc₀ => (h.extended c ch₀ hc₀).mono fun _ => Sends.mono hs)
      fun _ => id

-- Every channel that a prev hash of that template is announced to holds a future job for it.
structure Prepared (D : Downstream C) (t : TemplateId) : Prop where
  group    : ∀ g, D.groupChannels = some g → (C.group.futureJob g t).isSome
  standard : D.groupChannels = none → ∀ c ch, D.standardChannels.lookup c = some ch →
    (C.standard.futureJob ch t).isSome
  extended : D.requiresCustomWork = false → ∀ c ch, D.extendedChannels.lookup c = some ch →
    (C.extended.futureJob ch t).isSome

end Downstream

-- The channel holds a job of that id, made for it from the template, which has been sent.
def Holds {κ μ ε : Type} [JobMessage μ] (J : JobStore κ μ ε) (told : Job μ → Prop) (channel : κ)
    (t : TemplateId) (k : ChannelId) (j : JobId) : Prop :=
  ∃ job, J.futureJob channel t = some job ∧ job.getTemplateId = some t ∧ job.getChannelId = k ∧
    job.getJobId = j ∧ told job

namespace Downstream

variable {D D' : Downstream C} {sent : List RouteMessageTo} {t : TemplateId}

-- The job that a prev hash message of a downstream names is one that the channel of the message
-- holds for the template, and that has been sent to the downstream.
def Names (sent : List RouteMessageTo) (d : DownstreamId) (D : Downstream C) (t : TemplateId)
    (k : ChannelId) (j : JobId) : Prop :=
  (∃ g, D.groupChannels = some g ∧
    Holds C.group.toJobStore (Sends sent d .newExtendedMiningJob) g t k j) ∨
  (∃ ch, D.groupChannels = none ∧ D.standardChannels.lookup k = some ch ∧
    Holds C.standard.toJobStore (Sends sent d .newMiningJob) ch t k j) ∨
  ∃ ch, D.extendedChannels.lookup k = some ch ∧
    Holds C.extended.toJobStore (Sends sent d .newExtendedMiningJob) ch t k j

-- A prev hash message for that channel is among the messages.
def Informs (messages : List RouteMessageTo) (d : DownstreamId) (p : SetNewPrevHash)
    (k : ChannelId) : Prop :=
  ∃ j, .downstream d (setNewPrevHashMp k j p) ∈ messages

theorem Informs.mono (hs : messages ⊆ messages') (h : Informs messages d p k) :
    Informs messages' d p k :=
  h.imp fun _ h => hs h

end Downstream

section Rounds

variable {κ μ ε : Type} [JobMessage μ] {J : JobStore κ μ ε} {channel : κ} {silent : Bool}
variable {told : Job μ → Prop}

-- A channel that holds a future job for the template gets it as its active one.
theorem activates_holds (hJ : J.Lawful) (ht : J.Told told k channel)
    (h : (J.futureJob channel p.templateId).isSome) :
    ∃ channel' job, J.onSetNewPrevHash channel p = (.ok (), channel') ∧
      J.getChannelId channel' = k ∧ J.getActiveJob channel' = some job ∧
      Holds J told channel p.templateId k job.getJobId := by
  have ⟨job, hj⟩ := Option.isSome_iff_exists.mp h
  have ⟨channel', hp, hA⟩ := hJ.setNewPrevHash channel p job hj
  have ⟨job', hj', hs⟩ := hA.activeJob
  have ⟨hc, _⟩ := hJ.setNewPrevHashFuture _ _ _ _ hp
  have ⟨hjt, hjc, hjs⟩ := ht.futureJob _ job hj
  exact ⟨channel', job', hp, hc.trans ht.channelId, hj', job, hj, hjt, hjc, hs.jobId.symm, hjs⟩

theorem channelSetNewPrevHash_writes (d : DownstreamId) (messages : List RouteMessageTo)
    (hJ : J.Lawful) (ht : silent = false → J.Told told k channel)
    (h : silent = false → (J.futureJob channel p.templateId).isSome) :
    ∃ channel' messages',
      channelSetNewPrevHash J d silent p k channel messages = .ok (channel', messages') ∧
      messages ⊆ messages' ∧
      (∀ msg ∈ messages', msg ∈ messages ∨ silent = false ∧ ∃ j,
        msg = .downstream d (setNewPrevHashMp k j p) ∧ Holds J told channel p.templateId k j) ∧
      (silent = false → Downstream.Informs messages' d p k) := by
  cases silent with
  | true =>
    rw [channelSetNewPrevHash]
    cases J.onSetNewPrevHash channel p with | mk r channel' =>
    cases r <;> exact ⟨channel', messages, rfl, List.Subset.refl _, fun _ => .inl, by simp⟩
  | false =>
    obtain ⟨channel', job, hp, _, hj, hh⟩ := activates_holds hJ (ht rfl) (h rfl)
    refine ⟨channel', messages ++ [.downstream d (setNewPrevHashMp k job.getJobId p)], ?_,
      List.subset_append_left _ _, fun msg hm => ?_, fun _ => ⟨job.getJobId, by simp⟩⟩
    · simp [channelSetNewPrevHash, hp, hj, expect, bind, Except.bind, pure, Except.pure]
    · rw [List.mem_append, List.mem_singleton] at hm
      exact hm.imp_right fun hm => ⟨rfl, _, hm, hh⟩

end Rounds

-- What the prev hash of a template may add to the messages: for channels of the downstream, and
-- naming jobs that they hold for the template.
def Announced (sent : List RouteMessageTo) (d : DownstreamId) (D : Downstream C)
    (p : SetNewPrevHash) (msg : RouteMessageTo) : Prop :=
  ∃ k j, msg = .downstream d (setNewPrevHashMp k j p) ∧ D.Names sent d p.templateId k j

namespace Downstream

variable {D D' : Downstream C} {sent : List RouteMessageTo}

theorem groupSetNewPrevHash_writes (messages : List RouteMessageTo) (hC : C.Lawful) (hR : C.Refuses)
    (hT : D.Told sent d) (hp : D.Prepared p.templateId) :
    ∃ g' messages', D.groupSetNewPrevHash d messages p = .ok (g', messages') ∧
      messages ⊆ messages' ∧ (∀ msg ∈ messages', msg ∈ messages ∨ Announced sent d D p msg) ∧
      ∀ g, D.groupChannels = some g → Informs messages' d p (C.group.getChannelId g) := by
  rw [groupSetNewPrevHash]
  cases hg : D.groupChannels with
  | none => exact ⟨none, messages, rfl, List.Subset.refl _, fun _ => .inl, by simp⟩
  | some g =>
    obtain ⟨g', job, hs, hc, hj, hh⟩ := activates_holds hC.group (hT.group hR g hg) (hp.group g hg)
    refine ⟨some g',
      messages ++ [.downstream d (setNewPrevHashMp (C.group.getChannelId g) job.getJobId p)], ?_,
      List.subset_append_left _ _, fun msg hmsg => ?_, fun g₀ hg₀ => ⟨job.getJobId, ?_⟩⟩
    · simp [hs, hj, hc, expect, bind, Except.bind, pure, Except.pure]
    · rw [List.mem_append, List.mem_singleton] at hmsg
      exact hmsg.imp_right fun hmsg => ⟨_, _, hmsg, .inl ⟨g, hg, hh⟩⟩
    · cases hg₀
      simp

theorem channels_write (D : Downstream C) (sent messages : List RouteMessageTo)
    {κ μ ε : Type} [JobMessage μ] {J : JobStore κ μ ε} {silent : Bool}
    {told : Job μ → Prop} {channels : Map ChannelId κ} (hJ : J.Lawful)
    (hT : silent = false → ∀ c ch, channels.lookup c = some ch → J.Told told c ch)
    (hp : silent = false → ∀ c ch, channels.lookup c = some ch →
      (J.futureJob ch p.templateId).isSome)
    (hN : silent = false → ∀ c ch j, channels.lookup c = some ch →
      Holds J told ch p.templateId c j → D.Names sent d p.templateId c j) :
    ∃ channels' messages',
      channels.forEach (channelSetNewPrevHash J d silent p) messages = .ok (channels', messages') ∧
      messages ⊆ messages' ∧ (∀ msg ∈ messages', msg ∈ messages ∨ Announced sent d D p msg) ∧
      (silent = false → ∀ c ∈ channels, Informs messages' d p c) := by
  have ⟨channels', messages', h, hs, hm, hi⟩ := Map.forEach_writes
    (m := channels) (f := channelSetNewPrevHash J d silent p) (Q := Announced sent d D p)
    (R := fun c _ l => silent = false → Informs l d p c)
    (fun _ _ _ _ hs h hb => (h hb).mono hs) (fun c ch l hc => ?_) messages
  · refine ⟨channels', messages', h, hs, hm, fun hb c hc => ?_⟩
    have ⟨ch, hc⟩ := Map.mem_iff_lookup.mp hc
    exact hi c ch hc hb
  · have ⟨ch', l', hf, hs, hm, hi⟩ := channelSetNewPrevHash_writes d l hJ
      (fun hb => hT hb c ch hc) (fun hb => hp hb c ch hc)
    refine ⟨ch', l', hf, hs, fun msg hmsg => (hm msg hmsg).imp_right fun h => ?_, hi⟩
    have ⟨hb, j, hmsg, hh⟩ := h
    exact ⟨c, j, hmsg, hN hb c ch j hc hh⟩

-- The downstream is told the prev hash for its group channel, or for its standard channels, and for
-- its extended channels unless it brings its own jobs.
structure Informed (messages : List RouteMessageTo) (d : DownstreamId) (p : SetNewPrevHash)
    (D : Downstream C) : Prop where
  group    : ∀ g, D.groupChannels = some g → Informs messages d p (C.group.getChannelId g)
  standard : D.groupChannels = none → ∀ c ∈ D.standardChannels, Informs messages d p c
  extended : D.requiresCustomWork = false → ∀ c ∈ D.extendedChannels, Informs messages d p c

theorem Informed.mono (hs : messages ⊆ messages') (h : D.Informed messages d p) :
    D.Informed messages' d p where
  group g hg       := (h.group g hg).mono hs
  standard hg c hc := (h.standard hg c hc).mono hs
  extended hw c hc := (h.extended hw c hc).mono hs

theorem setNewPrevHash_writes (messages : List RouteMessageTo) (hC : C.Lawful) (hR : C.Refuses)
    (hT : D.Told sent d) (hp : D.Prepared p.templateId) :
    ∃ D' messages', D.setNewPrevHash d messages p = .ok (D', messages') ∧
      messages ⊆ messages' ∧ (∀ msg ∈ messages', msg ∈ messages ∨ Announced sent d D p msg) ∧
      D.Informed messages' d p := by
  have hn (h : D.groupChannels.isSome = false) : D.groupChannels = none := by simpa using h
  have ⟨g', m₁, hg, hs₁, hm₁, hi₁⟩ := groupSetNewPrevHash_writes messages hC hR hT hp
  have ⟨standard, m₂, hS, hs₂, hm₂, hi₂⟩ := channels_write D sent m₁
    hC.standard.toLawful (fun h => hT.standard (hn h)) (fun h => hp.standard (hn h))
    (fun h _ ch _ hc hh => .inr <| .inl ⟨ch, hn h, hc, hh⟩)
  have ⟨extended, m₃, hE, hs₃, hm₃, hi₃⟩ := channels_write D sent m₂
    hC.extended.toLawful (fun _ => hT.extended) hp.extended
    (fun _ _ ch _ hc hh => .inr <| .inr ⟨ch, hc, hh⟩)
  have hs₂₃ := List.Subset.trans hs₂ hs₃
  refine ⟨{ D with groupChannels := g', standardChannels := standard, extendedChannels := extended },
    m₃, ?_, List.Subset.trans hs₁ hs₂₃, fun msg hm => ?_, fun g hg => (hi₁ g hg).mono hs₂₃,
    fun hg c hc => (hi₂ (by simp [hg]) c hc).mono hs₃, hi₃⟩
  · simp only [setNewPrevHash, hg, bind, Except.bind]
    rw [standardSetNewPrevHash, hS]
    simp only [extendedSetNewPrevHash, hE, pure, Except.pure]
  · exact (hm₃ msg hm).elim (fun hm => (hm₂ msg hm).elim (hm₁ msg) .inr) .inr

end Downstream

namespace System

variable {s s' : System C} {tr : List (Machine.Event (System C) Action)}

def Told (s : System C) : Prop :=
  ∀ d D, s.manager.downstream.lookup d = some D → D.Told s.sent d

def Prepared (s : System C) (t : TemplateId) : Prop :=
  ∀ d D, s.manager.downstream.lookup d = some D → D.Prepared t

theorem told_of_run (hC : C.Lawful) (r : (machine C cfg).Run tr s) (hr : s.status = .running) :
    s.Told := by
  obtain ⟨s₀, hi, path⟩ := r
  induction path with
  | nil =>
    intro d D hD
    simp [hi.downstream] at hD
  | snoc path hs ih =>
    have hT := futureTemplate_of_run ⟨s₀, hi, path⟩ (step_running hs).left
    have hM := step_moves hs hr
    intro d D' hD'
    cases hM.downstream d D' hD'
    case inl hn => exact hn ▸ .new
    case inr hm =>
      have ⟨D, hD, _, hE⟩ := hm
      exact (ih (step_running hs).left d D hD).evolves (hE hC hT) hM.sent

-- What the pool should do with the prev hash of a template: it goes on, each prev hash message it
-- sends names a job of that template that the channel of the message holds and was sent before, and
-- each channel whose downstream does not bring its own work is informed, by itself or in its group.
structure Announces (s s' : System C) (p : SetNewPrevHash) (messages : List RouteMessageTo) :
    Prop where
  running  : s'.status = .running
  sent     : s'.sent = s.sent ++ messages
  names    : ∀ d sp, .downstream d (.setNewPrevHash sp) ∈ messages →
    ∃ D, s.manager.downstream.lookup d = some D ∧
      D.Names s.sent d p.templateId sp.channelId sp.jobId ∧
      .setNewPrevHash sp = setNewPrevHashMp sp.channelId sp.jobId p
  informed : ∀ d D c, s.manager.downstream.lookup d = some D → D.requiresCustomWork = false →
    D.Has c → Downstream.Informs messages d p c ∨ c ∈ D.standardChannels ∧
      ∃ g, D.groupChannels = some g ∧ Downstream.Informs messages d p (C.group.getChannelId g)

theorem announces (hC : C.Lawful) (hR : C.Refuses) (hT : s.Told) (hp : s.Prepared p.templateId)
    (hs : s.step cfg (.templateMessage (.setNewPrevHash p)) = some s') :
    ∃ messages, s.Announces s' p messages := by
  obtain ⟨hrun, ha⟩ := step_running hs
  have hround (d D l) (hD : s.manager.downstream.lookup d = some D) : ∃ D' l',
      D.setNewPrevHash d l p = .ok (D', l') ∧ l ⊆ l' ∧
      (∀ msg ∈ l', msg ∈ l ∨ ∃ d D, s.manager.downstream.lookup d = some D ∧
        Announced s.sent d D p msg) ∧ D.Informed l' d p := by
    obtain ⟨D', l', hD', hs, hm, hi⟩ :=
      Downstream.setNewPrevHash_writes l hC hR (hT d D hD) (hp d D hD)
    exact ⟨D', l', hD', hs, fun msg h => (hm msg h).imp_right fun h => ⟨d, D, hD, h⟩, hi⟩
  obtain ⟨m, messages, h, _, hm, hi⟩ :=
    Map.forEach_writes (f := fun d (D : Downstream C) l => D.setNewPrevHash d l p)
      (R := fun d (D : Downstream C) l => D.Informed l d p)
      (fun _ _ _ _ => Downstream.Informed.mono) hround []
  simp only [act, ChannelManager.handleTemplateDistributionMessageFromServer,
    ChannelManager.handleSetNewPrevHash, h, bind, Except.bind, pure, Except.pure, deliver,
    Option.some_inj] at ha
  subst ha
  refine ⟨messages, hrun, rfl, fun d sp hsp => ?_, fun d D c hD hw hh => ?_⟩
  · obtain ⟨d', D, hD, k, j, he, hn⟩ := (hm _ hsp).resolve_left List.not_mem_nil
    simp only [setNewPrevHashMp, RouteMessageTo.downstream.injEq, Mining.setNewPrevHash.injEq] at he
    obtain ⟨rfl, rfl⟩ := he
    exact ⟨D, hD, hn, rfl⟩
  · obtain ⟨hg, hst, he⟩ := hi d D hD
    cases hh
    case inr hc => exact .inl (he hw c hc)
    case inl hc =>
      cases hgr : D.groupChannels with
      | none   => exact .inl (hst hgr c hc)
      | some g => exact .inr ⟨hc, g, rfl, hg g hgr⟩

end System

namespace Sample

-- A standard channel is opened on the second of two future templates. Then the first is activated.
def overtaken : List Action :=
  [future 1, future 2, prevHash 2] ++ connected ++ handled 1 openStandard

theorem overtaken_exec : ((machine reference config).exec start overtaken).any fun s =>
    ((s.manager.downstream.lookup 1).any fun D =>
      (D.groupChannels.any fun g => (reference.group.futureJob g 1).isNone) &&
        D.extendedChannels.keys.isEmpty) &&
      ((machine reference config).step s (prevHash 1)).any fun s' =>
        .downstream 1 (setNewPrevHashMp 1 1 (tip 1)) ∈ s'.sent.drop s.sent.length := by
  decide +kernel

-- The channel is opened before the second template arrives, which is then activated.
def inOrder : List Action :=
  [future 1, prevHash 1] ++ connected ++ handled 1 openStandard ++ [future 2]

end Sample

end Pool
