import StratumApps.Pool.Handlers

open Sv2 Handler StratumCore

namespace Pool

variable {C : StratumCore} {d : DownstreamId} {k : ChannelId} {msg : NewTemplate}
variable {p : SetNewPrevHash} {outputs : List TxOut} {messages messages' : List RouteMessageTo}

theorem Sends.mono {μ : Type} {mining : μ → Mining} {job : Job μ} (hs : messages ⊆ messages')
    (h : Sends messages d mining job) : Sends messages' d mining job :=
  hs h

section Loops

variable {κ μ ε : Type} {J : JobStore κ μ ε} {channel channel' : κ} {job : Job μ}
variable {mining : μ → Mining} {silent : Bool}

theorem jobOf_future (hf : msg.futureTemplate = true) (h : jobOf J channel msg = .ok job) :
    J.futureJob channel msg.templateId = some job := by
  rw [jobOf, if_pos hf] at h
  cases hr : futureJobOf J channel msg.templateId with
  | error => simp [hr, Except.map] at h
  | ok r =>
    simp only [hr, Except.map, Except.ok.injEq] at h
    exact h ▸ futureJobOf_eq_ok hr

theorem channelNewTemplate_cases
    (h : channelNewTemplate J d mining msg outputs channel messages = .ok (channel', messages')) :
    (∃ e, J.onNewTemplate channel msg outputs = (.error e, channel') ∧ messages' = messages) ∨
      ∃ job, J.onNewTemplate channel msg outputs = (.ok (), channel') ∧
        jobOf J channel' msg = .ok job ∧
        messages' = messages ++ [.downstream d (mining job.jobMessage)] := by
  rw [channelNewTemplate] at h
  split at h
  case h_1 e _ hn =>
    cases pure_eq_ok.mp h
    exact .inl ⟨e, hn, rfl⟩
  case h_2 hn =>
    simp only [bind_eq_ok, pure_eq_ok, Prod.mk.injEq] at h
    obtain ⟨job, hj, rfl, rfl⟩ := h
    exact .inr ⟨job, hn, hj, rfl⟩

theorem channelNewTemplate_subset
    (h : channelNewTemplate J d mining msg outputs channel messages = .ok (channel', messages')) :
    messages ⊆ messages' := by
  obtain ⟨_, _, rfl⟩ | ⟨_, _, _, rfl⟩ := channelNewTemplate_cases h
  · exact List.Subset.refl _
  · exact List.subset_append_left _ _

variable [JobMessage μ]

-- A channel that has taken a template has new future jobs only of that template.
theorem tells_onNewTemplate {r : Except ε Unit} {P : Job μ → Prop} (hJ : J.Lawful)
    (h : J.onNewTemplate channel msg outputs = (r, channel'))
    (hP : r = .ok () → msg.futureTemplate = true →
      ∀ job, J.futureJob channel' msg.templateId = some job → P job) :
    J.Tells P k (some channel) channel' := by
  cases r with
  | error => exact .of_keeps <| hJ.newTemplateError _ _ _ _ _ h
  | ok =>
    cases hf : msg.futureTemplate with
    | false =>
      have ⟨hc, hj, _⟩ := hJ.newTemplate _ _ _ _ hf h
      exact .of_shrinks hc fun t job hjob => by rwa [hj] at hjob
    | true =>
      have ⟨hc, _, ⟨job, hm, hj⟩, ho⟩ := hJ.newFutureTemplate _ _ _ _ hf h
      refine ⟨.inr ⟨channel, rfl, hc⟩, fun t job' hjob => ?_⟩
      by_cases ht : t = msg.templateId
      case neg => exact .inl ⟨channel, rfl, ho t ht ▸ hjob⟩
      case pos =>
        subst ht
        cases hj.symm.trans hjob
        refine .inr ⟨?_, hm.channelId.trans hc.symm, hP rfl hf job hj⟩
        simp [Job.getTemplateId, hm.template]

theorem channelNewTemplate_tells (hJ : J.Lawful)
    (h : channelNewTemplate J d mining msg outputs channel messages = .ok (channel', messages')) :
    J.Tells (Sends messages' d mining) k (some channel) channel' := by
  obtain ⟨_, hn, _⟩ | ⟨job, hn, hj, rfl⟩ := channelNewTemplate_cases h
  · exact tells_onNewTemplate hJ hn (by simp)
  · refine tells_onNewTemplate hJ hn fun _ hf job' hjob => ?_
    cases hjob.symm.trans <| jobOf_future hf hj
    simp [Sends]

theorem channelSetNewPrevHash_cases
    (h : channelSetNewPrevHash J d silent p k channel messages = .ok (channel', messages')) :
    (∃ r, J.onSetNewPrevHash channel p = (r, channel') ∧ messages' = messages) ∨
      ∃ job, silent = false ∧ J.onSetNewPrevHash channel p = (.ok (), channel') ∧
        J.getActiveJob channel' = some job ∧
        messages' = messages ++ [.downstream d (setNewPrevHashMp k job.getJobId p)] := by
  rw [channelSetNewPrevHash] at h
  split at h
  case h_1 hn =>
    cases pure_eq_ok.mp h
    exact .inl ⟨_, hn, rfl⟩
  case h_2 hn =>
    split at h
    case isTrue =>
      cases pure_eq_ok.mp h
      exact .inl ⟨_, hn, rfl⟩
    case isFalse hs =>
      simp only [bind_eq_ok, expect_eq_ok, pure_eq_ok, Prod.mk.injEq] at h
      obtain ⟨job, hj, rfl, rfl⟩ := h
      exact .inr ⟨job, by simpa using hs, hn, hj, rfl⟩

theorem channelSetNewPrevHash_subset
    (h : channelSetNewPrevHash J d silent p k channel messages = .ok (channel', messages')) :
    messages ⊆ messages' := by
  obtain ⟨_, _, rfl⟩ | ⟨_, _, _, _, rfl⟩ := channelSetNewPrevHash_cases h
  · exact List.Subset.refl _
  · exact List.subset_append_left _ _

theorem channelSetNewPrevHash_tells {P : Job μ → Prop} {k' : ChannelId} (hJ : J.Lawful)
    (h : channelSetNewPrevHash J d silent p k channel messages = .ok (channel', messages')) :
    J.Tells P k' (some channel) channel' := by
  obtain ⟨_, hn, _⟩ | ⟨_, _, hn, _⟩ := channelSetNewPrevHash_cases h <;>
    exact hJ.tells_setNewPrevHash hn

end Loops

namespace Downstream

variable {D D' D₁ : Downstream C} {groupJob : Option ExtendedJob} {g g' : Option C.Group}

theorem Evolves.mono (h : D.Evolves messages d D') (hs : messages ⊆ messages') :
    D.Evolves messages' d D' where
  ungrouped          := h.ungrouped
  group hR g hg      := (h.group hR g hg).mono fun _ => Sends.mono hs
  standard hg c ch hc := (h.standard hg c ch hc).mono fun _ => Sends.mono hs
  extended c ch hc   := (h.extended c ch hc).mono fun _ => Sends.mono hs

theorem groupChannelJob_cases (h : D.groupChannelJob msg outputs = .ok (g', groupJob)) :
    D.groupChannels = none ∧ g' = none ∧ groupJob = none ∨
      ∃ g₀ g₁, D.groupChannels = some g₀ ∧ g' = some g₁ ∧
        ((∃ e, C.group.onNewTemplate g₀ msg outputs = (.error e, g₁) ∧ groupJob = none) ∨
          ∃ job, C.group.onNewTemplate g₀ msg outputs = (.ok (), g₁) ∧
            jobOf C.group.toJobStore g₁ msg = .ok job ∧ groupJob = some job) := by
  rw [groupChannelJob] at h
  split at h
  case h_1 hg =>
    cases pure_eq_ok.mp h
    exact .inl ⟨hg, rfl, rfl⟩
  case h_2 g₀ hg =>
    simp only [bind_eq_ok, pure_eq_ok, Prod.mk.injEq, Prod.exists] at h
    obtain ⟨g₁, job, h, rfl, rfl⟩ := h
    refine .inr ⟨g₀, g₁, hg, rfl, ?_⟩
    rw [groupNewTemplate] at h
    split at h
    case h_1 e _ hn =>
      cases pure_eq_ok.mp h
      exact .inl ⟨e, hn, rfl⟩
    case h_2 hn =>
      simp only [bind_eq_ok, pure_eq_ok, Prod.mk.injEq] at h
      obtain ⟨job, hj, rfl, rfl⟩ := h
      exact .inr ⟨job, hn, hj, rfl⟩

theorem groupChannelJob_tells (hC : C.Lawful)
    (h : D.groupChannelJob msg outputs = .ok (g', groupJob))
    (hs : ∀ job, groupJob = some job → Sends messages d .newExtendedMiningJob job) (g : C.Group)
    (hg : g' = some g) :
    C.group.Tells (Sends messages d .newExtendedMiningJob)
      (C.group.getChannelId (D.groupChannels.getD g)) D.groupChannels g := by
  obtain ⟨_, rfl, _⟩ | ⟨g₀, g₁, hg₀, rfl, hn⟩ := groupChannelJob_cases h
  · cases hg
  · cases hg
    rw [hg₀]
    obtain ⟨e, hn, _⟩ | ⟨job, hn, hj, rfl⟩ := hn
    · exact tells_onNewTemplate hC.group hn (by simp)
    · refine tells_onNewTemplate hC.group hn fun _ hf job' hjob => ?_
      cases hjob.symm.trans <| jobOf_future hf hj
      exact hs job rfl

theorem standardNewTemplate_subset {ch ch' : C.Standard}
    (h : D.standardNewTemplate d groupJob msg outputs k ch messages = .ok (ch', messages')) :
    messages ⊆ messages' := by
  simp only [standardNewTemplate] at h
  split at h
  case isTrue => exact channelNewTemplate_subset h
  case isFalse =>
    split at h
    case h_1 =>
      cases pure_eq_ok.mp h
      exact List.Subset.refl _
    case h_2 =>
      split at h <;>
        cases pure_eq_ok.mp h <;>
        exact List.Subset.refl _

theorem standardNewTemplate_tells {ch ch' : C.Standard} (hC : C.Lawful)
    (hg : D.groupChannels = none)
    (h : D.standardNewTemplate d groupJob msg outputs k ch messages = .ok (ch', messages')) :
    C.standard.Tells (Sends messages' d .newMiningJob) k (some ch) ch' := by
  simp only [standardNewTemplate, hg, Option.isNone_none, if_true] at h
  exact channelNewTemplate_tells hC.standard.toLawful h

-- A step that only goes over the channels of a downstream keeps all of them.
theorem has_iff (hs : ∀ c, c ∈ D'.standardChannels ↔ c ∈ D.standardChannels)
    (he : ∀ c, c ∈ D'.extendedChannels ↔ c ∈ D.extendedChannels) : ∀ c, D'.Has c ↔ D.Has c :=
  fun c => by rw [Has, Has, hs, he]

theorem newTemplate_evolves
    (h : D.newTemplate d messages msg outputs = .ok (D', messages')) :
    messages ⊆ messages' ∧ (∀ c, D'.Has c ↔ D.Has c) ∧
      (C.Lawful → D.Evolves messages' d D') := by
  simp only [newTemplate, bind_eq_ok, pure_eq_ok, Prod.mk.injEq, Prod.exists] at h
  obtain ⟨g', groupJob, hg, standard, m₁, hS, extended, m₂, hE, rfl, rfl⟩ := h
  have ⟨hs₁, hk₁, he₁⟩ :=
    Map.forEach_collects (fun _ _ _ _ _ => standardNewTemplate_subset) hS
  have ⟨hs₂, hk₂, he₂⟩ :=
    Map.forEach_collects (fun _ _ _ _ _ => channelNewTemplate_subset) hE
  have hs₁₂ := List.Subset.trans (List.subset_append_left m₁ _) hs₂
  refine ⟨List.Subset.trans hs₁ hs₁₂, has_iff hk₁ hk₂,
    fun hC => ⟨fun hn => ?_, ?_, fun hn c ch' hc => ?_, ?_⟩⟩
  · obtain ⟨hn', _⟩ | ⟨_, _, _, rfl, _⟩ := groupChannelJob_cases hg
    · exact hn'
    · cases hn
  · exact fun _ => groupChannelJob_tells hC hg fun job hj => hs₂ (by simp [hj])
  · have hn' : D.groupChannels = none := by
      obtain ⟨hn', _⟩ | ⟨_, _, _, rfl, _⟩ := groupChannelJob_cases hg
      · exact hn'
      · cases hn
    have ⟨ch, l₁, l₂, hl, hf, _, hl₂⟩ := he₁ c ch' hc
    rw [hl]
    exact (standardNewTemplate_tells hC hn' hf).mono fun _ => Sends.mono <| List.Subset.trans hl₂ hs₁₂
  · intro c ch' hc
    have ⟨ch, l₁, l₂, hl, hf, _, hl₂⟩ := he₂ c ch' hc
    rw [hl]
    exact (channelNewTemplate_tells hC.extended.toLawful hf).mono fun _ => Sends.mono hl₂

theorem groupSetNewPrevHash_cases
    (h : D.groupSetNewPrevHash d messages p = .ok (g', messages')) :
    D.groupChannels = none ∧ g' = none ∧ messages' = messages ∨
      ∃ g₀ r g₁ job, D.groupChannels = some g₀ ∧ C.group.onSetNewPrevHash g₀ p = (r, g₁) ∧
        g' = some g₁ ∧ C.group.getActiveJob g₁ = some job ∧ messages' = messages ++
          [.downstream d (setNewPrevHashMp (C.group.getChannelId g₁) job.getJobId p)] := by
  rw [groupSetNewPrevHash] at h
  split at h
  case h_1 hg =>
    cases pure_eq_ok.mp h
    exact .inl ⟨hg, rfl, rfl⟩
  case h_2 g₀ hg =>
    simp only [bind_eq_ok, expect_eq_ok, pure_eq_ok, Prod.mk.injEq] at h
    obtain ⟨job, hj, rfl, rfl⟩ := h
    exact .inr ⟨g₀, _, _, job, hg, rfl, rfl, hj, rfl⟩

theorem setNewPrevHash_evolves
    (h : D.setNewPrevHash d messages p = .ok (D', messages')) :
    messages ⊆ messages' ∧ (∀ c, D'.Has c ↔ D.Has c) ∧
      (C.Lawful → D.Evolves messages' d D') := by
  simp only [setNewPrevHash, bind_eq_ok, pure_eq_ok, Prod.mk.injEq, Prod.exists] at h
  obtain ⟨g', m₁, hg, standard, m₂, hS, extended, m₃, hE, rfl, rfl⟩ := h
  have ⟨hs₁, hk₁, he₁⟩ :=
    Map.forEach_collects (fun _ _ _ _ _ => channelSetNewPrevHash_subset) hS
  have ⟨hs₂, hk₂, he₂⟩ :=
    Map.forEach_collects (fun _ _ _ _ _ => channelSetNewPrevHash_subset) hE
  have hg := groupSetNewPrevHash_cases hg
  have hs₀ : messages ⊆ m₁ := by
    obtain ⟨_, _, rfl⟩ | ⟨_, _, _, _, _, _, _, _, rfl⟩ := hg
    · exact List.Subset.refl _
    · exact List.subset_append_left _ _
  refine ⟨List.Subset.trans hs₀ <| List.Subset.trans hs₁ hs₂, has_iff hk₁ hk₂,
    fun hC => ⟨fun hn => ?_, fun _ g₁ hg₁ => ?_, fun _ c ch' hc => ?_, fun c ch' hc => ?_⟩⟩
  · obtain ⟨hn', _⟩ | ⟨_, _, _, _, _, _, rfl, _⟩ := hg
    · exact hn'
    · cases hn
  · obtain ⟨_, rfl, _⟩ | ⟨g₀, r, g₁, _, hg₀, hp, rfl, _⟩ := hg
    · cases hg₁
    · cases hg₁
      rw [hg₀]
      exact hC.group.tells_setNewPrevHash hp
  · have ⟨ch, _, _, hl, hf, _⟩ := he₁ c ch' hc
    rw [hl]
    exact channelSetNewPrevHash_tells hC.standard.toLawful hf
  · have ⟨ch, _, _, hl, hf, _⟩ := he₂ c ch' hc
    rw [hl]
    exact channelSetNewPrevHash_tells hC.extended.toLawful hf

end Downstream

namespace ChannelManager

variable {cfg : Config} {s s' : ChannelManager C}

-- What a step of the channel manager may do to the downstreams: it adds none and takes none away,
-- their channels keep or get their vardiff states, and their future jobs are told.
structure Advances (s : ChannelManager C) (messages : List RouteMessageTo) (s' : ChannelManager C) :
    Prop where
  mem                 : ∀ d, d ∈ s'.downstream ↔ d ∈ s.downstream
  downstream          : ∀ d D', s'.downstream.lookup d = some D' →
    ∃ D, s.downstream.lookup d = some D ∧
      (∀ c, (D.Has c → (d, c) ∈ s.vardiff) → D'.Has c → (d, c) ∈ s'.vardiff) ∧
      (C.Lawful → s.FutureTemplate → D.Evolves messages d D')
  downstreamIdFactory : s'.downstreamIdFactory = s.downstreamIdFactory
  coinbaseOutputs     : s'.coinbaseOutputs = s.coinbaseOutputs

theorem Handled.advances (h : s.Handled d messages s') : s.Advances messages s' where
  mem d' := by
    by_cases hd : d' = d
    case pos => exact hd ▸ h.mem
    case neg => rw [← AList.lookup_isSome, ← AList.lookup_isSome, h.others d' hd]
  downstream d' D' hD' := by
    by_cases hd : d' = d
    case pos =>
      subst hd
      exact h.own D' hD'
    case neg =>
      rw [h.others d' hd] at hD'
      exact ⟨D', hD', fun c hc hh => (h.othersVardiff _ hd).mpr <| hc hh, fun _ _ => .refl⟩
  downstreamIdFactory := h.downstreamIdFactory
  coinbaseOutputs     := h.coinbaseOutputs

-- The two handlers that go over all downstreams.
theorem forEach_advances
    {f : DownstreamId → Downstream C → List RouteMessageTo →
      Except (Fault PoolError) (Downstream C × List RouteMessageTo)}
    (hf : ∀ d D l D' l', f d D l = .ok (D', l') →
      l ⊆ l' ∧ (∀ c, D'.Has c ↔ D.Has c) ∧ (C.Lawful → D.Evolves l' d D'))
    {m : Map DownstreamId (Downstream C)}
    (h : s.downstream.forEach f [] = .ok (m, messages)) (hd : s'.downstream = m)
    (hv : s'.vardiff = s.vardiff) (hi : s'.downstreamIdFactory = s.downstreamIdFactory)
    (hc : s'.coinbaseOutputs = s.coinbaseOutputs) : s.Advances messages s' := by
  have ⟨_, hk, he⟩ := Map.forEach_collects (fun d D l D' l' h => (hf d D l D' l' h).left) h
  refine ⟨hd ▸ hk, fun d D' hD' => ?_, hi, hc⟩
  have ⟨D, l₁, l₂, hD, hr, _, hl⟩ := he d D' (hd ▸ hD')
  have ⟨_, hh, hE⟩ := hf d D l₁ D' l₂ hr
  exact ⟨D, hD, fun c hc h => hv ▸ hc ((hh c).mp h), fun hC _ => (hE hC).mono hl⟩

theorem handleNewTemplate_cases (h : s.handleNewTemplate msg = .ok (s', messages)) :
    ∃ outputs m, s.downstream.forEach
        (fun d D messages => D.newTemplate d messages msg outputs) [] = .ok (m, messages) ∧
      s' = { s with
        downstream         := m
        lastFutureTemplate := if msg.futureTemplate then some msg else s.lastFutureTemplate } := by
  simp only [handleNewTemplate, bind_eq_ok, expect_eq_ok, pure_eq_ok, Prod.mk.injEq,
    Prod.exists] at h
  obtain ⟨_, _, outputs, _, m, ms, hm, rfl, rfl⟩ := h
  refine ⟨outputs, m, ?_, ?_⟩
  · cases hf : msg.futureTemplate <;> simpa [hf] using hm
  · cases hf : msg.futureTemplate <;> simp

theorem handleNewTemplate_advances (h : s.handleNewTemplate msg = .ok (s', messages)) :
    s.Advances messages s' := by
  obtain ⟨outputs, m, hm, rfl⟩ := handleNewTemplate_cases h
  exact forEach_advances (fun _ _ _ _ _ => Downstream.newTemplate_evolves) hm rfl rfl rfl rfl

theorem handleSetNewPrevHash_cases (h : s.handleSetNewPrevHash p = .ok (s', messages)) :
    ∃ m, s.downstream.forEach
        (fun d D messages => D.setNewPrevHash d messages p) [] = .ok (m, messages) ∧
      s' = { s with downstream := m, lastNewPrevHash := some p } := by
  simp only [handleSetNewPrevHash, bind_eq_ok, pure_eq_ok, Prod.mk.injEq, Prod.exists] at h
  obtain ⟨m, ms, hm, rfl, rfl⟩ := h
  exact ⟨m, hm, rfl⟩

theorem handleSetNewPrevHash_advances (h : s.handleSetNewPrevHash p = .ok (s', messages)) :
    s.Advances messages s' := by
  obtain ⟨m, hm, rfl⟩ := handleSetNewPrevHash_cases h
  exact forEach_advances (fun _ _ _ _ _ => Downstream.setNewPrevHash_evolves) hm rfl rfl rfl rfl

theorem Advances.refl : s.Advances messages s where
  mem _               := Iff.rfl
  downstream _ D h    := ⟨D, h, fun _ => id, fun _ _ => .refl⟩
  downstreamIdFactory := rfl
  coinbaseOutputs     := rfl

section Vardiff

variable {D D' D₁ D₂ : Downstream C}

-- The channels of a downstream are the same ones, with the jobs they had.
structure Settles (D D' : Downstream C) : Prop where
  group    : D'.groupChannels = D.groupChannels
  standard : ∀ c ch', D'.standardChannels.lookup c = some ch' →
    ∃ ch, D.standardChannels.lookup c = some ch ∧ (C.Lawful → C.standard.Keeps ch ch')
  extended : ∀ c ch', D'.extendedChannels.lookup c = some ch' →
    ∃ ch, D.extendedChannels.lookup c = some ch ∧ (C.Lawful → C.extended.Keeps ch ch')

namespace Settles

theorem refl : Settles D D where
  group           := rfl
  standard _ ch h := ⟨ch, h, fun _ => .refl _ _⟩
  extended _ ch h := ⟨ch, h, fun _ => .refl _ _⟩

theorem trans (h₁ : Settles D D₁) (h₂ : Settles D₁ D₂) : Settles D D₂ where
  group           := h₂.group.trans h₁.group
  standard c ch h :=
    have ⟨ch₁, hl₁, hk₁⟩ := h₂.standard c ch h
    have ⟨ch₂, hl₂, hk₂⟩ := h₁.standard c ch₁ hl₁
    ⟨ch₂, hl₂, fun hC => (hk₂ hC).trans (hk₁ hC)⟩
  extended c ch h :=
    have ⟨ch₁, hl₁, hk₁⟩ := h₂.extended c ch h
    have ⟨ch₂, hl₂, hk₂⟩ := h₁.extended c ch₁ hl₁
    ⟨ch₂, hl₂, fun hC => (hk₂ hC).trans (hk₁ hC)⟩

theorem has (h : Settles D D') (hh : D'.Has k) : D.Has k := by
  cases hh
  case inl hh =>
    have ⟨ch', hl⟩ := Map.mem_iff_lookup.mp hh
    have ⟨ch, hl, _⟩ := h.standard k ch' hl
    exact .inl <| Map.mem_iff_lookup.mpr ⟨ch, hl⟩
  case inr hh =>
    have ⟨ch', hl⟩ := Map.mem_iff_lookup.mp hh
    have ⟨ch, hl, _⟩ := h.extended k ch' hl
    exact .inr <| Map.mem_iff_lookup.mpr ⟨ch, hl⟩

theorem evolves (h : Settles D D') (hC : C.Lawful) : D.Evolves messages d D' where
  ungrouped hg     := h.group ▸ hg
  group _ g hg     := by
    rw [← h.group, hg]
    exact .refl
  standard _ c ch' hc := by
    have ⟨ch, hl, hk⟩ := h.standard c ch' hc
    rw [hl]
    exact .of_keeps (hk hC)
  extended c ch' hc := by
    have ⟨ch, hl, hk⟩ := h.extended c ch' hc
    rw [hl]
    exact .of_keeps (hk hC)

end Settles

section Channels

variable {κ μ ω ε : Type} [JobMessage μ] [ShareMessage ω] {S : ShareChannels κ μ ω ε} {channel : κ}
variable {channels : Map ChannelId κ} {vardiff : C.VardiffState} {key : VardiffKey}

theorem runVardiffOnChannel_keeps (hS : S.Lawful) :
    S.Keeps channel (runVardiffOnChannel S d k channel vardiff).1 := by
  rw [runVardiffOnChannel]
  split
  case h_1 hashrate _ _ =>
    have hk := hS.updateChannel channel hashrate none
    split <;> simp_all
  case h_2 | h_3 => exact .refl _ _

theorem runVardiffOnChannels_lookup {channel' : κ}
    (h : (runVardiffOnChannels S key channels vardiff).1.lookup k = some channel') :
    ∃ channel, channels.lookup k = some channel ∧ (S.Lawful → S.Keeps channel channel') := by
  rw [runVardiffOnChannels] at h
  split at h
  case h_1 => exact ⟨channel', h, fun _ => .refl _ _⟩
  case h_2 channel hl =>
    rw [Map.lookup_insert_ite] at h
    split at h
    case isTrue hk =>
      cases h
      exact ⟨channel, hk ▸ hl, runVardiffOnChannel_keeps⟩
    case isFalse => exact ⟨channel', h, fun _ => .refl _ _⟩

end Channels

-- The downstreams in the middle of a round over the vardiff states.
def AllSettle (m m' : Map DownstreamId (Downstream C)) : Prop :=
  (∀ d, d ∈ m' ↔ d ∈ m) ∧
    ∀ d D', m'.lookup d = some D' → ∃ D, m.lookup d = some D ∧ Settles D D'

theorem vardiffRound_settles {m : Map DownstreamId (Downstream C)} {key : VardiffKey}
    {vardiff vardiff' : C.VardiffState}
    {r r' : Map DownstreamId (Downstream C) × List RouteMessageTo}
    (hm : AllSettle m r.1) (h : vardiffRound key vardiff r = .ok (vardiff', r')) :
    AllSettle m r'.1 := by
  rw [vardiffRound] at h
  split at h
  case h_1 =>
    cases pure_eq_ok.mp h
    exact hm
  case h_2 D₁ hD₁ =>
    cases pure_eq_ok.mp h
    refine ⟨fun d => ?_, fun d D' hD' => ?_⟩
    · rw [AList.mem_insert, ← hm.left]
      exact or_iff_right_of_imp (· ▸ Map.mem_iff_lookup.mpr ⟨_, hD₁⟩)
    · rw [Map.lookup_insert_ite] at hD'
      split at hD'
      case isFalse => exact hm.right d D' hD'
      case isTrue hd =>
        cases hD'
        have ⟨D, hD, hs⟩ := hm.right key.1 D₁ hD₁
        refine ⟨D, hd ▸ hD, hs.trans ⟨rfl, fun c ch' hc => ?_, fun c ch' hc => ?_⟩⟩
        · have ⟨ch, hl, hk⟩ := runVardiffOnChannels_lookup hc
          exact ⟨ch, hl, fun hC => hk hC.standard⟩
        · have ⟨ch, hl, hk⟩ := runVardiffOnChannels_lookup hc
          exact ⟨ch, hl, fun hC => hk hC.extended⟩

theorem runVardiff_same (h : s.runVardiff = .ok (s', messages)) :
    s'.lastFutureTemplate = s.lastFutureTemplate ∧ s'.lastNewPrevHash = s.lastNewPrevHash := by
  simp only [runVardiff, bind_eq_ok, pure_eq_ok, Prod.mk.injEq, Prod.exists] at h
  obtain ⟨_, _, _, _, rfl, _⟩ := h
  exact ⟨rfl, rfl⟩

theorem runVardiff_advances (h : s.runVardiff = .ok (s', messages)) :
    s.Advances messages s' := by
  simp only [runVardiff, bind_eq_ok, pure_eq_ok, Prod.mk.injEq, Prod.exists] at h
  obtain ⟨vardiff, m, ms, hr, rfl, rfl⟩ := h
  have ⟨⟨hk, hm⟩, _, he, hn⟩ := Map.forEach_rule (P := fun r => AllSettle s.downstream r.1)
    (T := fun _ _ => True) (fun _ => trivial) (fun _ _ _ _ _ => trivial)
    (fun _ _ _ _ _ _ hP h => ⟨vardiffRound_settles hP h, trivial⟩)
    ⟨fun _ => Iff.rfl, fun _ D hD => ⟨D, hD, .refl⟩⟩ hr
  refine ⟨hk, fun d D' hD' => ?_, rfl, rfl⟩
  have ⟨D, hD, hs⟩ := hm d D' hD'
  refine ⟨D, hD, fun c hc hh => ?_, fun hC _ => hs.evolves hC⟩
  have ⟨v, hv⟩ := Map.mem_iff_lookup.mp <| hc (hs.has hh)
  have ⟨_, v', _, _, _, _, hv', _⟩ := he _ v hv
  exact Map.mem_iff_lookup.mpr ⟨v', hv'⟩

end Vardiff

theorem handleTemplateDistributionMessageFromServer_advances {m : TemplateDistribution}
    (h : s.handleTemplateDistributionMessageFromServer m = .ok (s', messages)) :
    s.Advances messages s' := by
  cases m <;> try cases h
  case newTemplate                   => exact handleNewTemplate_advances h
  case setNewPrevHash                => exact handleSetNewPrevHash_advances h
  case requestTransactionDataError   => exact .refl
  case requestTransactionDataSuccess => exact .refl

end ChannelManager

end Pool
