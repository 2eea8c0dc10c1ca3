import StratumApps.Pool.System

open Sv2 Handler StratumCore

namespace Pool

variable {C : StratumCore} {d d' : DownstreamId} {c : ChannelId} {messages : List RouteMessageTo}

def Sends {μ : Type} (messages : List RouteMessageTo) (d : DownstreamId) (mining : μ → Mining)
    (job : Job μ) : Prop :=
  .downstream d (mining job.jobMessage) ∈ messages

theorem futureJobOf_eq_ok {κ μ ε : Type} {J : JobStore κ μ ε} {channel : κ} {t : TemplateId}
    {r : JobId × Job μ} (h : futureJobOf J channel t = .ok r) :
    J.futureJob channel t = some r.2 := by
  simp only [futureJobOf, bind_eq_ok, expect_eq_ok, pure_eq_ok] at h
  obtain ⟨j, hj, job, hjob, rfl⟩ := h
  simp [JobStore.futureJob, hj, hjob]

namespace Downstream

variable {D D' : Downstream C}

def Has (D : Downstream C) (c : ChannelId) : Prop :=
  c ∈ D.standardChannels ∨ c ∈ D.extendedChannels

-- What the channels of a downstream may become by a step that sends it some messages. The standard
-- channels of a group are left out, since no message names one of their own jobs. A new group channel
-- has a job that is not sent, which only a prev hash that fits it takes away.
structure Evolves (messages : List RouteMessageTo) (d : DownstreamId) (D D' : Downstream C) :
    Prop where
  ungrouped : D'.groupChannels = none → D.groupChannels = none
  group     : C.Refuses → ∀ g, D'.groupChannels = some g →
    C.group.Tells (Sends messages d .newExtendedMiningJob)
      (C.group.getChannelId (D.groupChannels.getD g)) D.groupChannels g
  standard  : D'.groupChannels = none → ∀ c ch, D'.standardChannels.lookup c = some ch →
    C.standard.Tells (Sends messages d .newMiningJob) c (D.standardChannels.lookup c) ch
  extended  : ∀ c ch, D'.extendedChannels.lookup c = some ch →
    C.extended.Tells (Sends messages d .newExtendedMiningJob) c (D.extendedChannels.lookup c) ch

end Downstream

namespace ChannelManager

variable {cfg : Config} {s s' s₁ s₂ : ChannelManager C} {D D' : Downstream C}

def FutureTemplate (s : ChannelManager C) : Prop :=
  ∀ t, s.lastFutureTemplate = some t → t.futureTemplate = true

-- What the handling of a message of `d` may do: it changes that downstream, every channel of which
-- keeps or gets its vardiff state, and nothing of the others.
structure Handled (s : ChannelManager C) (d : DownstreamId) (messages : List RouteMessageTo)
    (s' : ChannelManager C) : Prop where
  others              : ∀ d', d' ≠ d → s'.downstream.lookup d' = s.downstream.lookup d'
  othersVardiff       : ∀ k : VardiffKey, k.1 ≠ d → (k ∈ s'.vardiff ↔ k ∈ s.vardiff)
  mem                 : d ∈ s'.downstream ↔ d ∈ s.downstream
  own                 : ∀ D', s'.downstream.lookup d = some D' →
    ∃ D, s.downstream.lookup d = some D ∧
      (∀ c, (D.Has c → (d, c) ∈ s.vardiff) → D'.Has c → (d, c) ∈ s'.vardiff) ∧
      (C.Lawful → s.FutureTemplate → D.Evolves messages d D')
  downstreamIdFactory : s'.downstreamIdFactory = s.downstreamIdFactory
  coinbaseOutputs     : s'.coinbaseOutputs = s.coinbaseOutputs
  lastNewPrevHash     : s'.lastNewPrevHash = s.lastNewPrevHash
  lastFutureTemplate  : s'.lastFutureTemplate = s.lastFutureTemplate

-- The rest of the state.
def SameTemplates (s s' : ChannelManager C) : Prop :=
  s'.downstreamIdFactory = s.downstreamIdFactory ∧ s'.coinbaseOutputs = s.coinbaseOutputs ∧
    s'.lastNewPrevHash = s.lastNewPrevHash ∧ s'.lastFutureTemplate = s.lastFutureTemplate

end ChannelManager

theorem Downstream.Evolves.refl {D : Downstream C} : D.Evolves messages d D where
  ungrouped  := id
  group _ _ h := h ▸ .refl
  standard _ := JobStore.tells_lookup
  extended   := JobStore.tells_lookup

theorem Downstream.Evolves.setFactory {D D' : Downstream C} (h : D.Evolves messages d D')
    (n : ChannelId) : D.Evolves messages d { D' with channelIdFactory := n } :=
  have ⟨h₁, h₂, h₃, h₄⟩ := h
  ⟨h₁, h₂, h₃, h₄⟩

namespace ChannelManager

variable {cfg : Config} {s s' s₁ s₂ : ChannelManager C} {D D' : Downstream C}

namespace Handled

theorem same (hd : s'.downstream = s.downstream) (hv : s'.vardiff = s.vardiff)
    (hr : SameTemplates s s') : s.Handled d messages s' where
  others _ _          := by rw [hd]
  othersVardiff _ _   := by rw [hv]
  mem                 := by rw [hd]
  own D' h            := ⟨D', hd ▸ h, fun _ h => hv ▸ h, fun _ _ => .refl⟩
  downstreamIdFactory := hr.left
  coinbaseOutputs     := hr.right.left
  lastNewPrevHash     := hr.right.right.left
  lastFutureTemplate  := hr.right.right.right

theorem refl : s.Handled d messages s :=
  same rfl rfl ⟨rfl, rfl, rfl, rfl⟩

theorem set (hD : s.downstream.lookup d = some D) (hd : s'.downstream = s.downstream.insert d D')
    (hv : ∀ k : VardiffKey, k.1 ≠ d → (k ∈ s'.vardiff ↔ k ∈ s.vardiff))
    (hh : ∀ c, (D.Has c → (d, c) ∈ s.vardiff) → D'.Has c → (d, c) ∈ s'.vardiff)
    (he : C.Lawful → s.FutureTemplate → D.Evolves messages d D') (hr : SameTemplates s s') :
    s.Handled d messages s' where
  others _ hne        := by rw [hd, AList.lookup_insert_ne hne]
  othersVardiff       := hv
  mem                 := by simp [hd, Map.mem_iff_lookup.mpr ⟨D, hD⟩]
  own D₁ h            := by
    rw [hd, AList.lookup_insert, Option.some_inj] at h
    exact ⟨D, hD, h ▸ hh, h ▸ he⟩
  downstreamIdFactory := hr.left
  coinbaseOutputs     := hr.right.left
  lastNewPrevHash     := hr.right.right.left
  lastFutureTemplate  := hr.right.right.right

end Handled

theorem handleCloseChannel_handled {msg : CloseChannel}
    (h : s.handleCloseChannel d msg = .ok (s', messages)) : s.Handled d messages s' := by
  simp only [handleCloseChannel, bind_eq_ok, orErr_eq_ok, pure_eq_ok, Prod.mk.injEq] at h
  obtain ⟨D, hD, rfl, rfl⟩ := h
  refine .set hD rfl (fun k hk => ?_) (fun c hc hh => ?_) (fun _ _ => ?_) ⟨rfl, rfl, rfl, rfl⟩
  · simp only [AList.mem_erase, setDownstream]
    exact and_iff_right fun he => hk (by rw [he])
  · simp only [Downstream.Has, AList.mem_erase] at hh hc
    simp only [AList.mem_erase, setDownstream, ne_eq, Prod.mk.injEq, true_and]
    exact ⟨hh.elim And.left And.left, hc <| hh.imp And.right And.right⟩
  · exact ⟨id, fun _ _ hg => hg ▸ .refl, fun _ => JobStore.tells_erase, JobStore.tells_erase⟩

section Group

variable {t : NewTemplate} {p : SetNewPrevHash} {g : C.Group}

theorem newGroupChannel_eq_ok : newGroupChannel cfg c t p = .ok g ↔
    ∃ g₀ g₁, C.group.newForPool c fullExtranonceSize cfg.poolTagString = .ok g₀ ∧
      C.group.onNewTemplate g₀ t [cfg.poolCoinbaseOutput t] = (.ok (), g₁) ∧
      C.group.onSetNewPrevHash g₁ p = (.ok (), g) := by
  simp only [newGroupChannel, bind_eq_ok, ofExcept_eq_ok, attempt_eq_ok, pure_eq_ok, Prod.exists,
    Unique.exists_iff, exists_eq_right, PUnit.default_eq_unit, exists_and_left]

theorem ensureGroupChannel_cases (h : ensureGroupChannel cfg D t p = .ok D') :
    D' = D ∨ D.groupChannels = none ∧ ∃ g, newGroupChannel cfg D.channelIdFactory t p = .ok g ∧
      D' = { D with groupChannels := some g, channelIdFactory := D.channelIdFactory + 1 } := by
  rw [ensureGroupChannel] at h
  split at h
  case isTrue hc =>
    simp only [bind_eq_ok, pure_eq_ok] at h
    simp only [Bool.and_eq_true, Option.isNone_iff_eq_none] at hc
    obtain ⟨g, hg, h⟩ := h
    exact .inr ⟨hc.right, g, hg, h.symm⟩
  case isFalse => exact .inl (pure_eq_ok.mp h).symm

theorem ensureGroupChannel_has (h : ensureGroupChannel cfg D t p = .ok D') :
    D'.standardChannels = D.standardChannels ∧ D'.extendedChannels = D.extendedChannels := by
  obtain rfl | ⟨_, g, _, rfl⟩ := ensureGroupChannel_cases h <;> exact ⟨rfl, rfl⟩

-- A new group channel has no future job left.
theorem ensureGroupChannel_evolves (hC : C.Lawful) (ht : t.futureTemplate = true)
    (h : ensureGroupChannel cfg D t p = .ok D') : D.Evolves messages d D' := by
  obtain rfl | ⟨hg, g, hn, rfl⟩ := ensureGroupChannel_cases h
  · exact .refl
  · have ⟨g₀, g₁, h₀, h₁, h₂⟩ := newGroupChannel_eq_ok.mp hn
    refine ⟨by simp, fun hR g' hg' => ?_, by simp, JobStore.tells_lookup⟩
    have ⟨_, _, hf, _⟩ := hC.group.fresh_activated hR.group (hC.newGroup _ _ _ _ h₀) ht h₁ h₂
    cases hg'
    rw [hg]
    exact .of_none rfl hf

end Group

theorem mem_insert_vardiff {k : VardiffKey} {v : C.VardiffState} {m : Map VardiffKey C.VardiffState}
    (h : k.1 ≠ d) : k ∈ m.insert (d, c) v ↔ k ∈ m := by
  rw [AList.mem_insert]
  exact or_iff_right fun he => h (by rw [he])

theorem startStandardChannel_handled {s₁ : ChannelManager C} {D₁ : Downstream C}
    {channel : C.Standard} {msg : OpenStandardMiningChannel} {t : NewTemplate} {p : SetNewPrevHash}
    (hD : s.downstream.lookup d = some D) (h₁ : s₁.downstream = s.downstream)
    (hv : s₁.vardiff = s.vardiff) (hr : SameTemplates s s₁)
    (hs : D₁.standardChannels = D.standardChannels) (he : D₁.extendedChannels = D.extendedChannels)
    (hg : C.Lawful → s.FutureTemplate → D.Evolves messages d D₁)
    (ht : s.lastFutureTemplate = some t)
    (hf : C.Lawful → C.standard.Fresh channel c)
    (h : s₁.startStandardChannel cfg d D₁ channel c msg t p = .ok (s', messages)) :
    s.Handled d messages s' := by
  simp only [startStandardChannel, bind_eq_ok, expect_eq_ok, attempt_eq_ok, ofExcept_eq_ok,
    pure_eq_ok, Prod.mk.injEq, Prod.exists] at h
  obtain ⟨_, _, _, ch₁, hn, _, job, hj, _, ch₂, hp, v, _, rfl, hm⟩ := h
  have hsent : Sends messages d .newMiningJob job := by simp [Sends, ← hm]
  refine .set hD
    (by rw [setDownstream, h₁]) (fun k hk => ?_) (fun c' hc hh => ?_) (fun hC hT => ?_) hr
  · simpa only [setDownstream, hv] using mem_insert_vardiff hk
  · simp only [setDownstream, hv, AList.mem_insert, Prod.mk.injEq, true_and]
    simp only [Downstream.Has, AList.mem_insert, hs, he] at hh hc
    tauto
  · obtain ⟨hu, hg, hS, hE⟩ := hg hC hT
    have hS' := hC.standard.tells_started (D.standardChannels.lookup c) (hf hC) (hT t ht) hn
      (futureJobOf_eq_ok hj) hsent hp
    refine ⟨?_, fun hR g hg' => ?_, fun hg' => ?_, ?_⟩
    · simpa using hu
    · simp only [Option.map_eq_some_iff] at hg'
      obtain ⟨g₀, hg₀, rfl⟩ := hg'
      have hk := hC.addStandardChannelId g₀ c
      have hi : C.group.getChannelId (D.groupChannels.getD (C.group.addStandardChannelId g₀ c)) =
          C.group.getChannelId (D.groupChannels.getD g₀) := by
        cases D.groupChannels with
        | none   => exact hk.channelId
        | some _ => rfl
      exact hi ▸ (hg hR g₀ hg₀).keeps hk
    · simpa only [hs] using JobStore.tells_insert hS'
    · simpa only [he] using JobStore.tells_lookup

theorem handleOpenStandardMiningChannel_handled {msg : OpenStandardMiningChannel}
    (h : s.handleOpenStandardMiningChannel cfg d msg = .ok (s', messages)) :
    s.Handled d messages s' := by
  simp only [handleOpenStandardMiningChannel, bind_eq_ok, orErr_eq_ok] at h
  obtain ⟨D, hD, h⟩ := h
  split at h
  case isTrue =>
    cases pure_eq_ok.mp h
    exact .refl
  case isFalse =>
    simp only [bind_eq_ok, orErr_eq_ok, attempt_eq_ok, Prod.exists] at h
    obtain ⟨t, ht, p, _, D₁, h₁, pre, factory, _, h⟩ := h
    obtain ⟨hs, he⟩ := ensureGroupChannel_has h₁
    have hg (hC : C.Lawful) (hT : s.FutureTemplate) :
        D.Evolves messages d { D₁ with channelIdFactory := D₁.channelIdFactory + 1 } :=
      (ensureGroupChannel_evolves hC (hT t ht) h₁).setFactory _
    simp only [openStandardChannel] at h
    split at h
    case h_1 channel hn =>
      have hf (hC : C.Lawful) : C.standard.Fresh channel D₁.channelIdFactory :=
        hC.newStandard _ _ _ hn
      refine startStandardChannel_handled hD ?_ ?_ ?_ ?_ ?_ hg ht hf h
      · rfl
      · rfl
      · exact ⟨rfl, rfl, rfl, rfl⟩
      · exact hs
      · exact he
    case h_2 =>
      split at h
      case h_1 =>
        cases pure_eq_ok.mp h
        refine .set hD rfl (fun _ _ => Iff.rfl) (fun c hc hh => hc ?_) hg ⟨rfl, rfl, rfl, rfl⟩
        simpa only [Downstream.Has, hs, he] using hh
      case h_2 => cases h

theorem startExtendedJobs_evolves {requiresCustomWork : Bool} {channel channel' : C.Extended}
    {t : NewTemplate} {p : SetNewPrevHash} {ms : List RouteMessageTo} (hC : C.Lawful)
    (old : Option C.Extended) (ht : t.futureTemplate = true) (hf : C.extended.Fresh channel c)
    (h : startExtendedJobs cfg d requiresCustomWork channel c t p = .ok (channel', ms)) :
    C.extended.Tells (Sends ms d .newExtendedMiningJob) c old channel' := by
  rw [startExtendedJobs] at h
  split at h
  case isTrue =>
    simp only [bind_eq_ok, attempt_eq_ok, pure_eq_ok, Prod.exists, Prod.mk.injEq] at h
    obtain ⟨_, _, hp, rfl, _⟩ := h
    obtain ⟨hc, hs⟩ := hC.extended.setNewPrevHashFuture _ _ _ _ hp
    refine .of_none (hc.trans hf.channelId) fun t => ?_
    rw [Option.eq_none_iff_forall_ne_some]
    intro job hj
    have := hs t job hj
    simp [hf.futureJob] at this
  case isFalse =>
    simp only [bind_eq_ok, attempt_eq_ok, pure_eq_ok, Prod.exists, Prod.mk.injEq] at h
    obtain ⟨_, _, hn, _, _, hj, _, _, hp, rfl, rfl⟩ := h
    exact hC.extended.tells_started old hf ht hn (futureJobOf_eq_ok hj) (by simp [Sends]) hp

theorem handleOpenExtendedMiningChannel_handled {msg : OpenExtendedMiningChannel}
    (h : s.handleOpenExtendedMiningChannel cfg d msg = .ok (s', messages)) :
    s.Handled d messages s' := by
  simp only [handleOpenExtendedMiningChannel, bind_eq_ok, orErr_eq_ok] at h
  obtain ⟨D, hD, h⟩ := h
  split at h
  case h_1 =>
    cases pure_eq_ok.mp h
    exact .same rfl rfl ⟨rfl, rfl, rfl, rfl⟩
  case h_2 =>
    simp only [openExtendedChannel] at h
    split at h
    case h_1 channel hn =>
      simp only [startExtendedChannel, bind_eq_ok, orErr_eq_ok, ofExcept_eq_ok, pure_eq_ok,
        Prod.mk.injEq, Prod.exists] at h
      obtain ⟨_, _, p, _, t, ht, channel', ms, hj, v, _, rfl, rfl⟩ := h
      refine .set hD rfl (fun k hk => mem_insert_vardiff hk) (fun c' hc hh => ?_)
        (fun hC hT => ?_) ⟨rfl, rfl, rfl, rfl⟩
      · simp only [AList.mem_insert, Prod.mk.injEq, true_and]
        simp only [Downstream.Has, AList.mem_insert] at hh hc
        tauto
      · have ht := startExtendedJobs_evolves hC (D.extendedChannels.lookup D.channelIdFactory)
          (hT t ht) (hC.newExtended _ _ _ _ _ hn) hj
        exact ⟨id, fun _ _ hg => hg ▸ .refl, fun _ => JobStore.tells_lookup, JobStore.tells_insert <|
          ht.mono fun _ => List.mem_cons_of_mem _⟩
    case h_2 =>
      split at h
      case h_1 =>
        cases pure_eq_ok.mp h
        exact .set hD rfl (fun _ _ => Iff.rfl) (fun c hc hh => hc hh)
          (fun _ _ => Downstream.Evolves.refl.setFactory _) ⟨rfl, rfl, rfl, rfl⟩
      case h_2 => cases h

-- One channel of a downstream is put back, with its jobs as they were.
theorem set_standard_handled {channel channel' : C.Standard} (hD : s.downstream.lookup d = some D)
    (hl : D.standardChannels.lookup c = some channel)
    (hd : s'.downstream = s.downstream.insert d { D with
      standardChannels := D.standardChannels.insert c channel' })
    (hv : ∀ k, k ∈ s'.vardiff ↔ k ∈ s.vardiff)
    (hk : C.Lawful → C.standard.Keeps channel channel') (hr : SameTemplates s s') :
    s.Handled d messages s' := by
  refine .set hD hd (fun k _ => hv k) (fun c' hc hh => (hv _).mpr <| hc ?_) (fun hC _ => ?_) hr
  · have hm : c ∈ D.standardChannels := Map.mem_iff_lookup.mpr ⟨_, hl⟩
    simp only [Downstream.Has, AList.mem_insert] at hh ⊢
    exact hh.imp_left fun h => h.elim (· ▸ hm) id
  · have ht : C.standard.Tells (Sends messages d .newMiningJob) c (D.standardChannels.lookup c)
        channel' := hl ▸ .of_keeps (hk hC)
    exact ⟨id, fun _ _ hg => hg ▸ .refl, fun _ => JobStore.tells_insert ht, JobStore.tells_lookup⟩

theorem set_extended_handled {channel channel' : C.Extended} (hD : s.downstream.lookup d = some D)
    (hl : D.extendedChannels.lookup c = some channel)
    (hd : s'.downstream = s.downstream.insert d { D with
      extendedChannels := D.extendedChannels.insert c channel' })
    (hv : ∀ k, k ∈ s'.vardiff ↔ k ∈ s.vardiff)
    (hk : C.Lawful → C.extended.getChannelId channel' = C.extended.getChannelId channel ∧
      C.extended.futureJob channel' = C.extended.futureJob channel) (hr : SameTemplates s s') :
    s.Handled d messages s' := by
  refine .set hD hd (fun k _ => hv k) (fun c' hc hh => (hv _).mpr <| hc ?_) (fun hC _ => ?_) hr
  · have hm : c ∈ D.extendedChannels := Map.mem_iff_lookup.mpr ⟨_, hl⟩
    simp only [Downstream.Has, AList.mem_insert] at hh ⊢
    exact hh.imp_right fun h => h.elim (· ▸ hm) id
  · have ⟨hc, hf⟩ := hk hC
    have ht : C.extended.Tells (Sends messages d .newExtendedMiningJob) c
        (D.extendedChannels.lookup c) channel' :=
      hl ▸ .of_shrinks hc fun t job hj => by rwa [hf] at hj
    exact ⟨id, fun _ _ hg => hg ▸ .refl, fun _ => JobStore.tells_lookup, JobStore.tells_insert ht⟩

section Shares

variable {κ μ ω ε : Type} {S : ShareChannels κ μ ω ε} {share : ShareFields} {msg : ω}
variable {errorCode : ShareValidationError → Option String} {channels : Map ChannelId κ}
variable {put : Map ChannelId κ → Downstream C}

theorem submitShares_cases
    (h : s.submitShares d S share errorCode channels put msg = .ok (s', messages)) :
    s' = s ∨ ∃ channel vardiff events, channels.lookup share.channelId = some channel ∧
      s.vardiff.lookup (d, share.channelId) = some vardiff ∧
      s' = { s.setDownstream d (put <| channels.insert share.channelId
          (S.validateShare channel msg).2) with
        vardiff   := s.vardiff.insert (d, share.channelId)
          (C.vardiff.incrementSharesSinceLastUpdate vardiff)
        persisted := s.persisted ++ events } := by
  rw [submitShares] at h
  split at h
  case h_1 =>
    cases pure_eq_ok.mp h
    exact .inl rfl
  case h_2 channel hl =>
    simp only [bind_eq_ok, orErr_eq_ok, pure_eq_ok, Prod.mk.injEq, Prod.exists] at h
    obtain ⟨vardiff, hv, events, ms, _, rfl, _⟩ := h
    exact .inr ⟨channel, vardiff, events, hl, hv, rfl⟩

theorem mem_insert_lookup {k k' : VardiffKey} {v v' : C.VardiffState}
    {m : Map VardiffKey C.VardiffState} (h : m.lookup k' = some v) :
    k ∈ m.insert k' v' ↔ k ∈ m := by
  have hm : k' ∈ m := Map.mem_iff_lookup.mpr ⟨v, h⟩
  rw [AList.mem_insert]
  exact or_iff_right_of_imp (· ▸ hm)

end Shares

theorem handleSubmitSharesStandard_handled {msg : SubmitSharesStandard}
    (h : s.handleSubmitSharesStandard d msg = .ok (s', messages)) : s.Handled d messages s' := by
  simp only [handleSubmitSharesStandard, bind_eq_ok, orErr_eq_ok] at h
  obtain ⟨D, hD, h⟩ := h
  cases submitShares_cases h
  case inl h => exact h ▸ .refl
  case inr h =>
    obtain ⟨channel, vardiff, events, hl, hv, rfl⟩ := h
    exact set_standard_handled hD hl rfl (fun _ => mem_insert_lookup hv)
      (fun hC => hC.standard.validateShare _ _) ⟨rfl, rfl, rfl, rfl⟩

theorem handleSubmitSharesExtended_handled {msg : SubmitSharesExtended}
    (h : s.handleSubmitSharesExtended d msg = .ok (s', messages)) : s.Handled d messages s' := by
  simp only [handleSubmitSharesExtended, bind_eq_ok, orErr_eq_ok] at h
  obtain ⟨_, _, D, hD, h⟩ := h
  cases submitShares_cases h
  case inl h => exact h ▸ .refl
  case inr h =>
    obtain ⟨channel, vardiff, events, hl, hv, rfl⟩ := h
    refine set_extended_handled hD hl rfl (fun _ => mem_insert_lookup hv) (fun hC => ?_)
      ⟨rfl, rfl, rfl, rfl⟩
    have hk := hC.extended.validateShare channel msg
    exact ⟨hk.channelId, hk.futureJob⟩

section UpdateChannel

variable {κ μ ω ε : Type} {S : ShareChannels κ μ ω ε} {errorCode : ε → Option String}
variable {err : ε → PoolError} {channel channel' : κ} {msg : UpdateChannel}

theorem updateChannel_channel
    (h : updateChannel d S errorCode err channel msg = .ok (channel', messages)) :
    channel' = (S.updateChannel channel msg.nominalHashRate (some msg.maximumTarget)).2 := by
  simp only [updateChannel] at h
  split at h
  case h_1 =>
    cases pure_eq_ok.mp h
    rfl
  case h_2 =>
    split at h
    case h_1 =>
      cases pure_eq_ok.mp h
      rfl
    case h_2 => cases h

end UpdateChannel

theorem handleUpdateChannel_handled {msg : UpdateChannel}
    (h : s.handleUpdateChannel d msg = .ok (s', messages)) : s.Handled d messages s' := by
  simp only [handleUpdateChannel, bind_eq_ok, orErr_eq_ok] at h
  obtain ⟨D, hD, h⟩ := h
  split at h
  case h_1 channel hl =>
    simp only [bind_eq_ok, pure_eq_ok, Prod.mk.injEq, Prod.exists] at h
    obtain ⟨channel', ms, hu, rfl, _⟩ := h
    refine set_standard_handled hD hl rfl (fun _ => Iff.rfl) (fun hC => ?_) ⟨rfl, rfl, rfl, rfl⟩
    exact updateChannel_channel hu ▸ hC.standard.updateChannel _ _ _
  case h_2 channel _ hl =>
    simp only [bind_eq_ok, pure_eq_ok, Prod.mk.injEq, Prod.exists] at h
    obtain ⟨channel', ms, hu, rfl, _⟩ := h
    refine set_extended_handled hD hl rfl (fun _ => Iff.rfl) (fun hC => ?_) ⟨rfl, rfl, rfl, rfl⟩
    have hk := hC.extended.updateChannel channel msg.nominalHashRate (some msg.maximumTarget)
    exact updateChannel_channel hu ▸ ⟨hk.channelId, hk.futureJob⟩
  case h_3 =>
    cases pure_eq_ok.mp h
    exact .refl

theorem handleSetCustomMiningJob_handled {msg : SetCustomMiningJob}
    (h : s.handleSetCustomMiningJob cfg d msg = .ok (s', messages)) : s.Handled d messages s' := by
  simp only [handleSetCustomMiningJob, bind_eq_ok] at h
  obtain ⟨outputs, _, h⟩ := h
  split at h
  case isTrue =>
    cases pure_eq_ok.mp h
    exact .refl
  case isFalse =>
    simp only [bind_eq_ok, orErr_eq_ok] at h
    obtain ⟨D, hD, h⟩ := h
    split at h
    case h_1 =>
      cases pure_eq_ok.mp h
      exact .refl
    case h_2 channel hl =>
      simp only [bind_eq_ok, attempt_eq_ok, pure_eq_ok, Prod.mk.injEq, Prod.exists] at h
      obtain ⟨_, channel', hc, rfl, _⟩ := h
      exact set_extended_handled hD hl rfl (fun _ => Iff.rfl)
        (fun hC => hC.onSetCustomMiningJob channel msg channel' (by rw [hc])) ⟨rfl, rfl, rfl, rfl⟩

theorem handleMiningMessageFromClient_handled {m : Mining}
    (h : s.handleMiningMessageFromClient cfg d m = .ok (s', messages)) :
    s.Handled d messages s' := by
  cases m <;> try cases h
  case openStandardMiningChannel => exact handleOpenStandardMiningChannel_handled h
  case openExtendedMiningChannel => exact handleOpenExtendedMiningChannel_handled h
  case updateChannel             => exact handleUpdateChannel_handled h
  case closeChannel              => exact handleCloseChannel_handled h
  case submitSharesStandard      => exact handleSubmitSharesStandard_handled h
  case submitSharesExtended      => exact handleSubmitSharesExtended_handled h
  case setCustomMiningJob        => exact handleSetCustomMiningJob_handled h

end ChannelManager

end Pool
