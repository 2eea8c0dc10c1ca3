import StratumApps.Translator.Reference

open Sv2 Handler StratumCore

namespace Translator

variable {C : TranslatorCore} {cfg : Config}

section Channels

variable {κ : Type} {K : ClientChannels κ} {u u' c c' : κ}

-- The channel of a miner works on what the upstream channel works on. Its jobs are told apart by the
-- id of the channel and by the extranonce prefix only.
structure ClientChannels.Mirrors (K : ClientChannels κ) (u c : κ) : Prop where
  activeJob  : (K.getActiveJob c).map plain = (K.getActiveJob u).map plain
  futureJobs : ∀ j, ((K.getFutureJobs c).lookup j).map plain = ((K.getFutureJobs u).lookup j).map plain
  chainTip   : K.getChainTip c = K.getChainTip u

-- An active job is no future job, and a channel has no tip without one.
structure ClientChannels.Timely (K : ClientChannels κ) (u : κ) : Prop where
  minNtime : ∀ job, K.getActiveJob u = some job → job.1.minNtime ≠ none
  chainTip : (K.getChainTip u).isSome → (K.getActiveJob u).isSome

theorem mirrors_keeps (h : K.Mirrors u c) (hu : K.Keeps u u') (hc : K.Keeps c c') :
    K.Mirrors u' c' where
  activeJob    := by rw [hu.activeJob, hc.activeJob, h.activeJob]
  futureJobs j := by rw [hu.futureJobs, hc.futureJobs, h.futureJobs]
  chainTip     := by rw [hu.chainTip, hc.chainTip, h.chainTip]

theorem timely_keeps (h : K.Timely u) (hu : K.Keeps u u') : K.Timely u' where
  minNtime job hj := h.minNtime job (hu.activeJob ▸ hj)
  chainTip ht     := by
    rw [hu.activeJob]
    exact h.chainTip (hu.chainTip ▸ ht)

theorem mirrors_idle (hu : K.Idle u) (hc : K.Idle c) : K.Mirrors u c where
  activeJob    := by rw [hu.activeJob, hc.activeJob]
  futureJobs j := by rw [hu.futureJobs, hc.futureJobs]
  chainTip     := by rw [hu.chainTip, hc.chainTip]

theorem timely_idle (hu : K.Idle u) : K.Timely u where
  minNtime job hj := by simp [hu.activeJob] at hj
  chainTip ht     := by simp [hu.chainTip] at ht

section Lawful

variable (hK : K.Lawful) {m m' : NewExtendedMiningJob} {p : SetNewPrevHashMp}
include hK

-- Both channels take the same job, under whatever channel id.
theorem mirrors_job (h : K.Mirrors u c) (hm : { m' with channelId := 0 } = { m with channelId := 0 }) :
    K.Mirrors (K.onNewExtendedMiningJob u m).2 (K.onNewExtendedMiningJob c m').2 := by
  have hj : m'.jobId = m.jobId := by injection hm
  have hn : m'.minNtime = m.minNtime := by injection hm
  have hp (q q' : Bytes) : plain (m', q') = plain (m, q) := hm
  by_cases hf : m.minNtime = none
  case pos =>
    obtain ⟨ha, hfu, ht⟩ := hK.futureJob u m _ hf rfl
    obtain ⟨ha', hfu', ht'⟩ := hK.futureJob c m' _ (hn.trans hf) rfl
    refine ⟨by rw [ha, ha', h.activeJob], fun j => ?_, by rw [ht, ht', h.chainTip]⟩
    rw [hfu, hfu', hj, Map.lookup_insert_ite, Map.lookup_insert_ite]
    split
    case isTrue  => exact congrArg some (hp _ _)
    case isFalse => exact h.futureJobs j
  case neg =>
    obtain ⟨ha, hfu, ht⟩ := hK.job u m _ hf rfl
    obtain ⟨ha', hfu', ht'⟩ := hK.job c m' _ (hn ▸ hf) rfl
    refine ⟨?_, fun j => by rw [hfu, hfu', h.futureJobs], by rw [ht, ht', h.chainTip]⟩
    rw [ha, ha']
    exact congrArg some (hp _ _)

theorem timely_job (h : K.Timely u) : K.Timely (K.onNewExtendedMiningJob u m).2 := by
  by_cases hf : m.minNtime = none
  case pos =>
    obtain ⟨ha, _, ht⟩ := hK.futureJob u m _ hf rfl
    exact ⟨fun job hj => h.minNtime job (ha ▸ hj), by rw [ha, ht]; exact h.chainTip⟩
  case neg =>
    obtain ⟨ha, _, _⟩ := hK.job u m _ hf rfl
    refine ⟨fun job hj => ?_, fun _ => by rw [ha]; rfl⟩
    rw [ha] at hj
    cases hj
    exact hf

-- The prev hash names a future job of both channels or of none.
theorem mirrors_prevHash (h : K.Mirrors u c) :
    K.Mirrors (K.onSetNewPrevHash u p).2 (K.onSetNewPrevHash c p).2 := by
  have hj := h.futureJobs p.jobId
  cases hu : (K.getFutureJobs u).lookup p.jobId with
  | none =>
    rw [hu, Option.map_none, Option.map_eq_none_iff] at hj
    exact mirrors_keeps h (hK.prevHashAbsent u p hu) (hK.prevHashAbsent c p hj)
  | some job =>
    rw [hu, Option.map_some, Option.map_eq_some_iff] at hj
    obtain ⟨job', hc, he⟩ := hj
    obtain ⟨ha, hf, ht⟩ := hK.prevHash u p job _ hu rfl
    obtain ⟨ha', hf', ht'⟩ := hK.prevHash c p job' _ hc rfl
    refine ⟨?_, fun j => by rw [hf, hf'], by rw [ht, ht']⟩
    rw [ha, ha']
    injection he
    simp_all [plain]

theorem timely_prevHash (h : K.Timely u) : K.Timely (K.onSetNewPrevHash u p).2 := by
  cases hu : (K.getFutureJobs u).lookup p.jobId with
  | none => exact timely_keeps h (hK.prevHashAbsent u p hu)
  | some job =>
    obtain ⟨ha, _, _⟩ := hK.prevHash u p job _ hu rfl
    refine ⟨fun job hj => ?_, fun _ => by rw [ha]; rfl⟩
    rw [ha] at hj
    cases hj
    exact Option.some_ne_none _

end Lawful

end Channels

namespace ChannelManager

variable {s s' : ChannelManager C} {messages : List RouteMessageTo} {u c : C.Channel}

-- A new channel takes over the work of an upstream channel without future jobs.
theorem mirrors_copyJob (hC : C.channel.Lawful) {channelId : ChannelId} (hu : C.channel.Timely u)
    (hf : (C.channel.getFutureJobs u).keys = []) (hc : C.channel.Idle c) :
    C.channel.Mirrors u (copyJob u c channelId).1 := by
  have hl (j : JobId) : (C.channel.getFutureJobs u).lookup j = none :=
    AList.lookup_eq_none.mpr fun hj => by simpa [hf] using AList.mem_keys.mp hj
  rw [copyJob.eq_def]
  split
  case h_1 ha =>
    have ht : C.channel.getChainTip u = none := by
      by_contra ht
      simpa [ha] using hu.chainTip (Option.isSome_iff_ne_none.mpr ht)
    refine ⟨by rw [ha, hc.activeJob], fun j => ?_, by rw [ht, hc.chainTip]⟩
    rw [hl, hc.futureJobs]
    rfl
  case h_2 job ha =>
    dsimp only
    generalize hc' : (C.channel.getChainTip u).elim c (C.channel.setChainTip c) = c'
    have h' : C.channel.getFutureJobs c' = ∅ ∧
        C.channel.getChainTip c' = C.channel.getChainTip u := by
      cases ht : C.channel.getChainTip u with
      | none =>
        rw [ht] at hc'
        subst hc'
        exact ⟨hc.futureJobs, hc.chainTip⟩
      | some tip =>
        rw [ht] at hc'
        obtain ⟨_, hf', ht'⟩ := hC.setChainTip c tip c' hc'.symm
        exact ⟨hf'.trans hc.futureJobs, ht'⟩
    obtain ⟨ha', hf', ht'⟩ := hC.job c' { job.1 with channelId := channelId } _
      (hu.minNtime job ha) rfl
    refine ⟨by rw [ha', ha]; rfl, fun j => ?_, by rw [ht', h'.right]⟩
    rw [hf', h'.left, hl]
    rfl

-- All channels of the miners work on what the upstream channel works on.
structure Mirrored (s : ChannelManager C) : Prop where
  timely  : ∀ u, s.upstreamExtendedChannel = some u → C.channel.Timely u
  mirrors : ∀ u, s.upstreamExtendedChannel = some u → ∀ k c,
    s.extendedChannels.lookup k = some c → C.channel.Mirrors u c

theorem mirrored_insert {k : ChannelId} (hs : s.Mirrored)
    (hu : s'.upstreamExtendedChannel = s.upstreamExtendedChannel)
    (hc : s'.extendedChannels = s.extendedChannels.insert k c)
    (h : ∀ u, s.upstreamExtendedChannel = some u → C.channel.Mirrors u c) : s'.Mirrored where
  timely u hu'      := hs.timely u (hu ▸ hu')
  mirrors u hu' k c := by
    rw [hu] at hu'
    rw [hc, Map.lookup_insert_ite]
    split
    case isTrue  => exact fun hc => Option.some.inj hc ▸ h u hu'
    case isFalse => exact hs.mirrors u hu' k c

theorem mirrored_of_eq (hs : s.Mirrored)
    (hu : s'.upstreamExtendedChannel = s.upstreamExtendedChannel)
    (hc : s'.extendedChannels = s.extendedChannels) : s'.Mirrored where
  timely u hu'  := hs.timely u (hu ▸ hu')
  mirrors u hu' := hc ▸ hs.mirrors u (hu ▸ hu')

theorem mirrored_updateChannels {channelId : ChannelId} {f g : C.Channel → C.Channel}
    (hm : s.mode = .aggregated) (hs : s.Mirrored)
    (hf : ∀ u, s.upstreamExtendedChannel = some u → C.channel.Timely u → C.channel.Timely (f u))
    (hg : ∀ u c, s.upstreamExtendedChannel = some u → C.channel.Mirrors u c →
      C.channel.Mirrors (f u) (g c)) :
    (s.updateChannels channelId f g).Mirrored := by
  rw [updateChannels, if_pos hm]
  constructor
  case timely =>
    intro u' hu'
    obtain ⟨u, hu, rfl⟩ := Option.map_eq_some_iff.mp hu'
    exact hf u hu (hs.timely u hu)
  case mirrors =>
    intro u' hu' k c' hc'
    obtain ⟨u, hu, rfl⟩ := Option.map_eq_some_iff.mp hu'
    rw [Map.lookup_mapValues] at hc'
    obtain ⟨c, hc, rfl⟩ := Option.map_eq_some_iff.mp hc'
    exact hg u c hu (hs.mirrors u hu k c hc)

def idle (c : C.Channel) : Bool :=
  (C.channel.getActiveJob c).isNone && (C.channel.getFutureJobs c).keys.isEmpty &&
    (C.channel.getChainTip c).isNone

theorem mirrored_judged {m : SubmitSharesExtended} (hC : C.channel.Lawful) (hs : s.Mirrored)
    (hc : s.extendedChannels.lookup m.channelId = some c) : (s.judged m c).Mirrored := by
  refine mirrored_insert hs rfl rfl fun u hu => ?_
  exact mirrors_keeps (hs.mirrors u hu _ _ hc) ⟨rfl, rfl, rfl⟩ (hC.validateShare c m).right

theorem idle_of_idle (h : idle c) (j : JobId) : (C.channel.getActiveJob c) = none ∧
    (C.channel.getFutureJobs c).lookup j = none ∧ C.channel.getChainTip c = none := by
  simp only [idle, Bool.and_eq_true, Option.isNone_iff_eq_none, List.isEmpty_iff] at h
  obtain ⟨⟨ha, hf⟩, ht⟩ := h
  exact ⟨ha, AList.lookup_eq_none.mpr fun hj => by simpa [hf] using AList.mem_keys.mp hj, ht⟩

theorem aggregatedJob_eq {m : NewExtendedMiningJob} :
    { s.aggregatedJob m with channelId := 0 } = { m with channelId := 0 } := by
  rw [aggregatedJob]
  split <;> rfl

end ChannelManager

namespace System

open ChannelManager

variable {s s' : System C} {a : Action} {tr : List (Machine.Event (System C) Action)}

-- Every channel of a miner has the active job, the future jobs and the tip of the upstream channel.
def Mirrors (s : System C) : Prop :=
  ∀ u, s.manager.upstreamExtendedChannel = some u → ∀ k c,
    s.manager.extendedChannels.lookup k = some c → C.channel.Mirrors u c

-- A channel is opened at once only while the upstream channel has no future job, and the upstream
-- gives a channel only while no other channel of a miner has work.
def Copies (s : System C) : Action → Prop
  | .downstream (.openExtendedMiningChannel m) => ∀ u ∈ s.manager.upstreamExtendedChannel,
    (s.manager.prefixFor m).isSome → (C.channel.getFutureJobs u).keys = []
  | .upstream (.openExtendedMiningChannelSuccess m) =>
    (s.manager.pendingChannels.lookup m.requestId.toNat).isSome →
      s.manager.extendedChannels.entries.all fun e => e.1 = m.channelId || idle e.2
  | _ => True

instance : DecidablePred s.Copies := by
  intro a
  induction a using Action.casesOn with
  | downstream m =>
    induction m using Mining.casesOn with
    | openExtendedMiningChannel m => exact inferInstanceAs <| Decidable <|
      ∀ u ∈ s.manager.upstreamExtendedChannel,
        (s.manager.prefixFor m).isSome → (C.channel.getFutureJobs u).keys = []
    | _ => exact inferInstanceAs (Decidable True)
  | upstream m =>
    induction m using Mining.casesOn with
    | openExtendedMiningChannelSuccess m => exact inferInstanceAs <| Decidable <|
      (s.manager.pendingChannels.lookup m.requestId.toNat).isSome →
        s.manager.extendedChannels.entries.all fun e => e.1 = m.channelId || idle e.2
    | _ => exact inferInstanceAs (Decidable True)
  | _ => exact inferInstanceAs (Decidable True)

section Step

variable (hC : C.channel.Lawful) {manager : ChannelManager C} {messages : List RouteMessageTo}
include hC

theorem mirrored_downstream {m : Mining} (hs : s.manager.Mirrored)
    (hc : s.Copies (.downstream m)) (h : s.manager.Handles m manager messages) :
    manager.Mirrored := by
  cases h with
  | @derived m upstream factory factory' p hm hu hf hn hl =>
    refine mirrored_insert hs rfl rfl fun u hu' => ?_
    cases hu.symm.trans hu'
    have hp : (s.manager.prefixFor m).isSome := by
      simp [prefixFor, hf, hn, hl, Except.toOption]
    exact mirrors_copyJob hC (hs.timely _ hu) (hc _ hu hp) (hC.newIdle _ _ _ _ _ _ _)
  | invalid hk => exact mirrored_judged hC hs hk
  | aggregated hk _ _ _ _ h | nonAggregated hk _ _ h =>
    obtain ⟨_, _, rfl, _⟩ := h
    exact mirrored_of_eq (mirrored_judged hC hs hk) rfl rfl
  | _ => exact mirrored_of_eq hs rfl rfl

theorem mirrored_upstream {m : Mining} (hm : s.manager.mode = .aggregated)
    (hs : s.manager.Mirrored) (hc : s.Copies (.upstream m))
    (h : s.manager.Follows m manager messages) : manager.Mirrored := by
  cases h with
  | adjusted _ hm'   => exact absurd hm hm'
  | unadjusted _ hm' => exact absurd hm hm'
  | erased hm'       => exact absurd hm hm'
  | ignored          => exact hs
  | closed           => exact ⟨fun _ hu => (nomatch hu), fun _ hu => (nomatch hu)⟩
  | target =>
    refine mirrored_updateChannels hm hs ?_ ?_
    · exact fun u _ h => timely_keeps h (hC.setTarget u _).right
    · exact fun u c _ h => mirrors_keeps h (hC.setTarget u _).right (hC.setTarget c _).right
  | prevHash =>
    refine mirrored_updateChannels hm hs ?_ ?_
    · exact fun u _ h => timely_prevHash hC h
    · exact fun u c _ h => mirrors_prevHash hC h
  | job =>
    refine mirrored_updateChannels hm hs ?_ ?_
    · exact fun u _ h => timely_job hC h
    · exact fun u c _ h => mirrors_job hC h aggregatedJob_eq
  | @aggregated m pending _ _ p size hp =>
    have hi := hc (by simp [hp])
    have hn : C.channel.Idle (clientChannel m pending m.extranoncePrefix m.extranonceSize) :=
      hC.newIdle _ _ _ _ _ _ _
    constructor
    case timely =>
      intro u hu
      cases hu
      exact timely_idle hn
    case mirrors =>
      intro u hu k c
      cases hu
      rw [Map.lookup_insert_ite]
      split
      case isTrue =>
        intro hc
        cases hc
        exact mirrors_idle hn (hC.newIdle _ _ _ _ _ _ _)
      case isFalse hk =>
        intro hc
        have he := List.all_eq_true.mp hi ⟨k, c⟩ (AList.mem_lookup_iff.mp hc)
        simp only [hk, decide_false, Bool.false_or] at he
        refine ⟨?_, fun j => ?_, ?_⟩
        · rw [(idle_of_idle he 0).left, hn.activeJob]
        · rw [(idle_of_idle he j).right.left, hn.futureJobs]
          rfl
        · rw [(idle_of_idle he 0).right.right, hn.chainTip]

theorem mirrored_step (hs : s.manager.mode = .aggregated ∧ s.manager.Mirrored) (hc : s.Copies a)
    (h : s.step cfg a = some s') : s'.manager.mode = .aggregated ∧ s'.manager.Mirrored := by
  refine ⟨(mode_step h).trans hs.left, ?_⟩
  cases (moves_of_step h).right with
  | downstream hm => exact mirrored_downstream hC hs.right hc hm
  | upstream hm   => exact mirrored_upstream hC hs.left hs.right hc hm
  | fallback      => exact ⟨fun _ hu => (nomatch hu), fun _ hu => (nomatch hu)⟩
  | _             => exact mirrored_of_eq hs.right rfl rfl

end Step

-- Along such a run the channels of the miners mirror the upstream channel in every state.
theorem mirrors_of_run (hC : C.Lawful) (r : (machine C cfg .aggregated).Run tr s)
    (hc : Machine.Along Copies tr) : s.Mirrors ∧ ∀ e ∈ tr, e.post.Mirrors := by
  have h₀ (s : System C) (h : (machine C cfg .aggregated).Init s) :
      s.manager.mode = .aggregated ∧ s.manager.Mirrored := by
    rw [h.manager]
    exact ⟨rfl, fun _ hu => (nomatch hu), fun _ hu => (nomatch hu)⟩
  have hs (s : System C) (a : Action) (s' : System C)
      (hi : s.manager.mode = .aggregated ∧ s.manager.Mirrored) (ha : s.Copies a)
      (h : (machine C cfg .aggregated).step s a = some s') :
      s'.manager.mode = .aggregated ∧ s'.manager.Mirrored := mirrored_step hC.channel hi ha h
  exact ⟨(r.invariant h₀ hs hc).right.mirrors,
    fun e he => (r.invariant_of_mem h₀ hs hc he).right.right.mirrors⟩

end System

section Sample

open Sample

-- The second miner comes while the upstream channel has a future job.
def late : List Action :=
  [openChannel 1, opened 1 1 8 [7], job 5, openChannel 2, prevHash 5]

theorem late_exec : ((machine reference config .aggregated).exec (.start .aggregated) late).any
    fun s => s.manager.upstreamExtendedChannel.any fun u =>
      (s.manager.extendedChannels.lookup 2).any fun c =>
        (u.activeJob.isSome ∧ c.activeJob = none : Bool) := by
  decide +kernel

theorem not_mirrors : ¬∀ tr s, (machine reference config .aggregated).Run tr s → s.Mirrors := by
  intro h
  obtain ⟨s, hs, he⟩ := Option.any_eq_true _ _ |>.mp late_exec
  obtain ⟨u, hu, he⟩ := Option.any_eq_true _ _ |>.mp he
  obtain ⟨c, hc, he⟩ := Option.any_eq_true _ _ |>.mp he
  have hm := (h _ _ (Machine.Run.of_exec System.start_init hs) u hu 2 c hc).activeJob
  obtain ⟨ha, ha'⟩ := of_decide_eq_true he
  have hm : (c.activeJob.map plain) = u.activeJob.map plain := hm
  rw [ha', Option.map_none] at hm
  simp [Option.map_eq_none_iff.mp hm.symm] at ha

-- The second miner comes before the future job.
def early : List Action :=
  [openChannel 1, opened 1 1 8 [7], openChannel 2, job 5, prevHash 5]

theorem early_exec : ((machine reference config .aggregated).exec (.start .aggregated) early).any
    fun s => s.manager.upstreamExtendedChannel.any fun u =>
      (s.manager.extendedChannels.lookup 2).any fun _ => u.activeJob.isSome := by
  decide +kernel

theorem early_copies : ((machine reference config .aggregated).trace (.start .aggregated) early).all
    fun e => e.pre.Copies e.act := by
  decide +kernel

theorem mirrors_of_run_sample : ∃ tr s, (machine reference config .aggregated).Run tr s ∧
    (s.manager.extendedChannels.lookup 2).isSome ∧ s.Mirrors ∧ ∀ e ∈ tr, e.post.Mirrors := by
  obtain ⟨s, hs, he⟩ := Option.any_eq_true _ _ |>.mp early_exec
  obtain ⟨u, hu, he⟩ := Option.any_eq_true _ _ |>.mp he
  obtain ⟨c, hc, he⟩ := Option.any_eq_true _ _ |>.mp he
  have r := Machine.Run.of_exec System.start_init hs
  refine ⟨_, s, r, by simp [hc], System.mirrors_of_run reference_lawful r fun e he => ?_⟩
  exact of_decide_eq_true (List.all_eq_true.mp early_copies e he)

end Sample

end Translator
