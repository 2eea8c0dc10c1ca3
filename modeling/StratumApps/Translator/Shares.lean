import StratumApps.Translator.Aggregation

open Sv2 Handler StratumCore

namespace Translator

variable {C : TranslatorCore} {cfg : Config} {mode : ChannelMode}

def RouteMessageTo.share : RouteMessageTo → Option SubmitSharesExtended
  | upstream (.submitSharesExtended m) => some m
  | _                                  => none

namespace ChannelManager

variable {s s' : ChannelManager C} {messages : List RouteMessageTo} {c u : C.Channel}

-- The bytes of the translator and of the miner, behind the prefix of the upstream, are those that
-- the channel of the miner has judged.
theorem adjustExtranonce_eq {m : SubmitSharesExtended} {p : Bytes} {n : ℕ}
    (hp : p <+: C.channel.getExtranoncePrefix c) (hn : n = p.length)
    (hl : (C.channel.getExtranoncePrefix c).length + m.extranonce.1.length ≤ p.length + 32) :
    ∃ e, adjustExtranonce m (some c) n = .ok e ∧
      p ++ e.1 = C.channel.getExtranoncePrefix c ++ m.extranonce.1 := by
  obtain ⟨t, ht⟩ := hp
  have hd : (C.channel.getExtranoncePrefix c).drop n = t := by rw [← ht, hn, List.drop_left]
  have hle : n ≤ (C.channel.getExtranoncePrefix c).length := by
    rw [← ht, hn, List.length_append]
    exact Nat.le_add_right _ _
  have h32 : (t ++ m.extranonce.1).length ≤ 32 := by
    rw [← ht, List.length_append] at hl
    rw [List.length_append]
    omega
  refine ⟨⟨_, h32⟩, ?_, by rw [← ht, List.append_assoc]⟩
  rw [adjustExtranonce]
  simp only [if_pos hle, hd, bind_eq_ok, expect_eq_ok, Option.some.injEq, exists_eq_left', orErr_eq_ok,
    Bytes.tryInto, dif_pos h32]

-- A step that sends no share.
def Silent (s s' : ChannelManager C) (messages : List RouteMessageTo) : Prop :=
  s'.shareSequenceCounters = s.shareSequenceCounters ∧ ∀ o ∈ messages, o.share = none

theorem silent_copyJob {channelId : ChannelId} : ∀ o ∈ (copyJob u c channelId).2, o.share = none := by
  rw [copyJob.eq_def]
  split <;> simp [RouteMessageTo.share]

-- What the SV1 server sends makes the manager send at most the one share that it has taken.
theorem silent_or_forwards {m : Mining} (h : s.Handles m s' messages) :
    s.Silent s' messages ∨ ∃ m' c channelId e, m = .submitSharesExtended m' ∧
      (s.judged m' c).Forwards m' channelId e s' messages := by
  cases h with
  | derived    =>
    refine .inl ⟨rfl, fun o ho => ?_⟩
    rcases List.mem_cons.mp ho with rfl | ho
    · rfl
    · exact silent_copyJob o ho
  | unanswered => exact .inl ⟨rfl, by simp⟩
  | requested  => exact .inl ⟨rfl, by simp [requestUpstreamChannel, RouteMessageTo.share]⟩
  | unknown    => exact .inl ⟨rfl, by simp⟩
  | invalid    => exact .inl ⟨rfl, by simp⟩
  | updated    => exact .inl ⟨rfl, by simp [RouteMessageTo.share]⟩
  | closed     => exact .inl ⟨rfl, by simp [RouteMessageTo.share]⟩
  | dropped    => exact .inl ⟨rfl, by simp⟩
  | aggregated _ _ _ _ _ hf | nonAggregated _ _ _ hf => exact .inr ⟨_, _, _, _, rfl, hf⟩

theorem silent_updateChannels {channelId : ChannelId} {f g : C.Channel → C.Channel}
    (h : ∀ o ∈ messages, o.share = none) : s.Silent (s.updateChannels channelId f g) messages := by
  rw [updateChannels]
  split <;> exact ⟨rfl, h⟩

theorem silent_upstream {m : Mining} (h : s.Follows m s' messages) : s.Silent s' messages := by
  cases h with
  | aggregated | adjusted | unadjusted =>
    exact ⟨rfl, by simp [openSuccess, RouteMessageTo.share]⟩
  | closed | erased => exact ⟨rfl, by simp⟩
  | target          => exact silent_updateChannels (by simp [RouteMessageTo.share])
  | prevHash        => exact silent_updateChannels (by simp [RouteMessageTo.share])
  | job             =>
    refine silent_updateChannels ?_
    split <;> simp [RouteMessageTo.share]
  | ignored _ he =>
    refine ⟨rfl, fun o ho => ?_⟩
    obtain ⟨e, rfl⟩ := he o ho
    rfl

end ChannelManager

namespace System

open ChannelManager

variable {s s' : System C} {a : Action} {tr : List (Machine.Event (System C) Action)}

-- The shares that have gone to the upstream, in their order.
def shares (s : System C) : List SubmitSharesExtended :=
  s.sent.filterMap RouteMessageTo.share

def sequence (s : System C) (channelId : ChannelId) : List UInt32 :=
  (s.shares.filter (·.channelId = channelId)).map (·.sequenceNumber)

-- The shares of each channel of the upstream are numbered from 1. The numbers wrap around.
def Consecutive (s : System C) : Prop :=
  ∀ k, s.sequence k = (List.range (s.sequence k).length).map fun i => UInt32.ofNat (i + 1)

-- The channel of the miner, if it accepts the share.
def accepted (s : System C) (m : SubmitSharesExtended) : Option C.Channel :=
  (s.manager.extendedChannels.lookup m.channelId).filter fun c =>
    (C.channel.validateShare c m).1.isOk

-- The channel of the upstream for which the miner works.
def upstreamOf (s : System C) (m : SubmitSharesExtended) : Option ChannelId :=
  if s.manager.mode = .aggregated then
    s.manager.upstreamExtendedChannel.map C.channel.getChannelId
  else
    some m.channelId

-- The share on its way to the upstream: behind the prefix that the upstream has for its channel, it
-- makes the extranonce that the channel of the miner has judged.
structure Carries (s : System C) (m : SubmitSharesExtended) (c : C.Channel)
    (m' : SubmitSharesExtended) : Prop where
  channelId  : s.upstreamOf m = some m'.channelId
  work       : m' = { m with
    channelId      := m'.channelId
    sequenceNumber := m'.sequenceNumber
    extranonce     := m'.extranonce }
  extranonce : ∃ p, s.granted.lookup m'.channelId = some p ∧
    p.1 ++ m'.extranonce.1 = C.channel.getExtranoncePrefix c ++ m.extranonce.1

-- A share that its channel accepts is sent at once and once, and no other is.
def Forwarded (e : Machine.Event (System C) Action) : Prop :=
  match e.act with
  | .downstream (.submitSharesExtended m) =>
    match e.pre.accepted m with
    | none   => e.post.shares = e.pre.shares
    | some c => ∃ m', e.post.shares = e.pre.shares ++ [m'] ∧ e.pre.Carries m c m'
  | .fallback => e.post.shares = []
  | _         => e.post.shares = e.pre.shares

section Sequence

-- The counter of a channel goes on from the shares that it has had.
structure Counts (s : System C) : Prop where
  counter     : ∀ k, (s.manager.shareSequenceCounters.lookup k).getD 1 =
    UInt32.ofNat ((s.sequence k).length + 1)
  consecutive : s.Consecutive

theorem sequence_append {k : ChannelId} {messages : List RouteMessageTo}
    (hs : s'.sent = s.sent ++ messages) : s'.sequence k = s.sequence k ++
      ((messages.filterMap RouteMessageTo.share).filter (·.channelId = k)).map (·.sequenceNumber) := by
  simp [sequence, shares, hs]

theorem counts_silent {messages : List RouteMessageTo} (h : s.Counts)
    (hm : s.manager.Silent s'.manager messages) (hs : s'.sent = s.sent ++ messages) : s'.Counts := by
  have hk (k : ChannelId) : s'.sequence k = s.sequence k := by
    rw [sequence_append hs, List.filterMap_eq_nil_iff.mpr hm.right]
    simp
  constructor
  case counter =>
    intro k
    rw [hm.left, hk, h.counter]
  case consecutive =>
    intro k
    rw [hk]
    exact h.consecutive k

theorem counts_forwards {manager : ChannelManager C} {messages : List RouteMessageTo}
    {m : SubmitSharesExtended} {channelId : ChannelId} {e : Except (Fault TproxyError) B032}
    (h : s.Counts) (hf : manager.Forwards m channelId e s'.manager messages)
    (hc : manager.shareSequenceCounters = s.manager.shareSequenceCounters)
    (hs : s'.sent = s.sent ++ messages) : s'.Counts := by
  obtain ⟨x, _, hm, rfl⟩ := hf
  have hn : (manager.nextShareSequenceNumber channelId).1 =
      UInt32.ofNat ((s.sequence channelId).length + 1) := by
    rw [nextShareSequenceNumber, hc, h.counter]
  have hk (k : ChannelId) : s'.sequence k = if channelId = k then
      s.sequence k ++ [UInt32.ofNat ((s.sequence channelId).length + 1)] else s.sequence k := by
    rw [sequence_append hs, ← hn]
    simp only [List.filterMap_cons, RouteMessageTo.share, List.filterMap_nil, List.filter_singleton]
    split
    case isTrue hk  => simp [hk]
    case isFalse hk => simp [hk]
  constructor
  case counter =>
    intro k
    rw [hm, nextShareSequenceNumber, Map.lookup_insert_ite, hc, hk]
    split
    case isTrue hkc =>
      rw [if_pos hkc.symm, hkc, Option.getD_some, h.counter, List.length_append]
      exact (UInt32.ofNat_add _ 1).symm
    case isFalse hkc => rw [if_neg (Ne.symm hkc), h.counter]
  case consecutive =>
    intro k
    rw [hk]
    split
    case isTrue hkc =>
      subst hkc
      rw [List.length_append, List.length_singleton, List.range_succ, List.map_append,
        ← h.consecutive]
      rfl
    case isFalse => exact h.consecutive k

theorem counts_step (h : s.Counts) (hst : s.step cfg a = some s') : s'.Counts := by
  cases (moves_of_step hst).right with
  | upstream hm     => exact counts_silent h (silent_upstream hm) rfl
  | downstreamFails => exact ⟨h.counter, h.consecutive⟩
  | upstreamFails   => exact ⟨h.counter, h.consecutive⟩
  | extensionsFails => exact ⟨h.counter, h.consecutive⟩
  | fallback        => exact ⟨fun _ => rfl, fun _ => rfl⟩
  | extensions hm   =>
    refine counts_silent h ⟨rfl, fun o ho => ?_⟩ rfl
    obtain ⟨m', rfl⟩ := hm o ho
    rfl
  | downstream hm =>
    cases silent_or_forwards hm with
    | inl hq => exact counts_silent h hq rfl
    | inr hf =>
      obtain ⟨m, c, k, e, _, hf⟩ := hf
      exact counts_forwards h hf rfl rfl

end Sequence

-- The channel of a miner goes on from the prefix of its own channel of the upstream. It has bytes of
-- the translator in it exactly when there is a factory for it.
def Splits (s : System C) (p : Bytes) (channelId : ChannelId) (c : C.Channel) : Prop :=
  match s.manager.extranonceFactories.bind (·.lookup channelId) with
  | none   => C.channel.getExtranoncePrefix c = p
  | some x => p <+: C.channel.getExtranoncePrefix c ∧ C.extranonce.getRange0Len x = p.length

-- What the translator knows of the prefixes that the upstream has.
structure Aligning (s : System C) : Prop where
  aggregated    : s.manager.mode = .aggregated → s.manager.Extended ∧
    ∀ u, s.manager.upstreamExtendedChannel = some u → ∃ p,
      s.granted.lookup (C.channel.getChannelId u) = some p ∧
        p.1 = C.channel.getExtranoncePrefix u
  fresh         : s.manager.mode = .aggregated → (∀ k, s.granted.lookup k = none) →
    ∀ k, s.manager.extendedChannels.lookup k = none
  nonAggregated : s.manager.mode ≠ .aggregated → ∀ k c,
    s.manager.extendedChannels.lookup k = some c → ∃ p, s.granted.lookup k = some p ∧
      s.Splits p.1 k c

-- The upstream channel of the miner is there and the extranonce fits behind its prefix. In aggregated
-- mode the upstream gives one channel, and in non-aggregated mode the channel that it gives has no
-- factory of an earlier one. No prefix changes.
def Aligned (s : System C) : Action → Prop
  | .downstream (.submitSharesExtended m) => ∀ c ∈ s.accepted m, (s.upstreamOf m).any fun k =>
    (s.granted.lookup k).all fun p =>
      (C.channel.getExtranoncePrefix c).length + m.extranonce.1.length ≤ p.1.length + 32
  | .upstream (.openExtendedMiningChannelSuccess m) =>
    ∀ p ∈ s.manager.pendingChannels.lookup m.requestId.toNat,
      if s.manager.mode = .aggregated then s.granted.keys = []
      else p.downstreamExtranonceLen = m.extranonceSize.toNat →
        ∀ x ∈ s.manager.extranonceFactories.bind (·.lookup m.channelId),
          C.extranonce.getRange0Len x = m.extranoncePrefix.1.length
  | .upstream (.setExtranoncePrefix m) =>
    ∀ p ∈ s.granted.lookup m.channelId, p = m.extranoncePrefix
  | _ => True

instance : DecidablePred s.Aligned := by
  intro a
  induction a using Action.casesOn with
  | downstream m =>
    induction m using Mining.casesOn with
    | submitSharesExtended m =>
      exact inferInstanceAs <| Decidable <| ∀ c ∈ s.accepted m, (s.upstreamOf m).any fun k =>
        (s.granted.lookup k).all fun p =>
          (C.channel.getExtranoncePrefix c).length + m.extranonce.1.length ≤ p.1.length + 32
    | _ => exact inferInstanceAs (Decidable True)
  | upstream m =>
    induction m using Mining.casesOn with
    | openExtendedMiningChannelSuccess m =>
      exact inferInstanceAs <| Decidable <|
        ∀ p ∈ s.manager.pendingChannels.lookup m.requestId.toNat,
          if s.manager.mode = .aggregated then s.granted.keys = []
          else p.downstreamExtranonceLen = m.extranonceSize.toNat →
            ∀ x ∈ s.manager.extranonceFactories.bind (·.lookup m.channelId),
              C.extranonce.getRange0Len x = m.extranoncePrefix.1.length
    | setExtranoncePrefix m =>
      exact inferInstanceAs <| Decidable <|
        ∀ p ∈ s.granted.lookup m.channelId, p = m.extranoncePrefix
    | _ => exact inferInstanceAs (Decidable True)
  | _ => exact inferInstanceAs (Decidable True)

section Share

variable {m : SubmitSharesExtended} {c : C.Channel}

theorem accepted_eq_some : s.accepted m = some c ↔
    s.manager.extendedChannels.lookup m.channelId = some c ∧
      ∃ r, (C.channel.validateShare c m).1 = .ok r := by
  rw [accepted, Option.filter_eq_some_iff]
  refine and_congr_right fun _ => ?_
  cases (C.channel.validateShare c m).1 <;> simp [Except.isOk, Except.toBool]

-- A share that is sent with an extranonce of the right bytes is carried.
theorem carries_of_eq {m' : SubmitSharesExtended} {p e : B032} {n : UInt32} {k : ChannelId}
    (hu : s.upstreamOf m = some k) (hp : s.granted.lookup k = some p)
    (he : p.1 ++ e.1 = C.channel.getExtranoncePrefix c ++ m.extranonce.1)
    (hm : m' = { m with channelId := k, sequenceNumber := n, extranonce := e }) :
    s.Carries m c m' := by
  subst hm
  exact ⟨hu, rfl, p, hp, he⟩

theorem sends_aggregated (hC : C.Lawful) (h : s.Aligning) (hc : s.accepted m = some c)
    (ha : s.Aligned (.downstream (.submitSharesExtended m))) (hm : s.manager.mode = .aggregated) :
    ∃ manager m', s.manager.handleDownstreamMessage (.submitSharesExtended m) =
      .ok (manager, [.upstream (.submitSharesExtended m')]) ∧ s.Carries m c m' := by
  obtain ⟨hk, r, hr⟩ := accepted_eq_some.mp hc
  have hs := (hC.channel.validateShare c m).left.extranoncePrefix
  have hup : s.upstreamOf m = s.manager.upstreamExtendedChannel.map C.channel.getChannelId :=
    if_pos hm
  have ha := ha c hc
  rw [hup] at ha
  obtain ⟨k, hk', hl⟩ := Option.any_eq_true _ _ |>.mp ha
  obtain ⟨u, hu, rfl⟩ := Option.map_eq_some_iff.mp hk'
  obtain ⟨p, hp, hpu⟩ := (h.aggregated hm).right u hu
  have he := (h.aggregated hm).left u hu
  obtain ⟨x, hx, hfrom⟩ := he.factory
  rw [hp, Option.all_some, decide_eq_true_eq] at hl
  obtain ⟨e, hadj, hcat⟩ := adjustExtranonce_eq (c := (C.channel.validateShare c m).2) (m := m)
    (p := p.1) (n := C.extranonce.getRange0Len x) (by rw [hs, hpu]; exact he.channel _ _ hk)
    (by rw [hpu]; exact hC.extranonce.range0Len _ _ hfrom) (by rwa [hs])
  let r' := (s.manager.judged m c).nextShareSequenceNumber (C.channel.getChannelId u)
  refine ⟨r'.2, { m with
    channelId      := C.channel.getChannelId u
    sequenceNumber := r'.1
    extranonce     := e }, ?_, carries_of_eq (hup.trans hk') hp (by rw [hcat, hs]) rfl⟩
  rw [handleDownstreamMessage, handleSubmitSharesExtended, hk]
  dsimp only
  split
  case h_1 he' => cases hr.symm.trans he'
  case h_3 hne => exact (hne _ hm hu).elim
  case h_2 u' _ _ _ hu' =>
    cases hu.symm.trans hu'
    refine bind_eq_ok.mpr ⟨x, expect_eq_ok.mpr hx, bind_eq_ok.mpr ⟨e, ?_, rfl⟩⟩
    rwa [AList.lookup_insert]

theorem sends_nonAggregated (hC : C.Lawful) (h : s.Aligning) (hc : s.accepted m = some c)
    (ha : s.Aligned (.downstream (.submitSharesExtended m))) (hm : s.manager.mode ≠ .aggregated) :
    ∃ manager m', s.manager.handleDownstreamMessage (.submitSharesExtended m) =
      .ok (manager, [.upstream (.submitSharesExtended m')]) ∧ s.Carries m c m' := by
  obtain ⟨hk, r, hr⟩ := accepted_eq_some.mp hc
  have hs := (hC.channel.validateShare c m).left.extranoncePrefix
  have hup : s.upstreamOf m = some m.channelId := if_neg hm
  have ha := ha c hc
  obtain ⟨p, hp, hsp⟩ := h.nonAggregated hm _ c hk
  rw [hup, Option.any_some, hp, Option.all_some, decide_eq_true_eq] at ha
  have hadj : ∃ e, (s.manager.judged m c).adjustNonAggregated m = .ok e ∧
      p.1 ++ e.1 = C.channel.getExtranoncePrefix c ++ m.extranonce.1 := by
    rw [adjustNonAggregated.eq_def, judged]
    dsimp only
    rw [Splits.eq_def] at hsp
    cases hx : s.manager.extranonceFactories.bind (·.lookup m.channelId) with
    | none =>
      rw [hx] at hsp
      exact ⟨m.extranonce, rfl, by rw [hsp]⟩
    | some x =>
      rw [hx] at hsp
      rw [AList.lookup_insert, ← hs]
      exact adjustExtranonce_eq (hs ▸ hsp.left) hsp.right (hs ▸ ha)
  obtain ⟨e, hadj, hcat⟩ := hadj
  let r' := (s.manager.judged m c).nextShareSequenceNumber m.channelId
  refine ⟨r'.2, { m with
    sequenceNumber := r'.1
    extranonce     := e }, ?_, carries_of_eq hup hp hcat rfl⟩
  rw [handleDownstreamMessage, handleSubmitSharesExtended, hk]
  dsimp only
  split
  case h_1 he'   => cases hr.symm.trans he'
  case h_2 hm' _ => exact absurd hm' hm
  case h_3       => exact bind_eq_ok.mpr ⟨e, hadj, rfl⟩

theorem not_sends (hc : s.accepted m = none) : ∃ manager,
    s.manager.handleDownstreamMessage (.submitSharesExtended m) = .ok (manager, []) := by
  rw [handleDownstreamMessage, handleSubmitSharesExtended]
  cases hk : s.manager.extendedChannels.lookup m.channelId with
  | none   => exact ⟨_, rfl⟩
  | some c =>
    cases hr : (C.channel.validateShare c m).1 with
    | error e =>
      dsimp only
      rw [hr]
      exact ⟨_, rfl⟩
    | ok r => cases hc.symm.trans (accepted_eq_some.mpr ⟨hk, r, hr⟩)

theorem sends_of_accepted (hC : C.Lawful) (h : s.Aligning) (hc : s.accepted m = some c)
    (ha : s.Aligned (.downstream (.submitSharesExtended m))) :
    ∃ manager m', s.manager.handleDownstreamMessage (.submitSharesExtended m) =
      .ok (manager, [.upstream (.submitSharesExtended m')]) ∧ s.Carries m c m' := by
  by_cases hm : s.manager.mode = .aggregated
  case pos => exact sends_aggregated hC h hc ha hm
  case neg => exact sends_nonAggregated hC h hc ha hm

end Share

section Align

variable {manager : ChannelManager C} {messages : List RouteMessageTo}

-- Same factories and same prefixes of the channels.
theorem aligning_of_channels (h : s.Aligning)
    (hg : ∀ k, s'.granted.lookup k = s.granted.lookup k)
    (hd : s'.manager.mode = s.manager.mode)
    (hx : s'.manager.extranonceFactories = s.manager.extranonceFactories)
    (he : s.manager.mode = .aggregated → s'.manager.Extended)
    (hu : ∀ u', s'.manager.upstreamExtendedChannel = some u' → ∃ u,
      s.manager.upstreamExtendedChannel = some u ∧ C.channel.Same u u')
    (hc : ∀ k c', s'.manager.extendedChannels.lookup k = some c' → ∃ c,
      s.manager.extendedChannels.lookup k = some c ∧
        C.channel.getExtranoncePrefix c' = C.channel.getExtranoncePrefix c) : s'.Aligning where
  aggregated hm := by
    rw [hd] at hm
    refine ⟨he hm, fun u' hu' => ?_⟩
    obtain ⟨u, hu, hs⟩ := hu u' hu'
    rw [hg, hs.channelId, hs.extranoncePrefix]
    exact (h.aggregated hm).right u hu
  fresh hm hk k := by
    rw [hd] at hm
    by_contra hn
    obtain ⟨c', hn⟩ := Option.ne_none_iff_exists'.mp hn
    obtain ⟨c, hc, _⟩ := hc k c' hn
    have hk : s.manager.extendedChannels.lookup k = none :=
      h.fresh hm (fun k => (hg k).symm.trans (hk k)) k
    exact Option.some_ne_none c (hc.symm.trans hk)
  nonAggregated hm k c' hc' := by
    rw [hd] at hm
    obtain ⟨c, hc, hs⟩ := hc k c' hc'
    obtain ⟨p, hp, hsp⟩ := h.nonAggregated hm k c hc
    refine ⟨p, (hg k).trans hp, ?_⟩
    rwa [Splits, hx, hs]

theorem same_refl : C.channel.Same u u :=
  ⟨rfl, rfl⟩

theorem aligning_of_eq (h : s.Aligning) (hg : ∀ k, s'.granted.lookup k = s.granted.lookup k)
    (hm : s'.manager = s.manager) : s'.Aligning := by
  refine aligning_of_channels h hg ?_ ?_ (fun hd => ?_) (fun u hu => ?_) (fun k c hc => ?_)
  · rw [hm]
  · rw [hm]
  · rw [hm]
    exact (h.aggregated hd).left
  · exact ⟨u, hm ▸ hu, same_refl⟩
  · exact ⟨c, hm ▸ hc, rfl⟩

theorem aligning_judged (hC : C.Lawful) {m : SubmitSharesExtended} {c : C.Channel} (h : s.Aligning)
    (hc : s.manager.extendedChannels.lookup m.channelId = some c)
    (hg : ∀ k, s'.granted.lookup k = s.granted.lookup k)
    (hd : s'.manager.mode = s.manager.mode)
    (hx : s'.manager.extranonceFactories = s.manager.extranonceFactories)
    (hf : s'.manager.extranoncePrefixFactory = s.manager.extranoncePrefixFactory)
    (hu : s'.manager.upstreamExtendedChannel = s.manager.upstreamExtendedChannel)
    (hs : s'.manager.extendedChannels = (s.manager.judged m c).extendedChannels) : s'.Aligning := by
  refine aligning_of_channels h hg hd hx (fun hm => ?_) (fun u hu' => ⟨u, hu ▸ hu', same_refl⟩) ?_
  · exact extended_of_eq (extended_judged hC (h.aggregated hm).left hc) hu hs hf
  · intro k c' hc'
    rw [hs, judged, Map.lookup_insert_ite] at hc'
    split at hc'
    case isFalse  => exact ⟨c', hc', rfl⟩
    case isTrue hk =>
      cases hc'
      exact ⟨c, hk ▸ hc, (hC.channel.validateShare c m).left.extranoncePrefix⟩

theorem aligning_updateChannels {channelId : ChannelId} {f g : C.Channel → C.Channel}
    (h : s.Aligning) (hf : ∀ c, C.channel.Same c (f c)) (hg : ∀ c, C.channel.Same c (g c))
    (hm : s'.manager = s.manager.updateChannels channelId f g)
    (hs : ∀ k, s'.granted.lookup k = s.granted.lookup k) : s'.Aligning := by
  have hd : s'.manager.mode = s.manager.mode := by rw [hm, updateChannels_mode]
  refine aligning_of_channels h hs hd ?_ (fun hd => ?_) ?_ ?_
  · rw [hm, updateChannels]
    split <;> rfl
  · rw [hm]
    exact extended_updateChannels hd (h.aggregated hd).left (fun c => (hf c).extranoncePrefix)
      fun c => (hg c).extranoncePrefix
  · intro u' hu'
    rw [hm, updateChannels] at hu'
    split at hu'
    case isTrue =>
      obtain ⟨u, hu, rfl⟩ := Option.map_eq_some_iff.mp hu'
      exact ⟨u, hu, hf u⟩
    case isFalse => exact ⟨u', hu', same_refl⟩
  · intro k c' hc'
    rw [hm, updateChannels] at hc'
    split at hc'
    case isTrue =>
      rw [Map.lookup_mapValues] at hc'
      obtain ⟨c, hc, rfl⟩ := Option.map_eq_some_iff.mp hc'
      exact ⟨c, hc, (hg c).extranoncePrefix⟩
    case isFalse =>
      by_cases hk : k = channelId
      case neg => exact ⟨c', by rwa [Map.lookup_modify_ne hk] at hc', rfl⟩
      case pos =>
        subst hk
        rw [Map.lookup_modify] at hc'
        obtain ⟨c, hc, rfl⟩ := Option.map_eq_some_iff.mp hc'
        exact ⟨c, hc, (hg c).extranoncePrefix⟩

theorem aligning_downstream (hC : C.Lawful) {m : Mining} (h : s.Aligning)
    (hm : s.manager.Handles m manager messages) (hs : s'.manager = manager)
    (hg : ∀ k, s'.granted.lookup k = s.granted.lookup k) : s'.Aligning := by
  have he (hd : s.manager.mode = .aggregated) : s'.manager.Extended := by
    rw [hs]
    exact extended_downstream hC (h.aggregated hd).left hm
  cases hm with
  | unknown | updated | closed | dropped => exact aligning_of_eq h hg hs
  | invalid hc =>
    exact aligning_judged hC h hc hg (by rw [hs]; rfl) (by rw [hs]; rfl) (by rw [hs]; rfl)
      (by rw [hs]; rfl) (by rw [hs])
  | aggregated hc _ _ _ _ hf | nonAggregated hc _ _ hf =>
    obtain ⟨_, _, rfl, _⟩ := hf
    exact aligning_judged hC h hc hg (by rw [hs]; rfl) (by rw [hs]; rfl) (by rw [hs]; rfl)
      (by rw [hs]; rfl) (by rw [hs]; rfl)
  | unanswered =>
    refine aligning_of_channels h hg (by rw [hs]) (by rw [hs]) he (fun u hu => ?_) fun k c hc => ?_
    · rw [hs] at hu
      exact ⟨u, hu, same_refl⟩
    · rw [hs] at hc
      exact ⟨c, hc, rfl⟩
  | requested =>
    refine aligning_of_channels h hg (by rw [hs]; rfl) (by rw [hs]; rfl) he (fun u hu => ?_)
      fun k c hc => ?_
    · rw [hs] at hu
      exact ⟨u, hu, same_refl⟩
    · rw [hs] at hc
      exact ⟨c, hc, rfl⟩
  | derived hd hu =>
    have hu' : s'.manager.upstreamExtendedChannel = s.manager.upstreamExtendedChannel := by
      rw [hs]
      rfl
    have hd' : s'.manager.mode = .aggregated := by
      rw [hs]
      exact hd
    obtain ⟨p, hp, _⟩ := (h.aggregated hd).right _ hu
    refine ⟨fun _ => ⟨he hd, fun u hu => ?_⟩, fun _ hk => ?_, fun hm => absurd hd' hm⟩
    · rw [hg]
      exact (h.aggregated hd).right u (hu' ▸ hu)
    · cases hp.symm.trans ((hg _).symm.trans (hk _))

theorem lookup_of_keys {κ α : Type} [DecidableEq κ] {m : Map κ α} (h : m.keys = []) (k : κ) :
    m.lookup k = none :=
  AList.lookup_eq_none.mpr fun hk => by simpa [h] using AList.mem_keys.mp hk

-- The upstream gives a channel.
theorem aligning_opened (hC : C.Lawful) {m : OpenExtendedMiningChannelSuccess} (h : s.Aligning)
    (ha : s.Aligned (.upstream (.openExtendedMiningChannelSuccess m)))
    (hm : s.manager.Follows (.openExtendedMiningChannelSuccess m) manager messages)
    (hs : s'.manager = manager)
    (hg : s'.granted = s.granted.insert m.channelId m.extranoncePrefix) : s'.Aligning := by
  have hl (k : ChannelId) : s'.granted.lookup k =
      if k = m.channelId then some m.extranoncePrefix else s.granted.lookup k := by
    rw [hg, Map.lookup_insert_ite]
  have hpre (pending : PendingChannel) (p : B032) (size : UInt16) :
      C.channel.getExtranoncePrefix (clientChannel m pending p size) = p.1 :=
    hC.channel.newPrefix ..
  cases hm with
  | ignored hd => exact absurd rfl (hd _)
  | @aggregated _ pending x x' p size hp hd hle hx hn =>
    have ha := ha _ hp
    rw [if_pos hd] at ha
    have hf := h.fresh hd (lookup_of_keys ha)
    have hd' : s'.manager.mode = .aggregated := by
      rw [hs]
      exact hd
    refine ⟨fun _ => ⟨?_, fun u hu => ?_⟩, fun _ hk => ?_, fun hm => absurd hd' hm⟩
    · rw [hs]
      refine extended_upstream hC hd (h.aggregated hd).left (fun _ _ _ k c hc => ?_)
        (.aggregated hp hd hle hx hn)
      cases hc.symm.trans (hf k)
    · rw [hs] at hu
      cases hu
      refine ⟨m.extranoncePrefix, ?_, (hpre ..).symm⟩
      rw [hl, clientChannel, hC.channel.newChannelId, if_pos rfl]
    · have hk := hk m.channelId
      rw [hl, if_pos rfl] at hk
      cases hk
  | @adjusted _ pending x x' p size hp hd _ _ hx hn =>
    have hd' : s'.manager.mode ≠ .aggregated := by
      rw [hs]
      exact hd
    refine ⟨fun hm => absurd hm hd', fun hm => absurd hm hd', fun _ k c hc => ?_⟩
    have hF (k : ChannelId) : s'.manager.extranonceFactories.bind (·.lookup k) =
        if k = m.channelId then some x' else s.manager.extranonceFactories.bind (·.lookup k) := by
      rw [hs, Option.bind_some, Map.lookup_insert_ite]
      cases s.manager.extranonceFactories <;> rfl
    rw [hs, Map.lookup_insert_ite] at hc
    split at hc
    case isTrue hk =>
      cases hc
      obtain ⟨r₁, r₂, hx⟩ := hx
      have hx := ExtendedExtranonces.From.made rfl rfl hx
      have hx' := hx.next (n := pending.downstreamExtranonceLen)
      rw [hn] at hx'
      refine ⟨m.extranoncePrefix, by rw [hl, if_pos hk], ?_⟩
      rw [Splits.eq_def, hF, if_pos hk, hpre]
      exact ⟨hC.extranonce.next _ _ _ p hx (by rw [hn]), hC.extranonce.range0Len _ _ hx'⟩
    case isFalse hk =>
      obtain ⟨q, hq, hsp⟩ := h.nonAggregated hd k c hc
      refine ⟨q, by rw [hl, if_neg hk, hq], ?_⟩
      rwa [Splits.eq_def, hF, if_neg hk]
  | @unadjusted _ pending hp hd hsize =>
    have ha := ha _ hp
    rw [if_neg hd] at ha
    have ha := ha hsize.symm
    have hd' : s'.manager.mode ≠ .aggregated := by
      rw [hs]
      exact hd
    refine ⟨fun hm => absurd hm hd', fun hm => absurd hm hd', fun _ k c hc => ?_⟩
    rw [hs, Map.lookup_insert_ite] at hc
    split at hc
    case isTrue hk =>
      cases hc
      refine ⟨m.extranoncePrefix, by rw [hl, if_pos hk], ?_⟩
      rw [Splits.eq_def, hs, hpre, hk]
      dsimp only
      cases hx : s.manager.extranonceFactories.bind (·.lookup m.channelId) with
      | none   => rfl
      | some x => exact ⟨List.prefix_rfl, ha x hx⟩
    case isFalse hk =>
      obtain ⟨q, hq, hsp⟩ := h.nonAggregated hd k c hc
      refine ⟨q, by rw [hl, if_neg hk, hq], ?_⟩
      rwa [Splits.eq_def, hs]

theorem aligning_upstream (hC : C.Lawful) {m : Mining} (h : s.Aligning)
    (ha : s.Aligned (.upstream m)) (hm : s.manager.Follows m manager messages)
    (hs : s'.manager = manager) (hg : s'.granted = grant s.granted m) : s'.Aligning := by
  cases hm with
  | aggregated hp hd hle hx hn   =>
    exact aligning_opened hC h ha (.aggregated hp hd hle hx hn) hs hg
  | adjusted hp hd hn hl hx hn'  =>
    exact aligning_opened hC h ha (.adjusted hp hd hn hl hx hn') hs hg
  | unadjusted hp hd hn          => exact aligning_opened hC h ha (.unadjusted hp hd hn) hs hg
  | target                       =>
    exact aligning_updateChannels h (fun c => (hC.channel.setTarget c _).left)
      (fun c => (hC.channel.setTarget c _).left) hs fun k => by rw [hg]; rfl
  | job                          =>
    exact aligning_updateChannels h (fun c => hC.channel.jobSame c _)
      (fun c => hC.channel.jobSame c _) hs fun k => by rw [hg]; rfl
  | prevHash                     =>
    exact aligning_updateChannels h (fun c => hC.channel.prevHashSame c _)
      (fun c => hC.channel.prevHashSame c _) hs fun k => by rw [hg]; rfl
  | closed hd                    =>
    refine aligning_of_channels h (fun k => by rw [hg]; rfl) (by rw [hs]) (by rw [hs])
      (fun _ u hu => ?_) (fun u hu => ?_) fun k c hc => ?_
    · rw [hs] at hu
      cases hu
    · rw [hs] at hu
      cases hu
    · rw [hs] at hc
      exact ⟨c, hc, rfl⟩
  | erased hd                    =>
    refine aligning_of_channels h (fun k => by rw [hg]; rfl) (by rw [hs]) (by rw [hs])
      (fun hm => absurd hm hd) (fun u hu => ?_) fun k c hc => ?_
    · rw [hs] at hu
      exact ⟨u, hu, same_refl⟩
    · rw [hs, Map.lookup_erase_ite] at hc
      split at hc
      case isTrue  => cases hc
      case isFalse => exact ⟨c, hc, rfl⟩
  | ignored ho                   =>
    refine aligning_of_eq h (fun k => ?_) hs
    rw [hg]
    cases m with
    | openExtendedMiningChannelSuccess m => exact absurd rfl (ho _)
    | setExtranoncePrefix m              =>
      have ha : ∀ p ∈ s.granted.lookup m.channelId, p = m.extranoncePrefix := ha
      rw [grant]
      by_cases hk : k = m.channelId
      case neg => rw [Map.lookup_modify_ne hk]
      case pos =>
        rw [hk, Map.lookup_modify]
        cases hp : s.granted.lookup m.channelId with
        | none   => rfl
        | some p => rw [Option.map_some, ha p hp]
    | _ => rfl

theorem aligning_step (hC : C.Lawful) (h : s.status = .running → s.Aligning) (ha : s.Aligned a)
    (hst : s.step cfg a = some s') : s'.status = .running → s'.Aligning := by
  obtain ⟨hs, hm⟩ := moves_of_step hst
  have h := h hs
  intro hr
  cases hm with
  | downstream hm   => exact aligning_downstream hC h hm rfl fun _ => rfl
  | upstream hm     => exact aligning_upstream hC h ha hm rfl rfl
  | extensions hm   =>
    refine aligning_of_channels h (fun _ => rfl) rfl rfl (fun hd => ?_)
      (fun u hu => ⟨u, hu, same_refl⟩) fun k c hc => ⟨c, hc, rfl⟩
    exact extended_of_eq (h.aggregated hd).left rfl rfl rfl
  | downstreamFails => cases hr
  | upstreamFails   => cases hr
  | extensionsFails => cases hr
  | fallback        => exact ⟨fun _ => ⟨fun _ h => (nomatch h), fun _ h => (nomatch h)⟩,
    fun _ _ _ => rfl, fun _ _ _ h => (nomatch h)⟩

end Align

theorem shares_silent {messages : List RouteMessageTo} (h : ∀ o ∈ messages, o.share = none)
    (hs : s'.sent = s.sent ++ messages) : s'.shares = s.shares := by
  rw [shares, hs, List.filterMap_append, List.filterMap_eq_nil_iff.mpr h, List.append_nil, shares]

theorem step_of_ok {m : Mining} {manager : ChannelManager C} {messages : List RouteMessageTo}
    (hst : s.step cfg (.downstream m) = some s')
    (h : s.manager.handleDownstreamMessage m = .ok (manager, messages)) :
    s'.sent = s.sent ++ messages := by
  rw [step, (moves_of_step hst).left] at hst
  cases hst
  rw [act, h]
  rfl

theorem forwarded_share (hC : C.Lawful) {m : SubmitSharesExtended} (h : s.Aligning)
    (ha : s.Aligned (.downstream (.submitSharesExtended m)))
    (hst : s.step cfg (.downstream (.submitSharesExtended m)) = some s') :
    Forwarded ⟨s, .downstream (.submitSharesExtended m), s'⟩ := by
  rw [Forwarded.eq_def]
  dsimp only
  cases hc : s.accepted m with
  | none =>
    obtain ⟨manager, hm⟩ := not_sends hc
    exact shares_silent (by simp) (step_of_ok hst hm)
  | some c =>
    obtain ⟨manager, m', hm, hcar⟩ := sends_of_accepted hC h hc ha
    refine ⟨m', ?_, hcar⟩
    rw [shares, step_of_ok hst hm, List.filterMap_append]
    rfl

theorem forwarded_step (hC : C.Lawful) (h : s.Aligning) (ha : s.Aligned a)
    (hst : s.step cfg a = some s') : Forwarded ⟨s, a, s'⟩ := by
  cases a with
  | fallback =>
    rw [step, (moves_of_step hst).left] at hst
    cases hst
    rfl
  | upstream m =>
    cases (moves_of_step hst).right with
    | upstream hm   => exact shares_silent (silent_upstream hm).right rfl
    | upstreamFails => rfl
  | extensions m =>
    cases (moves_of_step hst).right with
    | extensionsFails => rfl
    | extensions hm   =>
      refine shares_silent (fun o ho => ?_) rfl
      obtain ⟨m', rfl⟩ := hm o ho
      rfl
  | downstream m =>
    cases m with
    | submitSharesExtended m => exact forwarded_share hC h ha hst
    | _ =>
      cases (moves_of_step hst).right with
      | downstreamFails => rfl
      | downstream hm   =>
        cases silent_or_forwards hm with
        | inl hq => exact shares_silent hq.right rfl
        | inr hf =>
          obtain ⟨_, _, _, _, hm', _⟩ := hf
          cases hm'

-- In every run that keeps to this, each share that a channel of a miner accepts reaches the upstream,
-- and no other, and the shares of each channel of the upstream are numbered one after the other.
theorem forwards_of_run (hC : C.Lawful) (r : (machine C cfg mode).Run tr s)
    (ha : Machine.Along Aligned tr) : s.Consecutive ∧ ∀ e ∈ tr, Forwarded e := by
  have hcounts (s : System C) (h : (machine C cfg mode).Init s) : s.Counts := by
    constructor
    case counter     => simp [h.manager, ChannelManager.new, sequence, shares, h.sent]
    case consecutive => simp [Consecutive, sequence, shares, h.sent]
  have haligning (s : System C) (h : (machine C cfg mode).Init s) (_ : s.status = .running) :
      s.Aligning := by
    refine ⟨fun _ => ⟨fun u hu => ?_, fun u hu => ?_⟩, fun _ _ k => ?_, fun _ k c hc => ?_⟩
    · simp [h.manager, ChannelManager.new] at hu
    · simp [h.manager, ChannelManager.new] at hu
    · simp [h.manager, ChannelManager.new]
    · simp [h.manager, ChannelManager.new] at hc
  constructor
  case left =>
    exact (r.reachable.invariant (I := Counts) hcounts fun _ _ _ => counts_step).consecutive
  case right =>
    intro e he
    have hi := (r.invariant_of_mem (I := fun s => s.status = .running → s.Aligning) haligning
      (fun _ _ _ => aligning_step hC) ha he).left
    have hst := r.step_of_mem he
    exact forwarded_step hC (hi (moves_of_step hst).left) (ha e he) hst

end System

-- The upstream gives a channel.
def Action.gives : Action → Bool
  | .upstream (.openExtendedMiningChannelSuccess _) => true
  | _                                               => false

section Sample

open Sample

-- The upstream closes its channel, and the miner goes on.
def orphan : List Action :=
  [openChannel 1, opened 1 1 8 [7], job 5, prevHash 5, close 1, share 1 5 [1, 2, 3, 4]]

theorem orphan_exec :
    ((machine reference config .aggregated).exec (.start .aggregated) orphan).isSome ∧
      ((machine reference config .aggregated).trace (.start .aggregated) orphan).countP
        (·.act.gives) ≤ 1 ∧
    ((machine reference config .aggregated).trace (.start .aggregated) orphan).any fun e =>
      match e.act with
      | .downstream (.submitSharesExtended m) =>
        (e.pre.accepted m).isSome && (e.pre.upstreamOf m).isNone
      | _ => false := by
  decide +kernel

theorem not_forwarded : ¬∀ tr s, (machine reference config .aggregated).Run tr s →
    tr.countP (·.act.gives) ≤ 1 → ∀ e ∈ tr, System.Forwarded e := by
  intro h
  obtain ⟨hexec, honce, hsends⟩ := orphan_exec
  obtain ⟨s, hs⟩ := Option.isSome_iff_exists.mp hexec
  obtain ⟨e, he, hd⟩ := List.any_eq_true.mp hsends
  have hf := h _ _ (Machine.Run.of_exec System.start_init hs) honce e he
  rw [System.Forwarded.eq_def] at hf
  split at hd
  case h_2 => cases hd
  case h_1 m ha =>
    rw [ha] at hf
    obtain ⟨hc, hu⟩ := Bool.and_eq_true_iff.mp hd
    obtain ⟨c, hc⟩ := Option.isSome_iff_exists.mp hc
    simp only [hc] at hf
    obtain ⟨m', _, hcar⟩ := hf
    rw [hcar.channelId] at hu
    cases hu

def accepted : List Action :=
  [openChannel 1, opened 1 1 8 [7], job 5, prevHash 5, share 1 5 [1, 2, 3, 4]]

theorem accepted_exec :
    (((machine reference config .aggregated).exec (.start .aggregated) accepted).any
      fun s => s.shares.length = 1) ∧
    ((machine reference config .aggregated).trace (.start .aggregated) accepted).all
      fun e => e.pre.Aligned e.act := by
  decide +kernel

theorem forwards_of_run_sample : ∃ tr s, (machine reference config .aggregated).Run tr s ∧
    s.shares.length = 1 ∧ s.Consecutive ∧ ∀ e ∈ tr, System.Forwarded e := by
  obtain ⟨hexec, haligned⟩ := accepted_exec
  obtain ⟨s, hs, he⟩ := Option.any_eq_true _ _ |>.mp hexec
  refine ⟨_, s, .of_exec System.start_init hs, of_decide_eq_true he,
    System.forwards_of_run reference_lawful (.of_exec System.start_init hs) fun e he => ?_⟩
  exact of_decide_eq_true (List.all_eq_true.mp haligned e he)

end Sample

end Translator
