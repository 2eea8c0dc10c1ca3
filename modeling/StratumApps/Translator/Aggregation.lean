import StratumApps.Translator.Reference

open Sv2 Handler StratumCore

namespace Translator

variable {C : TranslatorCore} {cfg : Config}

def RouteMessageTo.isOpen : RouteMessageTo → Bool
  | upstream (.openExtendedMiningChannel _) => true
  | _                                       => false

def RouteMessageTo.opened : RouteMessageTo → Option OpenExtendedMiningChannelSuccess
  | sv1Server (.openExtendedMiningChannelSuccess m) => some m
  | _                                               => none

namespace ChannelManager

variable {s s' : ChannelManager C} {messages : List RouteMessageTo}

-- Everything in use goes on from the prefix of the upstream channel: the channels of the miners, and
-- the factory of the prefixes of those to come.
structure Extends (s : ChannelManager C) (u : C.Channel) : Prop where
  channel : ∀ k c, s.extendedChannels.lookup k = some c →
    C.channel.getExtranoncePrefix u <+: C.channel.getExtranoncePrefix c
  factory : ∃ x, s.extranoncePrefixFactory = some x ∧
    C.extranonce.From (C.channel.getExtranoncePrefix u) x

def Extended (s : ChannelManager C) : Prop :=
  ∀ u, s.upstreamExtendedChannel = some u → s.Extends u

theorem extends_insert {k : ChannelId} {u c : C.Channel} (h : s.Extends u)
    (hf : ∃ x, s'.extranoncePrefixFactory = some x ∧
      C.extranonce.From (C.channel.getExtranoncePrefix u) x)
    (hs : s'.extendedChannels = s.extendedChannels.insert k c)
    (hc : C.channel.getExtranoncePrefix u <+: C.channel.getExtranoncePrefix c) : s'.Extends u where
  factory     := hf
  channel k c := by
    rw [hs, Map.lookup_insert_ite]
    split
    case isTrue  => exact fun h => Option.some.inj h ▸ hc
    case isFalse => exact h.channel k c

theorem extends_of_eq {u u' : C.Channel} (h : s.Extends u)
    (hs : s'.extendedChannels = s.extendedChannels)
    (hf : s'.extranoncePrefixFactory = s.extranoncePrefixFactory)
    (hu : C.channel.getExtranoncePrefix u' = C.channel.getExtranoncePrefix u) : s'.Extends u' where
  factory     := by
    rw [hf, hu]
    exact h.factory
  channel k c := by
    rw [hs, hu]
    exact h.channel k c

theorem extended_of_eq (h : s.Extended)
    (hu : s'.upstreamExtendedChannel = s.upstreamExtendedChannel)
    (hs : s'.extendedChannels = s.extendedChannels)
    (hf : s'.extranoncePrefixFactory = s.extranoncePrefixFactory) : s'.Extended :=
  fun u hu' => extends_of_eq (h u (hu.symm.trans hu')) hs hf rfl

theorem copyJob_same (hC : C.channel.Lawful) {u c : C.Channel} {channelId : ChannelId} :
    C.channel.getExtranoncePrefix (copyJob u c channelId).1 = C.channel.getExtranoncePrefix c := by
  rw [copyJob.eq_def]
  split
  case h_1 => rfl
  case h_2 =>
    rw [(hC.jobSame _ _).extranoncePrefix]
    cases C.channel.getChainTip u with
    | none     => rfl
    | some tip => exact (hC.setChainTipSame _ _).extranoncePrefix

theorem extended_updateChannels {channelId : ChannelId} {f g : C.Channel → C.Channel}
    (hm : s.mode = .aggregated) (h : s.Extended)
    (hf : ∀ c, C.channel.getExtranoncePrefix (f c) = C.channel.getExtranoncePrefix c)
    (hg : ∀ c, C.channel.getExtranoncePrefix (g c) = C.channel.getExtranoncePrefix c) :
    (s.updateChannels channelId f g).Extended := by
  rw [updateChannels, if_pos hm]
  intro u' hu'
  obtain ⟨u, hu, rfl⟩ := Option.map_eq_some_iff.mp hu'
  constructor
  case factory =>
    rw [hf]
    exact (h u hu).factory
  case channel =>
    intro k c' hc'
    rw [Map.lookup_mapValues] at hc'
    obtain ⟨c, hc, rfl⟩ := Option.map_eq_some_iff.mp hc'
    rw [hf, hg]
    exact (h u hu).channel k c hc

section Step

variable (hC : C.Lawful) {m : Mining}
include hC

theorem extended_judged {m : SubmitSharesExtended} {c : C.Channel} (h : s.Extended)
    (hc : s.extendedChannels.lookup m.channelId = some c) : (s.judged m c).Extended := by
  intro u hu
  refine extends_insert (h u hu) (h u hu).factory rfl ?_
  rw [(hC.channel.validateShare c m).left.extranoncePrefix]
  exact (h u hu).channel _ c hc

theorem extends_derived {m : OpenExtendedMiningChannel} {u : C.Channel} {x x' : C.Extranonce}
    {p : B032} (h : s.Extends u) (hf : s.extranoncePrefixFactory = some x)
    (hn : C.extranonce.nextPrefixExtended x m.minExtranonceSize.toNat = (.ok p, x')) :
    C.channel.getExtranoncePrefix u <+: p.1 ∧
      C.extranonce.From (C.channel.getExtranoncePrefix u) x' := by
  obtain ⟨y, hy, hx⟩ := h.factory
  cases hf.symm.trans hy
  refine ⟨hC.extranonce.next _ x m.minExtranonceSize.toNat p hx (by rw [hn]), ?_⟩
  have hx' := hx.next (n := m.minExtranonceSize.toNat)
  rwa [hn] at hx'

theorem extended_downstream (h : s.Extended) (hm : s.Handles m s' messages) : s'.Extended := by
  cases hm with
  | derived _ hu hf hn =>
    intro u hu'
    cases hu.symm.trans hu'
    obtain ⟨hp, hx⟩ := extends_derived hC (h _ hu) hf hn
    refine extends_insert (h _ hu) ⟨_, rfl, hx⟩ rfl ?_
    rw [copyJob_same hC.channel, derivedChannel, hC.channel.newPrefix]
    exact hp
  | @unanswered m _ _ _ _ _ hu hf hn =>
    intro u hu'
    cases hu.symm.trans hu'
    obtain ⟨y, hy, hx⟩ := (h _ hu).factory
    cases hf.symm.trans hy
    refine ⟨(h _ hu).channel, _, rfl, ?_⟩
    have hx' := hx.next (n := m.minExtranonceSize.toNat)
    rwa [hn] at hx'
  | invalid hc => exact extended_judged hC h hc
  | aggregated hc _ _ _ _ hf | nonAggregated hc _ _ hf =>
    obtain ⟨_, _, rfl, _⟩ := hf
    exact extended_of_eq (extended_judged hC h hc) rfl rfl rfl
  | requested => exact extended_of_eq h rfl rfl rfl
  | _         => exact h

-- The upstream gives a channel while no other channel of a miner is there.
theorem extended_upstream (hm : s.mode = .aggregated) (h : s.Extended)
    (ho : ∀ m', m = .openExtendedMiningChannelSuccess m' →
      (∃ p, s.pendingChannels.lookup m'.requestId.toNat = some p) →
        ∀ k c, s.extendedChannels.lookup k = some c → k = m'.channelId)
    (hf : s.Follows m s' messages) : s'.Extended := by
  cases hf with
  | adjusted _ hm'   => exact absurd hm hm'
  | unadjusted _ hm' => exact absurd hm hm'
  | erased hm'       => exact absurd hm hm'
  | ignored          => exact h
  | closed           => exact fun _ hu => (nomatch hu)
  | job =>
    exact extended_updateChannels hm h (fun c => (hC.channel.jobSame c _).extranoncePrefix)
      fun c => (hC.channel.jobSame c _).extranoncePrefix
  | prevHash =>
    exact extended_updateChannels hm h (fun c => (hC.channel.prevHashSame c _).extranoncePrefix)
      fun c => (hC.channel.prevHashSame c _).extranoncePrefix
  | target =>
    exact extended_updateChannels hm h (fun c => (hC.channel.setTarget c _).left.extranoncePrefix)
      fun c => (hC.channel.setTarget c _).left.extranoncePrefix
  | @aggregated m pending x x' p size hp _ _ hx hn =>
    have hk := ho m rfl ⟨_, hp⟩
    have hpre (p : B032) (size : UInt16) :
        C.channel.getExtranoncePrefix (clientChannel m pending p size) = p.1 :=
      hC.channel.newPrefix ..
    obtain ⟨r₁, r₂, hx⟩ := hx
    have hx := ExtendedExtranonces.From.made rfl rfl hx
    intro u hu
    cases hu
    constructor
    case factory =>
      rw [hpre]
      have hx' := hx.next (n := size.toNat)
      rw [hn] at hx'
      exact ⟨_, rfl, hx'⟩
    case channel =>
      intro k c hc
      rw [Map.lookup_insert_ite] at hc
      split at hc
      case isFalse hne => exact absurd (hk k c hc) hne
      case isTrue =>
        cases hc
        rw [hpre, hpre]
        exact hC.extranonce.next _ _ size.toNat p hx (by rw [hn])

end Step

-- A step that neither takes an open request nor answers one.
structure Quiet (s s' : ChannelManager C) (messages : List RouteMessageTo) : Prop where
  pending  : s'.pendingChannels = s.pendingChannels
  channels : ∀ k, s'.extendedChannels.lookup k = none ↔ s.extendedChannels.lookup k = none
  upstream : ∀ u', s'.upstreamExtendedChannel = some u' → ∃ u,
    s.upstreamExtendedChannel = some u ∧
      C.channel.getExtranoncePrefix u' = C.channel.getExtranoncePrefix u
  messages : ∀ o ∈ messages, o.isOpen = false ∧ o.opened = none

theorem quiet_of_eq (hp : s'.pendingChannels = s.pendingChannels)
    (hs : s'.extendedChannels = s.extendedChannels)
    (hu : s'.upstreamExtendedChannel = s.upstreamExtendedChannel)
    (hm : ∀ o ∈ messages, o.isOpen = false ∧ o.opened = none) : s.Quiet s' messages where
  pending       := hp
  channels k    := by rw [hs]
  upstream u hu' := ⟨u, hu ▸ hu', rfl⟩
  messages      := hm

theorem lookup_judged {m : SubmitSharesExtended} {c : C.Channel} {k : ChannelId}
    (hc : s.extendedChannels.lookup m.channelId = some c) :
    (s.judged m c).extendedChannels.lookup k = none ↔ s.extendedChannels.lookup k = none := by
  rw [judged, Map.lookup_insert_ite]
  split
  case isTrue hk  => simp [show s.extendedChannels.lookup k = some c from hk ▸ hc]
  case isFalse hk => rfl

theorem quiet_downstream {m : Mining} (ho : ∀ m', m ≠ .openExtendedMiningChannel m')
    (h : s.Handles m s' messages) : s.Quiet s' messages := by
  cases h with
  | derived    => exact absurd rfl (ho _)
  | unanswered => exact absurd rfl (ho _)
  | requested  => exact absurd rfl (ho _)
  | unknown    => exact quiet_of_eq rfl rfl rfl (by simp)
  | updated    => exact quiet_of_eq rfl rfl rfl (by simp [RouteMessageTo.isOpen, RouteMessageTo.opened])
  | closed     => exact quiet_of_eq rfl rfl rfl (by simp [RouteMessageTo.isOpen, RouteMessageTo.opened])
  | dropped    => exact quiet_of_eq rfl rfl rfl (by simp)
  | invalid hc => exact ⟨rfl, fun _ => lookup_judged hc, fun u hu => ⟨u, hu, rfl⟩, by simp⟩
  | aggregated hc _ _ _ _ hf | nonAggregated hc _ _ hf =>
    obtain ⟨_, _, rfl, rfl⟩ := hf
    refine ⟨rfl, fun _ => lookup_judged hc, fun u hu => ⟨u, hu, rfl⟩, ?_⟩
    simp [RouteMessageTo.isOpen, RouteMessageTo.opened]

theorem quiet_updateChannels {channelId : ChannelId} {f g : C.Channel → C.Channel}
    (hm : s.mode = .aggregated)
    (hf : ∀ c, C.channel.getExtranoncePrefix (f c) = C.channel.getExtranoncePrefix c)
    (hq : ∀ o ∈ messages, o.isOpen = false ∧ o.opened = none) :
    s.Quiet (s.updateChannels channelId f g) messages := by
  rw [updateChannels, if_pos hm]
  refine ⟨rfl, fun k => ?_, fun u' hu' => ?_, hq⟩
  · rw [Map.lookup_mapValues, Option.map_eq_none_iff]
  · obtain ⟨u, hu, rfl⟩ := Option.map_eq_some_iff.mp hu'
    exact ⟨u, hu, hf u⟩

theorem quiet_upstream (hC : C.Lawful) {m : Mining} (hm : s.mode = .aggregated)
    (ho : ∀ m', m ≠ .openExtendedMiningChannelSuccess m') (h : s.Follows m s' messages) :
    s.Quiet s' messages := by
  cases h with
  | aggregated       => exact absurd rfl (ho _)
  | adjusted _ hm'   => exact absurd hm hm'
  | unadjusted _ hm' => exact absurd hm hm'
  | erased hm'       => exact absurd hm hm'
  | closed           => exact ⟨rfl, fun _ => Iff.rfl, fun _ hu => (nomatch hu), by simp⟩
  | target =>
    refine quiet_updateChannels hm (fun c => (hC.channel.setTarget c _).left.extranoncePrefix) ?_
    simp [RouteMessageTo.isOpen, RouteMessageTo.opened]
  | job =>
    refine quiet_updateChannels hm (fun c => (hC.channel.jobSame c _).extranoncePrefix) ?_
    split <;> simp [RouteMessageTo.isOpen, RouteMessageTo.opened]
  | prevHash =>
    refine quiet_updateChannels hm (fun c => (hC.channel.prevHashSame c _).extranoncePrefix) ?_
    simp [RouteMessageTo.isOpen, RouteMessageTo.opened]
  | ignored _ he =>
    refine quiet_of_eq rfl rfl rfl fun o h => ?_
    obtain ⟨e, rfl⟩ := he o h
    exact ⟨rfl, rfl⟩

-- The prefix of the miner whose request made the upstream give its channel.
def firstPrefix (C : TranslatorCore) (m : OpenExtendedMiningChannelSuccess) (p : PendingChannel) :
    Option B032 :=
  (extranonceFactory (C := C) m p.downstreamExtranonceLen "").toOption.bind fun factory =>
    let size := UInt16.ofNat (C.extranonce.getRange2Len factory)
    (C.extranonce.nextPrefixExtended factory size.toNat).1.toOption

theorem extranonceFactory_toOption {m : OpenExtendedMiningChannelSuccess} {n : ℕ} {msg msg' : String} :
    (extranonceFactory m n msg : Except _ C.Extranonce).toOption =
      (extranonceFactory m n msg').toOption := by
  rw [extranonceFactory, extranonceFactory]
  cases proxyExtranoncePrefixLen m.extranonceSize.toNat n with
  | error => rfl
  | ok len =>
    simp only [bind, Except.bind]
    cases (C.extranonce.fromUpstreamExtranonce m.extranoncePrefix (0, m.extranoncePrefix.1.length)
      (m.extranoncePrefix.1.length, m.extranoncePrefix.1.length + len)
      (m.extranoncePrefix.1.length + len, m.extranoncePrefix.1.length + len + n)) <;> rfl

-- The manager takes the channel of the upstream exactly when there is a prefix for the miner.
theorem returns_openAggregated {m : OpenExtendedMiningChannelSuccess} {p : PendingChannel} :
    Returns (s.openAggregated m p) ↔ (firstPrefix C m p).isSome := by
  have hf : (extranonceFactory m p.downstreamExtranonceLen "" : Except _ C.Extranonce).toOption =
      (extranonceFactory m p.downstreamExtranonceLen
        "Failed to create ExtendedExtranonce from upstream extranonce").toOption :=
    extranonceFactory_toOption
  rw [openAggregated, firstPrefix, hf]
  simp only [Returns, bind_eq_ok, expect_eq_ok, Option.isSome_iff_exists, Option.bind_eq_some_iff,
    toOption_eq_some]
  constructor
  case mp =>
    rintro ⟨_, factory, hf, p, hp, _⟩
    exact ⟨p, factory, hf, hp⟩
  case mpr =>
    rintro ⟨p, factory, hf, hp⟩
    exact ⟨_, factory, hf, p, hp, rfl⟩

end ChannelManager

namespace System

open ChannelManager

variable {s s' : System C} {a : Action} {tr : List (Machine.Event (System C) Action)}

-- Requests are told apart by their ids, which the SV1 server may use again.
def asked (s : System C) (i : RequestId) : ℕ :=
  s.requests.countP (·.requestId = i)

def answered (s : System C) (i : RequestId) : ℕ :=
  s.sent.countP (·.opened.any (·.requestId = i))

def waiting (s : System C) (i : RequestId) : ℕ :=
  (s.manager.pendingChannels.lookup i.toNat).isSome.toNat

-- The upstream is asked for one channel, each request is answered or waits for that channel, and the
-- answers and the channels of the miners go on from its prefix.
structure Aggregates (s : System C) : Prop where
  once     : s.sent.countP RouteMessageTo.isOpen ≤ 1
  answered : ∀ i, s.asked i = s.answered i + s.waiting i
  derived  : ∀ u, s.manager.upstreamExtendedChannel = some u → ∀ o ∈ s.sent, ∀ m, o.opened = some m →
    C.channel.getExtranoncePrefix u <+: m.extranoncePrefix.1
  inUse    : ∀ u, s.manager.upstreamExtendedChannel = some u → ∀ k c,
    s.manager.extendedChannels.lookup k = some c →
      C.channel.getExtranoncePrefix u <+: C.channel.getExtranoncePrefix c

-- The step keeps this, and once the upstream has given its channel no request waits for it.
def Served (e : Machine.Event (System C) Action) : Prop :=
  e.post.Aggregates ∧ ∀ m, e.act = .upstream (.openExtendedMiningChannelSuccess m) →
    e.post.manager.pendingChannels.lookup m.requestId.toNat = none

-- A request comes before the first request to the upstream or after its answer, and there is a prefix
-- for the miner.
def Orderly (s : System C) : Action → Prop
  | .downstream (.openExtendedMiningChannel m) =>
    (s.manager.upstreamExtendedChannel.isSome → (s.manager.prefixFor m).isSome) ∧
      (s.manager.upstreamExtendedChannel.isNone → s.sent.countP RouteMessageTo.isOpen = 0 ∧
        (translatorIdentity m.userIdentity).utf8ByteSize ≤ 255)
  | .upstream (.openExtendedMiningChannelSuccess m) =>
    ∀ p ∈ s.manager.pendingChannels.lookup m.requestId.toNat, (firstPrefix C m p).isSome
  | _ => True

instance : DecidablePred s.Orderly := by
  intro a
  induction a using Action.casesOn with
  | downstream m =>
    induction m using Mining.casesOn with
    | openExtendedMiningChannel m =>
      exact inferInstanceAs <| Decidable <|
        (s.manager.upstreamExtendedChannel.isSome → (s.manager.prefixFor m).isSome) ∧
          (s.manager.upstreamExtendedChannel.isNone → s.sent.countP RouteMessageTo.isOpen = 0 ∧
            (translatorIdentity m.userIdentity).utf8ByteSize ≤ 255)
    | _ => exact inferInstanceAs (Decidable True)
  | upstream m =>
    induction m using Mining.casesOn with
    | openExtendedMiningChannelSuccess m =>
      exact inferInstanceAs <| Decidable <|
        ∀ p ∈ s.manager.pendingChannels.lookup m.requestId.toNat, (firstPrefix C m p).isSome
    | _ => exact inferInstanceAs (Decidable True)
  | _ => exact inferInstanceAs (Decidable True)

-- Nothing has come of an open request yet.
structure Fresh (s : System C) : Prop where
  upstream : s.manager.upstreamExtendedChannel = none
  channels : ∀ k, s.manager.extendedChannels.lookup k = none
  sent     : ∀ o ∈ s.sent, o.opened = none

-- What holds in aggregated mode as long as the requests are orderly: at most one request waits, and
-- while it does nothing has come of it.
structure Aggregating (s : System C) : Prop where
  mode       : s.manager.mode = .aggregated
  aggregates : s.Aggregates
  extended   : s.manager.Extended
  unasked    : s.sent.countP RouteMessageTo.isOpen = 0 →
    s.Fresh ∧ ∀ i, s.manager.pendingChannels.lookup i = none
  pending    : ∀ i p, s.manager.pendingChannels.lookup i = some p →
    s.Fresh ∧ ∀ j, j ≠ i → s.manager.pendingChannels.lookup j = none

section Step

variable {manager : ChannelManager C} {messages : List RouteMessageTo}

theorem countP_quiet {p : RouteMessageTo → Bool} (h : ∀ o ∈ messages, p o = false) :
    (s.sent ++ messages).countP p = s.sent.countP p := by
  have hz : messages.countP p = 0 := List.countP_eq_zero.mpr fun o ho => by simp [h o ho]
  rw [List.countP_append, hz, Nat.add_zero]

theorem fresh_quiet (h : s.Fresh) (hq : s.manager.Quiet manager messages)
    (hm : s'.manager = manager) (hs : s'.sent = s.sent ++ messages) : s'.Fresh where
  upstream   := by
    rw [hm, Option.eq_none_iff_forall_ne_some]
    intro u' hu'
    obtain ⟨u, hu, _⟩ := hq.upstream u' hu'
    exact Option.some_ne_none u (hu.symm.trans h.upstream)
  channels k := by rw [hm, hq.channels, h.channels]
  sent o ho  := by
    rw [hs] at ho
    exact (List.mem_append.mp ho).elim (h.sent o) fun ho => (hq.messages o ho).right

theorem aggregating_quiet (h : s.Aggregating) (hm : s'.manager = manager)
    (hs : s'.sent = s.sent ++ messages) (hr : s'.requests = s.requests)
    (hq : s.manager.Quiet manager messages) (he : manager.Extended)
    (hd : manager.mode = .aggregated) : s'.Aggregating := by
  have hp : s'.manager.pendingChannels = s.manager.pendingChannels := hm ▸ hq.pending
  have ho : s'.sent.countP RouteMessageTo.isOpen = s.sent.countP RouteMessageTo.isOpen := by
    rw [hs, countP_quiet fun o ho => (hq.messages o ho).left]
  constructor
  case mode => rw [hm, hd]
  case extended => rwa [hm]
  case unasked =>
    intro h₀
    obtain ⟨hf, hn⟩ := h.unasked (ho ▸ h₀)
    exact ⟨fresh_quiet hf hq hm hs, hp ▸ hn⟩
  case pending =>
    intro i p hi
    obtain ⟨hf, hn⟩ := h.pending i p (hp ▸ hi)
    exact ⟨fresh_quiet hf hq hm hs, hp ▸ hn⟩
  case aggregates =>
    constructor
    case once => exact ho ▸ h.aggregates.once
    case answered =>
      intro i
      have ha : s'.answered i = s.answered i := by
        rw [answered, hs, countP_quiet fun o ho => by rw [(hq.messages o ho).right]; rfl, answered]
      rw [asked, hr, ha, waiting, hp]
      exact h.aggregates.answered i
    case derived =>
      intro u' hu' o ho m hm'
      obtain ⟨u, hu, hpre⟩ := hq.upstream u' (hm ▸ hu')
      rw [hs] at ho
      rw [hpre]
      cases List.mem_append.mp ho with
      | inl ho => exact h.aggregates.derived u hu o ho m hm'
      | inr ho => cases (hq.messages o ho).right.symm.trans hm'
    case inUse =>
      intro u' hu' k c hc
      rw [hm] at hu' hc
      exact (he u' hu').channel k c hc

theorem aggregating_of_eq (h : s.Aggregating) (hm : s'.manager = s.manager) (hs : s'.sent = s.sent)
    (hr : s'.requests = s.requests) : s'.Aggregating := by
  have hq : s.manager.Quiet s.manager [] := quiet_of_eq rfl rfl rfl (by simp)
  exact aggregating_quiet h hm (by simp [hs]) hr hq h.extended h.mode

theorem answered_append {o : RouteMessageTo} {m : OpenExtendedMiningChannelSuccess} {i : RequestId}
    (ho : o.opened = some m) (hq : ∀ o ∈ messages, o.opened = none)
    (hs : s'.sent = s.sent ++ o :: messages) :
    s'.answered i = s.answered i + if m.requestId = i then 1 else 0 := by
  have hz : messages.countP (fun o => o.opened.any (·.requestId = i)) = 0 :=
    List.countP_eq_zero.mpr fun o ho => by simp [hq o ho]
  rw [answered, hs, List.countP_append, List.countP_cons, hz, ho]
  simp [answered]

theorem asked_append {m : OpenExtendedMiningChannel} {i : RequestId}
    (hr : s'.requests = s.requests ++ [m]) :
    s'.asked i = s.asked i + if m.requestId = i then 1 else 0 := by
  rw [asked, hr, List.countP_append, List.countP_singleton]
  simp [asked]

-- A request that is answered at once, behind the channel of the upstream.
theorem aggregating_derived {m : OpenExtendedMiningChannel} {o : RouteMessageTo}
    {m' : OpenExtendedMiningChannelSuccess} {u : C.Channel} (h : s.Aggregating)
    (hm : s'.manager = manager) (hs : s'.sent = s.sent ++ o :: messages)
    (hr : s'.requests = s.requests ++ [m]) (hu : s.manager.upstreamExtendedChannel = some u)
    (hu' : manager.upstreamExtendedChannel = some u)
    (hp : manager.pendingChannels = s.manager.pendingChannels)
    (hd : manager.mode = .aggregated) (he : manager.Extended)
    (ho : o.isOpen = false ∧ o.opened = some m') (hi : m'.requestId = m.requestId)
    (hpre : C.channel.getExtranoncePrefix u <+: m'.extranoncePrefix.1)
    (hq : ∀ o ∈ messages, o.isOpen = false ∧ o.opened = none) : s'.Aggregating := by
  have hf : ¬s.Fresh := fun hf => Option.some_ne_none u (hu.symm.trans hf.upstream)
  have hc : s'.sent.countP RouteMessageTo.isOpen = s.sent.countP RouteMessageTo.isOpen := by
    rw [hs, countP_quiet]
    intro o' ho'
    cases List.mem_cons.mp ho' with
    | inl heq => exact heq ▸ ho.left
    | inr hmem => exact (hq o' hmem).left
  have hn (i : DownstreamId) : s.manager.pendingChannels.lookup i = none := by
    by_contra hw
    obtain ⟨p, hw⟩ := Option.ne_none_iff_exists'.mp hw
    exact hf (h.pending i p hw).left
  constructor
  case mode => rw [hm, hd]
  case extended => rwa [hm]
  case unasked => exact fun h₀ => absurd (h.unasked (hc ▸ h₀)).left hf
  case pending =>
    intro i p hi
    rw [hm, hp, hn] at hi
    cases hi
  case aggregates =>
    constructor
    case once => exact hc ▸ h.aggregates.once
    case answered =>
      intro i
      have ha := h.aggregates.answered i
      rw [asked_append hr, answered_append ho.right (fun o ho => (hq o ho).right) hs, waiting, hm,
        hp, hi, ha, waiting]
      omega
    case derived =>
      intro v hv o' ho' m'' hm''
      rw [hm, hu'] at hv
      cases hv
      rw [hs] at ho'
      rcases List.mem_append.mp ho' with ho' | ho'
      · exact h.aggregates.derived u hu o' ho' m'' hm''
      · rcases List.mem_cons.mp ho' with rfl | ho'
        · cases ho.right.symm.trans hm''
          exact hpre
        · cases (hq o' ho').right.symm.trans hm''
    case inUse =>
      intro v hv k c hc
      rw [hm] at hv hc
      exact (he v hv).channel k c hc

-- The first request, with which the upstream is asked for its channel.
theorem aggregating_requested {m : OpenExtendedMiningChannel} {p : PendingChannel}
    {o : RouteMessageTo} (h : s.Aggregating) (hm : s'.manager = manager)
    (hs : s'.sent = s.sent ++ [o]) (hr : s'.requests = s.requests ++ [m])
    (h₀ : s.sent.countP RouteMessageTo.isOpen = 0)
    (hu : manager.upstreamExtendedChannel = s.manager.upstreamExtendedChannel)
    (hc : manager.extendedChannels = s.manager.extendedChannels)
    (hp : manager.pendingChannels = s.manager.pendingChannels.insert m.requestId.toNat p)
    (hd : manager.mode = .aggregated) (ho : o.isOpen ∧ o.opened = none) : s'.Aggregating := by
  obtain ⟨hf, hn⟩ := h.unasked h₀
  have hu' : s'.manager.upstreamExtendedChannel = none := by rw [hm, hu, hf.upstream]
  have h₁ : s'.sent.countP RouteMessageTo.isOpen = 1 := by
    rw [hs, List.countP_append, h₀, List.countP_singleton, if_pos ho.left]
  have hf' : s'.Fresh := by
    refine ⟨hu', fun k => by rw [hm, hc, hf.channels], fun o' ho' => ?_⟩
    rw [hs, List.mem_append, List.mem_singleton] at ho'
    rcases ho' with ho' | rfl
    · exact hf.sent o' ho'
    · exact ho.right
  have hl (i : DownstreamId) : s'.manager.pendingChannels.lookup i =
      if i = m.requestId.toNat then some p else none := by
    rw [hm, hp, Map.lookup_insert_ite, hn]
  constructor
  case mode => rw [hm, hd]
  case extended => exact fun u hu => absurd (hu'.symm.trans hu) (Option.some_ne_none u).symm
  case unasked => exact fun h₀' => absurd (h₁.symm.trans h₀') Nat.one_ne_zero
  case pending =>
    intro i q hi
    refine ⟨hf', fun j hj => ?_⟩
    rw [hl] at hi ⊢
    split at hi
    case isTrue hk  => rw [if_neg (hk ▸ hj)]
    case isFalse hk => cases hi
  case aggregates =>
    constructor
    case once => exact h₁.le
    case derived =>
      exact fun u hu => absurd (hu'.symm.trans hu) (Option.some_ne_none u).symm
    case inUse =>
      exact fun u hu => absurd (hu'.symm.trans hu) (Option.some_ne_none u).symm
    case answered =>
      intro i
      have ha := h.aggregates.answered i
      have hw : s'.answered i = s.answered i := by
        rw [answered, hs, countP_quiet (by simp [ho.right]), answered]
      rw [asked_append hr, hw, ha, waiting, waiting, hl, hn]
      simp only [UInt32.toNat_inj, eq_comm]
      split <;> rfl

-- The upstream has given its channel to the request that waits for it.
theorem aggregating_opened {m : OpenExtendedMiningChannelSuccess} {p : PendingChannel}
    {o : RouteMessageTo} {m' : OpenExtendedMiningChannelSuccess} (h : s.Aggregating)
    (hm : s'.manager = manager) (hs : s'.sent = s.sent ++ [o]) (hr : s'.requests = s.requests)
    (hw : s.manager.pendingChannels.lookup m.requestId.toNat = some p)
    (hp : manager.pendingChannels = s.manager.pendingChannels.erase m.requestId.toNat)
    (hd : manager.mode = .aggregated) (he : manager.Extended)
    (ho : o.isOpen = false ∧ o.opened = some m') (hi : m'.requestId = m.requestId)
    (hpre : ∀ u, manager.upstreamExtendedChannel = some u →
      C.channel.getExtranoncePrefix u <+: m'.extranoncePrefix.1) : s'.Aggregating := by
  obtain ⟨hf, hn⟩ := h.pending _ p hw
  have hc : s'.sent.countP RouteMessageTo.isOpen = s.sent.countP RouteMessageTo.isOpen := by
    rw [hs, countP_quiet (by simp [ho.left])]
  have hl (i : DownstreamId) : s'.manager.pendingChannels.lookup i = none := by
    rw [hm, hp, Map.lookup_erase_ite]
    split
    case isTrue     => rfl
    case isFalse hk => exact hn i hk
  constructor
  case mode => rw [hm, hd]
  case extended => rwa [hm]
  case unasked =>
    intro h₀
    rw [(h.unasked (hc ▸ h₀)).right] at hw
    cases hw
  case pending =>
    intro i q hi
    rw [hl] at hi
    cases hi
  case aggregates =>
    constructor
    case once => exact hc ▸ h.aggregates.once
    case derived =>
      intro u hu o' ho' m'' hm''
      rw [hs, List.mem_append, List.mem_singleton] at ho'
      rcases ho' with ho' | rfl
      · cases (hf.sent o' ho').symm.trans hm''
      · cases ho.right.symm.trans hm''
        exact hpre u (hm ▸ hu)
    case inUse =>
      intro u hu k c hc
      rw [hm] at hu hc
      exact (he u hu).channel k c hc
    case answered =>
      intro i
      have ha := h.aggregates.answered i
      have hw' : s.waiting i = if m.requestId = i then 1 else 0 := by
        rw [waiting]
        split
        case isTrue hk  => rw [← hk, hw]; rfl
        case isFalse hk => rw [hn _ fun h => hk (UInt32.toNat_inj.mp h.symm)]; rfl
      rw [answered_append ho.right (by simp) hs, asked, hr, waiting, hl, hi]
      rw [asked, hw'] at ha
      simpa using ha

theorem openRequest_eq_nil {m : Mining} (h : ∀ m', m ≠ .openExtendedMiningChannel m') :
    openRequest m = [] := by
  cases m with
  | openExtendedMiningChannel m => exact absurd rfl (h m)
  | _                           => rfl

theorem quiet_copyJob {u c : C.Channel} {channelId : ChannelId} :
    ∀ o ∈ (copyJob u c channelId).2, o.isOpen = false ∧ o.opened = none := by
  rw [copyJob.eq_def]
  split <;> simp [RouteMessageTo.isOpen, RouteMessageTo.opened]

theorem isSome_prefixFor {m : OpenExtendedMiningChannel} {x x' : C.Extranonce} {p : B032}
    (hf : s.manager.extranoncePrefixFactory = some x)
    (hn : C.extranonce.nextPrefixExtended x m.minExtranonceSize.toNat = (.ok p, x'))
    (hl : m.minExtranonceSize.toNat ≤ C.extranonce.getRange2Len x') :
    (s.manager.prefixFor m).isSome := by
  simp [prefixFor, hf, hn, hl, Except.toOption]

theorem prefixFor_unanswered {m : OpenExtendedMiningChannel} {x x' : C.Extranonce}
    {r : Except ExtendedExtranonceError B032} (hf : s.manager.extranoncePrefixFactory = some x)
    (hn : C.extranonce.nextPrefixExtended x m.minExtranonceSize.toNat = (r, x'))
    (hl : ∀ p, r = .ok p → C.extranonce.getRange2Len x' < m.minExtranonceSize.toNat) :
    s.manager.prefixFor m = none := by
  cases r with
  | error e => simp [prefixFor, hf, hn, Except.toOption]
  | ok p    => simp [prefixFor, hf, hn, Nat.not_le.mpr (hl p rfl)]

-- An orderly request does not stop the manager.
theorem returns_orderly {m : OpenExtendedMiningChannel} (h : s.Aggregating)
    (ho : s.Orderly (.downstream (.openExtendedMiningChannel m))) :
    Returns (s.manager.handleDownstreamMessage (.openExtendedMiningChannel m)) := by
  rw [handleDownstreamMessage, handleOpenExtendedMiningChannel, if_pos h.mode]
  cases hu : s.manager.upstreamExtendedChannel with
  | some u =>
    obtain ⟨x, hx, _⟩ := (h.extended u hu).factory
    simp only [deriveChannel, hx, expect, Option.elim_some, returns_bind, Except.ok.injEq,
      exists_eq_left']
    split
    · exact returns_pure
    · split <;> exact returns_pure
  | none =>
    obtain ⟨_, hi⟩ := ho.right (by rw [hu, Option.isNone_none])
    exact returns_bind.mpr ⟨_, expect_eq_ok.mpr (if_pos hi), returns_pure⟩

-- A channel of the upstream for which there is a prefix does not stop the manager.
theorem returns_success {m : OpenExtendedMiningChannelSuccess} {p : PendingChannel}
    (h : s.Aggregating) (hp : s.manager.pendingChannels.lookup m.requestId.toNat = some p) :
    Returns (s.manager.handleMiningMessageFromServer (.openExtendedMiningChannelSuccess m)) ↔
      (firstPrefix C m p).isSome := by
  rw [handleMiningMessageFromServer, handleOpenExtendedMiningChannelSuccess]
  simp only [hp, orErr, Option.elim_some, returns_bind, Except.ok.injEq, exists_eq_left', if_pos h.mode]
  exact returns_openAggregated

theorem aggregating_downstream (hC : C.Lawful) {m : Mining} (h : s.Aggregating)
    (ho : s.Orderly (.downstream m)) (hm : s.manager.Handles m manager messages)
    (hs : s'.manager = manager) (hs' : s'.sent = s.sent ++ messages)
    (hr : s'.requests = s.requests ++ openRequest m) : s'.Aggregating := by
  have he := extended_downstream hC h.extended hm
  by_cases hq : ∀ m', m ≠ .openExtendedMiningChannel m'
  case pos =>
    rw [openRequest_eq_nil hq, List.append_nil] at hr
    exact aggregating_quiet h hs hs' hr (quiet_downstream hq hm) he
      ((mode_downstream hm).trans h.mode)
  case neg =>
    obtain ⟨m, rfl⟩ := not_forall_not.mp hq
    cases hm with
    | derived _ hu hf hn hl =>
      have hp := (extends_derived hC (h.extended _ hu) hf hn).left
      exact aggregating_derived h hs hs' hr hu hu rfl h.mode he ⟨rfl, rfl⟩ rfl hp quiet_copyJob
    | unanswered _ hu hf hn hl =>
      have hp := ho.left (by rw [hu, Option.isSome_some])
      rw [prefixFor_unanswered hf hn hl] at hp
      cases hp
    | requested hu =>
      have ho := ho.right (by rw [(hu h.mode).left, Option.isNone_none])
      exact aggregating_requested h hs hs' hr ho.left rfl rfl rfl h.mode ⟨rfl, rfl⟩
    | dropped hd => exact absurd rfl (hd _)

theorem aggregating_upstream (hC : C.Lawful) {m : Mining} (h : s.Aggregating)
    (hm : s.manager.Follows m manager messages) (hs : s'.manager = manager)
    (hs' : s'.sent = s.sent ++ messages) (hr : s'.requests = s.requests) : s'.Aggregating := by
  have he : manager.Extended := by
    refine extended_upstream hC h.mode h.extended (fun m' hm' hp k c hc => ?_) hm
    obtain ⟨p, hp⟩ := hp
    rw [(h.pending _ p hp).left.channels] at hc
    cases hc
  by_cases hq : ∀ m', m ≠ .openExtendedMiningChannelSuccess m'
  case pos =>
    exact aggregating_quiet h hs hs' hr (quiet_upstream hC h.mode hq hm) he
      ((mode_upstream hm).trans h.mode)
  case neg =>
    obtain ⟨m, rfl⟩ := not_forall_not.mp hq
    cases hm with
    | adjusted _ hm'   => exact absurd h.mode hm'
    | unadjusted _ hm' => exact absurd h.mode hm'
    | ignored hd       => exact absurd rfl (hd _)
    | aggregated hp =>
      refine aggregating_opened h hs hs' hr hp rfl h.mode he ⟨rfl, rfl⟩ rfl fun u hu => ?_
      have hc := (he u hu).channel m.channelId _ (AList.lookup_insert _)
      rwa [clientChannel, hC.channel.newPrefix] at hc

theorem aggregating_new (hm : s.manager = .new .aggregated) (hr : s.requests = [])
    (hs : s.sent = []) : s.Aggregating where
  mode         := by rw [hm]; rfl
  extended u h := by
    rw [hm] at h
    cases h
  unasked _    := by
    rw [hm]
    exact ⟨⟨by rw [hm]; rfl, fun _ => by rw [hm]; rfl, by simp [hs]⟩, fun _ => rfl⟩
  pending i p h := by
    rw [hm] at h
    cases h
  aggregates   := by
    constructor
    case once       => simp [hs]
    case answered   => simp [asked, answered, waiting, hr, hs, hm, ChannelManager.new]
    case derived    => simp [hs]
    case inUse   => simp [hm, ChannelManager.new]

theorem aggregating_step (hC : C.Lawful) (h : s.Aggregating) (ho : s.Orderly a)
    (hst : s.step cfg a = some s') : s'.Aggregating := by
  cases (moves_of_step hst).right with
  | downstream hm   => exact aggregating_downstream hC h ho hm rfl rfl rfl
  | upstream hm     => exact aggregating_upstream hC h hm rfl rfl rfl
  | upstreamFails   => exact aggregating_of_eq h rfl rfl rfl
  | extensionsFails => exact aggregating_of_eq h rfl rfl rfl
  | fallback        =>
    exact aggregating_new (congrArg ChannelManager.new h.mode) rfl rfl
  | extensions hm =>
    refine aggregating_quiet h rfl rfl rfl (quiet_of_eq rfl rfl rfl fun o ho => ?_) ?_ h.mode
    case refine_2 => exact extended_of_eq h.extended rfl rfl rfl
    obtain ⟨m', rfl⟩ := hm o ho
    exact ⟨rfl, rfl⟩
  | @downstreamFails m _ hr =>
    by_cases hq : ∀ m', m ≠ .openExtendedMiningChannel m'
    case pos => exact aggregating_of_eq h rfl rfl (by simp [openRequest_eq_nil hq])
    case neg =>
      obtain ⟨m, rfl⟩ := not_forall_not.mp hq
      obtain ⟨r, hr'⟩ := returns_orderly h ho
      cases hr.symm.trans hr'

-- A request of which nothing is left is not answered.
theorem not_aggregates {m : OpenExtendedMiningChannel} (h : s.Aggregates)
    (hr : s'.requests = s.requests ++ [m]) (hs : s'.sent = s.sent)
    (hp : s'.manager.pendingChannels = s.manager.pendingChannels) : ¬s'.Aggregates := by
  intro h'
  have ha := h.answered m.requestId
  have ha' := h'.answered m.requestId
  rw [asked_append hr, if_pos rfl, answered, hs, waiting, hp] at ha'
  rw [answered, waiting] at ha
  omega

theorem orderly_of_aggregates {m : OpenExtendedMiningChannel} (h : s.Aggregating)
    (h' : s'.Aggregates)
    (hst : s.step cfg (.downstream (.openExtendedMiningChannel m)) = some s') :
    s.Orderly (.downstream (.openExtendedMiningChannel m)) := by
  cases (moves_of_step hst).right with
  | downstreamFails => exact absurd h' (not_aggregates h.aggregates rfl rfl rfl)
  | downstream hm =>
    cases hm with
    | dropped hd => exact absurd rfl (hd _)
    | derived _ hu hf hn hl =>
      exact ⟨fun _ => isSome_prefixFor hf hn hl, fun hn => by simp [hu] at hn⟩
    | unanswered =>
      exact absurd h' (not_aggregates h.aggregates rfl (List.append_nil _) rfl)
    | requested hu =>
      obtain ⟨hu, hi⟩ := hu h.mode
      refine ⟨fun hs => by simp [hu] at hs, fun _ => ⟨?_, hi⟩⟩
      have ho := h'.once
      simp only [requestUpstreamChannel, List.countP_append, List.countP_singleton,
        RouteMessageTo.isOpen, if_true] at ho
      omega

theorem pending_success {m : OpenExtendedMiningChannelSuccess} (h : s.Aggregating)
    (hst : s.step cfg (.upstream (.openExtendedMiningChannelSuccess m)) = some s') :
    s'.manager.pendingChannels.lookup m.requestId.toNat = none ↔
      s.Orderly (.upstream (.openExtendedMiningChannelSuccess m)) := by
  cases hp : s.manager.pendingChannels.lookup m.requestId.toNat with
  | none =>
    have ho : s.Orderly (.upstream (.openExtendedMiningChannelSuccess m)) := by simp [Orderly, hp]
    refine iff_of_true ?_ ho
    cases (moves_of_step hst).right with
    | upstreamFails => exact hp
    | upstream hm   =>
      cases hm with
      | ignored hd                                     => exact absurd rfl (hd _)
      | aggregated hp' | adjusted hp' | unadjusted hp' => cases hp.symm.trans hp'
  | some p =>
    have ho : s.Orderly (.upstream (.openExtendedMiningChannelSuccess m)) ↔
        (firstPrefix C m p).isSome := by
      simp [Orderly, hp]
    rw [ho, ← returns_success h hp]
    obtain ⟨hs, hm⟩ := moves_of_step hst
    rw [step, hs] at hst
    cases hst
    rw [act]
    cases hr : s.manager.handleMiningMessageFromServer (.openExtendedMiningChannelSuccess m) with
    | error fault =>
      refine iff_of_false (fun hn => ?_) ?_
      · cases hp.symm.trans hn
      · rintro ⟨r, hr⟩
        cases hr
    | ok r =>
      refine iff_of_true ?_ ⟨r, rfl⟩
      obtain ⟨manager, messages⟩ := r
      cases follows_of_ok hr with
      | ignored hd                          => exact absurd rfl (hd _)
      | aggregated | adjusted | unadjusted => exact AList.lookup_erase _ _

-- A step serves the miners exactly when it is orderly.
theorem served_step (hC : C.Lawful) (h : s.Aggregating) (hst : s.step cfg a = some s') :
    Served ⟨s, a, s'⟩ ↔ s.Orderly a := by
  constructor
  case mp =>
    rintro ⟨h', hp⟩
    cases a with
    | downstream m =>
      cases m with
      | openExtendedMiningChannel m => exact orderly_of_aggregates h h' hst
      | _                           => trivial
    | upstream m =>
      cases m with
      | openExtendedMiningChannelSuccess m => exact (pending_success h hst).mp (hp m rfl)
      | _                                  => trivial
    | _ => trivial
  case mpr =>
    intro ho
    refine ⟨(aggregating_step hC h ho hst).aggregates, fun m hm => ?_⟩
    subst hm
    exact (pending_success h hst).mpr ho

end Step

-- No step of a run fails the miners exactly when all of them are orderly.
theorem served_iff_orderly (hC : C.Lawful) (r : (machine C cfg .aggregated).Run tr s) :
    (∀ e ∈ tr, Served e) ↔ Machine.Along Orderly tr := by
  refine r.forall_iff_along (I := Aggregating) (fun s h => ?_) (fun s a s' hi hst => ?_)
    (fun s a s' hi ho hst => ?_)
  · exact aggregating_new h.manager h.requests h.sent
  · exact served_step hC hi hst
  · exact aggregating_step hC hi ho hst

end System

section Sample

open Sample

-- The second miner comes before the upstream has given its channel to the first one.
def twice : List Action :=
  [openChannel 1, openChannel 2]

theorem twice_exec :
    ((machine reference config .aggregated).exec (.start .aggregated) twice).isSome ∧
    ((machine reference config .aggregated).trace (.start .aggregated) twice).any
      fun e => e.post.sent.countP RouteMessageTo.isOpen = 2 := by
  decide +kernel

theorem not_served : ¬∀ tr s, (machine reference config .aggregated).Run tr s →
    ∀ e ∈ tr, System.Served e := by
  intro h
  obtain ⟨hexec, hasks⟩ := twice_exec
  obtain ⟨s, hs⟩ := Option.isSome_iff_exists.mp hexec
  obtain ⟨e, he, hc⟩ := List.any_eq_true.mp hasks
  have ho := (h _ _ (Machine.Run.of_exec System.start_init hs) e he).left.once
  rw [of_decide_eq_true hc] at ho
  exact absurd ho (by decide)

def once : List Action :=
  [openChannel 1, opened 1 1 8 [7], openChannel 2]

theorem once_exec :
    (((machine reference config .aggregated).exec (.start .aggregated) once).any
      fun s => s.answered 1 = 1 ∧ s.answered 2 = 1) ∧
    ((machine reference config .aggregated).trace (.start .aggregated) once).all
      fun e => e.pre.Orderly e.act := by
  decide +kernel

theorem served_iff_orderly_sample : ∃ tr s, (machine reference config .aggregated).Run tr s ∧
    s.answered 2 = 1 ∧ ∀ e ∈ tr, System.Served e := by
  obtain ⟨hexec, horderly⟩ := once_exec
  obtain ⟨s, hs, he⟩ := Option.any_eq_true _ _ |>.mp hexec
  have r := Machine.Run.of_exec System.start_init hs
  refine ⟨_, s, r, (of_decide_eq_true he).right,
    (System.served_iff_orderly reference_lawful r).mpr fun e he => ?_⟩
  exact of_decide_eq_true (List.all_eq_true.mp horderly e he)

end Sample

end Translator
