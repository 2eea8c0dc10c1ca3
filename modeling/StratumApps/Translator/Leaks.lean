import StratumApps.Translator.Survival

open Sv2 Handler StratumCore

namespace Translator

namespace Sv1.System

variable {C : Core} {cfg : Config} {s s' : System} {d : DownstreamId} {a : Action} {op : ServerOp}
variable {c : ChannelId}

-- The ids of the miners are all different.
def Numbered (s : System) : Prop :=
  ∀ d ∈ s.server.downstreams, d < s.server.downstreamIdFactory

theorem numbered_step (hn : s.Numbered) (h : s.step C cfg a = some s') : s'.Numbered := by
  have hr := revises_of_step h
  unfold Numbered
  generalize s'.server = server at hr
  intro d hd
  cases hr with
  | accept =>
    cases List.mem_append.mp hd with
    | inl hd => exact Nat.lt_succ_of_lt (hn d hd)
    | inr hd =>
      cases List.mem_singleton.mp hd
      exact Nat.lt_succ_self _
  | shutdown => exact hn d (List.mem_filter.mp hd).left
  | fallback => cases hd
  | job      =>
    rw [storeJob_kept.right.left] at hd
    rw [storeJob_kept.right.right.left]
    exact hn d hd
  | _ => exact hn d hd

-- A miner that stays registered is the same, and keeps its channel unless it is given another one.
theorem getDownstream_of_step (hn : s.Numbered) (h : s.step C cfg a = some s') {o : Downstream}
    (ho : s.getDownstream d = some o) (hd : d ∈ s'.server.downstreams) :
    ∃ o', s'.getDownstream d = some o' ∧ Evolves C cfg s d a o o' := by
  obtain ⟨hd₀, ho⟩ := Option.ite_none_right_eq_some.mp ho
  obtain ⟨o', ho'⟩ := Option.isSome_iff_exists.mp
    (lookup_isSome_of_step h (Option.isSome_iff_exists.mpr ⟨o, ho⟩))
  refine ⟨o', Option.ite_none_right_eq_some.mpr ⟨hd, ho'⟩, ?_⟩
  obtain ⟨_, hd', _⟩ | ⟨o₁, ho₁, he⟩ := evolves_of_step h ho'
  case inl => exact absurd hd' (Nat.ne_of_lt (hn d hd₀))
  case inr =>
    cases ho.symm.trans ho₁
    exact he

theorem registered_of_step (h : s.step C cfg a = some s') (hd : d ∈ s.server.downstreams) :
    d ∈ s'.server.downstreams ∨ a = .downstreamShutdown d ∨ a = .fallback := by
  have hr := revises_of_step h
  generalize s'.server = server at hr
  cases hr with
  | accept   => exact .inl (List.mem_append_left _ hd)
  | fallback => exact .inr (.inr rfl)
  | job      => exact .inl (storeJob_kept.right.left.symm ▸ hd)
  | @shutdown d' =>
    by_cases he : d = d'
    case pos => exact .inr (.inl (he ▸ rfl))
    case neg => exact .inl (List.mem_filter.mpr ⟨hd, by simp [he]⟩)
  | _ => exact .inl hd

theorem channelIdOf_of_step (hn : s.Numbered) (h : s.step C cfg a = some s')
    (hc : s.channelIdOf d = some c) :
    s'.channelIdOf d = some c ∨ a = .downstreamShutdown d ∨ a = .fallback ∨
      ∃ m ops, a = .serve ∧ s.todo = .setChannel d m :: ops := by
  obtain ⟨o, ho, hoc⟩ := Option.bind_eq_some_iff.mp hc
  obtain hd | hd | hd := registered_of_step h (channelIdOf_eq_some.mp hc).left
  case inl =>
    obtain ⟨o', ho', he⟩ := getDownstream_of_step hn h ho hd
    obtain hk | ⟨m, ops, ha, ht, _⟩ := evolves_channelId he
    case inl => exact .inl (by simp [channelIdOf, ho', hk, hoc])
    case inr => exact .inr (.inr (.inr ⟨m, ops, ha, ht⟩))
  case inr.inl => exact .inr (.inl hd)
  case inr.inr => exact .inr (.inr (.inl hd))

theorem setChannel_not_followed {m : OpenExtendedMiningChannelSuccess} :
    .setChannel d m ∉ s.follow C cfg op := by
  intro h
  cases spawns_of_mem h

-- The server gives a channel to one miner at a time, which is there and has none.
structure GivesOnce (s : System) : Prop where
  tail : s.status = .running → ∀ d m, .setChannel d m ∉ s.todo.tail
  head : s.status = .running → ∀ d m, s.todo.head? = some (.setChannel d m) →
    ∃ o, s.getDownstream d = some o ∧ o.data.channelId = none

-- The miner of an open request is there and has no channel yet when the answer comes.
def Expects (s : System) : Action → Prop
  | .upstream (.openExtendedMiningChannelSuccess m) =>
    ∀ d, s.server.requestIdToDownstreamId.lookup m.requestId = some d →
      ∃ o, s.getDownstream d = some o ∧ o.data.channelId = none
  | _ => True

theorem begins_gives (h : s.step C cfg a = some s') (he : s.Expects a) :
    (∀ d m, .setChannel d m ∉ (s.begins C cfg a).tail) ∧
      ∀ d m, (s.begins C cfg a).head? = some (.setChannel d m) →
        ∃ o, s.getDownstream d = some o ∧ o.data.channelId = none := by
  by_cases ha : ∃ m, a = .upstream (.openExtendedMiningChannelSuccess m)
  case pos =>
    obtain ⟨m, rfl⟩ := ha
    rw [begins]
    cases hd : (s.server.requestIdToDownstreamId.lookup m.requestId).filter fun d =>
        (s.getDownstream d).isSome with
    | none   => simp
    | some d =>
      have hd := (Option.filter_eq_some_iff.mp hd).left
      refine ⟨by simp, fun d' m' h => ?_⟩
      cases Option.some.inj h
      exact he d hd
  case neg =>
    have none (d : DownstreamId) (m : OpenExtendedMiningChannelSuccess) :
        .setChannel d m ∉ s.begins C cfg a := by
      intro hm
      cases begun_of_mem (idle_of_begins hm h) hm
      exact ha ⟨m, rfl⟩
    exact ⟨fun d m hm => none d m (List.mem_of_mem_tail hm),
      fun d m hm => absurd (List.mem_of_head? hm) (none d m)⟩

theorem channelless_of_step (hn : s.Numbered) (h : s.step C cfg a = some s') (ha : a ≠ .serve)
    (hd : a ≠ .downstreamShutdown d) (hf : a ≠ .fallback)
    (hc : ∃ o, s.getDownstream d = some o ∧ o.data.channelId = none) :
    ∃ o, s'.getDownstream d = some o ∧ o.data.channelId = none := by
  obtain ⟨o, ho, hoc⟩ := hc
  have hr : d ∈ s'.server.downstreams := by
    obtain hr | hr | hr := registered_of_step h (Option.ite_none_right_eq_some.mp ho).left
    case inl     => exact hr
    case inr.inl => exact absurd hr hd
    case inr.inr => exact absurd hr hf
  obtain ⟨o', ho', he⟩ := getDownstream_of_step hn h ho hr
  obtain hk | ⟨_, _, hs, _⟩ := evolves_channelId he
  case inl => exact ⟨o', ho', hk.trans hoc⟩
  case inr => exact absurd hs ha

-- The server hears of a miner that is gone, or of a fallback, only when it has nothing else to do.
theorem idle_of_leaving (h : s.step C cfg a = some s')
    (ha : a = .downstreamShutdown d ∨ a = .fallback) : s.todo = [] := by
  obtain rfl | rfl := ha
  case inl => exact (idle_eq_some h).right.left
  case inr => exact (idle_eq_some h).right.left

theorem givesOnce_step (hg : s.GivesOnce) (hn : s.Numbered) (he : s.Expects a)
    (h : s.step C cfg a = some s') : s'.GivesOnce := by
  obtain hns | ⟨op, ops, rfl, ht, ht'⟩ | ⟨hne, ht'⟩ := todo_of_step h
  case inl => exact ⟨fun hs => absurd hs hns, fun hs => absurd hs hns⟩
  case inr.inl =>
    have hno : s'.status = .running → ∀ d m, .setChannel d m ∉ s'.todo := by
      intro hs d m hmem
      rw [ht'] at hmem
      cases List.mem_append.mp hmem with
      | inl hmem => exact setChannel_not_followed hmem
      | inr hmem =>
        have htail := hg.tail (running_of_step h hs) d m
        rw [ht] at htail
        exact htail hmem
    exact ⟨fun hs d m hm => hno hs d m (List.mem_of_mem_tail hm),
      fun hs d m hm => absurd (List.mem_of_head? hm) (hno hs d m)⟩
  case inr.inr =>
    cases hb : s.begins C cfg a with
    | nil =>
      rw [hb, List.nil_append] at ht'
      constructor
      case tail =>
        intro hs
        rw [ht']
        exact hg.tail (running_of_step h hs)
      case head =>
        intro hs d m hm
        rw [ht'] at hm
        have hne' : s.todo ≠ [] := by
          intro hnil
          rw [hnil] at hm
          cases hm
        exact channelless_of_step hn h hne (fun ha => hne' (idle_of_leaving h (.inl ha)))
          (fun ha => hne' (idle_of_leaving (d := d) h (.inr ha)))
          (hg.head (running_of_step h hs) d m hm)
    | cons op ops =>
      have hnil := idle_of_begins_cons hb h
      rw [hnil, List.append_nil] at ht'
      obtain ⟨htail, hhead⟩ := begins_gives h he
      rw [← ht'] at htail hhead
      refine ⟨fun _ => htail, fun _ d m hm => ?_⟩
      refine channelless_of_step hn h hne ?_ ?_ (hhead d m hm)
      case refine_1 =>
        rintro rfl
        cases hb
      case refine_2 =>
        rintro rfl
        cases hb

-- A miner has the channel, or is just being given it.
def Serves (s : System) (c : ChannelId) : Prop :=
  (∃ d, s.channelIdOf d = some c) ∨
    ∃ d m, s.todo.head? = some (.setChannel d m) ∧ m.channelId = c

theorem serves_of_step (hg : s.GivesOnce) (hn : s.Numbered) (h : s.step C cfg a = some s')
    (hr : s'.status = .running) (hs : s.Serves c) :
    s'.Serves c ∨ (∃ d, a = .downstreamShutdown d ∧ s.channelIdOf d = some c) ∨ a = .fallback := by
  have hr₀ := running_of_step h hr
  obtain ⟨d, hc⟩ | ⟨d, m, hm, rfl⟩ := hs
  case inl =>
    obtain hk | hk | hk | ⟨m, ops, _, ht⟩ := channelIdOf_of_step hn h hc
    case inl         => exact .inl (.inl ⟨d, hk⟩)
    case inr.inl     => exact .inr (.inl ⟨d, hk, hc⟩)
    case inr.inr.inl => exact .inr (.inr hk)
    case inr.inr.inr =>
      obtain ⟨o, ho, hoc⟩ := hg.head hr₀ d m (by rw [ht]; rfl)
      simp [channelIdOf, ho, hoc] at hc
  case inr =>
    left
    obtain hns | ⟨op, ops, rfl, ht, _⟩ | ⟨_, ht'⟩ := todo_of_step h
    case inl => exact absurd hr hns
    case inr.inl =>
      left
      obtain ⟨o, ho, _⟩ := hg.head hr₀ d m hm
      obtain ⟨hd, ho⟩ := Option.ite_none_right_eq_some.mp ho
      rw [ht] at hm
      obtain rfl := Option.some.inj hm
      obtain ⟨_, rfl⟩ := serve_of_todo h ht
      let given := { s with todo := ops }.served C cfg d o (.setChannel d m)
      have hl : ({ s with todo := ops }.exec C cfg (.setChannel d m)).objects.lookup d =
          some given := lookup_exec.trans (Option.map_eq_some_iff.mpr ⟨o, ho, rfl⟩)
      refine ⟨d, channelIdOf_eq_some.mpr ⟨?_, given, hl, by simp [given, served]⟩⟩
      have hs : ∃ updates, ({ s with todo := ops }.exec C cfg (.setChannel d m)).server = _ ∧ _ :=
        exec_kept.right
      obtain ⟨_, hs, _⟩ := hs
      rw [hs]
      exact hd
    case inr.inr =>
      right
      cases hb : s.begins C cfg a with
      | nil =>
        rw [hb, List.nil_append] at ht'
        exact ⟨d, m, ht' ▸ hm, rfl⟩
      | cons op ops =>
        rw [idle_of_begins_cons hb h] at hm
        cases hm

theorem serves_answer {m : OpenExtendedMiningChannelSuccess}
    (he : s.Expects (.upstream (.openExtendedMiningChannelSuccess m)))
    (h : s.step C cfg (.upstream (.openExtendedMiningChannelSuccess m)) = some s')
    (hr : s'.status = .running) : s'.Serves m.channelId := by
  obtain ⟨_, ht, rfl⟩ := idle_eq_some h
  rw [handleUpstreamMessage, handleOpenExtendedMiningChannelSuccess.eq_def] at hr ⊢
  split at hr
  case h_1 => simp [fail] at hr
  case h_2 d hd =>
    obtain ⟨o, ho, _⟩ := he d hd
    have hg : (s.getDownstream d).isSome := Option.isSome_iff_exists.mpr ⟨o, ho⟩
    have hg : (getDownstream { s with server := { s.server with
        requestIdToDownstreamId := s.server.requestIdToDownstreamId.erase m.requestId } } d).isSome := hg
    dsimp only
    rw [if_pos hg]
    exact .inr ⟨d, m, rfl, rfl⟩

end Sv1.System

namespace ChannelManager

variable {C : TranslatorCore} {s s' : ChannelManager C} {messages : List RouteMessageTo}

-- The entries that the manager has for the channels of the miners, and the counters, which in
-- aggregated mode are for the upstream channel.
def Keeps (s : ChannelManager C) (channelId : ChannelId) : Prop :=
  channelId ∈ s.extendedChannels ∨ ∃ factories, s.extranonceFactories = some factories ∧
    channelId ∈ factories

def Holds (s : ChannelManager C) (channelId : ChannelId) : Prop :=
  s.Keeps channelId ∨ channelId ∈ s.shareSequenceCounters

instance {c : ChannelId} : Decidable (s.Keeps c) :=
  decidable_of_iff (c ∈ s.extendedChannels ∨ s.extranonceFactories.any (c ∈ ·)) <| by
    simp [Keeps, Option.any_eq_true]

instance {c : ChannelId} : Decidable (s.Holds c) :=
  inferInstanceAs <| Decidable <| s.Keeps c ∨ c ∈ s.shareSequenceCounters

-- The channel that the upstream counts shares for in aggregated mode.
def IsUpstream (s : ChannelManager C) (channelId : ChannelId) : Prop :=
  ∃ u, s.upstreamExtendedChannel = some u ∧ C.channel.getChannelId u = channelId

theorem updateChannels_keeps {channelId c : ChannelId} {f g : C.Channel → C.Channel} :
    (s.updateChannels channelId f g).Keeps c ↔ s.Keeps c := by
  rw [updateChannels]
  split
  case isTrue  => simp [Keeps, Map.mem_mapValues]
  case isFalse => simp [Keeps, Map.mem_modify]

theorem updateChannels_counters {channelId : ChannelId} {f g : C.Channel → C.Channel} :
    (s.updateChannels channelId f g).shareSequenceCounters = s.shareSequenceCounters := by
  rw [updateChannels]
  split <;> rfl

theorem updateChannels_isUpstream {channelId c : ChannelId} {f g : C.Channel → C.Channel}
    (hf : ∀ u, C.channel.getChannelId (f u) = C.channel.getChannelId u) (h : s.IsUpstream c) :
    (s.updateChannels channelId f g).IsUpstream c := by
  obtain ⟨u, hu, rfl⟩ := h
  rw [updateChannels]
  split
  case isTrue  => exact ⟨f u, by simp [hu], hf u⟩
  case isFalse => exact ⟨u, hu, rfl⟩

-- What a message does to the entries: a new one for a channel of a miner comes with the answer to its
-- open request, and a new counter is for such a channel or for that of the upstream.
structure Adds (s s' : ChannelManager C) (messages : List RouteMessageTo) : Prop where
  keeps    : ∀ c, s'.Keeps c → s.Keeps c ∨ ∃ m : OpenExtendedMiningChannelSuccess,
    .sv1Server (.openExtendedMiningChannelSuccess m) ∈ messages ∧ m.channelId = c
  counters : ∀ c ∈ s'.shareSequenceCounters,
    c ∈ s.shareSequenceCounters ∨ s.Keeps c ∨ s.IsUpstream c

theorem Adds.of_iff (hk : ∀ c, s'.Keeps c → s.Keeps c)
    (hc : s'.shareSequenceCounters = s.shareSequenceCounters) : s.Adds s' messages where
  keeps c h    := .inl (hk c h)
  counters _ h := .inl (hc ▸ h)

theorem judged_keeps {m : SubmitSharesExtended} {channel : C.Channel} {c : ChannelId}
    (hc : s.extendedChannels.lookup m.channelId = some channel) (h : (s.judged m channel).Keeps c) :
    s.Keeps c := by
  cases h with
  | inr h => exact .inr h
  | inl h =>
    left
    cases (AList.mem_insert _).mp h with
    | inl h => exact h ▸ Map.mem_iff_lookup.mpr ⟨channel, hc⟩
    | inr h => exact h

theorem forwards_adds {m : SubmitSharesExtended} {channel : C.Channel} {k : ChannelId}
    {extranonce : Except (Fault TproxyError) B032}
    (hc : s.extendedChannels.lookup m.channelId = some channel)
    (hk : s.Keeps k ∨ s.IsUpstream k)
    (h : (s.judged m channel).Forwards m k extranonce s' messages) : s.Adds s' messages := by
  obtain ⟨e, _, rfl, _⟩ := h
  constructor
  case keeps => exact fun c h => .inl (judged_keeps hc h)
  case counters =>
    intro c h
    cases (AList.mem_insert _).mp h with
    | inl h => exact .inr (h ▸ hk)
    | inr h => exact .inl h

theorem handles_adds {m : Mining} (h : s.Handles m s' messages) : s.Adds s' messages := by
  cases h with
  | @derived m upstream factory factory' p _ _ _ _ _ =>
    constructor
    case counters => exact fun c h => .inl h
    case keeps =>
      intro c h
      cases h with
      | inr h => exact .inl (.inr h)
      | inl h =>
        cases (AList.mem_insert _).mp h with
        | inl h => exact .inr ⟨_, List.mem_cons_self, h.symm⟩
        | inr h => exact .inl (.inl h)
  | unanswered => exact .of_iff (fun _ h => h) rfl
  | requested  => exact .of_iff (fun _ h => h) rfl
  | invalid hc => exact .of_iff (fun _ h => judged_keeps hc h) rfl
  | @aggregated m channel upstream _ _ _ _ hc _ _ hu _ h =>
    exact forwards_adds hc (.inr ⟨upstream, hu, rfl⟩) h
  | nonAggregated hc _ _ h =>
    exact forwards_adds hc (.inl (.inl (Map.mem_iff_lookup.mpr ⟨_, hc⟩))) h
  | _ => exact .of_iff (fun _ h => h) rfl

theorem handles_isUpstream {m : Mining} (h : s.Handles m s' messages) :
    s'.upstreamExtendedChannel = s.upstreamExtendedChannel := by
  cases h with
  | aggregated _ _ _ _ _ h | nonAggregated _ _ _ h =>
    obtain ⟨_, _, rfl, _⟩ := h
    rfl
  | _ => rfl

theorem follows_adds {m : Mining} (h : s.Follows m s' messages) : s.Adds s' messages := by
  have opened {m : OpenExtendedMiningChannelSuccess} {channel : C.Channel} {p : B032}
      {size : UInt16} {c : ChannelId} (h : c ∈ s.extendedChannels.insert m.channelId channel) :
      c ∈ s.extendedChannels ∨ ∃ m' : OpenExtendedMiningChannelSuccess,
        .sv1Server (.openExtendedMiningChannelSuccess m') ∈ openSuccess m p size ∧
          m'.channelId = c := by
    cases (AList.mem_insert _).mp h with
    | inl h => exact .inr ⟨_, List.mem_cons_self, h.symm⟩
    | inr h => exact .inl h
  cases h with
  | aggregated =>
    constructor
    case counters => exact fun c h => .inl h
    case keeps =>
      intro c h
      cases h with
      | inl h => exact (opened h).imp_left .inl
      | inr h => exact .inl (.inr h)
  | unadjusted =>
    constructor
    case counters => exact fun c h => .inl h
    case keeps =>
      intro c h
      cases h with
      | inl h => exact (opened h).imp_left .inl
      | inr h => exact .inl (.inr h)
  | @adjusted m _ _ _ _ _ _ _ _ _ _ _ =>
    constructor
    case counters => exact fun c h => .inl h
    case keeps =>
      intro c h
      cases h with
      | inl h => exact (opened h).imp_left .inl
      | inr h =>
        obtain ⟨factories, hf, h⟩ := h
        cases hf
        cases (AList.mem_insert _).mp h with
        | inl h => exact .inr ⟨_, List.mem_cons_self, h.symm⟩
        | inr h =>
          cases hx : s.extranonceFactories with
          | none   => simp [hx] at h
          | some x => exact .inl (.inr ⟨x, hx, by simpa [hx] using h⟩)
  | erased =>
    refine .of_iff (fun c h => h.imp_left fun h => ?_) rfl
    exact (AList.mem_erase.mp h).right
  | job      => exact .of_iff (fun _ h => updateChannels_keeps.mp h) updateChannels_counters
  | prevHash => exact .of_iff (fun _ h => updateChannels_keeps.mp h) updateChannels_counters
  | target   => exact .of_iff (fun _ h => updateChannels_keeps.mp h) updateChannels_counters
  | _        => exact .of_iff (fun _ h => h) rfl

theorem follows_counters {m : Mining} (h : s.Follows m s' messages) :
    s'.shareSequenceCounters = s.shareSequenceCounters := by
  cases h with
  | job      => exact updateChannels_counters
  | prevHash => exact updateChannels_counters
  | target   => exact updateChannels_counters
  | _        => rfl

-- The upstream channel goes when it is closed, or replaced by another one.
theorem follows_isUpstream (hC : C.Lawful) {m : Mining} {c : ChannelId}
    (h : s.Follows m s' messages) (hc : s.IsUpstream c) : s'.IsUpstream c ∨
      (s.mode = .aggregated ∧ ((∃ m', m = .closeChannel m') ∨
        ∃ m', m = .openExtendedMiningChannelSuccess m')) := by
  cases h with
  | aggregated _ hm => exact .inr ⟨hm, .inr ⟨_, rfl⟩⟩
  | closed hm       => exact .inr ⟨hm, .inl ⟨_, rfl⟩⟩
  | job             =>
    exact .inl (updateChannels_isUpstream (fun u => (hC.channel.jobSame u _).channelId) hc)
  | prevHash        =>
    exact .inl (updateChannels_isUpstream (fun u => (hC.channel.prevHashSame u _).channelId) hc)
  | target          =>
    exact .inl (updateChannels_isUpstream (fun u => (hC.channel.setTarget u _).left.channelId) hc)
  | _               => exact .inl hc

-- The channels that the upstream closes with a message: in aggregated mode, with its own channel also
-- those of the miners.
def Closed (s : ChannelManager C) (m : CloseChannel) (c : ChannelId) : Prop :=
  c = m.channelId ∨ s.mode = .aggregated ∧ s.IsUpstream m.channelId

-- What the manager does not remove when the upstream closes a channel.
def Lingers (s : ChannelManager C) (c : ChannelId) : Prop :=
  s.mode = .aggregated ∧ c ∈ s.extendedChannels ∨
    (∃ factories, s.extranonceFactories = some factories ∧ c ∈ factories) ∨
    c ∈ s.shareSequenceCounters

instance {c : ChannelId} : Decidable (s.Lingers c) :=
  decidable_of_iff (s.mode = .aggregated ∧ c ∈ s.extendedChannels ∨
    s.extranonceFactories.any (c ∈ ·) ∨ c ∈ s.shareSequenceCounters) <| by
      simp [Lingers, Option.any_eq_true]

theorem handleCloseChannel_closes {m : CloseChannel} {c : ChannelId} (hc : s.Closed m c)
    (hl : ¬s.Lingers c) : ∃ s' : ChannelManager C,
      s.handleMiningMessageFromServer (.closeChannel m) = .ok (s', []) ∧ ¬s'.Holds c := by
  rw [handleMiningMessageFromServer, handleCloseChannel]
  split
  case isTrue hm =>
    refine ⟨_, rfl, ?_⟩
    rintro ((h | h) | h)
    · exact hl (.inl ⟨hm, h⟩)
    · exact hl (.inr (.inl h))
    · exact hl (.inr (.inr h))
  case isFalse hm =>
    refine ⟨_, rfl, ?_⟩
    rintro ((h | h) | h)
    · cases hc with
      | inl hc => exact (AList.mem_erase.mp h).left hc
      | inr hc => exact hm hc.left
    · exact hl (.inr (.inl h))
    · exact hl (.inr (.inr h))

theorem new_holds {mode : ChannelMode} {c : ChannelId} : ¬(new mode : ChannelManager C).Holds c := by
  rintro ((h | ⟨_, h, _⟩) | h)
  · cases h
  · cases h
  · cases h

end ChannelManager

namespace TranslatorSv2

variable {C : TranslatorCore} {K : Sv1.Core} {cfg : TranslatorConfig} {s s' : TranslatorSv2 C}
variable {a : Action} {tr : List (Machine.Event (TranslatorSv2 C) Action)} {c : ChannelId}

-- When the SV1 server and the channel manager have taken all that they have for each other, the
-- entries are for channels of miners that are connected.
def Clean (s : TranslatorSv2 C) : Prop :=
  s.sv1.status = .running → s.sv1.todo = [] → s.channelManagerToSv1Server = [] →
  s.sv1ServerToChannelManager = [] → s.managerSession = s.sv1Session →
    (∀ c, s.manager.manager.Keeps c → ∃ d, s.sv1.channelIdOf d = some c) ∧
    ∀ c ∈ s.manager.manager.shareSequenceCounters,
      (∃ d, s.sv1.channelIdOf d = some c) ∨ s.manager.manager.IsUpstream c

-- A miner that leaves, the upstream that closes a channel, and a fallback leave no entries.
structure Closes (e : Machine.Event (TranslatorSv2 C) Action) : Prop where
  downstream : ∀ q qs m, e.act = .downstream → e.pre.sv1ServerToChannelManager = q :: qs →
    q.message = .closeChannel m → ¬e.post.manager.manager.Holds m.channelId
  upstream   : ∀ q qs m, e.act = .upstream → e.pre.upstreamToChannelManager = q :: qs →
    q.message = .mining (.closeChannel m) →
      ∀ c, e.pre.manager.manager.Closed m c → ¬e.post.manager.manager.Holds c
  fallback   : e.act = .managerFallback → ∀ c, ¬e.post.manager.manager.Holds c

-- The manager has no entries when a miner leaves and closes its channel, and none that it does not
-- remove when the upstream closes or replaces a channel, or when the server starts over after it. An
-- answer to an open request finds its miner, which has no channel yet.
structure Contained (s : TranslatorSv2 C) (a : Action) : Prop where
  shutdown : ∀ d c, a = .sv1 (.downstreamShutdown d) → s.sv1.channelIdOf d = some c →
    ¬s.manager.manager.Keeps c ∧
      (c ∈ s.manager.manager.shareSequenceCounters → s.manager.manager.IsUpstream c)
  answer   : ∀ q qs, a = .sv1Server → s.channelManagerToSv1Server = q :: qs →
    s.sv1.Expects (.upstream q.message)
  closed   : ∀ q qs m, a = .downstream → s.sv1ServerToChannelManager = q :: qs →
    q.message = .closeChannel m → ¬s.manager.manager.Holds m.channelId
  lost     : ∀ q qs m, a = .upstream → s.upstreamToChannelManager = q :: qs →
    q.message = .mining (.closeChannel m) →
      ∀ c, s.manager.manager.Closed m c → ¬s.manager.manager.Lingers c
  replaced : ∀ q qs m, a = .upstream → s.upstreamToChannelManager = q :: qs →
    q.message = .mining m → s.manager.manager.mode = .aggregated →
      ((∃ m', m = .closeChannel m') ∨ ∃ m', m = .openExtendedMiningChannelSuccess m') →
        ∀ c, s.manager.manager.IsUpstream c → c ∉ s.manager.manager.shareSequenceCounters
  fallback : a = .sv1Fallback → s.sv1Session < s.managerSession →
    ∀ c, ¬s.manager.manager.Holds c

-- A channel is that of a miner, or the answer to its open request is on its way.
def Serves (s : TranslatorSv2 C) (c : ChannelId) : Prop :=
  s.sv1.Serves c ∨ ∃ q ∈ s.channelManagerToSv1Server, ∃ m : OpenExtendedMiningChannelSuccess,
    q.message = .openExtendedMiningChannelSuccess m ∧ m.channelId = c

structure Backed (s : TranslatorSv2 C) : Prop where
  keeps    : ∀ c, s.manager.manager.Keeps c → s.Serves c
  counters : ∀ c ∈ s.manager.manager.shareSequenceCounters,
    s.Serves c ∨ s.manager.manager.IsUpstream c

-- The invariant. It does not say anything while the server has started over and the manager has not.
structure Tidy (s : TranslatorSv2 C) : Prop where
  numbered  : s.sv1.Numbered
  givesOnce : s.sv1.GivesOnce
  backed    : s.sv1.status = .running → s.sv1Session ≤ s.managerSession → s.Backed

theorem Tidy.clean (h : s.Tidy) : s.Clean := by
  intro hr ht hq _ hs
  have hb := h.backed hr (Nat.le_of_eq hs.symm)
  have served {c : ChannelId} (h : s.Serves c) : ∃ d, s.sv1.channelIdOf d = some c := by
    obtain (h | ⟨d, m, hm, _⟩) | ⟨q, hm, _⟩ := h
    · exact h
    · simp [ht] at hm
    · simp [hq] at hm
  exact ⟨fun c hc => served (hb.keeps c hc), fun c hc => (hb.counters c hc).imp_left served⟩

-- The queue to the server takes what the manager has sent it.
theorem mem_withManager {t : System C} {messages : List RouteMessageTo} {m : Mining}
    (ht : t.sent = s.manager.sent ++ messages) (hm : .sv1Server m ∈ messages) :
    ∃ q ∈ (s.withManager t).channelManagerToSv1Server, q.message = m := by
  have hd : t.sent.drop s.manager.sent.length = messages := by rw [ht, List.drop_left]
  refine ⟨⟨s.managerSession, m⟩, ?_, rfl⟩
  rw [withManager, hd]
  refine List.mem_append_right _ (List.mem_map.mpr ⟨m, ?_, rfl⟩)
  exact List.mem_filterMap.mpr ⟨.sv1Server m, hm, rfl⟩

theorem serves_withManager {t : System C} (h : s.Serves c) : (s.withManager t).Serves c := by
  cases h with
  | inl h => exact .inl h
  | inr h =>
    obtain ⟨q, hq, h⟩ := h
    exact .inr ⟨q, List.mem_append_left _ hq, h⟩

-- What the manager adds is backed by what it sends.
theorem backed_withManager {t : System C} {messages : List RouteMessageTo} (hb : s.Backed)
    (ht : t.sent = s.manager.sent ++ messages)
    (ha : s.manager.manager.Adds t.manager messages)
    (hu : ∀ c, s.manager.manager.IsUpstream c → t.manager.IsUpstream c ∨
      c ∉ t.manager.shareSequenceCounters) : (s.withManager t).Backed := by
  have kept {c : ChannelId} (h : s.manager.manager.Keeps c) : (s.withManager t).Serves c :=
    serves_withManager (hb.keeps c h)
  constructor
  case keeps =>
    intro c hc
    obtain hc | ⟨m, hm, rfl⟩ := ha.keeps c hc
    case inl => exact kept hc
    case inr =>
      obtain ⟨q, hq, hqm⟩ := mem_withManager ht hm
      exact .inr ⟨q, hq, m, hqm, rfl⟩
  case counters =>
    intro c hc
    have upstream (h : s.manager.manager.IsUpstream c) :
        (s.withManager t).Serves c ∨ (s.withManager t).manager.manager.IsUpstream c := by
      cases hu c h with
      | inl h => exact .inr h
      | inr h => exact absurd hc h
    obtain h | h | h := ha.counters c hc
    case inr.inl => exact .inl (kept h)
    case inr.inr => exact upstream h
    case inl =>
      cases hb.counters c h with
      | inl h => exact .inl (serves_withManager h)
      | inr h => exact upstream h

theorem backed_manager (hC : C.Lawful) {t : System C} {b : Translator.Action} (hb : s.Backed)
    (hne : b ≠ .fallback) (ht : s.manager.step cfg.manager b = some t)
    (hr : ∀ m, b = .upstream m → s.manager.manager.mode = .aggregated →
      ((∃ m', m = .closeChannel m') ∨ ∃ m', m = .openExtendedMiningChannelSuccess m') →
        ∀ c, s.manager.manager.IsUpstream c → c ∉ s.manager.manager.shareSequenceCounters) :
    (s.withManager t).Backed := by
  have same {t : System C} (hs : t.sent = s.manager.sent) (hm : t.manager = s.manager.manager) :
      (s.withManager t).Backed := by
    have hs : t.sent = s.manager.sent ++ [] := hs.trans (List.append_nil _).symm
    refine backed_withManager hb hs ?_ fun c hc => .inl (hm ▸ hc)
    exact .of_iff (fun _ h => hm ▸ h) (by rw [hm])
  cases (System.moves_of_step ht).right with
  | downstream hm =>
    refine backed_withManager hb rfl (ChannelManager.handles_adds hm) fun c hc => .inl ?_
    obtain ⟨u, hu, hc⟩ := hc
    exact ⟨u, (ChannelManager.handles_isUpstream hm).trans hu, hc⟩
  | @upstream m _ _ hm =>
    refine backed_withManager hb rfl (ChannelManager.follows_adds hm) fun c hc => ?_
    obtain h | ⟨ha, h⟩ := ChannelManager.follows_isUpstream hC hm hc
    case inl => exact .inl h
    case inr =>
      right
      rw [ChannelManager.follows_counters hm]
      exact hr m rfl ha h c hc
  | extensions hm =>
    refine backed_withManager hb rfl (.of_iff (fun _ h => h) rfl) fun c hc => .inl ?_
    exact hc
  | fallback        => exact absurd rfl hne
  | downstreamFails => exact same rfl rfl
  | upstreamFails   => exact same rfl rfl
  | extensionsFails => exact same rfl rfl

-- What the SV1 side does to the channels that the manager has entries for.
theorem backed_sv1 {t : Sv1.System} {b : Sv1.Action} (hb : s.Backed) (hg : s.sv1.GivesOnce)
    (hn : s.sv1.Numbered) (ht : s.sv1.step K cfg.sv1 b = some t) (hr : t.status = .running)
    (hf : b ≠ .fallback)
    (hd : ∀ d c, b = .downstreamShutdown d → s.sv1.channelIdOf d = some c →
      ¬s.manager.manager.Keeps c ∧
        (c ∈ s.manager.manager.shareSequenceCounters → s.manager.manager.IsUpstream c)) :
    (s.withSv1 t).Backed := by
  have served {c : ChannelId} (h : s.Serves c) : (s.withSv1 t).Serves c ∨
      ∃ d, b = .downstreamShutdown d ∧ s.sv1.channelIdOf d = some c := by
    cases h with
    | inr h => exact .inl (.inr h)
    | inl h =>
      obtain h | h | h := Sv1.System.serves_of_step hg hn ht hr h
      case inl     => exact .inl (.inl h)
      case inr.inl => exact .inr h
      case inr.inr => exact absurd h hf
  constructor
  case keeps =>
    intro c hc
    obtain h | ⟨d, hbd, hdc⟩ := served (hb.keeps c hc)
    case inl => exact h
    case inr => exact absurd hc (hd d c hbd hdc).left
  case counters =>
    intro c hc
    cases hb.counters c hc with
    | inr h => exact .inr h
    | inl h =>
      obtain h | ⟨d, hbd, hdc⟩ := served h
      case inl => exact .inl h
      case inr => exact .inr ((hd d c hbd hdc).right hc)

-- The server takes a message of the manager. The answer to an open request is served from then on.
theorem backed_answer {q : Queued Mining} {qs : List (Queued Mining)} {t : Sv1.System}
    (hq : s.channelManagerToSv1Server = q :: qs) (hb : s.Backed) (hg : s.sv1.GivesOnce)
    (hn : s.sv1.Numbered) (he : s.sv1.Expects (.upstream q.message))
    (ht : s.sv1.step K cfg.sv1 (.upstream q.message) = some t) (hr : t.status = .running) :
    ({ s with channelManagerToSv1Server := qs }.withSv1 t).Backed := by
  have served {c : ChannelId} (h : s.Serves c) :
      ({ s with channelManagerToSv1Server := qs }.withSv1 t).Serves c := by
    cases h with
    | inl h =>
      obtain h | ⟨_, h, _⟩ | h := Sv1.System.serves_of_step hg hn ht hr h
      case inl     => exact .inl h
      case inr.inl => cases h
      case inr.inr => cases h
    | inr h =>
      obtain ⟨q', hq', m, hm, rfl⟩ := h
      rw [hq] at hq'
      cases hq' with
      | tail _ hq' => exact .inr ⟨q', hq', m, hm, rfl⟩
      | head _ =>
        rw [hm] at he ht
        exact .inl (Sv1.System.serves_answer he ht hr)
  exact ⟨fun c hc => served (hb.keeps c hc), fun c hc => (hb.counters c hc).imp_left served⟩

theorem fallback_empty {t : System C} (ht : s.manager.step cfg.manager .fallback = some t) :
    ∀ c, ¬t.manager.Holds c := by
  cases (System.moves_of_step ht).right with
  | fallback => exact fun c => ChannelManager.new_holds

theorem tidy_step (hC : C.Lawful) (h : s.Tidy) (hc : Contained s a)
    (hst : s.step K cfg a = some s') : s'.Tidy := by
  cases moves_of_step hst with
  | @sv1 b t ho _ ht =>
    have hb : b ≠ .fallback := by
      rintro rfl
      cases ho
    have he : s.sv1.Expects b := by
      cases b with
      | upstream m => cases ho
      | _          => trivial
    refine ⟨Sv1.System.numbered_step h.numbered ht,
      Sv1.System.givesOnce_step h.givesOnce h.numbered he ht, fun hr hs => ?_⟩
    exact backed_sv1 (h.backed (Sv1.System.running_of_step ht hr) hs) h.givesOnce h.numbered ht hr hb
      fun d c hd hdc => hc.shutdown d c (congrArg Action.sv1 hd) hdc
  | @sv1Server q qs t hq _ ht =>
    have he := hc.answer q qs rfl hq
    refine ⟨Sv1.System.numbered_step h.numbered ht,
      Sv1.System.givesOnce_step h.givesOnce h.numbered he ht, fun hr hs => ?_⟩
    exact backed_answer hq (h.backed (Sv1.System.running_of_step ht hr) hs) h.givesOnce h.numbered he
      ht hr
  | @downstream q qs t hq ht =>
    refine ⟨h.numbered, h.givesOnce, fun hr hs => ?_⟩
    obtain ⟨hk, hk'⟩ := h.backed hr hs
    exact backed_manager (s := { s with sv1ServerToChannelManager := qs }) hC ⟨hk, hk'⟩ (by simp) ht
      fun m hm => by cases hm
  | @upstream q qs t hq ht =>
    refine ⟨h.numbered, h.givesOnce, fun hr hs => ?_⟩
    obtain ⟨hk, hk'⟩ := h.backed hr hs
    refine backed_manager (s := { s with upstreamToChannelManager := qs }) hC ⟨hk, hk'⟩ ?_ ht
      fun m hm => hc.replaced q qs m rfl hq ?_
    case refine_1 => cases q.message <;> simp [Frame.action]
    case refine_2 =>
      cases hqm : q.message with
      | mining m' =>
        rw [hqm] at hm
        cases hm
        rfl
      | extensions m' =>
        rw [hqm] at hm
        cases hm
  | frame | send | connect =>
    exact ⟨h.numbered, h.givesOnce, fun hr hs =>
      ⟨(h.backed hr hs).keeps, (h.backed hr hs).counters⟩⟩
  | @managerFallback t _ ht =>
    have hn := fallback_empty ht
    exact ⟨h.numbered, h.givesOnce, fun _ _ =>
      ⟨fun c hk => absurd (.inl hk) (hn c), fun c hk => absurd (.inr hk) (hn c)⟩⟩
  | @sv1Fallback t _ ht =>
    refine ⟨Sv1.System.numbered_step h.numbered ht,
      Sv1.System.givesOnce_step (a := .fallback) h.givesOnce h.numbered trivial ht, fun _ hs => ?_⟩
    have hn := hc.fallback rfl hs
    exact ⟨fun c hk => absurd (.inl hk) (hn c), fun c hk => absurd (.inr hk) (hn c)⟩

theorem closes_of_step (hc : Contained s a) (hst : s.step K cfg a = some s') : Closes ⟨s, a, s'⟩ where
  downstream q qs m ha hq hm := by
    cases moves_of_step hst with
    | @downstream q' qs' t hq' ht =>
      cases hq.symm.trans hq'
      have hn := hc.closed q qs m rfl hq hm
      obtain ⟨hs, _⟩ := System.moves_of_step ht
      rw [System.step, hs] at ht
      obtain rfl := Option.some.inj ht
      rw [hm]
      exact hn
    | _ => cases ha
  upstream q qs m ha hq hm c hcl := by
    cases moves_of_step hst with
    | @upstream q' qs' t hq' ht =>
      cases hq.symm.trans hq'
      obtain ⟨manager, hr, hn⟩ :=
        ChannelManager.handleCloseChannel_closes hcl (hc.lost q qs m rfl hq hm c hcl)
      obtain ⟨hs, _⟩ := System.moves_of_step ht
      rw [System.step, hs, hm] at ht
      obtain rfl := Option.some.inj ht
      have hr : (s.manager.act cfg.manager (.upstream (.closeChannel m))).manager = manager := by
        rw [System.act, hr]
        rfl
      exact hr ▸ hn
    | _ => cases ha
  fallback ha := by
    cases moves_of_step hst with
    | managerFallback _ ht => exact fallback_empty ht
    | _                    => cases ha

theorem tidy_start : (start C cfg).Tidy where
  numbered _ h := by cases h
  givesOnce    := ⟨fun _ _ _ h => (by cases h), fun _ _ _ h => (by cases h)⟩
  backed _ _   := ⟨fun _ h => absurd (.inl h) ChannelManager.new_holds,
    fun _ h => absurd (.inr h) ChannelManager.new_holds⟩

theorem clean_of_run (hC : C.Lawful) (r : (translator C K cfg).Run tr s)
    (hc : Machine.Along Contained tr) : ∀ e ∈ tr, Clean e.post ∧ Closes e := by
  intro e he
  have init (s : TranslatorSv2 C) (h : (translator C K cfg).Init s) : s.Tidy := by
    cases h
    exact tidy_start
  have ht := r.invariant_of_mem init (fun _ _ _ hi hc h => tidy_step hC hi hc h) hc he
  exact ⟨ht.right.clean, closes_of_step (hc e he) (r.step_of_mem he)⟩

namespace Leaving

open OneMiner

-- A miner with a channel leaves, and the channel manager hears that its channel is closed.
def left : List Action :=
  opened 1 1 5 ++ own [.stop 1, .downstreamShutdown 1] ++ [.downstream]

theorem left_leaks : ((translator reference Sv1.Reference.core (config false false)).exec
    (.start reference (config false false)) left).any fun s =>
      s.sv1.status = .running ∧ s.sv1.todo = [] ∧ s.channelManagerToSv1Server = [] ∧
      s.sv1ServerToChannelManager = [] ∧ s.managerSession = s.sv1Session ∧
      s.sv1.server.downstreams = [] ∧ 5 ∈ s.manager.manager.extendedChannels.keys := by
  decide +kernel

-- The upstream closes the channel, the miner leaves, and another one comes. It leaves with the
-- upstream, and all start over.
def restarted : List Action :=
  opened 1 1 5 ++ [.frame (.mining (.closeChannel ⟨5, "done"⟩)), .upstream] ++
    own [.stop 1, .downstreamShutdown 1] ++ [.downstream] ++ opened 2 2 6 ++ own [.stop 2] ++
    [.sv1Fallback, .managerFallback, .connect]

theorem restarted_exec : ((translator reference Sv1.Reference.core (config false false)).exec
    (.start reference (config false false)) restarted).any (·.upstreamSession = 1) := by
  decide +kernel

def expects (s : Sv1.System) : Mining → Bool
  | .openExtendedMiningChannelSuccess m =>
    (s.server.requestIdToDownstreamId.lookup m.requestId).all fun d =>
      (s.getDownstream d).any (·.data.channelId.isNone)
  | _ => true

def closes? : Mining → Option ChannelId
  | .closeChannel m => some m.channelId
  | _               => none

def Frame.closes? : Frame → Option ChannelId
  | .mining m => Leaving.closes? m
  | _         => none

-- The condition, as it can be computed where no channel is aggregated.
def contained (e : Machine.Event (TranslatorSv2 reference) Action) : Bool :=
  match e.act with
  | .sv1 (.downstreamShutdown d) =>
    (e.pre.sv1.channelIdOf d).all (¬e.pre.manager.manager.Holds ·)
  | .sv1Server   => e.pre.channelManagerToSv1Server.head?.all (expects e.pre.sv1 ·.message)
  | .downstream  => e.pre.sv1ServerToChannelManager.head?.all fun q =>
    (closes? q.message).all (¬e.pre.manager.manager.Holds ·)
  | .upstream    => e.pre.manager.manager.mode = .nonAggregated &&
    e.pre.upstreamToChannelManager.head?.all fun q =>
      (Frame.closes? q.message).all (¬e.pre.manager.manager.Lingers ·)
  | .sv1Fallback => e.pre.managerSession ≤ e.pre.sv1Session
  | _            => true

theorem expects_sound {s : Sv1.System} {m : Mining} (h : expects s m) : s.Expects (.upstream m) := by
  cases m with
  | openExtendedMiningChannelSuccess m =>
    intro d hd
    rw [expects, hd, Option.all_some] at h
    obtain ⟨o, ho, hc⟩ := Option.any_eq_true _ _ |>.mp h
    exact ⟨o, ho, Option.isNone_iff_eq_none.mp hc⟩
  | _ => trivial

theorem contained_sound {e : Machine.Event (TranslatorSv2 reference) Action} (h : contained e) :
    Contained e.pre e.act := by
  constructor
  case shutdown =>
    intro d c he hd
    have h : ¬e.pre.manager.manager.Holds c := by simpa [contained, he, hd] using h
    exact ⟨fun hk => h (.inl hk), fun hc => absurd (.inr hc) h⟩
  case answer =>
    intro q qs he hq
    exact expects_sound (by simpa [contained, he, hq] using h)
  case closed =>
    intro q qs m he hq hm
    simpa [contained, he, hq, hm, closes?] using h
  case lost =>
    intro q qs m he hq hm c hc
    have h : e.pre.manager.manager.mode = .nonAggregated ∧
        ¬e.pre.manager.manager.Lingers m.channelId := by
      simpa [contained, he, hq, hm, closes?, Frame.closes?] using h
    obtain rfl | ⟨ha, _⟩ := hc
    · exact h.right
    · cases ha.symm.trans h.left
  case replaced =>
    intro q qs m he _ _ hm
    simp [contained, he, hm] at h
  case fallback =>
    intro he hlt
    have h : e.pre.managerSession ≤ e.pre.sv1Session := by simpa [contained, he] using h
    exact absurd hlt (Nat.not_lt_of_le h)

theorem restarted_closes : ((translator reference Sv1.Reference.core (config false false)).trace
    (.start reference (config false false)) restarted).any fun e =>
      e.act = .upstream && e.pre.manager.manager.Holds 5 && !e.post.manager.manager.Holds 5 := by
  decide +kernel

theorem restarted_contained : ((translator reference Sv1.Reference.core (config false false)).trace
    (.start reference (config false false)) restarted).all contained := by
  decide +kernel

end Leaving

open OneMiner Leaving in
theorem not_clean : ¬∀ tr s, (translator reference Sv1.Reference.core (config false false)).Run tr s →
    Clean s := by
  intro h
  obtain ⟨s, hs, hl⟩ := Option.any_eq_true _ _ |>.mp left_leaks
  have r := Machine.Run.of_exec (M := translator reference Sv1.Reference.core (config false false))
    rfl hs
  obtain ⟨hr, ht, hq, hq', hss, hd, hk⟩ := of_decide_eq_true hl
  obtain ⟨d, hd'⟩ := (h _ s r hr ht hq hq' hss).left 5 (.inl hk)
  have hmem := (Sv1.System.channelIdOf_eq_some.mp hd').left
  rw [hd] at hmem
  cases hmem

open OneMiner Leaving in
theorem clean_sample : ∃ tr s,
    (translator reference Sv1.Reference.core (config false false)).Run tr s ∧
    s.upstreamSession = 1 ∧ (∃ e ∈ tr, e.act = .upstream ∧ e.pre.manager.manager.Holds 5 ∧
      ¬e.post.manager.manager.Holds 5) ∧ ∀ e ∈ tr, Clean e.post ∧ Closes e := by
  obtain ⟨s, hs, hn⟩ := Option.any_eq_true _ _ |>.mp restarted_exec
  obtain ⟨e, he, hc⟩ := List.any_eq_true.mp restarted_closes
  simp only [Bool.and_eq_true, decide_eq_true_eq, Bool.not_eq_true', decide_eq_false_iff_not] at hc
  have r := Machine.Run.of_exec (M := translator reference Sv1.Reference.core (config false false))
    rfl hs
  refine ⟨_, s, r, of_decide_eq_true hn, ⟨e, he, hc.left.left, hc.left.right, hc.right⟩, ?_⟩
  refine clean_of_run reference_lawful r fun e he => ?_
  exact contained_sound (List.all_eq_true.mp restarted_contained e he)

end TranslatorSv2

end Translator
