import StratumApps.Translator.UpstreamMessages

open Sv2 Handler StratumCore

namespace Translator

variable {C : TranslatorCore}

namespace ChannelManager

-- What a share that the channel of its miner has accepted becomes.
structure Forwards (s : ChannelManager C) (m : SubmitSharesExtended) (channelId : ChannelId)
    (extranonce : Except (Fault TproxyError) B032) (s' : ChannelManager C)
    (messages : List RouteMessageTo) : Prop where
  exists_extranonce : ∃ e, extranonce = .ok e ∧ s' = (s.nextShareSequenceNumber channelId).2 ∧
    messages = [.upstream <| .submitSharesExtended { m with
      sequenceNumber := (s.nextShareSequenceNumber channelId).1
      extranonce     := e
      channelId      := channelId }]

-- The channel of a miner has judged a share.
def judged (s : ChannelManager C) (m : SubmitSharesExtended) (channel : C.Channel) :
    ChannelManager C :=
  { s with
    extendedChannels := s.extendedChannels.insert m.channelId (C.channel.validateShare channel m).2 }

-- The prefix with which an open request is answered at once.
def prefixFor (s : ChannelManager C) (m : OpenExtendedMiningChannel) : Option B032 :=
  s.extranoncePrefixFactory.bind fun factory =>
    let r := C.extranonce.nextPrefixExtended factory m.minExtranonceSize.toNat
    if m.minExtranonceSize.toNat ≤ C.extranonce.getRange2Len r.2 then r.1.toOption else none

section Handles

-- What the manager may do with a message of the SV1 server.
inductive Handles (s : ChannelManager C) :
    Mining → ChannelManager C → List RouteMessageTo → Prop
  | derived {m : OpenExtendedMiningChannel} {upstream : C.Channel} {factory factory' : C.Extranonce}
      {extranoncePrefix : B032} :
    s.mode = .aggregated → s.upstreamExtendedChannel = some upstream →
    s.extranoncePrefixFactory = some factory →
    C.extranonce.nextPrefixExtended factory m.minExtranonceSize.toNat =
      (.ok extranoncePrefix, factory') →
    m.minExtranonceSize.toNat ≤ C.extranonce.getRange2Len factory' →
    Handles s (.openExtendedMiningChannel m)
      ({ s with extranoncePrefixFactory := some factory' }.openDerivedChannel m upstream
        extranoncePrefix (C.extranonce.getRange2Len factory')).1
      ({ s with extranoncePrefixFactory := some factory' }.openDerivedChannel m upstream
        extranoncePrefix (C.extranonce.getRange2Len factory')).2
  | unanswered {m : OpenExtendedMiningChannel} {upstream : C.Channel}
      {factory factory' : C.Extranonce} {r : Except ExtendedExtranonceError B032} :
    s.mode = .aggregated → s.upstreamExtendedChannel = some upstream →
    s.extranoncePrefixFactory = some factory →
    C.extranonce.nextPrefixExtended factory m.minExtranonceSize.toNat = (r, factory') →
    (∀ p, r = .ok p → C.extranonce.getRange2Len factory' < m.minExtranonceSize.toNat) →
    Handles s (.openExtendedMiningChannel m)
      { s with extranoncePrefixFactory := some factory' } []
  | requested {m : OpenExtendedMiningChannel} {userIdentity : String} :
    (s.mode = .aggregated → s.upstreamExtendedChannel = none ∧
      (translatorIdentity m.userIdentity).utf8ByteSize ≤ 255) →
    Handles s (.openExtendedMiningChannel m)
      (s.requestUpstreamChannel { m with userIdentity := userIdentity }).1
      (s.requestUpstreamChannel { m with userIdentity := userIdentity }).2
  | unknown {m : SubmitSharesExtended} :
    s.extendedChannels.lookup m.channelId = none → Handles s (.submitSharesExtended m) s []
  | invalid {m : SubmitSharesExtended} {channel : C.Channel} {e : ShareValidationError} :
    s.extendedChannels.lookup m.channelId = some channel →
    (C.channel.validateShare channel m).1 = .error e →
    Handles s (.submitSharesExtended m) (s.judged m channel) []
  | aggregated {m : SubmitSharesExtended} {channel upstream : C.Channel} {factory : C.Extranonce}
      {r : ClientShareValidationResult} {s' : ChannelManager C} {messages : List RouteMessageTo} :
    s.extendedChannels.lookup m.channelId = some channel →
    (C.channel.validateShare channel m).1 = .ok r →
    s.mode = .aggregated → s.upstreamExtendedChannel = some upstream →
    s.extranoncePrefixFactory = some factory →
    (s.judged m channel).Forwards m (C.channel.getChannelId upstream)
      (adjustExtranonce m (some (C.channel.validateShare channel m).2)
        (C.extranonce.getRange0Len factory)) s' messages →
    Handles s (.submitSharesExtended m) s' messages
  | nonAggregated {m : SubmitSharesExtended} {channel : C.Channel}
      {r : ClientShareValidationResult} {s' : ChannelManager C} {messages : List RouteMessageTo} :
    s.extendedChannels.lookup m.channelId = some channel →
    (C.channel.validateShare channel m).1 = .ok r →
    (s.mode = .aggregated → s.upstreamExtendedChannel = none) →
    (s.judged m channel).Forwards m m.channelId ((s.judged m channel).adjustNonAggregated m) s'
      messages →
    Handles s (.submitSharesExtended m) s' messages
  | updated {m m' : UpdateChannel} :
    (s.mode = .aggregated → s.upstreamExtendedChannel.isSome) →
    Handles s (.updateChannel m) s [.upstream (.updateChannel m')]
  | closed {m : CloseChannel} : Handles s (.closeChannel m) s [.upstream (.closeChannel m)]
  | dropped {m : Mining} : (∀ m', m ≠ .openExtendedMiningChannel m') →
    (∀ m', m ≠ .submitSharesExtended m') → Handles s m s []

variable {s s' : ChannelManager C} {messages : List RouteMessageTo}

theorem handles_of_ok {m : Mining} (h : s.handleDownstreamMessage m = .ok (s', messages)) :
    s.Handles m s' messages := by
  rw [handleDownstreamMessage.eq_def] at h
  split at h
  case h_1 m =>
    rw [handleOpenExtendedMiningChannel] at h
    split at h
    case isFalse hm =>
      cases h
      exact .requested (m := m) (fun hm' => absurd hm' hm)
    case isTrue hm =>
      split at h
      case h_2 hu =>
        simp only [bind_eq_ok, expect_eq_ok, Option.ite_none_right_eq_some] at h
        obtain ⟨userIdentity, ⟨hi, _⟩, h⟩ := h
        cases h
        exact .requested fun _ => ⟨hu, hi⟩
      case h_1 upstream hu =>
        simp only [deriveChannel, bind_eq_ok, expect_eq_ok] at h
        obtain ⟨factory, hf, h⟩ := h
        split at h
        case h_1 e he =>
          cases h
          exact .unanswered hm hu hf rfl (by simp [he])
        case h_2 p hp =>
          split at h
          case isTrue hl =>
            cases h
            exact .derived hm hu hf (Prod.ext hp rfl) hl
          case isFalse hl =>
            cases h
            exact .unanswered hm hu hf rfl fun _ _ => Nat.lt_of_not_le hl
  case h_2 m =>
    rw [handleSubmitSharesExtended] at h
    split at h
    case h_1 hc =>
      cases h
      exact .unknown hc
    case h_2 channel hc =>
      dsimp only at h
      split at h
      case h_1 e _ _ he =>
        cases h
        exact .invalid hc he
      case h_2 upstream r hr hm hu =>
        simp only [forwardAggregated, bind_eq_ok, expect_eq_ok, AList.lookup_insert] at h
        obtain ⟨factory, hf, e, he, h⟩ := h
        cases h
        exact .aggregated hc hr hm hu hf ⟨e, he, rfl, rfl⟩
      case h_3 r hr _ =>
        simp only [forwardNonAggregated, bind_eq_ok] at h
        obtain ⟨e, he, h⟩ := h
        cases h
        refine .nonAggregated hc hr ?_ ⟨e, he, rfl, rfl⟩
        intro hm
        cases hu : s.upstreamExtendedChannel with
        | none   => rfl
        | some u => simp_all
  case h_3 m =>
    rw [handleUpdateChannel] at h
    split at h
    case isTrue hm =>
      simp only [bind_eq_ok, expect_eq_ok] at h
      obtain ⟨upstream, hu, h⟩ := h
      cases h
      exact .updated fun _ => by simp [hu]
    case isFalse hm =>
      cases h
      exact .updated fun hm' => absurd hm' hm
  case h_4 m =>
    cases h
    exact .closed
  case h_5 ho hs _ _ =>
    cases h
    exact .dropped ho hs

end Handles

section Follows

-- What the manager may do with a message of the upstream.
inductive Follows (s : ChannelManager C) :
    Mining → ChannelManager C → List RouteMessageTo → Prop
  | aggregated {m : OpenExtendedMiningChannelSuccess} {pending : PendingChannel}
      {factory factory' : C.Extranonce} {extranoncePrefix : B032} {size : UInt16} :
    s.pendingChannels.lookup m.requestId.toNat = some pending → s.mode = .aggregated →
    pending.downstreamExtranonceLen ≤ m.extranonceSize.toNat →
    (∃ r₁ r₂, C.extranonce.fromUpstreamExtranonce m.extranoncePrefix
      (0, m.extranoncePrefix.1.length) r₁ r₂ = .ok factory) →
    C.extranonce.nextPrefixExtended factory size.toNat = (.ok extranoncePrefix, factory') →
    Follows s (.openExtendedMiningChannelSuccess m)
      { s with
        pendingChannels         := s.pendingChannels.erase m.requestId.toNat
        upstreamExtendedChannel :=
          some (clientChannel m pending m.extranoncePrefix m.extranonceSize)
        extranoncePrefixFactory := some factory'
        extendedChannels        := s.extendedChannels.insert m.channelId
          (clientChannel m pending extranoncePrefix size) }
      (openSuccess m extranoncePrefix size)
  | adjusted {m : OpenExtendedMiningChannelSuccess} {pending : PendingChannel}
      {factory factory' : C.Extranonce} {extranoncePrefix : B032} {size : UInt16} :
    s.pendingChannels.lookup m.requestId.toNat = some pending → s.mode ≠ .aggregated →
    m.extranonceSize.toNat ≠ pending.downstreamExtranonceLen →
    pending.downstreamExtranonceLen ≤ m.extranonceSize.toNat →
    (∃ r₁ r₂, C.extranonce.fromUpstreamExtranonce m.extranoncePrefix
      (0, m.extranoncePrefix.1.length) r₁ r₂ = .ok factory) →
    C.extranonce.nextPrefixExtended factory pending.downstreamExtranonceLen =
      (.ok extranoncePrefix, factory') →
    Follows s (.openExtendedMiningChannelSuccess m)
      { s with
        pendingChannels     := s.pendingChannels.erase m.requestId.toNat
        extranonceFactories :=
          some ((s.extranonceFactories.getD ∅).insert m.channelId factory')
        extendedChannels    := s.extendedChannels.insert m.channelId
          (clientChannel m pending extranoncePrefix size) }
      (openSuccess m extranoncePrefix size)
  | unadjusted {m : OpenExtendedMiningChannelSuccess} {pending : PendingChannel} :
    s.pendingChannels.lookup m.requestId.toNat = some pending → s.mode ≠ .aggregated →
    m.extranonceSize.toNat = pending.downstreamExtranonceLen →
    Follows s (.openExtendedMiningChannelSuccess m)
      { s with
        pendingChannels  := s.pendingChannels.erase m.requestId.toNat
        extendedChannels := s.extendedChannels.insert m.channelId
          (clientChannel m pending m.extranoncePrefix m.extranonceSize) }
      (openSuccess m m.extranoncePrefix m.extranonceSize)
  | closed {m : CloseChannel} : s.mode = .aggregated →
    Follows s (.closeChannel m) { s with upstreamExtendedChannel := none } []
  | erased {m : CloseChannel} : s.mode ≠ .aggregated →
    Follows s (.closeChannel m)
      { s with extendedChannels := s.extendedChannels.erase m.channelId } []
  | job {m : NewExtendedMiningJob} :
    Follows s (.newExtendedMiningJob m)
      (s.updateChannels m.channelId (fun c => (C.channel.onNewExtendedMiningJob c m).2)
        (fun c => (C.channel.onNewExtendedMiningJob c (s.aggregatedJob m)).2))
      (if (s.aggregatedJob m).minNtime.isSome then
        [.sv1Server (.newExtendedMiningJob (s.aggregatedJob m))] else [])
  | prevHash {m : SetNewPrevHashMp} {jobs : List NewExtendedMiningJob} :
    Follows s (.setNewPrevHash m)
      (s.updateChannels m.channelId (fun c => (C.channel.onSetNewPrevHash c m).2)
        (fun c => (C.channel.onSetNewPrevHash c m).2))
      (.sv1Server (.setNewPrevHash m) :: jobs.map (.sv1Server <| .newExtendedMiningJob ·))
  | target {m : SetTarget} :
    Follows s (.setTarget m)
      (s.updateChannels m.channelId (C.channel.setTarget · m.maximumTarget)
        (C.channel.setTarget · m.maximumTarget)) [.sv1Server (.setTarget m)]
  | ignored {m : Mining} {messages : List RouteMessageTo} :
    (∀ m', m ≠ .openExtendedMiningChannelSuccess m') →
    (∀ o ∈ messages, ∃ e, o = .upstreamShutdown e) → Follows s m s messages

variable {s s' : ChannelManager C} {messages : List RouteMessageTo}

theorem extranonceFactory_eq_ok {m : OpenExtendedMiningChannelSuccess} {n : ℕ} {msg : String}
    {factory : C.Extranonce} (h : extranonceFactory m n msg = .ok factory) :
    n ≤ m.extranonceSize.toNat ∧ ∃ r₁ r₂, C.extranonce.fromUpstreamExtranonce m.extranoncePrefix
      (0, m.extranoncePrefix.1.length) r₁ r₂ = .ok factory := by
  simp only [extranonceFactory, proxyExtranoncePrefixLen, bind_eq_ok, expect_eq_ok,
    Option.ite_none_right_eq_some, toOption_eq_some] at h
  obtain ⟨_, ⟨hn, _⟩, h⟩ := h
  exact ⟨hn, _, _, h⟩

theorem follows_of_ok {m : Mining} (h : s.handleMiningMessageFromServer m = .ok (s', messages)) :
    s.Follows m s' messages := by
  rw [handleMiningMessageFromServer.eq_def] at h
  split at h
  case h_1 m =>
    simp only [handleOpenExtendedMiningChannelSuccess, bind_eq_ok, orErr_eq_ok] at h
    obtain ⟨pending, hp, h⟩ := h
    split at h
    case isTrue hm =>
      simp only [openAggregated, bind_eq_ok, expect_eq_ok] at h
      obtain ⟨factory, hf, p, hn, h⟩ := h
      cases h
      obtain ⟨hl, hf⟩ := extranonceFactory_eq_ok hf
      exact .aggregated hp hm hl hf (Prod.ext (toOption_eq_some.mp hn) rfl)
    case isFalse hm =>
      split at h
      case isTrue hs =>
        simp only [openAdjusted, bind_eq_ok, expect_eq_ok] at h
        obtain ⟨factory, hf, p, hn, h⟩ := h
        cases h
        obtain ⟨hl, hf⟩ := extranonceFactory_eq_ok hf
        exact .adjusted hp hm hs hl hf (Prod.ext (toOption_eq_some.mp hn) rfl)
      case isFalse hs =>
        cases h
        exact .unadjusted hp hm (not_not.mp hs)
  case h_4 m =>
    rw [handleCloseChannel] at h
    split at h
    case isTrue hm =>
      cases h
      exact .closed hm
    case isFalse hm =>
      cases h
      exact .erased hm
  case h_9 m =>
    cases h
    exact .job
  case h_10 m =>
    cases h
    exact .prevHash
  case h_11 m =>
    cases h
    exact .target
  case h_12 => cases h
  all_goals
    cases h
    refine .ignored ?_ ?_ <;> simp

end Follows

variable {cfg : Config} {s s' : ChannelManager C} {messages : List RouteMessageTo}

theorem negotiates_of_ok {m : Extensions}
    (h : s.handleExtensionsMessageFromServer cfg m = .ok (s', messages)) :
    (∃ extensions, s' = { s with negotiatedExtensions := extensions }) ∧
      ∀ o ∈ messages, ∃ m', o = .extensions m' := by
  rw [handleExtensionsMessageFromServer.eq_def] at h
  split at h
  case h_1 =>
    simp only [handleRequestExtensionsSuccess] at h
    split at h <;> cases h
    exact ⟨⟨_, rfl⟩, by simp⟩
  case h_2 =>
    simp only [handleRequestExtensionsError] at h
    repeat' split at h
    all_goals cases h
    · exact ⟨⟨_, rfl⟩, by simp⟩
    · exact ⟨⟨_, rfl⟩, by simp⟩
  case h_3 => cases h

end ChannelManager

end Translator
