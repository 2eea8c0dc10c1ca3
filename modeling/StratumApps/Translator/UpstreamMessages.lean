import StratumApps.Translator.ChannelManager

open Sv2 Handler StratumCore

namespace Translator

variable {C : TranslatorCore}

namespace ChannelManager

variable (cfg : Config) (s : ChannelManager C)

section Open

variable (m : OpenExtendedMiningChannelSuccess) (pending : PendingChannel)

def clientChannel (extranoncePrefix : B032) (size : UInt16) : C.Channel :=
  C.channel.new m.channelId pending.userIdentity extranoncePrefix.1 m.target pending.hashrate true size

-- The first range is the extranonce from the upstream, the second one what the translator adds, and
-- the third one what the miner rolls.
def extranonceFactory (downstreamExtranonceLen : ℕ) (msg : String) :
    Except (Fault TproxyError) C.Extranonce := do
  let len ← proxyExtranoncePrefixLen m.extranonceSize.toNat downstreamExtranonceLen
  let range0 := m.extranoncePrefix.1.length
  let range1 := range0 + len
  expect (C.extranonce.fromUpstreamExtranonce m.extranoncePrefix (0, range0) (range0, range1)
    (range1, range1 + downstreamExtranonceLen)).toOption msg

def insertChannel (channel : C.Channel) : ChannelManager C :=
  { s with extendedChannels := s.extendedChannels.insert m.channelId channel }

def openSuccess (extranoncePrefix : B032) (size : UInt16) : List RouteMessageTo :=
  [.sv1Server <| .openExtendedMiningChannelSuccess { m with
    extranoncePrefix := extranoncePrefix
    extranonceSize   := size }]

-- The upstream channel is replaced, whether there was one or not.
def openAggregated : Result C := do
  let upstream := clientChannel m pending m.extranoncePrefix m.extranonceSize
  let factory ← extranonceFactory m pending.downstreamExtranonceLen
    "Failed to create ExtendedExtranonce from upstream extranonce"
  let size := UInt16.ofNat (C.extranonce.getRange2Len factory)
  let r := C.extranonce.nextPrefixExtended factory size.toNat
  let extranoncePrefix ← expect r.1.toOption
    "next_prefix_extended should return a value for valid input"
  return ({ s.insertChannel m (clientChannel m pending extranoncePrefix size) with
    upstreamExtendedChannel := some upstream
    extranoncePrefixFactory := some r.2 }, openSuccess m extranoncePrefix size)

-- The upstream grants more than the miner rolls, and the rest is the translator's.
def openAdjusted : Result C := do
  let factory ← extranonceFactory m pending.downstreamExtranonceLen
    "Failed to create ExtendedExtranonce factory - likely extranonce size configuration issue"
  let r := C.extranonce.nextPrefixExtended factory pending.downstreamExtranonceLen
  let extranoncePrefix ← expect r.1.toOption "Failed to generate extranonce prefix"
  let size := UInt16.ofNat pending.downstreamExtranonceLen
  return ({ s.insertChannel m (clientChannel m pending extranoncePrefix size) with
    extranonceFactories := some <| (s.extranonceFactories.getD ∅).insert m.channelId r.2 },
    openSuccess m extranoncePrefix size)

def openUnadjusted : Result C :=
  return (s.insertChannel m (clientChannel m pending m.extranoncePrefix m.extranonceSize),
    openSuccess m m.extranoncePrefix m.extranonceSize)

def handleOpenExtendedMiningChannelSuccess : Result C := do
  let pending ← orErr (s.pendingChannels.lookup m.requestId.toNat)
    (.pendingChannelNotFound m.requestId)
  let s := { s with pendingChannels := s.pendingChannels.erase m.requestId.toNat }
  if s.mode = .aggregated then
    s.openAggregated m pending
  else if m.extranonceSize.toNat ≠ pending.downstreamExtranonceLen then
    s.openAdjusted m pending
  else
    s.openUnadjusted m pending

end Open

-- In aggregated mode the channels of the miners stay.
def handleCloseChannel (m : CloseChannel) : Result C :=
  if s.mode = .aggregated then
    return ({ s with upstreamExtendedChannel := none }, [])
  else
    return ({ s with extendedChannels := s.extendedChannels.erase m.channelId }, [])

-- What happens to the channels that a message is for: in aggregated mode the upstream channel and all
-- those of the miners, else the one channel.
def updateChannels (channelId : ChannelId) (upstream channel : C.Channel → C.Channel) :
    ChannelManager C :=
  if s.mode = .aggregated then
    { s with
      upstreamExtendedChannel := s.upstreamExtendedChannel.map upstream
      extendedChannels        := Map.mapValues channel s.extendedChannels }
  else
    { s with extendedChannels := s.extendedChannels.modify channelId channel }

-- All aggregated downstreams listen to the channel id 0.
def aggregatedJob (m : NewExtendedMiningJob) : NewExtendedMiningJob :=
  if s.mode = .aggregated ∧ s.upstreamExtendedChannel.isSome then { m with channelId := 0 } else m

def handleNewExtendedMiningJob (m : NewExtendedMiningJob) : Result C :=
  let job := s.aggregatedJob m
  return (s.updateChannels m.channelId (fun c => (C.channel.onNewExtendedMiningJob c m).2)
    (fun c => (C.channel.onNewExtendedMiningJob c job).2),
    if job.minNtime.isSome then [.sv1Server (.newExtendedMiningJob job)] else [])

def activeJob (channelId : ChannelId) : Option NewExtendedMiningJob :=
  if s.mode = .aggregated then
    (s.upstreamExtendedChannel.bind C.channel.getActiveJob).map ({ ·.1 with channelId := 0 })
  else
    ((s.extendedChannels.lookup channelId).bind C.channel.getActiveJob).map (·.1)

def handleSetNewPrevHash (m : SetNewPrevHashMp) : Result C :=
  let s := s.updateChannels m.channelId (fun c => (C.channel.onSetNewPrevHash c m).2)
    (fun c => (C.channel.onSetNewPrevHash c m).2)
  return (s, .sv1Server (.setNewPrevHash m) ::
    (s.activeJob m.channelId).toList.map (.sv1Server <| .newExtendedMiningJob ·))

def handleSetTarget (m : SetTarget) : Result C :=
  return (s.updateChannels m.channelId (C.channel.setTarget · m.maximumTarget)
    (C.channel.setTarget · m.maximumTarget), [.sv1Server (.setTarget m)])

-- A new extranonce prefix is ignored, since most miners cannot take one.
def handleMiningMessageFromServer : Mining → Result C
  | .openExtendedMiningChannelSuccess m => s.handleOpenExtendedMiningChannelSuccess m
  | .openMiningChannelError _           => return (s, [.upstreamShutdown .shutdown])
  | .updateChannelError _               => return (s, [])
  | .closeChannel m                     => s.handleCloseChannel m
  | .setExtranoncePrefix _              => return (s, [])
  | .submitSharesSuccess _              => return (s, [])
  | .submitSharesError _                => return (s, [])
  | .newMiningJob _                     => return (s, [])
  | .newExtendedMiningJob m             => s.handleNewExtendedMiningJob m
  | .setNewPrevHash m                   => s.handleSetNewPrevHash m
  | .setTarget m                        => s.handleSetTarget m
  | _                                   => throw (.err .unexpectedMessage)

def handleRequestExtensionsSuccess (msg : RequestExtensionsSuccess) : Result C :=
  let missing := cfg.requiredExtensions.filter (!msg.supportedExtensions.contains ·)
  if missing.isEmpty then
    return ({ s with negotiatedExtensions := msg.supportedExtensions }, [])
  else
    throw (.err (.general s!"Server does not support required extensions: {missing}"))

-- The translator asks again for the extensions that the server insists on, if it supports all of
-- them.
def handleRequestExtensionsError (msg : RequestExtensionsError) : Result C :=
  let missing := cfg.requiredExtensions.filter (msg.unsupportedExtensions.contains ·)
  let canSupport := msg.requiredExtensions.filter (cfg.supportedExtensions.contains ·)
  let cannotSupport := msg.requiredExtensions.filter (!cfg.supportedExtensions.contains ·)
  if !missing.isEmpty then
    throw (.err (.requiredExtensionsNotSupported missing))
  else if msg.requiredExtensions.isEmpty then
    return (s, [])
  else if !cannotSupport.isEmpty then
    throw (.err (.serverRequiresUnsupportedExtensions cannotSupport))
  else
    return (s, [.extensions (.requestExtensions ⟨msg.requestId + 1, canSupport⟩)])

def handleExtensionsMessageFromServer : Extensions → Result C
  | .requestExtensionsSuccess m => s.handleRequestExtensionsSuccess cfg m
  | .requestExtensionsError m   => s.handleRequestExtensionsError cfg m
  | _                           => throw (.err .unexpectedMessage)

end ChannelManager

-- What the upstream connection asks for once it is set up, when it requires anything.
def Config.requestExtensions (cfg : Config) :
    Except (Fault TproxyError) (Option RequestExtensions) := do
  if cfg.requiredExtensions.isEmpty then
    return none
  else
    let requested ← expect (if cfg.requiredExtensions.length ≤ 65535 then
      some cfg.requiredExtensions else none) "called `Result::unwrap()` on an `Err` value"
    return some ⟨1, requested⟩

end Translator
