import StratumApps.Lib.Handler
import StratumApps.Sv2.Extensions
import StratumApps.Translator.Interface

open Sv2 Handler StratumCore

namespace Translator

variable {C : TranslatorCore}

abbrev DownstreamId := ℕ

inductive ChannelMode
  | aggregated
  | nonAggregated
  deriving DecidableEq

inductive TproxyError
  | binarySv2
  | unexpectedMessage
  | shutdown
  | pendingChannelNotFound (requestId : RequestId)
  | requiredExtensionsNotSupported (extensions : List UInt16)
  | serverRequiresUnsupportedExtensions (extensions : List UInt16)
  | general (message : String)
  deriving DecidableEq

-- What the manager keeps of an open request until the upstream answers it.
structure PendingChannel where
  userIdentity            : String
  hashrate                : F32
  downstreamExtranonceLen : ℕ
  deriving DecidableEq

structure ChannelManager (C : TranslatorCore) where
  pendingChannels         : Map DownstreamId PendingChannel
  extendedChannels        : Map ChannelId C.Channel
  upstreamExtendedChannel : Option C.Channel
  extranoncePrefixFactory : Option C.Extranonce
  mode                    : ChannelMode
  shareSequenceCounters   : Map ChannelId UInt32
  extranonceFactories     : Option (Map ChannelId C.Extranonce)
  negotiatedExtensions    : List UInt16

structure Config where
  supportedExtensions : List UInt16
  requiredExtensions  : List UInt16

inductive RouteMessageTo
  | upstream (m : Mining)
  | extensions (m : Extensions)
  | sv1Server (m : Mining)
  | upstreamShutdown (e : TproxyError)
  deriving DecidableEq

abbrev Result (C : TranslatorCore) :=
  Except (Fault TproxyError) (ChannelManager C × List RouteMessageTo)

def aggregatedModeTranslatorSearchSpaceBytes : ℕ := 4

def unwrapNone : String := "called `Option::unwrap()` on a `None` value"

def subtractWithOverflow : String := "attempt to subtract with overflow"

-- The bytes between the extranonce that the upstream grants and the one of the miner.
def proxyExtranoncePrefixLen (channelRollableExtranonceSize downstreamRollableExtranonceSize : ℕ) :
    Except (Fault TproxyError) ℕ :=
  expect (if downstreamRollableExtranonceSize ≤ channelRollableExtranonceSize then
    some (channelRollableExtranonceSize - downstreamRollableExtranonceSize) else none)
    subtractWithOverflow

namespace ChannelManager

variable (cfg : Config) (s : ChannelManager C)

def new (mode : ChannelMode) : ChannelManager C where
  pendingChannels         := ∅
  extendedChannels        := ∅
  upstreamExtendedChannel := none
  extranoncePrefixFactory := none
  mode                    := mode
  shareSequenceCounters   := ∅
  extranonceFactories     := none
  negotiatedExtensions    := []

def resetForUpstreamReconnection : ChannelManager C :=
  .new s.mode

def nextShareSequenceNumber (counterKey : ChannelId) : UInt32 × ChannelManager C :=
  let current := (s.shareSequenceCounters.lookup counterKey).getD 1
  (current, { s with
    shareSequenceCounters := s.shareSequenceCounters.insert counterKey (current + 1) })

section Open

variable (m : OpenExtendedMiningChannel)

-- The id wraps around.
def nextChannelId : ChannelId :=
  s.extendedChannels.keys.foldr max 0 + 1

-- The identity up to its first dot.
def translatorIdentity (userIdentity : String) : String :=
  String.ofList (userIdentity.toList.takeWhile (· ≠ '.')) ++ ".translator-proxy"

-- The request as it goes to the upstream. The sum of the sizes is cut to its low bits.
def requestUpstreamChannel : ChannelManager C × List RouteMessageTo :=
  let size := m.minExtranonceSize.toNat
  let upstreamSize := if s.mode = .aggregated then
    size + aggregatedModeTranslatorSearchSpaceBytes else size
  ({ s with pendingChannels := s.pendingChannels.insert m.requestId.toNat {
      userIdentity            := m.userIdentity
      hashrate                := m.nominalHashRate
      downstreamExtranonceLen := size } },
    [.upstream <| .openExtendedMiningChannel {
      m with minExtranonceSize := UInt16.ofNat upstreamSize }])

-- A new channel is told the tip of the upstream and its active job. Without an active job it is not
-- told the tip, and its future jobs it is never told.
def copyJob (upstream channel : C.Channel) (channelId : ChannelId) :
    C.Channel × List RouteMessageTo :=
  match C.channel.getActiveJob upstream with
  | none     => (channel, [])
  | some job =>
    let channel := (C.channel.getChainTip upstream).elim channel (C.channel.setChainTip channel)
    let job := { job.1 with channelId := channelId }
    ((C.channel.onNewExtendedMiningJob channel job).2, [.sv1Server (.newExtendedMiningJob job)])

def derivedChannel (upstream : C.Channel) (extranoncePrefix : B032) (size : ℕ) : C.Channel :=
  C.channel.new s.nextChannelId m.userIdentity extranoncePrefix.1 (C.channel.getTarget upstream)
    m.nominalHashRate true (UInt16.ofNat size)

def openDerivedChannel (upstream : C.Channel) (extranoncePrefix : B032) (size : ℕ) :
    ChannelManager C × List RouteMessageTo :=
  let channelId := s.nextChannelId
  let r := copyJob upstream (s.derivedChannel m upstream extranoncePrefix size) channelId
  ({ s with extendedChannels := s.extendedChannels.insert channelId r.1 },
    .sv1Server (.openExtendedMiningChannelSuccess {
      requestId        := m.requestId
      channelId        := channelId
      target           := C.channel.getTarget upstream
      extranonceSize   := UInt16.ofNat size
      extranoncePrefix := extranoncePrefix }) :: r.2)

-- The one upstream channel is there, and the request is answered with a prefix of its own. When there
-- is no prefix, or too little room behind it, there is no answer.
def deriveChannel (upstream : C.Channel) : Result C := do
  let factory ← expect s.extranoncePrefixFactory unwrapNone
  let r := C.extranonce.nextPrefixExtended factory m.minExtranonceSize.toNat
  let s := { s with extranoncePrefixFactory := some r.2 }
  let size := C.extranonce.getRange2Len r.2
  match r.1 with
  | .error _             => return (s, [])
  | .ok extranoncePrefix =>
    if m.minExtranonceSize.toNat ≤ size then
      return s.openDerivedChannel m upstream extranoncePrefix size
    else
      return (s, [])

def handleOpenExtendedMiningChannel : Result C :=
  if s.mode = .aggregated then
    match s.upstreamExtendedChannel with
    | some upstream => s.deriveChannel m upstream
    | none          => do
      let identity := translatorIdentity m.userIdentity
      let userIdentity ← expect (if identity.utf8ByteSize ≤ 255 then some identity else none)
        "called `Result::unwrap()` on an `Err` value"
      return s.requestUpstreamChannel { m with userIdentity := userIdentity }
  else
    return s.requestUpstreamChannel m

end Open

section Shares

variable (m : SubmitSharesExtended)

-- The extranonce behind the prefix of the upstream: the bytes of the translator and those of the
-- miner. A channel that is not there changes nothing.
def adjustExtranonce (channel : Option C.Channel) (range0Len : ℕ) :
    Except (Fault TproxyError) B032 :=
  match channel with
  | none         => return m.extranonce
  | some channel => do
    let extranoncePrefix := C.channel.getExtranoncePrefix channel
    let translatorPrefix ← expect (if range0Len ≤ extranoncePrefix.length then
      some (extranoncePrefix.drop range0Len) else none) "range start index out of range"
    orErr (Bytes.tryInto 32 (translatorPrefix ++ m.extranonce.1)) .binarySv2

def forwardAggregated (upstream : C.Channel) : Result C := do
  let channelId := C.channel.getChannelId upstream
  let r := s.nextShareSequenceNumber channelId
  let factory ← expect s.extranoncePrefixFactory unwrapNone
  let extranonce ← adjustExtranonce m (s.extendedChannels.lookup m.channelId)
    (C.extranonce.getRange0Len factory)
  return (r.2, [.upstream <| .submitSharesExtended { m with
    sequenceNumber := r.1
    extranonce     := extranonce
    channelId      := channelId }])

-- Only a channel with a factory of its own has bytes of the translator.
def adjustNonAggregated : Except (Fault TproxyError) B032 :=
  match s.extranonceFactories.bind (·.lookup m.channelId) with
  | none         => return m.extranonce
  | some factory => adjustExtranonce m (s.extendedChannels.lookup m.channelId)
    (C.extranonce.getRange0Len factory)

def forwardNonAggregated : Result C := do
  let r := s.nextShareSequenceNumber m.channelId
  let extranonce ← s.adjustNonAggregated m
  return (r.2, [.upstream <| .submitSharesExtended { m with
    sequenceNumber := r.1
    extranonce     := extranonce }])

-- A share is judged by the channel of its miner. The source takes the second branch also when the
-- upstream channel of the aggregated mode is gone.
def handleSubmitSharesExtended : Result C :=
  match s.extendedChannels.lookup m.channelId with
  | none         => return (s, [])
  | some channel =>
    let r := C.channel.validateShare channel m
    let s := { s with extendedChannels := s.extendedChannels.insert m.channelId r.2 }
    match r.1, s.mode, s.upstreamExtendedChannel with
    | .error _, _, _                     => return (s, [])
    | .ok _, .aggregated, some upstream  => s.forwardAggregated m upstream
    | .ok _, _, _                        => s.forwardNonAggregated m

end Shares

def handleUpdateChannel (m : UpdateChannel) : Result C :=
  if s.mode = .aggregated then do
    let upstream ← expect s.upstreamExtendedChannel unwrapNone
    return (s, [.upstream <| .updateChannel { m with channelId := C.channel.getChannelId upstream }])
  else
    return (s, [.upstream (.updateChannel m)])

-- What the SV1 server sends. Other messages are dropped.
def handleDownstreamMessage : Mining → Result C
  | .openExtendedMiningChannel m => s.handleOpenExtendedMiningChannel m
  | .submitSharesExtended m      => s.handleSubmitSharesExtended m
  | .updateChannel m             => s.handleUpdateChannel m
  | .closeChannel m              => return (s, [.upstream (.closeChannel m)])
  | _                            => return (s, [])

end ChannelManager

end Translator
