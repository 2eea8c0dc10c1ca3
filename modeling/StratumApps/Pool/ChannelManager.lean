import StratumApps.Lib.Handler
import StratumApps.StratumCore.Interface

open Sv2 Handler StratumCore

namespace Pool

variable {C : StratumCore}

abbrev DownstreamId := ℕ

abbrev VardiffKey := DownstreamId × ChannelId

inductive ChannelSv2Error
  | extendedChannelServerSide (e : ExtendedChannelError)
  | standardChannelServerSide (e : StandardChannelError)
  | groupChannelServerSide (e : GroupChannelError)
  | extranonceError (e : ExtendedExtranonceError)
  | shareValidationError (e : ShareValidationError)
  deriving DecidableEq

inductive PoolError
  | channelSv2 (e : ChannelSv2Error)
  | binarySv2
  | vardiff (e : VardiffError)
  | unexpectedMessage
  | channelErrorSender
  | bitcoinEncodeError (e : EncodeError)
  | downstreamNotFound (d : DownstreamId)
  | downstreamIdNotFound
  | futureTemplateNotPresent
  | lastNewPrevhashNotFound
  | vardiffNotFound (c : ChannelId)
  | failedToCreateGroupChannel (e : GroupChannelError)
  deriving DecidableEq

namespace PoolError

def extended (e : ExtendedChannelError) : PoolError :=
  channelSv2 (.extendedChannelServerSide e)

def standard (e : StandardChannelError) : PoolError :=
  channelSv2 (.standardChannelServerSide e)

def group (e : GroupChannelError) : PoolError :=
  channelSv2 (.groupChannelServerSide e)

def extranonce (e : ExtendedExtranonceError) : PoolError :=
  channelSv2 (.extranonceError e)

def shareValidation (e : ShareValidationError) : PoolError :=
  channelSv2 (.shareValidationError e)

end PoolError

-- The two flags and the data of a downstream, which the source keeps behind a lock of its own.
structure Downstream (C : StratumCore) where
  requiresStandardJobs : Bool
  requiresCustomWork   : Bool
  groupChannels        : Option C.Group
  extendedChannels     : Map ChannelId C.Extended
  standardChannels     : Map ChannelId C.Standard
  channelIdFactory     : ChannelId
  negotiatedExtensions : List UInt16

def Downstream.new : Downstream C where
  requiresStandardJobs := false
  requiresCustomWork   := false
  groupChannels        := none
  extendedChannels     := ∅
  standardChannels     := ∅
  channelIdFactory     := 1
  negotiatedExtensions := []

-- A share as it is written to the persistence backend, but for the time of writing.
structure ShareEvent where
  errorCode              : Option String
  extranoncePrefix       : Bytes
  isBlockFound           : Bool
  isValid                : Bool
  nominalHashRate        : F32
  nonce                  : UInt32
  ntime                  : UInt32
  rollableExtranonceSize : Option UInt16
  shareHash              : Option U256
  shareWork              : F64
  target                 : Target
  templateId             : Option TemplateId
  userIdentity           : String
  version                : UInt32
  deriving DecidableEq

-- `persisted` is what the manager has handed to the persistence backend.
structure ChannelManager (C : StratumCore) where
  downstream                      : Map DownstreamId (Downstream C)
  extranoncePrefixFactoryExtended : C.Extranonce
  extranoncePrefixFactoryStandard : C.Extranonce
  downstreamIdFactory             : DownstreamId
  vardiff                         : Map VardiffKey C.VardiffState
  coinbaseOutputs                 : Bytes
  lastNewPrevHash                 : Option SetNewPrevHash
  lastFutureTemplate              : Option NewTemplate
  persisted                       : List ShareEvent

structure Config where
  poolTagString        : String
  shareBatchSize       : ℕ
  sharesPerMinute      : F32
  coinbaseRewardScript : Bytes
  serverId             : UInt16

inductive RouteMessageTo
  | templateProvider (m : TemplateDistribution)
  | downstream (d : DownstreamId) (m : Mining)
  deriving DecidableEq

abbrev Result (C : StratumCore) :=
  Except (Fault PoolError) (ChannelManager C × List RouteMessageTo)

def fullExtranonceSize : ℕ := 4 + 16

def Config.poolCoinbaseOutput (cfg : Config) (template : NewTemplate) : TxOut where
  value        := template.coinbaseTxValueRemaining
  scriptPubkey := cfg.coinbaseRewardScript

-- The future job of a template that the channel has just got, with the id it is stored under.
def futureJobOf {κ μ ε : Type} (J : JobStore κ μ ε) (c : κ) (t : TemplateId) :
    Except (Fault PoolError) (JobId × Job μ) := do
  let jobId ← expect ((J.getFutureTemplateToJobId c).lookup t) "future job id must exist"
  let job ← expect ((J.getFutureJobs c).lookup jobId) "future job must exist"
  return (jobId, job)

def setNewPrevHashMp (channelId : ChannelId) (jobId : JobId) (p : SetNewPrevHash) : Mining :=
  .setNewPrevHash {
    channelId := channelId
    jobId     := jobId
    prevHash  := p.prevHash
    minNtime  := p.headerTimestamp
    nbits     := p.nBits }

namespace ChannelManager

variable (cfg : Config) (s : ChannelManager C) (d : DownstreamId)

def setDownstream (downstream : Downstream C) : ChannelManager C :=
  { s with downstream := s.downstream.insert d downstream }

def handleCloseChannel (msg : CloseChannel) : Result C := do
  let downstream ← orErr (s.downstream.lookup d) (.downstreamNotFound d)
  let s := s.setDownstream d { downstream with
    standardChannels := downstream.standardChannels.erase msg.channelId
    extendedChannels := downstream.extendedChannels.erase msg.channelId }
  return ({ s with vardiff := s.vardiff.erase (d, msg.channelId) }, [])

def openMiningChannelError (requestId : RequestId) (errorCode : String) : RouteMessageTo :=
  .downstream d (.openMiningChannelError ⟨requestId, errorCode⟩)

def newGroupChannel (channelId : ChannelId) (template : NewTemplate) (prevHash : SetNewPrevHash) :
    Except (Fault PoolError) C.Group := do
  let group ← ofExcept .failedToCreateGroupChannel <|
    C.group.newForPool channelId fullExtranonceSize cfg.poolTagString
  let (_, group) ← attempt .group <|
    C.group.onNewTemplate group template [cfg.poolCoinbaseOutput template]
  let (_, group) ← attempt .group <| C.group.onSetNewPrevHash group prevHash
  return group

-- A downstream that takes group jobs gets its group channel with its first standard channel.
def ensureGroupChannel (downstream : Downstream C) (template : NewTemplate)
    (prevHash : SetNewPrevHash) : Except (Fault PoolError) (Downstream C) := do
  if !downstream.requiresStandardJobs && downstream.groupChannels.isNone then
    let group ← newGroupChannel cfg downstream.channelIdFactory template prevHash
    return { downstream with
      groupChannels    := some group
      channelIdFactory := downstream.channelIdFactory + 1 }
  else
    return downstream

def standardChannelErrorCode : StandardChannelError → Option String
  | .invalidNominalHashrate       => some "invalid-nominal-hashrate"
  | .requestedMaxTargetOutOfRange => some "max-target-out-of-range"
  | .other _                      => none

def standardParams (channelId : ChannelId) (extranoncePrefix : Bytes)
    (msg : OpenStandardMiningChannel) : ChannelParams where
  channelId          := channelId
  userIdentity       := msg.userIdentity
  extranoncePrefix   := extranoncePrefix
  requestedMaxTarget := msg.maxTarget
  nominalHashrate    := msg.nominalHashRate
  shareBatchSize     := cfg.shareBatchSize
  sharesPerMinute    := cfg.sharesPerMinute

-- The new standard channel gets the last future template and at once the last prev hash.
def startStandardChannel (downstream : Downstream C) (channel : C.Standard) (channelId : ChannelId)
    (msg : OpenStandardMiningChannel) (template : NewTemplate) (prevHash : SetNewPrevHash) :
    Result C := do
  let extranoncePrefix ← expect ((C.standard.getExtranoncePrefix channel).tryInto 32)
    "Extranonce_prefix must be valid"
  let success : OpenStandardMiningChannelSuccess := {
    requestId        := msg.requestId
    channelId        := channelId
    target           := C.standard.getTarget channel
    extranoncePrefix := extranoncePrefix
    groupChannelId   := downstream.groupChannels.elim 0 C.group.getChannelId }
  let (_, channel) ← attempt .standard <|
    C.standard.onNewTemplate channel template [cfg.poolCoinbaseOutput template]
  let (jobId, job) ← futureJobOf C.standard.toJobStore channel template.templateId
  let (_, channel) ← attempt .standard <| C.standard.onSetNewPrevHash channel prevHash
  let vardiff ← ofExcept .vardiff C.vardiff.new
  let s := s.setDownstream d { downstream with
    standardChannels := downstream.standardChannels.insert channelId channel
    groupChannels    := downstream.groupChannels.map (C.group.addStandardChannelId · channelId) }
  return ({ s with vardiff := s.vardiff.insert (d, channelId) vardiff }, [
    .downstream d (.openStandardMiningChannelSuccess success),
    .downstream d (.newMiningJob job.jobMessage),
    .downstream d (setNewPrevHashMp channelId jobId prevHash)])

def openStandardChannel (downstream : Downstream C) (extranoncePrefix : Bytes)
    (msg : OpenStandardMiningChannel) (template : NewTemplate) (prevHash : SetNewPrevHash) :
    Result C :=
  let channelId := downstream.channelIdFactory
  let downstream := { downstream with channelIdFactory := channelId + 1 }
  match C.standard.newForPool (standardParams cfg channelId extranoncePrefix msg)
      cfg.poolTagString with
  | .ok channel => s.startStandardChannel cfg d downstream channel channelId msg template prevHash
  | .error e    =>
    match standardChannelErrorCode e with
    | some errorCode =>
      return (s.setDownstream d downstream, [openMiningChannelError d msg.requestId errorCode])
    | none => throw (.err .channelErrorSender)

def handleOpenStandardMiningChannel (msg : OpenStandardMiningChannel) : Result C := do
  let downstream ← orErr (s.downstream.lookup d) .downstreamIdNotFound
  if downstream.requiresCustomWork then
    return (s, [openMiningChannelError d msg.requestId
      "standard-channels-not-supported-for-custom-work"])
  else
    let template ← orErr s.lastFutureTemplate .futureTemplateNotPresent
    let prevHash ← orErr s.lastNewPrevHash .lastNewPrevhashNotFound
    let downstream ← ensureGroupChannel cfg downstream template prevHash
    let (extranoncePrefix, factory) ← attempt .extranonce <|
      C.extranonce.nextPrefixStandard s.extranoncePrefixFactoryStandard
    let s := { s with extranoncePrefixFactoryStandard := factory }
    s.openStandardChannel cfg d downstream extranoncePrefix msg template prevHash

def extendedChannelErrorCode : ExtendedChannelError → Option String
  | .invalidNominalHashrate             => some "invalid-nominal-hashrate"
  | .requestedMaxTargetOutOfRange       => some "max-target-out-of-range"
  | .requestedMinExtranonceSizeTooLarge => some "min-extranonce-size-too-large"
  | .other _                            => none

def extendedParams (channelId : ChannelId) (extranoncePrefix : Bytes)
    (msg : OpenExtendedMiningChannel) : ChannelParams where
  channelId          := channelId
  userIdentity       := msg.userIdentity
  extranoncePrefix   := extranoncePrefix
  requestedMaxTarget := msg.maxTarget
  nominalHashrate    := msg.nominalHashRate
  shareBatchSize     := cfg.shareBatchSize
  sharesPerMinute    := cfg.sharesPerMinute

-- The jobs of a new extended channel: none when its downstream brings its own.
def startExtendedJobs (requiresCustomWork : Bool) (channel : C.Extended) (channelId : ChannelId)
    (template : NewTemplate) (prevHash : SetNewPrevHash) :
    Except (Fault PoolError) (C.Extended × List RouteMessageTo) := do
  if requiresCustomWork then
    let (_, channel) ← attempt .extended <| C.extended.onSetNewPrevHash channel prevHash
    return (channel, [])
  else
    let (_, channel) ← attempt .extended <|
      C.extended.onNewTemplate channel template [cfg.poolCoinbaseOutput template]
    let (jobId, job) ← futureJobOf C.extended.toJobStore channel template.templateId
    let (_, channel) ← attempt .extended <| C.extended.onSetNewPrevHash channel prevHash
    return (channel, [
      .downstream d (.newExtendedMiningJob job.jobMessage),
      .downstream d (setNewPrevHashMp channelId jobId prevHash)])

def startExtendedChannel (downstream : Downstream C) (channel : C.Extended) (channelId : ChannelId)
    (msg : OpenExtendedMiningChannel) : Result C := do
  let extranoncePrefix ← orErr ((C.extended.getExtranoncePrefix channel).tryInto 32) .binarySv2
  let success : OpenExtendedMiningChannelSuccess := {
    requestId        := msg.requestId
    channelId        := channelId
    target           := C.extended.getTarget channel
    extranoncePrefix := extranoncePrefix
    extranonceSize   := C.extended.getRollableExtranonceSize channel }
  let prevHash ← orErr s.lastNewPrevHash .lastNewPrevhashNotFound
  let template ← orErr s.lastFutureTemplate .futureTemplateNotPresent
  let (channel, messages) ←
    startExtendedJobs cfg d downstream.requiresCustomWork channel channelId template prevHash
  let vardiff ← ofExcept .vardiff C.vardiff.new
  let s := s.setDownstream d { downstream with
    extendedChannels := downstream.extendedChannels.insert channelId channel }
  return ({ s with vardiff := s.vardiff.insert (d, channelId) vardiff },
    .downstream d (.openExtendedMiningChannelSuccess success) :: messages)

def openExtendedChannel (downstream : Downstream C) (extranoncePrefix : Bytes)
    (msg : OpenExtendedMiningChannel) : Result C :=
  let channelId := downstream.channelIdFactory
  let downstream := { downstream with channelIdFactory := channelId + 1 }
  match C.extended.newForPool (extendedParams cfg channelId extranoncePrefix msg) true
      msg.minExtranonceSize cfg.poolTagString with
  | .ok channel => s.startExtendedChannel cfg d downstream channel channelId msg
  | .error e    =>
    match extendedChannelErrorCode e with
    | some errorCode =>
      return (s.setDownstream d downstream, [openMiningChannelError d msg.requestId errorCode])
    | none => throw (.err (.extended e))

def handleOpenExtendedMiningChannel (msg : OpenExtendedMiningChannel) : Result C := do
  let downstream ← orErr (s.downstream.lookup d) .downstreamIdNotFound
  let next := C.extranonce.nextPrefixExtended s.extranoncePrefixFactoryExtended
    msg.minExtranonceSize.toNat
  let s := { s with extranoncePrefixFactoryExtended := next.2 }
  match next.1 with
  | .error _ =>
    return (s, [openMiningChannelError d msg.requestId "min-extranonce-size-too-large"])
  | .ok extranoncePrefix => s.openExtendedChannel cfg d downstream extranoncePrefix msg

section Shares

variable {κ μ ω ε : Type} (S : ShareChannels κ μ ω ε) (channel : κ)

-- What the handlers read of a share, of either kind.
structure ShareFields where
  channelId              : ChannelId
  sequenceNumber         : UInt32
  nonce                  : UInt32
  ntime                  : UInt32
  version                : UInt32
  rollableExtranonceSize : Option UInt16

variable (share : ShareFields)

def shareEvent (C : StratumCore) (errorCode : Option String) (isBlockFound isValid : Bool)
    (shareHash : Option U256) (templateId : Option TemplateId) : ShareEvent where
  errorCode              := errorCode
  extranoncePrefix       := S.getExtranoncePrefix channel
  isBlockFound           := isBlockFound
  isValid                := isValid
  nominalHashRate        := S.getNominalHashrate channel
  nonce                  := share.nonce
  ntime                  := share.ntime
  rollableExtranonceSize := share.rollableExtranonceSize
  shareHash              := shareHash
  shareWork              := C.difficultyFloat (S.getTarget channel)
  target                 := S.getTarget channel
  templateId             := templateId
  userIdentity           := S.getUserIdentity channel
  version                := share.version

def submitSharesSuccess : RouteMessageTo :=
  let accounting := S.getShareAccounting channel
  .downstream d <| .submitSharesSuccess {
    channelId               := share.channelId
    lastSequenceNumber      := accounting.lastShareSequenceNumber
    newSubmitsAcceptedCount := accounting.lastBatchAccepted
    newSharesSum            := accounting.lastBatchWorkSum }

def submitSharesError (errorCode : String) : RouteMessageTo :=
  .downstream d (.submitSharesError ⟨share.channelId, share.sequenceNumber, errorCode⟩)

-- The solution of a block goes to the template provider, unless its job was a custom one.
def submitSolution (templateId : Option TemplateId) (coinbase : Bytes) :
    Except (Fault PoolError) (List RouteMessageTo) := do
  match templateId with
  | none            => return []
  | some templateId =>
    let coinbaseTx ← orErr (coinbase.tryInto 65535) .binarySv2
    return [.templateProvider <| .submitSolution {
      templateId      := templateId
      version         := share.version
      headerTimestamp := share.ntime
      headerNonce     := share.nonce
      coinbaseTx      := coinbaseTx }]

-- `errorCode` says which refusals of a share the handler answers. A duplicate is not persisted.
def reportShare (C : StratumCore) (errorCode : ShareValidationError → Option String) :
    Except ShareValidationError ShareValidationResult →
      Except (Fault PoolError) (List ShareEvent × List RouteMessageTo)
  | .ok (.valid shareHash) =>
    return ([shareEvent S channel share C none false true (some shareHash) none],
      if (S.getShareAccounting channel).shouldAcknowledge then
        [submitSharesSuccess d S channel share] else [])
  | .ok (.blockFound shareHash templateId coinbase) => do
    let solution ← submitSolution share templateId coinbase
    return ([shareEvent S channel share C none true true (some shareHash) templateId],
      solution ++ [submitSharesSuccess d S channel share])
  | .error e =>
    match errorCode e with
    | some code =>
      return (if e = .duplicateShare then [] else
        [shareEvent S channel share C (some code) false false none none],
        [submitSharesError d share code])
    | none => throw (.err (.shareValidation e))

-- The common body of the two share handlers. `set` puts the changed channels back.
def submitShares (errorCode : ShareValidationError → Option String) (channels : Map ChannelId κ)
    (set : Map ChannelId κ → Downstream C) (msg : ω) : Result C :=
  match channels.lookup share.channelId with
  | none         => return (s, [submitSharesError d share "invalid-channel-id"])
  | some channel => do
    let vardiff ← orErr (s.vardiff.lookup (d, share.channelId)) (.vardiffNotFound share.channelId)
    let (res, channel) := S.validateShare channel msg
    let (events, messages) ← reportShare d S channel share C errorCode res
    let s := s.setDownstream d <| set <| channels.insert share.channelId channel
    return ({ s with
      vardiff   := s.vardiff.insert (d, share.channelId)
        (C.vardiff.incrementSharesSinceLastUpdate vardiff)
      persisted := s.persisted ++ events }, messages)

end Shares

def standardShareErrorCode : ShareValidationError → Option String
  | .invalid           => some "invalid-share"
  | .stale             => some "stale-share"
  | .invalidJobId      => some "invalid-job-id"
  | .doesNotMeetTarget => some "difficulty-too-low"
  | .duplicateShare    => some "duplicate-share"
  | .badExtranonceSize => none
  | .other _           => none

def extendedShareErrorCode : ShareValidationError → Option String
  | .badExtranonceSize => some "bad-extranonce-size"
  | e                  => standardShareErrorCode e

def handleSubmitSharesStandard (msg : SubmitSharesStandard) : Result C := do
  let downstream ← orErr (s.downstream.lookup d) (.downstreamNotFound d)
  s.submitShares d C.standard.toShareChannels {
    channelId              := msg.channelId
    sequenceNumber         := msg.sequenceNumber
    nonce                  := msg.nonce
    ntime                  := msg.ntime
    version                := msg.version
    rollableExtranonceSize := none } standardShareErrorCode downstream.standardChannels
    (fun channels => { downstream with standardChannels := channels }) msg

def getNegotiatedExtensionsWithClient : Except (Fault PoolError) (List UInt16) :=
  expect ((s.downstream.lookup d).map Downstream.negotiatedExtensions)
    "negotiated_extensions must be present"

-- The extensions decide whether the user identity is read from the TLV fields. It is not used.
def handleSubmitSharesExtended (msg : SubmitSharesExtended) : Result C := do
  let _negotiatedExtensions ← s.getNegotiatedExtensionsWithClient d
  let downstream ← orErr (s.downstream.lookup d) (.downstreamNotFound d)
  s.submitShares d C.extended.toShareChannels {
    channelId              := msg.channelId
    sequenceNumber         := msg.sequenceNumber
    nonce                  := msg.nonce
    ntime                  := msg.ntime
    version                := msg.version
    rollableExtranonceSize := some msg.extranonce.1.length.toUInt16 } extendedShareErrorCode
    downstream.extendedChannels
    (fun channels => { downstream with extendedChannels := channels }) msg

section UpdateChannel

variable {κ μ ω ε : Type}

def setTarget (channelId : ChannelId) (target : Target) : RouteMessageTo :=
  .downstream d (.setTarget ⟨channelId, target⟩)

def updateChannelError (channelId : ChannelId) (errorCode : String) : RouteMessageTo :=
  .downstream d (.updateChannelError ⟨channelId, errorCode⟩)

-- A refused update is answered with the error and with the target that stays.
def updateChannel (S : ShareChannels κ μ ω ε) (errorCode : ε → Option String) (err : ε → PoolError)
    (channel : κ) (msg : UpdateChannel) : Except (Fault PoolError) (κ × List RouteMessageTo) :=
  let (res, channel) := S.updateChannel channel msg.nominalHashRate (some msg.maximumTarget)
  let target := setTarget d msg.channelId (S.getTarget channel)
  match res with
  | .ok _    => return (channel, [target])
  | .error e =>
    match errorCode e with
    | some code => return (channel, [updateChannelError d msg.channelId code, target])
    | none      => throw (.err (err e))

end UpdateChannel

def updateStandardErrorCode : StandardChannelError → Option String
  | .invalidNominalHashrate       => some "invalid-nominal-hashrate"
  | .requestedMaxTargetOutOfRange => some "requested-max-target-out-of-range"
  | .other _                      => none

def updateExtendedErrorCode : ExtendedChannelError → Option String
  | .invalidNominalHashrate             => some "invalid-nominal-hashrate"
  | .requestedMaxTargetOutOfRange       => some "max-target-out-of-range"
  | .requestedMinExtranonceSizeTooLarge => none
  | .other _                            => none

def handleUpdateChannel (msg : UpdateChannel) : Result C := do
  let downstream ← orErr (s.downstream.lookup d) (.downstreamNotFound d)
  match downstream.standardChannels.lookup msg.channelId,
      downstream.extendedChannels.lookup msg.channelId with
  | some channel, _ =>
    let (channel, messages) ← updateChannel d C.standard.toShareChannels updateStandardErrorCode
      .standard channel msg
    return (s.setDownstream d { downstream with
      standardChannels := downstream.standardChannels.insert msg.channelId channel }, messages)
  | none, some channel =>
    let (channel, messages) ← updateChannel d C.extended.toShareChannels updateExtendedErrorCode
      .extended channel msg
    return (s.setDownstream d { downstream with
      extendedChannels := downstream.extendedChannels.insert msg.channelId channel }, messages)
  | none, none => return (s, [updateChannelError d msg.channelId "invalid-channel-id"])

def setCustomMiningJobError (msg : SetCustomMiningJob) (errorCode : String) : RouteMessageTo :=
  .downstream d (.setCustomMiningJobError ⟨msg.channelId, msg.requestId, errorCode⟩)

def handleSetCustomMiningJob (msg : SetCustomMiningJob) : Result C := do
  let outputs ← ofExcept .bitcoinEncodeError (C.consensusDecode msg.coinbaseTxOutputs.1)
  if outputs.all (·.scriptPubkey ≠ cfg.coinbaseRewardScript) then
    return (s, [setCustomMiningJobError d msg "pool-payout-script-missing"])
  else
    let downstream ← orErr (s.downstream.lookup d) (.downstreamNotFound d)
    match downstream.extendedChannels.lookup msg.channelId with
    | none         => return (s, [setCustomMiningJobError d msg "invalid-channel-id"])
    | some channel =>
      let (jobId, channel) ← attempt .extended <| C.extended.onSetCustomMiningJob channel msg
      return (s.setDownstream d { downstream with
        extendedChannels := downstream.extendedChannels.insert msg.channelId channel },
        [.downstream d (.setCustomMiningJobSuccess ⟨msg.channelId, msg.requestId, jobId⟩)])

def handleMiningMessageFromClient : Mining → Result C
  | .openStandardMiningChannel m => s.handleOpenStandardMiningChannel cfg d m
  | .openExtendedMiningChannel m => s.handleOpenExtendedMiningChannel cfg d m
  | .updateChannel m             => s.handleUpdateChannel d m
  | .closeChannel m              => s.handleCloseChannel d m
  | .submitSharesStandard m      => s.handleSubmitSharesStandard d m
  | .submitSharesExtended m      => s.handleSubmitSharesExtended d m
  | .setCustomMiningJob m        => s.handleSetCustomMiningJob cfg d m
  | _                            => throw (.err .unexpectedMessage)

-- Takes the entry of a downstream that has gone and those of its channels.
def removeDownstream : ChannelManager C :=
  { s with
    downstream := s.downstream.erase d
    vardiff    := s.vardiff.retain (·.1 ≠ d) }

end ChannelManager

end Pool
