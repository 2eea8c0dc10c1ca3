import StratumApps.Lib.Wire
import StratumApps.JobDeclaratorClient.ChannelManager

open Sv2 Handler StratumCore

namespace Jdc

variable {C : StratumCore}

def openMiningChannelError (d : DownstreamId) (requestId : RequestId) (errorCode : String) :
    RouteMessageTo :=
  .downstream d (.openMiningChannelError ⟨requestId, errorCode⟩)

def setTarget (d : DownstreamId) (channelId : ChannelId) (target : Target) : RouteMessageTo :=
  .downstream d (.setTarget ⟨channelId, target⟩)

namespace ChannelManager

variable (cfg : Config) (s : ChannelManager C) (d : DownstreamId)

-- A handler that has run to its end forwards its messages.
def finish (messages : List RouteMessageTo) : Outcome C where
  manager  := s
  messages := forward s.jdMode messages

def handleCloseChannel (msg : CloseChannel) : Result C := do
  let downstream ← orErr (s.downstream.lookup d) (.downstreamNotFound d)
  let s := s.setDownstream d { downstream with
    extendedChannels := downstream.extendedChannels.erase msg.channelId
    standardChannels := downstream.standardChannels.erase msg.channelId }
  return { manager := { s with vardiff := s.vardiff.erase (d, msg.channelId) }, messages := [] }

section Open

variable (template : NewTemplate) (prevHash : SetNewPrevHash) (outputs : List TxOut)

def newGroupChannel (channelId : ChannelId) : Except (Fault JDCError) C.Group := do
  let group ← ofExcept .failedToCreateGroupChannel <|
    C.group.newForJobDeclarationClient channelId
      (s.upstreamChannel.elim 32 C.upstream.getFullExtranonceSize) s.poolTagString
      cfg.minerTagString
  let (_, group) ← attempt .group <| C.group.onNewTemplate group template outputs
  let (_, group) ← attempt .group <| C.group.onSetNewPrevHash group prevHash
  return group

def ensureGroupChannel (downstream : Downstream C) : Except (Fault JDCError) (Downstream C) := do
  if !downstream.requireStdJob && downstream.groupChannels.isNone then
    let group ← s.newGroupChannel cfg template prevHash outputs downstream.channelIdFactory
    return { downstream with
      groupChannels    := some group
      channelIdFactory := downstream.channelIdFactory + 1 }
  else
    return downstream

def standardChannelErrorCode : StandardChannelError → Option String
  | .invalidNominalHashrate       => some "invalid-nominal-hashrate"
  | .requestedMaxTargetOutOfRange => some "max-target-out-of-range"
  | .other _                      => none

def standardParams (channelId : ChannelId) (extranoncePrefix : Bytes)
    (msg : OpenStandardMiningChannel) : ChannelParams where
  channelId          := channelId
  userIdentity       := msg.userIdentity
  extranoncePrefix   := extranoncePrefix
  requestedMaxTarget := msg.maxTarget
  nominalHashrate    := msg.nominalHashRate
  shareBatchSize     := cfg.shareBatchSize
  sharesPerMinute    := cfg.sharesPerMinute

-- The job of a new channel is known to be of the template from then on.
def registerJob (channelId : ChannelId) (jobId : JobId) (t : TemplateId) : ChannelManager C :=
  { s with
    downstreamChannelIdAndJobIdToTemplateId :=
      s.downstreamChannelIdAndJobIdToTemplateId.insert ⟨d, channelId, jobId⟩ t }

def startStandardChannel (downstream : Downstream C) (channel : C.Standard) (channelId : ChannelId)
    (msg : OpenStandardMiningChannel) : Result C := do
  let extranoncePrefix ← expect ((C.standard.getExtranoncePrefix channel).tryInto 32)
    "extranonce_prefix must be valid"
  let success : OpenStandardMiningChannelSuccess := {
    requestId        := msg.requestId
    channelId        := channelId
    target           := C.standard.getTarget channel
    extranoncePrefix := extranoncePrefix
    groupChannelId   := downstream.groupChannels.elim 0 C.group.getChannelId }
  let (_, channel) ← attempt .standard <| C.standard.onNewTemplate channel template outputs
  let (jobId, job) ← futureJobOf C.standard.toJobStore channel template.templateId
  let (_, channel) ← attempt .standard <| C.standard.onSetNewPrevHash channel prevHash
  let vardiff ← expect C.vardiff.new.toOption "Vardiff state should instantiate."
  let s := s.setDownstream d { downstream with
    standardChannels := downstream.standardChannels.insert channelId channel
    groupChannels    := downstream.groupChannels.map (C.group.addStandardChannelId · channelId) }
  let s := { s with vardiff := s.vardiff.insert (d, channelId) vardiff }
  return (s.registerJob d channelId jobId template.templateId).finish [
    .downstream d (.openStandardMiningChannelSuccess success),
    .downstream d (.newMiningJob job.jobMessage),
    .downstream d (setNewPrevHashMp channelId jobId prevHash)]

def openStandardChannel (downstream : Downstream C) (extranoncePrefix : Bytes)
    (msg : OpenStandardMiningChannel) : Result C :=
  let channelId := downstream.channelIdFactory
  let downstream := { downstream with channelIdFactory := channelId + 1 }
  match C.standard.newForJobDeclarationClient (standardParams cfg channelId extranoncePrefix msg)
      s.poolTagString cfg.minerTagString with
  | .ok channel => s.startStandardChannel d template prevHash outputs downstream channel channelId msg
  | .error e    =>
    match standardChannelErrorCode e with
    | some errorCode =>
      return (s.setDownstream d downstream).finish [openMiningChannelError d msg.requestId errorCode]
    | none => throw (.err (.standard e))

def handleOpenStandardMiningChannel (msg : OpenStandardMiningChannel) : Result C := do
  let outputs ← ofExcept (fun _ => .channelManagerHasBadCoinbaseOutputs) <|
    C.deserializeOutputs s.coinbaseOutputs
  let template ← orErr s.lastFutureTemplate .futureTemplateNotPresent
  let prevHash ← orErr s.lastNewPrevHash .lastNewPrevhashNotFound
  let downstream ← orErr (s.downstream.lookup d) (.downstreamNotFound d)
  let outputs ← expect (payRemaining template.coinbaseTxValueRemaining outputs) "index out of bounds"
  let downstream ← s.ensureGroupChannel cfg template prevHash outputs downstream
  let (extranoncePrefix, factory) ← attempt .extranoncePrefixFactoryError <|
    C.extranonce.nextPrefixStandard s.extranoncePrefixFactoryStandard
  let s := { s with extranoncePrefixFactoryStandard := factory }
  s.openStandardChannel cfg d template prevHash outputs downstream extranoncePrefix msg

def extendedChannelErrorCode : ExtendedChannelError → Option String
  | .invalidNominalHashrate             => some "invalid-nominal-hashrate"
  | .requestedMaxTargetOutOfRange       => some "max-target-out-of-range"
  | .requestedMinExtranonceSizeTooLarge => some "min-extranonce-size-too-large"
  | .other _                            => none

def extendedParams (channelId : ChannelId) (extranoncePrefix : Bytes)
    (msg : OpenExtendedMiningChannel) : ChannelParams where
  channelId          := channelId
  userIdentity       := msg.userIdentity
  extranoncePrefix   := extranoncePrefix
  requestedMaxTarget := msg.maxTarget
  nominalHashrate    := msg.nominalHashRate
  shareBatchSize     := cfg.shareBatchSize
  sharesPerMinute    := cfg.sharesPerMinute

def startExtendedChannel (downstream : Downstream C) (channel : C.Extended) (channelId : ChannelId)
    (msg : OpenExtendedMiningChannel) : Result C := do
  let extranoncePrefix ← expect ((C.extended.getExtranoncePrefix channel).tryInto 32)
    "valid extranonce prefix"
  let success : OpenExtendedMiningChannelSuccess := {
    requestId        := msg.requestId
    channelId        := channelId
    target           := C.extended.getTarget channel
    extranoncePrefix := extranoncePrefix
    extranonceSize   := C.extended.getRollableExtranonceSize channel }
  let outputs ← ofExcept (fun _ => .channelManagerHasBadCoinbaseOutputs) <|
    C.deserializeOutputs s.coinbaseOutputs
  let outputs ← expect (payRemaining template.coinbaseTxValueRemaining outputs) "index out of bounds"
  let (_, channel) ← attempt .extended <| C.extended.onNewTemplate channel template outputs
  let (jobId, job) ← futureJobOf C.extended.toJobStore channel template.templateId
  let (_, channel) ← attempt .extended <| C.extended.onSetNewPrevHash channel prevHash
  let vardiff ← expect C.vardiff.new.toOption "Vardiff should instantiate."
  let s := s.setDownstream d { downstream with
    extendedChannels := downstream.extendedChannels.insert channelId channel }
  let s := s.registerJob d channelId jobId template.templateId
  return { s with vardiff := s.vardiff.insert (d, channelId) vardiff }.finish [
    .downstream d (.openExtendedMiningChannelSuccess success),
    .downstream d (.newExtendedMiningJob job.jobMessage),
    .downstream d (setNewPrevHashMp channelId jobId prevHash)]

def openExtendedChannel (downstream : Downstream C) (extranoncePrefix : Bytes)
    (msg : OpenExtendedMiningChannel) : Result C :=
  let channelId := downstream.channelIdFactory
  let downstream := { downstream with channelIdFactory := channelId + 1 }
  match C.extended.newForJobDeclarationClient (extendedParams cfg channelId extranoncePrefix msg) true
      msg.minExtranonceSize s.poolTagString cfg.minerTagString with
  | .ok channel => s.startExtendedChannel d template prevHash downstream channel channelId msg
  | .error e    =>
    match extendedChannelErrorCode e with
    | some errorCode =>
      return (s.setDownstream d downstream).finish [openMiningChannelError d msg.requestId errorCode]
    | none => throw (.err (.extended e))

def handleOpenExtendedMiningChannel (msg : OpenExtendedMiningChannel) : Result C := do
  let template ← orErr s.lastFutureTemplate .futureTemplateNotPresent
  let prevHash ← orErr s.lastNewPrevHash .lastNewPrevhashNotFound
  let downstream ← orErr (s.downstream.lookup d) (.downstreamNotFound d)
  let (extranoncePrefix, factory) ← attempt .extranoncePrefixFactoryError <|
    C.extranonce.nextPrefixExtended s.extranoncePrefixFactoryExtended msg.minExtranonceSize.toNat
  let s := { s with extranoncePrefixFactoryExtended := factory }
  s.openExtendedChannel cfg d template prevHash downstream extranoncePrefix msg

end Open

section UpdateChannel

variable {κ μ ω ε : Type}

-- The sum of the hashrates and the smallest target of the channels of one kind, on top of those of
-- the channels before. `min` compares the targets.
def aggregateChannels (S : ShareChannels κ μ ω ε) (min : Target → Target → Target)
    (channels : Map ChannelId κ) (r : F32 × Target) : F32 × Target :=
  channels.entries.foldl (fun r e =>
    (C.addHashrate r.1 (S.getNominalHashrate e.2), min (S.getTarget e.2) r.2)) r

def aggregate (min : Target → Target → Target) : F32 × Target :=
  s.downstream.entries.foldl (fun r e =>
    aggregateChannels (C := C) C.extended.toShareChannels min e.2.extendedChannels <|
      aggregateChannels (C := C) C.standard.toShareChannels min e.2.standardChannels r)
    (0, BitVec.allOnes 256)

-- The aggregate goes to the upstream, when it has a channel.
def updateUpstream (min : Target → Target → Target) : List RouteMessageTo :=
  s.upstreamChannel.toList.map fun upstream =>
    .upstream <| .updateChannel {
      channelId       := C.upstream.getChannelId upstream
      nominalHashRate := (s.aggregate min).1
      maximumTarget   := (s.aggregate min).2 }

def minTarget (t t' : Target) : Target :=
  if t ≤ t' then t else t'

-- The vardiff loop compares the bytes, and the least significant byte comes first.
def minTargetBytes (t t' : Target) : Target :=
  if Wire.littleEndian 32 t.toNat ≤ Wire.littleEndian 32 t'.toNat then t else t'

def updateChannelError (channelId : ChannelId) (errorCode : String) : RouteMessageTo :=
  .downstream d (.updateChannelError ⟨channelId, errorCode⟩)

-- A refusal without a code of its own is answered with the target that stays.
def updateChannel (S : ShareChannels κ μ ω ε) (errorCode : ε → Option String) (channel : κ)
    (msg : UpdateChannel) : κ × List RouteMessageTo :=
  match S.updateChannel channel msg.nominalHashRate (some msg.maximumTarget) with
  | (.ok _, channel)    => (channel, [setTarget d msg.channelId (S.getTarget channel)])
  | (.error e, channel) => (channel, [(errorCode e).elim
    (setTarget d msg.channelId (S.getTarget channel)) (updateChannelError d msg.channelId)])

def updateStandardErrorCode : StandardChannelError → Option String
  | .invalidNominalHashrate       => some "invalid-nominal-hashrate"
  | .requestedMaxTargetOutOfRange => some "requested-max-target-out-of-range"
  | .other _                      => none

def updateExtendedErrorCode : ExtendedChannelError → Option String
  | .invalidNominalHashrate             => some "invalid-nominal-hashrate"
  | .requestedMaxTargetOutOfRange       => some "requested-max-target-out-of-range"
  | .requestedMinExtranonceSizeTooLarge => none
  | .other _                            => none

def updateDownstreamChannel (downstream : Downstream C) (msg : UpdateChannel) :
    Downstream C × List RouteMessageTo :=
  match downstream.standardChannels.lookup msg.channelId,
      downstream.extendedChannels.lookup msg.channelId with
  | some channel, _ =>
    let r := updateChannel d C.standard.toShareChannels updateStandardErrorCode channel msg
    ({ downstream with
      standardChannels := downstream.standardChannels.insert msg.channelId r.1 }, r.2)
  | none, some channel =>
    let r := updateChannel d C.extended.toShareChannels updateExtendedErrorCode channel msg
    ({ downstream with
      extendedChannels := downstream.extendedChannels.insert msg.channelId r.1 }, r.2)
  | none, none => (downstream, [updateChannelError d msg.channelId "invalid-channel-id"])

-- The upstream is updated even when the downstream is not there.
def handleUpdateChannel (msg : UpdateChannel) : Result C :=
  match s.downstream.lookup d with
  | none            => return s.finish (s.updateUpstream minTarget)
  | some downstream =>
    let r := updateDownstreamChannel d downstream msg
    let s := s.setDownstream d r.1
    return s.finish (r.2 ++ s.updateUpstream minTarget)

end UpdateChannel

section Shares

variable {κ μ ω ε : Type} (S : ShareChannels κ μ ω ε)

-- What the handlers read of a share, of either kind. A standard share has no extranonce.
structure ShareFields where
  channelId      : ChannelId
  sequenceNumber : UInt32
  jobId          : JobId
  nonce          : UInt32
  ntime          : UInt32
  version        : UInt32
  extranonce     : Bytes

variable (share : ShareFields)

def submitSharesSuccess (channel : κ) : RouteMessageTo :=
  let accounting := S.getShareAccounting channel
  .downstream d <| .submitSharesSuccess {
    channelId               := share.channelId
    lastSequenceNumber      := accounting.lastShareSequenceNumber
    newSubmitsAcceptedCount := accounting.lastBatchAccepted
    newSharesSum            := accounting.lastBatchWorkSum }

def submitSharesError (errorCode : String) : RouteMessageTo :=
  .downstream d (.submitSharesError ⟨share.channelId, share.sequenceNumber, errorCode⟩)

def submitSolution (templateId : Option TemplateId) (coinbase : Bytes) :
    Except (Fault JDCError) (List RouteMessageTo) := do
  match templateId with
  | none            => return []
  | some templateId =>
    let coinbaseTx ← orErr (coinbase.tryInto 65535) .binarySv2
    return [.templateProvider <| .submitSolution {
      templateId      := templateId
      version         := share.version
      headerTimestamp := share.ntime
      headerNonce     := share.nonce
      coinbaseTx      := coinbaseTx }]

def shareErrorCode : ShareValidationError → Option String
  | .invalid           => some "invalid-share"
  | .stale             => some "stale-share"
  | .invalidJobId      => some "invalid-job-id"
  | .doesNotMeetTarget => some "difficulty-too-low"
  | .duplicateShare    => some "duplicate-share"
  | .badExtranonceSize => none
  | .other _           => none

-- The answer to the downstream, and whether its share is valid. Any other refusal is thought to be
-- unreachable.
def answerShare (channel : κ) : Except ShareValidationError ShareValidationResult →
    Except (Fault JDCError) (Bool × List RouteMessageTo)
  | .ok (.valid _) => return (true, if (S.getShareAccounting channel).shouldAcknowledge then
    [submitSharesSuccess d S share channel] else [])
  | .ok (.blockFound _ templateId coinbase) => do
    let solution ← submitSolution share templateId coinbase
    return (true, solution ++ [submitSharesSuccess d S share channel])
  | .error e => do
    let errorCode ← expect (shareErrorCode e) "internal error: entered unreachable code"
    return (false, [submitSharesError d share errorCode])

-- The job of the upstream for the template of a job of a downstream.
def upstreamJobId : Option UpstreamJobId :=
  (s.downstreamChannelIdAndJobIdToTemplateId.lookup ⟨d, share.channelId, share.jobId⟩).bind
    s.templateIdToUpstreamJobId.lookup

def upstreamShare (upstream : C.Upstream) (jobId : UpstreamJobId) (extranonce : B032) :
    SubmitSharesExtended where
  channelId      := C.upstream.getChannelId upstream
  sequenceNumber := 0
  jobId          := jobId
  nonce          := share.nonce
  ntime          := share.ntime
  version        := share.version
  extranonce     := extranonce

def pushSolution (prevHash : SetNewPrevHash) (extranonce : B032) : RouteMessageTo :=
  .jobDeclarator <| .pushSolution {
    extranonce := extranonce.1
    prevHash   := prevHash.prevHash
    ntime      := share.ntime
    nonce      := share.nonce
    nbits      := prevHash.nBits
    version    := share.version }

-- The share in the terms of the upstream, with the next sequence number.
def sendShare (msg : SubmitSharesExtended) (solution : List RouteMessageTo) :
    ChannelManager C × List RouteMessageTo :=
  ({ s with sequenceNumberFactory := s.sequenceNumberFactory + 1 },
    solution ++ [.upstream <| .submitSharesExtended { msg with
      sequenceNumber := s.sequenceNumberFactory }])

-- `solutionExtranonce` makes the extranonce of a solution of the prefix of the upstream and of the
-- extranonce of the forwarded share.
def validateUpstream (prevHash : SetNewPrevHash) (solutionExtranonce : Bytes → Bytes → Bytes)
    (upstream : C.Upstream) (msg : SubmitSharesExtended) :
    Except (Fault JDCError) (ChannelManager C × List RouteMessageTo) :=
  let r := C.upstream.validateShare upstream msg
  let s := { s with upstreamChannel := some r.2 }
  match r.1 with
  | .ok (.valid _)      => return s.sendShare msg []
  | .ok (.blockFound _) => do
    let extranonce ← orErr ((solutionExtranonce (C.upstream.getExtranoncePrefix r.2)
      msg.extranonce.1).tryInto 32) .binarySv2
    return s.sendShare msg [pushSolution share prevHash extranonce]
  | .error e            => do
    let _ ← expect (shareErrorCode e) "internal error: entered unreachable code"
    return (s, [])

-- What a valid share of a channel with that extranonce prefix is for the upstream.
def forwardShare (prevHash : SetNewPrevHash) (solutionExtranonce : Bytes → Bytes → Bytes)
    (extranoncePrefix : Bytes) : Except (Fault JDCError) (ChannelManager C × List RouteMessageTo) :=
  match s.upstreamChannel with
  | none          => return (s, [])
  | some upstream => do
    let size := (C.upstream.getExtranoncePrefix upstream).length
    let rest ← expect (if size ≤ extranoncePrefix.length then some (extranoncePrefix.drop size)
      else none) "range start index out of range"
    match s.upstreamJobId d share with
    | none       => return (s, [])
    | some jobId => do
      let extranonce ← expect (Bytes.tryInto 32 (rest ++ share.extranonce)) "valid extranonce"
      s.validateUpstream share prevHash solutionExtranonce upstream
        (upstreamShare share upstream jobId extranonce)

-- The common body of the two share handlers. `set` puts the changed channels back.
def submitShares (solutionExtranonce : Bytes → Bytes → Bytes → Bytes) (channels : Map ChannelId κ)
    (set : Map ChannelId κ → Downstream C) (prevHash : SetNewPrevHash) (msg : ω) : Result C :=
  match channels.lookup share.channelId with
  | none         => return s.finish [submitSharesError d share "invalid-channel-id"]
  | some channel => do
    let vardiff ← orErr (s.vardiff.lookup (d, share.channelId))
      (.vardiffNotFound (d, share.channelId))
    let (res, channel) := S.validateShare channel msg
    let (valid, messages) ← answerShare d S share channel res
    let s := s.setDownstream d <| set <| channels.insert share.channelId channel
    let s := { s with
      vardiff := s.vardiff.insert (d, share.channelId)
        (C.vardiff.incrementSharesSinceLastUpdate vardiff) }
    if valid then
      let extranoncePrefix := S.getExtranoncePrefix channel
      let (s, messages') ← s.forwardShare d share prevHash (solutionExtranonce extranoncePrefix)
        extranoncePrefix
      return s.finish (messages ++ messages')
    else
      return s.finish messages

end Shares

-- The solution of a standard share has the whole prefix of its channel.
def handleSubmitSharesStandard (msg : SubmitSharesStandard) : Result C := do
  let downstream ← orErr (s.downstream.lookup d) (.downstreamNotFound d)
  let prevHash ← orErr s.lastNewPrevHash .lastNewPrevhashNotFound
  s.submitShares d C.standard.toShareChannels {
    channelId      := msg.channelId
    sequenceNumber := msg.sequenceNumber
    jobId          := msg.jobId
    nonce          := msg.nonce
    ntime          := msg.ntime
    version        := msg.version
    extranonce     := [] } (fun extranoncePrefix _ _ => extranoncePrefix)
    downstream.standardChannels
    (fun channels => { downstream with standardChannels := channels }) prevHash msg

def getNegotiatedExtensionsWithClient : Except (Fault JDCError) (List UInt16) :=
  expect ((s.downstream.lookup d).map Downstream.negotiatedExtensions)
    "negotiated_extensions must be present"

-- The extensions decide whether the user identity is read from the TLV fields. It is not used.
def handleSubmitSharesExtended (msg : SubmitSharesExtended) : Result C := do
  let _negotiatedExtensions ← s.getNegotiatedExtensionsWithClient d
  let downstream ← orErr (s.downstream.lookup d) (.downstreamNotFound d)
  let prevHash ← orErr s.lastNewPrevHash .lastNewPrevhashNotFound
  s.submitShares d C.extended.toShareChannels {
    channelId      := msg.channelId
    sequenceNumber := msg.sequenceNumber
    jobId          := msg.jobId
    nonce          := msg.nonce
    ntime          := msg.ntime
    version        := msg.version
    extranonce     := msg.extranonce.1 } (fun _ upstreamPrefix extranonce =>
      upstreamPrefix ++ extranonce) downstream.extendedChannels
    (fun channels => { downstream with extendedChannels := channels }) prevHash msg

def handleMiningMessageFromClient : Mining → Result C
  | .openStandardMiningChannel m => s.handleOpenStandardMiningChannel cfg d m
  | .openExtendedMiningChannel m => s.handleOpenExtendedMiningChannel cfg d m
  | .updateChannel m             => s.handleUpdateChannel d m
  | .closeChannel m              => s.handleCloseChannel d m
  | .submitSharesStandard m      => s.handleSubmitSharesStandard d m
  | .submitSharesExtended m      => s.handleSubmitSharesExtended d m
  | _                            => throw (.err .unexpectedMessage)

-- The extended channel that the first open request asks of the upstream.
def openUpstream (nominalHashRate : F32) (maxTarget : U256) (minExtranonceSize : UInt16) :
    RouteMessageTo :=
  .upstream <| .openExtendedMiningChannel {
    requestId         := 1
    userIdentity      := cfg.userIdentity.1
    nominalHashRate   := nominalHashRate
    maxTarget         := maxTarget
    minExtranonceSize := minExtranonceSize }

-- An open request waits until the upstream has a channel. `upstreamOpen` is what the first of them
-- asks of the upstream.
def requestChannel (request : PendingChannelRequest) (upstreamOpen : RouteMessageTo) : Result C :=
  match s.upstreamState with
  | .noChannel => return {
    manager  := { s with
      pendingDownstreamRequests := request :: s.pendingDownstreamRequests
      upstreamState             := .pending }
    messages := [upstreamOpen] }
  | .pending => return {
    manager  := { s with
      pendingDownstreamRequests := s.pendingDownstreamRequests ++ [request] }
    messages := [] }
  | .connected | .soloMining =>
    s.handleMiningMessageFromClient cfg request.downstreamId request.message

-- The sum of the two sizes wraps around.
def handleDownstreamMessage : Mining → Result C
  | .openExtendedMiningChannel m => s.requestChannel cfg (.extendedChannel d m) <|
    openUpstream cfg m.nominalHashRate m.maxTarget
      (m.minExtranonceSize + UInt16.ofNat jdcSearchSpaceBytes)
  | .openStandardMiningChannel m => s.requestChannel cfg (.standardChannel d m) <|
    openUpstream cfg m.nominalHashRate m.maxTarget (UInt16.ofNat jdcSearchSpaceBytes)
  | m => s.handleMiningMessageFromClient cfg d m

section Vardiff

variable {κ μ ω ε : Type}

-- The channel gets the difficulty that its shares since the last round ask for.
def runVardiffOnChannel (S : ShareChannels κ μ ω ε) (channelId : ChannelId) (channel : κ)
    (vardiff : C.VardiffState) : κ × C.VardiffState × List RouteMessageTo :=
  match C.vardiff.tryVardiff vardiff (S.getNominalHashrate channel) (S.getTarget channel)
      (S.getSharesPerMinute channel) with
  | (.ok (some hashrate), vardiff) =>
    match S.updateChannel channel hashrate none with
    | (.ok _, channel)    => (channel, vardiff, [setTarget d channelId (S.getTarget channel)])
    | (.error _, channel) => (channel, vardiff, [])
  | (.ok none, vardiff) | (.error _, vardiff) => (channel, vardiff, [])

def runVardiffOnChannels (S : ShareChannels κ μ ω ε) (channelId : ChannelId)
    (channels : Map ChannelId κ) (vardiff : C.VardiffState) :
    Map ChannelId κ × C.VardiffState × List RouteMessageTo :=
  match channels.lookup channelId with
  | none         => (channels, vardiff, [])
  | some channel =>
    let r := runVardiffOnChannel d S channelId channel vardiff
    (channels.insert channelId r.1, r.2)

def vardiffRound (key : VardiffKey) (vardiff : C.VardiffState)
    (r : Map DownstreamId (Downstream C) × List RouteMessageTo) :
    Except (Fault JDCError)
      (C.VardiffState × Map DownstreamId (Downstream C) × List RouteMessageTo) :=
  match r.1.lookup key.1 with
  | none            => return (vardiff, r)
  | some downstream =>
    let (standard, vardiff, messages) := runVardiffOnChannels key.1 C.standard.toShareChannels key.2
      downstream.standardChannels vardiff
    let (extended, vardiff, messages') := runVardiffOnChannels key.1 C.extended.toShareChannels key.2
      downstream.extendedChannels vardiff
    return (vardiff, r.1.insert key.1 { downstream with
      standardChannels := standard
      extendedChannels := extended }, r.2 ++ messages ++ messages')

def runVardiff : Result C := do
  let (vardiff, downstream, messages) ← s.vardiff.forEach vardiffRound (s.downstream, [])
  let s := { s with vardiff := vardiff, downstream := downstream }
  if messages.isEmpty then
    return s.finish []
  else
    return s.finish (messages ++ s.updateUpstream minTargetBytes)

end Vardiff

end ChannelManager

end Jdc
