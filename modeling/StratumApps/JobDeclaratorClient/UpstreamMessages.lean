import StratumApps.JobDeclaratorClient.DownstreamMessages

open Sv2 Handler StratumCore

namespace Jdc

variable {C : StratumCore}

namespace ChannelManager

variable (cfg : Config) (s : ChannelManager C)

def createCloseChannelMsg (channelId : ChannelId) (msg : String) : Mining :=
  .closeChannel ⟨channelId, msg⟩

-- The fallback is begun by the status loop.
def fallback (state : State) : Result C :=
  return { manager := s, messages := [.status state] }

section Open

variable (msg : OpenExtendedMiningChannelSuccess)

-- A channel that nobody waits for, or that leaves no room for prefixes, is closed again.
def closeUpstreamChannel : Result C :=
  let r := { s with upstreamState := .noChannel }.allocateToken cfg
  return {
    manager  := r.1
    messages := .upstream (createCloseChannelMsg msg.channelId "downstream not available") :: r.2 }

def extranonceRanges (prefixLen totalLen : ℕ) : (ℕ × ℕ) × (ℕ × ℕ) × (ℕ × ℕ) :=
  ((0, prefixLen), (prefixLen, prefixLen + jdcSearchSpaceBytes),
    (prefixLen + jdcSearchSpaceBytes, totalLen))

def newExtranonces (extranoncePrefix : Bytes) (totalLen : ℕ) :
    Except ExtendedExtranonceError C.Extranonce :=
  let ranges := extranonceRanges extranoncePrefix.length totalLen
  C.extranonce.fromUpstreamExtranonce extranoncePrefix ranges.1 ranges.2.1 ranges.2.2

def newUpstreamChannel (hashrate : F32) : C.Upstream :=
  let upstream := C.upstream.new msg.channelId cfg.userIdentity.1 msg.extranoncePrefix.1 msg.target
    hashrate true msg.extranonceSize
  s.lastNewPrevHash.elim upstream fun p => (C.upstream.onChainTipUpdate upstream (chainTip p)).2

-- Without a declaration, the job goes to the upstream with the stored outputs as they are.
def storeCustomJob (requestId : RequestId) (template : NewTemplate) (prevHash : SetNewPrevHash)
    (job : SetCustomMiningJob) : ChannelManager C :=
  { s with
    lastDeclareJobStore := s.lastDeclareJobStore.insert requestId {
      declareMiningJob   := none
      template           := template
      prevHash           := some prevHash
      setCustomMiningJob := some job
      coinbaseOutput     := s.coinbaseOutputs
      txList             := [] } }

-- A custom job of a template, under the next request id. The source has this body three times.
def makeCustomJob (factory : C.JobFactory) (upstream : C.Upstream) (token : Bytes)
    (prevHash : SetNewPrevHash) (template : NewTemplate) (outputs : List TxOut) :
    ChannelManager C × Option SetCustomMiningJob :=
  let requestId := s.requestIdFactory
  let r := C.jobFactory.newCustomJob factory (C.upstream.getChannelId upstream) requestId token
    (chainTip prevHash) template outputs (C.upstream.getFullExtranonceSize upstream)
  let s := { s with requestIdFactory := requestId + 1, jobFactory := some r.2 }
  match r.1 with
  | .ok job  => (s.storeCustomJob requestId template prevHash job, some job)
  | .error _ => (s, none)

-- The custom job with which a client without templates of its own starts on a new upstream channel.
-- The factory is the one from before.
def firstCustomJob (upstream : C.Upstream) (outputs : List TxOut) :
    ChannelManager C × Option SetCustomMiningJob :=
  match s.jobFactory, s.allocateTokens, s.lastFutureTemplate, s.lastNewPrevHash with
  | some factory, some token, some template, some prevHash =>
    if s.jdMode = .coinbaseOnly then
      s.makeCustomJob factory upstream token.miningJobToken prevHash template outputs
    else
      (s, none)
  | _, _, _, _ => (s, none)

-- The requests that have waited are handled one after the other, up to the first that fails.
def openPending : List PendingChannelRequest → ChannelManager C → List RouteMessageTo → Result C
  | [], s, messages            => return { manager := s, messages := messages }
  | request :: requests, s, messages =>
    match s.handleMiningMessageFromClient cfg request.downstreamId request.message with
    | .ok r           => openPending requests r.manager (messages ++ r.messages)
    | .error (.err e) => return { manager := s, messages := messages, error := some e }
    | .error panic    => .error panic

-- What the new upstream channel starts with: the data of its template, or a custom job.
def firstMessages (job : Option SetCustomMiningJob) : ChannelManager C × List RouteMessageTo :=
  match s.jdMode with
  | .fullTemplate => (s, s.lastFutureTemplate.toList.map fun template =>
    .templateProvider (.requestTransactionData ⟨template.templateId⟩))
  | .coinbaseOnly => job.elim (s, []) fun job =>
    let r := s.allocateToken cfg
    (r.1, .upstream (.setCustomMiningJob job) :: r.2)
  | .soloMining => (s, [])

def openUpstreamChannel (extranonces : C.Extranonce) (hashrate : F32) (outputs : List TxOut) :
    ChannelManager C × List RouteMessageTo :=
  let upstream := s.newUpstreamChannel cfg msg hashrate
  let r := s.firstCustomJob upstream outputs
  { r.1 with
    extranoncePrefixFactoryExtended := extranonces
    extranoncePrefixFactoryStandard := extranonces
    upstreamChannel                 := some upstream
    jobFactory                      := some <|
      C.jobFactory.new true s.poolTagString (some cfg.minerTagString)
    upstreamState                   := .connected }.firstMessages cfg r.2

def handleOpenExtendedMiningChannelSuccess : Result C := do
  let outputs ← ofExcept (fun _ => .declaredJobHasBadCoinbaseOutputs) <|
    C.deserializeOutputs s.coinbaseOutputs
  match s.pendingDownstreamRequests.head? with
  | none         => s.closeUpstreamChannel cfg msg
  | some request =>
    match newExtranonces msg.extranoncePrefix.1
        (msg.extranoncePrefix.1.length + msg.extranonceSize.toNat) with
    | .error _        => s.closeUpstreamChannel cfg msg
    | .ok extranonces =>
      let r := s.openUpstreamChannel cfg msg extranonces request.hashrate outputs
      openPending cfg s.pendingDownstreamRequests { r.1 with pendingDownstreamRequests := [] } r.2

end Open

def handleCloseChannelFromServer : Result C :=
  { s with upstreamChannel := none }.fallback .upstreamShutdownFallback

section SetExtranoncePrefix

variable {κ μ ω ε : Type}

-- The next prefix of a factory for one channel. A channel for which it fails keeps its prefix.
def renewPrefix (S : ShareChannels κ μ ω ε) (d : DownstreamId)
    (next : C.Extranonce → κ → Except ExtendedExtranonceError Bytes × C.Extranonce)
    (channelId : ChannelId) (channel : κ) (r : C.Extranonce × List RouteMessageTo) :
    Except (Fault JDCError) (κ × C.Extranonce × List RouteMessageTo) :=
  match next r.1 channel with
  | (.error _, factory)        => return (channel, factory, r.2)
  | (.ok extranoncePrefix, factory) =>
    match S.setExtranoncePrefix channel extranoncePrefix with
    | (.error _, channel) => return (channel, factory, r.2)
    | (.ok _, channel)    => do
      let extranoncePrefix ← expect (extranoncePrefix.tryInto 32) "valid extranonce prefix"
      return (channel, factory, r.2 ++ [.downstream d <| .setExtranoncePrefix {
        channelId        := channelId
        extranoncePrefix := extranoncePrefix }])

-- The two factories and the messages, as the loop over the downstreams goes on.
structure Renewal (C : StratumCore) where
  extended : C.Extranonce
  standard : C.Extranonce
  messages : List RouteMessageTo

def renewDownstream (d : DownstreamId) (downstream : Downstream C) (r : Renewal C) :
    Except (Fault JDCError) (Downstream C × Renewal C) := do
  let (standard, factory, messages) ← downstream.standardChannels.forEach
    (renewPrefix C.standard.toShareChannels d fun x _ => C.extranonce.nextPrefixStandard x)
    (r.standard, r.messages)
  let (extended, factory', messages) ← downstream.extendedChannels.forEach
    (renewPrefix C.extended.toShareChannels d fun x channel => C.extranonce.nextPrefixExtended x
      (C.extended.getRollableExtranonceSize channel).toNat) (r.extended, messages)
  return ({ downstream with standardChannels := standard, extendedChannels := extended },
    { extended := factory', standard := factory, messages := messages })

def handleSetExtranoncePrefix (msg : SetExtranoncePrefix) : Result C :=
  match s.upstreamChannel with
  | none          => return s.finish []
  | some upstream => do
    let (_, upstream) ← attempt (fun e => .channelSv2 (.extendedChannelClientSide e)) <|
      C.upstream.setExtranoncePrefix upstream msg.extranoncePrefix.1
    let fullExtranonceSize := msg.extranoncePrefix.1.length +
      (C.upstream.getRollableExtranonceSize upstream).toNat
    if fullExtranonceSize > maxExtranonceLen then
      throw (.err .extranonceSizeTooLarge)
    else
      let extranonces ← ofExcept .extranoncePrefixFactoryError <|
        newExtranonces msg.extranoncePrefix.1 fullExtranonceSize
      let (downstream, r) ← s.downstream.forEach renewDownstream ⟨extranonces, extranonces, []⟩
      return { s with
        downstream                      := downstream
        upstreamChannel                 := some upstream
        extranoncePrefixFactoryExtended := r.extended
        extranoncePrefixFactoryStandard := r.standard }.finish r.messages

end SetExtranoncePrefix

-- The first job of the upstream for a template closes all declarations of that template.
def mapTemplate (requestId : RequestId) (template : NewTemplate) (jobId : UpstreamJobId) :
    ChannelManager C :=
  { s with
    lastDeclareJobStore       := Map.filterValues (·.template.templateId ≠ template.templateId)
      (s.lastDeclareJobStore.erase requestId)
    templateIdToUpstreamJobId := s.templateIdToUpstreamJobId.insert template.templateId jobId }

def handleSetCustomMiningJobSuccess (msg : SetCustomMiningJobSuccess) : Result C :=
  match s.lastDeclareJobStore.lookup msg.requestId with
  | none          => return { manager := s, messages := [] }
  | some declared =>
    let s := s.mapTemplate msg.requestId declared.template msg.jobId
    match s.upstreamChannel, declared.setCustomMiningJob with
    | some upstream, some job => return {
      manager  := { s with
        upstreamChannel := some (C.upstream.onSetCustomMiningJobSuccess upstream job msg).2 }
      messages := [] }
    | _, _ => return { manager := s, messages := [] }

def handleSetTarget (msg : SetTarget) : Result C :=
  return {
    manager  := { s with
      upstreamChannel := s.upstreamChannel.map (C.upstream.setTarget · msg.maximumTarget) }
    messages := [] }

def handleMiningMessageFromServer : Mining → Result C
  | .openStandardMiningChannelSuccess _ => s.fallback .upstreamShutdownFallback
  | .openExtendedMiningChannelSuccess m => s.handleOpenExtendedMiningChannelSuccess cfg m
  | .openMiningChannelError _           => s.fallback .upstreamShutdownFallback
  | .updateChannelError _               => return { manager := s, messages := [] }
  | .closeChannel _                     => s.handleCloseChannelFromServer
  | .setExtranoncePrefix m              => s.handleSetExtranoncePrefix m
  | .submitSharesSuccess _              => return { manager := s, messages := [] }
  | .submitSharesError _                => return { manager := s, messages := [] }
  | .newMiningJob _                     => return { manager := s, messages := [] }
  | .newExtendedMiningJob _             => return { manager := s, messages := [] }
  | .setNewPrevHash _                   => return { manager := s, messages := [] }
  | .setCustomMiningJobSuccess m        => s.handleSetCustomMiningJobSuccess m
  | .setCustomMiningJobError _          => s.fallback .upstreamShutdownFallback
  | .setTarget m                        => s.handleSetTarget m
  | _                                   => throw (.err .unexpectedMessage)

def handleRequestExtensionsSuccess (msg : RequestExtensionsSuccess) : Result C :=
  let missing := cfg.requiredExtensions.filter (!msg.supportedExtensions.contains ·)
  if missing.isEmpty then
    return {
      manager  := { s with negotiatedExtensions := msg.supportedExtensions }
      messages := [] }
  else
    throw (.err (.requiredExtensionsNotSupported missing))

-- The client asks again for the extensions that the server insists on, if it supports all of them.
def handleRequestExtensionsError (msg : RequestExtensionsError) : Result C :=
  let missing := cfg.requiredExtensions.filter (msg.unsupportedExtensions.contains ·)
  let canSupport := msg.requiredExtensions.filter (cfg.supportedExtensions.contains ·)
  let cannotSupport := msg.requiredExtensions.filter (!cfg.supportedExtensions.contains ·)
  if !missing.isEmpty then
    throw (.err (.requiredExtensionsNotSupported missing))
  else if msg.requiredExtensions.isEmpty then
    return { manager := s, messages := [] }
  else if !cannotSupport.isEmpty then
    throw (.err (.serverRequiresUnsupportedExtensions cannotSupport))
  else
    return {
      manager  := s
      messages := [.extensions (.requestExtensions ⟨msg.requestId + 1, canSupport⟩)] }

def handleExtensionsMessageFromServer : Extensions → Result C
  | .requestExtensionsSuccess m => s.handleRequestExtensionsSuccess cfg m
  | .requestExtensionsError m   => s.handleRequestExtensionsError cfg m
  | _                           => throw (.err .unexpectedMessage)

end ChannelManager

-- What the upstream connection asks for once it is set up, when it requires anything.
def Config.requestExtensions (cfg : Config) :
    Except (Fault JDCError) (Option RequestExtensions) := do
  if cfg.requiredExtensions.isEmpty then
    return none
  else
    let requested ← orErr (if cfg.requiredExtensions.length ≤ 65535 then
      some cfg.requiredExtensions else none) .binarySv2
    return some ⟨0, requested⟩

end Jdc
