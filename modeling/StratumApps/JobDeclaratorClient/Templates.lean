import StratumApps.JobDeclaratorClient.JobDeclaration

open Sv2 Handler StratumCore

namespace Jdc

variable {C : StratumCore}

section Loops

variable {κ μ ε : Type} [JobMessage μ] (J : JobStore κ μ ε) (d : DownstreamId)

abbrev Registry := Map DownstreamChannelJobId TemplateId

-- One round of a loop over the channels that get a job of their own. The job is registered as one of
-- the template. A channel that refuses the template is passed over.
def channelNewTemplate (mining : μ → Mining) (msg : NewTemplate) (outputs : List TxOut)
    (channelId : ChannelId) (channel : κ) (r : Registry × List RouteMessageTo) :
    Except (Fault JDCError) (κ × Registry × List RouteMessageTo) :=
  match J.onNewTemplate channel msg outputs with
  | (.error _, channel) => return (channel, r)
  | (.ok _, channel)    => do
    let (jobId, job) ← jobOf J channel msg
    return (channel, r.1.insert ⟨d, channelId, jobId⟩ msg.templateId,
      r.2 ++ [.downstream d (mining job.jobMessage)])

-- One round of a loop over the channels with a prev hash. A channel that refuses it is passed over,
-- and `silent` says that its downstream is not told the activated job of this channel.
def channelSetNewPrevHash (silent : Bool) (msg : SetNewPrevHash) (channelId : ChannelId)
    (channel : κ) (messages : List RouteMessageTo) :
    Except (Fault JDCError) (κ × List RouteMessageTo) :=
  match J.onSetNewPrevHash channel msg with
  | (.error _, channel) => return (channel, messages)
  | (.ok _, channel)    =>
    if silent then
      return (channel, messages)
    else do
      let (jobId, _) ← activeJobOf J channel
      return (channel, messages ++ [.downstream d (setNewPrevHashMp channelId jobId msg)])

end Loops

namespace Downstream

variable (d : DownstreamId) (downstream : Downstream C)

def groupNewTemplate (group : C.Group) (msg : NewTemplate) (outputs : List TxOut) :
    Except (Fault JDCError) (C.Group × Option ExtendedJob) :=
  match C.group.onNewTemplate group msg outputs with
  | (.error _, group) => return (group, none)
  | (.ok _, group)    => do
    let (_, job) ← jobOf C.group.toJobStore group msg
    return (group, some job)

def groupChannelJob (msg : NewTemplate) (outputs : List TxOut) :
    Except (Fault JDCError) (Option C.Group × Option ExtendedJob) :=
  match downstream.groupChannels with
  | none       => return (none, none)
  | some group => do
    let (group, job) ← groupNewTemplate group msg outputs
    return (some group, job)

-- The standard channels of a group are not sent a job of their own. They take the job of the group,
-- when it made one. That job is not registered.
def standardNewTemplate (groupJob : Option ExtendedJob) (msg : NewTemplate) (outputs : List TxOut)
    (channelId : ChannelId) (channel : C.Standard) (r : Registry × List RouteMessageTo) :
    Except (Fault JDCError) (C.Standard × Registry × List RouteMessageTo) :=
  if downstream.groupChannels.isNone then
    channelNewTemplate C.standard.toJobStore d .newMiningJob msg outputs channelId channel r
  else
    match groupJob with
    | none          => return (channel, r)
    | some groupJob =>
      match C.standard.onNewTemplate channel msg outputs with
      | (.error _, channel) => return (channel, r)
      | (.ok _, channel)    => return ((C.standard.onGroupChannelJob channel groupJob).2, r)

def extendedNewTemplate (msg : NewTemplate) (outputs : List TxOut) (channelId : ChannelId)
    (channel : C.Extended) (r : Registry × List RouteMessageTo) :
    Except (Fault JDCError) (C.Extended × Registry × List RouteMessageTo) :=
  channelNewTemplate C.extended.toJobStore d .newExtendedMiningJob msg outputs channelId channel r

-- The channels of a downstream with a template. The source has this body twice, for future templates
-- and for the others. The two differ by the job that `jobOf` takes.
def channelsNewTemplate (msg : NewTemplate) (outputs : List TxOut) (group : Option C.Group)
    (groupJob : Option ExtendedJob) (registry : Registry) (messages : List RouteMessageTo) :
    Except (Fault JDCError) (Downstream C × Registry × List RouteMessageTo) := do
  let (standard, registry, messages) ← downstream.standardChannels.forEach
    (downstream.standardNewTemplate d groupJob msg outputs) (registry, messages)
  let messages := messages ++ groupJob.toList.map (.downstream d <| .newExtendedMiningJob ·.jobMessage)
  let (extended, registry, messages) ← downstream.extendedChannels.forEach
    (extendedNewTemplate d msg outputs) (registry, messages)
  return ({ downstream with
    groupChannels    := group
    standardChannels := standard
    extendedChannels := extended }, registry, messages)

-- The result of the activation is not looked at, and the job that is active afterwards is announced.
def groupSetNewPrevHash (msg : SetNewPrevHash) (messages : List RouteMessageTo) :
    Except (Fault JDCError) (Option C.Group × List RouteMessageTo) :=
  match downstream.groupChannels with
  | none       => return (none, messages)
  | some group => do
    let group := (C.group.onSetNewPrevHash group msg).2
    let (jobId, _) ← activeJobOf C.group.toJobStore group
    return (some group,
      messages ++ [.downstream d (setNewPrevHashMp (C.group.getChannelId group) jobId msg)])

def setNewPrevHash (msg : SetNewPrevHash) (messages : List RouteMessageTo) :
    Except (Fault JDCError) (Downstream C × List RouteMessageTo) := do
  let (group, messages) ← downstream.groupSetNewPrevHash d msg messages
  let (standard, messages) ← downstream.standardChannels.forEach
    (channelSetNewPrevHash C.standard.toJobStore d downstream.groupChannels.isSome msg) messages
  let (extended, messages) ← downstream.extendedChannels.forEach
    (channelSetNewPrevHash C.extended.toJobStore d false msg) messages
  return ({ downstream with
    groupChannels    := group
    standardChannels := standard
    extendedChannels := extended }, messages)

end Downstream

namespace ChannelManager

variable (cfg : Config) (s : ChannelManager C)

section NewTemplate

variable (msg : NewTemplate) (outputs : List TxOut)

def storeTemplate : ChannelManager C :=
  { s with
    templateStore      := s.templateStore.insert msg.templateId msg
    lastFutureTemplate := if msg.futureTemplate then some msg else s.lastFutureTemplate }

-- In the loop over the downstreams, a client without templates of its own asks the upstream for the
-- job, once for every downstream.
def customNewTemplate (messages : List RouteMessageTo) :
    Except (Fault JDCError) (ChannelManager C × List RouteMessageTo) :=
  match s.upstreamChannel, s.allocateTokens, s.lastNewPrevHash with
  | some upstream, some token, some prevHash =>
    if !msg.futureTemplate && s.jdMode = .coinbaseOnly then do
      let factory ← expect s.jobFactory "called `Option::unwrap()` on a `None` value"
      let r := s.makeCustomJob factory upstream token.miningJobToken prevHash msg outputs
      return (r.1, messages ++ r.2.toList.map fun job => .upstream (.setCustomMiningJob job))
    else
      return (s, messages)
  | _, _, _ => return (s, messages)

def downstreamNewTemplate (d : DownstreamId) (downstream : Downstream C)
    (r : ChannelManager C × List RouteMessageTo) :
    Except (Fault JDCError) (Downstream C × ChannelManager C × List RouteMessageTo) := do
  let (group, groupJob) ← downstream.groupChannelJob msg outputs
  let (s, messages) ← r.1.customNewTemplate msg outputs r.2
  let (downstream, registry, messages) ← downstream.channelsNewTemplate d msg outputs group groupJob
    s.downstreamChannelIdAndJobIdToTemplateId messages
  return (downstream, { s with downstreamChannelIdAndJobIdToTemplateId := registry }, messages)

-- The next token is asked for when the template may have taken the last one.
def renewToken (asked : Bool) : ChannelManager C × List RouteMessageTo :=
  if s.jdMode = .coinbaseOnly && asked then s.allocateToken cfg else (s, [])

def requestTransactionData : List RouteMessageTo :=
  if s.jdMode = .fullTemplate then
    [.templateProvider (.requestTransactionData ⟨msg.templateId⟩)]
  else
    []

def handleNewTemplate : Result C := do
  let s := s.storeTemplate msg
  let outputs ← ofExcept (fun _ => .channelManagerHasBadCoinbaseOutputs) <|
    C.deserializeOutputs s.coinbaseOutputs
  let outputs ← expect (payRemaining msg.coinbaseTxValueRemaining outputs) "index out of bounds"
  let (downstream, s', messages) ← s.downstream.forEach (downstreamNewTemplate msg outputs) (s, [])
  let r := { s' with downstream := downstream }.renewToken cfg (!msg.futureTemplate)
  return {
    manager  := r.1
    messages := s.requestTransactionData msg ++ r.2 ++ forward s.jdMode messages }

end NewTemplate

def handleRequestTxDataError (msg : RequestTransactionDataError) : Result C :=
  if msg.errorCode = "template-id-not-found" ∨ msg.errorCode = "stale-template-id" then
    return { manager := s, messages := [] }
  else
    throw (.err .txDataError)

section RequestTxDataSuccess

variable (msg : RequestTransactionDataSuccess)

-- The ids of the transactions, in the order of the list.
def txIds : Except (Fault JDCError) (Seq064K U256) := do
  let txIds ← msg.transactionList.mapM fun raw => expect (C.computeTxid raw).toOption "invalid tx"
  orErr (if h : txIds.length ≤ 65535 then some ⟨txIds, h⟩ else none) .binarySv2

-- Whether a template is left for a later prev hash to declare.
def isActivatedFutureTemplate (template : NewTemplate) : Bool :=
  template.futureTemplate && s.lastNewPrevHash.all (·.templateId ≠ template.templateId)

-- The declaration of a template, when the factory makes its coinbase.
def declareJob (requestId : RequestId) (token : Bytes) (template : NewTemplate)
    (outputs : List TxOut) (txIds : Seq064K U256) (factory : C.JobFactory) :
    Except (Fault JDCError) (C.JobFactory × Option DeclareMiningJob) :=
  match C.jobFactory.newCoinbaseTxPrefixAndSuffix factory template outputs
      (s.upstreamChannel.elim 32 C.upstream.getFullExtranonceSize) with
  | (.error _, factory) => return (factory, none)
  | (.ok r, factory)    => do
    let miningJobToken ← expect (token.tryInto 255) "valid token"
    let coinbaseTxPrefix ← expect (r.1.tryInto 65535) "valid coinbase prefix"
    let coinbaseTxSuffix ← expect (r.2.tryInto 65535) "valid coinbase suffix"
    return (factory, some {
      requestId        := requestId
      miningJobToken   := miningJobToken
      version          := template.version
      coinbaseTxPrefix := coinbaseTxPrefix.1
      coinbaseTxSuffix := coinbaseTxSuffix.1
      txIdsList        := txIds
      excessData       := msg.excessData })

def storeDeclaredJob (template : NewTemplate) (outputs : List TxOut) (job : DeclareMiningJob) :
    ChannelManager C :=
  { s with
    lastDeclareJobStore := s.lastDeclareJobStore.insert job.requestId {
      declareMiningJob   := some job
      template           := template
      prevHash           := s.lastNewPrevHash
      setCustomMiningJob := none
      coinbaseOutput     := C.consensusEncode outputs
      txList             := msg.transactionList } }

-- The declaration is stored at once, and sent unless it waits for its prev hash.
def declareTemplate (requestId : RequestId) (token : Bytes) (template : NewTemplate)
    (outputs : List TxOut) (messages : List RouteMessageTo) : Result C := do
  let outputs ← expect (payRemaining template.coinbaseTxValueRemaining outputs) "index out of bounds"
  let txIds ← txIds (C := C) msg
  match s.jobFactory with
  | none         => return { manager := s, messages := messages }
  | some factory =>
    let (factory, job) ← s.declareJob msg requestId token template outputs txIds factory
    let s := { s with jobFactory := some factory }
    match job with
    | none     => return { manager := s, messages := messages }
    | some job => return {
      manager  := s.storeDeclaredJob msg template outputs job
      messages := messages ++ if s.isActivatedFutureTemplate template then [] else
        [.jobDeclarator (.declareMiningJob job)] }

-- The template is taken from the store, and a token asked for, before the handler looks whether it
-- has a template and a token.
def handleRequestTxDataSuccess : Result C := do
  let outputs ← ofExcept (fun _ => .channelManagerHasBadCoinbaseOutputs) <|
    C.deserializeOutputs s.coinbaseOutputs
  let template := s.templateStore.lookup msg.templateId
  let requestId := s.requestIdFactory
  let r := { s with
    templateStore    := s.templateStore.erase msg.templateId
    requestIdFactory := requestId + 1 }.allocateToken cfg
  match s.allocateTokens, template with
  | none, _ => return { manager := r.1, messages := r.2, error := some .tokenNotFound }
  | some _, none => return {
    manager  := r.1
    messages := r.2
    error    := some (.templateNotFound msg.templateId) }
  | some token, some template =>
    r.1.declareTemplate msg requestId token.miningJobToken template outputs r.2

end RequestTxDataSuccess

section SetNewPrevHash

variable (msg : SetNewPrevHash)

-- The stored declaration that is sent with a prev hash, one of the last future template.
def pendingDeclaration : Option DeclareMiningJob := do
  let template ← s.lastFutureTemplate
  let declared ← s.lastDeclareJobStore.entries.find? (·.2.template.templateId = template.templateId)
  declared.2.declareMiningJob

def declarePending : List RouteMessageTo :=
  if s.jdMode = .fullTemplate then
    s.pendingDeclaration.toList.map fun job => .jobDeclarator (.declareMiningJob job)
  else
    []

-- The upstream channel takes the tip, and it is not looked at whether it does.
def onChainTipUpdate : ChannelManager C :=
  { s with
    upstreamChannel := s.upstreamChannel.map fun u => (C.upstream.onChainTipUpdate u (chainTip msg)).2 }

-- A declared future template is one no more, and has its prev hash.
def activate (declared : DeclaredJob) : DeclaredJob :=
  if declared.template.futureTemplate ∧ declared.template.templateId = msg.templateId then
    { declared with
      prevHash := some msg
      template := { declared.template with futureTemplate := false } }
  else
    declared

def recordPrevHash : ChannelManager C :=
  { s with
    lastNewPrevHash     := some msg
    lastDeclareJobStore := s.lastDeclareJobStore.mapValues (activate msg) }

-- A client without templates of its own makes the job of the last future template.
def customSetNewPrevHash (outputs : List TxOut) : ChannelManager C × List RouteMessageTo :=
  match s.upstreamChannel, s.jobFactory, s.allocateTokens, s.lastFutureTemplate with
  | some upstream, some factory, some token, some template =>
    if s.jdMode = .coinbaseOnly then
      let r := s.makeCustomJob factory upstream token.miningJobToken msg template outputs
      (r.1, r.2.toList.map fun job => .upstream (.setCustomMiningJob job))
    else
      (s, [])
  | _, _, _, _ => (s, [])

def handleSetNewPrevHash : Result C := do
  let outputs ← ofExcept (fun _ => .channelManagerHasBadCoinbaseOutputs) <|
    C.deserializeOutputs s.coinbaseOutputs
  let r := ((s.onChainTipUpdate msg).recordPrevHash msg |>.onChainTipUpdate msg).customSetNewPrevHash
    msg outputs
  let (downstream, messages) ← s.downstream.forEach
    (fun d downstream messages => downstream.setNewPrevHash d msg messages) r.2
  let r := { r.1 with downstream := downstream }.renewToken cfg true
  return {
    manager  := r.1
    messages := s.declarePending ++ r.2 ++ forward s.jdMode messages }

end SetNewPrevHash

def handleTemplateDistributionMessageFromServer : TemplateDistribution → Result C
  | .newTemplate m                   => s.handleNewTemplate cfg m
  | .setNewPrevHash m                => s.handleSetNewPrevHash cfg m
  | .requestTransactionDataError m   => s.handleRequestTxDataError m
  | .requestTransactionDataSuccess m => s.handleRequestTxDataSuccess cfg m
  | _                                => throw (.err .unexpectedMessage)

end ChannelManager

end Jdc
