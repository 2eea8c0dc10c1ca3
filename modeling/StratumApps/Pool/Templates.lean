import StratumApps.Pool.ChannelManager

open Sv2 Handler StratumCore

namespace Pool

variable {C : StratumCore}

-- The outputs of the coinbase with the first of them carrying the remaining value of a template.
def payRemaining (value : UInt64) : List TxOut → Option (List TxOut)
  | []                => none
  | output :: outputs => some ({ output with value := value } :: outputs)

section Loops

variable {κ μ ε : Type} (J : JobStore κ μ ε) (d : DownstreamId)

-- The job that a channel has just made of a template.
def jobOf (channel : κ) (msg : NewTemplate) : Except (Fault PoolError) (Job μ) :=
  if msg.futureTemplate then
    (futureJobOf J channel msg.templateId).map Prod.snd
  else
    expect (J.getActiveJob channel) "active job must exist"

-- One round of a loop over the channels that get a job of their own. A channel that refuses the
-- template is passed over.
def channelNewTemplate (mining : μ → Mining) (msg : NewTemplate) (outputs : List TxOut)
    (channel : κ) (messages : List RouteMessageTo) :
    Except (Fault PoolError) (κ × List RouteMessageTo) :=
  match J.onNewTemplate channel msg outputs with
  | (.error _, channel) => return (channel, messages)
  | (.ok _, channel)    => do
    let job ← jobOf J channel msg
    return (channel, messages ++ [.downstream d (mining job.jobMessage)])

-- One round of a loop over the channels with a prev hash. A channel that refuses it is passed over,
-- and `silent` says that its downstream is not told the activated job of this channel.
def channelSetNewPrevHash [JobMessage μ] (silent : Bool) (msg : SetNewPrevHash)
    (channelId : ChannelId) (channel : κ) (messages : List RouteMessageTo) :
    Except (Fault PoolError) (κ × List RouteMessageTo) :=
  match J.onSetNewPrevHash channel msg with
  | (.error _, channel) => return (channel, messages)
  | (.ok _, channel)    =>
    if silent then
      return (channel, messages)
    else do
      let job ← expect (J.getActiveJob channel) "active job must exist"
      return (channel, messages ++ [.downstream d (setNewPrevHashMp channelId job.getJobId msg)])

end Loops

namespace Downstream

variable (d : DownstreamId) (downstream : Downstream C) (messages : List RouteMessageTo)

def groupNewTemplate (group : C.Group) (msg : NewTemplate) (outputs : List TxOut) :
    Except (Fault PoolError) (C.Group × Option ExtendedJob) :=
  match C.group.onNewTemplate group msg outputs with
  | (.error _, group) => return (group, none)
  | (.ok _, group)    => do
    let job ← jobOf C.group.toJobStore group msg
    return (group, some job)

def groupChannelJob (msg : NewTemplate) (outputs : List TxOut) :
    Except (Fault PoolError) (Option C.Group × Option ExtendedJob) :=
  match downstream.groupChannels with
  | none       => return (none, none)
  | some group => do
    let (group, job) ← groupNewTemplate group msg outputs
    return (some group, job)

-- The standard channels of a group are not sent a job of their own. They take the job of the group,
-- when it made one.
def standardNewTemplate (groupJob : Option ExtendedJob) (msg : NewTemplate) (outputs : List TxOut)
    (_ : ChannelId) (channel : C.Standard) (messages : List RouteMessageTo) :
    Except (Fault PoolError) (C.Standard × List RouteMessageTo) :=
  if downstream.groupChannels.isNone then
    channelNewTemplate C.standard.toJobStore d .newMiningJob msg outputs channel messages
  else
    match groupJob with
    | none          => return (channel, messages)
    | some groupJob =>
      match C.standard.onNewTemplate channel msg outputs with
      | (.error _, channel) => return (channel, messages)
      | (.ok _, channel)    => return ((C.standard.onGroupChannelJob channel groupJob).2, messages)

def extendedNewTemplate (msg : NewTemplate) (outputs : List TxOut) (_ : ChannelId)
    (channel : C.Extended) (messages : List RouteMessageTo) :
    Except (Fault PoolError) (C.Extended × List RouteMessageTo) :=
  channelNewTemplate C.extended.toJobStore d .newExtendedMiningJob msg outputs channel messages

-- The source has this body twice, for future templates and for the others. The two differ by the
-- job that `jobOf` takes.
def newTemplate (msg : NewTemplate) (outputs : List TxOut) :
    Except (Fault PoolError) (Downstream C × List RouteMessageTo) := do
  let (group, groupJob) ← downstream.groupChannelJob msg outputs
  let (standard, messages) ← downstream.standardChannels.forEach
    (downstream.standardNewTemplate d groupJob msg outputs) messages
  let messages := messages ++ groupJob.toList.map (.downstream d <| .newExtendedMiningJob ·.jobMessage)
  let (extended, messages) ← downstream.extendedChannels.forEach
    (extendedNewTemplate d msg outputs) messages
  return ({ downstream with
    groupChannels    := group
    standardChannels := standard
    extendedChannels := extended }, messages)

-- The result of the activation is not looked at, and the job that is active afterwards is announced.
def groupSetNewPrevHash (msg : SetNewPrevHash) :
    Except (Fault PoolError) (Option C.Group × List RouteMessageTo) :=
  match downstream.groupChannels with
  | none       => return (none, messages)
  | some group => do
    let group := (C.group.onSetNewPrevHash group msg).2
    let job ← expect (C.group.getActiveJob group) "active job must exist"
    return (some group,
      messages ++ [.downstream d (setNewPrevHashMp (C.group.getChannelId group) job.getJobId msg)])

def standardSetNewPrevHash (msg : SetNewPrevHash) :=
  channelSetNewPrevHash C.standard.toJobStore d downstream.groupChannels.isSome msg

def extendedSetNewPrevHash (msg : SetNewPrevHash) :=
  channelSetNewPrevHash C.extended.toJobStore d downstream.requiresCustomWork msg

def setNewPrevHash (msg : SetNewPrevHash) :
    Except (Fault PoolError) (Downstream C × List RouteMessageTo) := do
  let (group, messages) ← downstream.groupSetNewPrevHash d messages msg
  let (standard, messages) ← downstream.standardChannels.forEach
    (downstream.standardSetNewPrevHash d msg) messages
  let (extended, messages) ← downstream.extendedChannels.forEach
    (downstream.extendedSetNewPrevHash d msg) messages
  return ({ downstream with
    groupChannels    := group
    standardChannels := standard
    extendedChannels := extended }, messages)

end Downstream

namespace ChannelManager

variable (s : ChannelManager C)

def handleNewTemplate (msg : NewTemplate) : Result C := do
  let s := if msg.futureTemplate then { s with lastFutureTemplate := some msg } else s
  let outputs ← expect (C.deserializeOutputs s.coinbaseOutputs).toOption "deserialization failed"
  let outputs ← expect (payRemaining msg.coinbaseTxValueRemaining outputs) "index out of bounds"
  let (downstream, messages) ← s.downstream.forEach
    (fun d downstream messages => downstream.newTemplate d messages msg outputs) []
  return ({ s with downstream := downstream }, messages)

def handleSetNewPrevHash (msg : SetNewPrevHash) : Result C := do
  let s := { s with lastNewPrevHash := some msg }
  let (downstream, messages) ← s.downstream.forEach
    (fun d downstream messages => downstream.setNewPrevHash d messages msg) []
  return ({ s with downstream := downstream }, messages)

def handleTemplateDistributionMessageFromServer : TemplateDistribution → Result C
  | .newTemplate m                   => s.handleNewTemplate m
  | .setNewPrevHash m                => s.handleSetNewPrevHash m
  | .requestTransactionDataError _   => return (s, [])
  | .requestTransactionDataSuccess _ => return (s, [])
  | _                                => throw (.err .unexpectedMessage)

section Vardiff

variable {κ μ ω ε : Type}

-- The channel gets the difficulty that its shares since the last round ask for.
def runVardiffOnChannel (S : ShareChannels κ μ ω ε) (d : DownstreamId) (channelId : ChannelId)
    (channel : κ) (vardiff : C.VardiffState) : κ × C.VardiffState × List RouteMessageTo :=
  match C.vardiff.tryVardiff vardiff (S.getNominalHashrate channel) (S.getTarget channel)
      (S.getSharesPerMinute channel) with
  | (.ok (some hashrate), vardiff) =>
    match S.updateChannel channel hashrate none with
    | (.ok _, channel)    => (channel, vardiff, [setTarget d channelId (S.getTarget channel)])
    | (.error _, channel) => (channel, vardiff, [])
  | (.ok none, vardiff) | (.error _, vardiff) => (channel, vardiff, [])

def runVardiffOnChannels (S : ShareChannels κ μ ω ε) (key : VardiffKey) (channels : Map ChannelId κ)
    (vardiff : C.VardiffState) : Map ChannelId κ × C.VardiffState × List RouteMessageTo :=
  match channels.lookup key.2 with
  | none         => (channels, vardiff, [])
  | some channel =>
    let (channel, vardiff, messages) := runVardiffOnChannel S key.1 key.2 channel vardiff
    (channels.insert key.2 channel, vardiff, messages)

def vardiffRound (key : VardiffKey) (vardiff : C.VardiffState)
    (r : Map DownstreamId (Downstream C) × List RouteMessageTo) :
    Except (Fault PoolError)
      (C.VardiffState × Map DownstreamId (Downstream C) × List RouteMessageTo) :=
  match r.1.lookup key.1 with
  | none            => return (vardiff, r)
  | some downstream =>
    let (standard, vardiff, messages) :=
      runVardiffOnChannels C.standard.toShareChannels key downstream.standardChannels vardiff
    let (extended, vardiff, messages') :=
      runVardiffOnChannels C.extended.toShareChannels key downstream.extendedChannels vardiff
    return (vardiff, r.1.insert key.1 { downstream with
      standardChannels := standard
      extendedChannels := extended }, r.2 ++ messages ++ messages')

def runVardiff : Result C := do
  let (vardiff, downstream, messages) ← s.vardiff.forEach vardiffRound (s.downstream, [])
  return ({ s with vardiff := vardiff, downstream := downstream }, messages)

end Vardiff

end ChannelManager

end Pool
