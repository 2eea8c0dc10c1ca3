import StratumApps.Lib.Transition
import StratumApps.Translator.Sv1.Downstream

open Sv2 Handler StratumCore

namespace Translator.Sv1

structure PendingTargetUpdate where
  downstreamId : DownstreamId
  newTarget    : Target
  newHashrate  : Hashrate
  deriving DecidableEq

-- The server with its data. Of the vardiff states only their owners are kept: what a state finds when
-- its time comes is an input.
structure Sv1Server where
  downstreams             : List DownstreamId
  requestIdToDownstreamId : Map RequestId DownstreamId
  vardiff                 : List DownstreamId
  prevhash                : Option SetNewPrevHashMp
  downstreamIdFactory     : DownstreamId
  requestIdFactory        : RequestId
  aggregatedValidJobs     : Option (List Notify)
  nonAggregatedValidJobs  : Option (Map ChannelId (List Notify))
  pendingTargetUpdates    : List PendingTargetUpdate
  initialTarget           : Option Target
  cleanJob                : Bool
  sequenceCounter         : UInt32
  minerCounter            : UInt32

inductive Sv1ServerError
  | downstreamNotFound (requestId : RequestId)
  | sv1Error
  | translation
  | general (message : String)
  deriving DecidableEq

-- An error ends the loop of the server and shuts the translator down, a panic ends it silently.
inductive Status
  | running
  | stopped (fault : Fault Sv1ServerError)
  deriving DecidableEq

-- What the server has still to do before it takes the next message. Between any two of these the
-- downstreams may go on.
inductive ServerOp
  | setChannel (d : DownstreamId) (m : OpenExtendedMiningChannelSuccess)
  | takeQueue (d : DownstreamId) (channelId : ChannelId)
  | setProcessing (d : DownstreamId)
  | handleQueued (d : DownstreamId) (channelId : ChannelId) (m : ClientMessage)
  | sendFirst (channelId : ChannelId)
  | broadcast (e : Envelope)
  | setUpstreamTarget (d : DownstreamId) (target : Target)
  | takePending (d : Option DownstreamId) (target : Target)
  | sendPending (u : PendingTargetUpdate)
  | forwardTarget (d : DownstreamId) (target : Target)
  | vardiff (updates : List (DownstreamId × Hashrate)) (all : List (ChannelId × PendingTargetUpdate))
    (immediate : List Envelope)
  deriving DecidableEq

-- The server, all downstreams that it has ever made, the messages of the downstreams that it has not
-- taken yet, and a record of what it has sent to the channel manager.
structure System where
  server    : Sv1Server
  status    : Status
  todo      : List ServerOp
  objects   : Map DownstreamId Downstream
  inbox     : List DownstreamMessages
  forwarded : List (Mining × Option (List Tlv))

-- The channel from the server to the downstreams holds no more than this many messages.
def capacity : ℕ := 128

namespace Sv1Server

def new (aggregateChannels : Bool) : Sv1Server where
  downstreams             := []
  requestIdToDownstreamId := ∅
  vardiff                 := []
  prevhash                := none
  downstreamIdFactory     := 1
  requestIdFactory        := 1
  aggregatedValidJobs     := if aggregateChannels then some [] else none
  nonAggregatedValidJobs  := if aggregateChannels then none else some ∅
  pendingTargetUpdates    := []
  initialTarget           := none
  cleanJob                := true
  sequenceCounter         := 0
  minerCounter            := 0

variable (s : Sv1Server)

-- The jobs that a share of a channel may be for.
def validJobs (channelId : Option ChannelId) : List Notify :=
  match s.aggregatedValidJobs, s.nonAggregatedValidJobs with
  | some jobs, _       => jobs
  | none, some jobs    => (channelId.bind jobs.lookup).getD []
  | none, none         => []

def storeJob (channelId : ChannelId) (notify : Notify) (cleanJobs : Bool) : Sv1Server :=
  let push (jobs : List Notify) := (if cleanJobs then [] else jobs) ++ [notify]
  match s.aggregatedValidJobs, s.nonAggregatedValidJobs with
  | some jobs, _    => { s with aggregatedValidJobs := some (push jobs) }
  | none, some jobs => { s with
    nonAggregatedValidJobs := some (jobs.upsert channelId fun r => push (r.getD [])) }
  | none, none      => s

-- The updates that a new upstream target is the answer to leave the list, whether the target allows
-- them or not.
def takePending (d : Option DownstreamId) : Sv1Server :=
  { s with pendingTargetUpdates := s.pendingTargetUpdates.filter fun u =>
    !(d.all (· = u.downstreamId)) }

def applicable (d : Option DownstreamId) (target : Target) : List PendingTargetUpdate :=
  s.pendingTargetUpdates.filter fun u => d.all (· = u.downstreamId) && decide (target ≤ u.newTarget)

end Sv1Server

namespace System

variable (C : Core) (cfg : Config) (s : System)

def new (aggregateChannels : Bool) : System where
  server    := .new aggregateChannels
  status    := .running
  todo      := []
  objects   := ∅
  inbox     := []
  forwarded := []

def next (ops : List ServerOp) : System :=
  { s with todo := ops ++ s.todo }

def fail (e : Fault Sv1ServerError) : System :=
  { s with status := .stopped e, todo := [] }

def forward (m : Mining) (tlvs : Option (List Tlv)) : System :=
  { s with forwarded := s.forwarded ++ [(m, tlvs)] }

def modify (d : DownstreamId) (f : Downstream → Downstream) : System :=
  { s with objects := s.objects.modify d f }

def modifyData (d : DownstreamId) (f : DownstreamData → DownstreamData) : System :=
  s.modify d fun o => { o with data := f o.data }

-- A downstream that the server has and has not removed.
def getDownstream (d : DownstreamId) : Option Downstream :=
  if d ∈ s.server.downstreams then s.objects.lookup d else none

def channelIdOf (d : DownstreamId) : Option ChannelId :=
  (s.getDownstream d).bind (·.data.channelId)

def broadcast (e : Envelope) : System :=
  { s with objects := Map.mapValues (fun o => { o with received := o.received ++ [e] }) s.objects }

section Connections

def accept : System :=
  let d := s.server.downstreamIdFactory
  { s with
    objects := s.objects.insert d (.new d cfg.firstTarget (some cfg.minIndividualMinerHashrate))
    server  := { s.server with
      downstreamIdFactory := d + 1
      downstreams         := s.server.downstreams ++ [d]
      vardiff             := if cfg.enableVardiff then s.server.vardiff ++ [d] else s.server.vardiff } }

-- The targets and hashrates that the downstreams have or are about to have.
def currentTargets : List Target :=
  s.server.downstreams.filterMap fun d =>
    (s.objects.lookup d).map fun o => o.data.pendingTarget.getD o.data.target

def currentHashrates : List Hashrate :=
  s.server.downstreams.filterMap fun d =>
    (s.objects.lookup d).bind fun o => o.data.pendingHashrate <|> o.data.hashrate

def minTarget : List Target → Option Target
  | []      => none
  | t :: ts => some (ts.foldl (fun t t' => if t' < t then t' else t) t)

-- The channel manager puts in the id of the upstream channel.
def sendUpdateChannelOnDownstreamStateChange : System :=
  if cfg.aggregateChannels then
    match minTarget s.currentTargets with
    | some target => s.forward (.updateChannel {
        channelId       := 0
        nominalHashRate := C.sumHashrates s.currentHashrates
        maximumTarget   := target }) none
    | none => s.forward (.updateChannel {
        channelId       := 0
        nominalHashRate := 0
        maximumTarget   := BitVec.allOnes 256 }) none
  else
    s

def closeChannel (d : DownstreamId) : System :=
  match (s.objects.lookup d).bind (·.data.channelId) with
  | some channelId =>
    if cfg.aggregateChannels then s else s.forward (.closeChannel {
      channelId  := channelId
      reasonCode := "downstream disconnected" }) none
  | none => s

def downstreamShutdown (d : DownstreamId) : System :=
  let removed : System := { s with server := { s.server with
    vardiff     := if cfg.enableVardiff then s.server.vardiff.filter (· ≠ d) else s.server.vardiff
    downstreams := s.server.downstreams.filter (· ≠ d) } }
  if d ∈ s.server.downstreams then
    let updated := if cfg.enableVardiff then removed.sendUpdateChannelOnDownstreamStateChange C cfg
      else removed
    updated.closeChannel cfg d
  else
    removed

def fallback : System :=
  { s with server := { s.server with
    vardiff     := if cfg.enableVardiff then [] else s.server.vardiff
    downstreams := [] } }

end Connections

section Downstreams

def openExtendedMiningChannel (requestId : RequestId) (d : DownstreamId) : System :=
  let minerId := s.server.minerCounter + 1
  let userIdentity := s!"{cfg.userIdentity}.miner{minerId.toNat}"
  let maxTarget := if cfg.enableVardiff then cfg.firstTarget else BitVec.allOnes 256
  let s := { s with server := { s.server with
    initialTarget := some (s.server.initialTarget.getD maxTarget)
    minerCounter  := minerId } }.modifyData d fun data => { data with userIdentity := userIdentity }
  match C.buildSv2OpenChannel requestId userIdentity cfg.minIndividualMinerHashrate maxTarget
    cfg.downstreamExtranonce2Size with
  | some m => s.forward (.openExtendedMiningChannel m) none
  | none   => s

-- The request is entered before the downstream is looked for.
def handleOpenChannelRequest (d : DownstreamId) : System :=
  let requestId := s.server.requestIdFactory
  let s := { s with server := { s.server with
    requestIdFactory        := requestId + 1
    requestIdToDownstreamId := s.server.requestIdToDownstreamId.insert requestId d } }
  if (s.getDownstream d).isSome then s.openExtendedMiningChannel C cfg requestId d else s

def unwrapOnNone : String := "called `Option::unwrap()` on a `None` value"

def unwrapOnErr : String := "called `Result::unwrap()` on an `Err` value"

-- The identity that goes with a share. There is none in aggregated mode.
def shareTlvs (d : DownstreamId) : Except (Fault Sv1ServerError) (Option (List Tlv)) :=
  if cfg.aggregateChannels then
    return none
  else do
    let o ← expect (s.getDownstream d) unwrapOnNone
    let tlv ← expect (C.userIdentityTlv o.data.userIdentity) unwrapOnErr
    return some [tlv]

-- A share without the version of its job is skipped.
def submitShare (m : SubmitShareWithChannelId) : Except (Fault Sv1ServerError) System :=
  match m.jobVersion with
  | none            => return s
  | some jobVersion => do
    let share ← orErr (C.buildSv2SubmitShares m.share m.channelId s.server.sequenceCounter jobVersion
      m.versionRollingMask) .sv1Error
    let tlvs ← s.shareTlvs C cfg m.downstreamId
    let s := s.forward (.submitSharesExtended share) tlvs
    return { s with server := { s.server with sequenceCounter := s.server.sequenceCounter + 1 } }

def handleSubmitShares (m : SubmitShareWithChannelId) : System :=
  match s.submitShare C cfg m with
  | .ok s'   => s'
  | .error e => s.fail e

def handleDownstreamMessage : DownstreamMessages → System
  | .submitShares m => s.handleSubmitShares C cfg m
  | .openChannel d  => s.handleOpenChannelRequest C cfg d

end Downstreams

section Upstream

def handleOpenExtendedMiningChannelSuccess (m : OpenExtendedMiningChannelSuccess) : System :=
  match s.server.requestIdToDownstreamId.lookup m.requestId with
  | none   => s.fail (.err (.downstreamNotFound m.requestId))
  | some d =>
    let s := { s with server := { s.server with
      requestIdToDownstreamId := s.server.requestIdToDownstreamId.erase m.requestId } }
    if (s.getDownstream d).isSome then
      s.next [.setChannel d m, .takeQueue d m.channelId, .sendFirst m.channelId]
    else
      s

def handleNewExtendedMiningJob (m : NewExtendedMiningJob) : System :=
  match s.server.prevhash with
  | none          => s
  | some prevhash =>
    match C.buildSv1NotifyFromSv2 prevhash m s.server.cleanJob with
    | none        => s.fail (.err .translation)
    | some notify => { s with
      server := { s.server with cleanJob := false }.storeJob m.channelId notify s.server.cleanJob }.next
        [.broadcast ⟨m.channelId, none, .notify notify⟩]

def handleSetNewPrevHash (m : SetNewPrevHashMp) : System :=
  { s with server := { s.server with cleanJob := true, prevhash := some m } }

-- The downstream of a channel, the first one where several have it.
def downstreamOfChannel (channelId : ChannelId) : Option DownstreamId :=
  s.server.downstreams.find? fun d => s.channelIdOf d = some channelId

def handleSetTarget (m : SetTarget) : System :=
  match cfg.enableVardiff, cfg.aggregateChannels with
  | true, true   => s.next <|
    s.server.downstreams.map (.setUpstreamTarget · m.maximumTarget) ++
      [.takePending none m.maximumTarget]
  | true, false  => s.next <| (s.downstreamOfChannel m.channelId).elim [] fun d =>
    [.setUpstreamTarget d m.maximumTarget, .takePending (some d) m.maximumTarget]
  | false, true  => s.next (s.server.downstreams.map (.forwardTarget · m.maximumTarget))
  | false, false => s.next <| (s.downstreamOfChannel m.channelId).elim [] fun d =>
    [.forwardTarget d m.maximumTarget]

-- The channel manager sends no other messages.
def handleUpstreamMessage : Mining → System
  | .openExtendedMiningChannelSuccess m => s.handleOpenExtendedMiningChannelSuccess m
  | .newExtendedMiningJob m             => s.handleNewExtendedMiningJob C m
  | .setNewPrevHash m                   => s.handleSetNewPrevHash m
  | .setTarget m                        => s.handleSetTarget cfg m
  | _                                   =>
    s.fail (.panicked "Invalid message: should have been filtered earlier")

end Upstream

section Difficulty

-- A `mining.set_difficulty` for one downstream, where it can be built.
def setDifficulty (channelId : ChannelId) (d : Option DownstreamId) (target : Target) :
    List Envelope :=
  if C.buildsSv1SetDifficulty target then [⟨channelId, d, .setDifficulty target⟩] else []

def sendUpdateChannelMessages (all : List (ChannelId × PendingTargetUpdate)) : System :=
  if cfg.aggregateChannels then
    match all, minTarget s.currentTargets with
    | u :: _, some target => s.forward (.updateChannel {
        channelId       := u.1
        nominalHashRate := C.sumHashrates s.currentHashrates
        maximumTarget   := target }) none
    | _ :: _, none        => s.fail (.panicked "At least one downstream should exist")
    | [], _               => s
  else
    { s with forwarded := s.forwarded ++ all.map fun u => (.updateChannel {
      channelId       := u.1
      nominalHashRate := u.2.newHashrate
      maximumTarget   := u.2.newTarget }, none) }

-- One downstream whose vardiff state asks for another hashrate. The pending target is set at once;
-- the `mining.set_difficulty` for it waits for the upstream where the upstream has to agree.
def vardiffUpdate (u : PendingTargetUpdate) (channelId : ChannelId) (upstreamTarget : Option Target) :
    System × List Envelope :=
  let s := s.modifyData u.downstreamId fun data =>
    { data with pendingTarget := some u.newTarget, pendingHashrate := some u.newHashrate }
  if upstreamTarget.all (· ≤ u.newTarget) then
    (s, setDifficulty C channelId (some u.downstreamId) u.newTarget)
  else
    ({ s with server := { s.server with
      pendingTargetUpdates := s.server.pendingTargetUpdates ++ [u] } }, [])

def vardiffRound (d : DownstreamId) (hashrate : Hashrate) :
    System × Option (ChannelId × PendingTargetUpdate) × List Envelope :=
  match (s.getDownstream d).bind (fun o => o.data.channelId.map (·, o.data.upstreamTarget)),
    C.hashRateToTarget hashrate cfg.sharesPerMinute with
  | some r, some target =>
    let u : PendingTargetUpdate := ⟨d, target, hashrate⟩
    let r' := s.vardiffUpdate C u r.1 r.2
    (r'.1, some (r.1, u), r'.2)
  | _, _ => (s, none, [])

def handleVardiff (all : List (ChannelId × PendingTargetUpdate)) (immediate : List Envelope) :
    List (DownstreamId × Hashrate) → System
  | []           =>
    (if all.isEmpty then s else s.sendUpdateChannelMessages C cfg all).next
      (immediate.map .broadcast)
  | (d, h) :: us =>
    let r := s.vardiffRound C cfg d h
    r.1.next [.vardiff us (all ++ r.2.1.toList) (immediate ++ r.2.2)]

end Difficulty

section Serve

def setChannel (d : DownstreamId) (m : OpenExtendedMiningChannelSuccess) : System :=
  s.modifyData d fun data => { data with
    extranonce1    := m.extranoncePrefix.1
    extranonce2Len := m.extranonceSize.toNat
    channelId      := some m.channelId
    upstreamTarget := some m.target }

def takeQueue (d : DownstreamId) (channelId : ChannelId) : System :=
  match (s.objects.lookup d).elim [] (·.data.queuedSv1HandshakeMessages) with
  | []      => s
  | m :: ms =>
    (s.modifyData d fun data => { data with queuedSv1HandshakeMessages := [] }).next <|
      .setProcessing d :: (m :: ms).map (.handleQueued d channelId)

-- A response goes to the downstream over the channel that all listen to, an error nowhere.
def handleQueued (d : DownstreamId) (channelId : ChannelId) (m : ClientMessage) : System :=
  match s.objects.lookup d with
  | none   => s
  | some o =>
    let r := o.data.handleMessage C (s.server.validJobs o.data.channelId) m
    match r.1 with
    | .error (.panicked p) => s.fail (.panicked p)
    | .error (.err _)      => s.modify d fun o =>
      { o with data := r.2, processed := o.processed ++ [(m, none)] }
    | .ok response         =>
      (s.modify d fun o => { o with data := r.2, processed := o.processed ++ [(m, response)] }).next <|
        response.toList.map fun response => .broadcast ⟨channelId, some d, .response response⟩

def sendFirst (channelId : ChannelId) : System :=
  if C.buildsSv1SetDifficulty cfg.firstTarget then
    s.next [.broadcast ⟨channelId, none, .setDifficulty cfg.firstTarget⟩]
  else
    s.fail (.err (.general "Failed to generate set_difficulty"))

def exec : ServerOp → System
  | .setChannel d m           => s.setChannel d m
  | .takeQueue d c            => s.takeQueue d c
  | .setProcessing d          => s.modifyData d fun data =>
    { data with processingQueuedSv1HandshakeResponses := true }
  | .handleQueued d c m       => s.handleQueued C d c m
  | .sendFirst c              => s.sendFirst C cfg c
  | .broadcast e              => s.broadcast e
  | .setUpstreamTarget d t    =>
    if d ∈ s.server.downstreams then
      s.modifyData d fun data => { data with upstreamTarget := some t }
    else
      s
  | .takePending d t          => { s with server := s.server.takePending d }.next <|
    (s.server.applicable d t).map .sendPending
  | .sendPending u            => (s.channelIdOf u.downstreamId).elim s fun c =>
    s.next ((setDifficulty C c (some u.downstreamId) u.newTarget).map .broadcast)
  | .forwardTarget d t        => (s.channelIdOf d).elim s fun c =>
    (s.modifyData d fun data =>
      { data with upstreamTarget := some t, pendingTarget := some t }).next <|
        (setDifficulty C c (some d) t).map .broadcast
  | .vardiff us all immediate => s.handleVardiff C cfg all immediate us

end Serve

end System

end Translator.Sv1
