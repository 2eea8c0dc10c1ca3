import StratumApps.Translator.Sv1.Interface

open Sv2 Handler StratumCore

namespace Translator.Sv1

structure DownstreamData where
  channelId                             : Option ChannelId
  downstreamId                          : DownstreamId
  extranonce1                           : Bytes
  extranonce2Len                        : ℕ
  versionRollingMask                    : Option UInt32
  versionRollingMinBit                  : Option UInt32
  lastJobVersionField                   : Option UInt32
  authorizedWorkerName                  : String
  userIdentity                          : String
  target                                : Target
  hashrate                              : Option Hashrate
  cachedSetDifficulty                   : Option Target
  cachedNotify                          : Option Notify
  pendingTarget                         : Option Target
  pendingHashrate                       : Option Hashrate
  sv1HandshakeComplete                  : Bool
  queuedSv1HandshakeMessages            : List ClientMessage
  processingQueuedSv1HandshakeResponses : Bool
  pendingShare                          : Option SubmitShareWithChannelId
  upstreamTarget                        : Option Target
  deriving DecidableEq

variable (C : Core)

-- A share for a job that is not valid any more, or whose header cannot be made, is not valid.
def validateSv1Share (share : Submit) (target : Target) (extranonce1 : Bytes)
    (versionRollingMask : Option UInt32) (validJobs : List Notify) : Bool :=
  match validJobs.find? (·.jobId = share.jobId) with
  | none     => false
  | some job =>
    let shareVersion := share.versionBits.getD job.version
    let mask := versionRollingMask.getD versionMask
    let version := (job.version &&& ~~~mask) ||| (shareVersion &&& mask)
    (C.shareHash job (extranonce1 ++ share.extraNonce2) version share.time share.nonce).any
      fun hash => decide (hash < target)

namespace DownstreamData

def new (downstreamId : DownstreamId) (target : Target) (hashrate : Option Hashrate) :
    DownstreamData where
  channelId                             := none
  downstreamId                          := downstreamId
  extranonce1                           := List.replicate 8 0
  extranonce2Len                        := 4
  versionRollingMask                    := none
  versionRollingMinBit                  := none
  lastJobVersionField                   := none
  authorizedWorkerName                  := ""
  userIdentity                          := ""
  target                                := target
  hashrate                              := hashrate
  cachedSetDifficulty                   := none
  cachedNotify                          := none
  pendingTarget                         := none
  pendingHashrate                       := none
  sv1HandshakeComplete                  := false
  queuedSv1HandshakeMessages            := []
  processingQueuedSv1HandshakeResponses := false
  pendingShare                          := none
  upstreamTarget                        := none

variable (d : DownstreamData)

def handleConfigure (versionRollingMask versionRollingMinBitCount : Option UInt32) :
    Except (Fault Sv1Error) Answer × DownstreamData :=
  let d := { d with
    versionRollingMask   := versionRollingMask.map (· &&& versionMask)
    versionRollingMinBit := versionRollingMinBitCount }
  let params := C.versionRollingParams (d.versionRollingMask.getD 0) (d.versionRollingMinBit.getD 0)
  let message :=
    "Version mask invalid, automatic version mask selection not supported, please " ++
      "change it in crate::downstream::mod.rs"
  ((expect params message).map fun p => .configured p.1 p.2 false, d)

def handleSubscribe : List (String × String) :=
  [("mining.set_difficulty", toString d.downstreamId),
    ("mining.notify", "ae6812eb4cd7735a302a8a9dd95cf71f")]

def isAuthorized (name : String) : Bool :=
  d.authorizedWorkerName = name

def authorize (name : String) : DownstreamData :=
  { d with authorizedWorkerName := name, userIdentity := name }

def handleSubmit (validJobs : List Notify) (share : Submit) : Bool × DownstreamData :=
  match d.channelId with
  | none           => (false, d)
  | some channelId =>
    if validateSv1Share C share d.target d.extranonce1 d.versionRollingMask validJobs then
      (true, { d with pendingShare := some {
        channelId          := channelId
        downstreamId       := d.downstreamId
        share              := share
        extranonce         := d.extranonce1
        extranonce2Len     := d.extranonce2Len
        versionRollingMask := d.versionRollingMask
        jobVersion         := d.lastJobVersionField } })
    else
      (false, d)

-- The library calls back the handler for the request, and answers with what it says. An authorize is
-- always granted.
def handleMessage (validJobs : List Notify) (m : ClientMessage) :
    Except (Fault Sv1Error) (Option Response) × DownstreamData :=
  match m.request with
  | .suggestDifficulty | .extranonceSubscribe => (.ok none, d)
  | .configure mask minBit =>
    let r := d.handleConfigure C mask minBit
    (r.1.map fun answer => some ⟨m.id, answer⟩, r.2)
  | .subscribe =>
    (.ok (some ⟨m.id, .subscribed d.handleSubscribe d.extranonce1 d.extranonce2Len⟩), d)
  | .authorize name => (.ok (some ⟨m.id, .authorized true⟩), d.authorize name)
  | .submit share =>
    if C.isValidSubmission (d.isAuthorized share.userName) d.extranonce2Len d.versionRollingMask
        share then
      let r := d.handleSubmit C validJobs share
      (.ok (some ⟨m.id, .accepted r.1⟩), r.2)
    else
      (.error (.err .invalidSubmission), d)
  | .malformed => (.error (.err .unexpectedMessage), d)

-- Which messages of the server a downstream takes as its own.
def accepts (e : Envelope) : Bool :=
  (d.channelId = some e.channelId || e.channelId = 0) &&
    (e.downstreamId.isNone || e.downstreamId = some d.downstreamId)

-- The pending target and hashrate become the current ones.
def applyPending : DownstreamData :=
  { d with
    target          := d.pendingTarget.getD d.target
    pendingTarget   := none
    hashrate        := d.pendingHashrate <|> d.hashrate
    pendingHashrate := none }

end DownstreamData

def ClientMessage.isAuthorize (m : ClientMessage) : Bool :=
  match m.request with
  | .authorize _ => true
  | _            => false

-- What the task of a downstream has still to do before it waits again. Between any two of these the
-- server may go on.
inductive DownstreamOp
  | checkEstablished (m : ClientMessage)
  | checkFirst (m : ClientMessage)
  | openChannel
  | queue (m : ClientMessage)
  | handle (m : ClientMessage)
  | write (m : ServerMessage)
  | completeHandshake
  | applyPending
  | sendShare
  deriving DecidableEq

namespace DownstreamOp

-- What follows on the response to a message.
def respond (m : ClientMessage) (r : Response) : List DownstreamOp :=
  write (.response r) :: ((if m.isAuthorize then [completeHandshake] else []) ++ [sendShare])

-- What follows when the handshake is complete: the cached messages go out.
def sendCached (d : DownstreamData) : List DownstreamOp :=
  (d.cachedSetDifficulty.elim [] fun t => [write (.setDifficulty t), applyPending]) ++
    d.cachedNotify.elim [] fun n => [write (.notify n)]

end DownstreamOp

open DownstreamOp

-- A downstream with its task: what the task has still to do, what waits in its receiver, and a record
-- of the messages of the miner in the order in which they came, of those that were processed with the
-- responses to them, and of what was written to the miner.
structure Downstream where
  data      : DownstreamData
  runs      : Bool
  todo      : List DownstreamOp
  received  : List Envelope
  sent      : List ClientMessage
  processed : List (ClientMessage × Option Response)
  written   : List ServerMessage
  deriving DecidableEq

namespace Downstream

def new (d : DownstreamId) (target : Target) (hashrate : Option Hashrate) : Downstream where
  data      := .new d target hashrate
  runs      := true
  todo      := []
  received  := []
  sent      := []
  processed := []
  written   := []

variable (o : Downstream)

def ends : Downstream :=
  { o with runs := false, todo := [] }

def next (ops : List DownstreamOp) : Downstream :=
  { o with todo := ops ++ o.todo }

def onResponse (m : ClientMessage) : Except (Fault Sv1Error) (Option Response) → Downstream
  | .ok (some r) => { o with processed := o.processed ++ [(m, some r)] }.next (respond m r)
  | .ok none     => { o with processed := o.processed ++ [(m, none)] }.next [.sendShare]
  | .error _     => { o with processed := o.processed ++ [(m, none)] }.ends

def handleMessage (validJobs : List Notify) (m : ClientMessage) : Downstream :=
  let r := o.data.handleMessage C validJobs m
  { o with data := r.2 }.onResponse m r.1

def handleSv1HandshakeCompletion : Downstream :=
  { o with data := { o.data with
      sv1HandshakeComplete := true
      cachedSetDifficulty  := none
      cachedNotify         := none } }.next (sendCached o.data)

-- The task of a downstream does what is next, and may have a message for the server.
def exec (validJobs : List Notify) : DownstreamOp → Downstream × List DownstreamMessages
  | .checkEstablished m =>
    (if o.data.channelId.isNone then o.next [.checkFirst m] else o.next [.handle m], [])
  | .checkFirst m =>
    (if o.data.queuedSv1HandshakeMessages.isEmpty then o.next [.openChannel, .queue m]
      else o.next [.queue m], [])
  | .openChannel => (o, [.openChannel o.data.downstreamId])
  | .queue m =>
    ({ o with data := { o.data with
      queuedSv1HandshakeMessages := o.data.queuedSv1HandshakeMessages ++ [m] } }, [])
  | .handle m          => (o.handleMessage C validJobs m, [])
  | .write m           => ({ o with written := o.written ++ [m] }, [])
  | .completeHandshake => (o.handleSv1HandshakeCompletion, [])
  | .applyPending      => ({ o with data := o.data.applyPending }, [])
  | .sendShare         =>
    ({ o with data := { o.data with pendingShare := none } },
      o.data.pendingShare.toList.map .submitShares)

-- A `mining.set_difficulty` is only cached. A `mining.notify` is written behind the one that is
-- cached, or is cached itself as long as the handshake is not complete.
def onNotification (e : Envelope) : Downstream :=
  match e.message with
  | .setDifficulty t => { o with data := { o.data with cachedSetDifficulty := some t } }
  | .notify n =>
    let data := { o.data with lastJobVersionField := some n.version }
    if o.data.sv1HandshakeComplete then
      match o.data.cachedSetDifficulty with
      | none   => { o with data := data }.next [.write (.notify n)]
      | some t => { o with data := { data with cachedSetDifficulty := none }.applyPending }.next
        [.write (.setDifficulty t), .write (.notify { n with cleanJobs := true })]
    else
      { o with data := { data with cachedNotify := some n } }
  | .response r =>
    if o.data.processingQueuedSv1HandshakeResponses then o.next [.write (.response r)] else o

def handleSv1ServerMessage (e : Envelope) : Downstream :=
  if o.data.accepts e then o.onNotification e else o

end Downstream

end Translator.Sv1
