import StratumApps.Lib.Transition
import StratumApps.Pool.Exits
import StratumApps.StratumCore.Reference

open Sv2 Handler StratumCore

namespace Pool

variable {C : StratumCore}

-- The task of a downstream waits for `SetupConnection`, and forwards mining messages after it.
inductive Connection
  | settingUp
  | started
  deriving DecidableEq

-- An error or a panic ends the loop of the channel manager, and with it the pool.
inductive Status
  | running
  | stopped (fault : Fault PoolError)
  deriving DecidableEq

-- The manager with the two channels it takes from, the one that all downstreams share and the one
-- for shutdowns, the tasks of the downstreams, and all messages it has forwarded.
structure System (C : StratumCore) where
  manager            : ChannelManager C
  status             : Status
  connections        : Map DownstreamId Connection
  downstreamReceiver : List (DownstreamId × Mining)
  shutdowns          : List DownstreamId
  sent               : List RouteMessageTo

inductive Action
  | connect
  | setupConnection (d : DownstreamId) (requiresStandardJobs requiresCustomWork : Bool)
  | negotiate (d : DownstreamId) (extensions : List UInt16)
  | receive (d : DownstreamId) (m : Mining)
  | shutdown (d : DownstreamId)
  | hangUp (d : DownstreamId)
  | removeDownstream
  | downstreamMessage
  | templateMessage (m : TemplateDistribution)
  | vardiff
  deriving DecidableEq

namespace System

variable (cfg : Config) (s : System C)

def setDownstream (d : DownstreamId) (f : Downstream C → Downstream C) : System C :=
  { s with manager := { s.manager with downstream := s.manager.downstream.modify d f } }

-- What the loop of the channel manager does when a handler has ended. Its data stays as the handler
-- has left it, and only the messages of one that succeeds are forwarded.
def deliver (e : ChannelManager.Exit C) : System C :=
  match e.result with
  | .ok messages => { s with manager := e.state, sent := s.sent ++ messages }
  | .error fault => { s with manager := e.state, status := .stopped fault }

def connect : System C :=
  let d := s.manager.downstreamIdFactory
  { s with
    manager     := { s.manager with
      downstream          := s.manager.downstream.insert d .new
      downstreamIdFactory := d + 1 }
    connections := s.connections.insert d .settingUp }

def act : Action → Option (System C)
  | .connect => some s.connect
  | .setupConnection d requiresStandardJobs requiresCustomWork =>
    if s.connections.lookup d = some .settingUp then
      some <| { s with connections := s.connections.insert d .started }.setDownstream d ({ · with
        requiresStandardJobs := requiresStandardJobs
        requiresCustomWork   := requiresCustomWork })
    else
      none
  | .negotiate d extensions =>
    if s.connections.lookup d = some .started then
      some <| s.setDownstream d ({ · with negotiatedExtensions := extensions })
    else
      none
  | .receive d m =>
    if s.connections.lookup d = some .started then
      some { s with downstreamReceiver := s.downstreamReceiver ++ [(d, m)] }
    else
      none
  | .shutdown d =>
    if d ∈ s.connections then some { s with shutdowns := s.shutdowns ++ [d] } else none
  | .hangUp d => if d ∈ s.connections then some { s with connections := s.connections.erase d } else none
  | .removeDownstream =>
    match s.shutdowns with
    | []             => none
    | d :: shutdowns =>
      some { s with manager := s.manager.removeDownstream d, shutdowns := shutdowns }
  | .downstreamMessage =>
    match s.downstreamReceiver with
    | []            => none
    | (d, m) :: rest =>
      some <| { s with downstreamReceiver := rest }.deliver <|
        s.manager.exitMiningMessageFromClient cfg d m
  -- These two end without a value only by a panic, which poisons the lock of the data, or before they
  -- have changed anything.
  | .templateMessage m => some <| s.deliver <| .ofReturned s.manager <|
    s.manager.handleTemplateDistributionMessageFromServer m
  | .vardiff => some <| s.deliver <| .ofReturned s.manager s.manager.runVardiff

@[simp]
theorem deliver_manager {e : ChannelManager.Exit C} : (s.deliver e).manager = e.state := by
  rw [deliver]
  split <;> rfl

@[simp]
theorem deliver_connections {e : ChannelManager.Exit C} :
    (s.deliver e).connections = s.connections := by
  rw [deliver]
  split <;> rfl

@[simp]
theorem deliver_downstreamReceiver {e : ChannelManager.Exit C} :
    (s.deliver e).downstreamReceiver = s.downstreamReceiver := by
  rw [deliver]
  split <;> rfl

section Deliver

variable {s} {e : ChannelManager.Exit C} {manager : ChannelManager C} {messages : List RouteMessageTo}
variable {fault : Fault PoolError}

theorem deliver_ok (h : e.returned = .ok (manager, messages)) :
    s.deliver e = { s with manager := manager, sent := s.sent ++ messages } := by
  obtain ⟨rfl, hr⟩ := Exit.returned_eq_ok.mp h
  rw [deliver, hr]

theorem deliver_error (h : e.returned = .error fault) :
    s.deliver e = { s with manager := e.state, status := .stopped fault } := by
  rw [deliver, Exit.returned_eq_error.mp h]

theorem deliver_running (h : (s.deliver e).status = .running) :
    ∃ manager messages, e.returned = .ok (manager, messages) ∧
      s.deliver e = { s with manager := manager, sent := s.sent ++ messages } := by
  cases he : e.returned with
  | ok r    => exact ⟨r.1, r.2, rfl, deliver_ok he⟩
  | error _ => cases (congrArg System.status (deliver_error he)).symm.trans h

-- The pool goes on if and only if the handler succeeds.
theorem deliver_running_iff (hr : s.status = .running) :
    (s.deliver e).status = .running ↔ Returns e.returned := by
  constructor
  · intro h
    obtain ⟨manager, messages, he, _⟩ := deliver_running h
    exact ⟨_, he⟩
  · rintro ⟨r, he⟩
    rw [deliver_ok he]
    exact hr

end Deliver

def step (a : Action) : Option (System C) :=
  match s.status with
  | .running   => s.act cfg a
  | .stopped _ => none

-- The pool starts with no downstream. Its coinbase outputs are those of the configuration.
structure Init : Prop where
  downstream       : s.manager.downstream = ∅
  idFactory        : s.manager.downstreamIdFactory = 1
  extended         : C.extranonce.new (0, 0) (0, 4) (4, fullExtranonceSize)
    (some [(cfg.serverId >>> 8).toUInt8, cfg.serverId.toUInt8]) =
      .ok s.manager.extranoncePrefixFactoryExtended
  standard         : s.manager.extranoncePrefixFactoryStandard =
    s.manager.extranoncePrefixFactoryExtended
  vardiff          : s.manager.vardiff = ∅
  coinbaseOutputs  : s.manager.coinbaseOutputs =
    C.consensusEncode [⟨0, cfg.coinbaseRewardScript⟩]
  lastNewPrevHash  : s.manager.lastNewPrevHash = none
  lastTemplate     : s.manager.lastFutureTemplate = none
  persisted        : s.manager.persisted = []
  running          : s.status = .running
  connections      : s.connections = ∅
  receiver         : s.downstreamReceiver = []
  shutdowns        : s.shutdowns = []
  sent             : s.sent = []

def start (extranonce : C.Extranonce) : System C where
  manager := {
    downstream                      := ∅
    extranoncePrefixFactoryExtended := extranonce
    extranoncePrefixFactoryStandard := extranonce
    downstreamIdFactory             := 1
    vardiff                         := ∅
    coinbaseOutputs                 := C.consensusEncode [⟨0, cfg.coinbaseRewardScript⟩]
    lastNewPrevHash                 := none
    lastFutureTemplate              := none
    persisted                       := [] }
  status             := .running
  connections        := ∅
  downstreamReceiver := []
  shutdowns          := []
  sent               := []

end System

def machine (C : StratumCore) (cfg : Config) : Machine (System C) Action where
  Init := System.Init cfg
  step := System.step cfg

-- A pool, and the messages it may get, for runs on concrete inputs.
namespace Sample

def config : Config where
  poolTagString        := "pool"
  shareBatchSize       := 10
  sharesPerMinute      := 6
  coinbaseRewardScript := [0x51]
  serverId             := 1

def start : System reference :=
  System.start config ⟨[0, 1], 2, 0⟩

theorem start_init : (machine reference config).Init start where
  downstream      := rfl
  idFactory       := rfl
  extended        := rfl
  standard        := rfl
  vardiff         := rfl
  coinbaseOutputs := rfl
  lastNewPrevHash := rfl
  lastTemplate    := rfl
  persisted       := rfl
  running         := rfl
  connections     := rfl
  receiver        := rfl
  shutdowns       := rfl
  sent            := rfl

def template (t : TemplateId) : NewTemplate where
  templateId               := t
  futureTemplate           := true
  version                  := 0x20000000
  coinbaseTxVersion        := 2
  coinbasePrefix           := fit [3]
  coinbaseTxInputSequence  := 0
  coinbaseTxValueRemaining := 5000000000
  coinbaseTxOutputsCount   := 0
  coinbaseTxOutputs        := fit []
  coinbaseTxLocktime       := 0
  merklePath               := []

def tip (t : TemplateId) : SetNewPrevHash where
  templateId      := t
  prevHash        := 0
  headerTimestamp := 1700000000
  nBits           := 0x1d00ffff
  target          := 0

def future (t : TemplateId) : Action :=
  .templateMessage (.newTemplate (template t))

def prevHash (t : TemplateId) : Action :=
  .templateMessage (.setNewPrevHash (tip t))

-- A downstream sends a message, and the manager takes it.
def handled (d : DownstreamId) (m : Mining) : List Action :=
  [.receive d m, .downstreamMessage]

def openStandard : Mining :=
  .openStandardMiningChannel ⟨1, "miner", 0x447a0000, .allOnes 256⟩

def connected : List Action :=
  [.connect, .setupConnection 1 false false]

end Sample

end Pool
