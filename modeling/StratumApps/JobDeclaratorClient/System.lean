import StratumApps.Lib.Transition
import StratumApps.JobDeclaratorClient.Templates
import StratumApps.StratumCore.Reference

open Sv2 Handler StratumCore

namespace Jdc

variable {C : StratumCore}

-- A critical error or a panic ends the loop of the channel manager, and with it the client.
inductive Status
  | running
  | stopped (fault : Fault JDCError)
  deriving DecidableEq

-- The manager and all messages it has sent.
structure System (C : StratumCore) where
  manager : ChannelManager C
  status  : Status
  sent    : List RouteMessageTo

-- What the manager takes from its channels, in any order, and what the other tasks do to its data:
-- the server and the tasks of the downstreams, and the status loop.
inductive Action
  | connect
  | setupConnection (d : DownstreamId) (requireStdJob : Bool)
  | negotiate (d : DownstreamId) (extensions : List UInt16)
  | downstreamMessage (d : DownstreamId) (m : Mining)
  | poolMessage (m : Mining)
  | extensionsMessage (m : Extensions)
  | jdsMessage (m : JobDeclaration)
  | templateMessage (m : TemplateDistribution)
  | vardiff
  | downstreamShutdown (d : DownstreamId)
  | fallback (coinbaseOutputs : Bytes)
  | setUpstreamState (state : UpstreamState)
  | setJdMode (mode : JdMode)
  | allocateTokens
  deriving DecidableEq

namespace System

variable (cfg : Config) (s : System C)

def setDownstream (d : DownstreamId) (f : Downstream C → Downstream C) : System C :=
  { s with manager := { s.manager with downstream := s.manager.downstream.modify d f } }

-- What the loop of the channel manager does with the result of a handler.
def deliver : Result C → System C
  | .ok r =>
    let s := { s with manager := r.manager, sent := s.sent ++ r.messages }
    match r.error with
    | none   => s
    | some e => if e.isCritical then { s with status := .stopped (.err e) } else s
  | .error (.err e)          => if e.isCritical then { s with status := .stopped (.err e) } else s
  | .error (.panicked panic) => { s with status := .stopped (.panicked panic) }

-- A downstream that has gone by then is not set up, and negotiates nothing.
def act : Action → System C
  | .connect => { s with manager := s.manager.connect }
  | .setupConnection d requireStdJob => s.setDownstream d fun downstream => { downstream with
    requireStdJob := downstream.requireStdJob || requireStdJob }
  | .negotiate d extensions => s.setDownstream d ({ · with negotiatedExtensions := extensions })
  | .downstreamMessage d m => s.deliver (s.manager.handleDownstreamMessage cfg d m)
  | .poolMessage m => s.deliver (s.manager.handleMiningMessageFromServer cfg m)
  | .extensionsMessage m => s.deliver (s.manager.handleExtensionsMessageFromServer cfg m)
  | .jdsMessage m => s.deliver (s.manager.handleJobDeclarationMessageFromServer m)
  | .templateMessage m => s.deliver (s.manager.handleTemplateDistributionMessageFromServer cfg m)
  | .vardiff => s.deliver s.manager.runVardiff
  | .downstreamShutdown d => { s with manager := s.manager.removeDownstream d }
  | .fallback coinbaseOutputs => s.deliver <|
    ({ s.manager with upstreamState := .soloMining }.reset coinbaseOutputs).map fun manager =>
      { manager := manager, messages := [] }
  | .setUpstreamState state => { s with manager := { s.manager with upstreamState := state } }
  | .setJdMode mode => { s with manager := { s.manager with jdMode := mode } }
  | .allocateTokens =>
    let r := s.manager.allocateToken cfg
    { s with manager := r.1, sent := s.sent ++ r.2 }

def step (a : Action) : Option (System C) :=
  match s.status with
  | .running   => some (s.act cfg a)
  | .stopped _ => none

-- The client starts without an upstream, with the outputs of its configuration.
structure Init : Prop where
  downstream                              : s.manager.downstream = ∅
  extranonces                             : C.extranonce.new (0, 0) (0, jdcSearchSpaceBytes)
    (jdcSearchSpaceBytes, maxExtranonceLen) none = .ok s.manager.extranoncePrefixFactoryExtended
  standard                                : s.manager.extranoncePrefixFactoryStandard =
    s.manager.extranoncePrefixFactoryExtended
  requestIdFactory                        : s.manager.requestIdFactory = 0
  downstreamIdFactory                     : s.manager.downstreamIdFactory = 0
  sequenceNumberFactory                   : s.manager.sequenceNumberFactory = 0
  lastFutureTemplate                      : s.manager.lastFutureTemplate = none
  lastNewPrevHash                         : s.manager.lastNewPrevHash = none
  allocateTokens                          : s.manager.allocateTokens = none
  templateStore                           : s.manager.templateStore = ∅
  lastDeclareJobStore                     : s.manager.lastDeclareJobStore = ∅
  templateIdToUpstreamJobId               : s.manager.templateIdToUpstreamJobId = ∅
  downstreamChannelIdAndJobIdToTemplateId :
    s.manager.downstreamChannelIdAndJobIdToTemplateId = ∅
  upstreamChannel                         : s.manager.upstreamChannel = none
  poolTagString                           : s.manager.poolTagString = none
  pendingDownstreamRequests               : s.manager.pendingDownstreamRequests = []
  jobFactory                              : s.manager.jobFactory = none
  vardiff                                 : s.manager.vardiff = ∅
  negotiatedExtensions                    : s.manager.negotiatedExtensions = []
  upstreamState                           : s.manager.upstreamState = .soloMining
  jdMode                                  : s.manager.jdMode = .soloMining
  running                                 : s.status = .running
  sent                                    : s.sent = []

end System

namespace ChannelManager

-- The manager as it is made, with the factory of the prefixes and the outputs of the configuration.
def new (extranonces : C.Extranonce) (coinbaseOutputs : Bytes) : ChannelManager C where
  downstream                              := ∅
  extranoncePrefixFactoryExtended         := extranonces
  extranoncePrefixFactoryStandard         := extranonces
  requestIdFactory                        := 0
  downstreamIdFactory                     := 0
  sequenceNumberFactory                   := 0
  lastFutureTemplate                      := none
  lastNewPrevHash                         := none
  allocateTokens                          := none
  templateStore                           := ∅
  lastDeclareJobStore                     := ∅
  templateIdToUpstreamJobId               := ∅
  downstreamChannelIdAndJobIdToTemplateId := ∅
  coinbaseOutputs                         := coinbaseOutputs
  upstreamChannel                         := none
  poolTagString                           := none
  pendingDownstreamRequests               := []
  jobFactory                              := none
  vardiff                                 := ∅
  negotiatedExtensions                    := []
  upstreamState                           := .soloMining
  jdMode                                  := .soloMining

end ChannelManager

def machine (C : StratumCore) (cfg : Config) : Machine (System C) Action where
  Init := System.Init
  step := System.step cfg

-- A client for runs on concrete inputs.
namespace Sample

def config (supportedExtensions requiredExtensions : List UInt16) : Config where
  userIdentity        := ⟨"", Nat.zero_le 255⟩
  minerTagString      := "miner"
  shareBatchSize      := 10
  sharesPerMinute     := 6
  supportedExtensions := supportedExtensions
  requiredExtensions  := requiredExtensions

def start (coinbaseOutputs : Bytes) : System reference where
  manager := .new ⟨[], 4, 0⟩ coinbaseOutputs
  status  := .running
  sent    := []

theorem start_init {cfg : Config} {coinbaseOutputs : Bytes} :
    (machine reference cfg).Init (start coinbaseOutputs) where
  downstream                              := rfl
  extranonces                             := rfl
  standard                                := rfl
  requestIdFactory                        := rfl
  downstreamIdFactory                     := rfl
  sequenceNumberFactory                   := rfl
  lastFutureTemplate                      := rfl
  lastNewPrevHash                         := rfl
  allocateTokens                          := rfl
  templateStore                           := rfl
  lastDeclareJobStore                     := rfl
  templateIdToUpstreamJobId               := rfl
  downstreamChannelIdAndJobIdToTemplateId := rfl
  upstreamChannel                         := rfl
  poolTagString                           := rfl
  pendingDownstreamRequests               := rfl
  jobFactory                              := rfl
  vardiff                                 := rfl
  negotiatedExtensions                    := rfl
  upstreamState                           := rfl
  jdMode                                  := rfl
  running                                 := rfl
  sent                                    := rfl

-- One output with the value of the templates, to a script of one byte.
def coinbaseOutputs : Bytes :=
  [1, 0x00, 0xf2, 0x05, 0x2a, 0x01, 0x00, 0x00, 0x00, 1, 0x51]

-- The output of the configuration, which has no value yet.
def rewardOutputs : Bytes :=
  [1, 0x00, 0x00, 0x00, 0x00, 0x00, 0x00, 0x00, 0x00, 1, 0x51]

def template (t : TemplateId) (futureTemplate : Bool) : NewTemplate where
  templateId               := t
  futureTemplate           := futureTemplate
  version                  := 0x20000000
  coinbaseTxVersion        := 2
  coinbasePrefix           := fit [3]
  coinbaseTxInputSequence  := 0
  coinbaseTxValueRemaining := 5000000000
  coinbaseTxOutputsCount   := 0
  coinbaseTxOutputs        := fit []
  coinbaseTxLocktime       := 0
  merklePath               := []

def tip (t : TemplateId) : SetNewPrevHash where
  templateId      := t
  prevHash        := 0
  headerTimestamp := 1700000000
  nBits           := 0x1d00ffff
  target          := 0

def future (t : TemplateId) : Action :=
  .templateMessage (.newTemplate (template t true))

def newTemplate (t : TemplateId) : Action :=
  .templateMessage (.newTemplate (template t false))

def prevHash (t : TemplateId) : Action :=
  .templateMessage (.setNewPrevHash (tip t))

def openStandard (d : DownstreamId) : Action :=
  .downstreamMessage d (.openStandardMiningChannel ⟨1, "miner", 0x447a0000, .allOnes 256⟩)

def openExtended (d : DownstreamId) : Action :=
  .downstreamMessage d (.openExtendedMiningChannel ⟨1, "miner", 0x447a0000, .allOnes 256, 4⟩)

def success : OpenExtendedMiningChannelSuccess where
  requestId        := 1
  channelId        := 7
  target           := 0
  extranonceSize   := 8
  extranoncePrefix := fit [9]

def opened : Action :=
  .poolMessage (.openExtendedMiningChannelSuccess success)

def allocate (token : Bytes) : Action :=
  .jdsMessage (.allocateMiningJobTokenSuccess ⟨1, token, coinbaseOutputs⟩)

-- The data of a template without transactions.
def data (t : TemplateId) : Action :=
  .templateMessage (.requestTransactionDataSuccess ⟨t, [], []⟩)

def submit (channelId : ChannelId) (jobId : JobId) : SubmitSharesExtended where
  channelId      := channelId
  sequenceNumber := 1
  jobId          := jobId
  nonce          := 0
  ntime          := 1700000000
  version        := 0x20000000
  extranonce     := fit [1, 2, 3, 4]

end Sample

end Jdc
