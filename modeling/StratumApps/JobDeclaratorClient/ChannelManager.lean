import StratumApps.Lib.Handler
import StratumApps.Sv2.Extensions
import StratumApps.Sv2.JobDeclaration
import StratumApps.StratumCore.Interface

open Sv2 Handler StratumCore

namespace Jdc

variable {C : StratumCore}

abbrev DownstreamId := ℕ

abbrev UpstreamJobId := JobId

abbrev VardiffKey := DownstreamId × ChannelId

structure DownstreamChannelJobId where
  downstreamId : DownstreamId
  channelId    : ChannelId
  jobId        : JobId
  deriving DecidableEq

inductive JdMode
  | coinbaseOnly
  | fullTemplate
  | soloMining
  deriving DecidableEq

inductive UpstreamState
  | noChannel
  | pending
  | connected
  | soloMining
  deriving DecidableEq

inductive ChannelSv2Error
  | extendedChannelClientSide (e : ExtendedChannelError)
  | extendedChannelServerSide (e : ExtendedChannelError)
  | standardChannelServerSide (e : StandardChannelError)
  | groupChannelServerSide (e : GroupChannelError)
  deriving DecidableEq

inductive JDCError
  | channelSv2 (e : ChannelSv2Error)
  | binarySv2
  | unexpectedMessage
  | bitcoinEncodeError (e : EncodeError)
  | lastNewPrevhashNotFound
  | futureTemplateNotPresent
  | lastDeclareJobNotFound (requestId : RequestId)
  | tokenNotFound
  | templateNotFound (t : TemplateId)
  | downstreamNotFound (d : DownstreamId)
  | vardiffNotFound (key : VardiffKey)
  | txDataError
  | failedToCreateCustomJob
  | failedToCreateGroupChannel (e : GroupChannelError)
  | channelManagerHasBadCoinbaseOutputs
  | declaredJobHasBadCoinbaseOutputs
  | extranonceSizeTooLarge
  | extranoncePrefixFactoryError (e : ExtendedExtranonceError)
  | requiredExtensionsNotSupported (extensions : List UInt16)
  | serverRequiresUnsupportedExtensions (extensions : List UInt16)
  deriving DecidableEq

namespace JDCError

def isNonCriticalVariant : JDCError → Bool
  | lastNewPrevhashNotFound               => true
  | futureTemplateNotPresent              => true
  | lastDeclareJobNotFound _              => true
  | tokenNotFound                         => true
  | templateNotFound _                    => true
  | downstreamNotFound _                  => true
  | vardiffNotFound _                     => true
  | txDataError                           => true
  | failedToCreateCustomJob               => true
  | requiredExtensionsNotSupported _      => true
  | serverRequiresUnsupportedExtensions _ => true
  | _                                     => false

def isCritical (e : JDCError) : Bool :=
  !e.isNonCriticalVariant

def extended (e : ExtendedChannelError) : JDCError :=
  channelSv2 (.extendedChannelServerSide e)

def standard (e : StandardChannelError) : JDCError :=
  channelSv2 (.standardChannelServerSide e)

def group (e : GroupChannelError) : JDCError :=
  channelSv2 (.groupChannelServerSide e)

end JDCError

-- The data of a downstream, which the source keeps behind a lock of its own.
structure Downstream (C : StratumCore) where
  requireStdJob        : Bool
  groupChannels        : Option C.Group
  extendedChannels     : Map ChannelId C.Extended
  standardChannels     : Map ChannelId C.Standard
  channelIdFactory     : ChannelId
  negotiatedExtensions : List UInt16

def Downstream.new : Downstream C where
  requireStdJob        := false
  groupChannels        := none
  extendedChannels     := ∅
  standardChannels     := ∅
  channelIdFactory     := 0
  negotiatedExtensions := []

structure DeclaredJob where
  declareMiningJob   : Option DeclareMiningJob
  template           : NewTemplate
  prevHash           : Option SetNewPrevHash
  setCustomMiningJob : Option SetCustomMiningJob
  coinbaseOutput     : Bytes
  txList             : List Bytes
  deriving DecidableEq

inductive PendingChannelRequest
  | extendedChannel (d : DownstreamId) (message : OpenExtendedMiningChannel)
  | standardChannel (d : DownstreamId) (message : OpenStandardMiningChannel)
  deriving DecidableEq

namespace PendingChannelRequest

def downstreamId : PendingChannelRequest → DownstreamId
  | extendedChannel d _ => d
  | standardChannel d _ => d

def message : PendingChannelRequest → Mining
  | extendedChannel _ m => .openExtendedMiningChannel m
  | standardChannel _ m => .openStandardMiningChannel m

def hashrate : PendingChannelRequest → F32
  | extendedChannel _ m => m.nominalHashRate
  | standardChannel _ m => m.nominalHashRate

end PendingChannelRequest

-- `jdMode` is the global mode, and `upstreamState` the atomic that the manager shares with the
-- status loop.
structure ChannelManager (C : StratumCore) where
  downstream                             : Map DownstreamId (Downstream C)
  extranoncePrefixFactoryExtended        : C.Extranonce
  extranoncePrefixFactoryStandard        : C.Extranonce
  requestIdFactory                       : RequestId
  downstreamIdFactory                    : DownstreamId
  sequenceNumberFactory                  : UInt32
  lastFutureTemplate                     : Option NewTemplate
  lastNewPrevHash                        : Option SetNewPrevHash
  allocateTokens                         : Option AllocateMiningJobTokenSuccess
  templateStore                          : Map TemplateId NewTemplate
  lastDeclareJobStore                    : Map RequestId DeclaredJob
  templateIdToUpstreamJobId              : Map TemplateId UpstreamJobId
  downstreamChannelIdAndJobIdToTemplateId : Map DownstreamChannelJobId TemplateId
  coinbaseOutputs                        : Bytes
  upstreamChannel                        : Option C.Upstream
  poolTagString                          : Option String
  pendingDownstreamRequests              : List PendingChannelRequest
  jobFactory                             : Option C.JobFactory
  vardiff                                : Map VardiffKey C.VardiffState
  negotiatedExtensions                   : List UInt16
  upstreamState                          : UpstreamState
  jdMode                                 : JdMode

-- A user identity of more than 255 bytes stops the client before it has a job declarator.
structure Config where
  userIdentity        : { s : String // s.utf8ByteSize ≤ 255 }
  minerTagString      : String
  shareBatchSize      : ℕ
  sharesPerMinute     : F32
  supportedExtensions : List UInt16
  requiredExtensions  : List UInt16

-- What the manager reports to the status loop, other than its own end.
inductive State
  | upstreamShutdownFallback
  | jobDeclaratorShutdownFallback
  deriving DecidableEq

inductive RouteMessageTo
  | upstream (m : Mining)
  | extensions (m : Extensions)
  | jobDeclarator (m : JobDeclaration)
  | templateProvider (m : TemplateDistribution)
  | downstream (d : DownstreamId) (m : Mining)
  | status (state : State)
  deriving DecidableEq

-- Solo miners keep their mining messages to themselves. The handlers that send on the channel of
-- the upstream do not ask.
def RouteMessageTo.forwards (mode : JdMode) : RouteMessageTo → Bool
  | upstream _ => mode ≠ .soloMining
  | _          => true

def forward (mode : JdMode) (messages : List RouteMessageTo) : List RouteMessageTo :=
  messages.filter (·.forwards mode)

-- A handler may have changed the data and sent messages before it fails. One that throws has done
-- neither, or it stops the manager.
structure Outcome (C : StratumCore) where
  manager  : ChannelManager C
  messages : List RouteMessageTo
  error    : Option JDCError := none

abbrev Result (C : StratumCore) :=
  Except (Fault JDCError) (Outcome C)

def jdcSearchSpaceBytes : ℕ := 4

def maxExtranonceLen : ℕ := 32

-- The outputs of the coinbase with the first of them carrying the remaining value of a template.
def payRemaining (value : UInt64) : List TxOut → Option (List TxOut)
  | []                => none
  | output :: outputs => some ({ output with value := value } :: outputs)

section Jobs

variable {κ μ ε : Type} [JobMessage μ] (J : JobStore κ μ ε) (channel : κ)

-- The future job of a template that the channel has just got, with the id it is stored under.
def futureJobOf (t : TemplateId) : Except (Fault JDCError) (JobId × Job μ) := do
  let jobId ← expect ((J.getFutureTemplateToJobId channel).lookup t) "job_id must exist"
  let job ← expect ((J.getFutureJobs channel).lookup jobId) "future job must exist"
  return (jobId, job)

def activeJobOf : Except (Fault JDCError) (JobId × Job μ) := do
  let job ← expect (J.getActiveJob channel) "active job must exist"
  return (job.getJobId, job)

-- The job that a channel has just made of a template.
def jobOf (msg : NewTemplate) : Except (Fault JDCError) (JobId × Job μ) :=
  if msg.futureTemplate then futureJobOf J channel msg.templateId else activeJobOf J channel

end Jobs

def setNewPrevHashMp (channelId : ChannelId) (jobId : JobId) (p : SetNewPrevHash) : Mining :=
  .setNewPrevHash {
    channelId := channelId
    jobId     := jobId
    prevHash  := p.prevHash
    minNtime  := p.headerTimestamp
    nbits     := p.nBits }

namespace ChannelManager

variable (s : ChannelManager C)

def setDownstream (d : DownstreamId) (downstream : Downstream C) : ChannelManager C :=
  { s with downstream := s.downstream.insert d downstream }

-- What a fallback clears. The fields that are not named stay.
def reset (coinbaseOutputs : Bytes) : Except (Fault JDCError) (ChannelManager C) := do
  let extranonces ← expect (C.extranonce.new (0, 0) (0, jdcSearchSpaceBytes)
    (jdcSearchSpaceBytes, maxExtranonceLen) none).toOption "valid ranges"
  return { s with
    downstream                              := ∅
    templateStore                           := ∅
    lastDeclareJobStore                     := ∅
    templateIdToUpstreamJobId               := ∅
    downstreamChannelIdAndJobIdToTemplateId := ∅
    pendingDownstreamRequests               := []
    downstreamIdFactory                     := 0
    requestIdFactory                        := 0
    extranoncePrefixFactoryExtended         := extranonces
    extranoncePrefixFactoryStandard         := extranonces
    allocateTokens                          := none
    upstreamChannel                         := none
    poolTagString                           := none
    coinbaseOutputs                         := coinbaseOutputs }

-- A downstream that has connected, under the next id.
def connect : ChannelManager C :=
  { s with
    downstream          := s.downstream.insert s.downstreamIdFactory .new
    downstreamIdFactory := s.downstreamIdFactory + 1 }

def removeDownstream (d : DownstreamId) : ChannelManager C :=
  { s with
    downstream                              := s.downstream.erase d
    downstreamChannelIdAndJobIdToTemplateId :=
      s.downstreamChannelIdAndJobIdToTemplateId.retain (·.downstreamId ≠ d)
    vardiff                                 := s.vardiff.retain (·.1 ≠ d) }

-- The requests for tokens, one under each of the next request ids.
def requestTokens (cfg : Config) : ℕ → ChannelManager C → ChannelManager C × List RouteMessageTo
  | 0, s     => (s, [])
  | n + 1, s =>
    let r := requestTokens cfg n { s with requestIdFactory := s.requestIdFactory + 1 }
    (r.1, .jobDeclarator (.allocateMiningJobToken {
      userIdentifier := cfg.userIdentity.1.toUTF8.toList
      requestId      := s.requestIdFactory }) :: r.2)

-- The source calls this `allocate_tokens`, which is also the name of the field for the answer.
def allocateToken (cfg : Config) : ChannelManager C × List RouteMessageTo :=
  s.requestTokens cfg 1

end ChannelManager

end Jdc
