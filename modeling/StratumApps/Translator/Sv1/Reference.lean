import StratumApps.Translator.Sv1.Steps

open Sv2 Handler StratumCore

namespace Translator.Sv1.Reference

def buildSv1NotifyFromSv2 (p : SetNewPrevHashMp) (job : NewExtendedMiningJob) (cleanJobs : Bool) :
    Notify where
  jobId        := toString job.jobId.toNat
  prevHash     := p.prevHash
  coinBase1    := job.coinbaseTxPrefix.1
  coinBase2    := job.coinbaseTxSuffix.1
  merkleBranch := job.merklePath
  version      := job.version
  bits         := p.nbits
  time         := job.minNtime.getD p.minNtime
  cleanJobs    := cleanJobs

-- Version bits go with a mask.
def shareVersion (jobVersion : UInt32) : Option UInt32 → Option UInt32 → Option UInt32
  | some bits, some mask => some ((jobVersion &&& ~~~mask) ||| (bits &&& mask))
  | none, none           => some jobVersion
  | _, _                 => none

def parse (digits : List Char) : Option ℕ :=
  if digits ≠ [] ∧ digits.all Char.isDigit then
    some (digits.foldl (fun n c => 10 * n + (c.toNat - 48)) 0)
  else
    none

def buildSv2SubmitShares (share : Submit) (channelId : ChannelId) (sequenceNumber jobVersion : UInt32)
    (mask : Option UInt32) : Option SubmitSharesExtended := do
  let jobId ← parse share.jobId.toList
  let version ← shareVersion jobVersion share.versionBits mask
  let extranonce ← share.extraNonce2.tryInto 32
  if jobId < 2 ^ 32 then
    some {
      channelId      := channelId
      sequenceNumber := sequenceNumber
      jobId          := UInt32.ofNat jobId
      nonce          := share.nonce
      ntime          := share.time
      version        := version
      extranonce     := extranonce }
  else
    none

def buildSv2OpenChannel (requestId : RequestId) (userIdentity : String) (hashrate : Hashrate)
    (maxTarget : Target) (minExtranonceSize : UInt16) : Option OpenExtendedMiningChannel :=
  if userIdentity.utf8ByteSize ≤ 255 then
    some {
      requestId         := requestId
      userIdentity      := userIdentity
      nominalHashRate   := hashrate
      maxTarget         := maxTarget
      minExtranonceSize := minExtranonceSize }
  else
    none

def userIdentityTlv (userIdentity : String) : Option Tlv :=
  if userIdentity.utf8ByteSize ≤ 32 then
    some ⟨⟨2, 1⟩, userIdentity.toUTF8.toList⟩
  else
    none

def versionRollingParams (versionRollingMask versionRollingMinBit : UInt32) :
    Option (UInt32 × UInt32) :=
  let negotiatedMask := versionRollingMask &&& versionMask
  if negotiatedMask >>> 29 = 0 ∧ negotiatedMask <<< 19 = 0 then
    some (versionRollingMask, versionRollingMinBit)
  else
    none

theorem versionRollingParams_isSome (mask minBit : UInt32) :
    (versionRollingParams (mask &&& versionMask) minBit).isSome := by
  have hhead : versionMask >>> 29 = 0 := by decide
  have htail : versionMask <<< 19 = 0 := by decide
  simp [versionRollingParams, UInt32.and_assoc, UInt32.shiftRight_and, UInt32.shiftLeft_and, hhead,
    htail]

def isValidSubmission (authorized : Bool) (extranonce2Size : ℕ) (versionRollingMask : Option UInt32)
    (share : Submit) : Bool :=
  let hasValidVersionBits := match share.versionBits, versionRollingMask with
    | some bits, some mask => decide (bits &&& ~~~mask = 0)
    | some _, none         => false
    | none, mask           => mask.isNone
  authorized && decide (extranonce2Size = share.extraNonce2.length) && hasValidVersionBits

-- The hash of a share is its nonce, and the target of a hashrate has its bits.
def core : Core where
  buildSv1NotifyFromSv2 p job clean := some (buildSv1NotifyFromSv2 p job clean)
  buildsSv1SetDifficulty target     := target ≠ 0
  buildSv2SubmitShares              := buildSv2SubmitShares
  buildSv2OpenChannel               := buildSv2OpenChannel
  shareHash _ _ _ _ nonce           := some (BitVec.ofNat 256 nonce.toNat)
  hashRateToTarget hashrate _       := some (BitVec.ofNat 256 hashrate.toNat)
  sumHashrates hashrates            := hashrates.sum
  userIdentityTlv                   := userIdentityTlv
  versionRollingParams              := versionRollingParams
  isValidSubmission                 := isValidSubmission
  rolls                             := versionRollingParams_isSome

theorem core_lawful : core.Lawful where
  notify _ _ _ _ h := by
    obtain rfl := Option.some.inj h
    exact ⟨rfl, rfl⟩

namespace Sample

def config (aggregateChannels enableVardiff : Bool) : Config where
  aggregateChannels          := aggregateChannels
  enableVardiff              := enableVardiff
  userIdentity               := "user"
  minIndividualMinerHashrate := 100
  sharesPerMinute            := 0
  downstreamExtranonce2Size  := 4
  firstTarget                := 1000

def success (requestId : RequestId) (channelId : ChannelId) : Action :=
  .upstream (.openExtendedMiningChannelSuccess {
    requestId        := requestId
    channelId        := channelId
    target           := 500
    extranonceSize   := 4
    extranoncePrefix := fit [1, 2] })

def prevHash (channelId : ChannelId) (hash : U256) : Action :=
  .upstream (.setNewPrevHash {
    channelId := channelId
    jobId     := 1
    prevHash  := hash
    minNtime  := 0
    nbits     := 0 })

def job (channelId : ChannelId) (jobId : JobId) : Action :=
  .upstream (.newExtendedMiningJob {
    channelId             := channelId
    jobId                 := jobId
    minNtime              := some 0
    version               := 0
    versionRollingAllowed := true
    merklePath            := []
    coinbaseTxPrefix      := fit []
    coinbaseTxSuffix      := fit [] })

def setTarget (channelId : ChannelId) (target : Target) : Action :=
  .upstream (.setTarget { channelId := channelId, maximumTarget := target })

def goOn (d : DownstreamId) (n : ℕ) : List Action :=
  List.replicate n (.task d)

def serve (n : ℕ) : List Action :=
  List.replicate n .serve

-- A miner connects and sends its first message, and the server asks for a channel.
def connect (d : DownstreamId) (m : ClientMessage) : List Action :=
  [.accept, .miner d m] ++ goOn d 4 ++ [.downstream]

end Sample

end Translator.Sv1.Reference
