import StratumApps.Translator.ChannelManager

open Sv2 Handler StratumCore

namespace Translator.Sv1

abbrev Hashrate := F32

structure Submit where
  id          : ℕ
  userName    : String
  jobId       : String
  extraNonce2 : Bytes
  time        : UInt32
  nonce       : UInt32
  versionBits : Option UInt32
  deriving DecidableEq

-- What a miner asks for. A message that the library cannot read is malformed.
inductive Request
  | suggestDifficulty
  | extranonceSubscribe
  | configure (versionRollingMask versionRollingMinBitCount : Option UInt32)
  | subscribe
  | authorize (name : String)
  | submit (share : Submit)
  | malformed
  deriving DecidableEq

structure ClientMessage where
  id      : ℕ
  request : Request
  deriving DecidableEq

inductive Answer
  | configured (versionRollingMask versionRollingMinBit : UInt32) (minimumDifficulty : Bool)
  | subscribed (subscriptions : List (String × String)) (extranonce1 : Bytes) (extranonce2Size : ℕ)
  | authorized (ok : Bool)
  | accepted (ok : Bool)
  deriving DecidableEq

structure Response where
  id     : ℕ
  answer : Answer
  deriving DecidableEq

structure Notify where
  jobId        : String
  prevHash     : U256
  coinBase1    : Bytes
  coinBase2    : Bytes
  merkleBranch : List U256
  version      : UInt32
  bits         : UInt32
  time         : UInt32
  cleanJobs    : Bool
  deriving DecidableEq

-- What the server writes to a miner. A `mining.set_difficulty` is known by the target it is made
-- from.
inductive ServerMessage
  | setDifficulty (target : Target)
  | notify (n : Notify)
  | response (r : Response)
  deriving DecidableEq

def ServerMessage.isNotification : ServerMessage → Bool
  | .response _ => false
  | _           => true

-- A message on the channel from the server to all downstreams.
structure Envelope where
  channelId    : ChannelId
  downstreamId : Option DownstreamId
  message      : ServerMessage
  deriving DecidableEq

structure SubmitShareWithChannelId where
  channelId          : ChannelId
  downstreamId       : DownstreamId
  share              : Submit
  extranonce         : Bytes
  extranonce2Len     : ℕ
  versionRollingMask : Option UInt32
  jobVersion         : Option UInt32
  deriving DecidableEq

inductive DownstreamMessages
  | submitShares (m : SubmitShareWithChannelId)
  | openChannel (d : DownstreamId)
  deriving DecidableEq

-- The version bits that a miner may roll.
def versionMask : UInt32 := UInt32.ofNat 0x1FFFE000

-- What the SV1 side uses of the SV1, translation, channel and extension crates. The hash of a share is
-- that of the header of its job with the extranonce, the version, the time and the nonce. The SV1 crate
-- takes every mask that keeps to the version bits. It asks of a share whether its miner is authorized,
-- and compares it with the size of the extranonce and the mask of the miner.
structure Core where
  buildSv1NotifyFromSv2   : SetNewPrevHashMp → NewExtendedMiningJob → Bool → Option Notify
  buildsSv1SetDifficulty  : Target → Bool
  buildSv2SubmitShares    : Submit → ChannelId → UInt32 → UInt32 → Option UInt32 →
    Option SubmitSharesExtended
  buildSv2OpenChannel     : RequestId → String → Hashrate → Target → UInt16 →
    Option OpenExtendedMiningChannel
  shareHash               : Notify → Bytes → UInt32 → UInt32 → UInt32 → Option Target
  hashRateToTarget        : Hashrate → F32 → Option Target
  sumHashrates            : List Hashrate → Hashrate
  userIdentityTlv         : String → Option Tlv
  versionRollingParams    : UInt32 → UInt32 → Option (UInt32 × UInt32)
  isValidSubmission       : Bool → ℕ → Option UInt32 → Submit → Bool
  rolls                   : ∀ mask minBit, (versionRollingParams (mask &&& versionMask) minBit).isSome

-- A notify is made of its job, of the prev hash and of the flag that it is given.
structure Core.Lawful (C : Core) : Prop where
  notify : ∀ p job clean n, C.buildSv1NotifyFromSv2 p job clean = some n →
    n.prevHash = p.prevHash ∧ n.cleanJobs = clean

-- The target of the first `mining.set_difficulty` comes from the hashrate and the shares per minute.
structure Config where
  aggregateChannels           : Bool
  enableVardiff               : Bool
  userIdentity                : String
  minIndividualMinerHashrate  : Hashrate
  sharesPerMinute             : F32
  downstreamExtranonce2Size   : UInt16
  firstTarget                 : Target

inductive Sv1Error
  | unexpectedMessage
  | invalidSubmission
  deriving DecidableEq

end Translator.Sv1
