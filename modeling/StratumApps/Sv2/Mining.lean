import StratumApps.Sv2.Basic

namespace Sv2

abbrev ChannelId := UInt32
abbrev JobId     := UInt32
abbrev RequestId := UInt32
abbrev Target    := U256

structure OpenStandardMiningChannel where
  requestId       : RequestId
  userIdentity    : String
  nominalHashRate : F32
  maxTarget       : U256
  deriving DecidableEq

structure OpenStandardMiningChannelSuccess where
  requestId        : RequestId
  channelId        : ChannelId
  target           : U256
  extranoncePrefix : B032
  groupChannelId   : ChannelId
  deriving DecidableEq

structure OpenExtendedMiningChannel where
  requestId         : RequestId
  userIdentity      : String
  nominalHashRate   : F32
  maxTarget         : U256
  minExtranonceSize : UInt16
  deriving DecidableEq

structure OpenExtendedMiningChannelSuccess where
  requestId        : RequestId
  channelId        : ChannelId
  target           : U256
  extranonceSize   : UInt16
  extranoncePrefix : B032
  deriving DecidableEq

structure OpenMiningChannelError where
  requestId : RequestId
  errorCode : String
  deriving DecidableEq

structure UpdateChannel where
  channelId       : ChannelId
  nominalHashRate : F32
  maximumTarget   : U256
  deriving DecidableEq

structure UpdateChannelError where
  channelId : ChannelId
  errorCode : String
  deriving DecidableEq

structure CloseChannel where
  channelId  : ChannelId
  reasonCode : String
  deriving DecidableEq

structure SetExtranoncePrefix where
  channelId        : ChannelId
  extranoncePrefix : B032
  deriving DecidableEq

structure SubmitSharesStandard where
  channelId      : ChannelId
  sequenceNumber : UInt32
  jobId          : JobId
  nonce          : UInt32
  ntime          : UInt32
  version        : UInt32
  deriving DecidableEq

structure SubmitSharesExtended where
  channelId      : ChannelId
  sequenceNumber : UInt32
  jobId          : JobId
  nonce          : UInt32
  ntime          : UInt32
  version        : UInt32
  extranonce     : B032
  deriving DecidableEq

structure SubmitSharesSuccess where
  channelId               : ChannelId
  lastSequenceNumber      : UInt32
  newSubmitsAcceptedCount : UInt32
  newSharesSum            : UInt64
  deriving DecidableEq

structure SubmitSharesError where
  channelId      : ChannelId
  sequenceNumber : UInt32
  errorCode      : String
  deriving DecidableEq

structure NewMiningJob where
  channelId  : ChannelId
  jobId      : JobId
  minNtime   : Option UInt32
  version    : UInt32
  merkleRoot : U256
  deriving DecidableEq

structure NewExtendedMiningJob where
  channelId             : ChannelId
  jobId                 : JobId
  minNtime              : Option UInt32
  version               : UInt32
  versionRollingAllowed : Bool
  merklePath            : List U256
  coinbaseTxPrefix      : B064K
  coinbaseTxSuffix      : B064K
  deriving DecidableEq

-- The mining protocol and the template distribution protocol both have a `SetNewPrevHash`. This is
-- the one of the mining protocol, under the alias that the source gives it.
structure SetNewPrevHashMp where
  channelId : ChannelId
  jobId     : JobId
  prevHash  : U256
  minNtime  : UInt32
  nbits     : UInt32
  deriving DecidableEq

structure SetCustomMiningJob where
  channelId                : ChannelId
  requestId                : RequestId
  token                    : B0255
  version                  : UInt32
  prevHash                 : U256
  minNtime                 : UInt32
  nbits                    : UInt32
  coinbaseTxVersion        : UInt32
  coinbasePrefix           : B0255
  coinbaseTxInputNSequence : UInt32
  coinbaseTxOutputs        : B064K
  coinbaseTxLocktime       : UInt32
  merklePath               : List U256
  deriving DecidableEq

structure SetCustomMiningJobSuccess where
  channelId : ChannelId
  requestId : RequestId
  jobId     : JobId
  deriving DecidableEq

structure SetCustomMiningJobError where
  channelId : ChannelId
  requestId : RequestId
  errorCode : String
  deriving DecidableEq

structure SetTarget where
  channelId     : ChannelId
  maximumTarget : U256
  deriving DecidableEq

inductive Mining
  | openStandardMiningChannel (m : OpenStandardMiningChannel)
  | openStandardMiningChannelSuccess (m : OpenStandardMiningChannelSuccess)
  | openExtendedMiningChannel (m : OpenExtendedMiningChannel)
  | openExtendedMiningChannelSuccess (m : OpenExtendedMiningChannelSuccess)
  | openMiningChannelError (m : OpenMiningChannelError)
  | updateChannel (m : UpdateChannel)
  | updateChannelError (m : UpdateChannelError)
  | closeChannel (m : CloseChannel)
  | setExtranoncePrefix (m : SetExtranoncePrefix)
  | submitSharesStandard (m : SubmitSharesStandard)
  | submitSharesExtended (m : SubmitSharesExtended)
  | submitSharesSuccess (m : SubmitSharesSuccess)
  | submitSharesError (m : SubmitSharesError)
  | newMiningJob (m : NewMiningJob)
  | newExtendedMiningJob (m : NewExtendedMiningJob)
  | setNewPrevHash (m : SetNewPrevHashMp)
  | setCustomMiningJob (m : SetCustomMiningJob)
  | setCustomMiningJobSuccess (m : SetCustomMiningJobSuccess)
  | setCustomMiningJobError (m : SetCustomMiningJobError)
  | setTarget (m : SetTarget)
  deriving DecidableEq

end Sv2
