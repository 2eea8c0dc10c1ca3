import StratumApps.Sv2.Basic

namespace Sv2

abbrev TemplateId := UInt64

structure NewTemplate where
  templateId               : TemplateId
  futureTemplate           : Bool
  version                  : UInt32
  coinbaseTxVersion        : UInt32
  coinbasePrefix           : B0255
  coinbaseTxInputSequence  : UInt32
  coinbaseTxValueRemaining : UInt64
  coinbaseTxOutputsCount   : UInt32
  coinbaseTxOutputs        : B064K
  coinbaseTxLocktime       : UInt32
  merklePath               : List U256
  deriving DecidableEq

structure SetNewPrevHash where
  templateId      : TemplateId
  prevHash        : U256
  headerTimestamp : UInt32
  nBits           : UInt32
  target          : U256
  deriving DecidableEq

structure RequestTransactionData where
  templateId : TemplateId
  deriving DecidableEq

structure RequestTransactionDataSuccess where
  templateId      : TemplateId
  excessData      : Bytes
  transactionList : List Bytes
  deriving DecidableEq

structure RequestTransactionDataError where
  templateId : TemplateId
  errorCode  : String
  deriving DecidableEq

structure SubmitSolution where
  templateId      : TemplateId
  version         : UInt32
  headerTimestamp : UInt32
  headerNonce     : UInt32
  coinbaseTx      : B064K
  deriving DecidableEq

structure CoinbaseOutputConstraints where
  maxAdditionalSize   : UInt32
  maxAdditionalSigops : UInt16
  deriving DecidableEq

inductive TemplateDistribution
  | coinbaseOutputConstraints (m : CoinbaseOutputConstraints)
  | newTemplate (m : NewTemplate)
  | requestTransactionData (m : RequestTransactionData)
  | requestTransactionDataError (m : RequestTransactionDataError)
  | requestTransactionDataSuccess (m : RequestTransactionDataSuccess)
  | setNewPrevHash (m : SetNewPrevHash)
  | submitSolution (m : SubmitSolution)
  deriving DecidableEq

end Sv2
