import StratumApps.Sv2.Basic

namespace Sv2

structure AllocateMiningJobToken where
  userIdentifier : Bytes
  requestId      : UInt32
  deriving DecidableEq

structure AllocateMiningJobTokenSuccess where
  requestId       : UInt32
  miningJobToken  : Bytes
  coinbaseOutputs : Bytes
  deriving DecidableEq

structure DeclareMiningJob where
  requestId        : UInt32
  miningJobToken   : B0255
  version          : UInt32
  coinbaseTxPrefix : Bytes
  coinbaseTxSuffix : Bytes
  txIdsList        : Seq064K U256
  excessData       : Bytes
  deriving DecidableEq

structure DeclareMiningJobSuccess where
  requestId         : UInt32
  newMiningJobToken : Bytes
  deriving DecidableEq

structure DeclareMiningJobError where
  requestId    : UInt32
  errorCode    : Bytes
  errorDetails : Bytes
  deriving DecidableEq

structure ProvideMissingTransactions where
  requestId             : UInt32
  unknownTxPositionList : List UInt16
  deriving DecidableEq

structure ProvideMissingTransactionsSuccess where
  requestId       : UInt32
  transactionList : Seq064K Bytes
  deriving DecidableEq

structure PushSolution where
  extranonce : Bytes
  prevHash   : U256
  ntime      : UInt32
  nonce      : UInt32
  nbits      : UInt32
  version    : UInt32
  deriving DecidableEq

inductive JobDeclaration
  | allocateMiningJobToken (m : AllocateMiningJobToken)
  | allocateMiningJobTokenSuccess (m : AllocateMiningJobTokenSuccess)
  | declareMiningJob (m : DeclareMiningJob)
  | declareMiningJobSuccess (m : DeclareMiningJobSuccess)
  | declareMiningJobError (m : DeclareMiningJobError)
  | provideMissingTransactions (m : ProvideMissingTransactions)
  | provideMissingTransactionsSuccess (m : ProvideMissingTransactionsSuccess)
  | pushSolution (m : PushSolution)
  deriving DecidableEq

end Sv2
