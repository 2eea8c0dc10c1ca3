import StratumApps.JobDeclaratorClient.UpstreamMessages

open Sv2 Handler StratumCore

namespace Jdc

variable {C : StratumCore}

namespace ChannelManager

variable (cfg : Config) (s : ChannelManager C)

-- The constraints that the outputs of the job declarator put on the templates.
def coinbaseOutputConstraints (C : StratumCore) (outputs : List TxOut) : RouteMessageTo :=
  .templateProvider <| .coinbaseOutputConstraints {
    maxAdditionalSize   := .ofNat (outputs.map C.txOutSize).sum
    maxAdditionalSigops := .ofNat (C.sigopCost outputs) }

def handleAllocateMiningJobTokenSuccess (msg : AllocateMiningJobTokenSuccess) : Result C := do
  let changed := s.coinbaseOutputs ≠ msg.coinbaseOutputs
  let s := { s with coinbaseOutputs := msg.coinbaseOutputs, allocateTokens := some msg }
  if changed then
    let outputs ← ofExcept .bitcoinEncodeError (C.consensusDecode msg.coinbaseOutputs)
    return { manager := s, messages := [coinbaseOutputConstraints C outputs] }
  else
    return { manager := s, messages := [] }

def handleDeclareMiningJobError : Result C :=
  s.fallback .jobDeclaratorShutdownFallback

-- The custom job is made with the request id, the token and the outputs of the declaration. The
-- factory has moved on even when it makes no job.
def customJobOf (declared : DeclaredJob) (prevHash : SetNewPrevHash) (outputs : List TxOut)
    (msg : DeclareMiningJobSuccess) (factory : C.JobFactory) (upstream : C.Upstream) :
    Except JobFactoryError SetCustomMiningJob × C.JobFactory :=
  C.jobFactory.newCustomJob factory (C.upstream.getChannelId upstream) msg.requestId
    msg.newMiningJobToken (chainTip prevHash) declared.template outputs
    (C.upstream.getFullExtranonceSize upstream)

def handleDeclareMiningJobSuccess (msg : DeclareMiningJobSuccess) : Result C := do
  let declared ← orErr (s.lastDeclareJobStore.lookup msg.requestId)
    (.lastDeclareJobNotFound msg.requestId)
  let prevHash ← orErr declared.prevHash .lastNewPrevhashNotFound
  let outputs ← ofExcept (fun _ => .channelManagerHasBadCoinbaseOutputs) <|
    C.deserializeOutputs declared.coinbaseOutput
  let factory ← orErr s.jobFactory .failedToCreateCustomJob
  let upstream ← orErr s.upstreamChannel .failedToCreateCustomJob
  let r := customJobOf declared prevHash outputs msg factory upstream
  let s := { s with jobFactory := some r.2 }
  match r.1 with
  | .error _ => return { manager := s, messages := [], error := some .failedToCreateCustomJob }
  | .ok job  => return {
    manager  := { s with
      lastDeclareJobStore := s.lastDeclareJobStore.modify msg.requestId
        ({ · with setCustomMiningJob := some job }) }
    messages := [.upstream (.setCustomMiningJob job)] }

-- The transactions at the positions that the server asks for, in the order it asks.
def missingTransactions (txList : List Bytes) (positions : List UInt16) : List Bytes :=
  positions.filterMap (txList[·.toNat]?)

def handleProvideMissingTransactions (msg : ProvideMissingTransactions) : Result C := do
  let entry ← orErr (s.lastDeclareJobStore.lookup msg.requestId)
    (.lastDeclareJobNotFound msg.requestId)
  let missing := missingTransactions entry.txList msg.unknownTxPositionList
  let transactionList ← orErr (if h : missing.length ≤ 65535 then some ⟨missing, h⟩ else none)
    .binarySv2
  return {
    manager  := s
    messages := [.jobDeclarator (.provideMissingTransactionsSuccess {
      requestId       := msg.requestId
      transactionList := transactionList })] }

def handleJobDeclarationMessageFromServer : JobDeclaration → Result C
  | .allocateMiningJobTokenSuccess m => s.handleAllocateMiningJobTokenSuccess m
  | .declareMiningJobError _         => s.handleDeclareMiningJobError
  | .declareMiningJobSuccess m       => s.handleDeclareMiningJobSuccess m
  | .provideMissingTransactions m    => s.handleProvideMissingTransactions m
  | _                                => throw (.err .unexpectedMessage)

end ChannelManager

end Jdc
