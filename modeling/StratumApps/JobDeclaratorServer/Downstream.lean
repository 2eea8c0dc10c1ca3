import StratumApps.Lib.Handler
import StratumApps.JobDeclaratorServer.Mempool

open Sv2 Handler

namespace Jds

variable {Tx : Type} {R : RolesLogic Tx}

inductive TransactionState
  | presentInMempool (txid : Txid)
  | missing
  deriving DecidableEq

inductive Error
  | txDecodingError (e : String)
  | logicErrorMessage (message : JobDeclaration)
  | jdsMissingTransactions
  | noValidJob
  | binarySv2
  | unexpectedMessage
  deriving DecidableEq

inductive SendTo
  | respond (m : JobDeclaration)
  | none (m : Option JobDeclaration)
  deriving DecidableEq

-- The three parts of the source's `declared_mining_job` are the fields `declaredMiningJob`,
-- `transactionsWithState` and `missingTxs`.
structure JobDeclaratorDownstream (Tx : Type) where
  coinbaseOutput        : Bytes
  tokenToJobMap         : Map UInt32 (Option UInt8)
  tokens                : UInt32
  privateKey            : Bytes
  declaredMiningJob     : Option DeclareMiningJob
  transactionsWithState : List TransactionState
  missingTxs            : List UInt16
  addTxsToMempool       : AddTrasactionsToMempoolInner Tx

def u32ToLeBytes (n : UInt32) : Bytes :=
  [n.toUInt8, (n >>> 8).toUInt8, (n >>> 16).toUInt8, (n >>> 24).toUInt8]

def u32FromLeBytes : Bytes → Option UInt32
  | [a, b, c, d] =>
    some (a.toUInt32 ||| b.toUInt32 <<< 8 ||| c.toUInt32 <<< 16 ||| d.toUInt32 <<< 24)
  | _ => none

-- The token is signed as the first 32 bytes of its serialization in a buffer of 255 bytes.
def signedToken (R : RolesLogic Tx) (token : B0255) (privateKey : Bytes) :
    Except (Fault Error) Bytes :=
  let bytes : Bytes := .ofNat token.1.length :: token.1
  if bytes.length ≤ 255 then
    .ok (R.sign ((bytes ++ .replicate (255 - bytes.length) 0).take 32) privateKey)
  else
    .error (.err .binarySv2)

namespace JobDeclaratorDownstream

def new (coinbaseOutput privateKey : Bytes) : JobDeclaratorDownstream Tx where
  coinbaseOutput        := coinbaseOutput
  tokenToJobMap         := ∅
  tokens                := 0
  privateKey            := privateKey
  declaredMiningJob     := none
  transactionsWithState := []
  missingTxs            := []
  addTxsToMempool       := ⟨[], []⟩

variable (d : JobDeclaratorDownstream Tx)

def verifyJob (message : DeclareMiningJob) : Except (Fault Error) Bool :=
  match u32FromLeBytes message.miningJobToken.1 with
  | some tokenU32 => .ok (decide (tokenU32 ∈ d.tokenToJobMap))
  | none          => .error (.panicked "called `Result::unwrap()` on an `Err` value")

def handleAllocateMiningJobToken (message : AllocateMiningJobToken) :
    SendTo × JobDeclaratorDownstream Tx :=
  let token := d.tokens + 1
  let messageSuccess : AllocateMiningJobTokenSuccess := {
    requestId       := message.requestId
    miningJobToken  := u32ToLeBytes token
    coinbaseOutputs := d.coinbaseOutput
  }
  (.respond (.allocateMiningJobTokenSuccess messageSuccess), { d with
    tokens        := token
    tokenToJobMap := d.tokenToJobMap.insert token none })

-- The first part of `handle_declare_mining_job`, up to the end of its first lock.
def takeDeclaredMiningJob (m : JdsMempool R) (message : DeclareMiningJob) :
    JdsMempool R × JobDeclaratorDownstream Tx :=
  match d.declaredMiningJob with
  | none => (m, d)
  | some oldMiningJob =>
    let dropped := oldMiningJob.txIdsList.1.filter (· ∉ message.txIdsList.1)
    (m.clearTxids dropped, { d with declaredMiningJob := none })

-- The loop of `handle_declare_mining_job` over the declared ids: the state of each transaction, and
-- the positions of the missing ones.
def transactionStates (m : JdsMempool R) (txids : List Txid) : List TransactionState :=
  txids.map fun txid => if txid ∈ m.mempool then .presentInMempool txid else .missing

def missingPositions (m : JdsMempool R) (txids : List Txid) : List UInt16 :=
  (txids.zipIdx.filter fun (txid, _) => txid ∉ m.mempool).map fun (_, i) => i.toUInt16

theorem missing_notMem_of_missingPositions {m : JdsMempool R} {txids : List Txid}
    (h : missingPositions m txids = []) : .missing ∉ transactionStates m txids := by
  simp only [missingPositions, List.map_eq_nil_iff, List.filter_eq_nil_iff] at h
  simp only [transactionStates, List.mem_map, not_exists, not_and]
  intro txid hm hs
  have ⟨i, hi⟩ := List.mem_iff_getElem?.mp hm
  have := h (txid, i) <| List.mem_zipIdx_iff_getElem?.mpr hi
  simp_all

-- The rest of `handle_declare_mining_job`, from its copy of the mempool on.
def handleDeclareMiningJob (m : JdsMempool R) (message : DeclareMiningJob) :
    Except (Fault Error) (SendTo × JobDeclaratorDownstream Tx) := do
  if ← d.verifyJob message then
    let txids := message.txIdsList.1
    let missingTxs := missingPositions m txids
    let d := { d with
      declaredMiningJob     := some message
      transactionsWithState := transactionStates m txids
      missingTxs            := missingTxs
      addTxsToMempool       := { d.addTxsToMempool with
        knownTransactions :=
          d.addTxsToMempool.knownTransactions ++ txids.filter (· ∈ m.mempool) } }
    let newMiningJobToken ← signedToken R message.miningJobToken d.privateKey
    if missingTxs = [] then
      return (.respond (.declareMiningJobSuccess ⟨message.requestId, newMiningJobToken⟩), d)
    else
      return (.respond (.provideMissingTransactions ⟨message.requestId, missingTxs⟩), d)
  else
    return (.respond (.declareMiningJobError ⟨message.requestId, [], []⟩), d)

-- The loop of `handle_provide_missing_transactions_success`: the `i`-th transaction of the list is
-- the one at the `i`-th missing position.
def provide (R : RolesLogic Tx) (message : ProvideMissingTransactionsSuccess) :
    List Bytes → List UInt16 → List TransactionState → List Tx →
      Except (Fault Error) (List TransactionState × List Tx)
  | [], _, states, unknown => .ok (states, unknown)
  | bytes :: txs, missing, states, unknown =>
    match R.consensusDecode bytes, missing with
    | .error e, _ => .error (.err (.txDecodingError e))
    | .ok _, []   => .error (.err (.logicErrorMessage (.provideMissingTransactionsSuccess message)))
    | .ok transaction, index :: missing =>
      if index.toNat < states.length then
        provide R message txs missing
          (states.set index.toNat (.presentInMempool (R.computeTxid transaction)))
          (unknown ++ [transaction])
      else
        .error (.panicked "index out of bounds")

def handleProvideMissingTransactionsSuccess (R : RolesLogic Tx)
    (message : ProvideMissingTransactionsSuccess) :
    Except (Fault Error) (SendTo × JobDeclaratorDownstream Tx) :=
  match d.declaredMiningJob with
  | none => .error (.err .noValidJob)
  | some declaredJob =>
    if declaredJob.requestId = message.requestId then do
      let (states, unknown) ←
        provide R message message.transactionList.1 d.missingTxs d.transactionsWithState []
      if .missing ∈ states then
        throw (.err .jdsMissingTransactions)
      let newMiningJobToken ← signedToken R declaredJob.miningJobToken d.privateKey
      return (.respond (.declareMiningJobSuccess ⟨message.requestId, newMiningJobToken⟩), { d with
        transactionsWithState := states
        addTxsToMempool       := { d.addTxsToMempool with
          unknownTransactions := d.addTxsToMempool.unknownTransactions ++ unknown } })
    else
      return (.none none, d)

def handlePushSolution (message : PushSolution) : SendTo × JobDeclaratorDownstream Tx :=
  (.none (some (.pushSolution message)), d)

def getTransactionsInJob : List Txid :=
  d.transactionsWithState.filterMap fun
    | .presentInMempool txid => some txid
    | .missing               => none

end JobDeclaratorDownstream

end Jds
