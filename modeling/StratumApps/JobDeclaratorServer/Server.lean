import StratumApps.Lib.Transition
import StratumApps.JobDeclaratorServer.Downstream

open Sv2 Handler

namespace Jds

variable {Tx : Type} {R : RolesLogic Tx}

-- Where the task of a client is between two accesses of what it shares with the other tasks.
-- `collect` and `rebuild` are the two calls of `collect_txs_in_job`, from the loop itself and from
-- `get_block_hex`; `rebuild` knows whether the transactions have been retrieved once already.
inductive Task (Tx : Type)
  | recv
  | declare (message : DeclareMiningJob)
  | collect (message : PushSolution) (todo : List TransactionState) (txs : List Tx)
  | rebuild (message : PushSolution) (retrieved : Bool) (lastDeclare : DeclareMiningJob)
      (todo : List TransactionState) (txs : List Tx)
  | retrieve (message : PushSolution) (add : AddTxData Tx)
  | sendBlock (hexdata : String)

structure Session (Tx : Type) where
  downstream : JobDeclaratorDownstream Tx
  task       : Task Tx
  sent       : List JobDeclaration

-- A bounded channel: all that has been put into it, and how much of that has been taken out.
structure BlockChannel where
  queued   : List String
  received : ℕ
  deriving DecidableEq

structure Config where
  coinbaseOutput : Bytes
  privateKey     : Bytes
  coreRpcUrl     : List Char

abbrev ClientId := ℕ

structure Server (R : RolesLogic Tx) where
  mempool    : JdsMempool R
  clients    : Map ClientId (Session Tx)
  nextClient : ClientId
  addTxs     : List (AddTrasactionsToMempoolInner Tx)
  addTasks   : Map ℕ (AddTxData Tx)
  nextTask   : ℕ
  newBlocks  : BlockChannel

-- A client is noticed to have gone where its task waits for the next frame.
inductive Action (Tx : Type)
  | connect
  | receive (c : ClientId) (message : JobDeclaration)
  | run (c : ClientId)
  | rpc (c : ClientId) (answer : Except String Tx)
  | sleep (c : ClientId)
  | disconnect (c : ClientId)
  | spawnAdd
  | runAdd (t : ℕ)
  | rpcAdd (t : ℕ) (answer : Except String Tx)
  | updateMempool (txids : List Txid)
  | submitBlock

namespace Server

variable (s : Server R) (c : ClientId)

def setSession (x : Session Tx) : Server R :=
  { s with clients := s.clients.insert c x }

def endSession : Server R :=
  { s with clients := s.clients.erase c }

-- What the loop of a client does with the result of a handler. An error ends the loop.
def deliver (x : Session Tx) :
    Except (Fault Error) (SendTo × JobDeclaratorDownstream Tx) → Server R
  | .error _ => s.endSession c
  | .ok (.respond m, d) =>
    match m with
    | .declareMiningJobSuccess _ | .provideMissingTransactions _ =>
      { s with addTxs := s.addTxs ++ [d.addTxsToMempool] }.setSession c {
        downstream := { d with addTxsToMempool := ⟨[], []⟩ }
        task       := .recv
        sent       := x.sent ++ [m] }
    | _ => s.setSession c { downstream := d, task := .recv, sent := x.sent ++ [m] }
  | .ok (.none (some (.pushSolution message)), d) =>
    s.setSession c { x with
      downstream := d
      task       := .collect message d.transactionsWithState [] }
  | .ok (.none _, d) => s.setSession c { x with downstream := d, task := .recv }

def receive (x : Session Tx) : JobDeclaration → Server R
  | .allocateMiningJobToken m => s.deliver c x (.ok (x.downstream.handleAllocateMiningJobToken m))
  | .declareMiningJob m =>
    let (mempool, d) := x.downstream.takeDeclaredMiningJob s.mempool m
    { s with mempool := mempool }.setSession c { x with downstream := d, task := .declare m }
  | .provideMissingTransactionsSuccess m =>
    s.deliver c x (x.downstream.handleProvideMissingTransactionsSuccess R m)
  | .pushSolution m => s.deliver c x (.ok (x.downstream.handlePushSolution m))
  | _ => s.deliver c x (.error (.err .unexpectedMessage))

-- `get_block_hex` up to its first lock of the mempool.
def getBlockHex (x : Session Tx) (message : PushSolution) (retrieved : Bool) : Server R :=
  match x.downstream.declaredMiningJob with
  | some lastDeclare =>
    s.setSession c { x with
      task := .rebuild message retrieved lastDeclare x.downstream.transactionsWithState [] }
  | none => if retrieved then s.setSession c { x with task := .recv } else s.endSession c

-- One transaction of `collect_txs_in_job`, under the lock of the mempool.
def collectTx (m : JdsMempool R) : TransactionState → Option Tx
  | .presentInMempool txid =>
    match m.mempool.lookup txid with
    | some (some (tx, _))    => some tx
    | some none | none       => none
  | .missing => none

def runSession (x : Session Tx) : Option (Server R) :=
  match x.task with
  | .recv => none
  | .declare message =>
    s.deliver c x (x.downstream.handleDeclareMiningJob s.mempool message)
  | .collect message [] _ => s.getBlockHex c x message false
  | .collect message (state :: todo) txs =>
    match collectTx s.mempool state with
    | some tx => s.setSession c { x with task := .collect message todo (txs ++ [tx]) }
    | none    => s.setSession c { x with
        task := .retrieve message (.start s.mempool ⟨x.downstream.getTransactionsInJob, []⟩) }
  | .rebuild message _ lastDeclare [] txs =>
    match R.blockHex lastDeclare txs message with
    | some hexdata => s.setSession c { x with task := .sendBlock hexdata }
    | none         => s.endSession c
  | .rebuild message retrieved lastDeclare (state :: todo) txs =>
    match collectTx s.mempool state with
    | some tx => s.setSession c { x with
        task := .rebuild message retrieved lastDeclare todo (txs ++ [tx]) }
    | none    => if retrieved then s.setSession c { x with task := .recv } else s.endSession c
  | .retrieve message (.done _) => s.getBlockHex c x message true
  | .retrieve message add =>
    (add.run s.mempool).map fun (mempool, add) =>
      { s with mempool := mempool }.setSession c { x with task := .retrieve message add }
  | .sendBlock hexdata =>
    if s.newBlocks.queued.length - s.newBlocks.received < 10 then
      some <| { s with newBlocks := { s.newBlocks with queued := s.newBlocks.queued ++ [hexdata] } }
        |>.setSession c { x with task := .recv }
    else
      none

def step (cfg : Config) : Action Tx → Option (Server R)
  | .connect =>
    some { s with
      clients    := s.clients.insert s.nextClient {
        downstream := .new cfg.coinbaseOutput cfg.privateKey
        task       := .recv
        sent       := [] }
      nextClient := s.nextClient + 1 }
  | .receive c message =>
    (s.clients.lookup c).bind fun x =>
      match x.task with
      | .recv => some (s.receive c x message)
      | _     => none
  | .run c => (s.clients.lookup c).bind (s.runSession c)
  | .rpc c answer =>
    (s.clients.lookup c).bind fun x =>
      match x.task with
      | .retrieve message add =>
        (add.reply s.mempool answer).map fun (mempool, add) =>
          { s with mempool := mempool }.setSession c { x with task := .retrieve message add }
      | _ => none
  | .sleep c =>
    (s.clients.lookup c).bind fun x =>
      match x.task with
      | .retrieve _ _ => some (s.setSession c { x with task := .recv })
      | _             => none
  | .disconnect c =>
    (s.clients.lookup c).bind fun x =>
      match x.task with
      | .recv => some (s.endSession c)
      | _     => none
  | .spawnAdd =>
    match s.addTxs with
    | []             => none
    | inner :: inners =>
      some { s with
        addTxs   := inners
        addTasks := s.addTasks.insert s.nextTask (.start s.mempool inner)
        nextTask := s.nextTask + 1 }
  | .runAdd t =>
    (s.addTasks.lookup t).bind fun add =>
      (add.run s.mempool).map fun (mempool, add) =>
        { s with mempool := mempool, addTasks := s.addTasks.insert t add }
  | .rpcAdd t answer =>
    (s.addTasks.lookup t).bind fun add =>
      (add.reply s.mempool answer).map fun (mempool, add) =>
        { s with mempool := mempool, addTasks := s.addTasks.insert t add }
  | .updateMempool txids => some { s with mempool := s.mempool.updateMempool txids }
  | .submitBlock =>
    if s.newBlocks.received < s.newBlocks.queued.length then
      some { s with newBlocks := { s.newBlocks with received := s.newBlocks.received + 1 } }
    else
      none

end Server

-- The server starts with an empty mempool, once its node has answered the health check.
def machine (R : RolesLogic Tx) (cfg : Config) : Machine (Server R) (Action Tx) where
  Init s :=
    s = {
      mempool    := .new R cfg.coreRpcUrl
      clients    := ∅
      nextClient := 0
      addTxs     := []
      addTasks   := ∅
      nextTask   := 0
      newBlocks  := ⟨[], 0⟩ } ∧
    s.mempool.getClient.isSome
  step s a := s.step cfg a

-- One real transaction with its id, and the block that declares it and nothing else.
namespace Sample

def tx : Bytes :=
  [1, 0, 0, 0, 1] ++ .replicate 32 17 ++ .replicate 5 0 ++ .replicate 4 255 ++
    [1, 232, 3] ++ .replicate 6 0 ++ [1, 81, 0, 0, 0, 0]

def txid : Txid := 0x99296a9c40f5e307530147cc99133f35ae866b280d362d7c487bfd30ea1d72d8

def txids : Seq064K U256 :=
  ⟨[txid], by decide⟩

def job (requestId : UInt32) (txids : Seq064K U256) : DeclareMiningJob where
  requestId        := requestId
  miningJobToken   := ⟨[1, 0, 0, 0], by decide⟩
  version          := 0x20000000
  coinbaseTxPrefix := [2, 0, 0, 0, 1] ++ .replicate 32 0 ++ .replicate 4 255 ++ [12, 3, 1, 0, 0]
  coinbaseTxSuffix := .replicate 4 255 ++ [1, 0, 242, 5, 42, 1, 0, 0, 0, 1, 81, 0, 0, 0, 0]
  txIdsList        := txids
  excessData       := []

def solution : PushSolution where
  extranonce := [0, 1, 2, 3, 4, 5, 6, 7]
  prevHash   := 0
  ntime      := 1700000000
  nonce      := 7
  nbits      := 0x207fffff
  version    := 0x20000000

def blockHex : String :=
  "000000200000000000000000000000000000000000000000000000000000000000000000" ++
  "80b35ce2db631eac4f0a4500d9befddf90231a208fc7dae234aaafc4dbd376bc00f15365ffff7f2007000000" ++
  "0202000000010000000000000000000000000000000000000000000000000000000000000000ffffffff0c" ++
  "030100000001020304050607ffffffff0100f2052a010000000151000000000100000001" ++
  "11111111111111111111111111111111111111111111111111111111111111110000000000ffffffff01" ++
  "e803000000000000015100000000"

def roles : RolesLogic Bytes where
  computeTxid t := if t = tx then txid else 0
  consensusDecode bytes := if bytes = tx then .ok tx else .error "invalid transaction"
  sign _ _ := .replicate 64 0
  blockHex lastDeclare txs message :=
    if lastDeclare = job lastDeclare.requestId txids ∧ txs = [tx] ∧
      message = solution then some blockHex else none

def config : Config where
  coinbaseOutput := [1, 0, 0, 0, 0, 0, 0, 0, 0, 1, 81]
  privateKey     := .replicate 32 1
  coreRpcUrl     := "http://127.0.0.1:8332".toList

def start : Server roles where
  mempool    := .new roles config.coreRpcUrl
  clients    := ∅
  nextClient := 0
  addTxs     := []
  addTasks   := ∅
  nextTask   := 0
  newBlocks  := ⟨[], 0⟩

theorem start_init : (machine roles config).Init start :=
  ⟨rfl, by decide⟩

end Sample

end Jds
