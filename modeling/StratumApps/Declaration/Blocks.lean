import StratumApps.Provision.Client
import StratumApps.Declaration.Agreement

open Sv2 Handler StratumCore

namespace Provision

open BitcoinCore Coupled Jds Jds.Server Jds.JobDeclaratorDownstream

variable {C : StratumCore} {Tx : Type} {R : RolesLogic Tx} {cfg : Jdc.Config} {cfg' : Jds.Config}
variable {L : Library} {c : ClientId}

-- The client with its node, at its end of the channels to the server.
def declarator (C : StratumCore) (cfg : Jdc.Config) (L : Library) :
    Party (System C) (Jdc.Action ⊕ NodeAction) JobDeclaration JobDeclaration where
  machine := machine C cfg L
  sent s  := (Jdc.jobDeclarator C cfg).sent s.left
  reads
    | .inl a => (Jdc.jobDeclarator C cfg).reads a
    | .inr _ => none

theorem OfBlock.append {tr tr' : List (Event C)} {job : DeclareMiningJob} {coinbase : Transaction}
    {txs : List Transaction} (h : OfBlock L tr job coinbase txs) :
    OfBlock L (tr ++ tr') job coinbase txs := by
  refine ⟨?_, h.txIds⟩
  obtain ⟨t, future, template, data, paid, hm, hs, ht, hsrc, hp⟩ := h.template
  refine ⟨t, future, template, data, paid, nodeOf_append ▸ hm.append, hs, ht, ?_, hp⟩
  rw [clientOf, lefts, List.filterMap_append]
  obtain ⟨e, he, ha⟩ := hsrc.arrived
  obtain ⟨e', he', hmade⟩ := hsrc.made
  exact ⟨⟨e, List.mem_append_left _ he, ha⟩, hsrc.templateId, ⟨e', List.mem_append_left _ he', hmade⟩⟩

end Provision

namespace Declaration

open BitcoinCore Coupled Jds Jds.Server Jds.JobDeclaratorDownstream Provision

variable {C : StratumCore} {Tx : Type} {R : RolesLogic Tx} {cfg : Jdc.Config} {cfg' : Jds.Config}
variable {L : Library} {c : ClientId}

-- The client between its node and the server.
abbrev Chain (C : StratumCore) {Tx : Type} (R : RolesLogic Tx) := Coupled (Provision.System C) (Seat R)

abbrev ChainEvent (C : StratumCore) {Tx : Type} (R : RolesLogic Tx) :=
  Machine.Event (Chain C R) ((Jdc.Action ⊕ NodeAction) ⊕ Jds.Action Tx)

def chain (C : StratumCore) (L : Library) (R : RolesLogic Tx) (cfg : Jdc.Config) (cfg' : Jds.Config)
    (c : ClientId) : Machine (Chain C R) ((Jdc.Action ⊕ NodeAction) ⊕ Jds.Action Tx) :=
  coupling (declarator C cfg L) (seat R cfg' c)

section Run

variable {tr : List (ChainEvent C R)} {s : Chain C R} {x : Session Tx} {job : DeclareMiningJob}

-- The run without the steps of the node.
def ends (tr : List (ChainEvent C R)) : List (Event C R) :=
  Machine.project (mapLeft Coupled.left) (mapAct Sum.getLeft?) tr

-- The server's job is the declaration of a block of the node: it has the ids of all transactions of that
-- block in their order, and so have the blocks that are rebuilt for it.
structure Rebuilds (L : Library) (tr : List (ChainEvent C R)) (x : Session Tx) (job : DeclareMiningJob)
    (coinbase : Transaction) (txs : List Transaction) : Prop where
  declared : OfBlock L (lefts tr) job coinbase txs
  states   : ∀ r, lastAnswer x.sent = some (.declareMiningJobSuccess r) →
    x.downstream.transactionsWithState =
      ((coinbase :: txs).map L.computeTxid).map .presentInMempool
  block    : ∀ message retrieved rebuilt, x.task = .rebuild message retrieved job [] rebuilt →
    rebuilt.map R.computeTxid = (coinbase :: txs).map L.computeTxid

end Run

-- A block of the node of which the server knows no transaction.
namespace Rebuilt

def roles : RolesLogic Bytes where
  computeTxid raw     := ((reference.computeTxid raw).toOption).getD 0
  consensusDecode raw :=
    match reference.computeTxid raw with
    | .ok _    => .ok raw
    | .error _ => .error "invalid transaction"
  sign _ _            := .replicate 64 0
  blockHex _ _ _      := none

theorem decodes : Decodes reference roles := by
  intro raw txid h
  exact ⟨raw, by simp [roles, h], by simp [roles, h, Except.toOption]⟩

def server : Server roles where
  mempool    := .new roles Jds.Sample.config.coreRpcUrl
  clients    := ∅
  nextClient := 0
  addTxs     := []
  addTasks   := ∅
  nextTask   := 0
  newBlocks  := ⟨[], 0⟩

def start : Chain reference roles where
  left       := Offered.start
  right      := ⟨server, []⟩
  leftTaken  := 0
  rightTaken := 0

def joint : Machine (Chain reference roles) ((Jdc.Action ⊕ NodeAction) ⊕ Jds.Action Bytes) :=
  chain reference Offered.library roles (Jdc.Sample.config [] []) Jds.Sample.config 0

theorem start_init : joint.Init start :=
  ⟨Offered.start_init, ⟨⟨rfl, by decide⟩, rfl⟩, rfl, rfl⟩

def hears (m : JobDeclaration) : (Jdc.Action ⊕ NodeAction) ⊕ Jds.Action Bytes :=
  .inl (.inl (.jdsMessage m))

def takes (m : JobDeclaration) : (Jdc.Action ⊕ NodeAction) ⊕ Jds.Action Bytes :=
  .inr (.receive 0 m)

def job : DeclareMiningJob where
  requestId        := 1
  miningJobToken   := fit [1, 0, 0, 0]
  version          := 2
  coinbaseTxPrefix := [1, 7]
  coinbaseTxSuffix := [0, 0, 0, 0, 0, 0, 0, 0, 1, 106]
  txIdsList        := fit [Offered.library.computeTxid BitcoinCore.Sample.coinbase, Offered.txid]
  excessData       := []

def reply : ProvideMissingTransactionsSuccess where
  requestId       := 1
  transactionList := fit BitcoinCore.Sample.data.transactionList

def events : List ((Jdc.Action ⊕ NodeAction) ⊕ Jds.Action Bytes) :=
  [.inl (.inl .allocateTokens), .inr .connect, takes (.allocateMiningJobToken ⟨[], 0⟩),
    .inl (.inl (.setJdMode .fullTemplate)), .inl (.inl (.setUpstreamState .noChannel)),
    hears (.allocateMiningJobTokenSuccess ⟨0, [1, 0, 0, 0], Jds.Sample.config.coinbaseOutput⟩)] ++
  (Offered.events.drop 3).map .inl ++
  [takes (.allocateMiningJobToken ⟨[], 2⟩), takes (.declareMiningJob job), .inr (.run 0),
    hears (.allocateMiningJobTokenSuccess ⟨2, [2, 0, 0, 0], Jds.Sample.config.coinbaseOutput⟩),
    hears (.provideMissingTransactions ⟨1, [0, 1]⟩), takes (.provideMissingTransactionsSuccess reply)]

end Rebuilt

end Declaration
