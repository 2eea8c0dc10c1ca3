import StratumApps.JobDeclaratorClient.Requests
import StratumApps.Provision.Node

open Sv2 Handler StratumCore

namespace Jdc

variable {C : StratumCore} {cfg : Config}

def RouteMessageTo.template? : RouteMessageTo → Option TemplateDistribution
  | .templateProvider m => some m
  | _                   => none

-- The messages for the template provider, in the order of their sending.
def templateMessages (messages : List RouteMessageTo) : List TemplateDistribution :=
  messages.filterMap RouteMessageTo.template?

def Action.reads : Action → Option (TemplateDistribution → Bool)
  | .templateMessage m => some fun m' => m' = m
  | _                  => none

-- The client at its end of the channels to the template provider.
def client (C : StratumCore) (cfg : Config) :
    Party (System C) Action TemplateDistribution TemplateDistribution where
  machine := machine C cfg
  sent s  := templateMessages s.sent
  reads   := Action.reads

end Jdc

namespace Provision

open BitcoinCore Coupled Jdc.System

variable {C : StratumCore} {cfg : Jdc.Config} {L : Library}

-- The client and the node in one process, with a channel in each direction.
abbrev System (C : StratumCore) := Coupled (Jdc.System C) Instance

abbrev Event (C : StratumCore) := Machine.Event (System C) (Jdc.Action ⊕ NodeAction)

def machine (C : StratumCore) (cfg : Jdc.Config) (L : Library) :
    Machine (System C) (Jdc.Action ⊕ NodeAction) :=
  coupling (Jdc.client C cfg) (node L)

def clientOf (tr : List (Event C)) : List (Machine.Event (Jdc.System C) Jdc.Action) :=
  lefts tr

def nodeOf (tr : List (Event C)) : List (Machine.Event Instance Instance.Action) :=
  NodeAction.tasks (rights tr)

variable {tr tr₁ tr₂ : List (Event C)} {s : System C}

theorem nodeOf_append : nodeOf (tr₁ ++ tr₂) = nodeOf tr₁ ++ nodeOf tr₂ := by
  simp [nodeOf, NodeAction.tasks, rights]

section Blocks

variable {job : DeclareMiningJob} {t : TemplateData} {coinbase : Transaction} {txs : List Transaction}

-- Both sides use the same hash of a transaction.
def Agrees (C : StratumCore) (L : Library) : Prop :=
  ∀ tx, C.computeTxid (L.serialize tx) = .ok (L.computeTxid tx)

-- The clients that become templates are those of block templates of the node.
def ServesBlocks (L : Library) (_ : Instance) (a : Instance.Action) : Prop :=
  ∀ client, a = .run client ∨ (∃ i, a = .waitNext i (.template client)) →
    ∃ coinbase txs, client.Serves L coinbase txs

-- The declaration is of a template that the node has made of one of its block templates. Its ids are
-- those of all transactions of that block, in order, and the path of the template is that of the same
-- block.
structure OfBlock (L : Library) (tr : List (Event C)) (job : DeclareMiningJob) (coinbase : Transaction)
    (txs : List Transaction) : Prop where
  template : ∃ t future template data paid, Instance.Made L (nodeOf tr) t ∧
    t.templateIpcClient.Serves L coinbase txs ∧ t.getNewTemplateMessage L future = .ok template ∧
      Source (clientOf tr) template data paid job ∧
        template.merklePath = Merkle.branch L.sha256d ((coinbase :: txs).map L.computeTxid)
  txIds    : job.txIdsList.1 = (coinbase :: txs).map L.computeTxid

end Blocks

-- A block template of the node that a client declares which agrees with it on the ids.
namespace Offered

def library : Library where
  __             := BitcoinCore.Sample.library
  computeTxid tx := .ofNat _ (Wire.value (BitcoinCore.Sample.serialize tx))

theorem agrees : Agrees reference library := by
  intro tx
  cases h : library.serialize tx with
  | nil          => cases h
  | cons b bytes =>
    have hs : BitcoinCore.Sample.serialize tx = b :: bytes := h
    simp only [library, hs]
    rfl

def txid : U256 :=
  library.computeTxid BitcoinCore.Sample.payment

def client : BlockTemplateIpcClient where
  __                    := BitcoinCore.Sample.client
  getCoinbaseMerklePath := .ok [BitcoinCore.Sample.bytesOf txid.toNat 32]

theorem client_serves :
    client.Serves library BitcoinCore.Sample.coinbase [BitcoinCore.Sample.payment] where
  isCoinbase := BitcoinCore.Sample.client_serves.isCoinbase
  decodes    := BitcoinCore.Sample.client_serves.decodes
  txdata     := BitcoinCore.Sample.client_serves.txdata
  merklePath := by
    intro path hp
    cases hp
    have hb : Merkle.branch library.sha256d
        [library.computeTxid BitcoinCore.Sample.coinbase, txid] = [txid] := by
      simp [Merkle.branch, Merkle.level]
    have hu : [BitcoinCore.Sample.bytesOf txid.toNat 32].mapM u256TryFrom = some [txid] := by
      decide +kernel
    exact hu.trans (congrArg some hb).symm

def start : System reference where
  left       := Jdc.Sample.start []
  right      := .new
  leftTaken  := 0
  rightTaken := 0

theorem start_init {cfg : Jdc.Config} {L : Library} : (machine reference cfg L).Init start :=
  ⟨Jdc.Sample.start_init, rfl, rfl, rfl⟩

def arrived (m : TemplateDistribution) : Jdc.Action ⊕ NodeAction :=
  .inl (.templateMessage m)

-- The first token has other outputs than the configuration, so that the client sends constraints.
def events : List (Jdc.Action ⊕ NodeAction) :=
  [.inl (.setJdMode .fullTemplate), .inl (.setUpstreamState .noChannel),
    .inl (Jdc.Sample.allocate [1]), .inr (.task (.run client)),
    arrived (.newTemplate { BitcoinCore.Sample.template with merklePath := [txid] }),
    arrived (.setNewPrevHash ⟨0, 3, 4, 5, 5⟩), .inl .connect, .inl (Jdc.Sample.openExtended 0),
    .inl Jdc.Sample.opened, .inr (.task (.requestTransactionData ⟨0⟩)),
    arrived (.requestTransactionDataSuccess BitcoinCore.Sample.data)]

def shared : Machine (System reference) (Jdc.Action ⊕ NodeAction) :=
  machine reference (Jdc.Sample.config [] []) library

end Offered

end Provision
