import StratumApps.JobDeclaratorClient.Requests
import StratumApps.Declaration.Session

open Sv2 Handler StratumCore

namespace Jdc

variable {C : StratumCore} {cfg : Config} {messages : List RouteMessageTo}

def RouteMessageTo.jobDeclaration? : RouteMessageTo → Option JobDeclaration
  | .jobDeclarator m => some m
  | _                => none

-- The messages for the server, in the order of their sending.
def jobDeclarationMessages (messages : List RouteMessageTo) : List JobDeclaration :=
  messages.filterMap RouteMessageTo.jobDeclaration?

-- The client at its end of the channels to the server.
def jobDeclarator (C : StratumCore) (cfg : Config) :
    Party (System C) Action JobDeclaration JobDeclaration where
  machine := machine C cfg
  sent s  := jobDeclarationMessages s.sent
  reads
    | .jdsMessage m => some fun m' => m' = m
    | _             => none

end Jdc

namespace Declaration

open Coupled Jds Jds.Server Jds.JobDeclaratorDownstream Jdc.System

variable {C : StratumCore} {Tx : Type} {R : RolesLogic Tx} {cfg : Jdc.Config} {cfg' : Jds.Config}
variable {c : ClientId}

-- The client and the server as one of its clients, with a channel in each direction.
abbrev System (C : StratumCore) {Tx : Type} (R : RolesLogic Tx) := Coupled (Jdc.System C) (Seat R)

abbrev Event (C : StratumCore) {Tx : Type} (R : RolesLogic Tx) :=
  Machine.Event (System C R) (Jdc.Action ⊕ Jds.Action Tx)

def machine (C : StratumCore) (R : RolesLogic Tx) (cfg : Jdc.Config) (cfg' : Jds.Config) (c : ClientId) :
    Machine (System C R) (Jdc.Action ⊕ Jds.Action Tx) :=
  coupling (Jdc.jobDeclarator C cfg) (seat R cfg' c)

def clientOf (tr : List (Event C R)) : List (Machine.Event (Jdc.System C) Jdc.Action) :=
  lefts tr

def session (s : System C R) (c : ClientId) : Option (Session Tx) :=
  s.right.server.clients.lookup c

-- What the session has taken of the messages of the client.
def taken (C : StratumCore) (cfg : Jdc.Config) (s : System C R) : List JobDeclaration :=
  received (Jdc.jobDeclarator C cfg) s

section Run

variable {tr : List (Event C R)} {s s' : System C R} {x : Session Tx} {job : DeclareMiningJob}
variable {reply : ProvideMissingTransactionsSuccess} {b : Jds.Action Tx} {a : Jdc.Action}

theorem run_server (r : (machine C R cfg cfg' c).Run tr s) :
    (Jds.machine R cfg').Run (serverOf (rights tr)) s.right.server :=
  Jds.run_server (run_right r)

theorem kept_of_run (r : (machine C R cfg cfg' c).Run tr s) (hx : session s c = some x) : Kept R x :=
  Jds.Server.kept_of_run (run_server r) c x hx

section Fresh

variable (hC : C.Lawful) (hf : Machine.Along Fresh (clientOf tr))

include hC hf

end Fresh

section Results

variable {data : RequestTransactionDataSuccess} {x' : Session Tx}

-- The server answers the declaration with success, or asks for transactions.
def Answered (x x' : Session Tx) (job : DeclareMiningJob) : Prop :=
  x'.downstream.declaredMiningJob = some job ∧ ∃ answer, x'.sent = x.sent ++ [answer] ∧
    ((∃ r, answer = .declareMiningJobSuccess r ∧ r.requestId = job.requestId) ∨
      answer = .provideMissingTransactions ⟨job.requestId, x'.downstream.missingTxs⟩)

-- The reply to the current request settles the declaration. One to an earlier request changes nothing.
def Settled (x x' : Session Tx) (reply : ProvideMissingTransactionsSuccess) : Prop :=
  ∃ job, x.downstream.declaredMiningJob = some job ∧
    ((reply.requestId = job.requestId ∧ x'.downstream.declaredMiningJob = some job ∧
        x'.downstream.transactionsWithState = job.txIdsList.1.map .presentInMempool ∧
        ∃ r, x'.sent = x.sent ++ [.declareMiningJobSuccess r] ∧ r.requestId = job.requestId) ∨
      (reply.requestId ≠ job.requestId ∧ x' = x))

section Session

variable {t t' : Server R}

end Session

end Results

end Run

-- A declaration of a transaction that the server asks for.
namespace Exchanged

open Jdc.Sample

def core : StratumCore where
  __ := reference
  computeTxid raw := if raw = Jds.Sample.tx then .ok Jds.Sample.txid else .error "invalid transaction"

theorem core_lawful : core.Lawful where
  __ := reference_lawful

theorem core_decodes : Decodes core Jds.Sample.roles := by
  intro raw txid h
  have h : (if raw = Jds.Sample.tx then .ok Jds.Sample.txid else .error "invalid transaction") =
    (.ok txid : Except EncodeError U256) := h
  split at h <;> cases h
  case isTrue ht =>
    subst ht
    exact ⟨Jds.Sample.tx, by simp [Jds.Sample.roles], by simp [Jds.Sample.roles]⟩

def client : Jdc.System core where
  manager := .new (C := core) ⟨[], 4, 0⟩ rewardOutputs
  status  := .running
  sent    := []

theorem client_init : (Jdc.machine core (config [] [])).Init client := by
  constructor <;> rfl

def data : Jdc.Action :=
  .templateMessage (.requestTransactionDataSuccess ⟨2, [], [Jds.Sample.tx]⟩)

def start : System core Jds.Sample.roles where
  left       := client
  right      := ⟨Jds.Sample.start, []⟩
  leftTaken  := 0
  rightTaken := 0

def joint : Machine (System core Jds.Sample.roles) (Jdc.Action ⊕ Jds.Action Bytes) :=
  machine core Jds.Sample.roles (config [] []) Jds.Sample.config 0

theorem start_init : joint.Init start :=
  ⟨client_init, ⟨Jds.Sample.start_init, rfl⟩, rfl, rfl⟩

def hears (m : JobDeclaration) : Jdc.Action ⊕ Jds.Action Bytes :=
  .inl (.jdsMessage m)

def takes (m : JobDeclaration) : Jdc.Action ⊕ Jds.Action Bytes :=
  .inr (.receive 0 m)

def job : DeclareMiningJob where
  requestId        := 1
  miningJobToken   := fit [1, 0, 0, 0]
  version          := 0x20000000
  coinbaseTxPrefix := [3]
  coinbaseTxSuffix := []
  txIdsList        := Jds.Sample.txids
  excessData       := []

def reply : ProvideMissingTransactionsSuccess where
  requestId       := 1
  transactionList := fit [Jds.Sample.tx]

def events : List (Jdc.Action ⊕ Jds.Action Bytes) :=
  [.inl .allocateTokens, .inr .connect, takes (.allocateMiningJobToken ⟨[], 0⟩),
    hears (.allocateMiningJobTokenSuccess ⟨0, [1, 0, 0, 0], Jds.Sample.config.coinbaseOutput⟩),
    .inl (.setJdMode .fullTemplate), .inl (.setUpstreamState .noChannel), .inl (future 1),
    .inl (prevHash 1), .inl .connect, .inl (openExtended 0), .inl opened, .inl (newTemplate 2), .inl data,
    takes (.allocateMiningJobToken ⟨[], 2⟩), takes (.declareMiningJob job), .inr (.run 0),
    hears (.allocateMiningJobTokenSuccess ⟨2, [2, 0, 0, 0], Jds.Sample.config.coinbaseOutput⟩),
    hears (.provideMissingTransactions ⟨1, [0]⟩), takes (.provideMissingTransactionsSuccess reply)]

end Exchanged

end Declaration
