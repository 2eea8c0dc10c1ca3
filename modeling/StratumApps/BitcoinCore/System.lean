import StratumApps.BitcoinCore.TemplateData
import StratumApps.Lib.Map
import StratumApps.Lib.Transition

open Sv2 Handler

namespace BitcoinCore

inductive BitcoinCoreSv2Error
  | capnpError (e : CapnpError)
  | invalidTemplateHeader (e : EncodeError)
  | templateIpcClientNotFound
  | failedToSetThread
  | failedToGetWaitNextRequestOptions
  deriving DecidableEq

-- The tasks of `monitor_ipc_templates` and of `monitor_incoming_messages` run as long as their flags
-- say, a task of `process_stale_template_data` as long as its ids are in `expiring`.
structure BitcoinCoreSv2 where
  currentPrevHash         : Option U256
  templateData            : Map TemplateId TemplateData
  staleTemplateIds        : List TemplateId
  templateIdFactory       : TemplateId
  expiring                : List (List TemplateId)
  monitorsTemplates       : Bool
  monitorsMessages        : Bool
  globalCancellationToken : Bool
  outgoingMessages        : List TemplateDistribution

-- A monitor gets a client from the node with every answer to `waitNext`. A task that is told to stop
-- may still handle a message.
inductive Action
  | run (client : BlockTemplateIpcClient)
  | waitNext (client : BlockTemplateIpcClient)
  | requestTransactionData (msg : RequestTransactionData)
  | expire (i : ℕ)
  | cancel

def Action.client? : Action → Option BlockTemplateIpcClient
  | run client | waitNext client => some client
  | _                            => none

namespace BitcoinCoreSv2

def new : BitcoinCoreSv2 where
  currentPrevHash         := none
  templateData            := ∅
  staleTemplateIds        := []
  templateIdFactory       := 0
  expiring                := []
  monitorsTemplates       := false
  monitorsMessages        := false
  globalCancellationToken := false
  outgoingMessages        := []

variable (L : Library) (s : BitcoinCoreSv2)

def terminate : BitcoinCoreSv2 :=
  { s with globalCancellationToken := true, monitorsTemplates := false }

def templatesFail {ε : Type} : Fault ε → BitcoinCoreSv2
  | .err _      => s.terminate
  | .panicked _ => { s with monitorsTemplates := false }

def messagesFail {ε : Type} : Fault ε → BitcoinCoreSv2
  | .err _      => { s with globalCancellationToken := true, monitorsMessages := false }
  | .panicked _ => { s with monitorsMessages := false }

def save (t : TemplateData) : BitcoinCoreSv2 :=
  { s with templateData := s.templateData.insert t.templateId t }

def send (ms : List TemplateDistribution) : BitcoinCoreSv2 :=
  { s with outgoingMessages := s.outgoingMessages ++ ms }

def fetchTemplateData (client : BlockTemplateIpcClient) :
    Except (Fault BitcoinCoreSv2Error) TemplateData := do
  let templateHeaderBytes ← ofExcept .capnpError client.getBlockHeader
  let header ← ofExcept .invalidTemplateHeader (L.deserializeHeader templateHeaderBytes)
  let coinbaseTxBytes ← ofExcept .capnpError client.getCoinbaseTx
  let coinbaseTx ← ofExcept .invalidTemplateHeader (L.deserialize coinbaseTxBytes)
  let merklePath ← ofExcept .capnpError client.getCoinbaseMerklePath
  return {
    templateId        := s.templateIdFactory
    header            := header
    coinbaseTx        := coinbaseTx
    merklePath        := merklePath
    templateIpcClient := client
  }

def nextTemplateId : BitcoinCoreSv2 :=
  { s with templateIdFactory := s.templateIdFactory + 1 }

-- The first template, before the tasks are spawned.
def run (client : BlockTemplateIpcClient) : BitcoinCoreSv2 :=
  match s.fetchTemplateData L client with
  | .error _ => s.nextTemplateId.terminate
  | .ok t =>
    match t.getNewTemplateMessage L true with
    | .error _ => s.nextTemplateId.terminate
    | .ok futureTemplate =>
      { (s.nextTemplateId.send [.newTemplate futureTemplate,
          .setNewPrevHash (t.getSetNewPrevHashMessage L)]).save t with
        currentPrevHash   := some t.getPrevHash
        monitorsTemplates := true
        monitorsMessages  := true }

-- One round of `monitor_ipc_templates`, for a `waitNext` that did not time out.
def onNextTemplate (client : BlockTemplateIpcClient) : BitcoinCoreSv2 :=
  if s.globalCancellationToken then
    { s with monitorsTemplates := false }
  else
    match s.fetchTemplateData L client with
    | .error e => s.nextTemplateId.templatesFail e
    | .ok t =>
      match s.currentPrevHash with
      | none => s.nextTemplateId.terminate
      | some currentPrevHash =>
        if t.getPrevHash ≠ currentPrevHash then
          let s : BitcoinCoreSv2 := { s.nextTemplateId.save t with
            currentPrevHash := some t.getPrevHash
            expiring        := s.expiring ++ [s.templateData.keys] }
          match t.getNewTemplateMessage L true with
          | .error e => s.templatesFail e
          | .ok futureTemplate =>
            s.send [.newTemplate futureTemplate, .setNewPrevHash (t.getSetNewPrevHashMessage L)]
        else
          match t.getNewTemplateMessage L false with
          | .error e => s.nextTemplateId.templatesFail e
          | .ok nonFutureTemplate =>
            (s.nextTemplateId.send [.newTemplate nonFutureTemplate]).save t

def handleRequestTransactionData (msg : RequestTransactionData) : BitcoinCoreSv2 :=
  if msg.templateId ∈ s.staleTemplateIds then
    s.send [.requestTransactionDataError
      { templateId := msg.templateId, errorCode := "stale-template-id" }]
  else
    match s.templateData.lookup msg.templateId with
    | some t =>
      match t.getRequestTransactionDataSuccessMessage L with
      | .error e => s.messagesFail e
      | .ok requestTransactionDataSuccess =>
        s.send [.requestTransactionDataSuccess requestTransactionDataSuccess]
    | none =>
      s.send [.requestTransactionDataError
        { templateId := msg.templateId, errorCode := "template-id-not-found" }]

-- A task of `process_stale_template_data` wakes up.
def processStaleTemplateData (staleTemplateIds : List TemplateId) : BitcoinCoreSv2 :=
  { s with
    staleTemplateIds := staleTemplateIds
    templateData     := staleTemplateIds.foldl (fun m id => m.erase id) s.templateData }

def step : Action → Option BitcoinCoreSv2
  | .run client =>
    if s.currentPrevHash.isNone ∧ ¬s.globalCancellationToken then some (s.run L client) else none
  | .waitNext client =>
    if s.monitorsTemplates then some (s.onNextTemplate L client) else none
  | .requestTransactionData msg =>
    if s.monitorsMessages then some (s.handleRequestTransactionData L msg) else none
  | .expire i =>
    s.expiring[i]?.map fun ids =>
      { s.processStaleTemplateData ids with expiring := s.expiring.eraseIdx i }
  | .cancel => some { s with globalCancellationToken := true }

end BitcoinCoreSv2

def machine (L : Library) : Machine BitcoinCoreSv2 Action where
  Init s := s = .new
  step s a := s.step L a

end BitcoinCore
