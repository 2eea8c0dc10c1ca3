import StratumApps.BitcoinCore.System

open Sv2 Handler

namespace BitcoinCore

-- A block template of the node. The number is that of the constraints it was built under, which a
-- template keeps that follows on another.
structure Template where
  ipcClient   : BlockTemplateIpcClient
  constraints : ℕ

-- A request to wait for what follows on the template of the client.
def BlockTemplateIpcClient.waitNextRequest (client : BlockTemplateIpcClient) :
    Except (Fault BitcoinCoreSv2Error) Unit := do
  ofExcept (fun _ => .failedToSetThread) client.getContext
  ofExcept (fun _ => .failedToGetWaitNextRequestOptions) client.getOptions

-- Where a monitor waits. It waits for a thread of the node, for `waitNext`, for the data of a template,
-- for the channel to take a message, and for its minimum interval to pass.
inductive Phase
  | starting
  | waiting (base : Template) (constraintsCount : UInt32)
  | fetching (template : Template) (templateId : TemplateId)
  | announcing (template : Template) (data : TemplateData) (message : NewTemplate)
  | activating (data : TemplateData)
  | sleeping (template : Template) (data : TemplateData)
  | updating (template : Template) (data : TemplateData) (message : NewTemplate)
  | exited

-- How `waitNext` comes back.
inductive Reply
  | template (client : BlockTemplateIpcClient)
  | timeout
  | invalid
  | failed

-- The cells that the tasks share, and the monitors in the order they were spawned. Each is spawned for
-- a message with constraints, so its place is the number of those. `announced` is for every template
-- that was sent the place of the monitor and the number of the constraints it was built under.
structure Instance where
  cells                            : BitcoinCoreSv2
  currentTemplateIpcClient         : Option Template
  coinbaseOutputConstraintsCounter : UInt32
  waitNextRequestCounter           : UInt8
  monitors                         : List Phase
  announced                        : List (ℕ × ℕ)

namespace Instance

-- What the tasks wait for comes about: for the monitor at a place, or for the messages.
inductive Action
  | run (client : BlockTemplateIpcClient)
  | start (i : ℕ)
  | waitNext (i : ℕ) (reply : Reply)
  | fetch (i : ℕ)
  | send (i : ℕ)
  | wake (i : ℕ)
  | fail (i : ℕ)
  | coinbaseOutputConstraints (client : BlockTemplateIpcClient)
  | constraintsFail
  | requestTransactionData (msg : RequestTransactionData)
  | expire (i : ℕ)
  | cancel

def new : Instance where
  cells                            := .new
  currentTemplateIpcClient         := none
  coinbaseOutputConstraintsCounter := 0
  waitNextRequestCounter           := 0
  monitors                         := []
  announced                        := []

variable (L : Library) (s : Instance) (i : ℕ)

def cancelled : Bool :=
  s.cells.globalCancellationToken

def setMonitor (phase : Phase) : Instance :=
  { s with monitors := s.monitors.set i phase }

def setCells (cells : BitcoinCoreSv2) : Instance :=
  { s with cells := cells }

def cancel : Instance :=
  s.setCells { s.cells with globalCancellationToken := true }

def exit : Instance :=
  s.setMonitor i .exited

-- An error of a monitor ends all of them, a panic only its own task.
def fail : Instance :=
  s.cancel.exit i

def failWith {ε : Type} : Fault ε → Instance
  | .err _      => s.fail i
  | .panicked _ => s.exit i

-- The template that the next request of a monitor is for.
def waitNextRequest : Except (Fault BitcoinCoreSv2Error) Template := do
  let base ← orErr s.currentTemplateIpcClient .templateIpcClientNotFound
  base.ipcClient.waitNextRequest
  return base

variable {s} in
theorem current_of_waitNextRequest {base : Template} (h : s.waitNextRequest = .ok base) :
    s.currentTemplateIpcClient = some base := by
  obtain ⟨base', hb, h⟩ := bind_eq_ok.mp h
  obtain ⟨_, _, h⟩ := bind_eq_ok.mp h
  cases h
  exact orErr_eq_ok.mp hb

-- The top of the loop. There is nothing to wait for between the request and the count.
def newWaitNextRequest : Instance :=
  match s.waitNextRequest with
  | .error e => s.failWith i e
  | .ok base =>
    { s with waitNextRequestCounter := s.waitNextRequestCounter + 1 }.setMonitor i
      (.waiting base s.coinbaseOutputConstraintsCounter)

def onWaitNext (base : Template) (constraintsCount : UInt32) : Reply → Instance
  | .failed => s.fail i
  | reply   =>
    let s := { s with waitNextRequestCounter := s.waitNextRequestCounter - 1 }
    if s.cancelled ∨ s.coinbaseOutputConstraintsCounter ≠ constraintsCount then
      s.exit i
    else
      match reply with
      | .template client =>
        let template : Template := ⟨client, base.constraints⟩
        let s := { s with currentTemplateIpcClient := some template }
        (s.setCells s.cells.nextTemplateId).setMonitor i (.fetching template s.cells.templateIdFactory)
      | .timeout => s.newWaitNextRequest i
      | _        => s.fail i

def onTemplateData (template : Template) (t : TemplateData) : Instance :=
  match s.cells.currentPrevHash with
  | none                 => s.fail i
  | some currentPrevHash =>
    if t.getPrevHash ≠ currentPrevHash then
      let s := s.setCells { s.cells.save t with
        currentPrevHash := some t.getPrevHash
        expiring        := s.cells.expiring ++ [s.cells.templateData.keys] }
      match t.getNewTemplateMessage L true with
      | .error e           => s.failWith i e
      | .ok futureTemplate => s.setMonitor i (.announcing template t futureTemplate)
    else
      s.setMonitor i (.sleeping template t)

def onFetch (template : Template) (templateId : TemplateId) : Instance :=
  match { BitcoinCoreSv2.new with templateIdFactory := templateId }.fetchTemplateData L
      template.ipcClient with
  | .error e => s.failWith i e
  | .ok t    => s.onTemplateData L i template t

def onWake (template : Template) (t : TemplateData) : Instance :=
  match t.getNewTemplateMessage L false with
  | .error e              => s.failWith i e
  | .ok nonFutureTemplate => s.setMonitor i (.updating template t nonFutureTemplate)

def announce (template : Template) (message : NewTemplate) : Instance :=
  { s.setCells (s.cells.send [.newTemplate message]) with
    announced := s.announced ++ [(i, template.constraints)] }

-- The channel takes the message, and the monitor goes on.
def onSend : Phase → Option Instance
  | .announcing template t message => some <| (s.announce i template message).setMonitor i (.activating t)
  | .activating t                  => some <|
    (s.setCells (s.cells.send [.setNewPrevHash (t.getSetNewPrevHashMessage L)])).newWaitNextRequest i
  | .updating template t message   =>
    let s := s.announce i template message
    some <| (s.setCells (s.cells.save t)).newWaitNextRequest i
  | _                              => none

-- The node makes no thread, or nobody takes the messages any more.
def onFail : Phase → Option Instance
  | .starting | .announcing _ _ _ | .activating _ | .updating _ _ _ => some (s.fail i)
  | _                                                               => none

-- The first constraints. The tasks are spawned once their template has been announced.
def run (client : BlockTemplateIpcClient) : Instance :=
  let cells := s.cells.run L client
  { s with
    cells                            := cells
    currentTemplateIpcClient         := some ⟨client, 1⟩
    coinbaseOutputConstraintsCounter := s.coinbaseOutputConstraintsCounter + 1
    monitors                         := if cells.monitorsTemplates then [.starting] else []
    announced                        := if cells.monitorsTemplates then [(0, 1)] else [] }

def handleCoinbaseOutputConstraints (client : BlockTemplateIpcClient) : Instance :=
  { s with
    currentTemplateIpcClient         := some ⟨client, s.monitors.length + 1⟩
    coinbaseOutputConstraintsCounter := s.coinbaseOutputConstraintsCounter + 1
    monitors                         := s.monitors ++ [.starting] }

def step : Action → Option Instance
  | .run client =>
    if s.cells.currentPrevHash.isNone ∧ ¬s.cancelled then some (s.run L client) else none
  | .start i          =>
    match s.monitors[i]? with
    | some .starting => some (s.newWaitNextRequest i)
    | _              => none
  | .waitNext i reply =>
    match s.monitors[i]? with
    | some (.waiting base constraintsCount) => some (s.onWaitNext i base constraintsCount reply)
    | _                                     => none
  | .fetch i          =>
    match s.monitors[i]? with
    | some (.fetching template templateId) => some (s.onFetch L i template templateId)
    | _                                    => none
  | .wake i           =>
    match s.monitors[i]? with
    | some (.sleeping template t) => some (s.onWake L i template t)
    | _                           => none
  | .send i           => s.monitors[i]?.bind (s.onSend L i)
  | .fail i           => s.monitors[i]?.bind (s.onFail i)
  | .coinbaseOutputConstraints client =>
    if s.cells.monitorsMessages then some (s.handleCoinbaseOutputConstraints client) else none
  | .constraintsFail =>
    if s.cells.monitorsMessages then
      some (s.setCells { s.cells with globalCancellationToken := true, monitorsMessages := false })
    else
      none
  | .requestTransactionData msg =>
    if s.cells.monitorsMessages then
      some (s.setCells (s.cells.handleRequestTransactionData L msg))
    else
      none
  | .expire i => (s.cells.step L (.expire i)).map s.setCells
  | .cancel   => some s.cancel

end Instance

def tasks (L : Library) : Machine Instance Instance.Action where
  Init s := s = .new
  step s a := s.step L a

end BitcoinCore
