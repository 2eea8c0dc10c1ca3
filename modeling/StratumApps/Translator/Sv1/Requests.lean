import StratumApps.Translator.Sv1.Plans
import StratumApps.Translator.Sv1.Reference

open Sv2 Handler StratumCore

namespace Translator.Sv1

open DownstreamOp

def ServerMessage.response? : ServerMessage → Option Response
  | .response r => some r
  | _           => none

-- The response that a message of the server brings to a miner.
def Envelope.answerFor (d : DownstreamId) (e : Envelope) : Option Response :=
  if e.downstreamId = some d then e.message.response? else none

namespace ServerOp

def queuedFor (d : DownstreamId) : ServerOp → Option ClientMessage
  | .handleQueued d' _ m => if d' = d then some m else none
  | _                    => none

def answerFor (d : DownstreamId) : ServerOp → Option Response
  | .broadcast e => e.answerFor d
  | _            => none

-- What concerns the messages of the miner.
def mentions (d : DownstreamId) : ServerOp → Bool
  | .setChannel d' _ | .takeQueue d' _ | .setProcessing d' | .handleQueued d' _ _ => d' = d
  | .broadcast e                                                                  =>
    (e.answerFor d).isSome
  | _                                                                             => false

theorem filterMap_mentions {α : Type} {f : ServerOp → Option α} {d : DownstreamId}
    (hf : ∀ op, op.mentions d = false → f op = none) (plan : List ServerOp) :
    (plan.filter (·.mentions d)).filterMap f = plan.filterMap f := by
  rw [List.filterMap_filter]
  refine congrArg (List.filterMap · plan) (funext fun op => ?_)
  cases hm : op.mentions d with
  | true  => rfl
  | false => exact (hf op hm).symm

theorem queuedFor_of_mentions {d : DownstreamId} {op : ServerOp} (h : op.mentions d = false) :
    op.queuedFor d = none := by
  cases op with
  | handleQueued d' c m => exact if_neg (of_decide_eq_false h)
  | _                   => rfl

theorem answerFor_of_mentions {d : DownstreamId} {op : ServerOp} (h : op.mentions d = false) :
    op.answerFor d = none := by
  cases op with
  | broadcast e => exact Option.not_isSome_iff_eq_none.mp (Bool.not_eq_true _ ▸ h)
  | _           => rfl

end ServerOp

namespace DownstreamOp

def request? : DownstreamOp → Option ClientMessage
  | checkEstablished m | checkFirst m | queue m | handle m => some m
  | _                                                      => none

def response? : DownstreamOp → Option Response
  | write m => m.response?
  | _       => none

-- What a task does with a message when it has found that there is no channel yet.
def isQueueing : DownstreamOp → Bool
  | checkFirst _ | openChannel | queue _ => true
  | _                                    => false

end DownstreamOp

-- The messages of a miner are processed in the order in which they came, each once, and the responses
-- are written in the order of the messages. When the channel is open and nothing is under way, all are.
structure Orderly (s : System) (d : DownstreamId) (o : Downstream) : Prop where
  processed : o.processed.map Prod.fst <+: o.sent
  answered  : o.written.filterMap (·.response?) <+: o.processed.filterMap Prod.snd
  complete  : s.todo = [] → o.data.channelId.isSome → o.runs → o.todo = [] →
    (∀ e ∈ o.received, e.answerFor d = none) → o.processed.map Prod.fst = o.sent ∧
      o.written.filterMap (·.response?) = o.processed.filterMap Prod.snd

-- No message of the miner waits for the server, and no response for the task.
structure Quiet (plan : List ServerOp) (d : DownstreamId) (o : Downstream) : Prop where
  pending  : plan.filterMap (·.queuedFor d) = []
  answers  : plan.filterMap (·.answerFor d) = []
  queued   : o.data.queuedSv1HandshakeMessages = []
  received : o.received.filterMap (·.answerFor d) = []

-- The channel is not set while the task of the miner is queueing a message, nor set twice, and the task
-- finds it set only when nothing of the queue is under way.
structure Undisturbed (s : System) (a : Action) : Prop where
  opens : ∀ d m ops o, a = .serve → s.todo = .setChannel d m :: ops → s.objects.lookup d = some o →
    o.data.channelId = none ∧ ∀ op ∈ o.todo, op.isQueueing = false
  finds : ∀ d m ops o, a = .task d → s.objects.lookup d = some o →
    o.todo = checkEstablished m :: ops → o.data.channelId.isSome → Quiet s.todo d o

-- Where the messages of a miner and the responses to them are.
structure Kept (plan : List ServerOp) (d : DownstreamId) (o : Downstream) : Prop where
  requests  : o.sent = o.processed.map Prod.fst ++ plan.filterMap (·.queuedFor d) ++
    o.data.queuedSv1HandshakeMessages ++ o.todo.filterMap (·.request?)
  responses : o.runs → o.processed.filterMap Prod.snd = o.written.filterMap (·.response?) ++
    o.todo.filterMap (·.response?) ++ o.received.filterMap (·.answerFor d) ++
    plan.filterMap (·.answerFor d)
  written   : o.written.filterMap (·.response?) <+: o.processed.filterMap Prod.snd
  handling  : ∀ m, handle m ∈ o.todo → Quiet plan d o
  queueing  : (∃ op ∈ o.todo, op.isQueueing) → o.data.channelId = none
  unopened  : o.data.channelId = none → o.received.filterMap (·.answerFor d) = []
  drained   : o.data.channelId.isSome → o.data.queuedSv1HandshakeMessages = [] ∨
    ∃ c, .takeQueue d c ∈ plan
  taking    : ∀ c, .takeQueue d c ∈ plan → o.data.channelId = some c ∨
    ∃ m, .setChannel d m ∈ plan ∧ m.channelId = c
  processes : ∀ c m, .handleQueued d c m ∈ plan → o.data.channelId = some c ∧
    (o.data.processingQueuedSv1HandshakeResponses ∨ .setProcessing d ∈ plan)
  addressed : ∀ e, .broadcast e ∈ plan ∨ e ∈ o.received → e.answerFor d ≠ none →
    o.data.channelId = some e.channelId ∧ o.data.processingQueuedSv1HandshakeResponses

theorem Announcing.messages {ops : List DownstreamOp} (h : Announcing ops) :
    ops.filterMap (·.request?) = [] ∧ ops.filterMap (·.response?) = [] := by
  induction h with
  | done          => exact ⟨rfl, rfl⟩
  | share         => exact ⟨rfl, rfl⟩
  | notify n _ ih => exact ih

theorem Announcing.no_message {ops : List DownstreamOp} (h : Announcing ops) {op : DownstreamOp}
    (ho : op ∈ ops) : (∀ m, op ≠ handle m) ∧ op.isQueueing = false := by
  induction h with
  | done  => cases ho
  | share =>
    cases List.mem_singleton.mp ho
    exact ⟨fun _ h => (by cases h), rfl⟩
  | notify n _ ih =>
    cases ho with
    | head _    => exact ⟨fun _ h => (by cases h), rfl⟩
    | tail _ ho => exact ih ho

namespace Kept

variable {C : Core} {plan : List ServerOp} {d : DownstreamId} {o o' : Downstream}
variable {validJobs : List Notify}

-- What the task does that neither takes, queues nor processes a message.
theorem of_task (hk : Kept plan d o) (hs : o'.sent = o.sent) (hp : o'.processed = o.processed)
    (hr : o'.runs → o.runs) (hrc : o'.received = o.received)
    (hd : o'.data.channelId = o.data.channelId)
    (hq : o'.data.queuedSv1HandshakeMessages = o.data.queuedSv1HandshakeMessages)
    (hpr : o'.data.processingQueuedSv1HandshakeResponses =
      o.data.processingQueuedSv1HandshakeResponses)
    (hreq : o'.todo.filterMap (·.request?) = o.todo.filterMap (·.request?))
    (hres : o'.runs → o'.written.filterMap (·.response?) ++ o'.todo.filterMap (·.response?) =
      o.written.filterMap (·.response?) ++ o.todo.filterMap (·.response?))
    (hw : o'.written.filterMap (·.response?) <+: o.processed.filterMap Prod.snd)
    (hh : ∀ m, handle m ∈ o'.todo → Quiet plan d o')
    (hqs : (∃ op ∈ o'.todo, op.isQueueing) → o.data.channelId = none) : Kept plan d o' where
  requests := by
    rw [hs, hp, hq, hreq]
    exact hk.requests
  responses h := by
    rw [hp, hrc, hres h]
    exact hk.responses (hr h)
  written := by
    rw [hp]
    exact hw
  handling := hh
  queueing h := by
    rw [hd]
    exact hqs h
  unopened h := by
    rw [hrc]
    exact hk.unopened (hd ▸ h)
  drained h := by
    rw [hq]
    exact hk.drained (hd ▸ h)
  taking c h := by
    rw [hd]
    exact hk.taking c h
  processes c m h := by
    rw [hd, hpr]
    exact hk.processes c m h
  addressed e h := by
    rw [hd, hpr]
    exact hk.addressed e (hrc ▸ h)

-- A message that is handled has been the only one under way.
theorem handle (m : ClientMessage) (hk : Kept plan d o) (hr : o.runs) (ht : o.todo = [handle m]) :
    Kept plan d ({ o with todo := [] }.handleMessage C validJobs m) := by
  have hh : DownstreamData.Handled o.data (o.data.handleMessage C validJobs m).2 :=
    DownstreamData.handleMessage_handled
  have hq := hk.handling m (ht ▸ List.mem_cons_self)
  have kept {o' : Downstream} (r : Option Response) (hd : o'.data = (o.data.handleMessage C validJobs m).2)
      (hs : o'.sent = o.sent) (hp : o'.processed = o.processed ++ [(m, r)])
      (hw : o'.written = o.written) (hrc : o'.received = o.received)
      (hreq : o'.todo.filterMap (·.request?) = [])
      (hres : o'.runs → o'.todo.filterMap (·.response?) = r.toList)
      (hh' : ∀ op ∈ o'.todo, (∀ m, op ≠ .handle m) ∧ op.isQueueing = false) : Kept plan d o' := by
    have hreqs := hk.requests
    have hresp := hk.responses hr
    simp only [ht, hq.pending, hq.queued, List.filterMap_cons, request?, List.filterMap_nil,
      List.append_nil] at hreqs
    simp only [ht, hq.answers, hq.received, List.filterMap_cons, response?, List.filterMap_nil,
      List.append_nil] at hresp
    constructor
    case requests =>
      rw [hs, hp, hd, hh.queued, hreq, hreqs, hq.pending, hq.queued]
      simp
    case responses =>
      intro hruns
      rw [hp, hw, hrc, hres hruns, hq.answers, hq.received, List.filterMap_append, hresp]
      cases r <;> simp
    case written =>
      rw [hp, hw, List.filterMap_append, hresp]
      exact List.prefix_append _ _
    case handling =>
      intro m' hm
      exact absurd rfl ((hh' _ hm).left m')
    case queueing =>
      rintro ⟨op, ho, hqu⟩
      cases (hh' op ho).right.symm.trans hqu
    case unopened =>
      rw [hd, hh.channelId, hrc]
      exact hk.unopened
    case drained =>
      rw [hd, hh.channelId, hh.queued]
      exact hk.drained
    case taking =>
      rw [hd, hh.channelId]
      exact hk.taking
    case processes =>
      rw [hd, hh.channelId, hh.processing]
      exact hk.processes
    case addressed =>
      rw [hd, hh.channelId, hh.processing, hrc]
      exact hk.addressed
  rw [Downstream.handleMessage, Downstream.onResponse.eq_def]
  split
  case h_1 r _ =>
    refine kept (some r) rfl rfl rfl rfl rfl ?_ (fun _ => ?_) fun op ho => ?_
    case refine_1 =>
      dsimp only [Downstream.next, respond]
      split <;> rfl
    case refine_2 =>
      dsimp only [Downstream.next, respond]
      split <;> rfl
    case refine_3 =>
      dsimp only [Downstream.next, respond] at ho
      split at ho <;> grind [DownstreamOp.isQueueing]
  case h_2 =>
    refine kept none rfl rfl rfl rfl rfl rfl (fun _ => rfl) fun op ho => ?_
    cases List.mem_singleton.mp ho
    exact ⟨fun _ h => (by cases h), rfl⟩
  case h_3 => exact kept none rfl rfl rfl rfl rfl rfl (fun h => by cases h) (List.forall_mem_nil _)

theorem queue (m : ClientMessage) (hk : Kept plan d o) (hr : o.runs) (ht : o.todo = [queue m]) :
    Kept plan d ({ o with todo := [] }.exec C validJobs (.queue m)).1 := by
  have hn : o.data.channelId = none :=
    hk.queueing ⟨.queue m, ht ▸ List.mem_cons_self, rfl⟩
  constructor
  case requests =>
    have hreqs := hk.requests
    simp only [ht, List.filterMap_cons, request?, List.filterMap_nil] at hreqs
    simp [Downstream.exec, hreqs]
  case responses =>
    intro _
    have hresp := hk.responses hr
    simp only [ht, List.filterMap_cons, response?, List.filterMap_nil] at hresp
    exact hresp
  case written  => exact hk.written
  case handling =>
    intro _ h
    cases h
  case queueing =>
    rintro ⟨_, h, _⟩
    cases h
  case unopened => exact hk.unopened
  case drained =>
    intro h
    have h : o.data.channelId.isSome := h
    rw [hn] at h
    cases h
  case taking    => exact hk.taking
  case processes => exact hk.processes
  case addressed => exact hk.addressed

-- What the task writes, sends and applies leaves the messages alone.
theorem announcing {op : DownstreamOp} {ops : List DownstreamOp} (hk : Kept plan d o) (hr : o.runs)
    (ht : o.todo = op :: ops)
    (hreq : (op :: ops).filterMap (·.request?) = o'.todo.filterMap (·.request?))
    (hs : o'.sent = o.sent) (hp : o'.processed = o.processed)
    (hrc : o'.received = o.received) (hd : o'.data.channelId = o.data.channelId)
    (hq : o'.data.queuedSv1HandshakeMessages = o.data.queuedSv1HandshakeMessages)
    (hpr : o'.data.processingQueuedSv1HandshakeResponses =
      o.data.processingQueuedSv1HandshakeResponses)
    (hres : o'.written.filterMap (·.response?) ++ o'.todo.filterMap (·.response?) =
      o.written.filterMap (·.response?) ++ o.todo.filterMap (·.response?))
    (hn : ∀ op ∈ o'.todo, (∀ m, op ≠ .handle m) ∧ op.isQueueing = false) : Kept plan d o' := by
  refine hk.of_task hs hp (fun _ => hr) hrc hd hq hpr (ht ▸ hreq.symm) (fun _ => hres) ?_ ?_ ?_
  case refine_1 =>
    have hpre := List.prefix_append (o'.written.filterMap (·.response?))
      (o'.todo.filterMap (·.response?))
    rw [hk.responses hr]
    rw [hres] at hpre
    exact hpre.trans (List.append_assoc _ _ _ ▸ List.prefix_append _ _)
  case refine_2 => exact fun m hm => absurd rfl ((hn _ hm).left m)
  case refine_3 =>
    rintro ⟨op, ho, hqu⟩
    cases (hn op ho).right.symm.trans hqu

-- A message that has been found to come before the channel is on its way to the queue.
theorem queueing_of (hk : Kept plan d o) (hr : o.runs) {op : DownstreamOp} {ops new : List DownstreamOp}
    (ht : o.todo = op :: ops) (hn : o.data.channelId = none)
    (hreq : (op :: ops).filterMap (·.request?) = new.filterMap (·.request?))
    (hres : (op :: ops).filterMap (·.response?) = new.filterMap (·.response?))
    (hnew : ∀ m, .handle m ∉ new) : Kept plan d { o with todo := new } := by
  refine hk.of_task rfl rfl (fun _ => hr) rfl rfl rfl rfl (ht ▸ hreq.symm) (fun _ => ?_) hk.written
    (fun m hm => absurd hm (hnew m)) fun _ => hn
  rw [ht, hres]

theorem exec (hst : Stage o.todo) (hk : Kept plan d o) (hr : o.runs) {op : DownstreamOp}
    {ops : List DownstreamOp} (ht : o.todo = op :: ops)
    (hf : ∀ m, op = checkEstablished m → o.data.channelId.isSome → Quiet plan d o) :
    Kept plan d ({ o with todo := ops }.exec C validJobs op).1 := by
  have announced (h : Announcing ops) : ∀ op ∈ ops, (∀ m, op ≠ .handle m) ∧ op.isQueueing = false :=
    fun _ ho => h.no_message ho
  rw [ht] at hst
  cases hst with
  | asked m =>
    rw [Downstream.exec]
    cases hc : o.data.channelId with
    | none =>
      exact hk.queueing_of hr ht hc rfl rfl (by simp)
    | some c =>
      have hq := hf m rfl (by simp [hc])
      refine hk.of_task rfl rfl (fun _ => hr) rfl rfl rfl rfl (ht ▸ rfl) (fun _ => ht ▸ rfl) hk.written
        (fun _ _ => ⟨hq.pending, hq.answers, hq.queued, hq.received⟩) ?_
      rintro ⟨op, ho, hqu⟩
      cases List.mem_singleton.mp ho
      cases hqu
  | unestablished m =>
    have hn := hk.queueing ⟨checkFirst m, ht ▸ List.mem_cons_self, rfl⟩
    rw [Downstream.exec]
    split
    case isTrue  => exact hk.queueing_of hr ht hn rfl rfl (by simp)
    case isFalse => exact hk.queueing_of hr ht hn rfl rfl (by simp)
  | opening m =>
    have hn := hk.queueing ⟨openChannel, ht ▸ List.mem_cons_self, rfl⟩
    exact hk.queueing_of hr ht hn rfl rfl (by simp)
  | queueing m => exact hk.queue m hr ht
  | handling m => exact hk.handle m hr ht
  | responding r h =>
    refine hk.announcing hr ht rfl rfl rfl rfl rfl rfl rfl ?_ (announced h)
    simp [Downstream.exec, ht, response?, ServerMessage.response?]
  | granting r =>
    refine hk.announcing hr ht rfl rfl rfl rfl rfl rfl rfl ?_ (by simp [Downstream.exec, isQueueing])
    simp [Downstream.exec, ht, response?, ServerMessage.response?]
  | completing =>
    have hs : Announcing ((o.data.cachedNotify.elim [] fun n => [write (.notify n)]) ++ [sendShare]) :=
      Announcing.share.of_elim
    have ho : ∀ op ∈ sendCached o.data ++ [sendShare], (∀ m, op ≠ .handle m) ∧
        op.isQueueing = false := by
      rw [sendCached, List.append_assoc]
      refine List.forall_mem_append.mpr ⟨fun op ho => ?_, fun _ ho => hs.no_message ho⟩
      obtain ⟨t, _, ho⟩ := mem_elim.mp ho
      simp only [List.mem_cons, List.not_mem_nil, or_false] at ho
      rcases ho with rfl | rfl <;> exact ⟨fun _ h => (by cases h), rfl⟩
    have hm : (sendCached o.data ++ [sendShare]).filterMap (·.request?) = [] ∧
        (sendCached o.data ++ [sendShare]).filterMap (·.response?) = [] := by
      rw [sendCached, List.append_assoc]
      cases o.data.cachedSetDifficulty with
      | none   => exact hs.messages
      | some t => exact hs.messages
    refine hk.announcing hr ht hm.left.symm rfl rfl rfl rfl rfl rfl ?_ ho
    have hw : ({ o with todo := [sendShare] }.exec C validJobs completeHandshake).1.todo =
        sendCached o.data ++ [sendShare] := rfl
    rw [hw, hm.right, ht]
    rfl
  | releasing t h =>
    refine hk.announcing hr ht rfl rfl rfl rfl rfl rfl rfl ?_ ?_
    case refine_1 => simp [Downstream.exec, ht, response?, ServerMessage.response?]
    case refine_2 =>
      refine List.forall_mem_cons.mpr ⟨⟨fun _ h => (by cases h), rfl⟩, fun _ ho => h.no_message ho⟩
  | applying h =>
    refine hk.announcing hr ht rfl rfl rfl rfl rfl rfl rfl ?_ (announced h)
    simp [Downstream.exec, ht, response?]
  | telling t h =>
    refine hk.announcing hr ht rfl rfl rfl rfl rfl rfl rfl ?_ (announced h)
    simp [Downstream.exec, ht, response?, ServerMessage.response?]
  | announcing h =>
    cases h with
    | share =>
      refine hk.announcing hr ht rfl rfl rfl rfl rfl rfl rfl ?_ (List.forall_mem_nil _)
      simp [Downstream.exec, ht, response?]
    | notify n h =>
      refine hk.announcing hr ht rfl rfl rfl rfl rfl rfl rfl ?_ (announced h)
      simp [Downstream.exec, ht, response?, ServerMessage.response?]

theorem take {m : ClientMessage} (hk : Kept plan d o) (h : o.take m = some o') : Kept plan d o' := by
  obtain ⟨hr, ht, rfl⟩ := Downstream.take_eq_some h
  constructor
  case requests =>
    have hreqs := hk.requests
    simp only [ht, List.filterMap_nil, List.append_nil] at hreqs
    simp [hreqs, request?]
  case responses =>
    intro _
    have hresp := hk.responses hr
    rw [ht] at hresp
    exact hresp
  case written  => exact hk.written
  case handling =>
    intro m' hm
    cases List.mem_singleton.mp hm
  case queueing =>
    rintro ⟨op, ho, hq⟩
    cases List.mem_singleton.mp ho
    cases hq
  case unopened  => exact hk.unopened
  case drained   => exact hk.drained
  case taking    => exact hk.taking
  case processes => exact hk.processes
  case addressed => exact hk.addressed

theorem ends (hk : Kept plan d o) (ht : o.todo = []) : Kept plan d o.ends := by
  refine hk.of_task rfl rfl (fun h => by cases h) rfl rfl rfl rfl (ht ▸ rfl) (fun h => by cases h)
    hk.written (fun _ h => by cases h) ?_
  rintro ⟨_, h, _⟩
  cases h

-- A response that the task takes is the next one that it writes.
theorem of_receive {e : Envelope} (hk : Kept plan d o) (hr : o.runs) (ht : o.todo = [])
    (hrc : o.received = e :: o'.received) (hs : o'.sent = o.sent) (hp : o'.processed = o.processed)
    (hw : o'.written = o.written) (hd : o'.data.channelId = o.data.channelId)
    (hq : o'.data.queuedSv1HandshakeMessages = o.data.queuedSv1HandshakeMessages)
    (hpr : o'.data.processingQueuedSv1HandshakeResponses =
      o.data.processingQueuedSv1HandshakeResponses)
    (hreq : o'.todo.filterMap (·.request?) = [])
    (hres : o'.todo.filterMap (·.response?) = (e.answerFor d).toList)
    (hn : ∀ op ∈ o'.todo, (∀ m, op ≠ .handle m) ∧ op.isQueueing = false) : Kept plan d o' := by
  have hrc' : o.received.filterMap (·.answerFor d) =
      (e.answerFor d).toList ++ o'.received.filterMap (·.answerFor d) := by
    rw [hrc, List.filterMap_cons]
    cases e.answerFor d <;> rfl
  constructor
  case requests =>
    have hreqs := hk.requests
    rw [ht] at hreqs
    rw [hs, hp, hq, hreq]
    exact hreqs
  case responses =>
    intro _
    rw [hp, hw, hres, hk.responses hr, hrc', ht]
    simp
  case written =>
    rw [hw, hp]
    exact hk.written
  case handling => exact fun m hm => absurd rfl ((hn _ hm).left m)
  case queueing =>
    rintro ⟨op, ho, hqu⟩
    cases (hn op ho).right.symm.trans hqu
  case unopened =>
    intro h
    have hu := hk.unopened (hd ▸ h)
    rw [hrc'] at hu
    exact (List.append_eq_nil_iff.mp hu).right
  case drained =>
    rw [hd, hq]
    exact hk.drained
  case taking =>
    rw [hd]
    exact hk.taking
  case processes =>
    rw [hd, hpr]
    exact hk.processes
  case addressed =>
    intro e' he'
    rw [hd, hpr]
    exact hk.addressed e' (he'.imp_right fun h => hrc ▸ .tail e h)

theorem receive (hk : Kept plan d o) (hid : o.data.downstreamId = d)
    (hsome : ∀ e ∈ o.received, e.message.isNotification ∨ e.downstreamId.isSome)
    (h : o.receive = some o') : Kept plan d o' := by
  obtain ⟨_, _, _, hr, ht, _⟩ := Downstream.receive_cases h
  obtain ⟨_, rfl | ⟨e, es, hrc, hacc, rfl⟩⟩ | ⟨e, es, hrc, hacc, _, rfl⟩ := Downstream.receive_takes h
  case inl.inl => exact hk.ends ht
  case inl.inr =>
    have he : e.answerFor d = none := by
      by_contra hne
      have hc := (hk.addressed e (.inr (hrc ▸ List.mem_cons_self)) hne).left
      have hd : e.downstreamId = some d := by
        by_contra hd
        exact hne (if_neg hd)
      exact hacc (by simp [DownstreamData.accepts, hc, hd, hid])
    refine hk.of_receive (e := e) hr ht hrc rfl rfl rfl rfl rfl rfl ?_ ?_ ?_
    case refine_1 => simp [ht]
    case refine_2 => simp [ht, he]
    case refine_3 => simp [ht]
  case inr =>
    have hnone (hn : e.message.isNotification) : e.answerFor d = none := by
      rw [Envelope.answerFor]
      cases hm : e.message with
      | response r => simp [hm, ServerMessage.isNotification] at hn
      | _          => simp [ServerMessage.response?]
    rw [Downstream.onNotification]
    split
    case h_1 t hm =>
      refine hk.of_receive (e := e) hr ht hrc rfl rfl rfl rfl rfl rfl ?_ ?_ ?_
      case refine_1 => simp [ht]
      case refine_2 => simp [ht, hnone, hm, ServerMessage.isNotification]
      case refine_3 => simp [ht]
    case h_2 n hm =>
      have he := hnone (by simp [hm, ServerMessage.isNotification])
      dsimp only
      split
      case isFalse =>
        refine hk.of_receive (e := e) hr ht hrc rfl rfl rfl rfl rfl rfl ?_ ?_ ?_
        case refine_1 => simp [ht]
        case refine_2 => simp [ht, he]
        case refine_3 => simp [ht]
      case isTrue =>
        split
        case h_1 =>
          refine hk.of_receive (e := e) hr ht hrc rfl rfl rfl rfl rfl rfl ?_ ?_ ?_
          case refine_1 => simp [Downstream.next, ht, request?]
          case refine_2 => simp [Downstream.next, ht, he, response?, ServerMessage.response?]
          case refine_3 => simp [Downstream.next, ht, isQueueing]
        case h_2 =>
          refine hk.of_receive (e := e) hr ht hrc rfl rfl rfl rfl rfl rfl ?_ ?_ ?_
          case refine_1 => simp [Downstream.next, ht, request?]
          case refine_2 => simp [Downstream.next, ht, he, response?, ServerMessage.response?]
          case refine_3 => simp [Downstream.next, ht, isQueueing]
    case h_3 r hm =>
      have hd : e.downstreamId = some d := by
        have hs := hsome e (hrc ▸ List.mem_cons_self)
        have hacc := (Bool.and_eq_true_iff.mp hacc).right
        cases hdi : e.downstreamId with
        | none    => simp [hm, hdi, ServerMessage.isNotification] at hs
        | some d' => simpa [hdi, hid] using hacc
      have he : e.answerFor d = some r := by simp [Envelope.answerFor, hd, hm, ServerMessage.response?]
      have hpr := (hk.addressed e (.inr (hrc ▸ List.mem_cons_self)) (by simp [he])).right
      rw [if_pos hpr]
      refine hk.of_receive (e := e) hr ht hrc rfl rfl rfl rfl rfl rfl ?_ ?_ ?_
      case refine_1 => simp [Downstream.next, ht, request?]
      case refine_2 => simp [Downstream.next, ht, he, response?, ServerMessage.response?]
      case refine_3 => simp [Downstream.next, ht, isQueueing]

-- What the server has to do for others does not matter.
theorem congr {plan' : List ServerOp} (hk : Kept plan d o)
    (h : plan.filter (·.mentions d) = plan'.filter (·.mentions d)) : Kept plan' d o := by
  have hq : plan'.filterMap (·.queuedFor d) = plan.filterMap (·.queuedFor d) := by
    rw [← ServerOp.filterMap_mentions (fun _ => ServerOp.queuedFor_of_mentions) plan, h,
      ServerOp.filterMap_mentions fun _ => ServerOp.queuedFor_of_mentions]
  have ha : plan'.filterMap (·.answerFor d) = plan.filterMap (·.answerFor d) := by
    rw [← ServerOp.filterMap_mentions (fun _ => ServerOp.answerFor_of_mentions) plan, h,
      ServerOp.filterMap_mentions fun _ => ServerOp.answerFor_of_mentions]
  have mem {op : ServerOp} (hm : op.mentions d) : op ∈ plan' ↔ op ∈ plan := by
    have hf : op ∈ plan'.filter (·.mentions d) ↔ op ∈ plan.filter (·.mentions d) := h ▸ Iff.rfl
    simpa [List.mem_filter, hm] using hf
  constructor
  case requests =>
    rw [hq]
    exact hk.requests
  case responses =>
    rw [ha]
    exact hk.responses
  case written  => exact hk.written
  case handling =>
    intro m hm
    have hh := hk.handling m hm
    exact ⟨hq.trans hh.pending, ha.trans hh.answers, hh.queued, hh.received⟩
  case queueing => exact hk.queueing
  case unopened => exact hk.unopened
  case drained  =>
    intro hc
    exact (hk.drained hc).imp_right fun ht => ht.imp fun c => (mem (by simp [ServerOp.mentions])).mpr
  case taking =>
    intro c hc
    have ht := hk.taking c ((mem (by simp [ServerOp.mentions])).mp hc)
    exact ht.imp_right fun hs => hs.imp fun m hm =>
      ⟨(mem (by simp [ServerOp.mentions])).mpr hm.left, hm.right⟩
  case processes =>
    intro c m hm
    have hp := hk.processes c m ((mem (by simp [ServerOp.mentions])).mp hm)
    exact ⟨hp.left, hp.right.imp_right (mem (by simp [ServerOp.mentions])).mpr⟩
  case addressed =>
    intro e he hne
    refine hk.addressed e (he.imp_left (mem ?_).mp) hne
    exact Option.isSome_iff_ne_none.mpr hne

-- The server changes other data of the miner.
theorem of_data {data : DownstreamData} (hk : Kept plan d o) (hd : data.channelId = o.data.channelId)
    (hq : data.queuedSv1HandshakeMessages = o.data.queuedSv1HandshakeMessages)
    (hpr : data.processingQueuedSv1HandshakeResponses =
      o.data.processingQueuedSv1HandshakeResponses) : Kept plan d { o with data := data } := by
  refine hk.of_task rfl rfl id rfl hd hq hpr rfl (fun _ => rfl) hk.written (fun m hm => ?_) hk.queueing
  have hh := hk.handling m hm
  exact ⟨hh.pending, hh.answers, hq.trans hh.queued, hh.received⟩

theorem broadcast {e : Envelope} (hk : Kept (.broadcast e :: plan) d o) :
    Kept plan d { o with received := o.received ++ [e] } := by
  have ha : (ServerOp.broadcast e :: plan).filterMap (·.answerFor d) =
      (e.answerFor d).toList ++ plan.filterMap (·.answerFor d) := by
    rw [List.filterMap_cons, ServerOp.answerFor]
    cases e.answerFor d <;> rfl
  have hr : (o.received ++ [e]).filterMap (·.answerFor d) =
      o.received.filterMap (·.answerFor d) ++ (e.answerFor d).toList := by
    rw [List.filterMap_append, List.filterMap_cons]
    cases e.answerFor d <;> rfl
  constructor
  case requests  => exact hk.requests
  case responses =>
    intro hruns
    rw [hk.responses hruns, ha, hr]
    simp
  case written  => exact hk.written
  case handling =>
    intro m hm
    have hh := hk.handling m hm
    have hn := hh.answers
    rw [ha] at hn
    obtain ⟨he, hn⟩ := List.append_eq_nil_iff.mp hn
    exact ⟨hh.pending, hn, hh.queued, by rw [hr, hh.received, he]; rfl⟩
  case queueing => exact hk.queueing
  case unopened =>
    intro hc
    have he : e.answerFor d = none := by
      by_contra hne
      cases hc.symm.trans (hk.addressed e (.inl List.mem_cons_self) hne).left
    rw [hr, hk.unopened hc, he]
    rfl
  case drained =>
    intro hc
    refine (hk.drained hc).imp_right fun ht => ht.imp fun c hm => ?_
    cases hm with
    | tail _ hm => exact hm
  case taking =>
    intro c hc
    refine (hk.taking c (.tail _ hc)).imp_right fun hs => hs.imp fun m hm => ?_
    cases hm.left with
    | tail _ h => exact ⟨h, hm.right⟩
  case processes =>
    intro c m hm
    obtain ⟨hc, hp⟩ := hk.processes c m (.tail _ hm)
    refine ⟨hc, hp.imp_right fun hm => ?_⟩
    cases hm with
    | tail _ hm => exact hm
  case addressed =>
    intro e' he' hne
    refine hk.addressed e' ?_ hne
    cases he' with
    | inl he' => exact .inl (.tail _ he')
    | inr he' =>
      cases List.mem_append.mp he' with
      | inl he' => exact .inr he'
      | inr he' =>
        cases List.mem_singleton.mp he'
        exact .inl List.mem_cons_self

-- The channel is set for a miner that has none, and that is not just queueing a message.
theorem setChannel {m : OpenExtendedMiningChannelSuccess} {data : DownstreamData} {c : ChannelId}
    (hk : Kept [.setChannel d m, .takeQueue d c, .sendFirst c] d o) (hn : o.data.channelId = none)
    (hq : ∀ op ∈ o.todo, op.isQueueing = false) (hd : data.channelId = some c)
    (hqd : data.queuedSv1HandshakeMessages = o.data.queuedSv1HandshakeMessages) :
    Kept [.takeQueue d c, .sendFirst c] d { o with data := data } := by
  constructor
  case requests =>
    have hreqs := hk.requests
    rw [← hqd] at hreqs
    exact hreqs
  case responses => exact hk.responses
  case written   => exact hk.written
  case handling  =>
    intro m hm
    have hh := hk.handling m hm
    exact ⟨rfl, rfl, hqd.trans hh.queued, hh.received⟩
  case queueing =>
    rintro ⟨op, ho, hqu⟩
    cases (hq op ho).symm.trans hqu
  case unopened =>
    intro h
    cases hd.symm.trans h
  case drained => exact fun _ => .inr ⟨c, List.mem_cons_self⟩
  case taking  =>
    intro c' hm
    simp only [List.mem_cons, ServerOp.takeQueue.injEq, true_and, reduceCtorEq, List.not_mem_nil,
      or_false] at hm
    exact .inl (hm ▸ hd)
  case processes =>
    intro c' m' hm
    simp at hm
  case addressed =>
    intro e he hne
    have he : e ∈ o.received := by simpa using he
    have hu := hk.unopened hn
    exact absurd (List.filterMap_eq_nil_iff.mp hu e he) hne

-- The queue becomes what the server does next.
theorem takeQueue {c : ChannelId} (hk : Kept [.takeQueue d c, .sendFirst c] d o)
    {ms : List ClientMessage} (data : DownstreamData) (hms : o.data.queuedSv1HandshakeMessages = ms)
    (hd : data.channelId = o.data.channelId) (hq : data.queuedSv1HandshakeMessages = [])
    (hpr : data.processingQueuedSv1HandshakeResponses =
      o.data.processingQueuedSv1HandshakeResponses)
    {new : List ServerOp}
    (hnew : new = if ms = [] then [] else .setProcessing d :: ms.map (.handleQueued d c)) :
    Kept (new ++ [.sendFirst c]) d { o with data := data } := by
  have hc : o.data.channelId = some c := by
    obtain h | ⟨m, hm, _⟩ := hk.taking c List.mem_cons_self
    case inl => exact h
    case inr => simp at hm
  have hpending : (new ++ [ServerOp.sendFirst c]).filterMap (·.queuedFor d) = ms := by
    subst hnew
    cases ms with
    | nil       => rfl
    | cons m ms =>
      simp [ServerOp.queuedFor, List.filterMap_map]
  have hanswers : (new ++ [ServerOp.sendFirst c]).filterMap (·.answerFor d) = [] := by
    subst hnew
    cases ms with
    | nil       => rfl
    | cons m ms => simp [ServerOp.answerFor, List.filterMap_map]
  have hmem {op : ServerOp} (h : op ∈ new ++ [ServerOp.sendFirst c]) :
      op = .sendFirst c ∨ (op = .setProcessing d ∨ ∃ m, op = .handleQueued d c m) ∧
        .setProcessing d ∈ new := by
    cases List.mem_append.mp h with
    | inr h => exact .inl (List.mem_singleton.mp h)
    | inl h =>
      right
      subst hnew
      split at h
      case isTrue  => cases h
      case isFalse hne =>
        rw [if_neg hne]
        refine ⟨?_, List.mem_cons_self⟩
        cases h with
        | head _   => exact .inl rfl
        | tail _ h =>
          obtain ⟨m, _, rfl⟩ := List.mem_map.mp h
          exact .inr ⟨m, rfl⟩
  constructor
  case requests =>
    have hreqs := hk.requests
    rw [hms] at hreqs
    rw [hpending, hq]
    simpa [ServerOp.queuedFor] using hreqs
  case responses =>
    intro hr
    rw [hanswers, hk.responses hr]
    rfl
  case written  => exact hk.written
  case handling =>
    intro m hm
    have hh := hk.handling m hm
    exact ⟨hpending.trans (hms.symm.trans hh.queued), hanswers, hq, hh.received⟩
  case queueing =>
    rw [hd]
    exact hk.queueing
  case unopened =>
    rw [hd]
    exact hk.unopened
  case drained => exact fun _ => .inl hq
  case taking  =>
    intro c' h
    obtain h | ⟨h | ⟨m, h⟩, _⟩ := hmem h <;> cases h
  case processes =>
    intro c' m' h
    obtain h | ⟨h | ⟨m, h⟩, hp⟩ := hmem h
    case inl     => cases h
    case inr.inl => cases h
    case inr.inr =>
      cases h
      exact ⟨hd.trans hc, .inr (List.mem_append_left _ hp)⟩
  case addressed =>
    intro e he hne
    rw [hd, hpr]
    refine hk.addressed e (he.imp_left fun h => ?_) hne
    obtain h | ⟨h | ⟨m, h⟩, _⟩ := hmem h <;> cases h

theorem setProcessing {c : ChannelId} {ops : List ServerOp} (hdr : Draining d c ops)
    {data : DownstreamData} (hk : Kept (.setProcessing d :: ops) d o)
    (hd : data.channelId = o.data.channelId)
    (hq : data.queuedSv1HandshakeMessages = o.data.queuedSv1HandshakeMessages)
    (hpr : data.processingQueuedSv1HandshakeResponses) : Kept ops d { o with data := data } := by
  constructor
  case requests =>
    have hreqs := hk.requests
    rw [← hq] at hreqs
    exact hreqs
  case responses => exact hk.responses
  case written   => exact hk.written
  case handling  =>
    intro m hm
    have hh := hk.handling m hm
    exact ⟨hh.pending, hh.answers, hq.trans hh.queued, hh.received⟩
  case queueing =>
    rw [hd]
    exact hk.queueing
  case unopened =>
    rw [hd]
    exact hk.unopened
  case drained =>
    rw [hd, hq]
    intro hc
    refine (hk.drained hc).imp_right fun ht => ht.imp fun c hm => ?_
    cases hm with
    | tail _ hm => exact hm
  case taking =>
    intro c' h
    obtain h | ⟨m, h⟩ := hdr.mem h <;> cases h
  case processes =>
    rw [hd]
    exact fun c' m h => ⟨(hk.processes c' m (.tail _ h)).left, .inl hpr⟩
  case addressed =>
    rw [hd]
    exact fun e he hne => ⟨(hk.addressed e (he.imp_left (.tail _)) hne).left, hpr⟩

-- A message that comes out of the queue is the next one to be processed, and its response the last
-- one under way.
theorem handleQueued {c : ChannelId} {m : ClientMessage} {ops : List ServerOp}
    (hdr : Draining d c ops) (hk : Kept (.handleQueued d c m :: ops) d o) :
    Kept (((o.data.handleMessage C validJobs m).1.toOption.join.toList.map fun r =>
        .broadcast ⟨c, some d, .response r⟩) ++ ops) d { o with
      data      := (o.data.handleMessage C validJobs m).2
      processed := o.processed ++ [(m, (o.data.handleMessage C validJobs m).1.toOption.join)] } := by
  have hh : DownstreamData.Handled o.data (o.data.handleMessage C validJobs m).2 :=
    DownstreamData.handleMessage_handled
  generalize (o.data.handleMessage C validJobs m).1.toOption.join = r
  obtain ⟨hc, hp⟩ := hk.processes c m List.mem_cons_self
  have hpr : o.data.processingQueuedSv1HandshakeResponses := by
    cases hp with
    | inl hp => exact hp
    | inr hp =>
      cases hp with
      | tail _ hp => obtain h | ⟨m, h⟩ := hdr.mem hp <;> cases h
  have hanswers : ops.filterMap (·.answerFor d) = [] := by
    refine List.filterMap_eq_nil_iff.mpr fun op ho => ?_
    obtain rfl | ⟨m, rfl⟩ := hdr.mem ho <;> rfl
  have hmem {op : ServerOp} (h : op ∈ (r.toList.map fun r =>
      ServerOp.broadcast ⟨c, some d, .response r⟩) ++ ops) :
      (∃ r, op = .broadcast ⟨c, some d, .response r⟩) ∨ op ∈ ops := by
    refine (List.mem_append.mp h).imp_left fun h => ?_
    obtain ⟨r, _, rfl⟩ := List.mem_map.mp h
    exact ⟨r, rfl⟩
  constructor
  case requests =>
    have hreqs := hk.requests
    rw [List.filterMap_cons, ServerOp.queuedFor, if_pos rfl] at hreqs
    rw [hreqs, hh.queued, List.map_append, List.filterMap_append]
    cases r <;> simp [ServerOp.queuedFor]
  case responses =>
    intro hr
    have hresp : o.processed.filterMap Prod.snd = o.written.filterMap (·.response?) ++
        o.todo.filterMap (·.response?) ++ o.received.filterMap (·.answerFor d) ++
        ops.filterMap (·.answerFor d) := hk.responses hr
    rw [hanswers] at hresp
    rw [List.filterMap_append, List.filterMap_append, hanswers, hresp]
    cases r <;> simp [ServerOp.answerFor, Envelope.answerFor, ServerMessage.response?]
  case written =>
    rw [List.filterMap_append]
    exact hk.written.trans (List.prefix_append _ _)
  case handling =>
    intro m' hm
    have hn := (hk.handling m' hm).pending
    rw [List.filterMap_cons, ServerOp.queuedFor, if_pos rfl] at hn
    cases hn
  case queueing =>
    rw [hh.channelId]
    exact hk.queueing
  case unopened =>
    rw [hh.channelId]
    exact hk.unopened
  case drained =>
    rw [hh.channelId, hh.queued]
    intro hs
    refine (hk.drained hs).imp_right fun ht => ht.imp fun c' hm => ?_
    cases hm with
    | tail _ hm => exact List.mem_append_right _ hm
  case taking =>
    intro c' h
    obtain ⟨r, h⟩ | h := hmem h
    case inl => cases h
    case inr => obtain h | ⟨m, h⟩ := hdr.mem h <;> cases h
  case processes =>
    intro c' m' h
    rw [hh.channelId, hh.processing]
    obtain ⟨r, h⟩ | h := hmem h
    case inl => cases h
    case inr => exact ⟨(hk.processes c' m' (.tail _ h)).left, .inl hpr⟩
  case addressed =>
    intro e he hne
    rw [hh.channelId, hh.processing]
    cases he with
    | inr he => exact hk.addressed e (.inr he) hne
    | inl he =>
      obtain ⟨r, h⟩ | h := hmem he
      case inl =>
        cases h
        exact ⟨hc, hpr⟩
      case inr => obtain h | ⟨m, h⟩ := hdr.mem h <;> cases h

end Kept

namespace System

variable {C : Core} {cfg : Config} {s s' : System} {d : DownstreamId} {a : Action} {op : ServerOp}
variable {o o' : Downstream}

theorem mentions_of_isOther (h : op.IsOther) : op.mentions d = false := by
  cases op with
  | broadcast e =>
    have hn : e.message.isNotification := h.sends
    have he : e.answerFor d = none := by
      rw [Envelope.answerFor]
      cases hm : e.message with
      | response r => simp [hm, ServerMessage.isNotification] at hn
      | _          => simp [ServerMessage.response?]
    simp [ServerOp.mentions, he]
  | setUpstreamTarget d t | takePending d t | sendPending u | forwardTarget d t
  | vardiff us all immediate => rfl
  | _ => cases h.opening

theorem filter_mentions_of_isOther {ops : List ServerOp} (h : ∀ op ∈ ops, op.IsOther) :
    ops.filter (·.mentions d) = [] :=
  List.filter_eq_nil_iff.mpr fun op ho => (by simp [mentions_of_isOther (h op ho)])

-- The server goes on with what comes first.
theorem serve_kept {ops : List ServerOp} (hp : Phase (op :: ops)) (hk : Kept (op :: ops) d o)
    (ho : s.objects.lookup d = some o)
    (hopen : ∀ m, op = .setChannel d m → o.data.channelId = none ∧
      ∀ op ∈ o.todo, op.isQueueing = false) :
    Kept (s.follow C cfg op ++ ops) d (s.served C cfg d o op) := by
  have other (h : ∀ op' ∈ op :: ops, op'.IsOther) : Kept (s.follow C cfg op ++ ops) d o := by
    obtain ⟨hop, hops⟩ := List.forall_mem_cons.mp h
    refine hk.congr ?_
    rw [filter_mentions_of_isOther h,
      filter_mentions_of_isOther (List.forall_mem_append.mpr ⟨follow_isOther hop, hops⟩)]
  cases op with
  | setChannel d' m =>
    cases hp with
    | other h     => cases (h _ List.mem_cons_self).opening
    | draining h  => cases h
    | opening _ _ =>
      rw [served]
      split
      case isTrue hd =>
        subst hd
        obtain ⟨hn, hq⟩ := hopen m rfl
        exact hk.setChannel hn hq rfl rfl
      case isFalse hd => exact hk.congr (by simp [ServerOp.mentions, hd, follow])
  | takeQueue d' c =>
    cases hp with
    | other h    => cases (h _ List.mem_cons_self).opening
    | draining h => cases h
    | taking _ _ =>
      rw [served]
      split
      case isTrue hd =>
        subst hd
        refine hk.takeQueue { o.data with queuedSv1HandshakeMessages := [] } rfl rfl rfl rfl ?_
        rw [follow, ho]
        dsimp only [Option.elim_some]
        cases o.data.queuedSv1HandshakeMessages <;> rfl
      case isFalse hd =>
        refine hk.congr ?_
        rw [follow]
        split <;> simp [ServerOp.mentions, hd]
  | setProcessing d' =>
    cases hp with
    | other h        => cases (h _ List.mem_cons_self).opening
    | draining h     => cases h
    | processing hdr =>
      rw [served]
      split
      case isTrue hd =>
        subst hd
        exact hk.setProcessing hdr rfl rfl rfl
      case isFalse hd => exact hk.congr (by simp [ServerOp.mentions, hd, follow])
  | handleQueued d' c m =>
    cases hp with
    | other h      => cases (h _ List.mem_cons_self).opening
    | draining hdr =>
      cases hdr with
      | next _ hdr =>
        rw [served]
        split
        case isTrue hd =>
          subst hd
          rw [follow, ho]
          exact hk.handleQueued hdr
        case isFalse hd =>
          refine hk.congr ?_
          rw [follow]
          simp [ServerOp.mentions, hd, Envelope.answerFor]
  | sendFirst c =>
    refine hk.congr ?_
    simp [follow, ServerOp.mentions, Envelope.answerFor, ServerMessage.response?]
  | broadcast e => exact hk.broadcast
  | setUpstreamTarget d' t =>
    cases hp with
    | draining h => cases h
    | other h    =>
      rw [served]
      split
      case isTrue  => exact (other h).of_data rfl rfl rfl
      case isFalse => exact other h
  | takePending d' t =>
    cases hp with
    | draining h => cases h
    | other h    => exact other h
  | sendPending u =>
    cases hp with
    | draining h => cases h
    | other h    => exact other h
  | forwardTarget d' t =>
    cases hp with
    | draining h => cases h
    | other h    =>
      rw [served]
      split
      case isTrue  => exact (other h).of_data rfl rfl rfl
      case isFalse => exact other h
  | vardiff us all immediate =>
    cases hp with
    | draining h => cases h
    | other h    =>
      cases us with
      | nil       => exact other h
      | cons u us =>
        rw [served]
        split
        case h_1 => exact (other h).of_data rfl rfl rfl
        case h_2 => exact other h

theorem begins_kept (hk : Kept [] d o) (h : s.step C cfg a = some s') :
    Kept (s.begins C cfg a) d o := by
  obtain ⟨d', m, hb⟩ | hb := begins_cases h
  case inr => exact hk.congr (filter_mentions_of_isOther hb).symm
  case inl =>
    rw [hb]
    by_cases hd : d' = d
    case neg => exact hk.congr (by simp [ServerOp.mentions, hd])
    case pos =>
      subst hd
      have no {e : Envelope} (he : ServerOp.broadcast e ∈ [ServerOp.setChannel d' m,
          .takeQueue d' m.channelId, .sendFirst m.channelId]) : ServerOp.broadcast e ∈ [] := by
        simp at he
      constructor
      case requests  => exact hk.requests
      case responses => exact hk.responses
      case written   => exact hk.written
      case handling  =>
        intro m' hm
        have hh := hk.handling m' hm
        exact ⟨rfl, rfl, hh.queued, hh.received⟩
      case queueing  => exact hk.queueing
      case unopened  => exact hk.unopened
      case drained   => exact fun _ => .inr ⟨m.channelId, .tail _ List.mem_cons_self⟩
      case taking    =>
        intro c hc
        simp only [List.mem_cons, reduceCtorEq, ServerOp.takeQueue.injEq, true_and, List.not_mem_nil,
          or_false, false_or] at hc
        exact .inr ⟨m, List.mem_cons_self, hc.symm⟩
      case processes =>
        intro c m' h
        simp at h
      case addressed => exact fun e he hne => hk.addressed e (he.imp_left no) hne

theorem kept_of_plan (ha : a ≠ .serve) (hk : Kept s.plan d o) (h : s.step C cfg a = some s') :
    Kept s'.plan d o := by
  obtain ⟨hn, hp | ⟨hs, _⟩⟩ | ⟨_, _, hs, _⟩ | ⟨_, hp⟩ := plan_of_step h
  case inl.inl =>
    rw [hn, ← hp]
    exact hk
  case inl.inr     => exact absurd hs ha
  case inr.inl     => exact absurd hs ha
  case inr.inr =>
    rw [hp]
    cases hb : s.begins C cfg a with
    | nil => exact hk
    | cons op ops =>
      have hidle : s.todo = [] := idle_of_begins_cons hb h
      rw [plan_of_idle hidle] at hk ⊢
      rw [List.append_nil, ← hb]
      exact begins_kept hk h

theorem kept_of_serve {ops : List ServerOp} (ht : s.todo = op :: ops) (hp : Phase s.plan)
    (hk : Kept s.plan d o) (hu : Undisturbed s .serve) (ho : s.objects.lookup d = some o)
    (h : s.step C cfg .serve = some s') :
    Kept s'.plan d ({ s with todo := ops }.served C cfg d o op) := by
  obtain ⟨_, _, _, hr, _⟩ := serve_eq_some h
  have hplan : s.plan = op :: ops := (plan_of_running hr).trans ht
  rw [hplan] at hk hp
  have hs : Kept ({ s with todo := ops }.follow C cfg op ++ ops) d
      ({ s with todo := ops }.served C cfg d o op) :=
    serve_kept hp hk ho fun m hm => hu.opens d m ops o rfl (hm ▸ ht) ho
  obtain ⟨hn, hnil | ⟨_, op', ops', heq, hf⟩⟩ | ⟨op', ops', _, heq, hn⟩ | ⟨hne, _⟩ := plan_of_step h
  case inl.inl =>
    cases hplan.symm.trans hnil
  case inl.inr =>
    cases hplan.symm.trans heq
    rw [hn]
    refine hs.congr (filter_mentions_of_isOther fun op' ho' => ?_)
    obtain ⟨c, rfl⟩ | ⟨all, immediate, rfl⟩ := hf
    case inl =>
      cases hp with
      | other h    => cases (h _ List.mem_cons_self).opening
      | draining h =>
        cases h
        cases List.mem_singleton.mp ho'
        exact ⟨rfl, rfl⟩
    case inr =>
      cases hp with
      | draining h => cases h
      | other h    =>
        obtain ⟨hop, hops⟩ := List.forall_mem_cons.mp h
        exact List.forall_mem_append.mpr ⟨follow_isOther hop, hops⟩ op' ho'
  case inr.inl =>
    cases hplan.symm.trans heq
    rw [hn]
    exact hs
  case inr.inr => exact absurd rfl hne

theorem evolves_kept (hst : Stage o.todo) (hid : o.data.downstreamId = d)
    (hsome : ∀ e ∈ o.received, e.message.isNotification ∨ e.downstreamId.isSome)
    (hk : Kept s.plan d o) (hp : Phase s.plan) (hu : Undisturbed s a)
    (ho : s.objects.lookup d = some o) (h : s.step C cfg a = some s')
    (he : Evolves C cfg s d a o o') : Kept s'.plan d o' := by
  cases he with
  | took ht  => exact kept_of_plan (by simp) (hk.take ht) h
  | wentOn hg =>
    obtain ⟨op, ops, ht, hr, rfl⟩ := Downstream.goOn_eq_some hg
    refine kept_of_plan (by simp) (hk.exec hst hr ht fun m hm hc => ?_) h
    have hq := hu.finds d m ops o rfl ho (hm ▸ ht) hc
    by_cases hrun : s.status = .running
    case pos =>
      rw [plan_of_running hrun]
      exact hq
    case neg =>
      rw [plan_of_stopped hrun]
      exact ⟨rfl, rfl, hq.queued, hq.received⟩
  | received hr => exact kept_of_plan (by simp) (hk.receive hid hsome hr) h
  | stopped hs  =>
    obtain ⟨_, ht, rfl⟩ := Downstream.stop_eq_some hs
    exact kept_of_plan (by simp) (hk.ends ht) h
  | served ht        => exact kept_of_serve ht hp hk hu ho h
  | named            => exact kept_of_plan (by simp) (hk.of_data rfl rfl rfl) h
  | kept _ _ _ _ hne => exact kept_of_plan hne hk h

-- Every message of every miner is where it belongs.
structure Placed (s : System) : Prop where
  staged    : s.Staged
  signed    : s.Signed
  envelopes : s.Envelopes fun e => e.message.isNotification ∨ e.downstreamId.isSome
  phase     : Phase s.plan
  kept      : ∀ d o, s.objects.lookup d = some o → Kept s.plan d o

theorem placed_new {aggregateChannels : Bool} : (new aggregateChannels).Placed where
  staged       := staged_new
  signed _ _ h := by cases h
  envelopes    := envelopes_new
  phase        := .other (List.forall_mem_nil _)
  kept _ _ h   := by cases h

theorem placed_step (hs : s.Placed) (hu : Undisturbed s a) (h : s.step C cfg a = some s') :
    s'.Placed where
  staged := staged_step hs.staged h
  signed := signed_step hs.signed h
  envelopes := envelopes_step (fun e => .inl) hs.envelopes h fun _ _ _ _ _ _ _ _ => .inr rfl
  phase := phase_of_step hs.phase h
  kept d o' ho' := by
    obtain ⟨rfl, _, rfl⟩ | ⟨o, ho, he⟩ := evolves_of_step h ho'
    case inl =>
      obtain ⟨_, ht, _⟩ := idle_eq_some h
      have hn : Kept [] d (.new d cfg.firstTarget (some cfg.minIndividualMinerHashrate)) := by
        constructor <;> simp [Downstream.new, DownstreamData.new]
      refine kept_of_plan (by simp) ?_ h
      rw [plan_of_idle ht]
      exact hn
    case inr =>
      exact evolves_kept (hs.staged.stage d o ho) (hs.signed d o ho).left
        (hs.envelopes.received d o ho) (hs.kept d o ho) hs.phase hu ho h he

theorem orderly_of_placed (hs : s.Placed) (ho : s.objects.lookup d = some o) : Orderly s d o where
  processed := by
    rw [(hs.kept d o ho).requests, List.append_assoc, List.append_assoc]
    exact List.prefix_append _ _
  answered := (hs.kept d o ho).written
  complete ht hc hr hto hrc := by
    have hk := hs.kept d o ho
    rw [plan_of_idle ht] at hk
    have hq : o.data.queuedSv1HandshakeMessages = [] := by
      obtain hq | ⟨c, hm⟩ := hk.drained hc
      case inl => exact hq
      case inr => cases hm
    have hrec : o.received.filterMap (·.answerFor d) = [] := List.filterMap_eq_nil_iff.mpr hrc
    have hreqs := hk.requests
    have hresp := hk.responses hr
    simp only [hto, hq, List.filterMap_nil, List.append_nil] at hreqs
    simp only [hto, hrec, List.filterMap_nil, List.append_nil] at hresp
    exact ⟨hreqs.symm, hresp.symm⟩

end System

theorem orderly_of_run {C : Core} {cfg : Config} {tr : List (Machine.Event System Action)}
    {s : System} (r : (machine C cfg).Run tr s) (hu : Machine.Along Undisturbed tr) :
    ∀ d o, s.objects.lookup d = some o → Orderly s d o := by
  have init (s : System) (h : (machine C cfg).Init s) : s.Placed := by
    cases h
    exact System.placed_new
  have hs := r.invariant init (fun _ _ _ hs ha h => System.placed_step hs ha h) hu
  exact fun d o ho => System.orderly_of_placed hs ho

namespace Overtaken

open Reference Reference.Sample

def first : ClientMessage := ⟨1, .subscribe⟩

def second : ClientMessage := ⟨2, .authorize "worker"⟩

-- The server sets the channel and empties the queue while the task is about to queue the second
-- message.
def lost : List Action :=
  connect 1 first ++ [.miner 1 second] ++ goOn 1 2 ++ [success 1 5] ++ serve 7 ++ goOn 1 1 ++
    [.receive 1] ++ goOn 1 1 ++ [.receive 1]

-- The second message comes when the first one has been answered.
def answered : List Action :=
  connect 1 first ++ [success 1 5] ++ serve 7 ++ [.receive 1] ++ goOn 1 1 ++
    [.receive 1, .miner 1 second] ++ goOn 1 7

def done (o : Downstream) : Prop :=
  o.data.channelId = some 5 ∧ o.runs ∧ o.todo = [] ∧ o.received = [] ∧ o.sent = [first, second]

instance : DecidablePred done :=
  fun _ => inferInstanceAs (Decidable (_ ∧ _))

theorem lost_exec : ((machine core (config false true)).exec (.new false) lost).any fun s =>
    s.todo = [] ∧ (s.objects.lookup 1).any fun o => done o ∧ o.processed.map Prod.fst = [first] := by
  decide +kernel

theorem answered_exec : ((machine core (config false true)).exec (.new false) answered).any fun s =>
    s.todo = [] ∧ (s.objects.lookup 1).any fun o => done o := by
  decide +kernel

def quiet (todo : List ServerOp) (d : DownstreamId) (o : Downstream) : Bool :=
  todo.filterMap (·.queuedFor d) = [] ∧ todo.filterMap (·.answerFor d) = [] ∧
    o.data.queuedSv1HandshakeMessages = [] ∧ o.received.filterMap (·.answerFor d) = []

def opens (s : System) : ServerOp → Bool
  | .setChannel d _ => (s.objects.lookup d).all fun o =>
    o.data.channelId = none ∧ ∀ op ∈ o.todo, op.isQueueing = false
  | _               => true

def finds (todo : List ServerOp) (d : DownstreamId) (o : Downstream) : DownstreamOp → Bool
  | .checkEstablished _ => o.data.channelId.isNone || quiet todo d o
  | _                   => true

def undisturbed (e : Machine.Event System Action) : Bool :=
  match e.act with
  | .serve  => e.pre.todo.head?.all (opens e.pre)
  | .task d => (e.pre.objects.lookup d).all fun o => o.todo.head?.all (finds e.pre.todo d o)
  | _       => true

theorem answered_undisturbed :
    ((machine core (config false true)).trace (.new false) answered).all undisturbed := by
  decide +kernel

theorem undisturbed_sound {e : Machine.Event System Action} (h : undisturbed e) :
    Undisturbed e.pre e.act where
  opens d m ops o ha ht ho := by
    rw [undisturbed, ha] at h
    have h : (e.pre.objects.lookup d).all fun o =>
        o.data.channelId = none ∧ ∀ op ∈ o.todo, op.isQueueing = false :=
      Option.all_eq_true _ _ |>.mp h (.setChannel d m) (by simp [ht])
    exact of_decide_eq_true (Option.all_eq_true _ _ |>.mp h o ho)
  finds d m ops o ha ho ht hc := by
    rw [undisturbed, ha] at h
    have h := Option.all_eq_true _ _ |>.mp h o ho
    have h : o.data.channelId.isNone || quiet e.pre.todo d o :=
      Option.all_eq_true _ _ |>.mp h (.checkEstablished m) (by simp [ht])
    cases hcid : o.data.channelId with
    | none   => simp [hcid] at hc
    | some c =>
      rw [hcid] at h
      obtain ⟨hp, ha, hq, hr⟩ := of_decide_eq_true h
      exact ⟨hp, ha, hq, hr⟩

end Overtaken

open Reference Reference.Sample Overtaken in
theorem not_orderly : ¬∀ tr s, (machine core (config false true)).Run tr s →
    ∀ d o, s.objects.lookup d = some o → Orderly s d o := by
  intro h
  obtain ⟨s, hs, hm⟩ := Option.any_eq_true _ _ |>.mp lost_exec
  obtain ⟨ht, hm⟩ := of_decide_eq_true hm
  obtain ⟨o, ho, hm⟩ := Option.any_eq_true _ _ |>.mp hm
  obtain ⟨⟨hc, hr, hto, hrc, hsent⟩, hp⟩ := of_decide_eq_true hm
  have r := Machine.Run.of_exec (M := machine core (config false true)) rfl hs
  have hall := ((h _ s r 1 o ho).complete ht (by simp [hc]) hr hto (by simp [hrc])).left
  rw [hp, hsent] at hall
  cases hall

open Reference Reference.Sample Overtaken in
theorem orderly_sample : ∃ tr s o, (machine core (config false true)).Run tr s ∧ s.todo = [] ∧
    s.objects.lookup 1 = some o ∧ done o ∧ ∀ d o, s.objects.lookup d = some o → Orderly s d o := by
  obtain ⟨s, hs, hm⟩ := Option.any_eq_true _ _ |>.mp answered_exec
  obtain ⟨ht, hm⟩ := of_decide_eq_true hm
  obtain ⟨o, ho, hm⟩ := Option.any_eq_true _ _ |>.mp hm
  have r := Machine.Run.of_exec (M := machine core (config false true)) rfl hs
  refine ⟨_, s, o, r, ht, ho, of_decide_eq_true hm, orderly_of_run r fun e he => ?_⟩
  exact undisturbed_sound (List.all_eq_true.mp answered_undisturbed e he)

end Translator.Sv1
