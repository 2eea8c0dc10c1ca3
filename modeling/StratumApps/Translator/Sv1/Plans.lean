import StratumApps.Translator.Sv1.Tasks

open Sv2 Handler StratumCore

namespace Translator.Sv1

namespace ServerOp

def isOpening : ServerOp → Bool
  | .setChannel _ _ | .takeQueue _ _ | .setProcessing _ | .handleQueued _ _ _ | .sendFirst _ => true
  | _                                                                                        => false

-- What belongs to no opening of a channel, and sends no response.
structure IsOther (op : ServerOp) : Prop where
  opening : op.isOpening = false
  sends   : op.Sends (·.message.isNotification)

end ServerOp

-- The messages that the server has taken from the queue of a downstream, and what comes behind them.
inductive Draining (d : DownstreamId) (c : ChannelId) : List ServerOp → Prop
  | last : Draining d c [.sendFirst c]
  | next (m : ClientMessage) {ops : List ServerOp} : Draining d c ops →
    Draining d c (.handleQueued d c m :: ops)

-- What the server may have to do before it waits again. It opens one channel at a time.
inductive Phase : List ServerOp → Prop
  | opening (d : DownstreamId) (m : OpenExtendedMiningChannelSuccess) :
    Phase [.setChannel d m, .takeQueue d m.channelId, .sendFirst m.channelId]
  | taking (d : DownstreamId) (c : ChannelId) : Phase [.takeQueue d c, .sendFirst c]
  | processing {d : DownstreamId} {c : ChannelId} {ops : List ServerOp} : Draining d c ops →
    Phase (.setProcessing d :: ops)
  | draining {d : DownstreamId} {c : ChannelId} {ops : List ServerOp} : Draining d c ops → Phase ops
  | answering {d : DownstreamId} {c : ChannelId} (r : Response) {ops : List ServerOp} :
    Draining d c ops → Phase (.broadcast ⟨c, some d, .response r⟩ :: ops)
  | other {ops : List ServerOp} : (∀ op ∈ ops, op.IsOther) → Phase ops

theorem Draining.of_map {d : DownstreamId} {c : ChannelId} (ms : List ClientMessage) :
    Draining d c (ms.map (.handleQueued d c) ++ [.sendFirst c]) := by
  induction ms with
  | nil          => exact .last
  | cons m ms ih => exact .next m ih

theorem Draining.mem {d : DownstreamId} {c : ChannelId} {ops : List ServerOp} (h : Draining d c ops)
    {op : ServerOp} (ho : op ∈ ops) : op = .sendFirst c ∨ ∃ m, op = .handleQueued d c m := by
  induction h with
  | last        => exact .inl (List.mem_singleton.mp ho)
  | next m _ ih =>
    cases ho with
    | head _    => exact .inr ⟨m, rfl⟩
    | tail _ ho => exact ih ho

namespace System

variable {C : Core} {cfg : Config} {s s' : System} {d : DownstreamId} {a : Action} {op : ServerOp}

-- What the server goes on with. A server that has stopped goes on with nothing.
def plan (s : System) : List ServerOp :=
  if s.status = .running then s.todo else []

theorem plan_of_running (h : s.status = .running) : s.plan = s.todo :=
  if_pos h

theorem plan_of_stopped (h : s.status ≠ .running) : s.plan = [] :=
  if_neg h

theorem plan_of_idle (h : s.todo = []) : s.plan = [] := by
  rw [plan, h, ite_self]

theorem exec_fails (hs : s.status = .running) (h : (s.exec C cfg op).status ≠ .running) :
    (∃ c, op = .sendFirst c) ∨ ∃ all immediate, op = .vardiff [] all immediate := by
  cases op with
  | sendFirst c => exact .inl ⟨c, rfl⟩
  | takeQueue d c =>
    rw [exec, takeQueue.eq_def] at h
    split at h <;> exact absurd hs h
  | handleQueued d c m =>
    rw [exec, handleQueued.eq_def] at h
    split at h
    case h_1 => exact absurd hs h
    case h_2 =>
      dsimp only at h
      split at h
      case h_1 hp => exact absurd hp DownstreamData.handleMessage_not_panicked
      case h_2    => exact absurd hs h
      case h_3    => exact absurd hs h
  | setUpstreamTarget d t =>
    rw [exec] at h
    split at h <;> exact absurd hs h
  | sendPending u =>
    rw [exec] at h
    cases hc : s.channelIdOf u.downstreamId <;> rw [hc] at h <;> exact absurd hs h
  | forwardTarget d t =>
    rw [exec] at h
    cases hc : s.channelIdOf d <;> rw [hc] at h <;> exact absurd hs h
  | vardiff us all immediate =>
    cases us with
    | nil       => exact .inr ⟨all, immediate, rfl⟩
    | cons u us => exact absurd (vardiffRound_todo.right.trans hs) h
  | _ => exact absurd hs h

-- A step ends the server with nothing left of an opening; or the server goes on with what comes first;
-- or the action gives it something to do.
theorem plan_of_step (h : s.step C cfg a = some s') :
    (s'.plan = [] ∧ (s.plan = [] ∨ a = .serve ∧ ∃ op ops, s.plan = op :: ops ∧
      ((∃ c, op = .sendFirst c) ∨ ∃ all immediate, op = .vardiff [] all immediate))) ∨
    (∃ op ops, a = .serve ∧ s.plan = op :: ops ∧
      s'.plan = { s with todo := ops }.follow C cfg op ++ ops) ∨
    (a ≠ .serve ∧ s'.plan = s.begins C cfg a ++ s.plan) := by
  by_cases hr' : s'.status = .running
  case pos =>
    right
    have hr := running_of_step h hr'
    rw [plan_of_running hr, plan_of_running hr']
    obtain hn | h | h := todo_of_step h
    case inl     => exact absurd hr' hn
    case inr.inl => exact .inl h
    case inr.inr => exact .inr h
  case neg =>
    refine .inl ⟨plan_of_stopped hr', ?_⟩
    by_cases hr : s.status = .running
    case neg => exact .inl (plan_of_stopped hr)
    case pos =>
      cases a with
      | miner d m | receive d | stop d =>
        obtain ⟨_, _, _, _, rfl⟩ := update_eq_some h
        exact absurd hr hr'
      | task d =>
        obtain ⟨_, _, _, _, rfl⟩ := task_eq_some h
        exact absurd hr hr'
      | serve =>
        obtain ⟨op, ops, ht, _, rfl⟩ := serve_eq_some h
        have hops : { s with todo := ops }.status = .running := hr
        exact .inr ⟨rfl, op, ops, (plan_of_running hr).trans ht, exec_fails hops hr'⟩
      | downstream =>
        rw [step] at h
        split at h
        case h_1 => cases h
        case h_2 => exact .inl (plan_of_idle (idle_eq_some h).right.left)
      | tick updates =>
        obtain ⟨_, h⟩ := Option.ite_none_right_eq_some.mp h
        exact .inl (plan_of_idle (idle_eq_some h).right.left)
      | _ => exact .inl (plan_of_idle (idle_eq_some h).right.left)

theorem follow_isOpening (h : op.isOpening = false) :
    ∀ op' ∈ s.follow C cfg op, op'.isOpening = false := by
  intro op' ho
  cases spawns_of_mem ho with
  | applied | pending | forwarded | immediate | round => rfl
  | processing | queued | answered | first            => cases h

theorem follow_isOther (h : op.IsOther) : ∀ op' ∈ s.follow C cfg op, op'.IsOther := by
  intro op' ho
  refine ⟨follow_isOpening h.opening op' ho, ?_⟩
  refine follow_sends (fun _ he => he) h.sends (fun d c m r hop _ => ?_) op' ho
  rw [hop] at h
  cases h.opening

theorem begins_cases (hs : s.step C cfg a = some s') :
    (∃ d m, s.begins C cfg a =
      [.setChannel d m, .takeQueue d m.channelId, .sendFirst m.channelId]) ∨
    ∀ op ∈ s.begins C cfg a, op.IsOther := by
  by_cases ha : ∃ m, a = .upstream (.openExtendedMiningChannelSuccess m)
  case pos =>
    obtain ⟨m, rfl⟩ := ha
    rw [begins]
    cases (s.server.requestIdToDownstreamId.lookup m.requestId).filter fun d =>
        (s.getDownstream d).isSome with
    | none   => exact .inr (List.forall_mem_nil _)
    | some d => exact .inl ⟨d, m, rfl⟩
  case neg =>
    refine .inr fun op ho => ⟨?_, begins_sends (fun _ he => he) hs op ho⟩
    cases begun_of_mem (idle_of_begins ho hs) ho with
    | setChannel | takeQueue | sendFirst => exact absurd ⟨_, rfl⟩ ha
    | _                                  => rfl

theorem phase_of_step (hp : Phase s.plan) (h : s.step C cfg a = some s') : Phase s'.plan := by
  obtain ⟨hn, _⟩ | ⟨op, ops, rfl, ht, ht'⟩ | ⟨_, ht'⟩ := plan_of_step h
  case inl =>
    rw [hn]
    exact .other (List.forall_mem_nil _)
  case inr.inl =>
    rw [ht] at hp
    rw [ht']
    have drains {d : DownstreamId} {c : ChannelId} (hd : Draining d c (op :: ops)) :
        Phase ({ s with todo := ops }.follow C cfg op ++ ops) := by
      cases hd with
      | last =>
        refine .other fun op h => ?_
        cases List.mem_singleton.mp h
        exact ⟨rfl, rfl⟩
      | next m hd =>
        rw [follow]
        cases (({ s with todo := ops }.objects.lookup d).bind fun o =>
            (o.data.handleMessage C ({ s with todo := ops }.server.validJobs o.data.channelId)
              m).1.toOption.join) with
        | none   => exact .draining hd
        | some r => exact .answering r hd
    cases hp with
    | opening d m   => exact .taking d m.channelId
    | processing hd => exact .draining hd
    | draining hd   => exact drains hd
    | answering r hd => exact .draining hd
    | taking d c =>
      rw [follow]
      split
      case h_1        => exact .draining (d := d) .last
      case h_2 m ms _ => exact .processing (.of_map (m :: ms))
    | other ho =>
      obtain ⟨hop, hops⟩ := List.forall_mem_cons.mp ho
      exact .other (List.forall_mem_append.mpr ⟨follow_isOther hop, hops⟩)
  case inr.inr =>
    rw [ht']
    cases hb : s.begins C cfg a with
    | nil => exact hp
    | cons op ops =>
      have hidle : s.todo = [] := idle_of_begins_cons hb h
      rw [plan_of_idle hidle, List.append_nil, ← hb]
      obtain ⟨d, m, hb⟩ | hb := begins_cases h
      case inl =>
        rw [hb]
        exact .opening d m
      case inr => exact .other hb

end System

end Translator.Sv1
