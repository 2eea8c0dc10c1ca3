import StratumApps.Translator.Sv1.Revisions

open Sv2 Handler StratumCore

namespace Translator.Sv1

open DownstreamOp

-- What is left to do once the difficulty that the miner is told is in force.
inductive Announcing : List DownstreamOp → Prop
  | done : Announcing []
  | share : Announcing [sendShare]
  | notify (n : Notify) {ops : List DownstreamOp} : Announcing ops →
    Announcing (write (.notify n) :: ops)

-- What the task of a downstream may have to do. A message of the miner is all of it until the message
-- is queued or handled.
inductive Stage : List DownstreamOp → Prop
  | asked (m : ClientMessage) : Stage [checkEstablished m]
  | unestablished (m : ClientMessage) : Stage [checkFirst m]
  | opening (m : ClientMessage) : Stage [openChannel, queue m]
  | queueing (m : ClientMessage) : Stage [queue m]
  | handling (m : ClientMessage) : Stage [handle m]
  | responding (r : Response) {ops : List DownstreamOp} : Announcing ops →
    Stage (write (.response r) :: ops)
  | granting (r : Response) : Stage [write (.response r), completeHandshake, sendShare]
  | completing : Stage [completeHandshake, sendShare]
  | releasing (t : Target) {ops : List DownstreamOp} : Announcing ops →
    Stage (write (.setDifficulty t) :: applyPending :: ops)
  | applying {ops : List DownstreamOp} : Announcing ops → Stage (applyPending :: ops)
  | telling (t : Target) {ops : List DownstreamOp} : Announcing ops →
    Stage (write (.setDifficulty t) :: ops)
  | announcing {ops : List DownstreamOp} : Announcing ops → Stage ops

theorem Announcing.of_elim {n : Option Notify} {ops : List DownstreamOp} (h : Announcing ops) :
    Announcing ((n.elim [] fun n => [write (.notify n)]) ++ ops) := by
  cases n with
  | none   => exact h
  | some n => exact .notify n h

namespace Downstream

variable {C : Core} {o o' : Downstream} {op : DownstreamOp} {ops : List DownstreamOp}
variable {validJobs : List Notify}

theorem handleMessage_stage {m : ClientMessage} (ht : o.todo = []) :
    Stage (o.handleMessage C validJobs m).todo := by
  rw [handleMessage, onResponse.eq_def]
  split
  case h_1 r _ =>
    dsimp only [next, respond]
    rw [ht]
    cases m.isAuthorize with
    | true  => exact .granting r
    | false => exact .responding r .share
  case h_2 =>
    dsimp only [next]
    rw [ht]
    exact .announcing .share
  case h_3 => exact .announcing .done

theorem handleSv1HandshakeCompletion_stage (h : Announcing o.todo) :
    Stage o.handleSv1HandshakeCompletion.todo := by
  rw [handleSv1HandshakeCompletion, next, sendCached]
  dsimp only
  rw [List.append_assoc]
  cases o.data.cachedSetDifficulty with
  | none   => exact .announcing h.of_elim
  | some t => exact .releasing t h.of_elim

theorem announcing_exec (h : Announcing (op :: ops)) :
    Announcing ({ o with todo := ops }.exec C validJobs op).1.todo := by
  cases h with
  | share      => exact .done
  | notify n h => exact h

theorem exec_stage (h : Stage (op :: ops)) :
    Stage ({ o with todo := ops }.exec C validJobs op).1.todo := by
  cases h with
  | asked m =>
    rw [exec]
    split
    case isTrue  => exact .unestablished m
    case isFalse => exact .handling m
  | unestablished m =>
    rw [exec]
    split
    case isTrue  => exact .opening m
    case isFalse => exact .queueing m
  | opening m      => exact .queueing m
  | queueing m     => exact .announcing .done
  | handling m     => exact handleMessage_stage rfl
  | responding r h => exact .announcing h
  | granting r     => exact .completing
  | completing     => exact handleSv1HandshakeCompletion_stage .share
  | releasing t h  => exact .applying h
  | applying h     => exact .announcing h
  | telling t h    => exact .announcing h
  | announcing h   => exact .announcing (announcing_exec h)

theorem onNotification_stage {e : Envelope} (ht : o.todo = []) : Stage (o.onNotification e).todo := by
  have waits : Stage o.todo := ht ▸ .announcing .done
  rw [onNotification]
  split
  case h_1 => exact waits
  case h_2 n _ =>
    dsimp only
    split
    case isFalse => exact waits
    case isTrue =>
      split
      case h_1 =>
        dsimp only [next]
        rw [ht]
        exact .announcing (.notify n .done)
      case h_2 t _ =>
        dsimp only [next]
        rw [ht]
        exact .telling t (.notify _ .done)
  case h_3 r _ =>
    split
    case isFalse => exact waits
    case isTrue =>
      dsimp only [next]
      rw [ht]
      exact .responding r .done

-- Only a message of the miner that is not handled well makes the task drop what is left.
theorem mem_exec_todo {op' : DownstreamOp} (h : op' ∈ ops) (hn : ∀ m, op ≠ handle m) :
    op' ∈ ({ o with todo := ops }.exec C validJobs op).1.todo := by
  cases op with
  | handle m => exact absurd rfl (hn m)
  | checkEstablished m | checkFirst m =>
    rw [exec]
    split <;> exact List.mem_append_right _ h
  | completeHandshake => exact List.mem_append_right _ h
  | _                 => exact h

-- The message of the server that the task takes as its own when it takes the next one.
def takes (o : Downstream) : Option ServerMessage :=
  match o.received with
  | []     => none
  | e :: _ => if o.received.length ≤ capacity ∧ o.data.accepts e then some e.message else none

-- Where the task takes nothing as its own, it ends or goes on waiting.
theorem receive_takes (h : o.receive = some o') :
    (o.takes = none ∧ (o' = o.ends ∨ ∃ e es, o.received = e :: es ∧ ¬o.data.accepts e ∧
      o' = { o with received := es })) ∨
    ∃ e es, o.received = e :: es ∧ o.data.accepts e ∧ o.takes = some e.message ∧
      o' = { o with received := es }.onNotification e := by
  rw [receive.eq_def] at h
  rw [takes.eq_def]
  cases hr : o.received with
  | nil =>
    rw [hr] at h
    cases h
  | cons e es =>
    rw [hr] at h
    obtain ⟨_, h⟩ := Option.ite_none_right_eq_some.mp h
    dsimp only
    split at h
    case isTrue hlen =>
      cases h
      rw [if_neg fun h => absurd h.left (Nat.not_le.mpr hlen)]
      exact .inl ⟨rfl, .inl rfl⟩
    case isFalse hlen =>
      cases h
      by_cases hacc : o.data.accepts e
      case pos =>
        rw [if_pos ⟨Nat.not_lt.mp hlen, hacc⟩]
        exact .inr ⟨e, es, rfl, hacc, rfl, if_pos hacc⟩
      case neg =>
        rw [if_neg fun h => hacc h.right]
        exact .inl ⟨rfl, .inr ⟨e, es, rfl, hacc, if_neg hacc⟩⟩

theorem receive_of_takes {m : ServerMessage} (ht : o.takes = some m) (h : o.receive = some o') :
    ∃ e es, e.message = m ∧ o.todo = [] ∧ o' = { o with received := es }.onNotification e := by
  obtain ⟨_, _, _, _, hnil, _⟩ := receive_cases h
  obtain ⟨hn, _⟩ | ⟨e, es, _, _, he, ho⟩ := receive_takes h
  case inl => cases hn.symm.trans ht
  case inr => exact ⟨e, es, Option.some.inj (he.symm.trans ht), hnil, ho⟩

-- A message that has been written, or that is written before the task waits again.
def Due (o : Downstream) (m : ServerMessage) : Prop :=
  m ∈ o.written ∨ write m ∈ o.todo

theorem Due.written {m : ServerMessage} (h : o.Due m) (ht : o.todo = []) : m ∈ o.written := by
  cases h with
  | inl h => exact h
  | inr h =>
    rw [ht] at h
    cases h

end Downstream

namespace System

variable {C : Core} {cfg : Config} {s s' : System} {d : DownstreamId} {a : Action} {op : ServerOp}
variable {o o' : Downstream}

theorem evolves_stage (ho : Stage o.todo) (h : Evolves C cfg s d a o o') : Stage o'.todo := by
  cases h with
  | took h =>
    obtain ⟨_, _, rfl⟩ := Downstream.take_eq_some h
    exact .asked _
  | wentOn h =>
    obtain ⟨op, ops, ht, _, rfl⟩ := Downstream.goOn_eq_some h
    exact Downstream.exec_stage (ht ▸ ho)
  | received h =>
    obtain ⟨e, es, _, _, ht, rfl | rfl⟩ := Downstream.receive_cases h
    case inl => exact .announcing .done
    case inr =>
      rw [Downstream.handleSv1ServerMessage]
      split
      case isTrue  => exact Downstream.onNotification_stage ht
      case isFalse => exact ho
  | stopped h =>
    obtain ⟨_, _, rfl⟩ := Downstream.stop_eq_some h
    exact .announcing .done
  | served _ =>
    rw [served_spares.todo]
    exact ho
  | named => exact ho
  | kept  => exact ho

-- What has been written stays written, and a task that writes something goes on to what comes next.
theorem evolves_written (h : Evolves C cfg s d a o o') : o'.written = o.written ∨
    ∃ m ops, a = .task d ∧ o.todo = write m :: ops ∧
      o' = { o with todo := ops, written := o.written ++ [m] } := by
  cases h with
  | took h =>
    obtain ⟨_, _, rfl⟩ := Downstream.take_eq_some h
    exact .inl rfl
  | wentOn h =>
    obtain ⟨op, ops, ht, _, rfl⟩ := Downstream.goOn_eq_some h
    cases op with
    | write m => exact .inr ⟨m, ops, rfl, ht, rfl⟩
    | checkEstablished m | checkFirst m =>
      left
      rw [Downstream.exec]
      split <;> rfl
    | handle m =>
      left
      rw [Downstream.exec, Downstream.handleMessage]
      dsimp only
      rw [Downstream.onResponse.eq_def]
      split <;> rfl
    | _ => exact .inl rfl
  | received h =>
    left
    obtain ⟨e, es, _, _, _, rfl | rfl⟩ := Downstream.receive_cases h
    case inl => rfl
    case inr =>
      rw [Downstream.handleSv1ServerMessage]
      split
      case isTrue  => exact Downstream.onNotification_received.right.right.right.left
      case isFalse => rfl
  | stopped h =>
    obtain ⟨_, _, rfl⟩ := Downstream.stop_eq_some h
    exact .inl rfl
  | served _ => exact .inl served_spares.written
  | named    => exact .inl rfl
  | kept     => exact .inl rfl


theorem evolves_due {m : ServerMessage} (ho : Stage o.todo) (hd : o.Due m)
    (h : Evolves C cfg s d a o o') : o'.Due m := by
  have written (hm : m ∈ o.written) : o'.Due m := by
    obtain hw | ⟨m', ops, _, _, rfl⟩ := evolves_written h
    case inl => exact .inl (hw ▸ hm)
    case inr => exact .inl (List.mem_append_left _ hm)
  cases hd with
  | inl hm => exact written hm
  | inr hm =>
    have busy (ht : o.todo = []) : o'.Due m := by
      rw [ht] at hm
      cases hm
    cases h with
    | took h     => exact busy (Downstream.take_eq_some h).right.left
    | received h =>
      obtain ⟨_, _, _, _, ht, _⟩ := Downstream.receive_cases h
      exact busy ht
    | stopped h  => exact busy (Downstream.stop_eq_some h).right.left
    | served _   =>
      right
      rw [served_spares.todo]
      exact hm
    | named      => exact .inr hm
    | kept       => exact .inr hm
    | wentOn h =>
      obtain ⟨op, ops, ht, _, rfl⟩ := Downstream.goOn_eq_some h
      rw [ht] at hm ho
      cases hm with
      | head _    => exact .inl (List.mem_append_right _ (List.mem_singleton_self _))
      | tail _ hm =>
        refine .inr (Downstream.mem_exec_todo hm ?_)
        rintro m' rfl
        cases ho with
        | handling _   => cases hm
        | announcing h => cases h

-- Every task is at some stage, and the id of the next miner is a new one.
structure Staged (s : System) : Prop where
  stage : ∀ d o, s.objects.lookup d = some o → Stage o.todo
  fresh : ∀ d o, s.objects.lookup d = some o → d < s.server.downstreamIdFactory

theorem staged_new {aggregateChannels : Bool} : (new aggregateChannels).Staged where
  stage _ _ h := by cases h
  fresh _ _ h := by cases h

theorem staged_step (hs : s.Staged) (h : s.step C cfg a = some s') : s'.Staged where
  stage d o' ho' := by
    obtain ⟨_, _, rfl⟩ | ⟨o, ho, he⟩ := evolves_of_step h ho'
    case inl => exact .announcing .done
    case inr => exact evolves_stage (hs.stage d o ho) he
  fresh d o' ho' := by
    obtain ⟨rfl, rfl, _⟩ | ⟨o, ho, _⟩ := evolves_of_step h ho'
    case inl =>
      obtain ⟨_, _, rfl⟩ := idle_eq_some h
      exact Nat.lt_succ_self _
    case inr => exact Nat.lt_of_lt_of_le (hs.fresh d o ho) (downstreamIdFactory_of_step h)

-- A miner that is there stays there.
theorem Staged.evolves (hs : s.Staged) (h : s.step C cfg a = some s')
    (ho : s.objects.lookup d = some o) :
    ∃ o', s'.objects.lookup d = some o' ∧ Evolves C cfg s d a o o' := by
  obtain ⟨o', ho'⟩ := Option.isSome_iff_exists.mp
    (lookup_isSome_of_step h (Option.isSome_iff_exists.mpr ⟨o, ho⟩))
  obtain ⟨_, hd, _⟩ | ⟨o₁, ho₁, he⟩ := evolves_of_step h ho'
  case inl => exact absurd hd (Nat.ne_of_lt (hs.fresh d o ho))
  case inr =>
    cases ho.symm.trans ho₁
    exact ⟨o', ho', he⟩

end System

section Envelopes

variable {C : Core} {cfg : Config} {s s' : System} {a : Action} {op op' : ServerOp}
variable {P : Envelope → Prop}

-- Whatever the server is about to send is as `P` says.
def ServerOp.Sends (P : Envelope → Prop) : ServerOp → Prop
  | .broadcast e           => P e
  | .vardiff _ _ immediate => ∀ e ∈ immediate, P e
  | _                      => True

theorem setDifficulty_isNotification {c : ChannelId} {d : Option DownstreamId} {t : Target}
    {e : Envelope} (h : e ∈ System.setDifficulty C c d t) : e.message.isNotification := by
  rw [System.setDifficulty] at h
  split at h
  case isTrue =>
    cases List.mem_singleton.mp h
    rfl
  case isFalse => cases h

theorem vardiffRound_isNotification {d : DownstreamId} {h : Hashrate} {e : Envelope}
    (he : e ∈ (s.vardiffRound C cfg d h).2.2) : e.message.isNotification := by
  rw [System.vardiffRound] at he
  split at he
  case h_2 => cases he
  case h_1 =>
    dsimp only at he
    rw [System.vardiffUpdate] at he
    split at he
    case isTrue  => exact setDifficulty_isNotification he
    case isFalse => cases he

-- The server makes a response of its own only of a message that it has taken from a queue.
theorem follow_sends (hP : ∀ e : Envelope, e.message.isNotification → P e) (ho : op.Sends P)
    (hq : ∀ d c m r, op = .handleQueued d c m →
      .broadcast ⟨c, some d, .response r⟩ ∈ s.follow C cfg op → P ⟨c, some d, .response r⟩) :
    ∀ op' ∈ s.follow C cfg op, op'.Sends P := by
  intro op' h
  cases System.spawns_of_mem h with
  | processing     => trivial
  | queued _       => trivial
  | answered _ _   => exact hq _ _ _ _ rfl h
  | first          => exact hP _ rfl
  | applied _      => trivial
  | pending _ he   => exact hP _ (setDifficulty_isNotification he)
  | forwarded _ he => exact hP _ (setDifficulty_isNotification he)
  | immediate he   => exact ho _ he
  | round          =>
    intro e he
    cases List.mem_append.mp he with
    | inl he => exact ho e he
    | inr he => exact hP e (vardiffRound_isNotification he)

theorem begins_sends (hP : ∀ e : Envelope, e.message.isNotification → P e)
    (hs : s.step C cfg a = some s') : ∀ op ∈ s.begins C cfg a, op.Sends P := by
  intro op h
  cases System.begun_of_mem (System.idle_of_begins h hs) h with
  | notify => exact hP _ rfl
  | tick   =>
    intro e he
    cases he
  | setChannel | takeQueue | sendFirst                => trivial
  | setUpstreamTarget | takePending | forwardTarget => trivial

-- Everything that the server is about to send, and everything that waits for a miner, is as `P` says.
structure System.Envelopes (P : Envelope → Prop) (s : System) : Prop where
  todo     : s.status = .running → ∀ op ∈ s.todo, op.Sends P
  received : ∀ d o, s.objects.lookup d = some o → ∀ e ∈ o.received, P e

theorem System.envelopes_new {aggregateChannels : Bool} :
    (System.new aggregateChannels).Envelopes P where
  todo _ _ h     := by cases h
  received _ _ h := by cases h

theorem System.Envelopes.mono {Q : Envelope → Prop} (hs : s.Envelopes P) (h : ∀ e, P e → Q e) :
    s.Envelopes Q where
  todo hr op ho := by
    have hp := hs.todo hr op ho
    cases op with
    | broadcast e              => exact h e hp
    | vardiff us all immediate => exact fun e he => h e (hp e he)
    | _                        => trivial
  received d o ho e he := h e (hs.received d o ho e he)

theorem System.envelopes_step (hP : ∀ e : Envelope, e.message.isNotification → P e)
    (hs : s.Envelopes P) (h : s.step C cfg a = some s')
    (hq : ∀ d c m ops r, a = .serve → s.todo = .handleQueued d c m :: ops →
      .broadcast ⟨c, some d, .response r⟩ ∈ { s with todo := ops }.follow C cfg (.handleQueued d c m) →
        P ⟨c, some d, .response r⟩) : s'.Envelopes P where
  todo hr := by
    have running := running_of_step h hr
    obtain hns | ⟨op, ops, rfl, ht, ht'⟩ | ⟨_, ht'⟩ := todo_of_step h
    case inl => exact absurd hr hns
    case inr.inl =>
      have htodo := hs.todo running
      rw [ht] at htodo
      obtain ⟨hop, hops⟩ := List.forall_mem_cons.mp htodo
      rw [ht']
      refine List.forall_mem_append.mpr ⟨follow_sends hP hop fun d c m r heq hb => ?_, hops⟩
      subst heq
      exact hq d c m ops r rfl ht hb
    case inr.inr =>
      rw [ht']
      exact List.forall_mem_append.mpr ⟨begins_sends hP h, hs.todo running⟩
  received d o' ho' := by
    intro e hr
    obtain ⟨_, _, rfl⟩ | ⟨o, ho, he⟩ := evolves_of_step h ho'
    case inl => cases hr
    case inr =>
      obtain hr | ⟨ops, rfl, ht⟩ := evolves_received he hr
      case inl => exact hs.received d o ho e hr
      case inr =>
        obtain ⟨_, _, _, running, _⟩ := serve_eq_some h
        exact hs.todo running (.broadcast e) (ht ▸ List.mem_cons_self)

end Envelopes

end Translator.Sv1
