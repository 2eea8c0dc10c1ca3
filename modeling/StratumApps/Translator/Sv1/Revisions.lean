import StratumApps.Translator.Sv1.Steps

open Sv2 Handler StratumCore

namespace Translator.Sv1

namespace System

variable {C : Core} {cfg : Config} {s s' : System} {d : DownstreamId} {a : Action} {op : ServerOp}

-- The pending updates that an operation of the server leaves: those that were there, and one for a
-- hashrate that has changed.
def Updates (s : System) (op : ServerOp) (updates : List PendingTargetUpdate) : Prop :=
  ∀ u ∈ updates, u ∈ s.server.pendingTargetUpdates ∨
    ∃ us all immediate, op = .vardiff ((u.downstreamId, u.newHashrate) :: us) all immediate

theorem Updates.same : s.Updates op s.server.pendingTargetUpdates :=
  fun _ h => .inl h

theorem vardiffRound_kept {h : Hashrate} {us : List (DownstreamId × Hashrate)}
    {all : List (ChannelId × PendingTargetUpdate)} {immediate : List Envelope} :
    (s.vardiffRound C cfg d h).1.inbox = s.inbox ∧
      ∃ updates, (s.vardiffRound C cfg d h).1.server =
        { s.server with pendingTargetUpdates := updates } ∧
          s.Updates (.vardiff ((d, h) :: us) all immediate) updates := by
  rw [vardiffRound]
  split
  case h_2 => exact ⟨rfl, _, rfl, .same⟩
  case h_1 t _ _ =>
    dsimp only
    rw [vardiffUpdate]
    split
    case isTrue  => exact ⟨rfl, _, rfl, .same⟩
    case isFalse =>
      refine ⟨rfl, _, rfl, fun u hu => ?_⟩
      cases List.mem_append.mp hu with
      | inl hu => exact .inl hu
      | inr hu =>
        cases List.mem_singleton.mp hu
        exact .inr ⟨us, all, immediate, rfl⟩

theorem sendUpdateChannelMessages_kept {all : List (ChannelId × PendingTargetUpdate)} :
    (s.sendUpdateChannelMessages C cfg all).inbox = s.inbox ∧
      (s.sendUpdateChannelMessages C cfg all).server = s.server := by
  rw [sendUpdateChannelMessages.eq_def]
  split
  case isTrue  => split <;> exact ⟨rfl, rfl⟩
  case isFalse => exact ⟨rfl, rfl⟩

-- The operations of the server leave its queue alone and change its pending updates at most.
theorem exec_kept : (s.exec C cfg op).inbox = s.inbox ∧ ∃ updates, (s.exec C cfg op).server =
    { s.server with pendingTargetUpdates := updates } ∧ s.Updates op updates := by
  cases op with
  | takeQueue d c =>
    rw [exec, takeQueue.eq_def]
    split <;> exact ⟨rfl, _, rfl, .same⟩
  | handleQueued d c m =>
    rw [exec, handleQueued.eq_def]
    split
    case h_1 => exact ⟨rfl, _, rfl, .same⟩
    case h_2 =>
      dsimp only
      split <;> exact ⟨rfl, _, rfl, .same⟩
  | sendFirst c =>
    rw [exec, sendFirst]
    split <;> exact ⟨rfl, _, rfl, .same⟩
  | setUpstreamTarget d t =>
    rw [exec]
    split <;> exact ⟨rfl, _, rfl, .same⟩
  | takePending d t => exact ⟨rfl, _, rfl, fun u hu => .inl (List.mem_filter.mp hu).left⟩
  | sendPending u =>
    rw [exec]
    cases s.channelIdOf u.downstreamId <;> exact ⟨rfl, _, rfl, .same⟩
  | forwardTarget d t =>
    rw [exec]
    cases s.channelIdOf d <;> exact ⟨rfl, _, rfl, .same⟩
  | vardiff us all immediate =>
    cases us with
    | cons u us => exact vardiffRound_kept
    | nil =>
      rw [exec, handleVardiff]
      split
      case isTrue  => exact ⟨rfl, _, rfl, .same⟩
      case isFalse =>
        exact ⟨sendUpdateChannelMessages_kept.left, _, sendUpdateChannelMessages_kept.right, .same⟩
  | _ => exact ⟨rfl, _, rfl, .same⟩

-- What a step may make of the data of the server. It takes something new only when it has nothing else
-- to do.
inductive Revises (C : Core) (s : System) : Action → Sv1Server → Prop
  | accept {vardiff : List DownstreamId} : s.todo = [] → Revises C s .accept { s.server with
      downstreamIdFactory := s.server.downstreamIdFactory + 1
      downstreams         := s.server.downstreams ++ [s.server.downstreamIdFactory]
      vardiff             := vardiff }
  | asked {d : DownstreamId} {ms : List DownstreamMessages} {initialTarget : Option Target}
      {minerCounter : UInt32} : s.todo = [] → s.inbox = .openChannel d :: ms →
    Revises C s .downstream { s.server with
      requestIdFactory        := s.server.requestIdFactory + 1
      requestIdToDownstreamId :=
        s.server.requestIdToDownstreamId.insert s.server.requestIdFactory d
      initialTarget           := initialTarget
      minerCounter            := minerCounter }
  | shared {n : UInt32} : s.todo = [] →
    Revises C s .downstream { s.server with sequenceCounter := n }
  | answered {m : OpenExtendedMiningChannelSuccess} : s.todo = [] →
    Revises C s (.upstream (.openExtendedMiningChannelSuccess m)) { s.server with
      requestIdToDownstreamId := s.server.requestIdToDownstreamId.erase m.requestId }
  | job {m : NewExtendedMiningJob} {p : SetNewPrevHashMp} {n : Notify} : s.todo = [] →
    s.server.prevhash = some p → C.buildSv1NotifyFromSv2 p m s.server.cleanJob = some n →
    Revises C s (.upstream (.newExtendedMiningJob m))
      ({ s.server with cleanJob := false }.storeJob m.channelId n s.server.cleanJob)
  | prevHash {m : SetNewPrevHashMp} : s.todo = [] →
    Revises C s (.upstream (.setNewPrevHash m)) { s.server with
      cleanJob := true
      prevhash := some m }
  | served {op : ServerOp} {ops : List ServerOp} {updates : List PendingTargetUpdate} :
    s.todo = op :: ops → s.Updates op updates →
    Revises C s .serve { s.server with pendingTargetUpdates := updates }
  | shutdown {d : DownstreamId} {vardiff : List DownstreamId} : s.todo = [] →
    Revises C s (.downstreamShutdown d) { s.server with
      vardiff     := vardiff
      downstreams := s.server.downstreams.filter (· ≠ d) }
  | fallback {vardiff : List DownstreamId} : s.todo = [] → Revises C s .fallback { s.server with
      vardiff     := vardiff
      downstreams := [] }
  | kept {a : Action} : Revises C s a s.server

theorem handleOpenChannelRequest_server : ∃ initialTarget minerCounter,
    (s.handleOpenChannelRequest C cfg d).server = { s.server with
      requestIdFactory        := s.server.requestIdFactory + 1
      requestIdToDownstreamId :=
        s.server.requestIdToDownstreamId.insert s.server.requestIdFactory d
      initialTarget           := initialTarget
      minerCounter            := minerCounter } := by
  rw [handleOpenChannelRequest]
  dsimp only
  split
  case isFalse => exact ⟨_, _, rfl⟩
  case isTrue =>
    rw [openExtendedMiningChannel]
    dsimp only
    split <;> exact ⟨_, _, rfl⟩

theorem handleSubmitShares_server {m : SubmitShareWithChannelId} :
    ∃ n, (s.handleSubmitShares C cfg m).server = { s.server with sequenceCounter := n } := by
  rw [handleSubmitShares]
  split
  case h_2 => exact ⟨_, rfl⟩
  case h_1 hs =>
    rw [submitShare] at hs
    split at hs
    case h_1 =>
      cases hs
      exact ⟨_, rfl⟩
    case h_2 =>
      simp only [bind_eq_ok, pure_eq_ok] at hs
      obtain ⟨_, _, _, _, rfl⟩ := hs
      exact ⟨_, rfl⟩

theorem handleUpstreamMessage_revises {m : Mining} (ht : s.todo = []) :
    Revises C s (.upstream m) (s.handleUpstreamMessage C cfg m).server := by
  cases m with
  | openExtendedMiningChannelSuccess m =>
    rw [handleUpstreamMessage, handleOpenExtendedMiningChannelSuccess.eq_def]
    split
    case h_1 => exact .kept
    case h_2 =>
      dsimp only
      split <;> exact .answered ht
  | newExtendedMiningJob m =>
    rw [handleUpstreamMessage, handleNewExtendedMiningJob.eq_def]
    split
    case h_1 => exact .kept
    case h_2 p hp =>
      split
      case h_1      => exact .kept
      case h_2 n hn => exact .job ht hp hn
  | setNewPrevHash m => exact .prevHash ht
  | setTarget m =>
    rw [handleUpstreamMessage, handleSetTarget]
    split <;> exact .kept
  | _ => exact .kept

theorem downstreamShutdown_server : (s.downstreamShutdown C cfg d).server = { s.server with
      vardiff     := if cfg.enableVardiff then s.server.vardiff.filter (· ≠ d) else s.server.vardiff
      downstreams := s.server.downstreams.filter (· ≠ d) } := by
  have h : ∃ forwarded, s.downstreamShutdown C cfg d = _ := downstreamShutdown_forwards
  obtain ⟨_, h⟩ := h
  rw [h]

theorem revises_of_step (h : s.step C cfg a = some s') : Revises C s a s'.server := by
  cases a with
  | miner d m | receive d | stop d =>
    obtain ⟨_, _, _, _, rfl⟩ := update_eq_some h
    exact .kept
  | task d =>
    obtain ⟨_, _, _, _, rfl⟩ := task_eq_some h
    exact .kept
  | accept =>
    obtain ⟨_, ht, rfl⟩ := idle_eq_some h
    exact .accept ht
  | serve =>
    obtain ⟨op, ops, ht, _, rfl⟩ := serve_eq_some h
    have hs : ∃ updates, ({ s with todo := ops }.exec C cfg op).server = _ ∧ _ := exec_kept.right
    obtain ⟨updates, hs, hu⟩ := hs
    rw [hs]
    exact .served ht hu
  | downstream =>
    rw [step] at h
    split at h
    case h_1 => cases h
    case h_2 m ms hi =>
      obtain ⟨_, ht, rfl⟩ := idle_eq_some h
      cases m with
      | openChannel d =>
        have hs : ∃ initialTarget minerCounter,
            ({ s with inbox := ms }.handleOpenChannelRequest C cfg d).server = _ :=
          handleOpenChannelRequest_server
        obtain ⟨_, _, hs⟩ := hs
        rw [handleDownstreamMessage, hs]
        exact .asked ht hi
      | submitShares m =>
        have hs : ∃ n, ({ s with inbox := ms }.handleSubmitShares C cfg m).server = _ :=
          handleSubmitShares_server
        obtain ⟨_, hs⟩ := hs
        rw [handleDownstreamMessage, hs]
        exact .shared ht
  | upstream m =>
    obtain ⟨_, ht, rfl⟩ := idle_eq_some h
    exact handleUpstreamMessage_revises ht
  | tick updates =>
    obtain ⟨_, h⟩ := Option.ite_none_right_eq_some.mp h
    obtain ⟨_, _, rfl⟩ := idle_eq_some h
    exact .kept
  | downstreamShutdown d =>
    obtain ⟨_, ht, rfl⟩ := idle_eq_some h
    rw [downstreamShutdown_server]
    exact .shutdown ht
  | fallback =>
    obtain ⟨_, ht, rfl⟩ := idle_eq_some h
    exact .fallback ht

section Jobs

variable {c : ChannelId} {n : Notify} {clean : Bool} {server : Sv1Server}

-- A job changes the lists of valid jobs only.
theorem storeJob_kept : (server.storeJob c n clean).prevhash = server.prevhash ∧
    (server.storeJob c n clean).downstreams = server.downstreams ∧
    (server.storeJob c n clean).downstreamIdFactory = server.downstreamIdFactory ∧
    (server.storeJob c n clean).requestIdToDownstreamId = server.requestIdToDownstreamId ∧
    (server.storeJob c n clean).pendingTargetUpdates = server.pendingTargetUpdates ∧
    (server.storeJob c n clean).cleanJob = server.cleanJob := by
  rw [Sv1Server.storeJob.eq_def]
  dsimp only
  split <;> exact ⟨rfl, rfl, rfl, rfl, rfl, rfl⟩

end Jobs

-- While the server is at something, no more than its pending updates change.
theorem server_of_step (h : s.step C cfg a = some s') : s.todo = [] ∨
    ∃ updates, s'.server = { s.server with pendingTargetUpdates := updates } := by
  have hr := revises_of_step h
  generalize s'.server = server at hr
  cases hr with
  | served _ _ => exact .inr ⟨_, rfl⟩
  | kept       => exact .inr ⟨_, rfl⟩
  | _          => exact .inl ‹_›

end System

variable {C : Core} {cfg : Config} {d : DownstreamId}

-- The share that a miner has just submitted has its id.
def DownstreamData.Signed (data : DownstreamData) (d : DownstreamId) : Prop :=
  data.downstreamId = d ∧ ∀ p, data.pendingShare = some p → p.downstreamId = d

theorem DownstreamData.Signed.handleMessage {data : DownstreamData} {validJobs : List Notify}
    {m : ClientMessage} (h : data.Signed d) : (data.handleMessage C validJobs m).2.Signed d := by
  refine ⟨handleMessage_handled.downstreamId.trans h.left, ?_⟩
  rw [DownstreamData.handleMessage]
  split
  case h_6 share =>
    split
    case isFalse => exact h.right
    case isTrue =>
      dsimp only
      rw [handleSubmit]
      split
      case h_1 => exact h.right
      case h_2 =>
        split
        case isFalse => exact h.right
        case isTrue =>
          intro p hp
          cases hp
          exact h.left
  all_goals exact h.right

-- What the task of a miner sends to the server has the id of the miner.
theorem Downstream.Signed.exec {o : Downstream} {validJobs : List Notify} {op : DownstreamOp}
    (h : o.data.Signed d) : (o.exec C validJobs op).1.data.Signed d ∧
      ∀ m ∈ (o.exec C validJobs op).2, m = .openChannel d ∨
        ∃ p, m = .submitShares p ∧ p.downstreamId = d := by
  have silent {o' : Downstream} (ho : o'.data.Signed d) : o'.data.Signed d ∧
      ∀ m ∈ ([] : List DownstreamMessages), m = .openChannel d ∨
        ∃ p, m = .submitShares p ∧ p.downstreamId = d :=
    ⟨ho, fun _ hm => by cases hm⟩
  cases op with
  | checkEstablished m =>
    rw [Downstream.exec]
    split <;> exact silent h
  | checkFirst m =>
    rw [Downstream.exec]
    split <;> exact silent h
  | openChannel =>
    refine ⟨h, fun m hm => ?_⟩
    cases List.mem_singleton.mp hm
    exact .inl (congrArg _ h.left)
  | handle m =>
    refine silent ?_
    rw [Downstream.exec, Downstream.handleMessage]
    dsimp only
    rw [onResponse.eq_def]
    split <;> exact h.handleMessage
  | sendShare =>
    refine ⟨⟨h.left, fun _ hp => by cases hp⟩, fun m hm => ?_⟩
    obtain ⟨p, hp, rfl⟩ := List.mem_map.mp hm
    exact .inr ⟨p, rfl, h.right p (Option.mem_toList.mp hp)⟩
  | _ => exact silent h

theorem Downstream.Signed.receive {o o' : Downstream} (h : o.data.Signed d)
    (hr : o.receive = some o') : o'.data.Signed d := by
  obtain ⟨e, es, _, _, _, rfl | rfl⟩ := Downstream.receive_cases hr
  case inl => exact h
  case inr =>
    rw [handleSv1ServerMessage]
    split
    case isFalse => exact h
    case isTrue =>
      rw [onNotification]
      split
      case h_1 => exact h
      case h_2 =>
        dsimp only
        split
        case isTrue  => split <;> exact h
        case isFalse => exact h
      case h_3 => split <;> exact h

namespace System

variable {s s' : System} {a : Action} {op : ServerOp} {o o' : Downstream}

-- What the server does with a message of the channel manager sends nothing back.
theorem handleUpstreamMessage_forwarded {m : Mining} :
    (s.handleUpstreamMessage C cfg m).forwarded = s.forwarded ∧
      (s.handleUpstreamMessage C cfg m).inbox = s.inbox := by
  cases m with
  | openExtendedMiningChannelSuccess m =>
    rw [handleUpstreamMessage, handleOpenExtendedMiningChannelSuccess.eq_def]
    split
    case h_1 => exact ⟨rfl, rfl⟩
    case h_2 =>
      dsimp only
      split <;> exact ⟨rfl, rfl⟩
  | newExtendedMiningJob m =>
    rw [handleUpstreamMessage, handleNewExtendedMiningJob.eq_def]
    split
    case h_1 => exact ⟨rfl, rfl⟩
    case h_2 => split <;> exact ⟨rfl, rfl⟩
  | setTarget m =>
    rw [handleUpstreamMessage, handleSetTarget]
    split <;> exact ⟨rfl, rfl⟩
  | _ => exact ⟨rfl, rfl⟩

-- Only the server sends messages to the channel manager.
theorem forwarded_of_step (h : s.step C cfg a = some s') (ha : a.isServer = false) :
    s'.forwarded = s.forwarded := by
  cases a with
  | miner d m | receive d | stop d =>
    obtain ⟨_, _, _, _, rfl⟩ := update_eq_some h
    rfl
  | task d =>
    obtain ⟨_, _, _, _, rfl⟩ := task_eq_some h
    rfl
  | upstream m =>
    obtain ⟨_, _, rfl⟩ := idle_eq_some h
    exact handleUpstreamMessage_forwarded.left
  | fallback =>
    obtain ⟨_, _, rfl⟩ := idle_eq_some h
    rfl
  | _ => cases ha

theorem signed_served (h : o.data.Signed d) : (s.served C cfg d o op).data.Signed d := by
  cases op with
  | handleQueued d' c m =>
    rw [served]
    split
    case isTrue  => exact h.handleMessage
    case isFalse => exact h
  | vardiff us all immediate =>
    cases us with
    | nil       => exact h
    | cons u us =>
      rw [served]
      split <;> exact h
  | setChannel d' _ | takeQueue d' _ | setProcessing d' | setUpstreamTarget d' _
  | forwardTarget d' _ =>
    rw [served]
    split <;> exact h
  | _ => exact h

-- A task that has ended does not run again.
theorem evolves_runs (h : Evolves C cfg s d a o o') (hr : o'.runs) : o.runs := by
  cases h with
  | took ht    => exact (Downstream.take_eq_some ht).left
  | wentOn hg  =>
    obtain ⟨_, _, _, hr, _⟩ := Downstream.goOn_eq_some hg
    exact hr
  | received h =>
    obtain ⟨_, _, _, hr, _⟩ := Downstream.receive_cases h
    exact hr
  | stopped ht => exact (Downstream.stop_eq_some ht).left
  | served _   => exact served_spares.runs ▸ hr
  | named      => exact hr
  | kept       => exact hr

-- Everything that the server has of a miner has its id.
def Signed (s : System) : Prop :=
  ∀ d o, s.objects.lookup d = some o → o.data.Signed d

theorem signed_step (hs : s.Signed) (h : s.step C cfg a = some s') : s'.Signed := by
  intro d o' ho'
  obtain ⟨_, _, rfl⟩ | ⟨o, ho, he⟩ := evolves_of_step h ho'
  case inl => exact ⟨rfl, fun _ hp => by cases hp⟩
  case inr =>
    have hd := hs d o ho
    cases he with
    | took ht =>
      obtain ⟨_, _, rfl⟩ := Downstream.take_eq_some ht
      exact hd
    | wentOn hg =>
      obtain ⟨op, ops, _, _, rfl⟩ := Downstream.goOn_eq_some hg
      exact (Downstream.Signed.exec (o := { o with todo := ops }) hd).left
    | received hr => exact Downstream.Signed.receive hd hr
    | stopped ht =>
      obtain ⟨_, _, rfl⟩ := Downstream.stop_eq_some ht
      exact hd
    | served => exact signed_served hd
    | named  => exact hd
    | kept   => exact hd

theorem handleDownstreamMessage_inbox {m : DownstreamMessages} :
    (s.handleDownstreamMessage C cfg m).inbox = s.inbox := by
  cases m with
  | openChannel d =>
    rw [handleDownstreamMessage, handleOpenChannelRequest]
    dsimp only
    split
    case isFalse => rfl
    case isTrue =>
      rw [openExtendedMiningChannel]
      dsimp only
      split <;> rfl
  | submitShares m =>
    rw [handleDownstreamMessage, handleSubmitShares]
    split
    case h_2 => rfl
    case h_1 hs =>
      rw [submitShare] at hs
      split at hs
      case h_1 =>
        cases hs
        rfl
      case h_2 =>
        simp only [bind_eq_ok, pure_eq_ok] at hs
        obtain ⟨_, _, _, _, rfl⟩ := hs
        rfl

theorem downstreamShutdown_inbox : (s.downstreamShutdown C cfg d).inbox = s.inbox := by
  have h : ∃ forwarded, s.downstreamShutdown C cfg d = _ := downstreamShutdown_forwards
  obtain ⟨_, h⟩ := h
  rw [h]

-- The message of a miner is an open request or a share.
def sender : DownstreamMessages → DownstreamId
  | .submitShares m => m.downstreamId
  | .openChannel d  => d

-- The queue of the server grows by what the tasks of the miners send.
theorem inbox_of_step (hs : s.Signed) (h : s.step C cfg a = some s') {m : DownstreamMessages}
    (hm : m ∈ s'.inbox) : m ∈ s.inbox ∨ ∃ o, a = .task (sender m) ∧
      s.objects.lookup (sender m) = some o ∧ o.runs := by
  cases a with
  | miner d m | receive d | stop d =>
    obtain ⟨_, _, _, _, rfl⟩ := update_eq_some h
    exact .inl hm
  | task d =>
    obtain ⟨o, r, ho, hg, rfl⟩ := task_eq_some h
    cases List.mem_append.mp hm with
    | inl hm => exact .inl hm
    | inr hm =>
      right
      obtain ⟨op, ops, _, hr, rfl⟩ := Downstream.goOn_eq_some hg
      have hd : sender m = d := by
        have hx := (Downstream.Signed.exec (o := { o with todo := ops }) (hs d o ho)).right m hm
        obtain rfl | ⟨p, rfl, hp⟩ := hx
        case inl => rfl
        case inr => exact hp
      exact ⟨o, hd ▸ rfl, hd ▸ ho, hr⟩
  | accept | fallback =>
    obtain ⟨_, _, rfl⟩ := idle_eq_some h
    exact .inl hm
  | downstream =>
    rw [step] at h
    split at h
    case h_1 => cases h
    case h_2 m' ms hi =>
      obtain ⟨_, _, rfl⟩ := idle_eq_some h
      left
      rw [hi]
      rw [handleDownstreamMessage_inbox] at hm
      exact .tail m' hm
  | upstream m' =>
    obtain ⟨_, _, rfl⟩ := idle_eq_some h
    rw [handleUpstreamMessage_forwarded.right] at hm
    exact .inl hm
  | tick updates =>
    obtain ⟨_, h⟩ := Option.ite_none_right_eq_some.mp h
    obtain ⟨_, _, rfl⟩ := idle_eq_some h
    exact .inl hm
  | serve =>
    obtain ⟨op, ops, _, _, rfl⟩ := serve_eq_some h
    rw [exec_kept.left] at hm
    exact .inl hm
  | downstreamShutdown d =>
    obtain ⟨_, _, rfl⟩ := idle_eq_some h
    rw [downstreamShutdown_inbox] at hm
    exact .inl hm

-- What the server keeps has been there, or comes from what it takes in the step.
theorem prevhash_of_step (h : s.step C cfg a = some s') {p : SetNewPrevHashMp}
    (hp : s'.server.prevhash = some p) :
    s.server.prevhash = some p ∨ a = .upstream (.setNewPrevHash p) := by
  have hr := revises_of_step h
  generalize s'.server = server at hr hp
  cases hr with
  | job =>
    rw [storeJob_kept.left] at hp
    exact .inl hp
  | prevHash =>
    cases hp
    exact .inr rfl
  | _ => exact .inl hp

theorem mem_storeJob {server : Sv1Server} {c : ChannelId} {c' : Option ChannelId} {n n' : Notify}
    {clean : Bool} (h : n' ∈ (server.storeJob c n clean).validJobs c') :
    n' ∈ server.validJobs c' ∨ n' = n := by
  have pushed {jobs : List Notify} (h : n' ∈ (if clean then [] else jobs) ++ [n]) :
      n' ∈ jobs ∨ n' = n := by
    cases List.mem_append.mp h with
    | inr h => exact .inr (List.mem_singleton.mp h)
    | inl h =>
      split at h
      case isTrue  => cases h
      case isFalse => exact .inl h
  rw [Sv1Server.storeJob.eq_def] at h
  dsimp only at h
  split at h
  case h_1 jobs _ hj =>
    rw [Sv1Server.validJobs.eq_def] at h ⊢
    rw [hj]
    exact pushed h
  case h_3 => exact .inl h
  case h_2 jobs hn hj =>
    rw [Sv1Server.validJobs.eq_def] at h ⊢
    rw [hn] at h ⊢
    rw [hj]
    dsimp only at h ⊢
    cases c' with
    | none    => cases h
    | some c' =>
      by_cases hc : c' = c
      case pos =>
        subst hc
        rw [Option.bind_some, Map.lookup_upsert] at h
        exact pushed h
      case neg =>
        rw [Option.bind_some, Map.lookup_upsert_ne hc] at h
        exact .inl h

theorem validJobs_of_step (h : s.step C cfg a = some s') {c : Option ChannelId} {n : Notify}
    (hn : n ∈ s'.server.validJobs c) : n ∈ s.server.validJobs c ∨
      ∃ m p, a = .upstream (.newExtendedMiningJob m) ∧ s.server.prevhash = some p ∧
        C.buildSv1NotifyFromSv2 p m s.server.cleanJob = some n := by
  have hr := revises_of_step h
  generalize s'.server = server at hr hn
  cases hr with
  | @job m p n' _ hp hb =>
    cases mem_storeJob hn with
    | inl hn => exact .inl hn
    | inr hn =>
      subst hn
      exact .inr ⟨m, p, rfl, hp, hb⟩
  | _ => exact .inl hn

theorem requests_of_step (h : s.step C cfg a = some s') {r : RequestId}
    (hl : s'.server.requestIdToDownstreamId.lookup r = some d) :
    s.server.requestIdToDownstreamId.lookup r = some d ∨
      a = .downstream ∧ r = s.server.requestIdFactory ∧ ∃ ms, s.inbox = .openChannel d :: ms := by
  have hr := revises_of_step h
  generalize s'.server = server at hr hl
  cases hr with
  | @asked d' ms _ _ _ hi =>
    rw [Map.lookup_insert_ite] at hl
    split at hl
    case isTrue hr =>
      cases hl
      exact .inr ⟨rfl, hr, ms, hi⟩
    case isFalse => exact .inl hl
  | answered =>
    rw [Map.lookup_erase_ite] at hl
    split at hl
    case isTrue  => cases hl
    case isFalse => exact .inl hl
  | job =>
    rw [storeJob_kept.right.right.right.left] at hl
    exact .inl hl
  | _ => exact .inl hl

theorem updates_of_step (h : s.step C cfg a = some s') {u : PendingTargetUpdate}
    (hu : u ∈ s'.server.pendingTargetUpdates) : u ∈ s.server.pendingTargetUpdates ∨
      a = .serve ∧ ∃ us all immediate ops,
        s.todo = .vardiff ((u.downstreamId, u.newHashrate) :: us) all immediate :: ops := by
  have hr := revises_of_step h
  generalize s'.server = server at hr hu
  cases hr with
  | @served op ops updates ht hs =>
    obtain hu | ⟨us, all, immediate, rfl⟩ := hs u hu
    case inl => exact .inl hu
    case inr => exact .inr ⟨rfl, us, all, immediate, ops, ht⟩
  | job =>
    rw [storeJob_kept.right.right.right.right.left] at hu
    exact .inl hu
  | _ => exact .inl hu

theorem downstreamIdFactory_of_step (h : s.step C cfg a = some s') :
    s.server.downstreamIdFactory ≤ s'.server.downstreamIdFactory := by
  have hr := revises_of_step h
  generalize s'.server = server at hr
  cases hr with
  | accept => exact Nat.le_succ _
  | job    => rw [storeJob_kept.right.right.left]
  | _      => exact Nat.le_refl _

-- An update that the server is about to send has been among the pending ones.
theorem sendPending_of_step (h : s.step C cfg a = some s') {u : PendingTargetUpdate}
    (hr : s'.status = .running) (hu : .sendPending u ∈ s'.todo) :
    .sendPending u ∈ s.todo ∨ u ∈ s.server.pendingTargetUpdates := by
  obtain hns | ⟨op, ops, _, ht, ht'⟩ | ⟨_, ht'⟩ := todo_of_step h
  case inl => exact absurd hr hns
  case inr.inl =>
    rw [ht'] at hu
    cases List.mem_append.mp hu with
    | inr hu => exact .inl (ht ▸ .tail op hu)
    | inl hu =>
      right
      cases spawns_of_mem hu with
      | applied hu => exact (List.mem_filter.mp hu).left
  case inr.inr =>
    rw [ht'] at hu
    cases List.mem_append.mp hu with
    | inr hu => exact .inl hu
    | inl hu =>
      cases begun_of_mem (idle_of_begins hu h) hu

end System

end Translator.Sv1
