import StratumApps.Translator.Sv1.System

open Sv2 Handler StratumCore

namespace Translator.Sv1

theorem mem_elim {α β : Type} {x : Option α} {f : α → List β} {b : β} :
    b ∈ x.elim [] f ↔ ∃ a, x = some a ∧ b ∈ f a := by
  cases x <;> simp

namespace DownstreamData

variable {C : Core} {d : DownstreamData} {validJobs : List Notify} {m : ClientMessage}

-- No message of a miner makes its handler panic.
theorem handleMessage_not_panicked {p : String} :
    (d.handleMessage C validJobs m).1 ≠ .error (.panicked p) := by
  rw [handleMessage]
  cases m.request with
  | configure mask minBit =>
    have hp : (C.versionRollingParams ((mask.map (· &&& versionMask)).getD 0)
        (minBit.getD 0)).isSome := by
      cases mask with
      | none      => simpa using C.rolls 0 (minBit.getD 0)
      | some mask => exact C.rolls mask (minBit.getD 0)
    obtain ⟨params, hp⟩ := Option.isSome_iff_exists.mp hp
    simp [handleConfigure, hp, expect, Except.map]
  | submit share =>
    dsimp only
    split <;> simp
  | _ => simp

-- What the messages of a miner leave alone.
structure Handled (d d' : DownstreamData) : Prop where
  channelId           : d'.channelId = d.channelId
  downstreamId        : d'.downstreamId = d.downstreamId
  target              : d'.target = d.target
  pendingTarget       : d'.pendingTarget = d.pendingTarget
  cachedSetDifficulty : d'.cachedSetDifficulty = d.cachedSetDifficulty
  cachedNotify        : d'.cachedNotify = d.cachedNotify
  complete            : d'.sv1HandshakeComplete = d.sv1HandshakeComplete
  queued              : d'.queuedSv1HandshakeMessages = d.queuedSv1HandshakeMessages
  processing          : d'.processingQueuedSv1HandshakeResponses =
    d.processingQueuedSv1HandshakeResponses
  upstreamTarget      : d'.upstreamTarget = d.upstreamTarget

theorem Handled.refl : Handled d d :=
  ⟨rfl, rfl, rfl, rfl, rfl, rfl, rfl, rfl, rfl, rfl⟩

theorem handleSubmit_handled {share : Submit} : Handled d (d.handleSubmit C validJobs share).2 := by
  rw [handleSubmit]
  split
  case h_1 => exact .refl
  case h_2 => split <;> exact ⟨rfl, rfl, rfl, rfl, rfl, rfl, rfl, rfl, rfl, rfl⟩

theorem handleMessage_handled : Handled d (d.handleMessage C validJobs m).2 := by
  rw [handleMessage]
  split
  case h_6 =>
    split
    case isTrue  => exact handleSubmit_handled
    case isFalse => exact .refl
  all_goals exact ⟨rfl, rfl, rfl, rfl, rfl, rfl, rfl, rfl, rfl, rfl⟩

end DownstreamData

namespace Downstream

variable {C : Core} {o o' : Downstream} {op : DownstreamOp} {validJobs : List Notify}

-- What a task leaves alone, whatever it does next.
structure Keeps (o o' : Downstream) : Prop where
  channelId      : o'.data.channelId = o.data.channelId
  downstreamId   : o'.data.downstreamId = o.data.downstreamId
  upstreamTarget : o'.data.upstreamTarget = o.data.upstreamTarget
  processing     : o'.data.processingQueuedSv1HandshakeResponses =
    o.data.processingQueuedSv1HandshakeResponses

-- What the server leaves to the task.
structure Spares (o o' : Downstream) : Prop where
  todo                : o'.todo = o.todo
  written             : o'.written = o.written
  sent                : o'.sent = o.sent
  runs                : o'.runs = o.runs
  target              : o'.data.target = o.data.target
  cachedSetDifficulty : o'.data.cachedSetDifficulty = o.data.cachedSetDifficulty
  complete            : o'.data.sv1HandshakeComplete = o.data.sv1HandshakeComplete

theorem Spares.refl : Spares o o :=
  ⟨rfl, rfl, rfl, rfl, rfl, rfl, rfl⟩

theorem handleMessage_keeps {m : ClientMessage} : Keeps o (o.handleMessage C validJobs m) := by
  have h : DownstreamData.Handled o.data (o.data.handleMessage C validJobs m).2 :=
    DownstreamData.handleMessage_handled
  rw [handleMessage, onResponse.eq_def]
  split <;> exact ⟨h.channelId, h.downstreamId, h.upstreamTarget, h.processing⟩

theorem exec_keeps : Keeps o (o.exec C validJobs op).1 := by
  cases op with
  | checkEstablished m =>
    rw [exec]
    split <;> exact ⟨rfl, rfl, rfl, rfl⟩
  | checkFirst m =>
    rw [exec]
    split <;> exact ⟨rfl, rfl, rfl, rfl⟩
  | handle m => exact handleMessage_keeps
  | _        => exact ⟨rfl, rfl, rfl, rfl⟩

theorem exec_received : (o.exec C validJobs op).1.received = o.received ∧
    (o.exec C validJobs op).1.sent = o.sent := by
  cases op with
  | checkEstablished m =>
    rw [exec]
    split <;> exact ⟨rfl, rfl⟩
  | checkFirst m =>
    rw [exec]
    split <;> exact ⟨rfl, rfl⟩
  | handle m =>
    rw [exec, handleMessage]
    dsimp only
    rw [onResponse.eq_def]
    split <;> exact ⟨rfl, rfl⟩
  | _ => exact ⟨rfl, rfl⟩

theorem onNotification_keeps {e : Envelope} : Keeps o (o.onNotification e) := by
  rw [onNotification]
  split
  case h_1 => exact ⟨rfl, rfl, rfl, rfl⟩
  case h_2 =>
    dsimp only
    split
    case isTrue  => split <;> exact ⟨rfl, rfl, rfl, rfl⟩
    case isFalse => exact ⟨rfl, rfl, rfl, rfl⟩
  case h_3 => split <;> exact ⟨rfl, rfl, rfl, rfl⟩

theorem onNotification_received {e : Envelope} : (o.onNotification e).received = o.received ∧
    (o.onNotification e).sent = o.sent ∧ (o.onNotification e).processed = o.processed ∧
    (o.onNotification e).written = o.written ∧ (o.onNotification e).runs = o.runs := by
  rw [onNotification]
  split
  case h_1 => exact ⟨rfl, rfl, rfl, rfl, rfl⟩
  case h_2 =>
    dsimp only
    split
    case isTrue  => split <;> exact ⟨rfl, rfl, rfl, rfl, rfl⟩
    case isFalse => exact ⟨rfl, rfl, rfl, rfl, rfl⟩
  case h_3 => split <;> exact ⟨rfl, rfl, rfl, rfl, rfl⟩

theorem handleSv1ServerMessage_cases {e : Envelope} : o.handleSv1ServerMessage e = o ∨
    o.data.accepts e ∧ o.handleSv1ServerMessage e = o.onNotification e := by
  rw [handleSv1ServerMessage]
  split
  case isTrue h => exact .inr ⟨h, rfl⟩
  case isFalse  => exact .inl rfl

-- What a task may do with the next message of the server.
theorem receive_cases (h : o.receive = some o') : ∃ e es, o.received = e :: es ∧ o.runs ∧
    o.todo = [] ∧ (o' = o.ends ∨ o' = { o with received := es }.handleSv1ServerMessage e) := by
  rw [receive.eq_def] at h
  split at h
  case h_1 => cases h
  case h_2 e es hr =>
    obtain ⟨⟨hruns, ht⟩, h⟩ := Option.ite_none_right_eq_some.mp h
    refine ⟨e, es, hr, hruns, ht, ?_⟩
    obtain rfl := Option.some.inj h
    split
    case isTrue  => exact .inl rfl
    case isFalse => exact .inr rfl

theorem receive_keeps (h : o.receive = some o') : Keeps o o' := by
  obtain ⟨e, es, _, _, _, rfl | rfl⟩ := receive_cases h
  case inl => exact ⟨rfl, rfl, rfl, rfl⟩
  case inr =>
    obtain h | ⟨_, h⟩ := handleSv1ServerMessage_cases (o := { o with received := es }) (e := e)
    case inl =>
      rw [h]
      exact ⟨rfl, rfl, rfl, rfl⟩
    case inr =>
      have hk := onNotification_keeps (o := { o with received := es }) (e := e)
      rw [h]
      exact ⟨hk.channelId, hk.downstreamId, hk.upstreamTarget, hk.processing⟩

theorem receive_received (h : o.receive = some o') : o'.received = o.received ∨
    ∃ e, o.received = e :: o'.received := by
  obtain ⟨e, es, hr, _, _, rfl | rfl⟩ := receive_cases h
  case inl => exact .inl rfl
  case inr =>
    obtain h | ⟨_, h⟩ := handleSv1ServerMessage_cases (o := { o with received := es }) (e := e)
    case inl =>
      rw [h]
      exact .inr ⟨e, hr⟩
    case inr =>
      rw [h, onNotification_received.left]
      exact .inr ⟨e, hr⟩

theorem goOn_eq_some {r : Downstream × List DownstreamMessages} (h : o.goOn C validJobs = some r) :
    ∃ op ops, o.todo = op :: ops ∧ o.runs ∧ r = { o with todo := ops }.exec C validJobs op := by
  rw [goOn.eq_def] at h
  split at h
  case h_1 => cases h
  case h_2 op ops ht =>
    obtain ⟨hr, h⟩ := Option.ite_none_right_eq_some.mp h
    exact ⟨op, ops, ht, hr, (Option.some.inj h).symm⟩

theorem take_eq_some {m : ClientMessage} (h : o.take m = some o') : o.runs ∧ o.todo = [] ∧
    o' = { o with sent := o.sent ++ [m], todo := [.checkEstablished m] } := by
  obtain ⟨⟨hr, ht⟩, h⟩ := Option.ite_none_right_eq_some.mp h
  exact ⟨hr, ht, (Option.some.inj h).symm⟩

theorem stop_eq_some (h : o.stop = some o') : o.runs ∧ o.todo = [] ∧ o' = o.ends := by
  obtain ⟨⟨hr, ht⟩, h⟩ := Option.ite_none_right_eq_some.mp h
  exact ⟨hr, ht, (Option.some.inj h).symm⟩

end Downstream

namespace System

variable {C : Core} {cfg : Config} {s s' : System} {d : DownstreamId} {o : Downstream}

section Objects

theorem lookup_modify {f : Downstream → Downstream} {d' : DownstreamId} :
    (s.modify d' f).objects.lookup d =
      (s.objects.lookup d).map fun o => if d' = d then f o else o := by
  by_cases hd : d' = d
  case pos => simp [modify, hd, Map.lookup_modify]
  case neg => simp [modify, Map.lookup_modify_ne (Ne.symm hd), hd]

theorem lookup_broadcast {e : Envelope} : (s.broadcast e).objects.lookup d =
    (s.objects.lookup d).map fun o => { o with received := o.received ++ [e] } :=
  Map.lookup_mapValues

end Objects

-- What the server does to a downstream with one operation.
def served (C : Core) (cfg : Config) (s : System) (d : DownstreamId) (o : Downstream) :
    ServerOp → Downstream
  | .setChannel d' m => if d' = d then { o with data := { o.data with
      extranonce1    := m.extranoncePrefix.1
      extranonce2Len := m.extranonceSize.toNat
      channelId      := some m.channelId
      upstreamTarget := some m.target } } else o
  | .takeQueue d' _ => if d' = d then { o with data := { o.data with
      queuedSv1HandshakeMessages := [] } } else o
  | .setProcessing d' => if d' = d then { o with data := { o.data with
      processingQueuedSv1HandshakeResponses := true } } else o
  | .handleQueued d' _ m => if d' = d then
      let r := o.data.handleMessage C (s.server.validJobs o.data.channelId) m
      { o with data := r.2, processed := o.processed ++ [(m, r.1.toOption.join)] } else o
  | .broadcast e => { o with received := o.received ++ [e] }
  | .setUpstreamTarget d' t => if d' = d ∧ d ∈ s.server.downstreams then { o with data := { o.data with
      upstreamTarget := some t } } else o
  | .forwardTarget d' t => if d' = d ∧ (s.channelIdOf d).isSome then { o with data := { o.data with
      upstreamTarget := some t
      pendingTarget  := some t } } else o
  | .vardiff ((d', h) :: _) _ _ =>
    match (if d' = d ∧ (s.channelIdOf d).isSome then C.hashRateToTarget h cfg.sharesPerMinute
      else none) with
    | some t => { o with data := { o.data with pendingTarget := some t, pendingHashrate := some h } }
    | none   => o
  | _ => o

theorem sendUpdateChannelMessages_objects {all : List (ChannelId × PendingTargetUpdate)} :
    (s.sendUpdateChannelMessages C cfg all).objects = s.objects := by
  rw [sendUpdateChannelMessages.eq_def]
  split
  case isTrue  => split <;> rfl
  case isFalse => rfl

theorem vardiffUpdate_objects {u : PendingTargetUpdate} {c : ChannelId} {t : Option Target} :
    (s.vardiffUpdate C u c t).1.objects = (s.modifyData u.downstreamId fun data =>
      { data with pendingTarget := some u.newTarget, pendingHashrate := some u.newHashrate }).objects := by
  rw [vardiffUpdate]
  split <;> rfl

theorem channelIdOf_eq_some {c : ChannelId} : s.channelIdOf d = some c ↔
    d ∈ s.server.downstreams ∧ ∃ o, s.objects.lookup d = some o ∧ o.data.channelId = some c := by
  by_cases hd : d ∈ s.server.downstreams
  case pos => simp [channelIdOf, getDownstream, hd, Option.bind_eq_some_iff]
  case neg => simp [channelIdOf, getDownstream, hd]

theorem lookup_vardiffRound {d' : DownstreamId} {h : Hashrate} :
    (s.vardiffRound C cfg d' h).1.objects.lookup d = (s.objects.lookup d).map fun o =>
      s.served C cfg d o (.vardiff [(d', h)] [] []) := by
  rw [vardiffRound]
  cases ho : (s.getDownstream d').bind fun o => o.data.channelId.map (·, o.data.upstreamTarget) with
  | none =>
    have hc : s.channelIdOf d' = none := by
      simpa [channelIdOf, Option.bind_eq_none_iff] using ho
    dsimp only
    cases s.objects.lookup d with
    | none   => rfl
    | some o =>
      by_cases hd : d' = d
      case pos =>
        subst hd
        simp [served, hc]
      case neg => simp [served, hd]
  | some r =>
    have hc : (s.channelIdOf d').isSome := by
      obtain ⟨o, ho, hr⟩ := Option.bind_eq_some_iff.mp ho
      obtain ⟨c, hc, _⟩ := Option.map_eq_some_iff.mp hr
      simp [channelIdOf, ho, hc]
    cases ht : C.hashRateToTarget h cfg.sharesPerMinute with
    | none =>
      cases s.objects.lookup d with
      | none   => rfl
      | some o => simp [served, ht]
    | some t =>
      dsimp only
      rw [vardiffUpdate_objects, modifyData, lookup_modify]
      cases s.objects.lookup d with
      | none   => rfl
      | some o =>
        by_cases hd : d' = d
        case pos =>
          subst hd
          simp [served, ht, hc]
        case neg => simp [served, hd]

theorem lookup_exec {op : ServerOp} : (s.exec C cfg op).objects.lookup d =
    (s.objects.lookup d).map fun o => s.served C cfg d o op := by
  cases op with
  | setChannel d' m => exact lookup_modify
  | setProcessing d' => exact lookup_modify
  | broadcast e => exact lookup_broadcast
  | takeQueue d' c =>
    rw [exec, takeQueue]
    split
    case h_1 hq =>
      cases ho : s.objects.lookup d with
      | none   => rfl
      | some o =>
        by_cases hd : d' = d
        case pos =>
          subst hd
          rw [ho] at hq
          have hq : o.data.queuedSv1HandshakeMessages = [] := hq
          simp [served, ← hq]
        case neg => simp [served, hd]
    case h_2 => exact lookup_modify
  | handleQueued d' c m =>
    rw [exec, handleQueued]
    split
    case h_1 hn =>
      cases ho : s.objects.lookup d with
      | none   => rfl
      | some o =>
        have hd : d' ≠ d := by
          rintro rfl
          cases hn.symm.trans ho
        simp [served, hd]
    case h_2 o' ho' =>
      have modified {r : Except (Fault Sv1Error) (Option Response)}
          (hr : (o'.data.handleMessage C (s.server.validJobs o'.data.channelId) m).1 = r) :
          (s.modify d' fun o => { o with
            data := (o'.data.handleMessage C (s.server.validJobs o'.data.channelId) m).2
            processed := o.processed ++ [(m, r.toOption.join)] }).objects.lookup d =
          (s.objects.lookup d).map fun o => s.served C cfg d o (.handleQueued d' c m) := by
        rw [lookup_modify]
        cases ho : s.objects.lookup d with
        | none   => rfl
        | some o =>
          by_cases hd : d' = d
          case pos =>
            subst hd
            cases ho.symm.trans ho'
            simp [served, hr]
          case neg => simp [served, hd]
      dsimp only
      split
      case h_1 hp => exact absurd hp DownstreamData.handleMessage_not_panicked
      case h_2 hr => exact modified hr
      case h_3 hr => exact modified hr
  | sendFirst c =>
    rw [exec, sendFirst]
    split <;> exact Option.map_id'.symm
  | setUpstreamTarget d' t =>
    rw [exec]
    split
    case isTrue hd' =>
      rw [modifyData, lookup_modify]
      cases s.objects.lookup d with
      | none   => rfl
      | some o =>
        by_cases hd : d' = d
        case pos =>
          subst hd
          simp [served, hd']
        case neg => simp [served, hd]
    case isFalse hd' =>
      cases s.objects.lookup d with
      | none   => rfl
      | some o =>
        by_cases hd : d' = d
        case pos =>
          subst hd
          simp [served, hd']
        case neg => simp [served, hd]
  | takePending d' t => exact Option.map_id'.symm
  | sendPending u =>
    rw [exec]
    cases s.channelIdOf u.downstreamId <;> exact Option.map_id'.symm
  | forwardTarget d' t =>
    rw [exec]
    cases hc : s.channelIdOf d' with
    | none =>
      cases ho : s.objects.lookup d with
      | none   => simp [ho]
      | some o =>
        by_cases hd : d' = d
        case pos =>
          subst hd
          simp [served, hc, ho]
        case neg => simp [served, hd, ho]
    | some c =>
      refine Eq.trans (lookup_modify (f := fun o => { o with data :=
        { o.data with upstreamTarget := some t, pendingTarget := some t } })) ?_
      cases s.objects.lookup d with
      | none   => rfl
      | some o =>
        by_cases hd : d' = d
        case pos =>
          subst hd
          simp [served, hc]
        case neg => simp [served, hd]
  | vardiff us all immediate =>
    rw [exec]
    cases us with
    | nil =>
      have ho : ((if all.isEmpty then s else s.sendUpdateChannelMessages C cfg all).next
          (immediate.map .broadcast)).objects = s.objects := by
        split
        case isTrue  => rfl
        case isFalse => exact sendUpdateChannelMessages_objects
      rw [handleVardiff, ho]
      exact Option.map_id'.symm
    | cons u us => exact lookup_vardiffRound

-- What an operation of the server leaves to do.
def follow (C : Core) (cfg : Config) (s : System) : ServerOp → List ServerOp
  | .takeQueue d c => match (s.objects.lookup d).elim [] (·.data.queuedSv1HandshakeMessages) with
    | []      => []
    | m :: ms => .setProcessing d :: (m :: ms).map (.handleQueued d c)
  | .handleQueued d c m => ((s.objects.lookup d).bind fun o =>
      (o.data.handleMessage C (s.server.validJobs o.data.channelId) m).1.toOption.join).toList.map
    fun response => .broadcast ⟨c, some d, .response response⟩
  | .sendFirst c => [.broadcast ⟨c, none, .setDifficulty cfg.firstTarget⟩]
  | .takePending d t => (s.server.applicable d t).map .sendPending
  | .sendPending u => (s.channelIdOf u.downstreamId).elim [] fun c =>
    (setDifficulty C c (some u.downstreamId) u.newTarget).map .broadcast
  | .forwardTarget d t => (s.channelIdOf d).elim [] fun c =>
    (setDifficulty C c (some d) t).map .broadcast
  | .vardiff [] _ immediate => immediate.map .broadcast
  | .vardiff ((d, h) :: us) all immediate =>
    let r := s.vardiffRound C cfg d h
    [.vardiff us (all ++ r.2.1.toList) (immediate ++ r.2.2)]
  | _ => []

-- An operation that another leaves to do.
inductive Spawns (C : Core) (cfg : Config) (s : System) : ServerOp → ServerOp → Prop
  | processing {d : DownstreamId} {c : ChannelId} :
    Spawns C cfg s (.takeQueue d c) (.setProcessing d)
  | queued {d : DownstreamId} {c : ChannelId} {m : ClientMessage} :
    m ∈ (s.objects.lookup d).elim [] (·.data.queuedSv1HandshakeMessages) →
    Spawns C cfg s (.takeQueue d c) (.handleQueued d c m)
  | answered {d : DownstreamId} {c : ChannelId} {m : ClientMessage} {o : Downstream}
      {response : Response} : s.objects.lookup d = some o →
    (o.data.handleMessage C (s.server.validJobs o.data.channelId) m).1.toOption.join =
      some response →
    Spawns C cfg s (.handleQueued d c m) (.broadcast ⟨c, some d, .response response⟩)
  | first {c : ChannelId} :
    Spawns C cfg s (.sendFirst c) (.broadcast ⟨c, none, .setDifficulty cfg.firstTarget⟩)
  | applied {d : Option DownstreamId} {t : Target} {u : PendingTargetUpdate} :
    u ∈ s.server.applicable d t → Spawns C cfg s (.takePending d t) (.sendPending u)
  | pending {u : PendingTargetUpdate} {c : ChannelId} {e : Envelope} :
    s.channelIdOf u.downstreamId = some c →
    e ∈ setDifficulty C c (some u.downstreamId) u.newTarget →
    Spawns C cfg s (.sendPending u) (.broadcast e)
  | forwarded {d : DownstreamId} {t : Target} {c : ChannelId} {e : Envelope} :
    s.channelIdOf d = some c → e ∈ setDifficulty C c (some d) t →
    Spawns C cfg s (.forwardTarget d t) (.broadcast e)
  | immediate {all : List (ChannelId × PendingTargetUpdate)} {immediate : List Envelope}
      {e : Envelope} : e ∈ immediate → Spawns C cfg s (.vardiff [] all immediate) (.broadcast e)
  | round {d : DownstreamId} {h : Hashrate} {us : List (DownstreamId × Hashrate)}
      {all : List (ChannelId × PendingTargetUpdate)} {immediate : List Envelope} :
    Spawns C cfg s (.vardiff ((d, h) :: us) all immediate)
      (.vardiff us (all ++ (s.vardiffRound C cfg d h).2.1.toList)
        (immediate ++ (s.vardiffRound C cfg d h).2.2))

theorem spawns_of_mem {op op' : ServerOp} (h : op' ∈ s.follow C cfg op) : Spawns C cfg s op op' := by
  cases op with
  | takeQueue d c =>
    rw [follow] at h
    split at h
    case h_1 => cases h
    case h_2 m ms hq =>
      cases h with
      | head _   => exact .processing
      | tail _ h =>
        obtain ⟨m', hm, rfl⟩ := List.mem_map.mp h
        exact .queued (hq ▸ hm)
  | handleQueued d c m =>
    obtain ⟨r, hr, rfl⟩ := List.mem_map.mp h
    obtain ⟨o, ho, hr⟩ := Option.bind_eq_some_iff.mp (Option.mem_toList.mp hr)
    exact .answered ho hr
  | sendFirst c =>
    cases List.mem_singleton.mp h
    exact .first
  | takePending d t =>
    obtain ⟨u, hu, rfl⟩ := List.mem_map.mp h
    exact .applied hu
  | sendPending u =>
    obtain ⟨c, hc, h⟩ := mem_elim.mp h
    obtain ⟨e, he, rfl⟩ := List.mem_map.mp h
    exact .pending hc he
  | forwardTarget d t =>
    obtain ⟨c, hc, h⟩ := mem_elim.mp h
    obtain ⟨e, he, rfl⟩ := List.mem_map.mp h
    exact .forwarded hc he
  | vardiff us all immediate =>
    cases us with
    | nil =>
      obtain ⟨e, he, rfl⟩ := List.mem_map.mp h
      exact .immediate he
    | cons u us =>
      cases List.mem_singleton.mp h
      exact .round
  | _ => cases h

theorem vardiffRound_todo {h : Hashrate} : (s.vardiffRound C cfg d h).1.todo = s.todo ∧
    (s.vardiffRound C cfg d h).1.status = s.status := by
  rw [vardiffRound]
  split
  case h_1 =>
    dsimp only
    rw [vardiffUpdate]
    split <;> exact ⟨rfl, rfl⟩
  case h_2 => exact ⟨rfl, rfl⟩

theorem sendUpdateChannelMessages_todo {all : List (ChannelId × PendingTargetUpdate)} :
    (s.sendUpdateChannelMessages C cfg all).todo = s.todo ∨
      (s.sendUpdateChannelMessages C cfg all).status ≠ .running := by
  rw [sendUpdateChannelMessages.eq_def]
  split
  case isTrue =>
    split
    case h_2 => exact .inr (by simp [fail])
    all_goals exact .inl rfl
  case isFalse => exact .inl rfl

-- The operation has ended the server, or what it leaves to do comes first.
theorem exec_todo {op : ServerOp} : (s.exec C cfg op).status ≠ .running ∨
    (s.exec C cfg op).todo = s.follow C cfg op ++ s.todo := by
  cases op with
  | takeQueue d c =>
    rw [exec, takeQueue.eq_def, follow]
    -- Both sides look at the same queue.
    cases (s.objects.lookup d).elim [] (·.data.queuedSv1HandshakeMessages) with
    | nil  => exact .inr rfl
    | cons => exact .inr rfl
  | handleQueued d c m =>
    rw [exec, handleQueued.eq_def, follow]
    split
    case h_1 hn => exact .inr (by simp [hn])
    case h_2 o ho =>
      dsimp only
      split
      case h_1 => exact .inl (by simp [fail])
      case h_2 hr => exact .inr (by simp [ho, hr, modify, Except.toOption])
      case h_3 hr => exact .inr (by simp [ho, hr, modify, next, Except.toOption])
  | sendFirst c =>
    rw [exec, sendFirst]
    split
    case isTrue  => exact .inr rfl
    case isFalse => exact .inl (by simp [fail])
  | setUpstreamTarget d t =>
    rw [exec]
    split <;> exact .inr rfl
  | sendPending u =>
    rw [exec, follow]
    cases s.channelIdOf u.downstreamId <;> exact .inr rfl
  | forwardTarget d t =>
    rw [exec, follow]
    cases s.channelIdOf d <;> exact .inr rfl
  | vardiff us all immediate =>
    rw [exec]
    cases us with
    | nil =>
      rw [handleVardiff, follow]
      split
      case isTrue  => exact .inr rfl
      case isFalse =>
        cases sendUpdateChannelMessages_todo with
        | inl h => exact .inr (congrArg _ h)
        | inr h => exact .inl h
    | cons u us => exact .inr (congrArg _ vardiffRound_todo.left)
  | _ => exact .inr rfl

-- What an action gives the server to do.
def begins (C : Core) (cfg : Config) (s : System) : Action → List ServerOp
  | .upstream (.openExtendedMiningChannelSuccess m) =>
    ((s.server.requestIdToDownstreamId.lookup m.requestId).filter fun d =>
      (s.getDownstream d).isSome).elim [] fun d =>
        [.setChannel d m, .takeQueue d m.channelId, .sendFirst m.channelId]
  | .upstream (.newExtendedMiningJob m) =>
    (s.server.prevhash.bind fun p => C.buildSv1NotifyFromSv2 p m s.server.cleanJob).elim []
      fun notify => [.broadcast ⟨m.channelId, none, .notify notify⟩]
  | .upstream (.setTarget m) => (s.handleSetTarget cfg m).todo
  | .tick updates            => [.vardiff updates [] []]
  | _                        => []

variable {a : Action}

theorem idle_eq_some {s₁ s₂ : System} (h : s.idle s₁ = some s₂) :
    s.status = .running ∧ s.todo = [] ∧ s₂ = s₁ := by
  obtain ⟨⟨hs, ht⟩, h⟩ := Option.ite_none_right_eq_some.mp h
  exact ⟨hs, ht, (Option.some.inj h).symm⟩

theorem update_eq_some {f : Downstream → Option Downstream} (h : s.update d f = some s') :
    ∃ o o', s.objects.lookup d = some o ∧ f o = some o' ∧ s' = s.replace d o' := by
  obtain ⟨o', ho', rfl⟩ := Option.map_eq_some_iff.mp h
  obtain ⟨o, ho, hf⟩ := Option.bind_eq_some_iff.mp ho'
  exact ⟨o, o', ho, hf, rfl⟩

theorem task_eq_some (h : s.task C d = some s') :
    ∃ o r, s.objects.lookup d = some o ∧ o.goOn C (s.server.validJobs o.data.channelId) = some r ∧
      s' = { s.replace d r.1 with inbox := s.inbox ++ r.2 } := by
  obtain ⟨r, hr, rfl⟩ := Option.map_eq_some_iff.mp h
  obtain ⟨o, ho, hr⟩ := Option.bind_eq_some_iff.mp hr
  exact ⟨o, r, ho, hr, rfl⟩

theorem serve_eq_some (h : s.step C cfg .serve = some s') : ∃ op ops, s.todo = op :: ops ∧
    s.status = .running ∧ s' = { s with todo := ops }.exec C cfg op := by
  rw [step] at h
  split at h
  case h_1 => cases h
  case h_2 op ops hs =>
    obtain ⟨hr, h⟩ := Option.ite_none_right_eq_some.mp h
    exact ⟨op, ops, hs, hr, (Option.some.inj h).symm⟩

theorem serve_of_todo {op : ServerOp} {ops : List ServerOp} (h : s.step C cfg .serve = some s')
    (ht : s.todo = op :: ops) :
    s.status = .running ∧ s' = { s with todo := ops }.exec C cfg op := by
  obtain ⟨_, _, ht', hr, rfl⟩ := serve_eq_some h
  cases ht.symm.trans ht'
  exact ⟨hr, rfl⟩

-- The upstream may hear of a shutdown, and the server forgets the downstream.
theorem downstreamShutdown_forwards : ∃ forwarded, s.downstreamShutdown C cfg d = { s with
    server    := { s.server with
      vardiff     := if cfg.enableVardiff then s.server.vardiff.filter (· ≠ d) else s.server.vardiff
      downstreams := s.server.downstreams.filter (· ≠ d) }
    forwarded := forwarded } := by
  have closed (s₁ : System) :
      ∃ forwarded, s₁.closeChannel cfg d = { s₁ with forwarded := forwarded } := by
    rw [closeChannel]
    split
    case h_1 => split <;> exact ⟨_, rfl⟩
    case h_2 => exact ⟨_, rfl⟩
  have updated (s₁ : System) : ∃ forwarded,
      s₁.sendUpdateChannelOnDownstreamStateChange C cfg = { s₁ with forwarded := forwarded } := by
    rw [sendUpdateChannelOnDownstreamStateChange]
    split
    case isTrue  => split <;> exact ⟨_, rfl⟩
    case isFalse => exact ⟨_, rfl⟩
  rw [downstreamShutdown]
  dsimp only
  split
  case isFalse => exact ⟨_, rfl⟩
  case isTrue  =>
    split
    case isFalse => exact closed _
    case isTrue  =>
      obtain ⟨forwarded, hu⟩ := updated _
      rw [hu]
      exact closed _

theorem downstreamShutdown_todo : (s.downstreamShutdown C cfg d).todo = s.todo ∧
    (s.downstreamShutdown C cfg d).objects = s.objects ∧
    (s.downstreamShutdown C cfg d).status = s.status := by
  have h : ∃ forwarded, s.downstreamShutdown C cfg d = _ := downstreamShutdown_forwards
  obtain ⟨_, h⟩ := h
  rw [h]
  exact ⟨rfl, rfl, rfl⟩

theorem submitShare_eq_ok {m : SubmitShareWithChannelId} (h : s.submitShare C cfg m = .ok s') :
    s'.todo = s.todo ∧ s'.objects = s.objects ∧ s'.status = s.status := by
  rw [submitShare] at h
  split at h
  case h_1 =>
    cases h
    exact ⟨rfl, rfl, rfl⟩
  case h_2 =>
    simp only [bind_eq_ok, pure_eq_ok] at h
    obtain ⟨_, _, _, _, rfl⟩ := h
    exact ⟨rfl, rfl, rfl⟩

theorem handleOpenChannelRequest_todo : (s.handleOpenChannelRequest C cfg d).todo = s.todo ∧
    (s.handleOpenChannelRequest C cfg d).status = s.status := by
  rw [handleOpenChannelRequest]
  dsimp only
  split
  case isTrue =>
    rw [openExtendedMiningChannel]
    dsimp only
    split <;> exact ⟨rfl, rfl⟩
  case isFalse => exact ⟨rfl, rfl⟩

theorem handleDownstreamMessage_todo {m : DownstreamMessages} :
    (s.handleDownstreamMessage C cfg m).status ≠ .running ∨
      (s.handleDownstreamMessage C cfg m).todo = s.todo := by
  cases m with
  | openChannel d => exact .inr handleOpenChannelRequest_todo.left
  | submitShares m =>
    rw [handleDownstreamMessage, handleSubmitShares]
    split
    case h_1 hs => exact .inr (submitShare_eq_ok hs).left
    case h_2    => exact .inl (by simp [fail])

theorem handleSetTarget_todo {m : SetTarget} (ht : s.todo = []) :
    (s.handleSetTarget cfg m).todo = s.begins C cfg (.upstream (.setTarget m)) ++ s.todo := by
  rw [begins, ht, List.append_nil]

theorem handleUpstreamMessage_todo {m : Mining} (ht : s.todo = []) :
    (s.handleUpstreamMessage C cfg m).status ≠ .running ∨
      (s.handleUpstreamMessage C cfg m).todo = s.begins C cfg (.upstream m) ++ s.todo := by
  cases m with
  | openExtendedMiningChannelSuccess m =>
    rw [handleUpstreamMessage, handleOpenExtendedMiningChannelSuccess.eq_def, begins]
    split
    case h_1 => exact .inl (by simp [fail])
    case h_2 d hd =>
      right
      dsimp only
      split
      case isTrue hg =>
        have hg : (s.getDownstream d).isSome := hg
        simp [hd, hg, next, Option.filter]
      case isFalse hg =>
        have hg : ¬(s.getDownstream d).isSome := hg
        simp [hd, hg, Option.filter]
  | newExtendedMiningJob m =>
    rw [handleUpstreamMessage, handleNewExtendedMiningJob.eq_def, begins]
    split
    case h_1 hp => exact .inr (by simp [hp])
    case h_2 p hp =>
      split
      case h_1 hn => exact .inl (by simp [fail])
      case h_2 n hn => exact .inr (by simp [hp, hn, next])
  | setNewPrevHash m => exact .inr rfl
  | setTarget m      => exact .inr (handleSetTarget_todo ht)
  | _                => exact .inl (by simp [handleUpstreamMessage, fail])

-- A step has ended the server; or the server has gone on with what comes first; or the action gives
-- it something to do.
theorem todo_of_step (h : s.step C cfg a = some s') : s'.status ≠ .running ∨
    (∃ op ops, a = .serve ∧ s.todo = op :: ops ∧
      s'.todo = { s with todo := ops }.follow C cfg op ++ ops) ∨
    (a ≠ .serve ∧ s'.todo = s.begins C cfg a ++ s.todo) := by
  cases a with
  | serve =>
    obtain ⟨op, ops, hs, _, rfl⟩ := serve_eq_some h
    have ht : ({ s with todo := ops }.exec C cfg op).status ≠ .running ∨ _ := exec_todo
    cases ht with
    | inl h => exact .inl h
    | inr h => exact .inr (.inl ⟨op, ops, rfl, hs, h⟩)
  | miner d m | receive d | stop d =>
    obtain ⟨_, _, _, _, rfl⟩ := update_eq_some h
    exact .inr (.inr ⟨by simp, rfl⟩)
  | task d =>
    obtain ⟨_, _, _, _, rfl⟩ := task_eq_some h
    exact .inr (.inr ⟨by simp, rfl⟩)
  | accept | fallback =>
    obtain ⟨_, _, rfl⟩ := idle_eq_some h
    exact .inr (.inr ⟨by simp, rfl⟩)
  | downstream =>
    rw [step] at h
    split at h
    case h_1 => cases h
    case h_2 m ms _ =>
      obtain ⟨_, _, rfl⟩ := idle_eq_some h
      have ht : ({ s with inbox := ms }.handleDownstreamMessage C cfg m).status ≠ .running ∨ _ :=
        handleDownstreamMessage_todo
      cases ht with
      | inl h => exact .inl h
      | inr h => exact .inr (.inr ⟨by simp, h⟩)
  | upstream m =>
    obtain ⟨_, ht, rfl⟩ := idle_eq_some h
    have ht : (s.handleUpstreamMessage C cfg m).status ≠ .running ∨ _ :=
      handleUpstreamMessage_todo ht
    cases ht with
    | inl h => exact .inl h
    | inr h => exact .inr (.inr ⟨by simp, h⟩)
  | tick updates =>
    obtain ⟨_, h⟩ := Option.ite_none_right_eq_some.mp h
    obtain ⟨_, _, rfl⟩ := idle_eq_some h
    exact .inr (.inr ⟨by simp, rfl⟩)
  | downstreamShutdown d =>
    obtain ⟨_, _, rfl⟩ := idle_eq_some h
    exact .inr (.inr ⟨by simp, downstreamShutdown_todo.left⟩)

theorem running_of_step (h : s.step C cfg a = some s') (hr : s'.status = .running) :
    s.status = .running := by
  cases a with
  | miner d m | receive d | stop d =>
    obtain ⟨_, _, _, _, rfl⟩ := update_eq_some h
    exact hr
  | task d =>
    obtain ⟨_, _, _, _, rfl⟩ := task_eq_some h
    exact hr
  | serve =>
    obtain ⟨_, _, _, hs, _⟩ := serve_eq_some h
    exact hs
  | downstream =>
    rw [step] at h
    split at h
    case h_1 => cases h
    case h_2 => exact (idle_eq_some h).left
  | tick updates =>
    obtain ⟨_, h⟩ := Option.ite_none_right_eq_some.mp h
    exact (idle_eq_some h).left
  | _ => exact (idle_eq_some h).left

theorem idle_of_begins {op : ServerOp} (ho : op ∈ s.begins C cfg a)
    (h : s.step C cfg a = some s') : s.todo = [] := by
  cases a with
  | upstream m => exact (idle_eq_some h).right.left
  | tick us =>
    obtain ⟨_, h⟩ := Option.ite_none_right_eq_some.mp h
    exact (idle_eq_some h).right.left
  | _ => cases ho

theorem begins_of_busy (h : s.step C cfg a = some s') (ht : s.todo ≠ []) : s.begins C cfg a = [] := by
  rw [List.eq_nil_iff_forall_not_mem]
  exact fun _ ho => ht (idle_of_begins ho h)

theorem idle_of_begins_cons {op : ServerOp} {ops : List ServerOp}
    (hb : s.begins C cfg a = op :: ops) (h : s.step C cfg a = some s') : s.todo = [] := by
  have ho : op ∈ s.begins C cfg a := hb ▸ List.mem_cons_self
  exact idle_of_begins ho h

-- An operation that an action gives the server to do.
inductive Begun (C : Core) (cfg : Config) (s : System) : Action → ServerOp → Prop
  | setChannel {m : OpenExtendedMiningChannelSuccess} {d : DownstreamId} :
    s.server.requestIdToDownstreamId.lookup m.requestId = some d →
    Begun C cfg s (.upstream (.openExtendedMiningChannelSuccess m)) (.setChannel d m)
  | takeQueue {m : OpenExtendedMiningChannelSuccess} {d : DownstreamId} :
    s.server.requestIdToDownstreamId.lookup m.requestId = some d →
    Begun C cfg s (.upstream (.openExtendedMiningChannelSuccess m)) (.takeQueue d m.channelId)
  | sendFirst {m : OpenExtendedMiningChannelSuccess} :
    Begun C cfg s (.upstream (.openExtendedMiningChannelSuccess m)) (.sendFirst m.channelId)
  | notify {m : NewExtendedMiningJob} {n : Notify} :
    (s.server.prevhash.bind fun p => C.buildSv1NotifyFromSv2 p m s.server.cleanJob) = some n →
    Begun C cfg s (.upstream (.newExtendedMiningJob m)) (.broadcast ⟨m.channelId, none, .notify n⟩)
  | setUpstreamTarget {m : SetTarget} {d : DownstreamId} : cfg.enableVardiff →
    Begun C cfg s (.upstream (.setTarget m)) (.setUpstreamTarget d m.maximumTarget)
  | takePending {m : SetTarget} {d : Option DownstreamId} : cfg.enableVardiff →
    Begun C cfg s (.upstream (.setTarget m)) (.takePending d m.maximumTarget)
  | forwardTarget {m : SetTarget} {d : DownstreamId} : cfg.enableVardiff = false →
    Begun C cfg s (.upstream (.setTarget m)) (.forwardTarget d m.maximumTarget)
  | tick {us : List (DownstreamId × Hashrate)} : Begun C cfg s (.tick us) (.vardiff us [] [])

theorem setTarget_begun {m : SetTarget} {op : ServerOp} (ht : s.todo = [])
    (h : op ∈ s.begins C cfg (.upstream (.setTarget m))) :
    Begun C cfg s (.upstream (.setTarget m)) op := by
  rw [begins, handleSetTarget] at h
  split at h <;> simp only [next, ht, List.append_nil] at h
  case h_1 hv _ =>
    cases List.mem_append.mp h with
    | inl h =>
      obtain ⟨d, _, rfl⟩ := List.mem_map.mp h
      exact .setUpstreamTarget hv
    | inr h =>
      cases List.mem_singleton.mp h
      exact .takePending hv
  case h_2 hv _ =>
    obtain ⟨d, _, h⟩ := mem_elim.mp h
    cases List.mem_pair.mp h with
    | inl h => exact h ▸ .setUpstreamTarget hv
    | inr h => exact h ▸ .takePending hv
  case h_3 hv _ =>
    obtain ⟨d, _, rfl⟩ := List.mem_map.mp h
    exact .forwardTarget hv
  case h_4 hv _ =>
    obtain ⟨d, _, h⟩ := mem_elim.mp h
    cases List.mem_singleton.mp h
    exact .forwardTarget hv

theorem begun_of_mem {op : ServerOp} (ht : s.todo = []) (h : op ∈ s.begins C cfg a) :
    Begun C cfg s a op := by
  cases a with
  | upstream m =>
    cases m with
    | openExtendedMiningChannelSuccess m =>
      obtain ⟨d, hd, h⟩ := mem_elim.mp h
      have hd := (Option.filter_eq_some_iff.mp hd).left
      simp only [List.mem_cons, List.not_mem_nil, or_false] at h
      obtain rfl | rfl | rfl := h
      case inl     => exact .setChannel hd
      case inr.inl => exact .takeQueue hd
      case inr.inr => exact .sendFirst
    | newExtendedMiningJob m =>
      obtain ⟨n, hn, h⟩ := mem_elim.mp h
      cases List.mem_singleton.mp h
      exact .notify hn
    | setTarget m => exact setTarget_begun ht h
    | _           => cases h
  | tick us =>
    cases List.mem_singleton.mp h
    exact .tick
  | _ => cases h

-- What a step may do to a downstream.
inductive Evolves (C : Core) (cfg : Config) (s : System) (d : DownstreamId) :
    Action → Downstream → Downstream → Prop
  | took {m : ClientMessage} {o o' : Downstream} : o.take m = some o' →
    Evolves C cfg s d (.miner d m) o o'
  | wentOn {o : Downstream} {r : Downstream × List DownstreamMessages} :
    o.goOn C (s.server.validJobs o.data.channelId) = some r → Evolves C cfg s d (.task d) o r.1
  | received {o o' : Downstream} : o.receive = some o' → Evolves C cfg s d (.receive d) o o'
  | stopped {o o' : Downstream} : o.stop = some o' → Evolves C cfg s d (.stop d) o o'
  | served {op : ServerOp} {ops : List ServerOp} {o : Downstream} : s.todo = op :: ops →
    Evolves C cfg s d .serve o ({ s with todo := ops }.served C cfg d o op)
  | named {name : String} {o : Downstream} :
    Evolves C cfg s d .downstream o { o with data := { o.data with userIdentity := name } }
  | kept {a : Action} {o : Downstream} : (∀ m, a ≠ .miner d m) → a ≠ .task d → a ≠ .receive d →
    a ≠ .stop d → a ≠ .serve → Evolves C cfg s d a o o

theorem lookup_replace {o : Downstream} {d' : DownstreamId} :
    (s.replace d' o).objects.lookup d = if d = d' then some o else s.objects.lookup d :=
  Map.lookup_insert_ite

theorem handleOpenChannelRequest_lookup {d' : DownstreamId} {o' : Downstream}
    (h : (s.handleOpenChannelRequest C cfg d').objects.lookup d = some o') :
    ∃ o name, s.objects.lookup d = some o ∧ o' = { o with data := { o.data with
      userIdentity := name } } := by
  have kept (h : s.objects.lookup d = some o') : ∃ o name, s.objects.lookup d = some o ∧
      o' = { o with data := { o.data with userIdentity := name } } :=
    ⟨o', o'.data.userIdentity, h, rfl⟩
  have named {s₁ : System} {name : String} (hs : s₁.objects = s.objects)
      (h : (s₁.modifyData d' fun data => { data with userIdentity := name }).objects.lookup d =
        some o') :
      ∃ o name, s.objects.lookup d = some o ∧ o' = { o with data := { o.data with
        userIdentity := name } } := by
    rw [modifyData, lookup_modify, hs] at h
    obtain ⟨o, ho, rfl⟩ := Option.map_eq_some_iff.mp h
    split
    case isTrue  => exact ⟨o, name, ho, rfl⟩
    case isFalse => exact ⟨o, o.data.userIdentity, ho, rfl⟩
  rw [handleOpenChannelRequest] at h
  dsimp only at h
  split at h
  case isFalse => exact kept h
  case isTrue =>
    rw [openExtendedMiningChannel] at h
    dsimp only at h
    split at h
    case h_1 => exact named rfl h
    case h_2 => exact named rfl h

theorem handleUpstreamMessage_objects {m : Mining} :
    (s.handleUpstreamMessage C cfg m).objects = s.objects := by
  cases m with
  | openExtendedMiningChannelSuccess m =>
    rw [handleUpstreamMessage, handleOpenExtendedMiningChannelSuccess.eq_def]
    split
    case h_1 => rfl
    case h_2 =>
      dsimp only
      split <;> rfl
  | newExtendedMiningJob m =>
    rw [handleUpstreamMessage, handleNewExtendedMiningJob.eq_def]
    split
    case h_1 => rfl
    case h_2 => split <;> rfl
  | setTarget m =>
    rw [handleUpstreamMessage, handleSetTarget]
    split <;> rfl
  | _ => rfl

-- Every downstream is a new one, or was there before and has evolved.
theorem evolves_of_step (h : s.step C cfg a = some s') {o' : Downstream}
    (ho' : s'.objects.lookup d = some o') :
    (a = .accept ∧ d = s.server.downstreamIdFactory ∧
      o' = .new d cfg.firstTarget (some cfg.minIndividualMinerHashrate)) ∨
    ∃ o, s.objects.lookup d = some o ∧ Evolves C cfg s d a o o' := by
  have others {a : Action} {d' : DownstreamId} {o o₁ : Downstream} {f : Downstream → Option Downstream}
      (hs : s.objects.lookup d' = some o) (hf : f o = some o₁)
      (ho' : (s.replace d' o₁).objects.lookup d = some o')
      (he : ∀ o o₁, f o = some o₁ → Evolves C cfg s d' a o o₁)
      (hk : d ≠ d' → Evolves C cfg s d a o' o') :
      ∃ o, s.objects.lookup d = some o ∧ Evolves C cfg s d a o o' := by
    rw [lookup_replace] at ho'
    split at ho'
    case isTrue hd =>
      subst hd
      cases ho'
      exact ⟨o, hs, he _ _ hf⟩
    case isFalse hd => exact ⟨o', ho', hk hd⟩
  cases a with
  | accept =>
    obtain ⟨_, _, rfl⟩ := idle_eq_some h
    rw [accept, Map.lookup_insert_ite] at ho'
    split at ho'
    case isTrue hd =>
      subst hd
      cases ho'
      exact .inl ⟨rfl, rfl, rfl⟩
    case isFalse => exact .inr ⟨o', ho', .kept (by simp) (by simp) (by simp) (by simp) (by simp)⟩
  | miner d' m =>
    obtain ⟨o, o₁, hs, hf, rfl⟩ := update_eq_some h
    refine .inr (others hs hf ho' (fun _ _ h => .took h) fun hd => ?_)
    exact .kept (by simp [Ne.symm hd]) (by simp) (by simp) (by simp) (by simp)
  | receive d' =>
    obtain ⟨o, o₁, hs, hf, rfl⟩ := update_eq_some h
    refine .inr (others hs hf ho' (fun _ _ h => .received h) fun hd => ?_)
    exact .kept (by simp) (by simp) (by simp [Ne.symm hd]) (by simp) (by simp)
  | stop d' =>
    obtain ⟨o, o₁, hs, hf, rfl⟩ := update_eq_some h
    refine .inr (others hs hf ho' (fun _ _ h => .stopped h) fun hd => ?_)
    exact .kept (by simp) (by simp) (by simp) (by simp [Ne.symm hd]) (by simp)
  | task d' =>
    obtain ⟨o, r, hs, hf, rfl⟩ := task_eq_some h
    have hl : (s.replace d' r.1).objects.lookup d = some o' := ho'
    rw [lookup_replace] at hl
    split at hl
    case isTrue hd =>
      subst hd
      obtain rfl := Option.some.inj hl
      exact .inr ⟨o, hs, .wentOn hf⟩
    case isFalse hd =>
      exact .inr ⟨o', hl, .kept (by simp) (by simp [Ne.symm hd]) (by simp) (by simp) (by simp)⟩
  | serve =>
    obtain ⟨op, ops, hs, _, rfl⟩ := serve_eq_some h
    rw [lookup_exec] at ho'
    obtain ⟨o, ho, rfl⟩ := Option.map_eq_some_iff.mp ho'
    exact .inr ⟨o, ho, .served hs⟩
  | downstream =>
    rw [step] at h
    split at h
    case h_1 => cases h
    case h_2 m ms _ =>
      obtain ⟨_, _, rfl⟩ := idle_eq_some h
      cases m with
      | openChannel d' =>
        obtain ⟨o, name, ho, rfl⟩ := handleOpenChannelRequest_lookup ho'
        exact .inr ⟨o, ho, .named⟩
      | submitShares m =>
        have ho : (({ s with inbox := ms }.handleSubmitShares C cfg m)).objects = s.objects := by
          rw [handleSubmitShares]
          split
          case h_1 hs => exact (submitShare_eq_ok hs).right.left
          case h_2    => rfl
        have ho' : (({ s with inbox := ms }.handleSubmitShares C cfg m)).objects.lookup d = some o' := ho'
        rw [ho] at ho'
        exact .inr ⟨o', ho', .kept (by simp) (by simp) (by simp) (by simp) (by simp)⟩
  | upstream m =>
    obtain ⟨_, _, rfl⟩ := idle_eq_some h
    rw [handleUpstreamMessage_objects] at ho'
    exact .inr ⟨o', ho', .kept (by simp) (by simp) (by simp) (by simp) (by simp)⟩
  | tick updates =>
    obtain ⟨_, h⟩ := Option.ite_none_right_eq_some.mp h
    obtain ⟨_, _, rfl⟩ := idle_eq_some h
    exact .inr ⟨o', ho', .kept (by simp) (by simp) (by simp) (by simp) (by simp)⟩
  | downstreamShutdown d' =>
    obtain ⟨_, _, rfl⟩ := idle_eq_some h
    rw [downstreamShutdown_todo.right.left] at ho'
    exact .inr ⟨o', ho', .kept (by simp) (by simp) (by simp) (by simp) (by simp)⟩
  | fallback =>
    obtain ⟨_, _, rfl⟩ := idle_eq_some h
    exact .inr ⟨o', ho', .kept (by simp) (by simp) (by simp) (by simp) (by simp)⟩

theorem handleOpenChannelRequest_objects {d' : DownstreamId} :
    (s.handleOpenChannelRequest C cfg d').objects = s.objects ∨
      ∃ name, (s.handleOpenChannelRequest C cfg d').objects =
        (s.modifyData d' fun data => { data with userIdentity := name }).objects := by
  rw [handleOpenChannelRequest]
  dsimp only
  split
  case isFalse => exact .inl rfl
  case isTrue =>
    right
    rw [openExtendedMiningChannel]
    dsimp only
    split <;> exact ⟨_, rfl⟩

theorem handleDownstreamMessage_isSome {m : DownstreamMessages} (ho : (s.objects.lookup d).isSome) :
    ((s.handleDownstreamMessage C cfg m).objects.lookup d).isSome := by
  cases m with
  | submitShares m =>
    rw [handleDownstreamMessage, handleSubmitShares]
    split
    case h_1 hs =>
      rw [(submitShare_eq_ok hs).right.left]
      exact ho
    case h_2 => exact ho
  | openChannel d' =>
    rw [handleDownstreamMessage]
    have ho' : (s.handleOpenChannelRequest C cfg d').objects = s.objects ∨ _ :=
      handleOpenChannelRequest_objects
    obtain hs | ⟨name, hs⟩ := ho'
    case inl =>
      rw [hs]
      exact ho
    case inr =>
      rw [hs, modifyData, lookup_modify, Option.isSome_map]
      exact ho

-- No downstream is ever forgotten altogether.
theorem lookup_isSome_of_step (h : s.step C cfg a = some s') (ho : (s.objects.lookup d).isSome) :
    (s'.objects.lookup d).isSome := by
  have replaced {o : Downstream} {d' : DownstreamId} :
      ((s.replace d' o).objects.lookup d).isSome := by
    rw [lookup_replace]
    split
    case isTrue  => rfl
    case isFalse => exact ho
  cases a with
  | miner d' m | receive d' | stop d' =>
    obtain ⟨_, _, _, _, rfl⟩ := update_eq_some h
    exact replaced
  | task d' =>
    obtain ⟨_, _, _, _, rfl⟩ := task_eq_some h
    exact replaced
  | accept =>
    obtain ⟨_, _, rfl⟩ := idle_eq_some h
    rw [accept, Map.lookup_insert_ite]
    split
    case isTrue  => rfl
    case isFalse => exact ho
  | serve =>
    obtain ⟨_, _, _, _, rfl⟩ := serve_eq_some h
    rw [lookup_exec, Option.isSome_map]
    exact ho
  | downstream =>
    rw [step] at h
    split at h
    case h_1 => cases h
    case h_2 =>
      obtain ⟨_, _, rfl⟩ := idle_eq_some h
      exact handleDownstreamMessage_isSome ho
  | upstream m =>
    obtain ⟨_, _, rfl⟩ := idle_eq_some h
    rw [handleUpstreamMessage_objects]
    exact ho
  | tick updates =>
    obtain ⟨_, h⟩ := Option.ite_none_right_eq_some.mp h
    obtain ⟨_, _, rfl⟩ := idle_eq_some h
    exact ho
  | downstreamShutdown d' =>
    obtain ⟨_, _, rfl⟩ := idle_eq_some h
    rw [downstreamShutdown_todo.right.left]
    exact ho
  | fallback =>
    obtain ⟨_, _, rfl⟩ := idle_eq_some h
    exact ho

section Frames

variable {o' : Downstream} {op : ServerOp}

theorem served_spares : Downstream.Spares o (s.served C cfg d o op) := by
  cases op with
  | handleQueued d' c m =>
    have hm : DownstreamData.Handled o.data
        (o.data.handleMessage C (s.server.validJobs o.data.channelId) m).2 :=
      DownstreamData.handleMessage_handled
    rw [served]
    split
    case isTrue  => exact ⟨rfl, rfl, rfl, rfl, hm.target, hm.cachedSetDifficulty, hm.complete⟩
    case isFalse => exact .refl
  | vardiff us all immediate =>
    cases us with
    | nil       => exact .refl
    | cons u us =>
      rw [served]
      split <;> exact ⟨rfl, rfl, rfl, rfl, rfl, rfl, rfl⟩
  | setChannel d' _ | takeQueue d' _ | setProcessing d' | setUpstreamTarget d' _
  | forwardTarget d' _ =>
    rw [served]
    split <;> exact ⟨rfl, rfl, rfl, rfl, rfl, rfl, rfl⟩
  | _ => exact ⟨rfl, rfl, rfl, rfl, rfl, rfl, rfl⟩

theorem served_channelId : (s.served C cfg d o op).data.channelId = o.data.channelId ∨
    ∃ m, op = .setChannel d m ∧ (s.served C cfg d o op).data.channelId = some m.channelId := by
  cases op with
  | setChannel d' m =>
    by_cases hd : d' = d
    case pos =>
      subst hd
      exact .inr ⟨m, rfl, by simp [served]⟩
    case neg => exact .inl (by simp [served, hd])
  | handleQueued d' c m =>
    left
    by_cases hd : d' = d
    case pos =>
      simp only [served, hd, if_true]
      exact DownstreamData.handleMessage_handled.channelId
    case neg => simp [served, hd]
  | vardiff us all immediate =>
    left
    cases us with
    | nil       => rfl
    | cons u us =>
      rw [served]
      split <;> rfl
  | takeQueue d' _ | setProcessing d' | setUpstreamTarget d' _ | forwardTarget d' _ =>
    left
    rw [served]
    split <;> rfl
  | _ => exact .inl rfl

theorem served_received : (s.served C cfg d o op).received = o.received ∨
    ∃ e, op = .broadcast e ∧ (s.served C cfg d o op).received = o.received ++ [e] := by
  cases op with
  | broadcast e => exact .inr ⟨e, rfl, rfl⟩
  | vardiff us all immediate =>
    left
    cases us with
    | nil       => rfl
    | cons u us =>
      rw [served]
      split <;> rfl
  | setChannel d' _ | takeQueue d' _ | setProcessing d' | handleQueued d' _ _
  | setUpstreamTarget d' _ | forwardTarget d' _ =>
    left
    rw [served]
    split <;> rfl
  | _ => exact .inl rfl

-- A downstream gets its channel from the server only.
theorem evolves_channelId (h : Evolves C cfg s d a o o') : o'.data.channelId = o.data.channelId ∨
    ∃ m ops, a = .serve ∧ s.todo = .setChannel d m :: ops ∧
      o'.data.channelId = some m.channelId := by
  cases h with
  | took h =>
    obtain ⟨_, _, rfl⟩ := Downstream.take_eq_some h
    exact .inl rfl
  | wentOn h =>
    obtain ⟨op, ops, _, _, rfl⟩ := Downstream.goOn_eq_some h
    exact .inl (Downstream.exec_keeps (o := { o with todo := ops })).channelId
  | received h => exact .inl (Downstream.receive_keeps h).channelId
  | stopped h =>
    obtain ⟨_, _, rfl⟩ := Downstream.stop_eq_some h
    exact .inl rfl
  | @served op ops _ hs =>
    have h : ({ s with todo := ops }.served C cfg d o op).data.channelId = o.data.channelId ∨ _ :=
      served_channelId
    obtain h | ⟨m, rfl, h⟩ := h
    case inl => exact .inl h
    case inr => exact .inr ⟨m, ops, rfl, hs, h⟩
  | named => exact .inl rfl
  | kept  => exact .inl rfl

-- What waits for a downstream has been waiting, or has been sent to all.
theorem evolves_received (h : Evolves C cfg s d a o o') {e : Envelope} (he : e ∈ o'.received) :
    e ∈ o.received ∨ ∃ ops, a = .serve ∧ s.todo = .broadcast e :: ops := by
  cases h with
  | took h =>
    obtain ⟨_, _, rfl⟩ := Downstream.take_eq_some h
    exact .inl he
  | wentOn h =>
    obtain ⟨op, ops, _, _, rfl⟩ := Downstream.goOn_eq_some h
    rw [Downstream.exec_received.left] at he
    exact .inl he
  | received h =>
    cases Downstream.receive_received h with
    | inl h => exact .inl (h ▸ he)
    | inr h =>
      obtain ⟨e', h⟩ := h
      exact .inl (h ▸ List.mem_cons_of_mem e' he)
  | stopped h =>
    obtain ⟨_, _, rfl⟩ := Downstream.stop_eq_some h
    exact .inl he
  | @served op ops _ hs =>
    have h : ({ s with todo := ops }.served C cfg d o op).received = o.received ∨ _ :=
      served_received
    obtain h | ⟨e', rfl, h⟩ := h
    case inl => exact .inl (h ▸ he)
    case inr =>
      rw [h] at he
      cases List.mem_append.mp he with
      | inl he => exact .inl he
      | inr he =>
        cases List.mem_singleton.mp he
        exact .inr ⟨ops, rfl, hs⟩
  | named => exact .inl he
  | kept  => exact .inl he

end Frames

end System

end Translator.Sv1
