import StratumApps.Translator.Sv1.Difficulty
import StratumApps.Translator.Sv1.Plans
import StratumApps.Translator.Sv1.Rounds

open Sv2 Handler StratumCore

namespace Translator.Sv1

-- The target of a `mining.set_difficulty` that is for one miner only.
def Envelope.difficultyFor (d : DownstreamId) (e : Envelope) : Option Target :=
  if e.downstreamId = some d then e.message.difficulty? else none

-- What tells no single miner a difficulty, and leaves the upstream targets to what comes next.
def ServerOp.IsQuiet : ServerOp → Prop
  | .broadcast e                                                                             =>
    ∀ d, e.difficultyFor d = none
  | .setChannel _ _ | .takeQueue _ _ | .setProcessing _ | .handleQueued _ _ _ | .sendFirst _ => True
  | _                                                                                        => False

-- What gives a miner another upstream target.
def ServerOp.retargets : ServerOp → Bool
  | .setChannel _ _ | .setUpstreamTarget _ _ | .forwardTarget _ _ => true
  | _                                                             => false

namespace System

variable (C : Core) (cfg : Config) (s : System)

-- What a round of vardiff finds for a miner: its new target, and whether the miner may be told at once.
def decision (d : DownstreamId) (hashrate : Hashrate) : Option (Target × Bool) :=
  match (s.getDownstream d).bind (fun o => o.data.channelId.map (·, o.data.upstreamTarget)),
    C.hashRateToTarget hashrate cfg.sharesPerMinute with
  | some r, some target => some (target, r.2.all (· ≤ target))
  | _, _                => none

def atOnce (d : DownstreamId) (hashrate : Hashrate) : Option Target :=
  (s.decision C cfg d hashrate).bind fun r => if r.2 then some r.1 else none

def delayed (d : DownstreamId) (hashrate : Hashrate) : Option Target :=
  (s.decision C cfg d hashrate).bind fun r => if r.2 then none else some r.1

-- The upstream target that is stored for a miner, where there is one, is no higher than a target.
def Allows (d : DownstreamId) (t : Target) : Prop :=
  ∀ o, s.objects.lookup d = some o → ∀ t', o.data.upstreamTarget = some t' → t' ≤ t

def Sound (e : Envelope) : Prop :=
  ∀ d t, e.difficultyFor d = some t → s.Allows d t

-- Only what can be sent waits: for a miner with a channel, and with a target that a message can be
-- built of.
structure Sendable (u : PendingTargetUpdate) : Prop where
  channel : ∃ o, s.objects.lookup u.downstreamId = some o ∧ o.data.channelId.isSome
  builds  : C.buildsSv1SetDifficulty u.newTarget

-- What the server has left to send after a round of vardiff or after a new upstream target.
def Sends : ServerOp → Prop
  | .broadcast e   => s.Sound e
  | .sendPending u => s.Sendable C u ∧
    (u.downstreamId ∈ s.server.downstreams → s.Allows u.downstreamId u.newTarget)
  | _              => False

def HasTarget (d : DownstreamId) (t : Target) : Prop :=
  ∀ o, s.objects.lookup d = some o → o.data.upstreamTarget = some t

-- What the server is at, as far as difficulties go.
inductive Course : List ServerOp → Prop
  | quiet {ops : List ServerOp} : (∀ op ∈ ops, op.IsQuiet) → Course ops
  | deciding (us : List (DownstreamId × Hashrate)) {all : List (ChannelId × PendingTargetUpdate)}
      {immediate : List Envelope} : (∀ e ∈ immediate, s.Sound e) → Course [.vardiff us all immediate]
  | answering (ds : List DownstreamId) {d : Option DownstreamId} {t : Target} :
    (∀ d' ∈ s.server.downstreams, d.all (· = d') → d' ∈ ds ∨ s.HasTarget d' t) →
    Course (ds.map (.setUpstreamTarget · t) ++ [.takePending d t])
  | sending {ops : List ServerOp} : (∀ op ∈ ops, s.Sends C op) → Course ops
  | forwarding {es : List Envelope} (ds : List DownstreamId) {t : Target} :
    cfg.enableVardiff = false → (∀ e ∈ es, s.Sound e) →
    Course (es.map .broadcast ++ ds.map (.forwardTarget · t))

-- The pending updates that an operation of the server leaves.
def pendingAfter : ServerOp → List PendingTargetUpdate
  | .takePending d _          => (s.server.takePending d).pendingTargetUpdates
  | .vardiff ((d, h) :: _) _ _ => s.server.pendingTargetUpdates ++
    (s.delayed C cfg d h).toList.map (⟨d, ·, h⟩)
  | _                         => s.server.pendingTargetUpdates

end System

-- Every target that a hashrate has can be told to a miner.
def Core.Builds (C : Core) (cfg : Config) : Prop :=
  ∀ h t, C.hashRateToTarget h cfg.sharesPerMinute = some t → C.buildsSv1SetDifficulty t

namespace System

variable {C : Core} {cfg : Config} {s s' : System} {d d' : DownstreamId} {a : Action} {op : ServerOp}
variable {h : Hashrate} {o o' : Downstream} {t : Target}

section Rounds

variable {b : Bool}

theorem decision_eq_some (hd : s.decision C cfg d h = some (t, b)) : d ∈ s.server.downstreams ∧
    ∃ o c, s.objects.lookup d = some o ∧ o.data.channelId = some c ∧
      C.hashRateToTarget h cfg.sharesPerMinute = some t ∧ b = o.data.upstreamTarget.all (· ≤ t) := by
  rw [decision] at hd
  split at hd
  case h_2 => cases hd
  case h_1 r t' hr ht =>
    cases hd
    obtain ⟨o, ho, hr⟩ := Option.bind_eq_some_iff.mp hr
    obtain ⟨c, hc, rfl⟩ := Option.map_eq_some_iff.mp hr
    obtain ⟨hd, ho⟩ := Option.ite_none_right_eq_some.mp ho
    exact ⟨hd, o, c, ho, hc, ht, rfl⟩

theorem atOnce_eq_some : s.atOnce C cfg d h = some t ↔ s.decision C cfg d h = some (t, true) := by
  rw [atOnce]
  cases s.decision C cfg d h with
  | none   => simp
  | some r =>
    obtain ⟨t', b⟩ := r
    cases b <;> simp

theorem delayed_eq_some : s.delayed C cfg d h = some t ↔ s.decision C cfg d h = some (t, false) := by
  rw [delayed]
  cases s.decision C cfg d h with
  | none   => simp
  | some r =>
    obtain ⟨t', b⟩ := r
    cases b <;> simp

-- What a round does to a miner, in terms of what it finds.
theorem vardiffRound_of_decision :
    (s.vardiffRound C cfg d h).1.server = { s.server with
      pendingTargetUpdates := s.pendingAfter C cfg (.vardiff [(d, h)] [] []) } ∧
    (s.vardiffRound C cfg d h).2.1 = (s.decision C cfg d h).bind (fun r =>
      (s.channelIdOf d).map (·, ⟨d, r.1, h⟩)) ∧
    (s.vardiffRound C cfg d h).2.2 = (s.atOnce C cfg d h).elim [] fun t =>
      (s.channelIdOf d).elim [] fun c => setDifficulty C c (some d) t := by
  rw [vardiffRound, pendingAfter, atOnce, delayed, decision]
  cases hr : (s.getDownstream d).bind fun o => o.data.channelId.map (·, o.data.upstreamTarget) with
  | none   => simp
  | some r =>
    cases C.hashRateToTarget h cfg.sharesPerMinute with
    | none   => simp
    | some t =>
      have hc : s.channelIdOf d = some r.1 := by
        obtain ⟨o, ho, hr⟩ := Option.bind_eq_some_iff.mp hr
        obtain ⟨c, hc, rfl⟩ := Option.map_eq_some_iff.mp hr
        simp [channelIdOf, ho, hc]
      dsimp only
      rw [vardiffUpdate]
      cases hb : r.2.all (· ≤ t) <;> simp [hc, modifyData, modify]

theorem mem_setDifficulty {c : ChannelId} {e : Envelope} (he : e ∈ setDifficulty C c (some d) t) :
    e = ⟨c, some d, .setDifficulty t⟩ := by
  rw [setDifficulty] at he
  split at he
  case isTrue  => exact List.mem_singleton.mp he
  case isFalse => cases he

theorem difficultyFor_eq_some {c : ChannelId} {t' : Target}
    (h : (⟨c, some d, .setDifficulty t⟩ : Envelope).difficultyFor d' = some t') : d = d' ∧ t = t' := by
  obtain ⟨hd, ht⟩ := Option.ite_none_right_eq_some.mp h
  exact ⟨Option.some.inj hd, Option.some.inj ht⟩

theorem Allows.sound {c : ChannelId} {e : Envelope} (h : s.Allows d t)
    (he : e ∈ setDifficulty C c (some d) t) : s.Sound e := by
  obtain rfl := mem_setDifficulty he
  intro d' t' hf
  obtain ⟨rfl, rfl⟩ := difficultyFor_eq_some hf
  exact h

-- What a round tells a miner at once, the upstream target of the miner allows.
theorem vardiffRound_sound : ∀ e ∈ (s.vardiffRound C cfg d h).2.2, s.Sound e := by
  intro e he
  rw [vardiffRound_of_decision.right.right] at he
  obtain ⟨t, ht, he⟩ := mem_elim.mp he
  obtain ⟨c, _, he⟩ := mem_elim.mp he
  obtain ⟨_, o, _, ho, _, _, hb⟩ := decision_eq_some (atOnce_eq_some.mp ht)
  have hall : s.Allows d t := by
    intro o' ho' t' ht'
    cases ho.symm.trans ho'
    rw [ht'] at hb
    exact of_decide_eq_true hb.symm
  exact hall.sound he

end Rounds

-- What the server has still to do makes no difference to what an operation leaves to do.
theorem follow_todo {ops : List ServerOp} :
    { s with todo := ops }.follow C cfg op = s.follow C cfg op := by
  cases op with
  | vardiff us all immediate =>
    cases us with
    | nil        => rfl
    | cons u us =>
      rw [follow, follow]
      simp only [vardiffRound_of_decision]
      rfl
  | _ => rfl

section Frames

theorem exec_pending {op : ServerOp} : (s.exec C cfg op).server = { s.server with
    pendingTargetUpdates := s.pendingAfter C cfg op } := by
  cases op with
  | takeQueue d c =>
    rw [exec, takeQueue.eq_def]
    split <;> rfl
  | handleQueued d c m =>
    rw [exec, handleQueued.eq_def]
    split
    case h_1 => rfl
    case h_2 =>
      dsimp only
      split <;> rfl
  | sendFirst c =>
    rw [exec, sendFirst]
    split <;> rfl
  | setUpstreamTarget d t =>
    rw [exec]
    split <;> rfl
  | sendPending u =>
    rw [exec]
    cases s.channelIdOf u.downstreamId <;> rfl
  | forwardTarget d t =>
    rw [exec]
    cases s.channelIdOf d <;> rfl
  | vardiff us all immediate =>
    cases us with
    | cons u us => exact vardiffRound_of_decision.left
    | nil =>
      rw [exec, handleVardiff]
      split
      case isTrue  => rfl
      case isFalse => exact sendUpdateChannelMessages_kept.right
  | _ => rfl

-- Only the operations of the server change what is pending.
theorem pending_of_step (hs : s.step C cfg a = some s') (ha : a ≠ .serve) :
    s'.server.pendingTargetUpdates = s.server.pendingTargetUpdates := by
  have hr := revises_of_step hs
  generalize s'.server = server at hr
  cases hr with
  | served => exact absurd rfl ha
  | job    => exact storeJob_kept.right.right.right.right.left
  | _      => rfl

theorem served_upstreamTarget (ho : op.retargets = false) :
    (s.served C cfg d o op).data.upstreamTarget = o.data.upstreamTarget := by
  cases op with
  | setChannel d' m | setUpstreamTarget d' t | forwardTarget d' t => cases ho
  | handleQueued d' c m =>
    rw [served]
    split
    case isTrue  => exact DownstreamData.handleMessage_handled.upstreamTarget
    case isFalse => rfl
  | vardiff us all immediate =>
    cases us with
    | nil       => rfl
    | cons u us =>
      rw [served]
      split <;> rfl
  | takeQueue d' c | setProcessing d' =>
    rw [served]
    split <;> rfl
  | _ => rfl

theorem evolves_upstreamTarget (he : Evolves C cfg s d a o o')
    (ha : ∀ op ops, a = .serve → s.todo = op :: ops → op.retargets = false) :
    o'.data.upstreamTarget = o.data.upstreamTarget := by
  cases he with
  | took h =>
    obtain ⟨_, _, rfl⟩ := Downstream.take_eq_some h
    rfl
  | wentOn h =>
    obtain ⟨op, ops, _, _, rfl⟩ := Downstream.goOn_eq_some h
    exact (Downstream.exec_keeps (o := { o with todo := ops })).upstreamTarget
  | received h => exact (Downstream.receive_keeps h).upstreamTarget
  | stopped h =>
    obtain ⟨_, _, rfl⟩ := Downstream.stop_eq_some h
    rfl
  | served ht => exact served_upstreamTarget (ha _ _ rfl ht)
  | named     => rfl
  | kept      => rfl

theorem evolves_isSome (he : Evolves C cfg s d a o o') (hc : o.data.channelId.isSome) :
    o'.data.channelId.isSome := by
  obtain h | ⟨m, _, _, _, h⟩ := evolves_channelId he
  case inl => exact h ▸ hc
  case inr => exact h ▸ rfl

-- What is sendable stays so, since miners and their channels stay.
theorem Sendable.step {u : PendingTargetUpdate} (hu : s.Sendable C u) (hs : s.Staged)
    (h : s.step C cfg a = some s') : s'.Sendable C u := by
  obtain ⟨o, ho, hc⟩ := hu.channel
  obtain ⟨o', ho', he⟩ := hs.evolves h ho
  exact ⟨⟨o', ho', evolves_isSome he hc⟩, hu.builds⟩

-- The miners that the server has, and the targets that are stored for them, are the same.
structure Steady (s s' : System) : Prop where
  downstreams : s'.server.downstreams = s.server.downstreams
  target      : ∀ d o', s'.objects.lookup d = some o' →
    ∃ o, s.objects.lookup d = some o ∧ o'.data.upstreamTarget = o.data.upstreamTarget

theorem steady_of_step {ops : List ServerOp} (h : s.step C cfg a = some s') (ht : s.todo = op :: ops)
    (ha : a = .serve → op.retargets = false) : Steady s s' := by
  have busy : s.todo ≠ [] := by simp [ht]
  constructor
  case downstreams =>
    obtain hn | ⟨updates, hs⟩ := server_of_step h
    case inl => exact absurd hn busy
    case inr => rw [hs]
  case target =>
    intro d o' ho'
    obtain ⟨rfl, _⟩ | ⟨o, ho, he⟩ := evolves_of_step h ho'
    case inl => exact absurd (idle_eq_some h).right.left busy
    case inr =>
      refine ⟨o, ho, evolves_upstreamTarget he fun op' ops' has ht' => ?_⟩
      cases ht.symm.trans ht'
      exact ha has

namespace Steady

variable (hy : Steady s s')

include hy

theorem allows (h : s.Allows d t) : s'.Allows d t := by
  intro o' ho' t' ht'
  obtain ⟨o, ho, hu⟩ := hy.target d o' ho'
  exact h o ho t' (hu ▸ ht')

theorem hasTarget (h : s.HasTarget d t) : s'.HasTarget d t := by
  intro o' ho'
  obtain ⟨o, ho, hu⟩ := hy.target d o' ho'
  exact hu.trans (h o ho)

theorem sound {e : Envelope} (h : s.Sound e) : s'.Sound e :=
  fun d t ht => hy.allows (h d t ht)

theorem sends (hs : ∀ u, s.Sendable C u → s'.Sendable C u) (h : s.Sends C op) : s'.Sends C op := by
  cases op with
  | broadcast e   => exact hy.sound h
  | sendPending u =>
    refine ⟨hs u h.left, fun hd => ?_⟩
    exact hy.allows (h.right (hy.downstreams ▸ hd))
  | _ => exact h

theorem course {ops : List ServerOp} (hs : ∀ u, s.Sendable C u → s'.Sendable C u)
    (h : s.Course C cfg ops) : s'.Course C cfg ops := by
  cases h with
  | quiet h            => exact .quiet h
  | deciding us h      => exact .deciding us fun e he => hy.sound (h e he)
  | answering ds h     =>
    refine .answering ds fun d hd hc => ?_
    exact (h d (hy.downstreams ▸ hd) hc).imp_right hy.hasTarget
  | sending h          => exact .sending fun op ho => hy.sends hs (h op ho)
  | forwarding ds hv h => exact .forwarding ds hv fun e he => hy.sound (h e he)

end Steady

end Frames

section Course

theorem follow_isQuiet (h : op.IsQuiet) : ∀ op' ∈ s.follow C cfg op, op'.IsQuiet := by
  intro op' ho
  cases spawns_of_mem ho with
  | processing   => trivial
  | queued _     => trivial
  | answered _ _ =>
    intro d'
    exact ite_self none
  | first =>
    intro d'
    rfl
  | applied | pending | forwarded | immediate | round => cases h

theorem Course.forwards {t : Target} (ds : List DownstreamId) (hv : cfg.enableVardiff = false) :
    s.Course C cfg (ds.map (.forwardTarget · t)) := by
  rw [← List.nil_append (ds.map _)]
  exact .forwarding ds hv (List.forall_mem_nil (s.Sound ·))

theorem setTarget_course {m : SetTarget} (ht : s.todo = []) :
    (s.handleSetTarget cfg m).Course C cfg (s.handleSetTarget cfg m).todo := by
  rw [handleSetTarget]
  split <;> simp only [next, ht, List.append_nil]
  case h_1 => exact .answering _ fun d hd _ => .inl hd
  case h_2 =>
    cases s.downstreamOfChannel m.channelId with
    | none   => exact .quiet (List.forall_mem_nil _)
    | some d =>
      refine .answering [d] fun d' _ hd => .inl ?_
      exact List.mem_singleton.mpr (of_decide_eq_true hd).symm
  case h_3 hv _ => exact .forwards _ hv
  case h_4 hv _ =>
    cases s.downstreamOfChannel m.channelId with
    | none   => exact .quiet (List.forall_mem_nil _)
    | some d => exact .forwards [d] hv

theorem begins_isQuiet (h : s.step C cfg a = some s') (hm : ∀ m, a ≠ .upstream (.setTarget m))
    (ht : ∀ us, a ≠ .tick us) : ∀ op ∈ s.begins C cfg a, op.IsQuiet := by
  intro op ho
  cases begun_of_mem (idle_of_begins ho h) ho with
  | setChannel | takeQueue | sendFirst => trivial
  | notify =>
    intro d
    rfl
  | setUpstreamTarget | takePending | forwardTarget => exact absurd rfl (hm _)
  | tick => exact absurd rfl (ht _)

theorem begins_course (h : s.step C cfg a = some s') : s'.Course C cfg (s.begins C cfg a) := by
  by_cases hm : ∃ m, a = .upstream (.setTarget m)
  case pos =>
    obtain ⟨m, rfl⟩ := hm
    obtain ⟨_, ht, rfl⟩ := idle_eq_some h
    exact setTarget_course ht
  case neg =>
    by_cases ht : ∃ us, a = .tick us
    case pos =>
      obtain ⟨us, rfl⟩ := ht
      exact .deciding us (List.forall_mem_nil _)
    case neg => exact .quiet (begins_isQuiet h (fun m h => hm ⟨m, h⟩) fun us h => ht ⟨us, h⟩)

variable {ops : List ServerOp}

theorem steady_of_serve (h : s.step C cfg .serve = some s') (ht : s.todo = op :: ops)
    (ho : op.retargets = false) : Steady s s' :=
  steady_of_step h ht fun _ => ho

theorem deciding_serve {us : List (DownstreamId × Hashrate)}
    {all : List (ChannelId × PendingTargetUpdate)} {immediate : List Envelope}
    (hi : ∀ e ∈ immediate, s.Sound e) (hy : Steady s s') :
    s'.Course C cfg (s.follow C cfg (.vardiff us all immediate)) := by
  cases us with
  | nil =>
    refine .sending fun op ho => ?_
    obtain ⟨e, he, rfl⟩ := List.mem_map.mp ho
    exact hy.sound (hi e he)
  | cons u us =>
    refine .deciding us fun e he => hy.sound ?_
    cases List.mem_append.mp he with
    | inl he => exact hi e he
    | inr he => exact vardiffRound_sound e he

theorem answering_serve {d : Option DownstreamId} {d₁ : DownstreamId} {ds : List DownstreamId}
    (hd : ∀ d' ∈ s.server.downstreams, d.all (· = d') → d' ∈ d₁ :: ds ∨ s.HasTarget d' t)
    (h : s.step C cfg .serve = some s') (ht : s.todo = .setUpstreamTarget d₁ t :: ops) :
    ∀ d' ∈ s'.server.downstreams, d.all (· = d') → d' ∈ ds ∨ s'.HasTarget d' t := by
  obtain ⟨_, rfl⟩ := serve_of_todo h ht
  intro d' hd' hc
  rw [exec_pending] at hd'
  have hd' : d' ∈ s.server.downstreams := hd'
  have served : d₁ = d' ∨ s.HasTarget d' t →
      HasTarget (System.exec C cfg { s with todo := ops } (.setUpstreamTarget d₁ t)) d' t := by
    intro hn o' ho'
    rw [lookup_exec] at ho'
    obtain ⟨o, ho, rfl⟩ := Option.map_eq_some_iff.mp ho'
    rw [System.served]
    split
    case isTrue => rfl
    case isFalse hf =>
      cases hn with
      | inl hn => exact absurd ⟨hn, hd'⟩ hf
      | inr hn => exact hn o ho
  cases hd d' hd' hc with
  | inr hn => exact .inr (served (.inr hn))
  | inl hn =>
    cases hn with
    | head _    => exact .inr (served (.inl rfl))
    | tail _ hn => exact .inl hn

theorem takePending_serve {d : Option DownstreamId}
    (hp : ∀ u ∈ s.server.pendingTargetUpdates, s.Sendable C u)
    (hd : ∀ d' ∈ s.server.downstreams, d.all (· = d') → s.HasTarget d' t)
    (hs : ∀ u, s.Sendable C u → s'.Sendable C u) (hy : Steady s s') :
    ∀ op ∈ s.follow C cfg (.takePending d t), s'.Sends C op := by
  intro op ho
  obtain ⟨u, hu, rfl⟩ := List.mem_map.mp ho
  obtain ⟨hu, hc⟩ := List.mem_filter.mp hu
  obtain ⟨hc, hle⟩ := Bool.and_eq_true_iff.mp hc
  refine ⟨hs u (hp u hu), fun hd' => hy.allows fun o ho t' ht' => ?_⟩
  have hm := hd u.downstreamId (hy.downstreams ▸ hd') hc o ho
  cases hm.symm.trans ht'
  exact of_decide_eq_true hle

theorem sendPending_serve {u : PendingTargetUpdate} (hu : s.Sends C (.sendPending u))
    (hy : Steady s s') : ∀ op ∈ s.follow C cfg (.sendPending u), s'.Sends C op := by
  intro op ho
  obtain ⟨c, hc, ho⟩ := mem_elim.mp ho
  obtain ⟨e, he, rfl⟩ := List.mem_map.mp ho
  exact hy.sound ((hu.right (channelIdOf_eq_some.mp hc).left).sound he)

-- A miner that is forwarded a target has it as its upstream target when it is told.
theorem forwardTarget_serve (h : s.step C cfg .serve = some s')
    (ht : s.todo = .forwardTarget d t :: ops) : ∃ es : List Envelope,
      s.follow C cfg (.forwardTarget d t) = es.map .broadcast ∧ ∀ e ∈ es, s'.Sound e := by
  cases hc : s.channelIdOf d with
  | none   => exact ⟨[], by simp [follow, hc], List.forall_mem_nil _⟩
  | some c =>
    refine ⟨setDifficulty C c (some d) t, by simp [follow, hc], fun e he => ?_⟩
    have hall : s'.Allows d t := by
      obtain ⟨_, rfl⟩ := serve_of_todo h ht
      intro o' ho' t' ht'
      rw [lookup_exec] at ho'
      obtain ⟨o, _, rfl⟩ := Option.map_eq_some_iff.mp ho'
      have hc : ({ s with todo := ops }.channelIdOf d).isSome := Option.isSome_iff_exists.mpr ⟨c, hc⟩
      rw [served, if_pos ⟨rfl, hc⟩] at ht'
      cases ht'
      exact BitVec.le_refl t
    exact hall.sound he

theorem course_serve (hs : s.Staged) (hp : ∀ u ∈ s.server.pendingTargetUpdates, s.Sendable C u)
    (hc : s.Course C cfg (op :: ops)) (h : s.step C cfg .serve = some s') (ht : s.todo = op :: ops) :
    s'.Course C cfg (s.follow C cfg op ++ ops) := by
  have sendable (u : PendingTargetUpdate) (hu : s.Sendable C u) : s'.Sendable C u := hu.step hs h
  generalize hops : op :: ops = todo at hc
  cases hc with
  | quiet hq =>
    subst hops
    obtain ⟨ho, hq⟩ := List.forall_mem_cons.mp hq
    exact .quiet (List.forall_mem_append.mpr ⟨follow_isQuiet ho, hq⟩)
  | deciding us hi =>
    cases hops
    rw [List.append_nil]
    exact deciding_serve hi (steady_of_serve h ht rfl)
  | answering ds hd =>
    cases ds with
    | nil =>
      cases hops
      rw [List.append_nil]
      refine .sending (takePending_serve hp (fun d' hd' hc => ?_) sendable (steady_of_serve h ht rfl))
      exact (hd d' hd' hc).resolve_left List.not_mem_nil
    | cons d ds =>
      cases hops
      exact .answering ds (answering_serve hd h ht)
  | sending hq =>
    subst hops
    obtain ⟨ho, hops⟩ := List.forall_mem_cons.mp hq
    refine .sending ?_
    cases op with
    | broadcast e   =>
      have hy : Steady s s' := steady_of_serve h ht rfl
      exact fun op' ho' => hy.sends sendable (hops op' ho')
    | sendPending u =>
      have hy : Steady s s' := steady_of_serve h ht rfl
      exact List.forall_mem_append.mpr
        ⟨sendPending_serve ho hy, fun op' ho' => hy.sends sendable (hops op' ho')⟩
    | _ => cases ho
  | @forwarding es ds t hv he =>
    cases es with
    | cons e es =>
      cases hops
      have hy : Steady s s' := steady_of_serve h ht rfl
      exact .forwarding ds hv fun e' he' => hy.sound (he e' (List.mem_cons_of_mem e he'))
    | nil =>
      cases ds with
      | nil       => cases hops
      | cons d ds =>
        cases hops
        obtain ⟨es, hes, he⟩ := forwardTarget_serve h ht
        rw [hes]
        exact .forwarding ds hv he

end Course

section Steered

-- The invariant of a run, as far as difficulties go.
structure Steered (C : Core) (cfg : Config) (s : System) : Prop where
  staged  : s.Staged
  manned  : s.RoundsManned
  pending : ∀ u ∈ s.server.pendingTargetUpdates, s.Sendable C u
  course  : s.Course C cfg s.plan

theorem steered_new : (new cfg.aggregateChannels).Steered C cfg where
  staged  := staged_new
  manned  := by
    intro _ us all immediate ht
    cases ht
  pending := List.forall_mem_nil _
  course  := .quiet (List.forall_mem_nil _)

theorem pendingAfter_sendable (hb : C.Builds cfg)
    (hp : ∀ u ∈ s.server.pendingTargetUpdates, s.Sendable C u) :
    ∀ u ∈ s.pendingAfter C cfg op, s.Sendable C u := by
  intro u hu
  cases op with
  | takePending d t => exact hp u (List.mem_of_mem_filter hu)
  | vardiff us all immediate =>
    cases us with
    | nil        => exact hp u hu
    | cons r us =>
      cases List.mem_append.mp hu with
      | inl hu => exact hp u hu
      | inr hu =>
        obtain ⟨t, ht, rfl⟩ := List.mem_map.mp hu
        have hd := delayed_eq_some.mp (Option.mem_toList.mp ht)
        obtain ⟨_, o, c, ho, hc, ht, _⟩ := decision_eq_some hd
        exact ⟨⟨o, ho, Option.isSome_iff_exists.mpr ⟨c, hc⟩⟩, hb _ _ ht⟩
  | _ => exact hp u hu

theorem sendable_step (hb : C.Builds cfg) (hs : s.Steered C cfg) (h : s.step C cfg a = some s') :
    ∀ u ∈ s'.server.pendingTargetUpdates, s'.Sendable C u := by
  intro u hu
  by_cases ha : a = .serve
  case neg =>
    rw [pending_of_step h ha] at hu
    exact (hs.pending u hu).step hs.staged h
  case pos =>
    subst ha
    have hu : s.Sendable C u := by
      obtain ⟨op, ops, _, _, rfl⟩ := serve_eq_some h
      rw [exec_pending] at hu
      have hu : u ∈ s.pendingAfter C cfg op := hu
      exact pendingAfter_sendable hb hs.pending u hu
    exact hu.step hs.staged h

-- An action gives an idle server something to do, or leaves a busy one what it has.
theorem course_begins (hs : s.Steered C cfg) (h : s.step C cfg a = some s') (ha : a ≠ .serve) :
    s'.Course C cfg (s.begins C cfg a ++ s.plan) := by
  cases hp : s.plan with
  | nil =>
    rw [List.append_nil]
    exact begins_course h
  | cons op ops =>
    have ht : s.todo = op :: ops := by
      rw [plan] at hp
      split at hp
      case isTrue  => exact hp
      case isFalse => cases hp
    have hne : s.todo ≠ [] := by simp [ht]
    rw [begins_of_busy h hne, List.nil_append, ← hp]
    have hy : Steady s s' := steady_of_step h ht fun hs => absurd hs ha
    exact hy.course (fun u hu => hu.step hs.staged h) hs.course

theorem steered_step (hb : C.Builds cfg) (hs : s.Steered C cfg) (h : s.step C cfg a = some s') :
    s'.Steered C cfg where
  staged  := staged_step hs.staged h
  manned  := roundsManned_step hs.manned h
  pending := sendable_step hb hs h
  course  := by
    obtain ⟨hn, _⟩ | ⟨op, ops, rfl, ht, ht'⟩ | ⟨ha, ht'⟩ := plan_of_step h
    case inl =>
      rw [hn]
      exact .quiet (List.forall_mem_nil _)
    case inr.inl =>
      obtain ⟨_, _, _, hr, _⟩ := serve_eq_some h
      have hc := hs.course
      rw [plan_of_running hr] at ht hc
      rw [ht] at hc
      rw [ht', follow_todo]
      exact course_serve hs.staged hs.pending hc h ht
    case inr.inr =>
      rw [ht']
      exact course_begins hs h ha

-- Whatever a single miner is told, its upstream target allows.
theorem Steered.sound {e : Envelope} {ops : List ServerOp} (hs : s.Steered C cfg)
    (hr : s.status = .running) (ht : s.todo = .broadcast e :: ops) : s.Sound e := by
  have hc := hs.course
  rw [plan_of_running hr, ht] at hc
  generalize hops : ServerOp.broadcast e :: ops = todo at hc
  cases hc with
  | quiet hq =>
    subst hops
    intro d t hf
    have hn : e.difficultyFor d = none := hq _ List.mem_cons_self d
    cases hn.symm.trans hf
  | deciding us _     => cases hops
  | answering ds _    => cases ds <;> cases hops
  | sending hq        =>
    subst hops
    exact hq _ List.mem_cons_self
  | @forwarding es ds t _ he =>
    cases es with
    | cons e es =>
      cases hops
      exact he e List.mem_cons_self
    | nil => cases ds <;> cases hops

end Steered

end System

end Translator.Sv1
