import StratumApps.Pool.Channels
import StratumApps.Tasks.ShutdownBus

open Sv2 Handler StratumCore Tasks

namespace Pool

variable {C : StratumCore} {cfg : Config} {d : DownstreamId}

-- What the manager keeps of its downstreams, as the shutdown notices change it.
def ChannelManager.data (s : ChannelManager C) : ManagerData (Downstream C) C.VardiffState :=
  ⟨s.downstream, s.vardiff⟩

theorem ChannelManager.removeDownstream_removed (s : ChannelManager C) :
    s.data.Removed d (s.removeDownstream d).data :=
  ManagerData.removeDownstream_removed _ d

def RouteMessageTo.downstream? : RouteMessageTo → Option (DownstreamId × Mining)
  | .downstream d m     => some (d, m)
  | .templateProvider _ => none

-- What a step of the pool is for the broadcast channel to its downstreams: their tasks start and
-- exit, and the messages that the manager forwards are sent.
def deliveries (e : Machine.Event (System C) Action) : List (Delivery.Action Mining) :=
  match e.act with
  | .setupConnection d _ _ => [.start d]
  | .hangUp d              => if e.pre.connections.lookup d = some .started then [.exit d] else []
  | _                      =>
    ((e.post.sent.drop e.pre.sent.length).filterMap RouteMessageTo.downstream?).map fun m =>
      .forward m.1 m.2

namespace System

variable {s s' : System C} {a : Action} {tr : List (Machine.Event (System C) Action)}
variable {b : Delivery Mining}

-- The channel has what the manager has forwarded to the downstreams, and a task for each of those
-- that have started.
structure Served (s : System C) (b : Delivery Mining) : Prop where
  sent  : b.channel.sent = s.sent.filterMap RouteMessageTo.downstream?
  tasks : ∀ d, d ∈ b.tasks ↔ s.connections.lookup d = some .started

theorem exec_forwards (ms : List (DownstreamId × Mining)) : ∃ b',
    (Delivery.machine Mining).exec b (ms.map fun m => .forward m.1 m.2) = some b' ∧
      b'.channel.sent = b.channel.sent ++ ms ∧ b'.tasks = b.tasks := by
  induction ms generalizing b with
  | nil => exact ⟨b, rfl, by simp, rfl⟩
  | cons m ms ih =>
    obtain ⟨b', he, hs, ht⟩ := ih (b := { b with channel := b.channel.send m })
    exact ⟨b', he, by simp [hs], ht⟩

-- The steps that may forward messages start and end no task.
theorem served_of_sent (h : s.Served b) (ms : List RouteMessageTo) (hm : s'.sent = s.sent ++ ms)
    (hc : ∀ d, s'.connections.lookup d = some .started ↔ s.connections.lookup d = some .started) :
    ∃ b', (Delivery.machine Mining).exec b
      (((s'.sent.drop s.sent.length).filterMap RouteMessageTo.downstream?).map fun m =>
        .forward m.1 m.2) = some b' ∧ s'.Served b' := by
  rw [hm, List.drop_left]
  obtain ⟨b', he, hs, ht⟩ := exec_forwards (b := b) (ms.filterMap RouteMessageTo.downstream?)
  refine ⟨b', he, ?_, fun d => ?_⟩
  · rw [hs, hm, List.filterMap_append, h.sent]
  · rw [ht, h.tasks, hc]

theorem deliver_sent (e : ChannelManager.Exit C) : ∃ ms, (s.deliver e).sent = s.sent ++ ms := by
  cases he : e.returned with
  | error => exact ⟨[], by rw [deliver_error he, List.append_nil]⟩
  | ok r  => exact ⟨r.2, by rw [deliver_ok he]⟩

theorem served_step (ha : s.Attributed) (h : s.Served b) (hs : s.step cfg a = some s') :
    ∃ b', (Delivery.machine Mining).exec b (deliveries ⟨s, a, s'⟩) = some b' ∧ s'.Served b' := by
  replace hs := (step_running hs).right
  have hsame {s' : System C} (hm : s'.sent = s.sent) (hc : s'.connections = s.connections) :=
    served_of_sent h [] (hm.trans (List.append_nil _).symm) fun d => by rw [hc]
  cases a <;> simp only [act] at hs
  case connect =>
    cases hs
    refine served_of_sent h [] (List.append_nil _).symm fun d => ?_
    simp only [connect, Map.lookup_insert_ite]
    split
    case isFalse => rfl
    case isTrue hd =>
      refine iff_of_false (by simp) fun hc => ?_
      have hm : d ∈ s.connections := Map.mem_iff_lookup.mpr ⟨_, hc⟩
      exact absurd (hd ▸ ha.connections d hm) (Nat.lt_irrefl _)
  case setupConnection d _ _ =>
    split at hs <;> cases hs
    case isTrue hc =>
      have hn : d ∉ b.tasks := by
        rw [h.tasks, hc]
        simp
      refine ⟨_, by simp [deliveries, Machine.exec, Delivery.machine, Delivery.step, hn]; rfl, ?_⟩
      refine ⟨h.sent, fun d' => ?_⟩
      simp only [setDownstream, AList.mem_insert, Map.lookup_insert_ite, h.tasks]
      split <;> simp_all
  case hangUp d =>
    split at hs <;> cases hs
    simp only [deliveries]
    split
    case isTrue hc =>
      have hm : d ∈ b.tasks := (h.tasks d).mpr hc
      refine ⟨_, by simp [Machine.exec, Delivery.machine, Delivery.step, hm]; rfl, ?_⟩
      refine ⟨h.sent, fun d' => ?_⟩
      simp only [AList.mem_erase, Map.lookup_erase_ite, h.tasks]
      split <;> simp_all
    case isFalse hc =>
      refine ⟨b, rfl, h.sent, fun d' => ?_⟩
      simp only [Map.lookup_erase_ite, h.tasks]
      split
      case isTrue hd => exact iff_of_false (hd ▸ hc) (by simp)
      case isFalse   => rfl
  case negotiate | receive | shutdown | removeDownstream =>
    split at hs <;> cases hs
    exact hsame rfl rfl
  case downstreamMessage =>
    split at hs <;> cases hs
    obtain ⟨ms, hm⟩ := deliver_sent (s := { s with downstreamReceiver := _ }) _
    exact served_of_sent h ms hm fun d => by rw [deliver_connections]
  case templateMessage | vardiff =>
    cases hs
    obtain ⟨ms, hm⟩ := deliver_sent (s := s) _
    exact served_of_sent h ms hm fun d => by rw [deliver_connections]

-- Every run of the pool is a run of its broadcast channel, in which the tasks of the downstreams
-- have not taken anything yet.
theorem served_of_run (hC : C.Lawful) (r : (machine C cfg).Run tr s) (n : ℕ) : ∃ b,
    (Delivery.machine Mining).exec (.init n) (tr.flatMap deliveries) = some b ∧ s.Served b := by
  obtain ⟨s₀, hi, p⟩ := r
  induction p with
  | nil =>
    refine ⟨_, rfl, ?_, fun d => ?_⟩
    · simp [hi.sent, Delivery.init]
    · simp [hi.connections, Delivery.init]
  | snoc p hs ih =>
    obtain ⟨b, he, hb⟩ := ih
    obtain ⟨b', he', hb'⟩ := served_step (attributed_of_run hC ⟨s₀, hi, p⟩) hb hs
    refine ⟨b', ?_, hb'⟩
    rw [List.flatMap_append, Machine.exec_append, he, Option.bind_some]
    simpa using he'

end System

namespace Sample

-- The downstream opens six channels, each of which is answered with three messages, before its task
-- takes the first of them.
def flooded : List Action :=
  [future 1, prevHash 1] ++ connected ++ (List.replicate 6 (handled 1 openStandard)).flatten

def floodedDeliveries : List (Delivery.Action Mining) :=
  ((machine reference config).trace start flooded).flatMap deliveries

theorem floodedDeliveries_exec : ((Delivery.machine Mining).exec (.init 16) floodedDeliveries).any
    fun b => (b.tasks.lookup 1).isSome &&
      ((Delivery.machine Mining).step b (.handleChannelManagerMessage 1)).any fun b' =>
        (b'.tasks.lookup 1).any fun t =>
          t.outbound.length + (Delivery.routed 1 (b'.channel.sent.drop t.next)).length <
            (Delivery.routed 1 (b'.channel.sent.drop t.start)).length := by
  decide +kernel

-- One channel is opened, and the task takes what it is sent.
def answeredDeliveries : List (Delivery.Action Mining) :=
  ((machine reference config).trace start (opened ++ [.downstreamMessage])).flatMap deliveries ++
    List.replicate 3 (.handleChannelManagerMessage 1)

theorem answeredDeliveries_exec : ((Delivery.machine Mining).exec (.init 16) answeredDeliveries).any
    fun b => (b.tasks.lookup 1).any (·.outbound.length = 3) := by
  decide +kernel

theorem answeredDeliveries_oldest :
    ((Delivery.machine Mining).trace (.init 16) answeredDeliveries).all
      (·.pre.channel.oldest = 0) := by
  decide +kernel

end Sample

open Sample in
theorem not_delivers : ¬∀ tr b, (Delivery.machine Mining).Run tr b → ∀ e ∈ tr, e.post.Delivers := by
  intro h
  obtain ⟨b, hb, hf⟩ := Option.any_eq_true _ _ |>.mp floodedDeliveries_exec
  rw [Bool.and_eq_true, Option.any_eq_true] at hf
  obtain ⟨_, b', hb', hf⟩ := hf
  obtain ⟨t, ht, hl⟩ := Option.any_eq_true _ _ |>.mp hf
  have r := (Machine.Run.of_exec (Delivery.init_init (by decide)) hb).snoc hb'
  have hd := h _ _ r _ List.mem_concat_self 1 t ht
  have := congrArg List.length hd
  rw [List.length_append] at this
  exact Nat.lt_irrefl _ (this ▸ of_decide_eq_true hl)

open Sample in
theorem delivers_iff_sample : ∃ tr b, (Delivery.machine Mining).Run tr b ∧
    (∃ t, b.tasks.lookup 1 = some t ∧ t.outbound.length = 3) ∧ ∀ e ∈ tr, e.post.Delivers := by
  obtain ⟨b, hb, hf⟩ := Option.any_eq_true _ _ |>.mp answeredDeliveries_exec
  obtain ⟨t, ht, hl⟩ := Option.any_eq_true _ _ |>.mp hf
  have r := Machine.Run.of_exec (Delivery.init_init (by decide)) hb
  refine ⟨_, b, r, ⟨t, ht, of_decide_eq_true hl⟩, (Delivery.delivers_iff r).mpr ?_⟩
  intro e he d t _ _
  have ho : e.pre.channel.oldest = 0 := by
    simpa using List.all_eq_true.mp answeredDeliveries_oldest e he
  rw [Broadcast.missed_of_le (ho ▸ Nat.zero_le _), Delivery.routed_nil]

end Pool
