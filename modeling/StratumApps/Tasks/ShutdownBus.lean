import StratumApps.Sv2.Mining
import StratumApps.Tasks.Delivery

open Sv2

-- The broadcast channel of shutdown notices. The pool sends the first three kinds of them, the job
-- declarator client all.
namespace Tasks

inductive ShutdownMessage
  | shutdownAll
  | downstreamShutdownAll
  | downstreamShutdown (d : DownstreamId)
  | jobDeclaratorShutdownFallback
  | upstreamShutdownFallback
  | jobDeclaratorShutdown
  | upstreamShutdown
  deriving DecidableEq

abbrev Notice := Broadcast.Received ShutdownMessage

-- The loop of a task with the position of its receiver, or what has ended it.
inductive Loop
  | running (next : ℕ)
  | ended (on : Notice)
  deriving DecidableEq

-- What the manager keeps of its downstreams and of their channels.
structure ManagerData (α β : Type) where
  downstream : Map DownstreamId α
  vardiff    : Map (DownstreamId × ChannelId) β

-- The tasks that receive the notices. `removed` is the downstreams that the manager has removed.
structure ShutdownBus (α β : Type) where
  channel     : Broadcast ShutdownMessage
  manager     : Loop
  data        : ManagerData α β
  removed     : List DownstreamId
  server      : Loop
  downstreams : Map DownstreamId Loop

variable {α β : Type}

namespace ManagerData

variable (data : ManagerData α β) (d : DownstreamId)

def removeDownstream : ManagerData α β where
  downstream := data.downstream.erase d
  vardiff    := data.vardiff.retain (·.1 ≠ d)

def reset : ManagerData α β :=
  { data with downstream := ∅ }

-- Exactly one downstream has gone, with its vardiff states.
structure Removed (data' : ManagerData α β) : Prop where
  downstream : d ∉ data'.downstream
  vardiff    : ∀ c, (d, c) ∉ data'.vardiff
  others     : ∀ d', d' ≠ d → data'.downstream.lookup d' = data.downstream.lookup d' ∧
    ∀ c, data'.vardiff.lookup (d', c) = data.vardiff.lookup (d', c)

theorem removeDownstream_removed : data.Removed d (data.removeDownstream d) where
  downstream   := by simp [removeDownstream, AList.mem_erase]
  vardiff c    := by simp [removeDownstream, Map.mem_iff_lookup, Map.lookup_retain]
  others d' hd := by simp [removeDownstream, AList.lookup_erase_ne hd, Map.lookup_retain, hd]

end ManagerData

namespace ShutdownBus

inductive Action (α β : Type)
  | notify (m : ShutdownMessage)
  | manager
  | handle (data : ManagerData α β)
  | server
  | restartServer
  | downstream (d : DownstreamId)
  | connect (d : DownstreamId)
  | exit (d : DownstreamId)

section Defs

-- Which notices end the loop of the channel manager, of the downstream server and of a downstream.
def managerEnds : Notice → Bool
  | .value .shutdownAll | .lagged => true
  | _                             => false

def serverEnds : Notice → Bool
  | .value .shutdownAll | .value .jobDeclaratorShutdownFallback
  | .value .upstreamShutdownFallback | .lagged => true
  | _                                          => false

def downstreamEnds (d : DownstreamId) : Notice → Bool
  | .value .shutdownAll | .value .jobDeclaratorShutdownFallback
  | .value .upstreamShutdownFallback => true
  | .value (.downstreamShutdown d')  => d' = d
  | _                                => false

def downstreamShutdown? : Notice → Option DownstreamId
  | .value (.downstreamShutdown d) => some d
  | _                              => none

-- What the manager does with a notice that does not end it.
def onShutdown (data : ManagerData α β) : Notice → ManagerData α β
  | .value (.downstreamShutdown d)                                         => data.removeDownstream d
  | .value .jobDeclaratorShutdownFallback | .value .upstreamShutdownFallback => data.reset
  | _                                                                      => data

-- A loop takes from its receiver, and waits as long as there is nothing.
def take (channel : Broadcast ShutdownMessage) (ends : Notice → Bool) : Loop → Option (Notice × Loop)
  | .ended _      => none
  | .running next =>
    match channel.recv next with
    | (.empty, _) => none
    | (on, next)  => some (on, if ends on then .ended on else .running next)

variable (s : ShutdownBus α β)

def step : Action α β → Option (ShutdownBus α β)
  | .notify m => some { s with channel := s.channel.send m }
  | .manager  =>
    (take s.channel managerEnds s.manager).map fun r =>
      { s with
        manager := r.2
        data    := onShutdown s.data r.1
        removed := s.removed ++ (downstreamShutdown? r.1).toList }
  | .handle data   => some { s with data := data }
  | .server        =>
    (take s.channel serverEnds s.server).map fun r => { s with server := r.2 }
  | .restartServer => some { s with server := .running s.channel.sent.length }
  | .downstream d  => do
    let loop ← s.downstreams.lookup d
    let r ← take s.channel (downstreamEnds d) loop
    return { s with downstreams := s.downstreams.insert d r.2 }
  | .connect d => some { s with
      downstreams := s.downstreams.insert d (.running s.channel.sent.length) }
  | .exit d    => some { s with downstreams := s.downstreams.erase d }

-- `broadcast::channel(100)` holds a hundred notices at least. The manager and the server subscribe
-- before there is a downstream.
structure Init : Prop where
  capacity    : 100 ≤ s.channel.capacity
  sent        : s.channel.sent = []
  manager     : s.manager = .running 0
  removed     : s.removed = []
  server      : s.server = .running 0
  downstreams : s.downstreams = ∅

def init (capacity : ℕ) : ShutdownBus α β where
  channel     := ⟨capacity, []⟩
  manager     := .running 0
  data        := ⟨∅, ∅⟩
  removed     := []
  server      := .running 0
  downstreams := ∅

end Defs

def machine (α β : Type) : Machine (ShutdownBus α β) (Action α β) where
  Init := Init
  step := step

theorem init_init {n : ℕ} (h : 100 ≤ n) : (machine α β).Init (init n) :=
  ⟨h, rfl, rfl, rfl, rfl, rfl⟩

-- The notice that ends a loop is one that is meant to end it.
def meantForServer : ShutdownMessage → Prop
  | .shutdownAll | .jobDeclaratorShutdownFallback | .upstreamShutdownFallback => True
  | _                                                                        => False

def notices (sent : List ShutdownMessage) : List DownstreamId :=
  sent.filterMap fun m => downstreamShutdown? (.value m)

-- The manager removes the downstreams in the order of their notices and misses none, and no loop
-- ends but by a notice that is meant to end it.
structure Sound (s : ShutdownBus α β) : Prop where
  removed     : ∀ n, s.manager = .running n →
    s.removed ++ notices (s.channel.sent.drop n) = notices s.channel.sent
  manager     : ∀ on, s.manager = .ended on → on = .value .shutdownAll
  server      : ∀ on, s.server = .ended on → ∃ m, on = .value m ∧ meantForServer m
  downstreams : ∀ d on, s.downstreams.lookup d = some (.ended on) →
    ∃ m, on = .value m ∧ (meantForServer m ∨ m = .downstreamShutdown d)

-- A removal takes exactly the downstream that the notice names.
def Removes (e : Machine.Event (ShutdownBus α β) (Action α β)) : Prop :=
  ∀ d, e.post.removed = e.pre.removed ++ [d] → e.pre.data.Removed d e.post.data

-- Neither the manager nor the server takes when it has lagged behind.
def InTime (s : ShutdownBus α β) (a : Action α β) : Prop :=
  ∀ n, a = .manager ∧ s.manager = .running n ∨ a = .server ∧ s.server = .running n →
    s.channel.oldest ≤ n

variable {s s' : ShutdownBus α β} {a : Action α β} {loop loop' : Loop} {on : Notice} {ends : Notice → Bool}
variable {channel : Broadcast ShutdownMessage} {tr : List (Machine.Event (ShutdownBus α β) (Action α β))}

theorem take_eq_some (h : take channel ends loop = some (on, loop')) : ∃ n, loop = .running n ∧
    (n < channel.oldest ∧ on = .lagged ∧
        loop' = (if ends .lagged then .ended .lagged else .running channel.oldest) ∨
      channel.oldest ≤ n ∧ ∃ m, channel.sent[n]? = some m ∧ on = .value m ∧
        loop' = if ends on then .ended on else .running (n + 1)) := by
  cases loop with
  | ended    => cases h
  | running n =>
    refine ⟨n, rfl, ?_⟩
    obtain ⟨hr, hl⟩ | ⟨hr, _⟩ | ⟨m, hr, hl, hm⟩ := channel.recv_cases n <;>
      simp only [take, hr, Option.some.injEq, Prod.mk.injEq, reduceCtorEq] at h
    · exact .inl ⟨hl, h.left.symm, h.right.symm⟩
    · obtain ⟨rfl, rfl⟩ := h
      exact .inr ⟨hl, m, hm, rfl, rfl⟩

theorem notices_append {l l' : List ShutdownMessage} : notices (l ++ l') = notices l ++ notices l' :=
  List.filterMap_append

theorem notices_cons {m : ShutdownMessage} {l : List ShutdownMessage} :
    notices (m :: l) = (downstreamShutdown? (.value m)).toList ++ notices l := by
  cases h : downstreamShutdown? (.value m) <;> simp [notices, h]

-- The position of the manager is a position of the channel.
def Placed (s : ShutdownBus α β) : Prop :=
  ∀ n, s.manager = .running n → n ≤ s.channel.sent.length

theorem placed_step (h : s.Placed) (hs : s.step a = some s') : s'.Placed := by
  cases a <;> simp only [step] at hs
  case notify =>
    cases hs
    intro n hn
    have := h n hn
    simp only [Broadcast.send_sent, List.length_append]
    omega
  case manager =>
    obtain ⟨⟨on, loop⟩, ht, rfl⟩ := Option.map_eq_some_iff.mp hs
    intro n hn
    simp only at hn
    subst hn
    obtain ⟨n₀, hn₀, ⟨_, _, he⟩ | ⟨_, m, hm, _, he⟩⟩ := take_eq_some ht
    · simp [managerEnds] at he
    · split at he <;> cases he
      exact (List.getElem?_eq_some_iff.mp hm).1
  case handle | restartServer | connect | exit =>
    cases hs
    exact h
  case server =>
    obtain ⟨_, _, rfl⟩ := Option.map_eq_some_iff.mp hs
    exact h
  case downstream =>
    simp only [Option.bind_eq_bind, Option.bind_eq_some_iff, Option.pure_def, Option.some_inj] at hs
    obtain ⟨_, _, _, _, rfl⟩ := hs
    exact h

theorem placed_of_run (r : (machine α β).Run tr s) : s.Placed := by
  refine r.reachable.invariant (fun s hi n hn => ?_) fun _ _ _ => placed_step
  cases hi.manager.symm.trans hn
  exact Nat.zero_le _

theorem managerEnds_value {m : ShutdownMessage} (h : managerEnds (.value m) = true) :
    m = .shutdownAll := by
  cases m <;> simp_all [managerEnds]

theorem serverEnds_value {m : ShutdownMessage} (h : serverEnds (.value m) = true) :
    meantForServer m := by
  cases m <;> simp_all [serverEnds, meantForServer]

theorem downstreamEnds_value {d : DownstreamId} {m : ShutdownMessage}
    (h : downstreamEnds d (.value m) = true) : meantForServer m ∨ m = .downstreamShutdown d := by
  cases m <;> simp_all [downstreamEnds, meantForServer]

theorem inTime_of_ne (hm : a ≠ .manager) (hs : a ≠ .server) : InTime s a :=
  fun _ h => h.elim (absurd ·.left hm) (absurd ·.left hs)

-- What the manager has removed and is still to remove stays the same when it takes.
theorem take_removed (h : s.Sound) (ht : take s.channel managerEnds s.manager = some (on, loop'))
    (n : ℕ) (hn : loop' = .running n) :
    s.removed ++ (downstreamShutdown? on).toList ++ notices (s.channel.sent.drop n) =
      notices s.channel.sent := by
  obtain ⟨n₀, hn₀, ⟨_, _, rfl⟩ | ⟨_, m, hm, rfl, rfl⟩⟩ := take_eq_some ht
  · simp [managerEnds] at hn
  · split at hn
    case isTrue => cases hn
    case isFalse =>
      cases hn
      have := h.removed n₀ hn₀
      rw [Broadcast.drop_of_value hm, notices_cons] at this
      rw [List.append_assoc, this]

-- A loop that takes in time ends by a notice only, one that lags ends by that.
theorem take_ended (ht : take channel ends loop = some (on, loop')) (hl : ends .lagged = true) :
    (∀ on, loop' = .ended on → ∃ m, on = .value m ∧ ends (.value m) = true) ↔
      ∀ n, loop = .running n → channel.oldest ≤ n := by
  obtain ⟨n, hn, ⟨hlt, _, rfl⟩ | ⟨hle, m, _, rfl, rfl⟩⟩ := take_eq_some ht
  · refine iff_of_false (fun h => ?_) fun h => absurd (h n hn) (Nat.not_le.mpr hlt)
    obtain ⟨m, hm, _⟩ := h .lagged (by rw [if_pos hl])
    cases hm
  · refine iff_of_true (fun on h => ?_) fun n' hn' => ?_
    · split at h
      case isTrue he =>
        cases h
        exact ⟨m, rfl, he⟩
      case isFalse => cases h
    · cases hn.symm.trans hn'
      exact hle

-- A step keeps the notices effective and the loops going if and only if it is in time.
theorem sound_step (h : s.Sound) (hp : s.Placed) (hs : s.step a = some s') :
    s'.Sound ↔ InTime s a := by
  obtain ⟨hr, hm, hse, hd⟩ := h
  cases a <;> simp only [step] at hs
  case notify m =>
    cases hs
    refine iff_of_true ⟨fun n hn => ?_, hm, hse, hd⟩ (inTime_of_ne (by simp) (by simp))
    rw [Broadcast.send_sent, List.drop_append_of_le_length (hp n hn), notices_append,
      notices_append, ← hr n hn, List.append_assoc]
  case manager =>
    obtain ⟨⟨on, loop⟩, ht, rfl⟩ := Option.map_eq_some_iff.mp hs
    have hi : InTime s (.manager : Action α β) ↔
        ∀ n, s.manager = .running n → s.channel.oldest ≤ n := by
      simp [InTime]
    rw [hi, ← take_ended ht rfl]
    constructor
    case mp =>
      intro h on he
      exact ⟨_, h.manager on he, rfl⟩
    case mpr =>
      intro h
      refine ⟨fun n => take_removed ⟨hr, hm, hse, hd⟩ ht n, fun on he => ?_, hse, hd⟩
      obtain ⟨m, rfl, hv⟩ := h on he
      rw [managerEnds_value hv]
  case server =>
    obtain ⟨⟨on, loop⟩, ht, rfl⟩ := Option.map_eq_some_iff.mp hs
    have hi : InTime s (.server : Action α β) ↔
        ∀ n, s.server = .running n → s.channel.oldest ≤ n := by
      simp [InTime]
    rw [hi, ← take_ended ht rfl]
    constructor
    case mp =>
      intro h on he
      obtain ⟨m, hm, hf⟩ := h.server on he
      refine ⟨m, hm, ?_⟩
      cases m <;> first | rfl | exact hf.elim
    case mpr =>
      intro h
      refine ⟨hr, hm, fun on he => ?_, hd⟩
      obtain ⟨m, rfl, hv⟩ := h on he
      exact ⟨m, rfl, serverEnds_value hv⟩
  case handle =>
    cases hs
    exact iff_of_true ⟨hr, hm, hse, hd⟩ (inTime_of_ne (by simp) (by simp))
  case restartServer =>
    cases hs
    exact iff_of_true ⟨hr, hm, by simp, hd⟩ (inTime_of_ne (by simp) (by simp))
  case downstream d =>
    simp only [Option.bind_eq_bind, Option.bind_eq_some_iff, Option.pure_def, Option.some_inj] at hs
    obtain ⟨loop, hl, ⟨on, loop'⟩, ht, rfl⟩ := hs
    refine iff_of_true ⟨hr, hm, hse, fun d' on' hd' => ?_⟩ (inTime_of_ne (by simp) (by simp))
    rw [Map.lookup_insert_ite] at hd'
    split at hd'
    case isFalse => exact hd d' on' hd'
    case isTrue he =>
      subst he
      obtain ⟨n, _, ⟨_, _, rfl⟩ | ⟨_, m, _, rfl, rfl⟩⟩ := take_eq_some ht
      · simp [downstreamEnds] at hd'
      · split at hd'
        case isTrue he =>
          cases hd'
          exact ⟨m, rfl, downstreamEnds_value he⟩
        case isFalse => cases hd'
  case connect d =>
    cases hs
    refine iff_of_true ⟨hr, hm, hse, fun d' on' hd' => ?_⟩ (inTime_of_ne (by simp) (by simp))
    rw [Map.lookup_insert_ite] at hd'
    split at hd'
    case isTrue  => cases hd'
    case isFalse => exact hd d' on' hd'
  case exit d =>
    cases hs
    refine iff_of_true ⟨hr, hm, hse, fun d' on' hd' => ?_⟩ (inTime_of_ne (by simp) (by simp))
    rw [Map.lookup_erase_ite] at hd'
    split at hd'
    case isTrue  => cases hd'
    case isFalse => exact hd d' on' hd'

-- The manager removes exactly the downstream whose notice it takes, and nothing else is removed.
theorem removes_of_step (hs : s.step a = some s') : Removes ⟨s, a, s'⟩ := by
  intro d hd
  have hne {l : List DownstreamId} (h : l = l ++ [d]) : False :=
    List.cons_ne_nil _ _ (List.append_right_eq_self.mp h.symm)
  cases a <;> simp only [step] at hs
  case manager =>
    obtain ⟨⟨on, loop⟩, ht, rfl⟩ := Option.map_eq_some_iff.mp hs
    have ho : downstreamShutdown? on = some d := by
      have := List.append_cancel_left hd
      simpa using this
    cases on with
    | empty | lagged => cases ho
    | value m        =>
      cases m <;> cases ho
      exact ManagerData.removeDownstream_removed _ d
  case server =>
    obtain ⟨_, _, rfl⟩ := Option.map_eq_some_iff.mp hs
    exact (hne hd).elim
  case downstream =>
    simp only [Option.bind_eq_bind, Option.bind_eq_some_iff, Option.pure_def, Option.some_inj] at hs
    obtain ⟨_, _, _, _, rfl⟩ := hs
    exact (hne hd).elim
  case notify | handle | restartServer | connect | exit =>
    cases hs
    exact (hne hd).elim

-- Over a whole run, every notice of a disconnection has its downstream removed, that one only, and
-- ends no other loop, exactly if the manager and the server always take in time.
theorem effective_iff (r : (machine α β).Run tr s) :
    (∀ e ∈ tr, e.post.Sound ∧ Removes e) ↔ Machine.Along InTime tr := by
  obtain ⟨s₀, hi, p⟩ := r
  have h₀ : s₀.Sound := by
    refine ⟨fun n hn => ?_, ?_, ?_, ?_⟩
    · cases hi.manager.symm.trans hn
      simp [hi.sent, hi.removed, notices]
    · simp [hi.manager]
    · simp [hi.server]
    · simp [hi.downstreams]
  suffices h : ((∀ e ∈ tr, e.post.Sound ∧ Removes e) ↔ Machine.Along InTime tr) ∧
      (Machine.Along InTime tr → s.Sound) from h.left
  induction p with
  | nil => exact ⟨by simp [Machine.Along], fun _ => h₀⟩
  | @snoc tr s₁ s₂ a p hs ih =>
    obtain ⟨ih, hd⟩ := ih
    have hp : s₁.Placed := placed_of_run ⟨s₀, hi, p⟩
    have hiff (hk : Machine.Along InTime tr) := sound_step (hd hk) hp hs
    have hr := removes_of_step hs
    simp only [List.mem_append, List.mem_singleton, or_imp, forall_and, forall_eq] at ih ⊢
    rw [Machine.Along.snoc]
    refine ⟨⟨?_, ?_⟩, fun hk => (hiff hk.left).mpr hk.right⟩
    · rintro ⟨⟨h₁, h₂⟩, h₃, _⟩
      have hk := ih.mp ⟨h₁, h₃⟩
      exact ⟨hk, (hiff hk).mp h₂⟩
    · rintro ⟨hk, ha⟩
      obtain ⟨h₁, h₃⟩ := ih.mpr hk
      exact ⟨⟨h₁, (hiff hk).mpr ha⟩, h₃, hr⟩

-- A manager that has not lagged has removed all downstreams whose notices are out once it has taken
-- as often as it is behind.
theorem removes_all (hp : s.Placed) (h : s.Sound) {n : ℕ} (hm : s.manager = .running n)
    (ho : s.channel.oldest ≤ n) (ha : .shutdownAll ∉ s.channel.sent.drop n) (k : ℕ)
    (hk : n + k = s.channel.sent.length) : ∃ s',
      (machine α β).exec s (List.replicate k .manager) = some s' ∧
        s'.removed = notices s.channel.sent := by
  induction k generalizing s n with
  | zero =>
    have := h.removed n hm
    refine ⟨s, rfl, ?_⟩
    rwa [show n = s.channel.sent.length from hk, List.drop_length, notices, List.filterMap_nil,
      List.append_nil] at this
  | succ k ih =>
    have hl : n < s.channel.sent.length := by omega
    have hv := List.getElem?_eq_getElem hl
    have hr : s.channel.recv n = (.value s.channel.sent[n], n + 1) := by
      obtain ⟨_, hlt⟩ | ⟨_, _, hle⟩ | ⟨m, hr, _, hm⟩ := s.channel.recv_cases n
      · exact absurd hlt (Nat.not_lt.mpr ho)
      · omega
      · cases hv.symm.trans hm
        exact hr
    rw [List.drop_eq_getElem_cons hl, List.mem_cons, not_or] at ha
    have he : managerEnds (.value s.channel.sent[n]) = false :=
      Bool.eq_false_iff.mpr fun he => ha.left (managerEnds_value he).symm
    have hs : s.step (.manager : Action α β) = some { s with
        manager := .running (n + 1)
        data    := onShutdown s.data (.value s.channel.sent[n])
        removed := s.removed ++ (downstreamShutdown? (.value s.channel.sent[n])).toList } := by
      simp [step, hm, take, hr, he]
    have hi : InTime s (.manager : Action α β) := by
      intro n' hn'
      simp only [true_and, reduceCtorEq, false_and, or_false, hm, Loop.running.injEq] at hn'
      exact hn' ▸ ho
    obtain ⟨s', he', hr'⟩ := ih (placed_step hp hs) ((sound_step h hp hs).mpr hi) rfl
      (Nat.le_succ_of_le ho) ha.right (by show n + 1 + k = s.channel.sent.length; omega)
    refine ⟨s', ?_, hr'⟩
    rw [List.replicate_succ, Machine.exec]
    exact Option.bind_eq_some_iff.mpr ⟨_, hs, he'⟩

end ShutdownBus

namespace Sample

-- More downstreams go than the channel holds notices, before the manager takes the first of them.
def burst : List (ShutdownBus.Action Unit Unit) :=
  (List.range 129).map fun d => .notify (.downstreamShutdown d)

theorem burst_exec : ((ShutdownBus.machine Unit Unit).exec (.init 128) burst).any fun s =>
    ((ShutdownBus.machine Unit Unit).step s .manager).any (·.manager = .ended .lagged) := by
  decide +kernel

def gone : List (ShutdownBus.Action Unit Unit) :=
  [.connect 1, .connect 2, .notify (.downstreamShutdown 1), .server, .manager, .downstream 1,
    .downstream 2]

theorem gone_exec : ((ShutdownBus.machine Unit Unit).exec (.init 128) gone).any
    (·.removed = [1]) := by
  decide +kernel

theorem gone_oldest : ((ShutdownBus.machine Unit Unit).trace (.init 128) gone).all
    (·.pre.channel.oldest = 0) := by
  decide +kernel

end Sample

open Sample in
theorem not_effective : ¬∀ tr s, (ShutdownBus.machine Unit Unit).Run tr s →
    ∀ e ∈ tr, e.post.Sound ∧ ShutdownBus.Removes e := by
  intro h
  obtain ⟨s, hs, he⟩ := Option.any_eq_true _ _ |>.mp burst_exec
  obtain ⟨s', hs', he⟩ := Option.any_eq_true _ _ |>.mp he
  have r := (Machine.Run.of_exec (ShutdownBus.init_init (by decide)) hs).snoc hs'
  have := (h _ _ r _ List.mem_concat_self).left.manager _ (of_decide_eq_true he)
  cases this

open Sample in
theorem effective_iff_sample : ∃ tr s, (ShutdownBus.machine Unit Unit).Run tr s ∧
    s.removed = [1] ∧ ∀ e ∈ tr, e.post.Sound ∧ ShutdownBus.Removes e := by
  obtain ⟨s, hs, he⟩ := Option.any_eq_true _ _ |>.mp gone_exec
  have r := Machine.Run.of_exec (ShutdownBus.init_init (by decide)) hs
  refine ⟨_, s, r, of_decide_eq_true he, (ShutdownBus.effective_iff r).mpr fun e he n _ => ?_⟩
  have ho : e.pre.channel.oldest = 0 := by
    simpa using List.all_eq_true.mp gone_oldest e he
  exact ho ▸ Nat.zero_le n

end Tasks
