import StratumApps.Lib.Broadcast
import StratumApps.Lib.Map
import StratumApps.Lib.Transition

-- The way of a message from the channel manager to the outbound queue of a downstream. The pool and
-- the job declarator client have the same code for it: one broadcast channel for all downstreams.
namespace Tasks

abbrev DownstreamId := ℕ

-- The task of a downstream, with the position its receiver had when the task began.
structure DownstreamTask (μ : Type) where
  start    : ℕ
  next     : ℕ
  outbound : List μ

structure Delivery (μ : Type) where
  channel : Broadcast (DownstreamId × μ)
  tasks   : Map DownstreamId (DownstreamTask μ)

namespace Delivery

variable {μ : Type}

-- A task exits for any of its reasons: a shutdown, an error, a closed outbound queue.
inductive Action (μ : Type)
  | forward (d : DownstreamId) (m : μ)
  | start (d : DownstreamId)
  | handleChannelManagerMessage (d : DownstreamId)
  | exit (d : DownstreamId)

section Defs

variable (s : Delivery μ) (d : DownstreamId)

-- A message for another downstream is ignored, and so is the error of a receiver that has lagged.
def handleChannelManagerMessage (t : DownstreamTask μ) : DownstreamTask μ :=
  match s.channel.recv t.next with
  | (.empty, next) | (.lagged, next) => { t with next := next }
  | (.value (d', m), next) =>
    if d' = d then
      { t with next := next, outbound := t.outbound ++ [m] }
    else
      { t with next := next }

def step : Action μ → Option (Delivery μ)
  | .forward d m => some { s with channel := s.channel.send (d, m) }
  | .start d =>
    if d ∈ s.tasks then
      none
    else
      some { s with tasks := s.tasks.insert d ⟨s.channel.sent.length, s.channel.sent.length, []⟩ }
  | .handleChannelManagerMessage d =>
    match s.tasks.lookup d with
    | none   => none
    | some t => some { s with tasks := s.tasks.insert d (s.handleChannelManagerMessage d t) }
  | .exit d => if d ∈ s.tasks then some { s with tasks := s.tasks.erase d } else none

-- `broadcast::channel(10)` holds ten messages at least.
structure Init : Prop where
  capacity : 10 ≤ s.channel.capacity
  sent     : s.channel.sent = []
  tasks    : s.tasks = ∅

-- The channel before anything is sent over it.
def init (capacity : ℕ) : Delivery μ where
  channel := ⟨capacity, []⟩
  tasks   := ∅

end Defs

def machine (μ : Type) : Machine (Delivery μ) (Action μ) where
  Init := Init
  step := step

theorem init_init {n : ℕ} (h : 10 ≤ n) : (machine μ).Init (init n) :=
  ⟨h, rfl, rfl⟩

-- The messages for a downstream among those sent.
def routed (d : DownstreamId) (sent : List (DownstreamId × μ)) : List μ :=
  (sent.filter (·.1 = d)).map Prod.snd

-- What the task of a downstream has written, and what it will still take, is all that was routed to
-- it, in order.
def Delivers (s : Delivery μ) : Prop :=
  ∀ d t, s.tasks.lookup d = some t →
    t.outbound ++ routed d (s.channel.sent.drop t.next) = routed d (s.channel.sent.drop t.start)

-- A task that takes has not been overtaken by messages of its own.
def Prompt (s : Delivery μ) (a : Action μ) : Prop :=
  ∀ d t, a = .handleChannelManagerMessage d → s.tasks.lookup d = some t →
    routed d (s.channel.missed t.next) = []

section Routed

variable {d d' : DownstreamId} {m : μ} {l l' : List (DownstreamId × μ)}

@[simp]
theorem routed_nil : routed d ([] : List (DownstreamId × μ)) = [] :=
  rfl

@[simp]
theorem routed_append : routed d (l ++ l') = routed d l ++ routed d l' := by
  simp [routed]

theorem routed_cons : routed d ((d', m) :: l) = (if d' = d then [m] else []) ++ routed d l := by
  by_cases h : d' = d <;> simp [routed, h]

end Routed

variable {s s' : Delivery μ} {a : Action μ} {d : DownstreamId} {t : DownstreamTask μ}
variable {tr : List (Machine.Event (Delivery μ) (Action μ))}

-- The positions of a task are positions of the channel.
def Placed (s : Delivery μ) : Prop :=
  ∀ d t, s.tasks.lookup d = some t → t.start ≤ s.channel.sent.length ∧ t.next ≤ s.channel.sent.length

theorem handleChannelManagerMessage_next :
    (s.handleChannelManagerMessage d t).next = (s.channel.recv t.next).2 := by
  rw [handleChannelManagerMessage]
  split <;> rename_i hr <;> rw [hr]
  split <;> rfl

theorem handleChannelManagerMessage_start :
    (s.handleChannelManagerMessage d t).start = t.start := by
  rw [handleChannelManagerMessage]
  split <;> try rfl
  split <;> rfl

-- What a task writes and still has to take is what it had, but for the messages it has missed.
theorem handleChannelManagerMessage_writes :
    t.outbound ++ routed d (s.channel.sent.drop t.next) =
        (s.handleChannelManagerMessage d t).outbound ++
          routed d (s.channel.missed t.next) ++
          routed d (s.channel.sent.drop (s.handleChannelManagerMessage d t).next) := by
  rw [handleChannelManagerMessage_next, handleChannelManagerMessage]
  obtain ⟨hr, hl⟩ | ⟨hr, hl, _⟩ | ⟨⟨d', m⟩, hr, hl, hv⟩ :=
    s.channel.recv_cases t.next <;> simp only [hr]
  · rw [Broadcast.drop_of_lagged (Nat.le_of_lt hl), routed_append, List.append_assoc]
  · rw [Broadcast.missed_of_le hl, routed_nil, List.append_nil]
  · rw [Broadcast.missed_of_le hl, routed_nil, List.append_nil, Broadcast.drop_of_value hv, routed_cons]
    split <;> simp

theorem placed_step (h : s.Placed) (hs : s.step a = some s') : s'.Placed := by
  cases a <;> simp only [step] at hs
  case forward =>
    cases hs
    intro d t ht
    have := h d t ht
    simp only [Broadcast.send_sent, List.length_append]
    omega
  case start =>
    split at hs <;> cases hs
    intro d t ht
    rw [Map.lookup_insert_ite] at ht
    split at ht
    case isTrue  => cases ht; simp
    case isFalse => exact h d t ht
  case handleChannelManagerMessage =>
    split at hs <;> cases hs
    case h_2 t₀ ht₀ =>
      intro d t ht
      rw [Map.lookup_insert_ite] at ht
      split at ht
      case isFalse => exact h d t ht
      case isTrue  =>
        cases ht
        obtain ⟨hs, hn⟩ := h _ t₀ ht₀
        rw [handleChannelManagerMessage_next, handleChannelManagerMessage_start]
        exact ⟨hs, Broadcast.recv_le_length hn⟩
  case exit =>
    split at hs <;> cases hs
    intro d t ht
    rw [Map.lookup_erase_ite] at ht
    split at ht
    case isTrue  => cases ht
    case isFalse => exact h d t ht

theorem placed_of_run (r : (machine μ).Run tr s) : s.Placed :=
  r.reachable.invariant (fun s hi d t ht => by simp [hi.tasks] at ht) fun _ _ _ => placed_step

-- A step keeps the messages of every downstream if and only if no task misses one of its own.
theorem delivers_step (hp : s.Placed) (h : s.Delivers) (hs : s.step a = some s') :
    s'.Delivers ↔ Prompt s a := by
  cases a <;> simp only [step] at hs
  case forward d' m =>
    cases hs
    refine iff_of_true (fun d t ht => ?_) fun _ _ ha => by cases ha
    obtain ⟨hs, hn⟩ := hp d t ht
    simp only [Broadcast.send_sent, List.drop_append_of_le_length hs,
      List.drop_append_of_le_length hn, routed_append]
    rw [← h d t ht, List.append_assoc]
  case start d' =>
    split at hs <;> cases hs
    refine iff_of_true (fun d t ht => ?_) fun _ _ ha => by cases ha
    rw [Map.lookup_insert_ite] at ht
    split at ht
    case isTrue  => cases ht; simp
    case isFalse => exact h d t ht
  case handleChannelManagerMessage d' =>
    split at hs <;> cases hs
    case h_2 t ht =>
      have hw := handleChannelManagerMessage_writes (s := s) (d := d') (t := t)
      rw [h d' t ht] at hw
      constructor
      case mp =>
        intro hd d₁ t₁ ha ht₁
        cases ha
        cases ht.symm.trans ht₁
        have := hd d' _ (AList.lookup_insert _)
        simp only [handleChannelManagerMessage_start, hw, List.append_assoc] at this
        have := congrArg List.length this
        simp only [List.length_append] at this
        exact List.eq_nil_of_length_eq_zero (by omega)
      case mpr =>
        intro hm d t₁ ht₁
        rw [Map.lookup_insert_ite] at ht₁
        split at ht₁
        case isFalse => exact h d t₁ ht₁
        case isTrue hd =>
          cases ht₁
          subst hd
          simp only [handleChannelManagerMessage_start, hw, hm d t rfl ht, List.append_nil]
  case exit =>
    split at hs <;> cases hs
    refine iff_of_true (fun d t ht => ?_) fun _ _ ha => by cases ha
    rw [Map.lookup_erase_ite] at ht
    split at ht
    case isTrue  => cases ht
    case isFalse => exact h d t ht

-- Over a whole run, what is routed to the downstreams that are connected is delivered exactly if no
-- task that takes has been overtaken by messages of its own.
theorem delivers_iff (r : (machine μ).Run tr s) :
    (∀ e ∈ tr, e.post.Delivers) ↔ Machine.Along Prompt tr := by
  obtain ⟨s₀, hi, p⟩ := r
  have hd₀ : s₀.Delivers := fun d t ht => by simp [hi.tasks] at ht
  suffices h : ((∀ e ∈ tr, e.post.Delivers) ↔ Machine.Along Prompt tr) ∧
      (Machine.Along Prompt tr → s.Delivers) from h.left
  induction p with
  | nil => exact ⟨by simp [Machine.Along], fun _ => hd₀⟩
  | @snoc tr s₁ s₂ a p hs ih =>
    obtain ⟨ih, hd⟩ := ih
    have hp : s₁.Placed := placed_of_run ⟨s₀, hi, p⟩
    have hiff (hk : Machine.Along Prompt tr) := delivers_step hp (hd hk) hs
    simp only [List.mem_append, List.mem_singleton, or_imp, forall_and, forall_eq, ih,
      Machine.Along.snoc]
    exact ⟨and_congr_right hiff, fun hk => (hiff hk.left).mpr hk.right⟩

-- A task that has not been overtaken writes all that was routed to it once it has taken as often as
-- it is behind.
theorem catches_up (hpl : s.Placed) (h : s.Delivers) (ht : s.tasks.lookup d = some t)
    (ho : s.channel.oldest ≤ t.next) (n : ℕ) (hn : t.next + n = s.channel.sent.length) :
    ∃ s' t', (machine μ).exec s (List.replicate n (.handleChannelManagerMessage d)) = some s' ∧
      s'.tasks.lookup d = some t' ∧ t'.outbound = routed d (s.channel.sent.drop t.start) := by
  induction n generalizing s t with
  | zero =>
    have := h d t ht
    refine ⟨s, t, rfl, ht, ?_⟩
    rwa [show t.next = s.channel.sent.length from hn, List.drop_length, routed_nil,
      List.append_nil] at this
  | succ n ih =>
    have hs : s.step (.handleChannelManagerMessage d) =
        some { s with tasks := s.tasks.insert d (s.handleChannelManagerMessage d t) } := by
      simp only [step, ht]
    have hp : Prompt s (.handleChannelManagerMessage d) := by
      intro d' t' ha ht'
      cases ha
      cases ht.symm.trans ht'
      rw [Broadcast.missed_of_le ho, routed_nil]
    have hd := (delivers_step hpl h hs).mpr hp
    have hr : (s.handleChannelManagerMessage d t).next = t.next + 1 := by
      rw [handleChannelManagerMessage_next]
      obtain ⟨_, hl⟩ | ⟨_, _, hl⟩ | ⟨_, hr, _⟩ := s.channel.recv_cases t.next
      · exact absurd hl (Nat.not_lt.mpr ho)
      · omega
      · rw [hr]
    have hn : (s.handleChannelManagerMessage d t).next + n = s.channel.sent.length := by omega
    obtain ⟨s', t', he, ht', hw⟩ :=
      ih (placed_step hpl hs) hd (AList.lookup_insert _) (hr ▸ Nat.le_succ_of_le ho) hn
    refine ⟨s', t', ?_, ht', ?_⟩
    · rw [List.replicate_succ, Machine.exec]
      exact Option.bind_eq_some_iff.mpr ⟨_, hs, he⟩
    · rw [hw, handleChannelManagerMessage_start]

end Delivery

end Tasks
