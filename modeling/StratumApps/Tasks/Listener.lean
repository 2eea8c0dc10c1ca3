import StratumApps.Tasks.ShutdownBus

open Sv2

namespace Tasks

-- The number the operating system gives a connection, in front of any downstream id.
abbrev Connection := ℕ

-- What a client has sent so far.
structure Peer where
  received : Bytes
  closed   : Bool
  deriving DecidableEq

-- The decoders of the noise handshake and of a frame, which is encrypted for its connection. From the
-- bytes that have arrived they tell whether more are needed, the message is refused, or how many bytes
-- it has taken.
structure Decoders where
  firstMessage : Connection → Bytes → Option (Option ℕ)
  firstFrame   : Connection → Bytes → Option (Option ℕ)

-- Where the task of the downstream server stands: at its `select!`, or in one of the two exchanges
-- with a client that it waits for before it gets there again.
inductive Phase
  | select
  | handshake (c : Connection)
  | setupConnection (c : Connection) (read : ℕ)
  | ended
  deriving DecidableEq

structure Listener where
  phase       : Phase
  backlog     : List Connection
  peers       : Map Connection Peer
  notices     : List ShutdownMessage
  downstreams : List Connection

namespace Listener

inductive Action
  | connect (c : Connection)
  | send (c : Connection) (bytes : Bytes)
  | close (c : Connection)
  | notify (m : ShutdownMessage)
  | accept (ok : Bool)
  | handshake
  | setupConnection
  | shutdown
  deriving DecidableEq

-- The steps of the server itself. The others are those of the clients and of the status loop.
def Action.own : Action → Bool
  | .accept _ | .handshake | .setupConnection | .shutdown => true
  | _                                                    => false

section Defs

variable (D : Decoders) (s : Listener)

def peer (c : Connection) : Peer :=
  (s.peers.lookup c).getD ⟨[], false⟩

-- A read goes on until the decoder is content, and fails at the end of the stream.
def Peer.read (p : Peer) (decode : Bytes → Option (Option ℕ)) : Option (Option ℕ) :=
  (decode p.received).or (if p.closed then some none else none)

def frame (c : Connection) (read : ℕ) : Option (Option ℕ) :=
  Peer.read (s.peer c) fun received => D.firstFrame c (received.drop read)

def step : Action → Option Listener
  | .connect c    =>
    if c ∈ s.peers then
      none
    else
      some { s with backlog := s.backlog ++ [c], peers := s.peers.insert c ⟨[], false⟩ }
  | .send c bytes => some { s with
      peers := s.peers.modify c fun p => { p with received := p.received ++ bytes } }
  | .close c      => some { s with peers := s.peers.modify c ({ · with closed := true }) }
  | .notify m     => some { s with notices := s.notices ++ [m] }
  | .accept ok    =>
    match s.phase, s.backlog with
    | .select, c :: backlog =>
      some { s with phase := if ok then .handshake c else .select, backlog := backlog }
    | _, _ => none
  | .handshake    =>
    match s.phase with
    | .handshake c => (Peer.read (s.peer c) (D.firstMessage c)).map fun r =>
      { s with phase := r.elim .select (.setupConnection c) }
    | _ => none
  | .setupConnection =>
    match s.phase with
    | .setupConnection c n => (s.frame D c n).map fun r =>
      { s with
        phase       := .select
        downstreams := s.downstreams ++ (r.map fun _ => c).toList }
    | _ => none
  | .shutdown     =>
    match s.phase, s.notices with
    | .select, m :: notices => some { s with
        phase   := if ShutdownBus.serverEnds (.value m) then .ended else .select
        notices := notices }
    | _, _ => none

structure Init : Prop where
  phase       : s.phase = .select
  backlog     : s.backlog = []
  peers       : s.peers = ∅
  notices     : s.notices = []
  downstreams : s.downstreams = []

end Defs

def machine (D : Decoders) : Machine Listener Action where
  Init := Init
  step := step D

def init : Listener where
  phase       := .select
  backlog     := []
  peers       := ∅
  notices     := []
  downstreams := []

variable {D : Decoders}

theorem init_init : (machine D).Init init :=
  ⟨rfl, rfl, rfl, rfl, rfl⟩

-- The server gets to its `select!` by steps of its own.
def Selects (D : Decoders) (s : Listener) : Prop :=
  ∃ acts s', (∀ a ∈ acts, Action.own a) ∧ (machine D).exec s acts = some s' ∧ s'.phase = .select

-- The client that the server waits for has sent what it waits for, or has closed its connection.
def Answered (D : Decoders) (s : Listener) : Prop :=
  match s.phase with
  | .select | .ended     => True
  | .handshake c         =>
    ∃ r, Peer.read (s.peer c) (D.firstMessage c) = some r ∧ ∀ n, r = some n → (s.frame D c n).isSome
  | .setupConnection c n => (s.frame D c n).isSome

variable {s s' : Listener} {a : Action}

theorem setupConnection_selects {c : Connection} {n : ℕ} (hp : s.phase = .setupConnection c n)
    (h : (s.frame D c n).isSome) : ∃ s', s.step D .setupConnection = some s' ∧ s'.phase = .select := by
  obtain ⟨r, hr⟩ := Option.isSome_iff_exists.mp h
  simp only [step, hp, hr, Option.map_some]
  exact ⟨_, rfl, rfl⟩

theorem Selects.of_step (ha : a.own = true) (hs : s.step D a = some s') (h : s'.Selects D) :
    s.Selects D := by
  obtain ⟨acts, s₁, ho, he, hp⟩ := h
  refine ⟨a :: acts, s₁, ?_, ?_, hp⟩
  · simpa [ha] using ho
  · exact Option.bind_eq_some_iff.mpr ⟨s', hs, he⟩

theorem Selects.of_select (h : s.phase = .select) : s.Selects D :=
  ⟨[], s, by simp, rfl, h⟩

theorem Answered.selects (h : s.Answered D) (hp : s.phase ≠ .ended) : s.Selects D := by
  rw [Answered] at h
  split at h
  case h_1 hs => exact .of_select hs
  case h_2 he => exact absurd he hp
  case h_3 c hc =>
    obtain ⟨r, hr, hf⟩ := h
    cases r with
    | none =>
      have hs : s.step D .handshake = some { s with phase := .select } := by simp [step, hc, hr]
      exact .of_step rfl hs (.of_select rfl)
    | some n =>
      have hs : s.step D .handshake = some { s with phase := .setupConnection c n } := by
        simp [step, hc, hr]
      obtain ⟨s', hs', hp'⟩ := setupConnection_selects (D := D)
        (s := { s with phase := .setupConnection c n }) rfl (hf n rfl)
      exact .of_step rfl hs (.of_step rfl hs' (.of_select hp'))
  case h_4 c n hc =>
    obtain ⟨s', hs', hp'⟩ := setupConnection_selects hc h
    exact .of_step rfl hs' (.of_select hp')

-- While a client does not answer, no step of the server gets it any further than to wait for the
-- first frame of the same client.
theorem step_not_answered (h : ¬s.Answered D) (ha : a.own = true) (hs : s.step D a = some s') :
    ¬s'.Answered D := by
  cases a <;> simp only [step, Action.own, Bool.false_eq_true] at hs ha
  case accept | shutdown =>
    split at hs <;> cases hs
    case h_1 hp _ => exact absurd (by simp [Answered, hp]) h
  case handshake =>
    split at hs <;> try cases hs
    case h_1 c hp =>
      obtain ⟨r, hr, rfl⟩ := Option.map_eq_some_iff.mp hs
      cases r with
      | none   => exact absurd (by simp [Answered, hp, hr]) h
      | some n =>
        simp only [Answered, hp, hr] at h ⊢
        exact fun hf => h ⟨_, rfl, fun n' hn => Option.some_inj.mp hn ▸ hf⟩
  case setupConnection =>
    split at hs <;> try cases hs
    case h_1 c n hp =>
      obtain ⟨r, hr, _⟩ := Option.map_eq_some_iff.mp hs
      exact absurd (by simp [Answered, hp, hr]) h

theorem Answered.of_selects (h : s.Selects D) : s.Answered D := by
  obtain ⟨acts, s', ho, he, hs'⟩ := h
  by_contra hn
  induction acts generalizing s with
  | nil =>
    cases he
    exact hn (by simp [Answered, hs'])
  | cons a acts ih =>
    obtain ⟨s₁, hs₁, he⟩ := Option.bind_eq_some_iff.mp he
    obtain ⟨ha, ho⟩ := List.forall_mem_cons.mp ho
    exact ih ho he (step_not_answered hn ha hs₁)

variable {tr : List (Machine.Event Listener Action)}

-- No notice that ends the server has been sent.
def Open (tr : List (Machine.Event Listener Action)) : Prop :=
  Machine.Along (fun _ a => ∀ m, a = .notify m → ShutdownBus.serverEnds (.value m) = false) tr

theorem open_of_run (r : (machine D).Run tr s) (ho : Open tr) :
    s.phase ≠ .ended ∧ ∀ m ∈ s.notices, ShutdownBus.serverEnds (.value m) = false := by
  refine r.invariant (I := fun s => s.phase ≠ .ended ∧
    ∀ m ∈ s.notices, ShutdownBus.serverEnds (.value m) = false) (fun s hi => ?_)
    (fun s a s' h ha hs => ?_) ho
  · simp [hi.phase, hi.notices]
  · obtain ⟨hp, hn⟩ := h
    simp only [machine] at hs
    cases a <;> simp only [step] at hs
    case connect =>
      split at hs <;> cases hs
      exact ⟨hp, hn⟩
    case send | close =>
      cases hs
      exact ⟨hp, hn⟩
    case notify m =>
      cases hs
      refine ⟨hp, fun m' hm' => ?_⟩
      cases List.mem_append.mp hm'
      case inl hm' => exact hn m' hm'
      case inr hm' => exact List.mem_singleton.mp hm' ▸ ha m rfl
    case accept ok =>
      split at hs <;> cases hs
      refine ⟨?_, hn⟩
      cases ok <;> simp
    case handshake =>
      split at hs <;> try cases hs
      obtain ⟨r, _, rfl⟩ := Option.map_eq_some_iff.mp hs
      refine ⟨?_, hn⟩
      cases r <;> simp
    case setupConnection =>
      split at hs <;> try cases hs
      obtain ⟨r, _, rfl⟩ := Option.map_eq_some_iff.mp hs
      exact ⟨by simp, hn⟩
    case shutdown =>
      split at hs <;> cases hs
      case h_1 m rest _ hq =>
        rw [hq, List.forall_mem_cons] at hn
        refine ⟨?_, hn.right⟩
        simp [hn.left]

-- As long as no shutdown is pending, the server gets to the step that accepts the next connection
-- without anything from a client, exactly if the client that it waits for has answered.
theorem selects_iff (r : (machine D).Run tr s) (ho : Open tr) : s.Selects D ↔ s.Answered D :=
  ⟨.of_selects, fun h => h.selects (open_of_run r ho).left⟩

end Listener

namespace Sample

-- The first noise message has 64 bytes, and the first frame a header of 6 bytes after decryption.
def decoders : Decoders where
  firstMessage _ received := if received.length < 64 then none else some (some 64)
  firstFrame _ received   := if received.length < 6 then none else some (some 6)

-- A client connects and sends nothing.
theorem silent_exec : ((Listener.machine decoders).exec .init [.connect 1, .accept true]).any
    fun s => s.phase = .handshake 1 && s.peer 1 = ⟨[], false⟩ := by
  decide +kernel

theorem silent_open : ((Listener.machine decoders).trace .init [.connect 1, .accept true]).all
    fun e => e.act = .connect 1 || e.act = .accept true := by
  decide +kernel

theorem silent_waits : ∃ tr s, (Listener.machine decoders).Run tr s ∧ Listener.Open tr ∧
    ¬s.Answered decoders := by
  obtain ⟨s, hs, h⟩ := Option.any_eq_true _ _ |>.mp silent_exec
  simp only [Bool.and_eq_true, decide_eq_true_eq] at h
  obtain ⟨hp, hr⟩ := h
  refine ⟨_, s, .of_exec Listener.init_init hs, fun e he m hm => ?_, ?_⟩
  · have := List.all_eq_true.mp silent_open e he
    simp [hm] at this
  · simp [Listener.Answered, hp, hr, Listener.Peer.read, decoders]

-- A client sends its first message at once, and its first frame later, in two pieces.
def answering : List Listener.Action :=
  [.connect 1, .send 1 (.replicate 64 0), .connect 2, .accept true, .handshake,
    .send 1 [1, 2], .send 1 [3, 4, 5, 6]]

theorem answering_exec : ((Listener.machine decoders).exec .init answering).any fun s =>
    s.phase = .setupConnection 1 64 && (s.frame decoders 1 64).isSome := by
  decide +kernel

theorem answering_open : ((Listener.machine decoders).trace .init answering).all fun e =>
    !(e.act matches .notify _) := by
  decide +kernel

theorem answering_answers : ∃ tr s, (Listener.machine decoders).Run tr s ∧ Listener.Open tr ∧
    s.phase = .setupConnection 1 64 ∧ s.Answered decoders := by
  obtain ⟨s, hs, h⟩ := Option.any_eq_true _ _ |>.mp answering_exec
  simp only [Bool.and_eq_true, decide_eq_true_eq] at h
  obtain ⟨hp, hf⟩ := h
  refine ⟨_, s, .of_exec Listener.init_init hs, fun e he m hm => ?_, hp, ?_⟩
  · have := List.all_eq_true.mp answering_open e he
    simp [hm] at this
  · simpa [Listener.Answered, hp] using hf

end Sample

open Sample in
theorem not_selects : ¬∀ tr s, (Listener.machine decoders).Run tr s → Listener.Open tr →
    s.Selects decoders := by
  intro h
  obtain ⟨tr, s, r, ho, hn⟩ := silent_waits
  exact hn (.of_selects (h tr s r ho))

open Sample in
theorem selects_iff_sample : (∃ s : Listener, s.phase ≠ .select ∧ s.Selects decoders) ∧
    ∃ s : Listener, ¬s.Selects decoders := by
  constructor
  case left =>
    obtain ⟨tr, s, r, ho, hp, ha⟩ := answering_answers
    exact ⟨s, by simp [hp], (Listener.selects_iff r ho).mpr ha⟩
  case right =>
    obtain ⟨tr, s, r, ho, hn⟩ := silent_waits
    exact ⟨s, fun h => hn ((Listener.selects_iff r ho).mp h)⟩

end Tasks
