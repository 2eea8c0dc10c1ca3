import StratumApps.JobDeclaratorServer.Steps

open Sv2 Handler

namespace Jds

variable {Tx : Type} {R : RolesLogic Tx} {s s' : Server R} {c c' : ClientId} {cfg : Config}
variable {x x' : Session Tx} {a : Action Tx} {m : JdsMempool R}

-- Where the work of a task on a solution can go: whatever else it is, a rebuilding starts with the
-- states of the current job, and then collects the transactions in their order.
def Task.Rebuilds (m : JdsMempool R) (d : JobDeclaratorDownstream Tx) (t t' : Task Tx) : Prop :=
  ∀ message retrieved job todo txs, t' = .rebuild message retrieved job todo txs →
    (d.declaredMiningJob = some job ∧ todo = d.transactionsWithState ∧ txs = []) ∨
    ∃ state tx txs', t = .rebuild message retrieved job (state :: todo) txs' ∧
      Server.collectTx m state = some tx ∧ txs = txs' ++ [tx]

def Task.Elsewhere (t : Task Tx) : Prop :=
  ∀ message retrieved job todo txs, t ≠ .rebuild message retrieved job todo txs

theorem Task.Elsewhere.rebuilds {d : JobDeclaratorDownstream Tx} {t t' : Task Tx}
    (h : t'.Elsewhere) : Task.Rebuilds m d t t' :=
  fun _ _ _ _ _ he => absurd he (h _ _ _ _ _)

theorem Task.elsewhere_recv : (.recv : Task Tx).Elsewhere :=
  fun _ _ _ _ _ he => by cases he

-- What is left of the transactions to add, once they have been sent to the mempool.
def Flushed (d d' : JobDeclaratorDownstream Tx) : Prop :=
  d' = d ∨ d' = { d with addTxsToMempool := ⟨[], []⟩ }

-- What a step of the task of a client makes of its session, when the task does not end: with the
-- message that has been received, or at work on what the task has in hand.
inductive Session.Step (m : JdsMempool R) (x : Session Tx) : Option JobDeclaration → Session Tx → Prop
  | allocate {message : AllocateMiningJobToken} {reply : JobDeclaration}
    {d d' : JobDeclaratorDownstream Tx} :
    x.downstream.handleAllocateMiningJobToken message = (.respond reply, d) → Flushed d d' →
    Step m x (some (.allocateMiningJobToken message)) ⟨d', .recv, x.sent ++ [reply]⟩
  | take {message : DeclareMiningJob} :
    Step m x (some (.declareMiningJob message)) { x with
      downstream := (x.downstream.takeDeclaredMiningJob m message).2
      task       := .declare message }
  | declare {message : DeclareMiningJob} {reply : JobDeclaration}
    {d d' : JobDeclaratorDownstream Tx} :
    x.task = .declare message →
    x.downstream.handleDeclareMiningJob m message = .ok (.respond reply, d) → Flushed d d' →
    Step m x none ⟨d', .recv, x.sent ++ [reply]⟩
  | provide {message : ProvideMissingTransactionsSuccess} {reply : JobDeclaration}
    {d d' : JobDeclaratorDownstream Tx} :
    x.task = .recv →
    x.downstream.handleProvideMissingTransactionsSuccess R message = .ok (.respond reply, d) →
    Flushed d d' →
    Step m x (some (.provideMissingTransactionsSuccess message)) ⟨d', .recv, x.sent ++ [reply]⟩
  | work {message : Option JobDeclaration} {t : Task Tx} :
    Task.Rebuilds m x.downstream x.task t → Step m x message { x with task := t }

def Action.message? : Action Tx → Option JobDeclaration
  | .receive _ message => some message
  | _                  => none

namespace Server

-- The session that `c` has after a step, when it has one: as it was, or moved on.
def Moves (s : Server R) (c : ClientId) (message : Option JobDeclaration) (s' : Server R) : Prop :=
  ∀ x', s'.clients.lookup c = some x' →
    ∃ x, s.clients.lookup c = some x ∧ x.Step s.mempool message x'

theorem moves_setSession {message : Option JobDeclaration} (hx : s.clients.lookup c = some x)
    (h : x.Step s.mempool message x') : s.Moves c message (s'.setSession c x') := by
  intro y hy
  cases setSession_lookup.symm.trans hy
  exact ⟨x, hx, h⟩

theorem moves_endSession {message : Option JobDeclaration} : s.Moves c message (s'.endSession c) := by
  intro y hy
  simp [endSession] at hy

theorem deliver_moves {message : Option JobDeclaration}
    {r : Except (Fault Error) (SendTo × JobDeclaratorDownstream Tx)}
    (hx : s.clients.lookup c = some x)
    (hr : ∀ reply d d', r = .ok (.respond reply, d) → Flushed d d' →
      x.Step s.mempool message ⟨d', .recv, x.sent ++ [reply]⟩)
    (hn : ∀ o d, r = .ok (.none o, d) → d = x.downstream) :
    s.Moves c message (s.deliver c x r) := by
  fun_cases deliver
  case case1 => exact moves_endSession
  case case2 | case3 => exact moves_setSession hx <| hr _ _ _ rfl (.inr rfl)
  case case4 => exact moves_setSession hx <| hr _ _ _ rfl (.inl rfl)
  case case5 =>
    cases hn _ _ rfl
    exact moves_setSession hx <| .work <| Task.Elsewhere.rebuilds fun _ _ _ _ _ he => by cases he
  case case6 =>
    cases hn _ _ rfl
    exact moves_setSession hx <| .work Task.elsewhere_recv.rebuilds

theorem receive_moves {message : JobDeclaration} (hx : s.clients.lookup c = some x)
    (ht : x.task = .recv) : s.Moves c (some message) (s.receive c x message) := by
  cases message
  case allocateMiningJobToken m =>
    apply deliver_moves hx
    · intro reply d d' he hf
      exact .allocate (Except.ok.inj he) hf
    · intro o d he
      cases he
  case declareMiningJob m => exact moves_setSession hx .take
  case provideMissingTransactionsSuccess m =>
    apply deliver_moves hx
    · intro reply d d' he hf
      exact .provide ht he hf
    · intro o d he
      cases handleProvideMissingTransactionsSuccess_complete he
      case inl h =>
        have ⟨_, he, _⟩ := h
        cases he
      case inr h => exact h.right
  case pushSolution m =>
    apply deliver_moves hx
    · intro reply d d' he
      cases he
    · intro o d he
      cases he
      rfl
  all_goals exact moves_endSession

theorem getBlockHex_moves {message : PushSolution} {retrieved : Bool}
    (hx : s.clients.lookup c = some x) :
    s.Moves c none (s.getBlockHex c x message retrieved) := by
  rw [getBlockHex]
  split
  case h_1 hj =>
    refine moves_setSession hx <| .work fun _ _ _ _ _ he => .inl ?_
    cases he
    exact ⟨hj, rfl, rfl⟩
  case h_2 =>
    split
    case isTrue  => exact moves_setSession hx <| .work Task.elsewhere_recv.rebuilds
    case isFalse => exact moves_endSession

theorem runSession_moves (hx : s.clients.lookup c = some x) (h : s.runSession c x = some s') :
    s.Moves c none s' := by
  rw [runSession] at h
  split at h
  case h_1 => cases h
  case h_2 message ht =>
    cases h
    apply deliver_moves hx
    · intro reply d d' he hf
      exact .declare ht he hf
    · intro o d he
      obtain ⟨_, he, _⟩ := handleDeclareMiningJob_complete he
      cases he
  case h_3 | h_7 =>
    cases h
    exact getBlockHex_moves hx
  case h_4 =>
    split at h <;> cases h
    all_goals
      refine moves_setSession hx <| .work <| Task.Elsewhere.rebuilds fun _ _ _ _ _ he => ?_
      cases he
  case h_5 =>
    split at h <;> cases h
    case h_1 =>
      refine moves_setSession hx <| .work <| Task.Elsewhere.rebuilds fun _ _ _ _ _ he => ?_
      cases he
    case h_2 => exact moves_endSession
  case h_6 message retrieved job state todo txs ht =>
    split at h
    case h_1 tx hc =>
      cases h
      refine moves_setSession hx <| .work fun _ _ _ _ _ he => .inr ⟨state, tx, txs, ?_⟩
      cases he
      exact ⟨ht, hc, rfl⟩
    case h_2 =>
      split at h <;> cases h
      case isTrue  => exact moves_setSession hx <| .work Task.elsewhere_recv.rebuilds
      case isFalse => exact moves_endSession
  case h_8 =>
    obtain ⟨_, _, he⟩ := Option.map_eq_some_iff.mp h
    cases he
    refine moves_setSession hx <| .work <| Task.Elsewhere.rebuilds fun _ _ _ _ _ he => ?_
    cases he
  case h_9 =>
    split at h <;> cases h
    exact moves_setSession hx <| .work Task.elsewhere_recv.rebuilds

-- A session after a step is that of a client which has just connected, or what the step has made of
-- the session of before.
theorem step_session (h : s.step cfg a = some s') (hx : s'.clients.lookup c = some x') :
    (a = .connect ∧ x' = ⟨.new cfg.coinbaseOutput cfg.privateKey, .recv, []⟩) ∨
      ∃ x, s.clients.lookup c = some x ∧
        (x' = x ∨ a.client? = some c ∧ x.Step s.mempool a.message? x') := by
  by_cases hc : a.client? = some c
  case neg =>
    cases step_frame h
    case inl hf => exact .inr ⟨x', hf.right c hc ▸ hx, .inl rfl⟩
    case inr hf =>
      have ⟨_, ha, hl⟩ := hf
      by_cases hn : c = s.nextClient
      case neg => exact .inr ⟨x', hl c hn ▸ hx, .inl rfl⟩
      case pos =>
        subst ha hn
        cases h
        rw [AList.lookup_insert] at hx
        cases hx
        exact .inl ⟨rfl, rfl⟩
  case pos =>
    suffices hm : s.Moves c a.message? s' by
      have ⟨x, hx, hs⟩ := hm x' hx
      exact .inr ⟨x, hx, .inr ⟨hc, hs⟩⟩
    cases a <;> cases hc
    all_goals have ⟨x, hc, h⟩ := Option.bind_eq_some_iff.mp h
    case receive message =>
      split at h <;> cases h
      exact receive_moves hc ‹_›
    case run => exact runSession_moves hc h
    case rpc answer =>
      split at h
      case h_2 => cases h
      case h_1 =>
        have ⟨_, _, he⟩ := Option.map_eq_some_iff.mp h
        cases he
        refine moves_setSession hc <| .work <| Task.Elsewhere.rebuilds fun _ _ _ _ _ he => ?_
        cases he
    case sleep =>
      split at h <;> cases h
      exact moves_setSession hc <| .work Task.elsewhere_recv.rebuilds
    case disconnect =>
      split at h <;> cases h
      exact moves_endSession

end Server

end Jds
