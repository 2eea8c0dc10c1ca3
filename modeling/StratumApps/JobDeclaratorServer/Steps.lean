import StratumApps.JobDeclaratorServer.Server

open Sv2 Handler

namespace Jds

variable {Tx : Type} {R : RolesLogic Tx} {s s' : Server R} {c c' : ClientId} {k : Txid}
variable {x : Session Tx} {cfg : Config} {a : Action Tx} {m : JdsMempool R}

-- The client whose task takes the action.
def Action.client? : Action Tx → Option ClientId
  | .receive c _ | .run c | .rpc c _ | .sleep c | .disconnect c => some c
  | _                                                           => none

-- The messages that answer a declaration, and the last of them that a client was sent.
def isAnswer : JobDeclaration → Bool
  | .declareMiningJobSuccess _ | .declareMiningJobError _ | .provideMissingTransactions _ => true
  | _                                                                                  => false

def lastAnswer (sent : List JobDeclaration) : Option JobDeclaration :=
  sent.reverse.find? isAnswer

theorem lastAnswer_append {sent : List JobDeclaration} {m : JobDeclaration} :
    lastAnswer (sent ++ [m]) = if isAnswer m then some m else lastAnswer sent := by
  rw [lastAnswer, List.reverse_append, List.reverse_singleton, List.singleton_append,
    List.find?_cons]
  cases isAnswer m <;> rfl

-- A job that has been answered with success has no transaction missing.
def JobDeclaratorDownstream.Complete (d : JobDeclaratorDownstream Tx) (sent : List JobDeclaration) :
    Prop :=
  d.declaredMiningJob.isSome →
    ∀ r, lastAnswer sent = some (.declareMiningJobSuccess r) → .missing ∉ d.transactionsWithState

namespace Server

-- The client has a job, and was told last that its declaration is a success.
def Answered (s : Server R) (c : ClientId) (job : DeclareMiningJob) : Prop :=
  ∃ x r, s.clients.lookup c = some x ∧ x.downstream.declaredMiningJob = some job ∧
    lastAnswer x.sent = some (.declareMiningJobSuccess r)

def job? (s : Server R) (c : ClientId) : Option DeclareMiningJob :=
  (s.clients.lookup c).bind (·.downstream.declaredMiningJob)

-- The ids of the job that `c` declares no longer when it sends `message`.
def droppedBy (s : Server R) (c : ClientId) (message : DeclareMiningJob) : List Txid :=
  (s.job? c).elim [] (·.txIdsList.1.filter (· ∉ message.txIdsList.1))

@[simp]
theorem setSession_mempool : (s.setSession c x).mempool = s.mempool := rfl

@[simp]
theorem endSession_mempool : (s.endSession c).mempool = s.mempool := rfl

theorem setSession_lookup_ne (h : c' ≠ c) :
    (s.setSession c x).clients.lookup c' = s.clients.lookup c' :=
  AList.lookup_insert_ne h

@[simp]
theorem setSession_lookup : (s.setSession c x).clients.lookup c = some x :=
  AList.lookup_insert _

theorem deliver_mempool {r : Except (Fault Error) (SendTo × JobDeclaratorDownstream Tx)} :
    (s.deliver c x r).mempool = s.mempool := by
  fun_cases deliver <;> rfl

theorem getBlockHex_mempool {message : PushSolution} {retrieved : Bool} :
    (s.getBlockHex c x message retrieved).mempool = s.mempool := by
  rw [getBlockHex]
  split <;> try split
  all_goals rfl

theorem receive_mempool {message : JobDeclaration}
    (h : ∀ m, message ≠ .declareMiningJob m) : (s.receive c x message).mempool = s.mempool := by
  cases message
  case declareMiningJob m => exact absurd rfl (h m)
  all_goals exact deliver_mempool

theorem receive_declareMiningJob_mempool {message : DeclareMiningJob}
    (h : s.clients.lookup c = some x) :
    (s.receive c x (.declareMiningJob message)).mempool =
      s.mempool.clearTxids (s.droppedBy c message) := by
  simp only [receive, setSession_mempool, droppedBy, job?, h, Option.bind_some,
    JobDeclaratorDownstream.takeDeclaredMiningJob]
  cases x.downstream.declaredMiningJob <;> rfl

theorem runSession_grows (h : s.runSession c x = some s') : s.mempool.Grows s'.mempool := by
  rw [runSession] at h
  split at h
  case h_1 => cases h
  case h_2 =>
    cases h
    exact .of_eq deliver_mempool
  case h_3 | h_7 =>
    cases h
    exact .of_eq getBlockHex_mempool
  case h_4 | h_5 | h_6 =>
    split at h <;> try split at h
    all_goals
      cases h
      exact .refl _
  case h_8 =>
    have ⟨_, hr, he⟩ := Option.map_eq_some_iff.mp h
    cases he
    exact AddTxData.run_grows hr
  case h_9 =>
    split at h <;> cases h
    exact .refl _

-- Every step lets the mempool grow, except the one that drops the old job of a client.
theorem step_mempool (h : s.step cfg a = some s') :
    s.mempool.Grows s'.mempool ∨
    ∃ c message, a = .receive c (.declareMiningJob message) ∧
      s'.mempool = s.mempool.clearTxids (s.droppedBy c message) := by
  cases a <;> simp only [step, Option.bind_eq_some_iff, Option.map_eq_some_iff] at h
  case connect =>
    cases h
    exact .inl <| .refl _
  case receive c message =>
    have ⟨x, hx, h⟩ := h
    split at h <;> cases h
    by_cases hm : ∃ m, message = .declareMiningJob m
    case pos =>
      have ⟨m, hm⟩ := hm
      subst hm
      exact .inr ⟨c, m, rfl, receive_declareMiningJob_mempool hx⟩
    case neg => exact .inl <| .of_eq <| receive_mempool fun m he => hm ⟨m, he⟩
  case run c =>
    have ⟨x, _, h⟩ := h
    exact .inl <| runSession_grows h
  case rpc c answer =>
    have ⟨x, _, h⟩ := h
    split at h
    case h_2 => cases h
    case h_1 =>
      have ⟨_, hr, he⟩ := Option.map_eq_some_iff.mp h
      cases he
      exact .inl <| AddTxData.reply_grows hr
  case sleep c | disconnect c =>
    have ⟨x, _, h⟩ := h
    split at h <;> cases h
    exact .inl <| .refl _
  case spawnAdd =>
    split at h <;> cases h
    exact .inl <| .refl _
  case runAdd t =>
    have ⟨_, _, _, hr, he⟩ := h
    cases he
    exact .inl <| AddTxData.run_grows hr
  case rpcAdd t answer =>
    have ⟨_, _, _, hr, he⟩ := h
    cases he
    exact .inl <| AddTxData.reply_grows hr
  case updateMempool txids =>
    cases h
    exact .inl <| s.mempool.updateMempool_grows txids
  case submitBlock =>
    split at h <;> cases h
    exact .inl <| .refl _

theorem deliver_lookup_ne {r : Except (Fault Error) (SendTo × JobDeclaratorDownstream Tx)}
    (h : c' ≠ c) : (s.deliver c x r).clients.lookup c' = s.clients.lookup c' := by
  fun_cases deliver
  all_goals first
    | exact setSession_lookup_ne h
    | exact AList.lookup_erase_ne h

theorem receive_lookup_ne {message : JobDeclaration} (h : c' ≠ c) :
    (s.receive c x message).clients.lookup c' = s.clients.lookup c' := by
  cases message
  case declareMiningJob m => exact setSession_lookup_ne h
  all_goals exact deliver_lookup_ne h

section Frame

@[simp]
theorem setSession_nextClient : (s.setSession c x).nextClient = s.nextClient := rfl

@[simp]
theorem endSession_nextClient : (s.endSession c).nextClient = s.nextClient := rfl

theorem deliver_nextClient {r : Except (Fault Error) (SendTo × JobDeclaratorDownstream Tx)} :
    (s.deliver c x r).nextClient = s.nextClient := by
  fun_cases deliver <;> rfl

theorem getBlockHex_nextClient {retrieved : Bool} :
    (s.getBlockHex c x message retrieved).nextClient = s.nextClient := by
  rw [getBlockHex]
  split <;> try split
  all_goals rfl

theorem getBlockHex_lookup_ne {retrieved : Bool} (h : c' ≠ c) :
    (s.getBlockHex c x message retrieved).clients.lookup c' = s.clients.lookup c' := by
  rw [getBlockHex]
  split <;> try split
  all_goals first
    | exact setSession_lookup_ne h
    | exact AList.lookup_erase_ne h

-- A client's task leaves the other clients alone.
theorem runSession_frame (h : s.runSession c x = some s') :
    s'.nextClient = s.nextClient ∧
      ∀ c' ≠ c, s'.clients.lookup c' = s.clients.lookup c' := by
  rw [runSession] at h
  split at h
  case h_1 => cases h
  case h_2 =>
    cases h
    exact ⟨deliver_nextClient, fun _ => deliver_lookup_ne⟩
  case h_3 | h_7 =>
    cases h
    exact ⟨getBlockHex_nextClient, fun _ => getBlockHex_lookup_ne⟩
  case h_4 | h_5 | h_6 =>
    split at h <;> try split at h
    all_goals
      cases h
      first
      | exact ⟨rfl, fun _ => setSession_lookup_ne⟩
      | exact ⟨rfl, fun _ => AList.lookup_erase_ne⟩
  case h_8 =>
    have ⟨_, _, he⟩ := Option.map_eq_some_iff.mp h
    cases he
    exact ⟨rfl, fun _ => setSession_lookup_ne⟩
  case h_9 =>
    split at h <;> cases h
    exact ⟨rfl, fun _ => setSession_lookup_ne⟩

theorem receive_nextClient {message : JobDeclaration} :
    (s.receive c x message).nextClient = s.nextClient := by
  cases message
  case declareMiningJob m => rfl
  all_goals exact deliver_nextClient

-- Clients get fresh ids, and only a client's own task touches its session.
theorem step_frame (h : s.step cfg a = some s') :
    (s'.nextClient = s.nextClient ∧
      ∀ c, a.client? ≠ some c → s'.clients.lookup c = s.clients.lookup c) ∨
    (s'.nextClient = s.nextClient + 1 ∧ a = .connect ∧
      ∀ c ≠ s.nextClient, s'.clients.lookup c = s.clients.lookup c) := by
  cases a <;> simp only [step, Option.bind_eq_some_iff, Option.map_eq_some_iff] at h
  case connect =>
    cases h
    exact .inr ⟨rfl, rfl, fun _ => AList.lookup_insert_ne⟩
  case receive c message =>
    have ⟨x, _, h⟩ := h
    split at h <;> cases h
    exact .inl ⟨receive_nextClient, fun _ hc => receive_lookup_ne (hc <| congrArg some ·.symm)⟩
  case run c =>
    have ⟨x, _, h⟩ := h
    have ⟨hn, hl⟩ := runSession_frame h
    exact .inl ⟨hn, fun _ hc => hl _ (hc <| congrArg some ·.symm)⟩
  case rpc c answer =>
    have ⟨x, _, h⟩ := h
    split at h
    case h_2 => cases h
    case h_1 =>
      have ⟨_, _, he⟩ := Option.map_eq_some_iff.mp h
      cases he
      exact .inl ⟨rfl, fun _ hc => setSession_lookup_ne (hc <| congrArg some ·.symm)⟩
  case sleep c =>
    have ⟨x, _, h⟩ := h
    split at h <;> cases h
    exact .inl ⟨rfl, fun _ hc => setSession_lookup_ne (hc <| congrArg some ·.symm)⟩
  case disconnect c =>
    have ⟨x, _, h⟩ := h
    split at h <;> cases h
    exact .inl ⟨rfl, fun _ hc => AList.lookup_erase_ne (hc <| congrArg some ·.symm)⟩
  case spawnAdd | submitBlock =>
    split at h <;> cases h
    exact .inl ⟨rfl, fun _ _ => rfl⟩
  case runAdd t | rpcAdd t answer =>
    have ⟨_, _, _, _, he⟩ := h
    cases he
    exact .inl ⟨rfl, fun _ _ => rfl⟩
  case updateMempool txids =>
    cases h
    exact .inl ⟨rfl, fun _ _ => rfl⟩

end Frame

theorem step_getClient (h : s.step cfg a = some s') : s'.mempool.getClient = s.mempool.getClient := by
  have hu : s'.mempool.url = s.mempool.url := by
    cases step_mempool h
    case inl hg => exact hg.url
    case inr hd =>
      have ⟨_, _, _, hd⟩ := hd
      rw [hd, JdsMempool.clearTxids_url]
  simp only [JdsMempool.getClient, hu]

theorem step_client_mem (h : s.step cfg a = some s') (hc : a.client? = some c) : c ∈ s.clients := by
  cases a
  case receive | run | rpc | sleep | disconnect =>
    cases hc
    have ⟨x, hx, _⟩ := Option.bind_eq_some_iff.mp h
    exact Map.mem_iff_lookup.mpr ⟨x, hx⟩
  all_goals cases hc

theorem step_nextClient_le (h : s.step cfg a = some s') : s.nextClient ≤ s'.nextClient := by
  cases step_frame h
  case inl h => exact h.left.ge
  case inr h => exact h.left ▸ Nat.le_succ _

theorem step_lookup (h : s.step cfg a = some s') (hl : c < s.nextClient) (hc : a.client? ≠ some c) :
    s'.clients.lookup c = s.clients.lookup c := by
  cases step_frame h
  case inl h => exact h.right c hc
  case inr h => exact h.right.right c <| Nat.ne_of_lt hl

section Complete

variable {d d' : JobDeclaratorDownstream Tx} {sent : List JobDeclaration} {reply : SendTo}

open JobDeclaratorDownstream

theorem complete_of_eq (h : d.Complete sent) (hj : d'.declaredMiningJob = d.declaredMiningJob)
    (hs : d'.transactionsWithState = d.transactionsWithState) : d'.Complete sent :=
  fun hd r hr => hs ▸ h (hj ▸ hd) r hr

theorem handleDeclareMiningJob_complete {message : DeclareMiningJob}
    (h : d.handleDeclareMiningJob m message = .ok (reply, d')) :
    ∃ m, reply = .respond m ∧ ∀ sent, d'.Complete (sent ++ [m]) := by
  rw [handleDeclareMiningJob, bind_eq_ok] at h
  have ⟨verified, _, h⟩ := h
  split at h
  case isFalse =>
    cases h
    exact ⟨_, rfl, fun _ _ r hr => by simp [lastAnswer_append, isAnswer] at hr⟩
  case isTrue =>
    simp only [bind_eq_ok] at h
    have ⟨token, _, h⟩ := h
    split at h <;> cases h
    case isTrue => exact ⟨_, rfl, fun _ _ _ _ => missing_notMem_of_missingPositions ‹_›⟩
    case isFalse   => exact ⟨_, rfl, fun _ _ r hr => by simp [lastAnswer_append, isAnswer] at hr⟩

theorem handleProvideMissingTransactionsSuccess_complete
    {message : ProvideMissingTransactionsSuccess}
    (h : d.handleProvideMissingTransactionsSuccess R message = .ok (reply, d')) :
    (∃ m, reply = .respond m ∧ ∀ sent, d'.Complete (sent ++ [m])) ∨ (reply = .none none ∧ d' = d) := by
  rw [handleProvideMissingTransactionsSuccess] at h
  split at h
  case h_1 => cases h
  case h_2 =>
    split at h
    case isFalse =>
      cases h
      exact .inr ⟨rfl, rfl⟩
    case isTrue =>
      simp only [bind_eq_ok] at h
      have ⟨⟨states, unknown⟩, _, h⟩ := h
      split at h
      case isTrue => simp [bind_eq_ok, throw_eq_ok] at h
      case isFalse hm =>
        have ⟨token, _, h⟩ := bind_eq_ok.mp h
        cases h
        exact .inl ⟨_, rfl, fun _ _ _ _ => hm⟩

-- What every session of the server has.
def Sessions (s : Server R) (P : Session Tx → Prop) : Prop :=
  ∀ c x, s.clients.lookup c = some x → P x

variable {P : Session Tx → Prop}

theorem Sessions.setSession (h : s.Sessions P) (hx : P x) : (s.setSession c x).Sessions P := by
  intro c' y hy
  by_cases hc : c' = c
  case neg => exact h c' y <| setSession_lookup_ne hc ▸ hy
  case pos =>
    subst hc
    cases setSession_lookup.symm.trans hy
    exact hx

theorem Sessions.endSession (h : s.Sessions P) : (s.endSession c).Sessions P := by
  intro c' y hy
  rw [Server.endSession, Map.lookup_erase_ite] at hy
  split at hy
  case isTrue  => cases hy
  case isFalse => exact h c' y hy

def Sound (x : Session Tx) : Prop :=
  x.downstream.Complete x.sent

theorem deliver_sound {r : Except (Fault Error) (SendTo × JobDeclaratorDownstream Tx)}
    (h : s.Sessions Sound)
    (hr : ∀ m d, r = .ok (.respond m, d) → d.Complete (x.sent ++ [m]))
    (hn : ∀ o d, r = .ok (.none o, d) → d.Complete x.sent) :
    (s.deliver c x r).Sessions Sound := by
  fun_cases deliver
  case case1 => exact h.endSession
  case case2 | case3 =>
    apply Sessions.setSession h
    exact complete_of_eq (hr _ _ rfl) rfl rfl
  case case4 => exact h.setSession <| hr _ _ rfl
  all_goals exact h.setSession <| hn _ _ rfl

theorem receive_sound {message : JobDeclaration} (h : s.Sessions Sound) (hx : Sound x) :
    (s.receive c x message).Sessions Sound := by
  cases message
  case allocateMiningJobToken m =>
    apply deliver_sound h <;> intro _ _ he <;> cases he
    intro hd r hr
    exact hx hd r <| by simpa [lastAnswer_append, isAnswer] using hr
  case declareMiningJob m =>
    apply Sessions.setSession h
    intro hd
    cases hj : x.downstream.declaredMiningJob <;> simp [hj] at hd
  case provideMissingTransactionsSuccess m =>
    apply deliver_sound h
    · intro m' d he
      cases handleProvideMissingTransactionsSuccess_complete he
      case inl hc =>
        have ⟨_, he, hc⟩ := hc
        cases he
        exact hc _
      case inr hc => cases hc.left
    · intro o d he
      cases handleProvideMissingTransactionsSuccess_complete he
      case inl hc =>
        have ⟨_, he, _⟩ := hc
        cases he
      case inr hc => exact hc.right ▸ hx
  case pushSolution m =>
    apply deliver_sound h <;> intro _ _ he <;> cases he
    exact hx
  all_goals exact h.endSession

theorem getBlockHex_sound {retrieved : Bool} (h : s.Sessions Sound) (hx : Sound x) :
    (s.getBlockHex c x message retrieved).Sessions Sound := by
  rw [Server.getBlockHex]
  split <;> try split
  case h_1      => exact h.setSession hx
  case isTrue   => exact h.setSession hx
  case isFalse  => exact h.endSession

theorem runSession_sound (h : s.Sessions Sound) (hx : Sound x)
    (hr : s.runSession c x = some s') : s'.Sessions Sound := by
  rw [runSession] at hr
  split at hr
  case h_1 => cases hr
  case h_2 =>
    cases hr
    apply deliver_sound h <;> intro _ _ he
    · have ⟨_, he, hc⟩ := handleDeclareMiningJob_complete he
      cases he
      exact hc _
    · have ⟨_, he, _⟩ := handleDeclareMiningJob_complete he
      cases he
  case h_3 | h_7 =>
    cases hr
    exact getBlockHex_sound h hx
  case h_4 | h_5 | h_6 =>
    split at hr <;> try split at hr
    all_goals
      cases hr
      first
      | exact h.setSession hx
      | exact h.endSession
  case h_8 =>
    have ⟨_, _, he⟩ := Option.map_eq_some_iff.mp hr
    cases he
    exact Sessions.setSession h hx
  case h_9 =>
    split at hr <;> cases hr
    exact Sessions.setSession h hx

theorem step_sound (h : s.Sessions Sound) (hs : s.step cfg a = some s') : s'.Sessions Sound := by
  cases a <;> simp only [step, Option.bind_eq_some_iff, Option.map_eq_some_iff] at hs
  case connect =>
    cases hs
    exact Sessions.setSession h fun hd => by simp [JobDeclaratorDownstream.new] at hd
  case receive c message =>
    have ⟨x, hx, hs⟩ := hs
    split at hs <;> cases hs
    exact receive_sound h (h c x hx)
  case run c =>
    have ⟨x, hx, hs⟩ := hs
    exact runSession_sound h (h c x hx) hs
  case rpc c answer =>
    have ⟨x, hx, hs⟩ := hs
    split at hs
    case h_2 => cases hs
    case h_1 =>
      have ⟨_, _, he⟩ := Option.map_eq_some_iff.mp hs
      cases he
      exact Sessions.setSession h (h c x hx)
  case sleep c =>
    have ⟨x, hx, hs⟩ := hs
    split at hs <;> cases hs
    exact h.setSession (h c x hx)
  case disconnect c =>
    have ⟨x, hx, hs⟩ := hs
    split at hs <;> cases hs
    exact h.endSession
  case spawnAdd | submitBlock =>
    split at hs <;> cases hs
    exact h
  case runAdd t | rpcAdd t answer =>
    have ⟨_, _, _, _, he⟩ := hs
    cases he
    exact h
  case updateMempool txids =>
    cases hs
    exact h

end Complete

-- What holds of every reachable state: the ids of the clients have been given out, the node that
-- answered the health check is still the one that is asked, and success is told of complete jobs.
structure Started (s : Server R) : Prop where
  issued : ∀ c ∈ s.clients, c < s.nextClient
  client : s.mempool.getClient.isSome
  sound  : s.Sessions Sound

theorem Started.init (h : (machine R cfg).Init s) : s.Started where
  issued c hc := by simp [h.left] at hc
  client      := h.right
  sound c x hx := by simp [h.left] at hx

theorem Started.step (hi : s.Started) (hs : s.step cfg a = some s') : s'.Started where
  issued c hc := by
    by_cases ha : a.client? = some c
    case pos =>
      exact lt_of_lt_of_le (hi.issued c <| step_client_mem hs ha) (step_nextClient_le hs)
    case neg =>
      cases step_frame hs
      case inl h =>
        have := h.right c ha
        rw [Map.mem_iff_lookup, this, ← Map.mem_iff_lookup] at hc
        exact h.left ▸ hi.issued c hc
      case inr h =>
        by_cases he : c = s.nextClient
        case pos => exact he ▸ h.left ▸ Nat.lt_succ_self _
        case neg =>
          have := h.right.right c he
          rw [Map.mem_iff_lookup, this, ← Map.mem_iff_lookup] at hc
          exact lt_of_lt_of_le (hi.issued c hc) (step_nextClient_le hs)
  client := step_getClient hs ▸ hi.client
  sound  := step_sound hi.sound hs

theorem started_of_run {tr : List (Machine.Event (Server R) (Action Tx))}
    (r : (machine R cfg).Run tr s) : s.Started :=
  r.reachable.invariant (fun _ => Started.init) fun _ _ _ => Started.step

end Server

end Jds
