import StratumApps.Lib.Coupling
import StratumApps.Declaration.Exchange

open Sv2 Handler

namespace Jds

variable {Tx : Type} {R : RolesLogic Tx} {cfg : Config} {c : ClientId}

-- The server, with all that it has sent to one of its clients. Its session ends without a notice.
structure Seat (R : RolesLogic Tx) where
  server : Server R
  sent   : List JobDeclaration

def Server.sentTo (s : Server R) (c : ClientId) : List JobDeclaration :=
  match s.clients.lookup c with
  | some x => x.sent
  | none   => []

def Action.takes (c : ClientId) : Action Tx → Option JobDeclaration
  | .receive c' message => if c' = c then some message else none
  | _                   => none

-- The server at its end of the channels to one of its clients. The other clients send anything.
def seat (R : RolesLogic Tx) (cfg : Config) (c : ClientId) :
    Party (Seat R) (Action Tx) JobDeclaration JobDeclaration where
  machine := {
    Init s   := (machine R cfg).Init s.server ∧ s.sent = []
    step s a := (s.server.step cfg a).map fun server =>
      ⟨server, s.sent ++ (server.sentTo c).drop (s.server.sentTo c).length⟩ }
  sent    := Seat.sent
  reads a := (a.takes c).map fun m m' => m' = m

section Sent

variable {s s' : Seat R} {a : Action Tx} {x x' : Session Tx} {m : JdsMempool R}
variable {tr : List (Machine.Event (Seat R) (Action Tx))}

theorem seat_step (h : (seat R cfg c).machine.step s a = some s') :
    s.server.step cfg a = some s'.server ∧
      s'.sent = s.sent ++ (s'.server.sentTo c).drop (s.server.sentTo c).length := by
  obtain ⟨server, hs, rfl⟩ := Option.map_eq_some_iff.mp h
  exact ⟨hs, rfl⟩

-- What the server does in a run.
def serverOf (tr : List (Machine.Event (Seat R) (Action Tx))) :
    List (Machine.Event (Server R) (Action Tx)) :=
  tr.map fun e => ⟨e.pre.server, e.act, e.post.server⟩

theorem run_server (r : (seat R cfg c).machine.Run tr s) :
    (machine R cfg).Run (serverOf tr) s.server := by
  obtain ⟨s₀, hi, p⟩ := r
  induction p with
  | nil => exact .init hi.left
  | snoc p hs ih =>
    rw [serverOf, List.map_append]
    exact ih.snoc (seat_step hs).left

theorem Session.Step.sent {message : Option JobDeclaration} (h : x.Step m message x') :
    x.sent <+: x'.sent := by
  cases h with
  | take | work                 => exact List.prefix_rfl
  | allocate | declare | provide => exact List.prefix_append ..

theorem Server.sent_of_step {s s' : Server R} (h : s.step cfg a = some s')
    (hx : s'.clients.lookup c = some x') : s.nextClient ≤ c ∧ x'.sent = [] ∨
      ∃ x, s.clients.lookup c = some x ∧ x.sent <+: x'.sent := by
  obtain ⟨rfl, rfl⟩ | ⟨x, hx, hxs⟩ := step_session h hx
  · obtain ⟨_, hl⟩ | ⟨_, _, hl⟩ := step_frame h
    · exact .inr ⟨_, (hl c nofun).symm.trans hx, List.prefix_rfl⟩
    · by_cases hc : c = s.nextClient
      case pos => exact .inl ⟨hc.ge, rfl⟩
      case neg => exact .inr ⟨_, (hl c hc).symm.trans hx, List.prefix_rfl⟩
  · refine .inr ⟨x, hx, ?_⟩
    obtain rfl | ⟨_, hs⟩ := hxs
    · exact List.prefix_rfl
    · exact hs.sent

-- As long as the client has its session, everything that was sent to it is there.
structure Seated (c : ClientId) (s : Seat R) : Prop where
  sent  : ∀ x, s.server.clients.lookup c = some x → x.sent = s.sent
  fresh : s.server.nextClient ≤ c → s.sent = []

theorem Seated.step (hi : Seated c s) (ht : s'.server.Started)
    (h : (seat R cfg c).machine.step s a = some s') : Seated c s' := by
  obtain ⟨hst, hsent⟩ := seat_step h
  refine ⟨fun x' hx' => ?_, fun hn => ?_⟩
  · have hto : s'.server.sentTo c = x'.sent := by rw [Server.sentTo, hx']
    rw [hsent, hto]
    obtain ⟨hc, hx⟩ | ⟨x, hx, more, hm⟩ := Server.sent_of_step hst hx'
    · rw [hi.fresh hc, hx, List.drop_nil, List.append_nil]
    · have hto : s.server.sentTo c = x.sent := by rw [Server.sentTo, hx]
      rw [hto, ← hi.sent x hx, ← hm, List.drop_left]
  · have hc : s'.server.clients.lookup c = none := by
      rw [AList.lookup_eq_none]
      exact fun hm => (ht.issued c hm).not_ge hn
    have hto : s'.server.sentTo c = [] := by rw [Server.sentTo, hc]
    rw [hsent, hto, List.drop_nil, List.append_nil]
    exact hi.fresh ((Server.step_nextClient_le hst).trans hn)

end Sent

open JobDeclaratorDownstream

section Turns

variable {s s' : Server R} {a : Action Tx} {x x' : Session Tx} {job : DeclareMiningJob}

-- The task has a declaration in hand from its message on, until the handler has answered it.
structure Turns (x : Session Tx) (message : Option JobDeclaration) (x' : Session Tx) : Prop where
  waits   : message ≠ none → x.task = .recv
  takes   : ∀ job, x'.task = .declare job → message = some (.declareMiningJob job)
  answers : ∀ job, x.task = .declare job → x'.sent ≠ x.sent

namespace Server

-- No declaration is in the hands of the task of the client.
def Free (s : Server R) (c : ClientId) : Prop :=
  ∀ x, s.clients.lookup c = some x → ∀ job, x.task ≠ .declare job

theorem free_setSession (h : ∀ job, x.task ≠ .declare job) : (s.setSession c x).Free c := by
  intro y hy
  cases setSession_lookup.symm.trans hy
  exact h

theorem free_endSession : (s.endSession c).Free c := by
  intro y hy
  simp [endSession] at hy

theorem deliver_free {r : Except (Fault Error) (SendTo × JobDeclaratorDownstream Tx)} :
    (s.deliver c x r).Free c := by
  fun_cases deliver
  case case1 => exact free_endSession
  all_goals exact free_setSession fun _ h => (by cases h)

theorem getBlockHex_free {message : PushSolution} {retrieved : Bool} :
    (s.getBlockHex c x message retrieved).Free c := by
  rw [getBlockHex]
  split
  case h_1 => exact free_setSession fun _ h => (by cases h)
  case h_2 =>
    split
    case isTrue  => exact free_setSession fun _ h => (by cases h)
    case isFalse => exact free_endSession

theorem runSession_free (h : s.runSession c x = some s') : s'.Free c := by
  rw [runSession] at h
  split at h
  case h_1 => cases h
  case h_2 =>
    cases h
    exact deliver_free
  case h_3 | h_7 =>
    cases h
    exact getBlockHex_free
  case h_4 | h_9 =>
    split at h <;> cases h
    all_goals exact free_setSession fun _ h => (by cases h)
  case h_5 =>
    split at h <;> cases h
    case h_1 => exact free_setSession fun _ h => (by cases h)
    case h_2 => exact free_endSession
  case h_6 =>
    split at h
    case h_1 =>
      cases h
      exact free_setSession fun _ h => (by cases h)
    case h_2 =>
      split at h <;> cases h
      case isTrue  => exact free_setSession fun _ h => (by cases h)
      case isFalse => exact free_endSession
  case h_8 =>
    obtain ⟨_, _, rfl⟩ := Option.map_eq_some_iff.mp h
    exact free_setSession fun _ h => (by cases h)

theorem receive_free {message : JobDeclaration} (h : ∀ job, message ≠ .declareMiningJob job) :
    (s.receive c x message).Free c := by
  cases message with
  | declareMiningJob job => exact absurd rfl (h job)
  | _                    => exact deliver_free

theorem sent_of_declare (ht : x.task = .declare job) (h : s.runSession c x = some s')
    (hx : s'.clients.lookup c = some x') : x'.sent ≠ x.sent := by
  rw [runSession, ht] at h
  cases h
  cases hr : x.downstream.handleDeclareMiningJob s.mempool job with
  | error fault => simp [hr, deliver, endSession] at hx
  | ok r =>
    obtain ⟨o, d⟩ := r
    obtain ⟨reply, rfl, _⟩ := handleDeclareMiningJob_complete hr
    rw [hr] at hx
    have hs : x'.sent = x.sent ++ [reply] := by
      rw [deliver.eq_def] at hx
      dsimp only at hx
      split at hx <;> cases setSession_lookup.symm.trans hx <;> rfl
    simp [hs]

theorem turns_of_step (h : s.step cfg a = some s') (hc : a.client? = some c)
    (hx : s.clients.lookup c = some x) (hx' : s'.clients.lookup c = some x') :
    Turns x a.message? x' := by
  cases a with
  | receive c' message =>
    cases hc
    simp only [step, hx, Option.bind_some] at h
    split at h <;> cases h
    case h_1 hr =>
      refine ⟨fun _ => hr, fun job hj => ?_, fun job hj => (by cases hr.symm.trans hj)⟩
      cases message with
      | declareMiningJob m =>
        cases setSession_lookup.symm.trans hx'
        cases hj
        rfl
      | _ => exact absurd hj (receive_free (fun _ h => (by cases h)) x' hx' job)
  | run c' =>
    cases hc
    simp only [step, hx, Option.bind_some] at h
    exact ⟨fun hm => absurd rfl hm, fun job hj => absurd hj (runSession_free h x' hx' job),
      fun job hj => sent_of_declare hj h hx'⟩
  | rpc c' answer =>
    cases hc
    simp only [step, hx, Option.bind_some] at h
    split at h
    case h_2 => cases h
    case h_1 hr =>
      obtain ⟨_, _, rfl⟩ := Option.map_eq_some_iff.mp h
      cases setSession_lookup.symm.trans hx'
      exact ⟨fun hm => absurd rfl hm, fun job hj => (by cases hj),
        fun job hj => (by cases hr.symm.trans hj)⟩
  | sleep c' =>
    cases hc
    simp only [step, hx, Option.bind_some] at h
    split at h <;> cases h
    case h_1 hr =>
      cases setSession_lookup.symm.trans hx'
      exact ⟨fun hm => absurd rfl hm, fun job hj => (by cases hj),
        fun job hj => (by cases hr.symm.trans hj)⟩
  | disconnect c' =>
    cases hc
    simp only [step, hx, Option.bind_some] at h
    split at h <;> cases h
    exact absurd hx' (by simp [endSession])
  | _ => cases hc

end Server

end Turns

def declaration? : JobDeclaration → Option DeclareMiningJob
  | .declareMiningJob job => some job
  | _                     => none

-- The declarations among the messages of a client, in their order.
def declarations (messages : List JobDeclaration) : List DeclareMiningJob :=
  messages.filterMap declaration?

section Asks

variable {x x' : Session Tx} {m : JdsMempool R} {taken : List DeclareMiningJob}
variable {message : Option JobDeclaration} {job : DeclareMiningJob} {q : ProvideMissingTransactions}

def Session.Requested (x : Session Tx) (q : ProvideMissingTransactions) : Prop :=
  .provideMissingTransactions q ∈ x.sent

-- What a session has asked for that has taken these declarations: at most once for each of them, and
-- for the current one at the positions that were missing.
structure Asks (taken : List DeclareMiningJob) (x : Session Tx) : Prop where
  requests : ∀ q, x.Requested q → ∃ job ∈ taken, job.requestId = q.requestId
  declares : ∀ job, x.task = .declare job → job ∈ taken ∧
    ∀ q, x.Requested q → q.requestId ≠ job.requestId
  current  : ∀ job, x.downstream.declaredMiningJob = some job → job ∈ taken ∧
    ∀ q, x.Requested q → q.requestId = job.requestId →
      q.unknownTxPositionList = x.downstream.missingTxs
  busy     : ∀ q, x.Requested q →
    (∃ job, x.task = .declare job) ∨ x.downstream.declaredMiningJob.isSome

-- The client knows of the token.
def Session.Knows (x : Session Tx) (job : DeclareMiningJob) : Prop :=
  ∃ token, u32FromLeBytes job.miningJobToken.1 = some token ∧ token ∈ x.downstream.tokenToJobMap

theorem Asks.new {cfg : Config} :
    Asks taken (⟨.new cfg.coinbaseOutput cfg.privateKey, .recv, []⟩ : Session Tx) :=
  ⟨nofun, nofun, nofun, nofun⟩

theorem Asks.mono {more : List DeclareMiningJob} (h : Asks taken x) : Asks (taken ++ more) x where
  requests q hq   := (h.requests q hq).imp fun _ hj => ⟨List.mem_append_left _ hj.left, hj.right⟩
  declares job hj := ⟨List.mem_append_left _ (h.declares job hj).left, (h.declares job hj).right⟩
  current job hj  := ⟨List.mem_append_left _ (h.current job hj).left, (h.current job hj).right⟩
  busy            := h.busy

theorem Asks.answered {d : JobDeclaratorDownstream Tx} {reply : JobDeclaration} (h : Asks taken x)
    (hx : x.task = .recv) (hj : d.declaredMiningJob = x.downstream.declaredMiningJob)
    (hm : d.missingTxs = x.downstream.missingTxs) (hr : ∀ q, reply ≠ .provideMissingTransactions q) :
    Asks taken ⟨d, .recv, x.sent ++ [reply]⟩ := by
  have old (q : ProvideMissingTransactions)
      (hq : Session.Requested ⟨d, .recv, x.sent ++ [reply]⟩ q) : x.Requested q := by
    obtain hq | hq := List.mem_append.mp hq
    · exact hq
    · exact absurd (List.mem_singleton.mp hq).symm (hr q)
  refine ⟨fun q hq => h.requests q (old q hq), nofun, fun job hc => ?_, fun q hq => .inr ?_⟩
  · obtain ⟨ht, hp⟩ := h.current job (hj.symm.trans hc)
    exact ⟨ht, fun q hq he => (hp q (old q hq) he).trans hm.symm⟩
  · obtain ⟨_, hd⟩ | hs := h.busy q (old q hq)
    · cases hx.symm.trans hd
    · rwa [hj]

-- A declaration is answered with success, or with the first request for it.
theorem Asks.declared {d : JobDeclaratorDownstream Tx} {reply : JobDeclaration} (h : Asks taken x)
    (hx : x.task = .declare job) (hj : d.declaredMiningJob = some job)
    (hr : ∀ q, reply = .provideMissingTransactions q → q = ⟨job.requestId, d.missingTxs⟩) :
    Asks taken ⟨d, .recv, x.sent ++ [reply]⟩ := by
  obtain ⟨ht, hn⟩ := h.declares job hx
  have new (q : ProvideMissingTransactions)
      (hq : Session.Requested ⟨d, .recv, x.sent ++ [reply]⟩ q) :
      x.Requested q ∨ q = ⟨job.requestId, d.missingTxs⟩ :=
    (List.mem_append.mp hq).imp_right fun hq => hr q (List.mem_singleton.mp hq).symm
  refine ⟨fun q hq => ?_, nofun, fun job' hc => ?_, fun q hq => .inr (by rw [hj]; rfl)⟩
  · obtain hq | rfl := new q hq
    · exact h.requests q hq
    · exact ⟨job, ht, rfl⟩
  · cases hj.symm.trans hc
    refine ⟨ht, fun q hq he => ?_⟩
    obtain hq | rfl := new q hq
    · exact absurd he (hn q hq)
    · rfl

-- A step that sends nothing takes a declaration, if any.
theorem Asks.silent (h : Asks taken x)
    (hn : ∀ job, message = some (.declareMiningJob job) → ∀ j ∈ taken, j.requestId ≠ job.requestId)
    (ht : Turns x message x') (hs : x'.sent = x.sent)
    (hc : ∀ job, x'.downstream.declaredMiningJob = some job →
      x.downstream.declaredMiningJob = some job ∧ x'.downstream.missingTxs = x.downstream.missingTxs)
    (hb : (∃ job, x'.task = .declare job) ∨
      x'.downstream.declaredMiningJob = x.downstream.declaredMiningJob) :
    Asks (taken ++ declarations message.toList) x' := by
  have old (q : ProvideMissingTransactions) (hq : x'.Requested q) : x.Requested q := by
    rwa [Session.Requested, ← hs]
  refine ⟨fun q hq => ?_, fun job hj => ?_, fun job hj => ?_, fun q hq => ?_⟩
  · obtain ⟨j, hj, he⟩ := h.requests q (old q hq)
    exact ⟨j, List.mem_append_left _ hj, he⟩
  · obtain rfl := ht.takes job hj
    refine ⟨List.mem_append_right _ (List.mem_singleton_self _), fun q hq he => ?_⟩
    obtain ⟨j, hj, hid⟩ := h.requests q (old q hq)
    exact hn job rfl j hj (hid.trans he)
  · obtain ⟨hj, hm⟩ := hc job hj
    obtain ⟨hj, hp⟩ := h.current job hj
    exact ⟨List.mem_append_left _ hj, fun q hq he => (hp q (old q hq) he).trans hm.symm⟩
  · refine hb.imp_right fun hb => ?_
    obtain ⟨job, hd⟩ | hs' := h.busy q (old q hq)
    · exact absurd hs (ht.answers job hd)
    · rwa [hb]

theorem Asks.step (h : Asks taken x)
    (hn : ∀ job, message = some (.declareMiningJob job) → ∀ j ∈ taken, j.requestId ≠ job.requestId)
    (hk : ∀ job, x.task = .declare job → x.Knows job) (ht : Turns x message x')
    (hs : x.Step m message x') :
    Asks (taken ++ declarations message.toList) x' := by
  cases hs with
  | allocate he hf =>
    cases he
    exact (h.answered (ht.waits nofun) hf.declaredMiningJob hf.missingTxs fun _ h => (by cases h)).mono
  | take =>
    refine h.silent hn ht rfl (fun job hj => ?_) (.inl ⟨_, rfl⟩)
    rw [Server.takeDeclaredMiningJob_current] at hj
    cases hj
  | @declare job _ d d' hd he hf =>
    obtain ⟨token, hu, hmem⟩ := hk job hd
    obtain ⟨_, r, _, hr⟩ | hr := handleDeclareMiningJob_of_token m hu hmem
    · cases hr.symm.trans he
      exact (h.declared hd hf.declaredMiningJob fun _ h => (by cases h)).mono
    · cases hr.symm.trans he
      refine (h.declared hd hf.declaredMiningJob fun q hq => ?_).mono
      cases hq
      rw [hf.missingTxs]
      rfl
  | provide hr he hf =>
    obtain ⟨_, _, _, _, _, _, _, ⟨_, rfl⟩, rfl⟩ := handleProvideMissingTransactionsSuccess_eq_ok he
    exact (h.answered hr hf.declaredMiningJob hf.missingTxs fun _ h => (by cases h)).mono
  | work => exact h.silent hn ht rfl (fun _ hj => ⟨hj, rfl⟩) (.inr rfl)

end Asks

end Jds
