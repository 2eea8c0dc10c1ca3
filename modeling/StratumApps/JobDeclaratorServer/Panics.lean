import StratumApps.JobDeclaratorServer.Transactions

open Sv2 Handler

namespace Jds

variable {Tx : Type} {R : RolesLogic Tx} {cfg : Config} {m : JdsMempool R}

-- The server with the clients whose outbound channel has been closed by the task that writes to
-- their connection. `send` unwraps the result of its call, so a reply to them is a panic.
structure Linked (R : RolesLogic Tx) where
  server : Server R
  closed : Finset ClientId

inductive LinkedAction (Tx : Type)
  | close (c : ClientId)
  | act (a : Action Tx)

namespace Linked

-- The step has sent a reply to the client.
def Replied (s s' : Server R) (c : ClientId) : Prop :=
  ∃ x x' : Session Tx, s.clients.lookup c = some x ∧ s'.clients.lookup c = some x' ∧ x'.sent ≠ x.sent

instance {s s' : Server R} {c : ClientId} : Decidable (Replied s s' c) :=
  decidable_of_iff ((s.clients.lookup c).any fun x => (s'.clients.lookup c).any fun x' =>
    decide (x'.sent ≠ x.sent)) <| by
      simp [Replied, Option.any_eq_true]

def step (l : Linked R) (cfg : Config) : LinkedAction Tx → Option (Linked R)
  | .close c => some { l with closed := insert c l.closed }
  | .act a =>
    (l.server.step cfg a).map fun s =>
      match a.client? with
      | none   => { l with server := s }
      | some c =>
        if c ∈ l.closed ∧ Replied l.server s c then { l with server := s.endSession c }
        else { l with server := s }

def machine (R : RolesLogic Tx) (cfg : Config) : Machine (Linked R) (LinkedAction Tx) where
  Init l   := (Jds.machine R cfg).Init l.server ∧ l.closed = ∅
  step l a := l.step cfg a

-- What the loop of a client is handed by the handlers in this step.
inductive Handles (s : Server R) :
    Action Tx → Except (Fault Error) (SendTo × JobDeclaratorDownstream Tx) → Prop
  | allocate {c : ClientId} {x : Session Tx} {message : AllocateMiningJobToken} :
    s.clients.lookup c = some x →
    Handles s (.receive c (.allocateMiningJobToken message))
      (.ok (x.downstream.handleAllocateMiningJobToken message))
  | provide {c : ClientId} {x : Session Tx} {message : ProvideMissingTransactionsSuccess} :
    s.clients.lookup c = some x →
    Handles s (.receive c (.provideMissingTransactionsSuccess message))
      (x.downstream.handleProvideMissingTransactionsSuccess R message)
  | push {c : ClientId} {x : Session Tx} {message : PushSolution} :
    s.clients.lookup c = some x →
    Handles s (.receive c (.pushSolution message)) (.ok (x.downstream.handlePushSolution message))
  | declare {c : ClientId} {x : Session Tx} {message : DeclareMiningJob} :
    s.clients.lookup c = some x → x.task = .declare message →
    Handles s (.run c) (x.downstream.handleDeclareMiningJob s.mempool message)

-- The places of the path of a client where the code can panic: in a handler, at the arm that is
-- left to do, where a reply is sent, and where a block is built.
inductive Panics (l : Linked R) (cfg : Config) : LinkedAction Tx → Prop
  | handler {a : Action Tx} {message : String} :
    Handles l.server a (.error (.panicked message)) → Panics l cfg (.act a)
  | todo {a : Action Tx} {solution : PushSolution} {d : JobDeclaratorDownstream Tx} :
    Handles l.server a (.ok (.respond (.pushSolution solution), d)) → Panics l cfg (.act a)
  | send {a : Action Tx} {c : ClientId} {s : Server R} :
    a.client? = some c → c ∈ l.closed → l.server.step cfg a = some s → Replied l.server s c →
    Panics l cfg (.act a)
  | block {c : ClientId} {x : Session Tx} {message : PushSolution} {retrieved : Bool}
    {job : DeclareMiningJob} {txs : List Tx} :
    l.server.clients.lookup c = some x → x.task = .rebuild message retrieved job [] txs →
    R.blockHex job txs message = none → Panics l cfg (.act (.run c))

-- The step gives the client an answer, unless it panics before.
inductive Answers (s : Server R) (c : ClientId) : Action Tx → Prop
  | allocate {message : AllocateMiningJobToken} :
    Answers s c (.receive c (.allocateMiningJobToken message))
  | provide {x : Session Tx} {message : ProvideMissingTransactionsSuccess}
    {job : DeclareMiningJob} {txs : List Tx} :
    s.clients.lookup c = some x →
    JobDeclaratorDownstream.Completes R x.downstream job message txs →
    Answers s c (.receive c (.provideMissingTransactionsSuccess message))
  | declare {x : Session Tx} {message : DeclareMiningJob} :
    s.clients.lookup c = some x → x.task = .declare message → Answers s c (.run c)

-- A declaration comes with a token of four bytes, the coinbase of a job decodes when a block is
-- built, and whoever is answered still takes the answer.
structure Safe (l : Linked R) (b : LinkedAction Tx) : Prop where
  token    : ∀ c x message, b = .act (.run c) → l.server.clients.lookup c = some x →
    x.task = .declare message → message.miningJobToken.1.length = 4
  coinbase : ∀ c x message retrieved job txs, b = .act (.run c) →
    l.server.clients.lookup c = some x → x.task = .rebuild message retrieved job [] txs →
    (R.blockHex job txs message).isSome
  takes    : ∀ c a, b = .act a → Answers l.server c a → c ∉ l.closed

variable {l l' : Linked R} {b : LinkedAction Tx} {s s' : Server R} {a : Action Tx} {c : ClientId}
variable {x : Session Tx} {d : JobDeclaratorDownstream Tx} {job : DeclareMiningJob}

open JobDeclaratorDownstream Server

theorem u32FromLeBytes_eq_none {bytes : Bytes} :
    u32FromLeBytes bytes = none ↔ bytes.length ≠ 4 := by
  rw [u32FromLeBytes.eq_def]
  split
  case h_1 => simp
  case h_2 h =>
    simp only [true_iff]
    intro hl
    rcases bytes with _ | ⟨a, _ | ⟨b, _ | ⟨c, _ | ⟨d, _ | ⟨e, rest⟩⟩⟩⟩⟩
    case cons.cons.cons.cons.nil => exact h a b c d rfl
    all_goals simp at hl

-- The token of a declaration decides whether its handler panics.
theorem handleDeclareMiningJob_panics (d : JobDeclaratorDownstream Tx) (m : JdsMempool R)
    {message : DeclareMiningJob} (h : message.miningJobToken.1.length ≠ 4) :
    ∃ msg, d.handleDeclareMiningJob m message = .error (.panicked msg) := by
  simp only [handleDeclareMiningJob, verifyJob, u32FromLeBytes_eq_none.mpr h]
  exact ⟨_, rfl⟩

theorem handleDeclareMiningJob_responds {message : DeclareMiningJob}
    (h : message.miningJobToken.1.length = 4) :
    ∃ reply d', d.handleDeclareMiningJob m message = .ok (.respond reply, d') ∧
      ∀ solution, reply ≠ .pushSolution solution := by
  have ⟨token, ht⟩ : ∃ token, u32FromLeBytes message.miningJobToken.1 = some token := by
    rw [← Option.ne_none_iff_exists', ne_eq, u32FromLeBytes_eq_none]
    simpa using h
  have ⟨signed, hs⟩ :
      ∃ signed, signedToken R message.miningJobToken d.privateKey = .ok signed := by
    rw [signedToken, if_pos]
    · exact ⟨_, rfl⟩
    · rw [List.length_cons, h]
      decide
  simp only [handleDeclareMiningJob, verifyJob, ht, hs, bind, Except.bind]
  split <;> try split
  all_goals exact ⟨_, _, rfl, fun _ he => by cases he⟩

-- The positions that the server asks for are positions of the list.
theorem provide_not_panicked {message : ProvideMissingTransactionsSuccess} {bytes : List Bytes}
    {missing : List UInt16} {states : List TransactionState} {unknown : List Tx} {msg : String}
    (hb : ∀ i ∈ missing, i.toNat < states.length) :
    provide R message bytes missing states unknown ≠ .error (.panicked msg) := by
  induction bytes generalizing missing states unknown with
  | nil => simp [provide]
  | cons b bytes ih =>
    simp only [provide]
    split
    case h_1 => simp
    case h_2 => simp
    case h_3 i missing _ =>
      obtain ⟨hi, hb⟩ := List.forall_mem_cons.mp hb
      rw [if_pos hi]
      exact ih (by simpa using hb)

theorem handleProvideMissingTransactionsSuccess_not_panicked
    {message : ProvideMissingTransactionsSuccess} {msg : String}
    (ht : ∀ job, d.declaredMiningJob = some job → d.Tracks job) :
    d.handleProvideMissingTransactionsSuccess R message ≠ .error (.panicked msg) := by
  intro h
  rw [handleProvideMissingTransactionsSuccess] at h
  split at h
  case h_1 => cases h
  case h_2 job hj =>
    have hb : ∀ i ∈ d.missingTxs, i.toNat < d.transactionsWithState.length := by
      rw [(ht job hj).length]
      exact (ht job hj).bound
    have hs : ∀ signed, signedToken R job.miningJobToken d.privateKey = .error signed →
        signed ≠ .panicked msg := by
      intro signed hs
      rw [signedToken] at hs
      split at hs <;> cases hs
      simp
    split at h
    case isFalse => cases h
    case isTrue =>
      cases hp : provide R message message.transactionList.1 d.missingTxs
        d.transactionsWithState []
      case error e =>
        simp only [hp, bind, Except.bind, Except.error.injEq] at h
        exact provide_not_panicked hb (h ▸ hp)
      case ok r =>
        simp only [hp, bind, Except.bind] at h
        split at h
        case isTrue => cases h
        case isFalse =>
          cases hk : signedToken R job.miningJobToken d.privateKey
          case error e =>
            simp only [hk, Except.error.injEq] at h
            exact hs e hk h
          case ok => simp [hk, pure, Except.pure] at h

theorem replied_of_deliver {reply : JobDeclaration} (hx : s.clients.lookup c = some x) :
    Replied s (s.deliver c x (.ok (.respond reply, d))) c := by
  cases reply <;> exact ⟨x, _, hx, setSession_lookup, by simp⟩

theorem Answers.replied (h : Answers s c a) (hk : s.Sessions (Kept R))
    (ht : ∀ x message, a = .run c → s.clients.lookup c = some x → x.task = .declare message →
      message.miningJobToken.1.length = 4)
    (hs : s.step cfg a = some s') : a.client? = some c ∧ Replied s s' c := by
  cases h with
  | allocate =>
    obtain ⟨x, hx, hs⟩ := Option.bind_eq_some_iff.mp hs
    split at hs <;> cases hs
    exact ⟨rfl, replied_of_deliver hx⟩
  | provide hx hc =>
    obtain ⟨y, hy, hs⟩ := Option.bind_eq_some_iff.mp hs
    cases hx.symm.trans hy
    split at hs <;> cases hs
    obtain ⟨r, hr, _⟩ := hc.handle <| (hk c _ hx).tracks _ hc.current
    rw [receive, hr]
    exact ⟨rfl, replied_of_deliver hx⟩
  | @declare x message hx hm =>
    obtain ⟨y, hy, hs⟩ := Option.bind_eq_some_iff.mp hs
    cases hx.symm.trans hy
    obtain ⟨reply, d, hd, _⟩ : ∃ reply d,
        x.downstream.handleDeclareMiningJob s.mempool message = .ok (.respond reply, d) ∧ _ :=
      handleDeclareMiningJob_responds (ht x message rfl hx hm)
    simp only [runSession, hm, hd, Option.some_inj] at hs
    subst hs
    exact ⟨rfl, replied_of_deliver hx⟩

theorem Replied.answers (h : Replied s s' c) (ha : a.client? = some c)
    (hs : s.step cfg a = some s') : Answers s c a := by
  have ⟨x, x', hx, hx', hn⟩ := h
  cases step_session hs hx'
  case inl hc =>
    rw [hc.left] at ha
    cases ha
  case inr hm =>
    have ⟨y, hy, hm⟩ := hm
    cases hx.symm.trans hy
    cases hm
    case inl he => exact absurd (congrArg Session.sent he) hn
    case inr hm =>
      replace hm := hm.right
      generalize hmsg : a.message? = message at hm
      cases hm with
      | allocate =>
        cases a <;> cases ha <;> cases hmsg
        exact .allocate
      | declare ht =>
        cases a with
        | run =>
          cases ha
          exact .declare hx ht
        | rpc | sleep | disconnect =>
          cases ha
          have ⟨_, hz, hs⟩ := Option.bind_eq_some_iff.mp hs
          cases hx.symm.trans hz
          simp [ht] at hs
        | receive => cases hmsg
        | _ => cases ha
      | provide _ he =>
        have ⟨job, txs, hj, hr, hd, hl, hn, _⟩ := handleProvideMissingTransactionsSuccess_eq_ok he
        cases a <;> cases ha <;> cases hmsg
        exact .provide hx ⟨hj, hr, hd, hl, fun _ => mem_provided_of_missing hn⟩
      | take => exact absurd rfl hn
      | work => exact absurd rfl hn

theorem safe_of_not_panics (hk : l.server.Sessions (Kept R)) (hs : l.step cfg b = some l')
    (h : ¬l.Panics cfg b) : l.Safe b := by
  have token (c x message) (hb : b = .act (.run c)) (hx : l.server.clients.lookup c = some x)
      (hm : x.task = .declare message) : message.miningJobToken.1.length = 4 := by
    by_contra ht
    subst hb
    have ⟨msg, hp⟩ := handleDeclareMiningJob_panics x.downstream l.server.mempool ht
    have hh := Handles.declare hx hm
    rw [hp] at hh
    exact h <| .handler hh
  constructor
  case token => exact token
  case coinbase =>
    intro c x message retrieved job txs hb hx ht
    by_contra hn
    subst hb
    exact h <| .block hx ht <| by simpa using hn
  case takes =>
    intro c a hb ha hc
    subst hb
    have ⟨s', hs', _⟩ := Option.map_eq_some_iff.mp hs
    have ⟨ha', hr⟩ := ha.replied hk (fun x message he => token c x message (he ▸ rfl)) hs'
    exact h <| .send ha' hc hs' hr

theorem Handles.outcome {r : Except (Fault Error) (SendTo × JobDeclaratorDownstream Tx)}
    (h : Handles s a r) (hk : s.Sessions (Kept R))
    (ht : ∀ c x message, a = .run c → s.clients.lookup c = some x → x.task = .declare message →
      message.miningJobToken.1.length = 4) :
    (∀ msg, r ≠ .error (.panicked msg)) ∧
      ∀ solution d, r ≠ .ok (.respond (.pushSolution solution), d) := by
  cases h with
  | allocate | push =>
    constructor
    · intro _ he
      cases he
    · intro _ _ he
      cases he
  | provide hx =>
    constructor
    · exact fun _ => handleProvideMissingTransactionsSuccess_not_panicked (hk _ _ hx).tracks
    · intro solution d he
      have ⟨_, _, _, _, _, _, _, ⟨_, he⟩, _⟩ := handleProvideMissingTransactionsSuccess_eq_ok he
      cases he
  | @declare c x message hx hm =>
    have ⟨reply, d, he, hn⟩ : ∃ reply d,
        x.downstream.handleDeclareMiningJob s.mempool message = .ok (.respond reply, d) ∧ _ :=
      handleDeclareMiningJob_responds (ht c x message rfl hx hm)
    rw [he]
    constructor
    · intro _ he
      cases he
    · intro solution d he
      cases he
      exact hn _ rfl

theorem Safe.not_panics (h : l.Safe b) (hk : l.server.Sessions (Kept R)) : ¬l.Panics cfg b := by
  intro hp
  cases hp with
  | handler hh =>
    exact (hh.outcome hk fun c x message he => h.token c x message (he ▸ rfl)).left _ rfl
  | todo hh =>
    exact (hh.outcome hk fun c x message he => h.token c x message (he ▸ rfl)).right _ _ rfl
  | send ha hc hs hr => exact h.takes _ _ rfl (hr.answers ha hs) hc
  | block hx ht hn =>
    have := h.coinbase _ _ _ _ _ _ rfl hx ht
    simp [hn] at this

theorem kept_of_init (h : (machine R cfg).Init l) : l.server.Sessions (Kept R) :=
  sessions_of_init h.left

theorem kept_step (h : l.server.Sessions (Kept R)) (hs : l.step cfg b = some l') :
    l'.server.Sessions (Kept R) := by
  cases b with
  | close c =>
    cases hs
    exact h
  | act a =>
    have ⟨s, hs, he⟩ := Option.map_eq_some_iff.mp hs
    have hk := Server.kept_step h hs
    subst he
    split <;> try split
    case h_1     => exact hk
    case isTrue  => exact hk.endSession
    case isFalse => exact hk

end Linked

open Machine

-- The run lemma: nothing on the path of a client panics in exactly the runs whose steps are safe.
theorem no_panic_iff {tr : List (Event (Linked R) (LinkedAction Tx))} {l : Linked R}
    (r : (Linked.machine R cfg).Run tr l) :
    (∀ e ∈ tr, ¬e.pre.Panics cfg e.act) ↔ Along Linked.Safe tr := by
  apply forall₂_congr
  intro e he
  have ⟨_, _, _, r', _⟩ := r.split he
  have hk : e.pre.server.Sessions (Server.Kept R) :=
    r'.reachable.invariant (I := fun l => l.server.Sessions (Server.Kept R))
      (fun _ => Linked.kept_of_init) fun _ _ _ => Linked.kept_step
  exact ⟨Linked.safe_of_not_panics hk (r.step_of_mem he), fun h => h.not_panics hk⟩

namespace Sample

def shortToken : DeclareMiningJob :=
  { Sample.job 2 txids with miningJobToken := ⟨[], by decide⟩ }

def linked : Linked roles :=
  ⟨start, ∅⟩

theorem linked_init : (Linked.machine roles config).Init linked :=
  ⟨start_init, rfl⟩

-- A client declares a job with an empty token.
theorem shortToken_exec :
    ∃ l l', (Linked.machine roles config).exec linked
        [.act .connect, .act (.receive 0 (.declareMiningJob shortToken))] = some l ∧
      (Linked.machine roles config).step l (.act (.run 0)) = some l' ∧
      ∃ x, l.server.clients.lookup 0 = some x ∧ x.task = .declare shortToken := by
  refine ⟨_, _, rfl, rfl, _, rfl, rfl⟩

theorem shortToken_panics : ∃ tr l e, (Linked.machine roles config).Run tr l ∧ e ∈ tr ∧
    e.pre.Panics config e.act := by
  have ⟨l, l', he, hs, x, hx, ht⟩ := shortToken_exec
  refine ⟨_, l', _, (Run.of_exec linked_init he).snoc hs, List.mem_concat_self, ?_⟩
  have hh := Linked.Handles.declare hx ht
  have ⟨msg, hp⟩ := Linked.handleDeclareMiningJob_panics x.downstream l.server.mempool
    (by decide : shortToken.miningJobToken.1.length ≠ 4)
  rw [hp] at hh
  exact .handler hh

-- What is safe of a step, as it can be computed.
def safe (e : Event (Linked roles) (LinkedAction Bytes)) : Bool :=
  match e.act with
  | .act (.run c) => c ∉ e.pre.closed && (e.pre.server.clients.lookup c).all fun x =>
    match x.task with
    | .declare message               => message.miningJobToken.1.length = 4
    | .rebuild message _ job [] txs  => (roles.blockHex job txs message).isSome
    | _                              => true
  | .act (.receive c _) => c ∉ e.pre.closed
  | _                   => true

theorem safe_of_all {tr : List (Event (Linked roles) (LinkedAction Bytes))} (h : tr.all safe) :
    Along Linked.Safe tr := by
  intro e he
  have h := List.all_eq_true.mp h e he
  constructor
  case token =>
    intro c x message ha hx ht
    have h : c ∉ e.pre.closed ∧ message.miningJobToken.1.length = 4 := by
      simpa [safe, ha, hx, ht] using h
    exact h.right
  case coinbase =>
    intro c x message retrieved job txs ha hx ht
    have h : c ∉ e.pre.closed ∧ (roles.blockHex job txs message).isSome := by
      simpa [safe, ha, hx, ht] using h
    exact h.right
  case takes =>
    intro c a ha han
    cases han with
    | allocate | provide => simpa [safe, ha] using h
    | declare            =>
      simp only [safe, ha, Bool.and_eq_true, decide_eq_true_eq] at h
      exact h.left

-- The transaction is provided and added, and the solution of the job becomes a block.
def solved : List (LinkedAction Bytes) :=
  (provided ++ additions ++ push :: work).map .act

theorem solved_safe : ((Linked.machine roles config).trace linked solved).all safe := by
  decide +kernel

theorem solved_exec : ((Linked.machine roles config).exec linked solved).any fun l =>
    l.server.newBlocks.queued.length = 1 := by
  decide +kernel

end Sample

theorem not_no_panic :
    ¬∀ tr l, (Linked.machine Sample.roles Sample.config).Run tr l →
      ∀ e ∈ tr, ¬e.pre.Panics Sample.config e.act := by
  intro h
  have ⟨tr, l, e, r, he, hp⟩ := Sample.shortToken_panics
  exact h tr l r e he hp

open Sample in
theorem no_panic_iff_sample : (∃ tr l, (Linked.machine roles config).Run tr l ∧
    l.server.newBlocks.queued.length = 1 ∧ ∀ e ∈ tr, ¬e.pre.Panics config e.act) ∧
    ∃ tr l, (Linked.machine roles config).Run tr l ∧ ¬Along Linked.Safe tr := by
  constructor
  case left =>
    obtain ⟨l, hl, hq⟩ := Option.any_eq_true _ _ |>.mp solved_exec
    have r := Run.of_exec linked_init hl
    exact ⟨_, l, r, of_decide_eq_true hq, (no_panic_iff r).mpr (safe_of_all solved_safe)⟩
  case right =>
    have ⟨tr, l, e, r, he, hp⟩ := shortToken_panics
    exact ⟨tr, l, r, fun h => (no_panic_iff r).mpr h e he hp⟩

end Jds
