import StratumApps.JobDeclaratorServer.Retention

open Sv2 Handler

namespace Jds

variable {Tx : Type} {R : RolesLogic Tx} {s s' : Server R} {c c' : ClientId} {k : Txid}
variable {x : Session Tx} {cfg : Config} {a : Action Tx} {job : DeclareMiningJob}
variable {message : PushSolution} {m m' : JdsMempool R} {t : Task Tx}

namespace Action

-- A step of the task of `c` on what it has in hand.
def works (c : ClientId) : Action Tx → Bool
  | .run c' | .rpc c' _ => c' = c
  | _                   => false

end Action

-- How many steps the task needs at most until it has queued the block of a job of `n` transactions.
def Task.rank (n : ℕ) : Task Tx → ℕ
  | .collect _ todo _                         => todo.length + 3 * n + 5
  | .retrieve _ (.getRawTransaction _ inner)  => 2 * inner.knownTransactions.length + n + 5
  | .retrieve _ (.next inner)                 => 2 * inner.knownTransactions.length + n + 4
  | .retrieve _ (.done _)                     => n + 3
  | .rebuild _ _ _ todo _                     => todo.length + 2
  | .sendBlock _                              => 1
  | .recv | .declare _                        => 0

-- What the task of a client has achieved on its way from a solution to the block: the transactions
-- collected so far are the first declared ones, and those that need not be fetched any more are fat.
inductive Phase (m : JdsMempool R) (job : DeclareMiningJob) (message : PushSolution) :
    Task Tx → Prop
  | collect {todo : List Txid} {txs : List Tx} :
    job.txIdsList.1 = txs.map R.computeTxid ++ todo →
    (∀ k ∈ txs.map R.computeTxid, m.Fat k) →
    Phase m job message (.collect message (todo.map .presentInMempool) txs)
  | next {known : List Txid} :
    (∀ k ∈ job.txIdsList.1, k ∈ known ∨ m.Fat k) →
    Phase m job message (.retrieve message (.next ⟨known, []⟩))
  | getRawTransaction {txid : Txid} {known : List Txid} :
    (∀ k ∈ job.txIdsList.1, k ∈ txid :: known ∨ m.Fat k) →
    Phase m job message (.retrieve message (.getRawTransaction txid ⟨known, []⟩))
  | done {result : Except JdsMempoolError Unit} :
    (∀ k ∈ job.txIdsList.1, m.Fat k) →
    Phase m job message (.retrieve message (.done result))
  | rebuild {retrieved : Bool} {todo : List Txid} {txs : List Tx} :
    job.txIdsList.1 = txs.map R.computeTxid ++ todo →
    (∀ k ∈ job.txIdsList.1, m.Fat k) →
    Phase m job message (.rebuild message retrieved job (todo.map .presentInMempool) txs)
  | sendBlock {txs : List Tx} {hexdata : String} :
    txs.map R.computeTxid = job.txIdsList.1 →
    R.blockHex job txs message = some hexdata →
    Phase m job message (.sendBlock hexdata)

theorem Phase.mono (h : Phase m job message t)
    (hf : ∀ k ∈ job.txIdsList.1, m.Fat k → m'.Fat k) : Phase m' job message t := by
  cases h
  case collect he hm =>
    exact .collect he fun k hk => hf k (he ▸ List.mem_append_left _ hk) (hm k hk)
  case next hm              => exact .next fun k hk => (hm k hk).imp_right (hf k hk)
  case getRawTransaction hm => exact .getRawTransaction fun k hk => (hm k hk).imp_right (hf k hk)
  case done hm              => exact .done fun k hk => hf k hk (hm k hk)
  case rebuild he hm        => exact .rebuild he fun k hk => hf k hk (hm k hk)
  case sendBlock he hh      => exact .sendBlock he hh

theorem Phase.rank_pos (h : Phase m job message t) (n : ℕ) : 0 < t.rank n := by
  cases h <;> simp [Task.rank]

namespace Server

def Busy (s : Server R) (c : ClientId) : Prop :=
  ∃ x, s.clients.lookup c = some x ∧ x.task ≠ .recv

-- The block of the job with its transactions in order goes into the queue of new blocks.
def QueuesBlock (R : RolesLogic Tx) (job : DeclareMiningJob) (message : PushSolution)
    (e : Machine.Event (Server R) (Action Tx)) : Prop :=
  ∃ txs hexdata, txs.map R.computeTxid = job.txIdsList.1 ∧
    R.blockHex job txs message = some hexdata ∧
    e.post.newBlocks.queued = e.pre.newBlocks.queued ++ [hexdata]

-- A solution of `c` comes when the transactions of its job, which are the declared ones, have
-- arrived in the mempool, if only by their ids; the node answers for those in time; no other client
-- makes the mempool forget one; and the coinbase of the job decodes.
structure Timely (c : ClientId) (s : Server R) (a : Action Tx) : Prop where
  spares  : s.SparesClient c a
  arrived : ∀ message x job, a = .receive c (.pushSolution message) →
    s.clients.lookup c = some x → x.downstream.declaredMiningJob = some job →
    .missing ∉ x.downstream.transactionsWithState →
    x.downstream.transactionsWithState = job.txIdsList.1.map .presentInMempool ∧
      ∀ k ∈ job.txIdsList.1, k ∈ s.mempool
  decodes : ∀ message x job txs, a = .receive c (.pushSolution message) →
    s.clients.lookup c = some x → x.downstream.declaredMiningJob = some job →
    txs.map R.computeTxid = job.txIdsList.1 → (R.blockHex job txs message).isSome
  answers : ∀ answer x message txid inner, a = .rpc c answer → s.clients.lookup c = some x →
    x.task = .retrieve message (.getRawTransaction txid inner) →
    ∃ tx, answer = .ok tx ∧ R.computeTxid tx = txid
  awake   : a ≠ .sleep c

-- The task of `c` works on a solution of its job, and can still finish it.
structure Solving (s : Server R) (c : ClientId) (job : DeclareMiningJob) (message : PushSolution)
    (x : Session Tx) : Prop where
  session : s.clients.lookup c = some x
  live    : c < s.nextClient
  current : x.downstream.declaredMiningJob = some job
  states  : x.downstream.transactionsWithState = job.txIdsList.1.map .presentInMempool
  client  : s.mempool.getClient.isSome
  phase   : Phase s.mempool job message x.task
  mem     : ∀ k ∈ job.txIdsList.1, k ∈ s.mempool
  decodes : ∀ txs, txs.map R.computeTxid = job.txIdsList.1 → (R.blockHex job txs message).isSome

theorem fat_of_not_thin (hk : k ∈ m) (ht : ¬m.Thin k) : m.Fat k :=
  JdsMempool.mem_iff_thin_or_fat.mp hk |>.resolve_left ht

theorem collectTx_eq_some {tx : Tx} :
    collectTx m (.presentInMempool k) = some tx ↔ ∃ n, m.mempool.lookup k = some (some (tx, n)) := by
  rw [collectTx]
  split <;> simp_all

theorem collectTx_of_fat (h : m.Fat k) :
    ∃ tx, collectTx m (.presentInMempool k) = some tx ∧ R.computeTxid tx = k := by
  have ⟨tx, n, hl⟩ := h
  exact ⟨tx, collectTx_eq_some.mpr ⟨n, hl⟩, m.txid_eq _ _ _ hl⟩

namespace Solving

variable {x' : Session Tx}

theorem marks (h : s.Solving c job message x) (hk : k ∈ job.txIdsList.1) : s.Marks c k :=
  ⟨x, h.session, by simp [h.current], by simpa [h.states] using hk⟩

theorem ne_recv (h : s.Solving c job message x) : x.task ≠ .recv := by
  intro he
  have := he ▸ h.phase
  cases this

theorem busy (h : s.Solving c job message x) : s.Busy c :=
  ⟨x, h.session, h.ne_recv⟩

-- No step that is timely takes a transaction of the job away.
theorem keeps (h : s.Solving c job message x) (ht : Timely c s a) (hs : s.step cfg a = some s') :
    (∀ k ∈ job.txIdsList.1, k ∈ s'.mempool) ∧
      ∀ k ∈ job.txIdsList.1, s.mempool.Fat k → s'.mempool.Fat k := by
  cases step_mempool hs
  case inl hg => exact ⟨fun k hk => hg.mem <| h.mem k hk, fun k _ => hg.fat⟩
  case inr hd =>
    have ⟨c', message', ha, hd⟩ := hd
    have hc : c ≠ c' := by
      intro hc
      subst ha hc
      have ⟨y, hy, hs⟩ := Option.bind_eq_some_iff.mp hs
      cases h.session.symm.trans hy
      split at hs <;> cases hs
      exact h.ne_recv ‹_›
    have hn (k) (hk : k ∈ job.txIdsList.1) : ¬s.mempool.Drops (s.droppedBy c' message') k :=
      ht.spares c' message' ha hc.symm k (h.marks hk)
    rw [hd]
    exact ⟨fun k hk => JdsMempool.mem_clearTxids.mpr ⟨h.mem k hk, hn k hk⟩,
      fun k hk hf => hf.clearTxids <| hn k hk⟩

theorem next (h : s.Solving c job message x) (ht : Timely c s a) (hs : s.step cfg a = some s')
    (hx : s'.clients.lookup c = some x') (hd : x'.downstream = x.downstream)
    (hp : Phase s'.mempool job message x'.task) : s'.Solving c job message x' where
  session := hx
  live    := lt_of_lt_of_le h.live <| step_nextClient_le hs
  current := hd ▸ h.current
  states  := hd ▸ h.states
  client  := step_getClient hs ▸ h.client
  phase   := hp
  mem     := h.keeps ht hs |>.left
  decodes := h.decodes

-- The steps of the other tasks leave the client's task where it is.
theorem other (h : s.Solving c job message x) (ht : Timely c s a) (hs : s.step cfg a = some s')
    (ha : a.works c = false) : s'.Solving c job message x := by
  have hc : a.client? ≠ some c := by
    intro hc
    cases a <;> cases hc
    case receive | disconnect =>
      have ⟨y, hy, hs⟩ := Option.bind_eq_some_iff.mp hs
      cases h.session.symm.trans hy
      split at hs <;> cases hs
      exact h.ne_recv ‹_›
    case run | rpc => simp [Action.works] at ha
    case sleep     => exact ht.awake rfl
  have hx := step_lookup hs h.live hc
  exact h.next ht hs (hx ▸ h.session) rfl (h.phase.mono <| h.keeps ht hs |>.right)

theorem getTransactionsInJob (h : s.Solving c job message x) :
    x.downstream.getTransactionsInJob = job.txIdsList.1 := by
  rw [JobDeclaratorDownstream.getTransactionsInJob, h.states, List.filterMap_map]
  exact List.filterMap_some

-- A step of the task moves it on to a session that is nearer to the block.
def Advances (s' : Server R) (c : ClientId) (job : DeclareMiningJob) (message : PushSolution)
    (x : Session Tx) : Prop :=
  ∃ x', s'.Solving c job message x' ∧
    x'.task.rank job.txIdsList.1.length + 1 ≤ x.task.rank job.txIdsList.1.length

variable {d : JobDeclaratorDownstream Tx} {sent : List JobDeclaration}

theorem advances {m : JdsMempool R} (h : s.Solving c job message x) (ht : Timely c s a)
    (hs : s.step cfg a = some s') (he : s' = { s with mempool := m }.setSession c { x with task := t })
    (hp : Phase m job message t)
    (hr : t.rank job.txIdsList.1.length + 1 ≤ x.task.rank job.txIdsList.1.length) :
    Advances s' c job message x := by
  subst he
  exact ⟨{ x with task := t }, h.next ht hs setSession_lookup rfl hp, hr⟩

theorem getBlockHex (h : s.Solving c job message x) {retrieved : Bool} :
    s.getBlockHex c x message retrieved = s.setSession c { x with
      task := .rebuild message retrieved job (job.txIdsList.1.map .presentInMempool) [] } := by
  rw [Server.getBlockHex, h.current, h.states]

theorem run (h : s.Solving c job message x) (ht : Timely c s (.run c))
    (hs : s.step cfg (.run c) = some s') :
    QueuesBlock R job message ⟨s, .run c, s'⟩ ∨ Advances s' c job message x := by
  have hr : s.runSession c x = some s' := by simpa [step, h.session] using hs
  have hp := h.phase
  generalize hx : x.task = t at hp
  cases hp
  case collect todo txs he hm =>
    cases todo with
    | nil =>
      simp only [runSession, hx, List.map_nil, h.getBlockHex, Option.some_inj] at hr
      refine .inr <| h.advances ht hs hr.symm (.rebuild rfl ?_) ?_
      · simpa [he] using hm
      · simp only [Task.rank, hx, List.length_map]
        omega
    | cons k todo =>
      simp only [runSession, hx, List.map_cons] at hr
      split at hr
      case h_1 tx hc =>
        obtain ⟨n, hl⟩ := collectTx_eq_some.mp hc
        have hk := s.mempool.txid_eq _ _ _ hl
        cases hr
        refine .inr <| h.advances ht hs rfl (.collect ?_ ?_) ?_
        · simp [he, hk]
        · simpa [hk, or_imp, forall_and] using ⟨by simpa using hm, ⟨tx, n, hl⟩⟩
        · simp only [Task.rank, hx, List.length_map, List.length_cons]
          omega
      case h_2 =>
        rw [h.getTransactionsInJob, AddTxData.start, if_pos h.client] at hr
        cases hr
        refine .inr <| h.advances ht hs rfl (.next fun k hk => .inl hk) ?_
        simp only [Task.rank, hx, List.length_map, List.length_cons]
        omega
  case next known hm =>
    cases known with
    | nil =>
      simp only [runSession, hx, AddTxData.run, Option.map_some, Option.some_inj] at hr
      refine .inr <| h.advances ht hs hr.symm (.done fun k hk => ?_) ?_
      · simpa using hm k hk
      · simp only [Task.rank, hx]
        omega
    | cons txid known =>
      simp only [runSession, hx, AddTxData.run] at hr
      split at hr <;> cases hr
      case h_1 =>
        refine .inr <| h.advances ht hs rfl (.getRawTransaction hm) ?_
        simp only [Task.rank, hx, List.length_cons]
        omega
      case h_2 | h_3 =>
        refine .inr <| h.advances ht hs rfl (.next fun k hk => ?_) ?_
        · cases hm k hk
          case inr hf => exact .inr hf
          case inl hk' =>
            cases hk'
            case tail hk' => exact .inl hk'
            -- An entry that is not thin is fat, since no transaction of the job is absent.
            case head => exact .inr <| fat_of_not_thin (h.mem _ hk) (by simp_all [JdsMempool.Thin])
        · simp only [Task.rank, hx, List.length_cons]
          omega
  case getRawTransaction txid known hm => simp [runSession, hx, AddTxData.run] at hr
  case done result hm =>
    simp only [runSession, hx, h.getBlockHex, Option.some_inj] at hr
    refine .inr <| h.advances ht hs hr.symm (.rebuild rfl hm) ?_
    simp only [Task.rank, hx, List.length_map]
    omega
  case rebuild retrieved todo txs he hm =>
    cases todo with
    | nil =>
      rw [List.append_nil] at he
      obtain ⟨hexdata, hh⟩ := Option.isSome_iff_exists.mp <| h.decodes txs he.symm
      simp only [runSession, hx, List.map_nil, hh, Option.some_inj] at hr
      refine .inr <| h.advances ht hs hr.symm (.sendBlock he.symm hh) ?_
      simp only [Task.rank, hx, List.length_map]
      omega
    | cons k todo =>
      obtain ⟨tx, hc, hk⟩ := collectTx_of_fat <| hm k (by simp [he])
      simp only [runSession, hx, List.map_cons, hc, Option.some_inj] at hr
      refine .inr <| h.advances ht hs hr.symm (.rebuild ?_ hm) ?_
      · simp [he, hk]
      · simp only [Task.rank, hx, List.length_map, List.length_cons]
        omega
  case sendBlock txs hexdata he hh =>
    simp only [runSession, hx] at hr
    split at hr <;> cases hr
    exact .inl ⟨txs, hexdata, he, hh, rfl⟩

theorem rpc {answer : Except String Tx} (h : s.Solving c job message x)
    (ht : Timely c s (.rpc c answer)) (hs : s.step cfg (.rpc c answer) = some s') :
    Advances s' c job message x := by
  have hp := h.phase
  generalize hx : x.task = t at hp
  simp only [step, h.session, Option.bind_some, hx] at hs
  cases hp <;> try simp [AddTxData.reply] at hs
  case getRawTransaction txid known hm =>
    obtain ⟨tx, ha, htx⟩ := ht.answers answer x message txid ⟨known, []⟩ rfl h.session hx
    subst ha
    have hs' : s.step cfg (.rpc c (.ok tx)) = some s' := by
      simpa [step, h.session, hx, AddTxData.reply] using hs
    obtain ⟨_, _, he, hs⟩ := hs
    cases he
    refine h.advances ht hs' hs.symm (.next fun k hk => ?_) ?_
    · cases hm k hk
      case inr hf => exact .inr <| (s.mempool.addTx_grows tx).fat hf
      case inl hk' =>
        cases hk'
        case tail hk' => exact .inl hk'
        case head     => exact .inr <| htx ▸ s.mempool.addTx_fat tx
    · simp only [Task.rank, hx]
      omega

theorem step (h : s.Solving c job message x) (ht : Timely c s a) (hs : s.step cfg a = some s') :
    QueuesBlock R job message ⟨s, a, s'⟩ ∨ ∃ x', s'.Solving c job message x' ∧
      x'.task.rank job.txIdsList.1.length + (a.works c).toNat ≤
        x.task.rank job.txIdsList.1.length := by
  match hw : a.works c with
  | false => exact .inr ⟨x, h.other ht hs hw, le_rfl⟩
  | true =>
    cases a <;> simp only [Action.works, decide_eq_true_eq, Bool.false_eq_true] at hw <;> subst hw
    case run => exact h.run ht hs
    case rpc => exact .inr <| h.rpc ht hs

-- The task is never stuck: when the queue of new blocks is full, a block can be submitted first.
theorem enabled (h : s.Solving c job message x) :
    ∃ a s', (a.works c ∨ a = .submitBlock) ∧ s.step cfg a = some s' := by
  have hp := h.phase
  generalize hx : x.task = t at hp
  by_cases hr : ∃ s', s.runSession c x = some s'
  case pos =>
    have ⟨s', hr⟩ := hr
    exact ⟨.run c, s', by simp [Action.works], by simpa [Server.step, h.session] using hr⟩
  case neg =>
    cases hp
    case getRawTransaction txid known _ =>
      refine ⟨.rpc c (.error ""), ?_⟩
      simp [Action.works, Server.step, h.session, hx, AddTxData.reply]
    case sendBlock =>
      refine ⟨.submitBlock, ?_⟩
      simp only [runSession, hx] at hr
      split at hr
      case isTrue => simp at hr
      case isFalse hf =>
        have hlt : s.newBlocks.received < s.newBlocks.queued.length := by omega
        simp [Server.step, hlt]
    all_goals apply hr.elim
    case collect todo _ _ _ =>
      cases todo <;> simp only [runSession, hx, List.map_nil, List.map_cons]
      case nil  => simp
      case cons => split <;> simp
    case next known _ =>
      cases known <;> simp only [runSession, hx, AddTxData.run]
      case nil  => simp
      case cons => split <;> simp
    case done => simp [runSession, hx]
    case rebuild todo _ _ _ =>
      cases todo <;> simp only [runSession, hx, List.map_nil, List.map_cons] <;> split <;> try split
      all_goals simp

end Solving

end Server

open Machine Server

theorem Server.Started.solving (hi : s.Started) (ha : s.Answered c job)
    (ht : Timely c s (.receive c (.pushSolution message)))
    (hs : s.step cfg (.receive c (.pushSolution message)) = some s') :
    ∃ x, s'.Solving c job message x ∧
      x.task.rank job.txIdsList.1.length = 4 * job.txIdsList.1.length + 5 := by
  have ⟨x, r, hx, hj, hl⟩ := ha
  have hm := hi.sound c x hx (by simp [hj]) r hl
  have ⟨hst, hmem⟩ := ht.arrived message x job rfl hx hj hm
  have ⟨y, hy, hr⟩ := Option.bind_eq_some_iff.mp hs
  cases hx.symm.trans hy
  split at hr <;> cases hr
  refine ⟨_, {
    session := setSession_lookup
    live    := hi.issued c <| Map.mem_iff_lookup.mpr ⟨x, hx⟩
    current := hj
    states  := hst
    client  := hi.client
    phase   := ?_
    mem     := hmem
    decodes := fun txs => ht.decodes message x job txs rfl hx hj }, ?_⟩
  · simp only [hst]
    exact .collect (by simp) (by simp)
  · simp only [Task.rank, hst, List.length_map]
    omega

-- Once a solution of an answered job has come in time, and as long as the steps after it are timely,
-- its block is in the queue when the client's task is done with it, and after so many steps of that
-- task at the latest; until then the task can go on.
theorem solution_queued {tr₁ tr₂ : List (Event (Server R) (Action Tx))} {s₁ s₂ : Server R}
    (r : (machine R cfg).Run tr₁ s₁) (ha : s₁.Answered c job)
    (hs : (machine R cfg).step s₁ (.receive c (.pushSolution message)) = some s₂)
    (p : (machine R cfg).Path s₂ tr₂ s)
    (ht : Along (Timely c) (⟨s₁, .receive c (.pushSolution message), s₂⟩ :: tr₂)) :
    (¬s.Busy c → ∃ e ∈ tr₂, QueuesBlock R job message e) ∧
    (4 * job.txIdsList.1.length + 5 ≤ tr₂.countP (·.act.works c) →
      ∃ e ∈ tr₂, QueuesBlock R job message e) ∧
    ((∃ e ∈ tr₂, QueuesBlock R job message e) ∨
      ∃ a s', (a.works c ∨ a = .submitBlock) ∧ (machine R cfg).step s a = some s') := by
  have ht₂ : Along (Timely c) tr₂ := fun e he => ht e <| List.mem_cons_of_mem _ he
  have hs : s₁.step cfg (.receive c (.pushSolution message)) = some s₂ := hs
  have ⟨x, hx, hr⟩ := (started_of_run r).solving ha (ht _ List.mem_cons_self) hs
  have h : (∃ e ∈ tr₂, QueuesBlock R job message e) ∨ ∃ n,
      (∃ x, s.Solving c job message x ∧ x.task.rank job.txIdsList.1.length = n) ∧
        n + tr₂.countP (·.act.works c) ≤ 4 * job.txIdsList.1.length + 5 := by
    apply p.ranked _ ht₂ ⟨x, hx, hr⟩
    intro s a s' n ⟨y, hy, hn⟩ ha hs
    cases hy.step ha hs
    case inl hq => exact .inl hq
    case inr hy =>
      have ⟨y', hy, hr⟩ := hy
      exact .inr ⟨_, ⟨y', hy, rfl⟩, hn ▸ hr⟩
  cases h
  case inl hq => exact ⟨fun _ => hq, fun _ => hq, .inl hq⟩
  case inr h =>
    have ⟨n, ⟨y, hy, hn⟩, hle⟩ := h
    refine ⟨fun hb => absurd hy.busy hb, fun hle' => ?_, .inr hy.enabled⟩
    have := hy.phase.rank_pos job.txIdsList.1.length
    omega

-- What is asked of the server without any condition: that a solution of an answered job leads to
-- its block whenever the task of the client is done with it.
def SolutionsQueued (R : RolesLogic Tx) (cfg : Config) : Prop :=
  ∀ tr₁ s₁ c job message s₂ tr₂ s, (machine R cfg).Run tr₁ s₁ → s₁.Answered c job →
    (machine R cfg).step s₁ (.receive c (.pushSolution message)) = some s₂ →
    (machine R cfg).Path s₂ tr₂ s → ¬s.Busy c → ∃ e ∈ tr₂, QueuesBlock R job message e

namespace Sample

-- The mempool does not know the transaction, which the client provides.
def provided : List (Action Bytes) :=
  [ .connect, .receive 0 (.allocateMiningJobToken ⟨[], 1⟩),
    .receive 0 (.declareMiningJob (Sample.job 2 txids)), .run 0,
    .receive 0 (.provideMissingTransactionsSuccess ⟨2, ⟨[tx], by decide⟩⟩) ]

def push : Action Bytes :=
  .receive 0 (.pushSolution solution)

-- The task of the client from the solution to its end: in vain when the additions have not run,
-- and to the block when they have.
def work : List (Action Bytes) :=
  .replicate 5 (.run 0)

def additions : List (Action Bytes) :=
  [.spawnAdd, .spawnAdd, .runAdd 1]

variable {s : Server roles}

instance : Decidable (s.Answered c job) :=
  decidable_of_iff ((s.clients.lookup c).any fun x =>
    decide (x.downstream.declaredMiningJob = some job) &&
      (lastAnswer x.sent).any (· matches .declareMiningJobSuccess _)) <| by
    simp only [Option.any_eq_true, Bool.and_eq_true, decide_eq_true_eq, Answered]
    constructor
    · intro ⟨x, hx, hj, r, hr, hm⟩
      split at hm
      · exact ⟨x, _, hx, hj, hr⟩
      · cases hm
    · intro ⟨x, r, hx, hj, hr⟩
      exact ⟨x, hx, hj, _, hr, rfl⟩

instance : Decidable (s.Busy c) :=
  decidable_of_iff ((s.clients.lookup c).any fun x => !(x.task matches .recv)) <| by
    simp only [Option.any_eq_true, Busy]
    apply exists_congr
    intro x
    cases x.task <;> simp

theorem early_solution_dropped :
    ∃ s₁ s₂ s₃, (machine roles config).exec start provided = some s₁ ∧
      (machine roles config).step s₁ push = some s₂ ∧
      (machine roles config).exec s₂ work = some s₃ ∧
      s₁.Answered 0 (Sample.job 2 txids) ∧ ¬s₃.Busy 0 ∧
      ∀ e ∈ (machine roles config).trace s₂ work,
        e.post.newBlocks.queued = e.pre.newBlocks.queued := by
  have h : ((machine roles config).exec start provided).any (fun s₁ =>
      ((machine roles config).step s₁ push).any fun s₂ =>
      ((machine roles config).exec s₂ work).any fun s₃ => decide <|
        s₁.Answered 0 (Sample.job 2 txids) ∧ ¬s₃.Busy 0 ∧
        ∀ e ∈ (machine roles config).trace s₂ work,
          e.post.newBlocks.queued = e.pre.newBlocks.queued) := by
    decide +kernel
  simpa [Option.any_eq_true] using h

end Sample

theorem not_solutionsQueued : ¬SolutionsQueued Sample.roles Sample.config := by
  intro h
  have ⟨s₁, s₂, s₃, h₁, h₂, h₃, ha, hb, hq⟩ := Sample.early_solution_dropped
  have ⟨e, he, _, hexdata, _, _, hn⟩ :=
    h _ s₁ 0 _ Sample.solution s₂ _ s₃ (.of_exec Sample.start_init h₁) ha h₂ (.of_exec h₃) hb
  simp [hq e he] at hn

namespace Sample

open Server in
-- A check for steps that are timely for the first client in the runs of the sample.
def prompt (e : Event (Server roles) (Action Bytes)) : Bool :=
  match e.act with
  | .receive c (.declareMiningJob message) => e.pre.droppedBy c message = []
  | .receive c (.pushSolution message) =>
    message = solution ∧ txid ∈ e.pre.mempool.mempool ∧
      (e.pre.clients.lookup c).any fun x =>
        x.downstream.declaredMiningJob = some (Sample.job 2 txids) ∧
        x.downstream.transactionsWithState = [.presentInMempool txid]
  | .rpc _ _ | .sleep _ => false
  | _ => true

theorem eq_of_computeTxid {t : Bytes} (h : roles.computeTxid t = txid) : t = tx := by
  by_contra hn
  have : roles.computeTxid t = 0 := if_neg hn
  rw [this] at h
  exact absurd h (by decide)

theorem prompt_timely {e : Event (Server roles) (Action Bytes)} (h : prompt e) :
    Timely 0 e.pre e.act := by
  obtain ⟨s, a, s'⟩ := e
  constructor
  case spares =>
    intro c' message ha _ k _ hk
    subst ha
    have ⟨_, _, _, hk, _⟩ := hk
    simp_all [prompt]
  case arrived =>
    intro message x job ha hx hj _
    subst ha
    have h : message = solution ∧ txid ∈ s.mempool.mempool ∧
        x.downstream.declaredMiningJob = some (Sample.job 2 txids) ∧
        x.downstream.transactionsWithState = [.presentInMempool txid] := by
      simpa [prompt, hx] using h
    have ⟨_, hk, hj', hs⟩ := h
    cases hj.symm.trans hj'
    exact ⟨hs, by simpa [Sample.job, txids, JdsMempool.mem_def] using hk⟩
  case decodes =>
    intro message x job txs ha hx hj ht
    subst ha
    have h : message = solution ∧ txid ∈ s.mempool.mempool ∧
        x.downstream.declaredMiningJob = some (Sample.job 2 txids) ∧
        x.downstream.transactionsWithState = [.presentInMempool txid] := by
      simpa [prompt, hx] using h
    have ⟨hm, _, hj', _⟩ := h
    cases hj.symm.trans hj'
    have ⟨t, ht, htx⟩ : ∃ t, roles.computeTxid t = txid ∧ txs = [t] := by
      match txs with
      | []          => cases ht
      | [t]         => exact ⟨t, List.singleton_inj.mp ht, rfl⟩
      | _ :: _ :: _ => simp [Sample.job, txids] at ht
    simp [roles, htx, eq_of_computeTxid ht, hm, Sample.job]
  case answers =>
    intro answer x message txid inner ha
    subst ha
    cases h
  case awake =>
    intro ha
    subst ha
    cases h

theorem additions_run :
    ∃ s₁ s₂ s₃, (machine roles config).exec start (provided ++ additions) = some s₁ ∧
      (machine roles config).step s₁ push = some s₂ ∧
      (machine roles config).exec s₂ work = some s₃ ∧
      s₁.Answered 0 (Sample.job 2 txids) ∧ ¬s₃.Busy 0 ∧
      ∀ e ∈ ⟨s₁, push, s₂⟩ :: (machine roles config).trace s₂ work, prompt e := by
  have h : ((machine roles config).exec start (provided ++ additions)).any (fun s₁ =>
      ((machine roles config).step s₁ push).any fun s₂ =>
      ((machine roles config).exec s₂ work).any fun s₃ => decide <|
        s₁.Answered 0 (Sample.job 2 txids) ∧ ¬s₃.Busy 0 ∧
        ∀ e ∈ ⟨s₁, push, s₂⟩ :: (machine roles config).trace s₂ work, prompt e) := by
    decide +kernel
  simpa [Option.any_eq_true] using h

end Sample

theorem solution_queued_sample :
    ∃ tr : List (Event (Server Sample.roles) (Action Bytes)), ∃ e ∈ tr,
      QueuesBlock Sample.roles (Sample.job 2 Sample.txids) Sample.solution e := by
  have ⟨s₁, s₂, s₃, h₁, h₂, h₃, ha, hb, ht⟩ := Sample.additions_run
  have r := Run.of_exec Sample.start_init h₁
  have p := Path.of_exec h₃
  exact ⟨_, (solution_queued r ha h₂ p fun e he => Sample.prompt_timely (ht e he)).left hb⟩

end Jds
