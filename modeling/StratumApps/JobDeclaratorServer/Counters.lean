import StratumApps.JobDeclaratorServer.Transactions

open Sv2 Handler

namespace Jds

variable {Tx : Type} {R : RolesLogic Tx} {cfg : Config} {k : Txid} {c c' : ClientId}

namespace AddTxData

def inner : AddTxData Tx → AddTrasactionsToMempoolInner Tx
  | .next inner | .getRawTransaction _ inner => inner
  | .done _                                  => ⟨[], []⟩

-- How often an addition will still add the transaction from its list, look up its id, and fetch it.
def provides (R : RolesLogic Tx) (k : Txid) (t : AddTxData Tx) : ℕ :=
  t.inner.unknownTransactions.countP fun tx => R.computeTxid tx = k

def looksUp (k : Txid) (t : AddTxData Tx) : ℕ :=
  t.inner.knownTransactions.count k

def fetches (k : Txid) : AddTxData Tx → ℕ
  | .getRawTransaction txid _ => if txid = k then 1 else 0
  | .next _ | .done _         => 0

variable {inner : AddTrasactionsToMempoolInner Tx}

theorem provides_next : (AddTxData.next inner).provides R k =
    inner.unknownTransactions.countP fun tx => R.computeTxid tx = k := rfl

theorem looksUp_next : (AddTxData.next inner).looksUp k = inner.knownTransactions.count k := rfl

theorem fetches_next : (AddTxData.next inner).fetches k = 0 := rfl

end AddTxData

namespace Session

-- The current job of the session names the transaction; the session has it present, or lacks it.
def references (x : Session Tx) (k : Txid) : Bool :=
  x.downstream.declaredMiningJob.any (·.txIdsList.1.contains k)

def marks (x : Session Tx) (k : Txid) : Bool :=
  x.downstream.declaredMiningJob.isSome &&
    decide (.presentInMempool k ∈ x.downstream.transactionsWithState)

def Lacks (x : Session Tx) (k : Txid) : Prop :=
  ∃ job, ∃ i : ℕ, x.downstream.declaredMiningJob = some job ∧ job.txIdsList.1[i]? = some k ∧
    x.downstream.transactionsWithState[i]? = some .missing

-- The session names the transaction, be it in a declaration that is being handled.
def Involves (x : Session Tx) (k : Txid) : Prop :=
  x.references k ∨ ∃ message, x.task = .declare message ∧ k ∈ message.txIdsList.1

end Session

namespace Server

variable {s s' : Server R} {a : Action Tx} {x x' : Session Tx}

-- The sum over all additions that are queued or under way.
def load (s : Server R) (w : AddTxData Tx → ℕ) : ℕ :=
  (s.addTxs.map fun inner => w (.next inner)).sum + Map.total s.addTasks fun _ => w

def provides (s : Server R) (k : Txid) : ℕ :=
  s.load (·.provides R k)

def looksUp (s : Server R) (k : Txid) : ℕ :=
  s.load (·.looksUp k)

def fetches (s : Server R) (k : Txid) : ℕ :=
  s.load (·.fetches k)

-- No addition is concerned with the transaction.
def Idle (s : Server R) (k : Txid) : Prop :=
  s.provides k = 0 ∧ s.looksUp k = 0 ∧ s.fetches k = 0

-- In how many current jobs of connected clients the transaction is.
def references (s : Server R) (k : Txid) : ℕ :=
  Map.total s.clients fun _ x => (x.references k).toNat

-- All additions have been processed, those of the tasks of the clients included, and no declaration
-- is being handled.
structure Settled (s : Server R) : Prop where
  queue   : s.addTxs = []
  tasks   : ∀ t add, s.addTasks.lookup t = some add → ∃ result, add = .done result
  clients : ∀ c x, s.clients.lookup c = some x → (∀ message, x.task ≠ .declare message) ∧
    ∀ message add, x.task = .retrieve message add → ∃ result, add = .done result

def Counted (s : Server R) : Prop :=
  ∀ k tx n, s.mempool.mempool.lookup k = some (some (tx, n)) →
    n.toNat = s.references k ∧ s.references k ≠ 0

-- The step adds the transaction to the mempool.
inductive Adds (s : Server R) (tx : Tx) : Action Tx → Prop
  | run {t : ℕ} {txs : List Tx} :
    s.addTasks.lookup t = some (.next ⟨[], tx :: txs⟩) → Adds s tx (.runAdd t)
  | rpc {t : ℕ} {txid : Txid} {inner : AddTrasactionsToMempoolInner Tx} :
    s.addTasks.lookup t = some (.getRawTransaction txid inner) → Adds s tx (.rpcAdd t (.ok tx))

-- What keeps the counters right.
structure Tidy (cfg : Config) (s : Server R) (a : Action Tx) : Prop where
  -- The job that is replaced is complete, its additions are through, and when some of it is kept
  -- the new declaration is one that will be accepted.
  replaces : ∀ c message x job, a = .receive c (.declareMiningJob message) →
    s.clients.lookup c = some x → x.downstream.declaredMiningJob = some job →
    .missing ∉ x.downstream.transactionsWithState ∧ (∀ k ∈ job.txIdsList.1, s.Idle k) ∧
      (x.downstream.verifyJob message = .ok true ∨
        ∀ k ∈ job.txIdsList.1, k ∉ message.txIdsList.1)
  -- The declared ids differ, and those that the mempool knows are nobody else's.
  declares : ∀ c message x, a = .run c → s.clients.lookup c = some x → x.task = .declare message →
    x.downstream.verifyJob message = .ok true → message.txIdsList.1.Nodup ∧
      ∀ k ∈ message.txIdsList.1, k ∈ s.mempool → (s.mempool.Thin k → s.Idle k) ∧
        ∀ c' x', c' ≠ c → s.clients.lookup c' = some x' → ¬x'.Involves k
  -- A reply that is taken provides what was declared and is missing, and what no other client has
  -- the server look up.
  supplies : ∀ c message x job txs, a = .receive c (.provideMissingTransactionsSuccess message) →
    s.clients.lookup c = some x → x.downstream.Completes R job message txs →
    ∀ p ∈ x.downstream.missingTxs.zip txs,
      job.txIdsList.1[p.1.toNat]? = some (R.computeTxid p.2) ∧
      x.downstream.transactionsWithState[p.1.toNat]? = some .missing ∧
      (s.mempool.Thin (R.computeTxid p.2) → s.looksUp (R.computeTxid p.2) = 0)
  -- A transaction is added when nobody lacks it any more, and its counter has room.
  adds     : ∀ tx, s.Adds tx a → (∀ c x, s.clients.lookup c = some x → ¬x.Lacks (R.computeTxid tx)) ∧
    ∀ tx' n, s.mempool.mempool.lookup (R.computeTxid tx) = some (some (tx', n)) →
      n.toNat + 1 < 2 ^ 32
  answers  : ∀ t answer txid inner, a = .rpcAdd t answer →
    s.addTasks.lookup t = some (.getRawTransaction txid inner) →
    ∃ tx, answer = .ok tx ∧ R.computeTxid tx = txid
  -- Where a solution cannot be completed, it is not for a transaction that waits to be added.
  collects : ∀ c x message state todo txs, a = .run c → s.clients.lookup c = some x →
    x.task = .collect message (state :: todo) txs → collectTx s.mempool state = none →
    x.downstream.declaredMiningJob.isSome ∧ ∀ k, x.marks k → s.mempool.Fat k
  -- A client with a transaction in its job stays.
  stays    : ∀ c x k s', s.clients.lookup c = some x → x.marks k → s.step cfg a = some s' →
    c ∈ s'.clients

section Load

variable {w : AddTxData Tx → ℕ} {t : ℕ} {add add' : AddTxData Tx} {m : JdsMempool R}
variable {inner : AddTrasactionsToMempoolInner Tx} {inners : List (AddTrasactionsToMempoolInner Tx)}

theorem load_queue : { s with addTxs := s.addTxs ++ [inner] }.load w = s.load w + w (.next inner) := by
  simp only [load, List.map_append, List.map_singleton, List.sum_append, List.sum_singleton]
  omega

theorem load_send : (Server.setSession { s with addTxs := s.addTxs ++ [inner] } c x').load w =
    s.load w + w (.next inner) :=
  load_queue

theorem load_task (m : JdsMempool R) (add' : AddTxData Tx) (w : AddTxData Tx → ℕ)
    (h : s.addTasks.lookup t = some add) :
    { s with mempool := m, addTasks := s.addTasks.insert t add' }.load w + w add =
      s.load w + w add' := by
  have := Map.total_insert s.addTasks (fun _ => w) t add'
  simp only [h, Option.elim_some] at this
  simp only [load]
  omega

theorem load_spawn (h : s.addTxs = inner :: inners) (ht : s.addTasks.lookup s.nextTask = none) :
    { s with
      addTxs   := inners
      addTasks := s.addTasks.insert s.nextTask (.next inner)
      nextTask := s.nextTask + 1 }.load w = s.load w := by
  have := Map.total_insert s.addTasks (fun _ => w) s.nextTask (.next inner)
  simp only [ht, Option.elim_none] at this
  simp only [load, h, List.map_cons, List.sum_cons]
  omega

end Load

end Server

-- The ids that the session keeps count of: those of its job that are present, and those that a
-- declaration which is being handled keeps from the job before.
def Session.holds (kept : List Txid) (x : Session Tx) (k : Txid) : Bool :=
  match x.task with
  | .declare _ => kept.contains k
  | _          => x.marks k

-- How the entry of a transaction goes with what is still to be provided, fetched and looked up, and
-- with the number of those who hold it.
def Balance (entry : Option (Option (Tx × UInt32))) (provides fetches looksUp holders : ℕ) : Prop :=
  match entry with
  | some (some (_, n)) => 0 < n.toNat ∧ n.toNat + provides + fetches = holders
  | some none          =>
    provides + fetches + looksUp = holders ∧ (looksUp = 0 ∨ looksUp = 1 ∧ provides + fetches = 0)
  | none               => provides + fetches = holders ∧ looksUp = 0

-- What holds of a session, besides what it holds.
structure Steady (m : JdsMempool R) (kept : List Txid) (x : Session Tx) : Prop where
  buffer    : x.downstream.addTxsToMempool = ⟨[], []⟩
  nodup     : ∀ job, x.downstream.declaredMiningJob = some job → job.txIdsList.1.Nodup
  declares  : ∀ message, x.task = .declare message → x.downstream.declaredMiningJob = none ∧
    ∀ k ∈ kept, k ∈ message.txIdsList.1 ∧ m.Fat k ∧ x.downstream.verifyJob message = .ok true
  retrieves : ∀ message add, x.task = .retrieve message add → (∃ result, add = .done result) ∨
    ∃ known, add = .next ⟨known, []⟩ ∧ ∀ k ∈ known, m.Fat k ∧ x.marks k
  lacks     : ∀ k, x.Lacks k → ¬m.Fat k

theorem Session.holds_of_ne {kept : List Txid} {x : Session Tx}
    (h : ∀ message, x.task ≠ .declare message) : x.holds kept k = x.marks k := by
  rw [Session.holds]
  split
  case h_1 he => exact absurd he (h _)
  case h_2    => rfl

-- The task of a session goes on, and is not one that handles a declaration.
theorem Steady.work {m : JdsMempool R} {kept : List Txid} {x : Session Tx} {t : Task Tx}
    (h : Steady m kept x) (ht : ∀ message, t ≠ .declare message)
    (hr : ∀ message add, t = .retrieve message add → (∃ result, add = .done result) ∨
      ∃ known, add = .next ⟨known, []⟩ ∧ ∀ k ∈ known, m.Fat k ∧ x.marks k) :
    Steady m kept { x with task := t } where
  buffer               := h.buffer
  nodup                := h.nodup
  declares message he  := absurd he (ht message)
  retrieves            := hr
  lacks                := h.lacks

theorem Steady.mono {m m' : JdsMempool R} {kept : List Txid} {x : Session Tx}
    (h : Steady m kept x) (hf : ∀ k, x.holds kept k → m.Fat k → m'.Fat k)
    (hl : ∀ k, x.Lacks k → m'.Fat k → m.Fat k) : Steady m' kept x where
  buffer := h.buffer
  nodup  := h.nodup
  declares message ht :=
    have ⟨hj, hk⟩ := h.declares message ht
    ⟨hj, fun k hm => ⟨(hk k hm).1, hf k (by simp [Session.holds, ht, hm]) (hk k hm).2.1, (hk k hm).2.2⟩⟩
  retrieves message add ht := by
    apply (h.retrieves message add ht).imp_right
    rintro ⟨known, ha, hk⟩
    exact ⟨known, ha, fun k hm =>
      ⟨hf k (by simp [Session.holds, ht, (hk k hm).2]) (hk k hm).1, (hk k hm).2⟩⟩
  lacks k hk hm := h.lacks k hk (hl k hk hm)

namespace Server

variable {s s' : Server R} {a : Action Tx} {x x' : Session Tx} {kept : ClientId → List Txid}

def holders (s : Server R) (kept : ClientId → List Txid) (k : Txid) : ℕ :=
  Map.total s.clients fun c x => (x.holds (kept c) k).toNat

structure Balanced (kept : ClientId → List Txid) (s : Server R) : Prop where
  tasks   : ∀ t ∈ s.addTasks, t < s.nextTask
  steady  : ∀ c x, s.clients.lookup c = some x → Steady s.mempool (kept c) x
  balance : ∀ k, Balance (s.mempool.mempool.lookup k) (s.provides k) (s.fetches k) (s.looksUp k)
    (s.holders kept k)

theorem holders_setSession (kept : ClientId → List Txid) (k : Txid) (x' : Session Tx)
    (hx : s.clients.lookup c = some x) :
    (s.setSession c x').holders kept k + (x.holds (kept c) k).toNat =
      s.holders kept k + (x'.holds (kept c) k).toNat := by
  have := Map.total_insert s.clients (fun c x => (x.holds (kept c) k).toNat) c x'
  simp only [hx, Option.elim_some] at this
  exact this

theorem holders_endSession (kept : ClientId → List Txid) (k : Txid)
    (hx : s.clients.lookup c = some x) :
    (s.endSession c).holders kept k + (x.holds (kept c) k).toNat = s.holders kept k := by
  have := Map.total_erase s.clients (fun c x => (x.holds (kept c) k).toNat) c
  simp only [hx, Option.elim_some] at this
  exact this

namespace Balanced

theorem setSession (h : s.Balanced kept) (hx : s.clients.lookup c = some x)
    (hs : Steady s.mempool (kept c) x') (hh : ∀ k, x'.holds (kept c) k = x.holds (kept c) k) :
    (s.setSession c x').Balanced kept where
  tasks := h.tasks
  steady c' y hy := by
    by_cases hc : c' = c
    case neg => exact h.steady c' y <| setSession_lookup_ne hc ▸ hy
    case pos =>
      subst hc
      cases setSession_lookup.symm.trans hy
      exact hs
  balance k := by
    have := holders_setSession kept k x' hx
    rw [hh k, Nat.add_right_cancel_iff] at this
    exact this ▸ h.balance k

theorem endSession (h : s.Balanced kept) (hx : s.clients.lookup c = some x)
    (hh : ∀ k, x.holds (kept c) k = false) : (s.endSession c).Balanced kept where
  tasks := h.tasks
  steady c' y hy := by
    rw [Server.endSession, Map.lookup_erase_ite] at hy
    split at hy
    case isTrue  => cases hy
    case isFalse => exact h.steady c' y hy
  balance k := by
    have := holders_endSession kept k hx
    rw [hh k, Bool.toNat_false, Nat.add_zero] at this
    exact this ▸ h.balance k

section Additions

variable {t : ℕ} {txid : Txid} {txids : List Txid} {tx : Tx} {txs : List Tx}
variable {add add' : AddTxData Tx} {inner : AddTrasactionsToMempoolInner Tx}

theorem tasks_insert (h : s.Balanced kept) (ht : s.addTasks.lookup t = some add) :
    ∀ t' ∈ s.addTasks.insert t add', t' < s.nextTask := by
  intro t' ht'
  cases (AList.mem_insert _).mp ht'
  case inl he => exact he ▸ h.tasks t (Map.mem_iff_lookup.mpr ⟨add, ht⟩)
  case inr hm => exact h.tasks t' hm

-- The addition goes on without a change of the mempool.
theorem next (h : s.Balanced kept) (ht : s.addTasks.lookup t = some add)
    (hp : ∀ k, add'.provides R k = add.provides R k)
    (hk : ∀ k, (add'.fetches k = add.fetches k ∧ add'.looksUp k = add.looksUp k) ∨
      (s.mempool.Thin k ∧ add'.fetches k = add.fetches k + 1 ∧ add.looksUp k = add'.looksUp k + 1) ∨
      ¬s.mempool.Thin k ∧ add'.fetches k = add.fetches k ∧ add.looksUp k = add'.looksUp k + 1) :
    { s with addTasks := s.addTasks.insert t add' }.Balanced kept where
  tasks   := h.tasks_insert ht
  steady  := h.steady
  balance k := by
    have hb := h.balance k
    have h₁ := load_task s.mempool add' (·.provides R k) ht
    have h₂ := load_task s.mempool add' (·.fetches k) ht
    have h₃ := load_task s.mempool add' (·.looksUp k) ht
    have hp := hp k
    have hk := hk k
    change Balance _ _ _ _ (s.holders kept k)
    simp only [provides, fetches, looksUp, JdsMempool.Thin] at hb hk ⊢
    cases hm : s.mempool.mempool.lookup k with
    | none =>
      simp only [hm, Balance, reduceCtorEq, false_and, false_or, not_false_eq_true, true_and]
        at hb hk ⊢
      omega
    | some entry =>
      cases entry with
      | none =>
        simp only [hm, Balance, true_and, not_true_eq_false, false_and, or_false] at hb hk ⊢
        omega
      | some entry =>
        simp only [hm, Balance, Option.some_inj, reduceCtorEq, false_and, false_or,
          not_false_eq_true, true_and] at hb hk ⊢
        omega

-- The addition puts a transaction into the mempool, which it has provided or fetched.
theorem addTx (h : s.Balanced kept) (ht : s.addTasks.lookup t = some add)
    (hp : ∀ k, add'.looksUp k = add.looksUp k ∧ add.provides R k + add.fetches k =
      add'.provides R k + add'.fetches k + if R.computeTxid tx = k then 1 else 0)
    (hn : ∀ c x, s.clients.lookup c = some x → ¬x.Lacks (R.computeTxid tx))
    (hc : ∀ tx' n, s.mempool.mempool.lookup (R.computeTxid tx) = some (some (tx', n)) →
      n.toNat + 1 < 2 ^ 32) :
    { s with mempool := s.mempool.addTx tx, addTasks := s.addTasks.insert t add' }.Balanced kept where
  tasks   := h.tasks_insert ht
  steady c x hx := by
    apply (h.steady c x hx).mono
    · exact fun k _ hf => (s.mempool.addTx_grows tx).fat hf
    · intro k hk hf
      by_cases he : k = R.computeTxid tx
      case pos => exact absurd (he ▸ hk) (hn c x hx)
      case neg => simpa only [JdsMempool.Fat, JdsMempool.addTx_lookup_ne he] using hf
  balance k := by
    have hb := h.balance k
    have h₁ := load_task (s.mempool.addTx tx) add' (·.provides R k) ht
    have h₂ := load_task (s.mempool.addTx tx) add' (·.fetches k) ht
    have h₃ := load_task (s.mempool.addTx tx) add' (·.looksUp k) ht
    have hp := hp k
    change Balance ((s.mempool.addTx tx).mempool.lookup k) _ _ _ (s.holders kept k)
    simp only [provides, fetches, looksUp] at hb ⊢
    by_cases he : k = R.computeTxid tx
    case neg =>
      rw [if_neg (Ne.symm he)] at hp
      rw [JdsMempool.addTx_lookup_ne he]
      cases hm : s.mempool.mempool.lookup k with
      | none =>
        simp only [hm, Balance] at hb ⊢
        omega
      | some entry =>
        cases entry <;> simp only [hm, Balance] at hb ⊢ <;> omega
    case pos =>
      subst he
      rw [if_pos rfl] at hp
      have hl : (s.mempool.addTx tx).mempool.lookup (R.computeTxid tx) =
          some (JdsMempool.fill tx (s.mempool.mempool.lookup (R.computeTxid tx))) :=
        Map.lookup_upsert
      rw [hl]
      cases hm : s.mempool.mempool.lookup (R.computeTxid tx) with
      | none =>
        simp only [hm, Balance, JdsMempool.fill, UInt32.toNat_one] at hb ⊢
        omega
      | some entry =>
        cases entry with
        | none =>
          simp only [hm, Balance, JdsMempool.fill, UInt32.toNat_one] at hb ⊢
          omega
        | some entry =>
          have hr := hc entry.1 entry.2 hm
          have hs : (entry.2 + 1).toNat = entry.2.toNat + 1 := by
            rw [UInt32.toNat_add, UInt32.toNat_one]
            omega
          simp only [hm, Balance, JdsMempool.fill, hs] at hb ⊢
          omega

end Additions

section Declare

variable {message : DeclareMiningJob} {job : DeclareMiningJob} {l : List Txid}

-- What a declaration keeps of the job that it replaces.
def keeps (x : Session Tx) (message : DeclareMiningJob) : List Txid :=
  x.downstream.declaredMiningJob.elim [] (·.txIdsList.1.filter message.txIdsList.1.contains)

theorem holders_update (kept : ClientId → List Txid) (k : Txid) (l : List Txid)
    (x' : Session Tx) (hx : s.clients.lookup c = some x) :
    (s.setSession c x').holders (Function.update kept c l) k + (x.holds (kept c) k).toNat =
      s.holders kept k + (x'.holds l k).toNat := by
  let f (c' : ClientId) (y : Session Tx) : ℕ := (y.holds (Function.update kept c l c') k).toNat
  let g (c' : ClientId) (y : Session Tx) : ℕ := (y.holds (kept c') k).toNat
  have hf (y : Session Tx) : f c y = (y.holds l k).toNat := by
    simp only [f, Function.update_self]
  have h₁ : Map.total (s.clients.insert c x') f + _ = _ := Map.total_insert s.clients f c x'
  have h₂ := Map.total_erase s.clients f c
  have h₃ := Map.total_erase s.clients g c
  have h₄ : Map.total (s.clients.erase c) f = Map.total (s.clients.erase c) g := by
    apply Map.total_congr
    intro c' y hy
    rw [Map.lookup_erase_ite] at hy
    split at hy
    case isTrue    => cases hy
    case isFalse hc => simp only [f, g, Function.update_of_ne hc]
  simp only [hx, Option.elim_some, hf] at h₁ h₂ h₃
  change Map.total (s.clients.insert c x') f + g c x = Map.total s.clients g + _
  omega

theorem marks_iff_mem (hj : x.downstream.declaredMiningJob = some job)
    (hs : x.downstream.transactionsWithState = job.txIdsList.1.map .presentInMempool) :
    x.marks k = decide (k ∈ job.txIdsList.1) := by
  simp [Session.marks, hj, hs]

-- Everything that an idle transaction is held by is in its counter.
theorem lookup_of_idle (h : s.Balanced kept) (hi : s.Idle k) (hh : 0 < s.holders kept k) :
    ∃ tx n, s.mempool.mempool.lookup k = some (some (tx, n)) ∧ n.toNat = s.holders kept k := by
  have hb := h.balance k
  have ⟨hp, hl, hf⟩ := hi
  cases hm : s.mempool.mempool.lookup k with
  | none =>
    simp only [hm, Balance] at hb
    omega
  | some entry =>
    cases entry with
    | none =>
      simp only [hm, Balance] at hb
      omega
    | some entry =>
      simp only [hm, Balance] at hb
      exact ⟨entry.1, entry.2, rfl, by omega⟩

theorem holders_pos (hx : s.clients.lookup c = some x) (hh : x.holds (kept c) k) :
    0 < s.holders kept k := by
  have := Map.le_total (f := fun c x => (x.holds (kept c) k).toNat) hx
  simp only [hh, Bool.toNat_true] at this
  exact this

theorem two_le_holders (hx : s.clients.lookup c = some x) (hx' : s.clients.lookup c' = some x')
    (hc : c ≠ c') (hh : x.holds (kept c) k) (hh' : x'.holds (kept c') k) :
    2 ≤ s.holders kept k := by
  have := Map.add_le_total (f := fun c x => (x.holds (kept c) k).toNat) hc hx hx'
  simp only [hh, hh', Bool.toNat_true] at this
  exact this

theorem fat_of_clearTxids {m : JdsMempool R} {txids : List Txid} (h : (m.clearTxids txids).Fat k) :
    m.Fat k := by
  have ⟨tx, n, hl⟩ := h
  rw [JdsMempool.clearTxids_lookup] at hl
  cases hm : m.mempool.lookup k with
  | none => simp [hm, JdsMempool.release_iterate_none] at hl
  | some entry =>
    cases entry with
    | none   => simp [hm, JdsMempool.release_iterate_thin] at hl
    | some e => exact ⟨e.1, e.2, hm⟩

-- The client gives up the ids of its job that it does not declare anew: each of them is counted for
-- it once, and goes away with the last of those who hold it.
theorem clear (h : s.Balanced kept) (hx : s.clients.lookup c = some x) (ht : x.task = .recv)
    (hj : x.downstream.declaredMiningJob = some job)
    (hs : x.downstream.transactionsWithState = job.txIdsList.1.map .presentInMempool)
    (hi : ∀ k ∈ job.txIdsList.1, s.Idle k)
    (hv : x.downstream.verifyJob message = .ok true ∨
      ∀ k ∈ job.txIdsList.1, k ∉ message.txIdsList.1) :
    ({ s with mempool := s.mempool.clearTxids (job.txIdsList.1.filter (· ∉ message.txIdsList.1)) }.setSession
      c { x with
        downstream := { x.downstream with declaredMiningJob := none }
        task       := .declare message }).Balanced (Function.update kept c (keeps x message)) := by
  have hn := (h.steady c x hx).nodup job hj
  have hh (k) : x.holds (kept c) k = decide (k ∈ job.txIdsList.1) := by
    simp only [Session.holds, ht]
    exact marks_iff_mem hj hs
  have hk (k) : k ∈ keeps x message ↔ k ∈ job.txIdsList.1 ∧ k ∈ message.txIdsList.1 := by
    simp [keeps, hj]
  -- The entry of an id that is given up, and of any other.
  have drop (k) (hm : k ∈ job.txIdsList.1) (hd : k ∉ message.txIdsList.1) :
      ∃ tx n, s.mempool.mempool.lookup k = some (some (tx, n)) ∧ n.toNat = s.holders kept k ∧
        (s.mempool.clearTxids (job.txIdsList.1.filter (· ∉ message.txIdsList.1))).mempool.lookup k =
          if n > 1 then some (some (tx, n - 1)) else none := by
    obtain ⟨tx, n, hl, hn'⟩ := h.lookup_of_idle (hi k hm) (holders_pos hx (by simpa [hh] using hm))
    refine ⟨tx, n, hl, hn', ?_⟩
    have hc : (job.txIdsList.1.filter (· ∉ message.txIdsList.1)).count k = 1 :=
      List.count_eq_one_of_mem (hn.filter _) (by simpa using ⟨hm, hd⟩)
    rw [JdsMempool.clearTxids_lookup, hc, hl]
    rfl
  have stay (k) (hd : ¬(k ∈ job.txIdsList.1 ∧ k ∉ message.txIdsList.1)) :
      (s.mempool.clearTxids (job.txIdsList.1.filter (· ∉ message.txIdsList.1))).mempool.lookup k =
        s.mempool.mempool.lookup k := by
    have hc : (job.txIdsList.1.filter (· ∉ message.txIdsList.1)).count k = 0 :=
      List.count_eq_zero.mpr (by simpa using hd)
    rw [JdsMempool.clearTxids_lookup, hc]
    rfl
  constructor
  case tasks => exact h.tasks
  case steady =>
    intro c' y hy
    by_cases hc : c' = c
    case neg =>
      rw [setSession_lookup_ne hc] at hy
      rw [Function.update_of_ne hc]
      apply (h.steady c' y hy).mono
      · intro k hk hf
        by_cases hd : k ∈ job.txIdsList.1 ∧ k ∉ message.txIdsList.1
        case neg =>
          simp only [JdsMempool.Fat, setSession_mempool, stay k hd]
          exact hf
        case pos =>
          -- The other client holds it as well, so it is counted twice.
          obtain ⟨tx, n, _, hn', hl⟩ := drop k hd.left hd.right
          have := two_le_holders hx hy (Ne.symm hc) (by simpa [hh] using hd.left) hk
          have hgt : n > 1 := by
            rw [gt_iff_lt, UInt32.lt_iff_toNat_lt, UInt32.toNat_one]
            omega
          exact ⟨tx, n - 1, by rw [setSession_mempool, hl, if_pos hgt]⟩
      · exact fun k _ hf => fat_of_clearTxids hf
    case pos =>
      subst hc
      cases setSession_lookup.symm.trans hy
      rw [Function.update_self]
      constructor
      case buffer => exact (h.steady c' x hx).buffer
      case nodup =>
        intro _ hj'
        cases hj'
      case retrieves =>
        intro _ _ ht'
        cases ht'
      case lacks =>
        rintro k ⟨_, _, hj', _⟩
        cases hj'
      case declares =>
        intro message' ht'
        cases ht'
        refine ⟨rfl, fun k hm => ?_⟩
        obtain ⟨hmj, hmm⟩ := (hk k).mp hm
        refine ⟨hmm, ?_, ?_⟩
        · obtain ⟨tx, n, hl, _⟩ :=
            h.lookup_of_idle (hi k hmj) (holders_pos hx (by simpa [hh] using hmj))
          exact ⟨tx, n, (stay k fun hd => hd.right hmm).trans hl⟩
        · exact hv.resolve_right fun hv => hv k hmj hmm
  case balance =>
    intro k
    have hu := holders_update kept k (keeps x message) { x with
      downstream := { x.downstream with declaredMiningJob := none }
      task       := .declare message } hx
    have hb := h.balance k
    have hh' : Session.holds (keeps x message) { x with
        downstream := { x.downstream with declaredMiningJob := none }
        task       := .declare message } k = decide (k ∈ keeps x message) :=
      List.contains_eq_mem _ _
    rw [hh k, hh'] at hu
    change Balance ((s.mempool.clearTxids _).mempool.lookup k) (s.provides k) (s.fetches k)
      (s.looksUp k) (Server.holders (s.setSession c _) _ k)
    by_cases hd : k ∈ job.txIdsList.1 ∧ k ∉ message.txIdsList.1
    case neg =>
      have he : (k ∈ keeps x message) ↔ k ∈ job.txIdsList.1 := by
        rw [hk]
        tauto
      simp only [he] at hu
      rw [stay k hd, Nat.add_right_cancel hu]
      exact hb
    case pos =>
      obtain ⟨tx, n, hl, hn', hl'⟩ := drop k hd.left hd.right
      obtain ⟨hp, hlu, hf⟩ := hi k hd.left
      simp only [hd.left, hk, hd.right, and_false, decide_true, decide_false, Bool.toNat_true,
        Bool.toNat_false] at hu
      rw [hl']
      simp only [hl, Balance] at hb
      split
      case isTrue hgt =>
        have hs' : (n - 1).toNat = n.toNat - 1 :=
          UInt32.toNat_sub_of_le _ _ <| UInt32.le_of_lt hgt
        have : 1 < n.toNat := UInt32.lt_iff_toNat_lt.mp hgt
        simp only [Balance, hs']
        omega
      case isFalse hle =>
        have : ¬1 < n.toNat := fun h => hle <| UInt32.lt_iff_toNat_lt.mpr h
        simp only [Balance]
        omega

theorem involves_of_holds (h : s.Balanced kept) (ha : s.Sessions Agreeing)
    (hx : s.clients.lookup c = some x) (hh : x.holds (kept c) k) : x.Involves k := by
  have hm (hh : x.marks k) : x.Involves k := by
    simp only [Session.marks, Bool.and_eq_true, decide_eq_true_eq, Option.isSome_iff_exists] at hh
    have ⟨⟨job, hj⟩, hk⟩ := hh
    have ⟨i, hi⟩ := List.mem_iff_getElem?.mp hk
    have := List.mem_of_getElem? <| ha c x hx job hj i k hi
    exact .inl (by simpa [Session.references, hj] using this)
  cases ht : x.task with
  | declare message =>
    simp only [Session.holds, ht, List.contains_eq_mem, decide_eq_true_eq] at hh
    exact .inr ⟨message, ht, ((h.steady c x hx).declares message ht).right k hh |>.left⟩
  | _ =>
    simp only [Session.holds, ht] at hh
    exact hm hh

-- The declared transactions that the mempool knows are looked up; those that are thin there will be
-- fetched, and nobody else has them fetched or counted.
theorem declare (h : s.Balanced kept) (ha : s.Sessions Agreeing) (hx : s.clients.lookup c = some x)
    (ht : x.task = .declare message) (hn : message.txIdsList.1.Nodup)
    (hk : ∀ k ∈ message.txIdsList.1, k ∈ s.mempool → (s.mempool.Thin k → s.Idle k) ∧
      ∀ c' x', c' ≠ c → s.clients.lookup c' = some x' → ¬x'.Involves k)
    (hx' : x'.task = .recv) (hb : x'.downstream.addTxsToMempool = ⟨[], []⟩)
    (hj : x'.downstream.declaredMiningJob = some message)
    (hs : x'.downstream.transactionsWithState =
      JobDeclaratorDownstream.transactionStates s.mempool message.txIdsList.1) :
    (Server.setSession { s with
      addTxs := s.addTxs ++ [⟨message.txIdsList.1.filter (· ∈ s.mempool.mempool), []⟩] }
        c x').Balanced kept := by
  have hm (k) : x'.marks k = decide (k ∈ message.txIdsList.1 ∧ k ∈ s.mempool.mempool) := by
    simp only [Session.marks, hj, Option.isSome_some, Bool.true_and, hs,
      JobDeclaratorDownstream.transactionStates, decide_eq_decide, List.mem_map]
    constructor
    · rintro ⟨txid, hm, he⟩
      split at he <;> cases he
      exact ⟨hm, ‹_›⟩
    · rintro ⟨hm, hk⟩
      exact ⟨k, hm, if_pos hk⟩
  have hkept (k) (hk : k ∈ kept c) : k ∈ message.txIdsList.1 ∧ k ∈ s.mempool.mempool := by
    obtain ⟨h₁, h₂, _⟩ := ((h.steady c x hx).declares message ht).right k hk
    exact ⟨h₁, h₂.mem⟩
  constructor
  case tasks => exact h.tasks
  case steady =>
    intro c' y hy
    by_cases hc : c' = c
    case neg => exact h.steady c' y (setSession_lookup_ne hc ▸ hy)
    case pos =>
      subst hc
      cases setSession_lookup.symm.trans hy
      constructor
      case buffer => exact hb
      case nodup =>
        intro _ hj'
        cases hj.symm.trans hj'
        exact hn
      case declares =>
        intro _ ht'
        cases hx'.symm.trans ht'
      case retrieves =>
        intro _ _ ht'
        cases hx'.symm.trans ht'
      case lacks =>
        rintro k ⟨job, i, hj', hi, hl⟩ hf
        cases hj.symm.trans hj'
        rw [hs] at hl
        obtain ⟨txid, ht, he⟩ := JobDeclaratorDownstream.transactionStates_getElem? hl
        cases hi.symm.trans ht
        have hk : k ∈ s.mempool.mempool := hf.mem
        rw [if_pos hk] at he
        cases he
  case balance =>
    intro k
    have hu := holders_setSession kept k x' hx
    have hh : x.holds (kept c) k = decide (k ∈ kept c) := by
      simp only [Session.holds, ht, List.contains_eq_mem]
    have hh' : x'.holds (kept c) k = x'.marks k := by simp only [Session.holds, hx']
    rw [hh, hh', hm] at hu
    have hb := h.balance k
    change Balance (s.mempool.mempool.lookup k) _ _ _ (Server.holders (s.setSession c x') kept k)
    rw [provides, fetches, looksUp, load_send, load_send, load_send]
    simp only [AddTxData.provides_next, AddTxData.looksUp_next, AddTxData.fetches_next,
      List.countP_nil, Nat.add_zero]
    simp only [provides, fetches, looksUp] at hb
    by_cases hd : k ∈ message.txIdsList.1 ∧ k ∈ s.mempool.mempool
    case neg =>
      have hc : (message.txIdsList.1.filter (· ∈ s.mempool.mempool)).count k = 0 :=
        List.count_eq_zero.mpr (by simpa using hd)
      have hk' : k ∉ kept c := fun hk' => hd (hkept k hk')
      simp only [hd, hk', decide_false, Bool.toNat_false, Nat.add_zero] at hu
      rw [hc, hu]
      exact hb
    case pos =>
      have hc : (message.txIdsList.1.filter (· ∈ s.mempool.mempool)).count k = 1 :=
        List.count_eq_one_of_mem (hn.filter _) (by simpa using hd)
      obtain ⟨hthin, hothers⟩ := hk k hd.left hd.right
      -- Only this client can hold the transaction, if it has kept it.
      have hown : s.holders kept k = (decide (k ∈ kept c)).toNat := by
        rw [← hh]
        apply Map.total_of_forall_ne hx
        intro c' y hc' hy
        rw [Bool.toNat_eq_zero, Bool.eq_false_iff]
        exact fun hh => hothers c' y hc' hy (h.involves_of_holds ha hy hh)
      simp only [hd, and_self, decide_true, Bool.toNat_true] at hu
      rw [hc]
      rcases JdsMempool.mem_iff_thin_or_fat.mp hd.right with hf | ⟨tx, n, hf⟩
      · obtain ⟨hp, hlu, hfe⟩ := hthin hf
        simp only [JdsMempool.Thin] at hf
        simp only [provides, looksUp, fetches] at hp hlu hfe
        simp only [hf, Balance] at hb ⊢
        omega
      · simp only [hf, Balance] at hb ⊢
        have : (decide (k ∈ kept c)).toNat ≤ 1 := Bool.toNat_le _
        omega

theorem nodup_getElem? {ids : List Txid} (hn : ids.Nodup) {i j : ℕ} (hi : ids[i]? = some k)
    (hj : ids[j]? = some k) : i = j := by
  have ⟨hi, he⟩ := List.getElem?_eq_some_iff.mp hi
  have ⟨hj, he'⟩ := List.getElem?_eq_some_iff.mp hj
  exact (List.Nodup.getElem_inj_iff hn).mp (he.trans he'.symm)

-- The transactions of a reply are those that the client lacks: each is provided once, and held from
-- now on.
theorem supply {d : JobDeclaratorDownstream Tx} {txs : List Tx} (h : s.Balanced kept)
    (ha : s.Sessions Agreeing) (hd : x.downstream = d) (htr : d.Tracks job)
    (hx : s.clients.lookup c = some x) (ht : x.task = .recv)
    (hj : d.declaredMiningJob = some job) (hl : txs.length ≤ d.missingTxs.length)
    (hp : ∀ p ∈ d.missingTxs.zip txs, job.txIdsList.1[p.1.toNat]? = some (R.computeTxid p.2) ∧
      d.transactionsWithState[p.1.toNat]? = some .missing ∧
      (s.mempool.Thin (R.computeTxid p.2) → s.looksUp (R.computeTxid p.2) = 0))
    (hx' : x'.task = .recv) (hb : x'.downstream.addTxsToMempool = ⟨[], []⟩)
    (hj' : x'.downstream.declaredMiningJob = some job)
    (hs : x'.downstream.transactionsWithState =
      (JobDeclaratorDownstream.supplied R d txs).transactionsWithState) :
    (Server.setSession { s with addTxs := s.addTxs ++ [⟨[], txs⟩] } c x').Balanced kept := by
  subst hd
  have hn := (h.steady c x hx).nodup job hj
  have hagree := ha c x hx job hj
  -- What the session has present now, it had present before, or it was provided.
  have hmarks (k) : x'.marks k ↔ x.marks k ∨ ∃ p ∈ x.downstream.missingTxs.zip txs,
      R.computeTxid p.2 = k := by
    simp only [Session.marks, hj, hj', Option.isSome_some, Bool.true_and, hs, decide_eq_true_eq,
      List.mem_iff_getElem? (a := TransactionState.presentInMempool k)]
    constructor
    · rintro ⟨i, hi⟩
      rcases htr.supplied_cases hi with ⟨p, hm, _, he⟩ | ⟨_, hi⟩
      · cases he
        exact .inr ⟨p, hm, rfl⟩
      · exact .inl ⟨i, hi⟩
    · rintro (⟨i, hi⟩ | ⟨p, hm, rfl⟩)
      · refine ⟨i, ?_⟩
        rw [JobDeclaratorDownstream.supplied_getElem?_ne, hi]
        intro hpos
        rw [List.map_take, ← JobDeclaratorDownstream.zip_map_fst, List.mem_map] at hpos
        have ⟨p, hm, he⟩ := hpos
        have := (hp p hm).2.1
        rw [he, hi] at this
        cases this
      · exact ⟨p.1.toNat, htr.supplied_getElem? hm⟩
  constructor
  case tasks => exact h.tasks
  case steady =>
    intro c' y hy
    by_cases hc : c' = c
    case neg => exact h.steady c' y (setSession_lookup_ne hc ▸ hy)
    case pos =>
      subst hc
      cases setSession_lookup.symm.trans hy
      constructor
      case buffer => exact hb
      case nodup =>
        intro _ hj''
        cases hj'.symm.trans hj''
        exact hn
      case declares =>
        intro _ ht'
        cases hx'.symm.trans ht'
      case retrieves =>
        intro _ _ ht'
        cases hx'.symm.trans ht'
      case lacks =>
        rintro k ⟨job', i, hj'', hi, hl⟩
        cases hj'.symm.trans hj''
        rw [hs] at hl
        rcases htr.supplied_cases hl with ⟨p, _, _, he⟩ | ⟨_, hl⟩
        · cases he
        · exact (h.steady c' x hx).lacks k ⟨job, i, hj, hi, hl⟩
  case balance =>
    intro k
    have hu := holders_setSession kept k x' hx
    have hh : x.holds (kept c) k = x.marks k := by simp only [Session.holds, ht]
    have hh' : x'.holds (kept c) k = x'.marks k := by simp only [Session.holds, hx']
    rw [hh, hh'] at hu
    have hb := h.balance k
    change Balance (s.mempool.mempool.lookup k) _ _ _ (Server.holders (s.setSession c x') kept k)
    rw [provides, fetches, looksUp, load_send, load_send, load_send]
    simp only [AddTxData.provides_next, AddTxData.looksUp_next, AddTxData.fetches_next,
      List.count_nil, Nat.add_zero]
    simp only [provides, fetches, looksUp] at hb
    have hz : (x.downstream.missingTxs.zip txs).map Prod.snd = txs := List.map_snd_zip hl
    have hinj : ((x.downstream.missingTxs.zip txs).map fun p => R.computeTxid p.2).Nodup := by
      refine List.Nodup.map_on (fun p hm q hm' he => ?_) htr.pairs_nodup.of_map
      have := nodup_getElem? hn (hp p hm).1 (he ▸ (hp q hm').1)
      exact List.inj_on_of_nodup_map htr.pairs_nodup hm hm' this
    have hc : txs.countP (fun tx => R.computeTxid tx = k) =
        ((x.downstream.missingTxs.zip txs).map fun p => R.computeTxid p.2).count k := by
      conv_lhs => rw [← hz]
      simp [List.countP_map, List.count, Function.comp_def, beq_eq_decide]
    rw [hc]
    by_cases hk : ∃ p ∈ x.downstream.missingTxs.zip txs, R.computeTxid p.2 = k
    case neg =>
      have h₀ : ((x.downstream.missingTxs.zip txs).map fun p => R.computeTxid p.2).count k = 0 :=
        List.count_eq_zero.mpr (by simpa using hk)
      have hm : x'.marks k = x.marks k := by
        rw [Bool.eq_iff_iff, hmarks k]
        exact or_iff_left hk
      rw [hm, Nat.add_right_cancel_iff] at hu
      rw [h₀, hu]
      exact hb
    case pos =>
      have h₁ : ((x.downstream.missingTxs.zip txs).map fun p => R.computeTxid p.2).count k = 1 :=
        List.count_eq_one_of_mem hinj (by simpa using hk)
      have hm' : x'.marks k := (hmarks k).mpr (.inr hk)
      obtain ⟨p, hm, rfl⟩ := hk
      have ⟨hi, hmiss, hthin⟩ := hp p hm
      have hm : x.marks (R.computeTxid p.2) = false := by
        rw [Bool.eq_false_iff]
        intro hmk
        simp only [Session.marks, hj, Option.isSome_some, Bool.true_and, decide_eq_true_eq] at hmk
        have ⟨i, hi'⟩ := List.mem_iff_getElem?.mp hmk
        have := nodup_getElem? hn hi (hagree i _ hi')
        rw [← this, hmiss] at hi'
        cases hi'
      have hfat := (h.steady c x hx).lacks (R.computeTxid p.2) ⟨job, _, hj, hi, hmiss⟩
      rw [hm, hm', Bool.toNat_true, Bool.toNat_false] at hu
      rw [h₁]
      simp only [looksUp] at hthin
      cases he : s.mempool.mempool.lookup (R.computeTxid p.2) with
      | none =>
        simp only [he, Balance] at hb ⊢
        omega
      | some entry =>
        cases entry with
        | none =>
          have := hthin he
          simp only [he, Balance] at hb ⊢
          omega
        | some e => exact absurd ⟨e.1, e.2, he⟩ hfat

end Declare

section Work

variable {t : Task Tx} {message : PushSolution} {retrieved : Bool}

theorem work (h : s.Balanced kept) (hx : s.clients.lookup c = some x)
    (hd : ∀ message, x.task ≠ .declare message) (ht : ∀ message, t ≠ .declare message)
    (hr : ∀ message add, t = .retrieve message add → (∃ result, add = .done result) ∨
      ∃ known, add = .next ⟨known, []⟩ ∧ ∀ k ∈ known, s.mempool.Fat k ∧ x.marks k) :
    (s.setSession c { x with task := t }).Balanced kept := by
  apply h.setSession hx ((h.steady c x hx).work ht hr)
  intro k
  rw [Session.holds_of_ne hd]
  exact Session.holds_of_ne ht

theorem away (h : s.Balanced kept) (hx : s.clients.lookup c = some x)
    (hd : ∀ message, x.task ≠ .declare message) (ht : ∀ message, t ≠ .declare message)
    (hr : ∀ message add, t ≠ .retrieve message add) :
    (s.setSession c { x with task := t }).Balanced kept :=
  h.work hx hd ht fun message add he => absurd he (hr message add)

theorem to_recv (h : s.Balanced kept) (hx : s.clients.lookup c = some x)
    (hd : ∀ message, x.task ≠ .declare message) :
    (s.setSession c { x with task := .recv }).Balanced kept :=
  h.away hx hd (by simp) (by simp)

-- A session that marks nothing can end.
theorem ends (h : s.Balanced kept) (hx : s.clients.lookup c = some x)
    (hd : ∀ message, x.task ≠ .declare message) (hm : ∀ k, ¬x.marks k) :
    (s.endSession c).Balanced kept := by
  apply h.endSession hx
  intro k
  rw [Session.holds_of_ne hd]
  exact Bool.eq_false_iff.mpr (hm k)

theorem getBlockHex (h : s.Balanced kept) (hx : s.clients.lookup c = some x)
    (hd : ∀ message, x.task ≠ .declare message) :
    (s.getBlockHex c x message retrieved).Balanced kept := by
  rw [Server.getBlockHex]
  split
  case h_1 => exact h.away hx hd (by simp) (by simp)
  case h_2 hj =>
    split
    case isTrue => exact h.to_recv hx hd
    case isFalse =>
      apply h.ends hx hd
      intro k hm
      simp [Session.marks, hj] at hm

theorem marks_of_mem_transactionsInJob (hj : x.downstream.declaredMiningJob.isSome)
    (hk : k ∈ x.downstream.getTransactionsInJob) : x.marks k := by
  have ⟨state, hm, he⟩ := List.mem_filterMap.mp hk
  split at he <;> cases he
  simp [Session.marks, hj, hm]

theorem stays_of_endSession {s₀ : Server R} (hs : ∀ k, x.marks k → c ∈ (s₀.endSession c).clients)
    (k : Txid) : ¬x.marks k := by
  intro hm
  have := hs k hm
  simp [Server.endSession, AList.mem_erase] at this

-- The task of a client that works on a solution looks up only what is in the mempool.
theorem run (h : s.Balanced kept) (hst : s.Started) (hx : s.clients.lookup c = some x)
    (hd : ∀ message, x.task ≠ .declare message)
    (hc : ∀ message state todo txs, x.task = .collect message (state :: todo) txs →
      collectTx s.mempool state = none → x.downstream.declaredMiningJob.isSome ∧
        ∀ k, x.marks k → s.mempool.Fat k)
    (hs : ∀ k, x.marks k → c ∈ s'.clients) (hr : s.runSession c x = some s') :
    s'.Balanced kept := by
  rw [runSession] at hr
  split at hr
  case h_1 => cases hr
  case h_2 ht => exact absurd ht (hd _)
  case h_3 =>
    cases hr
    exact h.getBlockHex hx hd
  case h_4 message state todo txs ht =>
    split at hr
    case h_1 tx _ =>
      cases hr
      exact h.away hx hd (by simp) (by simp)
    case h_2 hn =>
      cases hr
      apply h.work hx hd
      · intro _ he
        cases he
      · intro _ _ he
        obtain ⟨hj, hf⟩ := hc message state todo txs ht hn
        cases he
        rw [AddTxData.start, if_pos hst.client]
        refine .inr ⟨_, rfl, fun k hk => ?_⟩
        have hm := marks_of_mem_transactionsInJob hj hk
        exact ⟨hf k hm, hm⟩
  case h_5 =>
    split at hr
    case h_1 =>
      cases hr
      exact h.away hx hd (by simp) (by simp)
    case h_2 =>
      cases hr
      exact h.ends hx hd (stays_of_endSession hs)
  case h_6 =>
    split at hr
    case h_1 =>
      cases hr
      exact h.away hx hd (by simp) (by simp)
    case h_2 =>
      split at hr
      case isTrue =>
        cases hr
        exact h.away hx hd (by simp) (by simp)
      case isFalse =>
        cases hr
        exact h.ends hx hd (stays_of_endSession hs)
  case h_7 =>
    cases hr
    exact h.getBlockHex hx hd
  case h_8 message add hn ht =>
    obtain ⟨⟨m, add'⟩, ha, he⟩ := Option.map_eq_some_iff.mp hr
    cases he
    rcases (h.steady c x hx).retrieves message add ht with ⟨result, hdone⟩ | ⟨known, hnext, hk⟩
    · exact absurd hdone (hn result)
    · subst hnext
      cases known with
      | nil =>
        cases ha
        apply h.work hx hd
        · intro _ he
          cases he
        · intro _ _ he
          cases he
          exact .inl ⟨_, rfl⟩
      | cons k known =>
        obtain ⟨hf, hks⟩ := List.forall_mem_cons.mp hk
        obtain ⟨tx, n, hl⟩ := hf.1
        simp only [AddTxData.run, hl, Option.some_inj, Prod.mk.injEq] at ha
        obtain ⟨rfl, rfl⟩ := ha
        apply h.work hx hd
        · intro _ he
          cases he
        · intro _ _ he
          cases he
          exact .inr ⟨known, rfl, hks⟩
  case h_9 =>
    split at hr
    case isFalse => cases hr
    case isTrue =>
      cases hr
      exact to_recv (s := { s with newBlocks := _ }) ⟨h.tasks, h.steady, h.balance⟩ hx hd

end Work

section Steps

open JobDeclaratorDownstream

variable {d : JobDeclaratorDownstream Tx} {message : DeclareMiningJob} {m : JdsMempool R}
variable {reply : JobDeclaration}

def Requests (reply : JobDeclaration) : Prop :=
  (∃ r, reply = .declareMiningJobSuccess r) ∨ ∃ r, reply = .provideMissingTransactions r

theorem handleDeclareMiningJob_of_verified (hv : d.verifyJob message = .ok true) :
    ∃ reply, Requests reply ∧ d.handleDeclareMiningJob m message = .ok (.respond reply, { d with
      declaredMiningJob     := some message
      transactionsWithState := transactionStates m message.txIdsList.1
      missingTxs            := missingPositions m message.txIdsList.1
      addTxsToMempool       := { d.addTxsToMempool with
        knownTransactions := d.addTxsToMempool.knownTransactions ++
          message.txIdsList.1.filter (· ∈ m.mempool) } }) := by
  have hl : message.miningJobToken.1.length = 4 := by
    by_contra hn
    have : u32FromLeBytes message.miningJobToken.1 = none := by
      rw [u32FromLeBytes.eq_def]
      split
      case h_1 he => simp [he] at hn
      case h_2    => rfl
    simp [verifyJob, this] at hv
  obtain ⟨signed, hs⟩ :
      ∃ signed, signedToken R message.miningJobToken d.privateKey = .ok signed := by
    rw [signedToken, if_pos]
    · exact ⟨_, rfl⟩
    · rw [List.length_cons, hl]
      decide
  simp only [handleDeclareMiningJob, hv, hs, bind, Except.bind, if_true]
  split
  case isTrue  => exact ⟨_, .inl ⟨_, rfl⟩, rfl⟩
  case isFalse => exact ⟨_, .inr ⟨_, rfl⟩, rfl⟩

theorem deliver_sends (hr : Requests reply) :
    s.deliver c x (.ok (.respond reply, d)) =
      Server.setSession { s with addTxs := s.addTxs ++ [d.addTxsToMempool] } c {
        downstream := { d with addTxsToMempool := ⟨[], []⟩ }
        task       := .recv
        sent       := x.sent ++ [reply] } := by
  rcases hr with ⟨r, rfl⟩ | ⟨r, rfl⟩ <;> rfl

-- A declaration that has been handled.
theorem declared (h : s.Balanced kept) (ha : s.Sessions Agreeing) (hx : s.clients.lookup c = some x)
    (ht : x.task = .declare message)
    (hk : x.downstream.verifyJob message = .ok true → message.txIdsList.1.Nodup ∧
      ∀ k ∈ message.txIdsList.1, k ∈ s.mempool → (s.mempool.Thin k → s.Idle k) ∧
        ∀ c' x', c' ≠ c → s.clients.lookup c' = some x' → ¬x'.Involves k) :
    (s.deliver c x (x.downstream.handleDeclareMiningJob s.mempool message)).Balanced kept := by
  have hst := h.steady c x hx
  cases hv : x.downstream.verifyJob message with
  | error e =>
    have he : x.downstream.handleDeclareMiningJob s.mempool message = .error e := by
      simp only [handleDeclareMiningJob, hv]
      rfl
    rw [he]
    apply h.endSession hx
    intro k
    simp only [Session.holds, ht, List.contains_eq_mem, decide_eq_false_iff_not]
    intro hk
    have := ((hst.declares message ht).right k hk).right.right
    simp [hv] at this
  | ok verified =>
    cases verified with
    | false =>
      have he : x.downstream.handleDeclareMiningJob s.mempool message =
          .ok (.respond (.declareMiningJobError ⟨message.requestId, [], []⟩), x.downstream) := by
        simp only [handleDeclareMiningJob, hv]
        rfl
      have hj := (hst.declares message ht).left
      rw [he]
      apply h.setSession hx
      · exact {
          buffer    := hst.buffer
          nodup     := hst.nodup
          declares  := by simp
          retrieves := by simp
          lacks     := hst.lacks }
      · intro k
        have hk : k ∉ kept c := by
          intro hk
          have := ((hst.declares message ht).right k hk).right.right
          simp [hv] at this
        simp [Session.holds, ht, hk, Session.marks, hj]
    | true =>
      obtain ⟨hn, hk⟩ := hk hv
      obtain ⟨reply, hr, he⟩ := handleDeclareMiningJob_of_verified (m := s.mempool) hv
      rw [he, deliver_sends hr]
      simp only [hst.buffer, List.nil_append]
      exact h.declare ha hx ht hn hk rfl rfl rfl rfl

-- A declaration that has no job to replace.
theorem take (message : DeclareMiningJob) (h : s.Balanced kept)
    (hx : s.clients.lookup c = some x) (ht : x.task = .recv)
    (hj : x.downstream.declaredMiningJob = none) :
    (s.setSession c { x with task := .declare message }).Balanced (Function.update kept c []) := by
  have hst := h.steady c x hx
  constructor
  case tasks => exact h.tasks
  case steady =>
    intro c' y hy
    by_cases hc : c' = c
    case neg =>
      rw [Function.update_of_ne hc]
      exact h.steady c' y (setSession_lookup_ne hc ▸ hy)
    case pos =>
      subst hc
      cases setSession_lookup.symm.trans hy
      rw [Function.update_self]
      exact {
        buffer    := hst.buffer
        nodup     := hst.nodup
        declares  := fun _ _ => ⟨hj, by simp⟩
        retrieves := by simp
        lacks     := hst.lacks }
  case balance =>
    intro k
    have hu := holders_update kept k [] { x with task := .declare message } hx
    have hh : x.holds (kept c) k = false := by simp [Session.holds, ht, Session.marks, hj]
    have hh' : Session.holds [] { x with task := .declare message } k = false := by
      simp [Session.holds]
    rw [hh, hh', Nat.add_right_cancel_iff] at hu
    exact hu ▸ h.balance k

theorem receive {message : JobDeclaration} (h : s.Balanced kept) (hk : s.Sessions (Kept R))
    (ha : s.Sessions Agreeing) (hx : s.clients.lookup c = some x) (ht : x.task = .recv)
    (hs : s.step cfg (.receive c message) = some (s.receive c x message))
    (hp : s.Tidy cfg (.receive c message)) : ∃ kept, (s.receive c x message).Balanced kept := by
  have hd : ∀ message, x.task ≠ .declare message := by
    simp [ht]
  have hst := h.steady c x hx
  have stays : ∀ k, x.marks k → c ∈ (s.receive c x message).clients :=
    fun k hm => hp.stays c x k _ hx hm hs
  cases message with
  | allocateMiningJobToken m =>
    refine ⟨kept, h.setSession hx ?_ fun k => ?_⟩
    · exact {
        buffer    := hst.buffer
        nodup     := hst.nodup
        declares  := by simp
        retrieves := by simp
        lacks     := hst.lacks }
    · rw [Session.holds_of_ne hd]
      rfl
  | declareMiningJob m =>
    cases hj : x.downstream.declaredMiningJob with
    | none =>
      have ht := h.take m hx ht hj
      have he : x.downstream.takeDeclaredMiningJob s.mempool m = (s.mempool, x.downstream) := by
        rw [takeDeclaredMiningJob, hj]
      simp only [Server.receive, he]
      exact ⟨_, ht⟩
    | some job =>
      obtain ⟨hm, hi, hv⟩ := hp.replaces c m x job rfl hx hj
      have hst' := (ha c x hx job hj).states_eq ((hk c x hx).tracks job hj).length hm
      have hc := h.clear hx ht hj hst' hi hv
      have he : x.downstream.takeDeclaredMiningJob s.mempool m =
          (s.mempool.clearTxids (job.txIdsList.1.filter (· ∉ m.txIdsList.1)),
            { x.downstream with declaredMiningJob := none }) := by
        rw [takeDeclaredMiningJob, hj]
      simp only [Server.receive, he]
      exact ⟨_, hc⟩
  | provideMissingTransactionsSuccess m =>
    simp only [Server.receive] at stays ⊢
    cases hr : x.downstream.handleProvideMissingTransactionsSuccess R m with
    | error e =>
      rw [hr] at stays
      exact ⟨kept, h.ends hx hd (stays_of_endSession stays)⟩
    | ok r =>
      obtain ⟨reply, d⟩ := r
      cases handleProvideMissingTransactionsSuccess_complete hr
      case inr hn =>
        obtain ⟨rfl, rfl⟩ := hn
        exact ⟨kept, h.to_recv hx hd⟩
      case inl hn =>
        obtain ⟨reply, rfl, _⟩ := hn
        obtain ⟨job, txs, hj, hi, hde, hl, hm, ⟨r, hr⟩, he⟩ :=
          handleProvideMissingTransactionsSuccess_eq_ok hr
        have hc : x.downstream.Completes R job m txs :=
          ⟨hj, hi, hde, hl, fun _ => mem_provided_of_missing hm⟩
        rw [deliver_sends (.inl ⟨r, hr⟩), he]
        simp only [supplied, hst.buffer, List.nil_append]
        refine ⟨kept, h.supply ha rfl ((hk c x hx).tracks job hj) hx ht hj hl ?_ rfl rfl hj rfl⟩
        exact hp.supplies c m x job txs rfl hx hc
  | pushSolution m => exact ⟨kept, h.away hx hd (by simp) (by simp)⟩
  | _ => exact ⟨kept, h.ends hx hd (stays_of_endSession stays)⟩

theorem connect (h : s.Balanced kept) (hst : s.Started)
    (hs : s.step cfg (.connect : Action Tx) = some s') : s'.Balanced kept := by
  cases hs
  have hn : s.clients.lookup s.nextClient = none := by
    rw [AList.lookup_eq_none]
    exact fun hm => lt_irrefl _ (hst.issued _ hm)
  constructor
  case tasks => exact h.tasks
  case steady =>
    intro c x hx
    rw [Map.lookup_insert_ite] at hx
    split at hx
    case isFalse => exact h.steady c x hx
    case isTrue =>
      cases hx
      exact {
        buffer    := rfl
        nodup     := fun _ hj => by cases hj
        declares  := by simp
        retrieves := by simp
        lacks     := fun k ⟨_, _, hj, _⟩ => by cases hj }
  case balance =>
    intro k
    have ht := Map.total_insert s.clients (fun c x => (x.holds (kept c) k).toNat) s.nextClient
      ⟨.new cfg.coinbaseOutput cfg.privateKey, .recv, []⟩
    have hh : Session.holds (kept s.nextClient)
        (⟨.new cfg.coinbaseOutput cfg.privateKey, .recv, []⟩ : Session Tx) k = false := by
      simp [Session.holds, Session.marks, new]
    simp only [hn, hh, Option.elim_none, Bool.toNat_false, Nat.add_zero] at ht
    have hb := h.balance k
    rw [holders, ← ht] at hb
    exact hb

theorem spawnAdd (h : s.Balanced kept) (hst : s.Started)
    (hs : s.step cfg (.spawnAdd : Action Tx) = some s') : s'.Balanced kept := by
  rw [Server.step] at hs
  split at hs
  case h_1 => cases hs
  case h_2 inner inners hq =>
    have hn : s.addTasks.lookup s.nextTask = none := by
      rw [AList.lookup_eq_none]
      exact fun hm => lt_irrefl _ (h.tasks _ hm)
    simp only [AddTxData.start, if_pos hst.client, Option.some_inj] at hs
    subst hs
    constructor
    case tasks =>
      intro t ht
      cases (AList.mem_insert _).mp ht
      case inl he => exact he ▸ Nat.lt_succ_self _
      case inr hm => exact Nat.lt_succ_of_lt (h.tasks t hm)
    case steady => exact h.steady
    case balance =>
      intro k
      have hb := h.balance k
      simp only [provides, fetches, looksUp] at hb ⊢
      rw [load_spawn hq hn, load_spawn hq hn, load_spawn hq hn]
      exact hb

theorem runAdd {t : ℕ} (h : s.Balanced kept) (hp : s.Tidy cfg (.runAdd t))
    (hs : s.step cfg (.runAdd t : Action Tx) = some s') : s'.Balanced kept := by
  obtain ⟨add, hl, hs⟩ := Option.bind_eq_some_iff.mp hs
  obtain ⟨⟨m, add'⟩, hr, he⟩ := Option.map_eq_some_iff.mp hs
  cases he
  match add with
  | .next ⟨txid :: txids, transactions⟩ =>
    rw [AddTxData.run] at hr
    split at hr
    case h_1 hthin =>
      cases hr
      refine h.next hl ?_ ?_
      · exact fun _ => rfl
      intro k
      by_cases hk : k = txid
      case pos =>
        subst hk
        exact .inr <| .inl ⟨hthin, by simp [AddTxData.fetches], by
          simp [AddTxData.looksUp, AddTxData.inner]⟩
      case neg =>
        exact .inl ⟨by simp [AddTxData.fetches, Ne.symm hk], by
          simp [AddTxData.looksUp, AddTxData.inner, Ne.symm hk]⟩
    case h_2 | h_3 =>
      cases hr
      refine h.next hl ?_ ?_
      · exact fun _ => rfl
      intro k
      by_cases hk : k = txid
      case pos =>
        subst hk
        exact .inr <| .inr ⟨by simp_all [JdsMempool.Thin], rfl, by
          simp [AddTxData.looksUp, AddTxData.inner]⟩
      case neg =>
        exact .inl ⟨rfl, by simp [AddTxData.looksUp, AddTxData.inner, Ne.symm hk]⟩
  | .next ⟨[], tx :: transactions⟩ =>
    cases hr
    obtain ⟨hn, hc⟩ := hp.adds tx (.run hl)
    apply h.addTx hl _ hn hc
    intro k
    simp only [AddTxData.looksUp, AddTxData.provides, AddTxData.fetches, AddTxData.inner,
      List.countP_cons, decide_eq_true_eq, Nat.add_zero, true_and]
  | .next ⟨[], []⟩ =>
    cases hr
    refine h.next hl ?_ ?_
    · exact fun _ => rfl
    · exact fun _ => .inl ⟨rfl, rfl⟩
  | .getRawTransaction _ _ => cases hr
  | .done _                => cases hr

theorem rpcAdd {t : ℕ} {answer : Except String Tx} (h : s.Balanced kept)
    (hp : s.Tidy cfg (.rpcAdd t answer)) (hs : s.step cfg (.rpcAdd t answer) = some s') :
    s'.Balanced kept := by
  have ⟨add, hl, hs⟩ := Option.bind_eq_some_iff.mp hs
  have ⟨⟨m, add'⟩, hr, he⟩ := Option.map_eq_some_iff.mp hs
  cases he
  match add with
  | .next _                       => cases hr
  | .done _                       => cases hr
  | .getRawTransaction txid inner =>
    obtain ⟨tx, rfl, rfl⟩ := hp.answers t answer _ inner rfl hl
    cases hr
    have ⟨hn, hc⟩ := hp.adds tx (.rpc hl)
    apply h.addTx hl _ hn hc
    intro k
    simp [AddTxData.looksUp, AddTxData.provides, AddTxData.fetches, AddTxData.inner]

theorem updateMempool_lookup_absent (txids : List Txid) (hm : m.mempool.lookup k = none) :
    (m.updateMempool txids).mempool.lookup k = none ∨
      (m.updateMempool txids).mempool.lookup k = some none := by
  induction txids generalizing m with
  | nil => exact .inl hm
  | cons txid txids ih =>
    rw [JdsMempool.updateMempool]
    split
    case isTrue => exact ih hm
    case isFalse =>
      by_cases hk : k = txid
      case neg => exact ih ((AList.lookup_insert_ne hk).trans hm)
      case pos =>
        subst hk
        rw [JdsMempool.updateMempool_lookup ((AList.mem_insert _).mpr (.inl rfl))]
        exact .inr (AList.lookup_insert _)

theorem updateMempool {txids : List Txid} (h : s.Balanced kept) :
    { s with mempool := s.mempool.updateMempool txids }.Balanced kept where
  tasks := h.tasks
  steady c x hx := by
    apply (h.steady c x hx).mono
    · exact fun k _ hf => (s.mempool.updateMempool_grows txids).fat hf
    · rintro k _ ⟨tx, n, hf⟩
      cases hm : s.mempool.mempool.lookup k with
      | none =>
        rcases updateMempool_lookup_absent txids hm with hl | hl
        all_goals simp [hl] at hf
      | some entry =>
        rw [JdsMempool.updateMempool_lookup (Map.mem_iff_lookup.mpr ⟨entry, hm⟩)] at hf
        exact ⟨tx, n, hf⟩
  balance k := by
    have hb := h.balance k
    change Balance _ (s.provides k) (s.fetches k) (s.looksUp k) (s.holders kept k)
    cases hm : s.mempool.mempool.lookup k with
    | some entry =>
      rw [JdsMempool.updateMempool_lookup (Map.mem_iff_lookup.mpr ⟨entry, hm⟩)]
      exact hb
    | none =>
      rw [hm] at hb
      rcases updateMempool_lookup_absent txids hm with hl | hl
      all_goals
        rw [hl]
        simp only [Balance] at hb ⊢
        omega

-- A step that keeps to the conditions keeps the balance.
theorem step (h : s.Balanced kept) (hst : s.Started) (hk : s.Sessions (Kept R))
    (ha : s.Sessions Agreeing) (hp : s.Tidy cfg a) (hs : s.step cfg a = some s') :
    ∃ kept, s'.Balanced kept := by
  cases a with
  | connect => exact ⟨kept, h.connect hst hs⟩
  | spawnAdd => exact ⟨kept, h.spawnAdd hst hs⟩
  | runAdd t => exact ⟨kept, h.runAdd hp hs⟩
  | rpcAdd t answer => exact ⟨kept, h.rpcAdd hp hs⟩
  | updateMempool txids =>
    cases hs
    exact ⟨kept, h.updateMempool⟩
  | submitBlock =>
    rw [Server.step] at hs
    split at hs <;> cases hs
    exact ⟨kept, h.tasks, h.steady, h.balance⟩
  | receive c message =>
    obtain ⟨x, hx, hr⟩ := Option.bind_eq_some_iff.mp hs
    split at hr
    case h_2 => cases hr
    case h_1 ht =>
      cases hr
      exact h.receive hk ha hx ht hs hp
  | run c =>
    obtain ⟨x, hx, hr⟩ := Option.bind_eq_some_iff.mp hs
    by_cases hd : ∃ message, x.task = .declare message
    case pos =>
      obtain ⟨message, ht⟩ := hd
      simp only [runSession, ht, Option.some_inj] at hr
      subst hr
      exact ⟨kept, h.declared ha hx ht (hp.declares c message x rfl hx ht)⟩
    case neg =>
      refine ⟨kept, h.run hst hx (fun message ht => hd ⟨message, ht⟩) ?_ ?_ hr⟩
      · exact fun message state todo txs ht => hp.collects c x message state todo txs rfl hx ht
      · exact fun k hm => hp.stays c x k s' hx hm hs
  | rpc c answer =>
    obtain ⟨x, hx, hr⟩ := Option.bind_eq_some_iff.mp hs
    split at hr
    case h_2 => cases hr
    case h_1 message add ht =>
      obtain ⟨_, hr, _⟩ := Option.map_eq_some_iff.mp hr
      rcases (h.steady c x hx).retrieves message add ht with ⟨_, rfl⟩ | ⟨_, rfl, _⟩
      all_goals cases hr
  | sleep c =>
    obtain ⟨x, hx, hr⟩ := Option.bind_eq_some_iff.mp hs
    split at hr
    case h_2 => cases hr
    case h_1 ht =>
      cases hr
      exact ⟨kept, h.to_recv hx fun message he => by cases ht.symm.trans he⟩
  | disconnect c =>
    obtain ⟨x, hx, hr⟩ := Option.bind_eq_some_iff.mp hs
    split at hr
    case h_2 => cases hr
    case h_1 ht =>
      cases hr
      refine ⟨kept, h.ends hx (fun message he => by cases ht.symm.trans he) ?_⟩
      exact stays_of_endSession fun k hm => hp.stays c x k _ hx hm hs

end Steps

-- A transaction whose data have arrived is present in every job that names it.
theorem marks_eq_references (h : s.Balanced kept) (hk : s.Sessions (Kept R))
    (ha : s.Sessions Agreeing) (hx : s.clients.lookup c = some x) (hf : s.mempool.Fat k) :
    x.marks k = x.references k := by
  cases hj : x.downstream.declaredMiningJob with
  | none => simp [Session.marks, Session.references, hj]
  | some job =>
    rw [Bool.eq_iff_iff]
    simp only [Session.marks, Session.references, hj, Option.isSome_some, Bool.true_and,
      Option.any_some, List.contains_eq_mem, decide_eq_true_eq]
    constructor
    · intro hm
      have ⟨i, hi⟩ := List.mem_iff_getElem?.mp hm
      exact List.mem_of_getElem? (ha c x hx job hj i k hi)
    · intro hm
      have ⟨i, hi⟩ := List.mem_iff_getElem?.mp hm
      have hl := ((hk c x hx).tracks job hj).length
      cases hs : x.downstream.transactionsWithState[i]? with
      | none =>
        rw [List.getElem?_eq_none_iff, hl, ← List.getElem?_eq_none_iff, hi] at hs
        cases hs
      | some state =>
        cases state with
        | missing => exact absurd hf <| (h.steady c x hx).lacks k ⟨job, i, hj, hi, hs⟩
        | presentInMempool k' =>
          cases hi.symm.trans (ha c x hx job hj i k' hs)
          exact List.mem_of_getElem? hs

theorem load_of_settled (hs : s.Settled) {w : AddTxData Tx → ℕ}
    (hw : ∀ result, w (.done result) = 0) : s.load w = 0 := by
  have ht : Map.total s.addTasks (fun _ => w) = 0 := by
    rw [Map.total_congr (g := fun _ _ => 0)]
    · simp [Map.total]
    · intro t add hl
      obtain ⟨result, he⟩ := hs.tasks t add hl
      exact he ▸ hw result
  rw [load, hs.queue, ht]
  rfl

theorem counted (h : s.Balanced kept) (hk : s.Sessions (Kept R)) (ha : s.Sessions Agreeing)
    (hs : s.Settled) : s.Counted := by
  intro k tx n hl
  have hb := h.balance k
  have hh : s.holders kept k = s.references k := by
    apply Map.total_congr
    intro c x hx
    rw [Session.holds_of_ne (hs.clients c x hx).left, h.marks_eq_references hk ha hx ⟨tx, n, hl⟩]
  have hp : s.provides k = 0 := load_of_settled hs fun _ => rfl
  have hf : s.fetches k = 0 := load_of_settled hs fun _ => rfl
  simp only [hl, Balance, hp, hf, hh] at hb
  omega

theorem init (h : (machine R cfg).Init s) : s.Balanced fun _ => [] := by
  have ⟨hs, _⟩ := h
  subst hs
  constructor
  case tasks   => simp
  case steady  => simp
  case balance =>
    intro k
    simp [Balance, JdsMempool.new, provides, fetches, looksUp, load, holders]

end Balanced

end Server

open Machine Server

theorem Server.Tidy.honest {s : Server R} {a : Action Tx} (h : s.Tidy cfg a) : s.Honest a :=
  fun c message x job txs ha hx hc p hp => (h.supplies c message x job txs ha hx hc p hp).1

-- The run lemma: where every step keeps to the conditions, the counter of each entry is the number
-- of jobs that name its transaction, whenever the additions are through.
theorem counters_of_run {tr : List (Event (Server R) (Action Tx))} {s : Server R}
    (r : (machine R cfg).Run tr s) (h : Along (Tidy cfg) tr) (hs : s.Settled) : s.Counted := by
  have ⟨_, hk, ha, kept, hb⟩ := r.invariant (I := fun s => s.Started ∧ s.Sessions (Kept R) ∧
      s.Sessions Agreeing ∧ ∃ kept, s.Balanced kept)
    (fun s hi => ⟨.init hi, sessions_of_init hi, sessions_of_init hi, _, .init hi⟩)
    (fun s a s' ⟨hst, hk, ha, kept, hb⟩ ht hs => ⟨hst.step hs, kept_step hk hs,
      agreeing_step hk ha ht.honest hs, hb.step hst hk ha ht hs⟩) h
  exact hb.counted hk ha hs

namespace Sample

-- A client declares a transaction whose id the mempool knows; the node has the transaction.
def counted : List (Action Bytes) :=
  [ .connect, .receive 0 (.allocateMiningJobToken ⟨[], 1⟩), .updateMempool [txid],
    .receive 0 (.declareMiningJob (Sample.job 2 txids)), .run 0,
    .spawnAdd, .runAdd 0, .rpcAdd 0 (.ok tx), .runAdd 0 ]

variable {s : Server roles}

def settled (s : Server roles) : Bool :=
  s.addTxs.isEmpty && s.addTasks.entries.all (·.2 matches .done _) &&
    s.clients.entries.all (·.2.task matches .recv)

theorem settled_of (h : settled s) : s.Settled := by
  simp only [settled, Bool.and_eq_true, List.isEmpty_iff, List.all_eq_true] at h
  obtain ⟨⟨hq, ht⟩, hc⟩ := h
  refine ⟨hq, fun t add hl => ?_, fun c x hl => ?_⟩
  · have := ht ⟨t, add⟩ (AList.mem_lookup_iff.mp hl)
    simp only at this
    split at this
    case h_1 => exact ⟨_, rfl⟩
    case h_2 => cases this
  · have := hc ⟨c, x⟩ (AList.mem_lookup_iff.mp hl)
    simp only at this
    split at this
    case h_1 he => exact ⟨fun _ h => by simp [he] at h, fun _ _ h => by simp [he] at h⟩
    case h_2    => cases this

-- A check for the conditions on the steps of the run.
def tidy (e : Event (Server roles) (Action Bytes)) : Bool :=
  e.pre.clients.keys.all (· ∈ e.post.clients.keys) &&
  match e.act with
  | .receive c (.declareMiningJob _) =>
    (e.pre.clients.lookup c).all (·.downstream.declaredMiningJob.isNone)
  | .receive _ (.provideMissingTransactionsSuccess _) => false
  | .run c =>
    e.pre.clients.keys = [c] && e.pre.addTxs.isEmpty && e.pre.addTasks.entries.isEmpty &&
      (e.pre.clients.lookup c).all fun x =>
        match x.task with
        | .declare message => decide message.txIdsList.1.Nodup
        | .collect _ _ _   => false
        | _                => true
  | .runAdd t => !(e.pre.addTasks.lookup t matches some (.next ⟨[], _ :: _⟩))
  | .rpcAdd t (.ok tx) =>
    e.pre.clients.entries.all (.missing ∉ ·.2.downstream.transactionsWithState) &&
      (e.pre.mempool.mempool.lookup (roles.computeTxid tx) matches some none) &&
      match e.pre.addTasks.lookup t with
      | some (.getRawTransaction txid _) => roles.computeTxid tx = txid
      | _                                => false
  | .rpcAdd _ (.error _) => false
  | _ => true

theorem tidy_of {e : Event (Server roles) (Action Bytes)} (h : tidy e)
    (hs : e.pre.step config e.act = some e.post) : e.pre.Tidy config e.act := by
  obtain ⟨s, a, s'⟩ := e
  simp only [tidy, Bool.and_eq_true, List.all_eq_true, decide_eq_true_eq] at h
  obtain ⟨hstay, h⟩ := h
  constructor
  case stays =>
    intro c x k s'' hx _ hs'
    cases hs.symm.trans hs'
    exact hstay c (AList.mem_keys.mpr (Map.mem_iff_lookup.mpr ⟨x, hx⟩))
  case replaces =>
    intro c message x job ha hx hj
    subst ha
    simp [hx, hj] at h
  case supplies =>
    intro c message x job txs ha
    subst ha
    simp at h
  case declares =>
    intro c message x ha hx ht _
    subst ha
    simp only [hx, ht, Bool.and_eq_true, decide_eq_true_eq, List.isEmpty_iff, Option.all_some] at h
    obtain ⟨⟨⟨hc, hq⟩, hts⟩, hn⟩ := h
    refine ⟨hn, fun k _ _ => ⟨fun _ => ?_, fun c' x' hc' hx' => ?_⟩⟩
    · simp [Idle, provides, looksUp, fetches, load, hq, Map.total, hts]
    · have : c' ∈ s.clients.keys := AList.mem_keys.mpr (Map.mem_iff_lookup.mpr ⟨x', hx'⟩)
      rw [hc, List.mem_singleton] at this
      exact absurd this hc'
  case collects =>
    intro c x message state todo txs ha hx ht
    subst ha
    simp [hx, ht] at h
  case adds =>
    intro tx' ha
    cases ha with
    | run hl => simp [hl] at h
    | rpc hl =>
      simp only [hl, Bool.and_eq_true, List.all_eq_true, decide_eq_true_eq] at h
      obtain ⟨⟨hm, hthin⟩, _⟩ := h
      constructor
      · rintro c x hx ⟨_, i, _, _, hi⟩
        exact hm ⟨c, x⟩ (AList.mem_lookup_iff.mp hx) (List.mem_of_getElem? hi)
      · intro _ n hl'
        simp [hl'] at hthin
  case answers =>
    intro t answer id inner ha hl
    subst ha
    cases answer with
    | error => simp at h
    | ok tx' =>
      simp only [hl, Bool.and_eq_true, decide_eq_true_eq] at h
      exact ⟨tx', rfl, h.right⟩

theorem counted_exec : ((machine roles config).exec start counted).any fun s =>
    settled s && ((machine roles config).trace start counted).all tidy &&
    ((machine roles config).step s (.disconnect 0)).any fun s' =>
      settled s' && (s'.mempool.mempool.lookup txid = some (some (tx, 1)) &&
        s'.references txid = 0) := by
  decide +kernel

end Sample

theorem not_counted : ¬∀ tr s, (machine Sample.roles Sample.config).Run tr s → s.Settled →
    s.Counted := by
  intro h
  obtain ⟨s, he, hs⟩ := Option.any_eq_true _ _ |>.mp Sample.counted_exec
  simp only [Bool.and_eq_true, Option.any_eq_true, decide_eq_true_eq] at hs
  obtain ⟨_, s', hd, hs', hl, hr⟩ := hs
  have r := (Run.of_exec Sample.start_init he).snoc hd
  exact (h _ s' r (Sample.settled_of hs') _ _ _ hl).right hr

theorem counters_of_run_sample :
    ∃ tr, ∃ s : Server Sample.roles, (machine Sample.roles Sample.config).Run tr s ∧ s.Counted := by
  have ⟨s, he, hs⟩ := Option.any_eq_true _ _ |>.mp Sample.counted_exec
  simp only [Bool.and_eq_true, List.all_eq_true] at hs
  have ⟨⟨hs, ht⟩, _⟩ := hs
  have r := Run.of_exec Sample.start_init he
  exact ⟨_, s, r, counters_of_run r (fun e he => Sample.tidy_of (ht e he) (r.step_of_mem he))
    (Sample.settled_of hs)⟩

end Jds
