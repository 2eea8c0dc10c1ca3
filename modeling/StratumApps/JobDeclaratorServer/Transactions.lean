import StratumApps.JobDeclaratorServer.Sessions
import StratumApps.JobDeclaratorServer.Solutions

open Sv2 Handler

namespace Jds

variable {Tx : Type} {R : RolesLogic Tx} {s s' : Server R} {c c' : ClientId} {k : Txid}
variable {x x' : Session Tx} {cfg : Config} {a : Action Tx} {m : JdsMempool R}
variable {job : DeclareMiningJob}

namespace JobDeclaratorDownstream

variable {d d' : JobDeclaratorDownstream Tx} {message : ProvideMissingTransactionsSuccess}

-- What the loop over the provided transactions makes of the states: each pair is a missing position
-- with the transaction that was provided for it.
def supply (R : RolesLogic Tx) (pairs : List (UInt16 × Tx)) (states : List TransactionState) :
    List TransactionState :=
  pairs.foldl (fun states p => states.set p.1.toNat (.presentInMempool (R.computeTxid p.2))) states

section Supply

variable {bytes : List Bytes} {missing : List UInt16} {states states' : List TransactionState}
variable {unknown unknown' txs : List Tx} {pairs : List (UInt16 × Tx)} {i : ℕ}

@[simp]
theorem supply_length : (supply R pairs states).length = states.length := by
  induction pairs generalizing states with
  | nil => rfl
  | cons p pairs ih =>
    rw [supply, List.foldl_cons, ← supply, ih, List.length_set]

theorem supply_getElem?_ne (h : ∀ p ∈ pairs, p.1.toNat ≠ i) :
    (supply R pairs states)[i]? = states[i]? := by
  induction pairs generalizing states with
  | nil => rfl
  | cons p pairs ih =>
    have ⟨hp, hps⟩ := List.forall_mem_cons.mp h
    rw [supply, List.foldl_cons, ← supply, ih hps, List.getElem?_set_ne hp]

theorem supply_getElem? (hn : (pairs.map (·.1.toNat)).Nodup) {p : UInt16 × Tx} (hp : p ∈ pairs)
    (hi : p.1.toNat < states.length) :
    (supply R pairs states)[p.1.toNat]? = some (.presentInMempool (R.computeTxid p.2)) := by
  induction pairs generalizing states with
  | nil => cases hp
  | cons q pairs ih =>
    have ⟨hq, hn⟩ := List.nodup_cons.mp hn
    rw [supply, List.foldl_cons, ← supply]
    cases hp with
    | tail _ hp => exact ih hn hp (by simpa using hi)
    | head =>
      rw [supply_getElem?_ne, List.getElem?_set_self hi]
      intro q' hq' he
      exact hq <| List.mem_map.mpr ⟨q', hq', he⟩

-- The loop succeeds with transactions that decode, no more of them than are missing.
theorem provide_eq_ok (h : provide R message bytes missing states unknown = .ok (states', unknown')) :
    ∃ txs, bytes.map R.consensusDecode = txs.map .ok ∧ txs.length ≤ missing.length ∧
      states' = supply R (missing.zip txs) states ∧ unknown' = unknown ++ txs := by
  induction bytes generalizing missing states unknown with
  | nil =>
    cases h
    exact ⟨[], rfl, Nat.zero_le _, by simp [supply], by simp⟩
  | cons b bytes ih =>
    simp only [provide] at h
    split at h
    case h_1 => cases h
    case h_2 => cases h
    case h_3 tx i missing hd =>
      split at h
      case isFalse => cases h
      case isTrue =>
        have ⟨txs, hb, hl, hs, hu⟩ := ih h
        refine ⟨tx :: txs, by simp [hd, hb], by simpa using hl, ?_, by simp [hu]⟩
        rw [hs, List.zip_cons_cons, supply, supply, List.foldl_cons]

theorem provide_of_decodes (message : ProvideMissingTransactionsSuccess) (unknown : List Tx)
    (hd : bytes.map R.consensusDecode = txs.map .ok)
    (hl : txs.length ≤ missing.length) (hb : ∀ i ∈ missing, i.toNat < states.length) :
    provide R message bytes missing states unknown =
      .ok (supply R (missing.zip txs) states, unknown ++ txs) := by
  induction bytes generalizing missing states unknown txs with
  | nil =>
    cases txs with
    | nil         => simp [provide, supply]
    | cons tx txs => cases hd
  | cons b bytes ih =>
    cases txs with
    | nil => cases hd
    | cons tx txs =>
      cases missing with
      | nil => simp at hl
      | cons i missing =>
        have ⟨hi, hb⟩ := List.forall_mem_cons.mp hb
        obtain ⟨hd, hds⟩ := List.cons_eq_cons.mp hd
        have := @ih missing (states.set i.toNat (.presentInMempool (R.computeTxid tx)))
          txs (unknown ++ [tx]) hds (by simpa using hl) (by simpa using hb)
        simp only [provide, hd, if_pos hi, this, List.zip_cons_cons, supply, List.foldl_cons,
          List.append_assoc, List.singleton_append]

end Supply

-- The states and the missing positions of a job belong to its list of ids.
structure Tracks (d : JobDeclaratorDownstream Tx) (job : DeclareMiningJob) : Prop where
  length  : d.transactionsWithState.length = job.txIdsList.1.length
  nodup   : (d.missingTxs.map UInt16.toNat).Nodup
  bound   : ∀ i ∈ d.missingTxs, i.toNat < job.txIdsList.1.length
  missing : ∀ i : ℕ, d.transactionsWithState[i]? = some .missing → ∃ p ∈ d.missingTxs, p.toNat = i
  token   : job.miningJobToken.1.length = 4

-- A transaction that is present has the declared id.
def Agrees (d : JobDeclaratorDownstream Tx) (job : DeclareMiningJob) : Prop :=
  ∀ (i : ℕ) (k : Txid), d.transactionsWithState[i]? = some (.presentInMempool k) →
    job.txIdsList.1[i]? = some k

theorem Agrees.states_eq (h : d.Agrees job)
    (hl : d.transactionsWithState.length = job.txIdsList.1.length)
    (hm : .missing ∉ d.transactionsWithState) :
    d.transactionsWithState = job.txIdsList.1.map .presentInMempool := by
  apply List.ext_getElem?
  intro i
  rw [List.getElem?_map]
  cases hs : d.transactionsWithState[i]? with
  | none =>
    rw [List.getElem?_eq_none_iff, hl, ← List.getElem?_eq_none_iff] at hs
    rw [hs, Option.map_none]
  | some state =>
    cases state with
    | missing            => exact absurd (List.mem_of_getElem? hs) hm
    | presentInMempool k => rw [h i k hs, Option.map_some]

section Declare

variable {txids : List Txid} {i : ℕ} {state : TransactionState}

theorem transactionStates_length : (transactionStates m txids).length = txids.length :=
  List.length_map ..

theorem transactionStates_getElem? (h : (transactionStates m txids)[i]? = some state) :
    ∃ txid, txids[i]? = some txid ∧
      state = if txid ∈ m.mempool then .presentInMempool txid else .missing := by
  rw [transactionStates, List.getElem?_map] at h
  obtain ⟨txid, ht, hs⟩ := Option.map_eq_some_iff.mp h
  exact ⟨txid, ht, hs.symm⟩

theorem mem_missingPositions {p : UInt16} : p ∈ missingPositions m txids ↔
    ∃ txid, ∃ i : ℕ, txids[i]? = some txid ∧ txid ∉ m.mempool ∧ i.toUInt16 = p := by
  simp only [missingPositions, List.mem_map, List.mem_filter, Prod.exists,
    List.mem_zipIdx_iff_getElem?, decide_not, Bool.not_eq_eq_eq_not, Bool.not_true,
    decide_eq_false_iff_not, and_assoc]

theorem toNat_toUInt16 (h : i < 65536) : i.toUInt16.toNat = i := by
  simp only [Nat.toUInt16, UInt16.toNat_ofNat']
  omega

theorem missingPositions_toNat (h : txids.length ≤ 65535) :
    (missingPositions m txids).map UInt16.toNat =
      (txids.zipIdx.filter fun (txid, _) => txid ∉ m.mempool).map Prod.snd := by
  rw [missingPositions, List.map_map]
  apply List.map_congr_left
  rintro ⟨txid, i⟩ hm
  have hi := List.mem_zipIdx_iff_getElem?.mp (List.mem_of_mem_filter hm)
  have := (List.getElem?_eq_some_iff.mp hi).1
  exact toNat_toUInt16 (by omega)

theorem missingPositions_nodup (h : txids.length ≤ 65535) :
    ((missingPositions m txids).map UInt16.toNat).Nodup := by
  rw [missingPositions_toNat h]
  apply List.Nodup.sublist (List.filter_sublist.map _)
  rw [List.zipIdx_map_snd]
  exact List.nodup_range'

theorem handleDeclareMiningJob_eq_ok {message : DeclareMiningJob} {reply : SendTo}
    (h : d.handleDeclareMiningJob m message = .ok (reply, d')) :
    (d' = d ∧ reply = .respond (.declareMiningJobError ⟨message.requestId, [], []⟩)) ∨
      message.miningJobToken.1.length = 4 ∧ d'.declaredMiningJob = some message ∧
        d'.transactionsWithState = transactionStates m message.txIdsList.1 ∧
        d'.missingTxs = missingPositions m message.txIdsList.1 := by
  rw [handleDeclareMiningJob, bind_eq_ok] at h
  obtain ⟨verified, hv, h⟩ := h
  split at h
  case isFalse =>
    cases h
    exact .inl ⟨rfl, rfl⟩
  case isTrue =>
    have hl : message.miningJobToken.1.length = 4 := by
      rw [verifyJob] at hv
      split at hv
      case h_2 => cases hv
      case h_1 hu =>
        rw [u32FromLeBytes.eq_def] at hu
        split at hu
        case h_2 => cases hu
        case h_1 he => simp [he]
    simp only [bind_eq_ok] at h
    obtain ⟨token, _, h⟩ := h
    split at h <;> cases h
    all_goals exact .inr ⟨hl, rfl, rfl, rfl⟩

theorem tracks_declared (hl : job.miningJobToken.1.length = 4)
    (hs : d.transactionsWithState = transactionStates m job.txIdsList.1)
    (hm : d.missingTxs = missingPositions m job.txIdsList.1) : d.Tracks job where
  length := hs ▸ transactionStates_length
  nodup  := hm ▸ missingPositions_nodup job.txIdsList.2
  bound p hp := by
    rw [hm, mem_missingPositions] at hp
    have ⟨txid, i, ht, _, he⟩ := hp
    have hi := (List.getElem?_eq_some_iff.mp ht).1
    have := job.txIdsList.2
    rw [← he, toNat_toUInt16 (by omega)]
    exact hi
  missing i hi := by
    rw [hs] at hi
    have ⟨txid, ht, he⟩ := transactionStates_getElem? hi
    have hlt := (List.getElem?_eq_some_iff.mp ht).1
    have := job.txIdsList.2
    split at he
    case isTrue => cases he
    case isFalse hn =>
      exact ⟨i.toUInt16, hm ▸ mem_missingPositions.mpr ⟨txid, i, ht, hn, rfl⟩,
        toNat_toUInt16 (by omega)⟩
  token := hl

theorem agrees_declared (hs : d.transactionsWithState = transactionStates m job.txIdsList.1) :
    d.Agrees job := by
  intro i k hi
  rw [hs] at hi
  have ⟨txid, ht, he⟩ := transactionStates_getElem? hi
  split at he <;> cases he
  exact ht

end Declare

section Provide

variable {txs : List Tx} {reply : JobDeclaration}

-- The client's job with the transactions of a reply.
def supplied (R : RolesLogic Tx) (d : JobDeclaratorDownstream Tx) (txs : List Tx) :
    JobDeclaratorDownstream Tx :=
  { d with
    transactionsWithState := supply R (d.missingTxs.zip txs) d.transactionsWithState
    addTxsToMempool       := { d.addTxsToMempool with
      unknownTransactions := d.addTxsToMempool.unknownTransactions ++ txs } }

theorem handleProvideMissingTransactionsSuccess_eq_ok
    (h : d.handleProvideMissingTransactionsSuccess R message = .ok (.respond reply, d')) :
    ∃ job, ∃ txs : List Tx, d.declaredMiningJob = some job ∧ job.requestId = message.requestId ∧
      message.transactionList.1.map R.consensusDecode = List.map .ok txs ∧
      txs.length ≤ d.missingTxs.length ∧
      .missing ∉ (supplied R d txs).transactionsWithState ∧
      (∃ r, reply = .declareMiningJobSuccess r) ∧ d' = supplied R d txs := by
  rw [handleProvideMissingTransactionsSuccess] at h
  split at h
  case h_1 => cases h
  case h_2 job hj =>
    split at h
    case isFalse => cases h
    case isTrue hi =>
      simp only [bind_eq_ok, Prod.exists] at h
      obtain ⟨states, unknown, hp, h⟩ := h
      split at h
      case isTrue => simp [bind_eq_ok, throw_eq_ok] at h
      case isFalse hm =>
        obtain ⟨token, _, h⟩ := bind_eq_ok.mp h
        cases h
        obtain ⟨txs, hd, hl, hs, hu⟩ := provide_eq_ok hp
        subst hs
        simp only [List.nil_append] at hu
        subst hu
        exact ⟨job, unknown, hj, hi, hd, hl, hm, ⟨_, rfl⟩, rfl⟩

theorem zip_map_fst {missing : List UInt16} :
    (missing.zip txs).map (·.1.toNat) = (missing.map UInt16.toNat).take txs.length := by
  induction txs generalizing missing with
  | nil => simp
  | cons tx txs ih =>
    cases missing with
    | nil            => simp
    | cons i missing => simp [ih]

theorem Tracks.pairs_nodup (h : d.Tracks job) :
    ((d.missingTxs.zip txs).map (·.1.toNat)).Nodup := by
  rw [zip_map_fst]
  exact h.nodup.sublist (List.take_sublist ..)

theorem Tracks.bound_of_pair (h : d.Tracks job) {p : UInt16 × Tx}
    (hp : p ∈ d.missingTxs.zip txs) : p.1.toNat < d.transactionsWithState.length := by
  rw [h.length]
  exact h.bound p.1 (List.of_mem_zip hp).1

theorem Tracks.supplied_getElem? (h : d.Tracks job) {p : UInt16 × Tx}
    (hp : p ∈ d.missingTxs.zip txs) :
    (supplied R d txs).transactionsWithState[p.1.toNat]? =
      some (.presentInMempool (R.computeTxid p.2)) :=
  supply_getElem? h.pairs_nodup hp (h.bound_of_pair hp)

theorem supplied_getElem?_ne {i : ℕ} (h : i ∉ (d.missingTxs.take txs.length).map UInt16.toNat) :
    (supplied R d txs).transactionsWithState[i]? = d.transactionsWithState[i]? := by
  apply supply_getElem?_ne
  intro p hp he
  rw [List.map_take, ← zip_map_fst] at h
  exact h <| List.mem_map.mpr ⟨p, hp, he⟩

-- The states after a reply: those of the provided positions, and the old ones elsewhere.
theorem Tracks.supplied_cases (h : d.Tracks job) {i : ℕ} {state : TransactionState}
    (hi : (supplied R d txs).transactionsWithState[i]? = some state) :
    (∃ p ∈ d.missingTxs.zip txs, p.1.toNat = i ∧
      state = .presentInMempool (R.computeTxid p.2)) ∨
    i ∉ (d.missingTxs.take txs.length).map UInt16.toNat ∧
      d.transactionsWithState[i]? = some state := by
  by_cases hp : i ∈ (d.missingTxs.take txs.length).map UInt16.toNat
  case neg => exact .inr ⟨hp, supplied_getElem?_ne hp ▸ hi⟩
  case pos =>
    rw [List.map_take, ← zip_map_fst, List.mem_map] at hp
    obtain ⟨p, hp, he⟩ := hp
    subst he
    rw [h.supplied_getElem? hp, Option.some_inj] at hi
    exact .inl ⟨p, hp, rfl, hi.symm⟩

theorem Tracks.supplied (h : d.Tracks job) : (supplied R d txs).Tracks job where
  length  := supply_length.trans h.length
  nodup   := h.nodup
  bound   := h.bound
  missing i hi := by
    cases h.supplied_cases hi
    case inl hp =>
      have ⟨_, _, _, he⟩ := hp
      cases he
    case inr hi => exact h.missing i hi.right
  token   := h.token

theorem mem_provided_of_missing (hm : .missing ∉ (supplied R d txs).transactionsWithState) {i : ℕ}
    (hi : d.transactionsWithState[i]? = some .missing) :
    i ∈ (d.missingTxs.take txs.length).map UInt16.toNat := by
  by_contra hp
  exact hm <| List.mem_of_getElem? <| (supplied_getElem?_ne (R := R) hp).trans hi

-- The reply to a request is taken when it decodes and fits the request, and leaves nothing missing.
structure Completes (R : RolesLogic Tx) (d : JobDeclaratorDownstream Tx) (job : DeclareMiningJob)
    (message : ProvideMissingTransactionsSuccess) (txs : List Tx) : Prop where
  current   : d.declaredMiningJob = some job
  requestId : job.requestId = message.requestId
  decodes   : message.transactionList.1.map R.consensusDecode = txs.map .ok
  fits      : txs.length ≤ d.missingTxs.length
  complete  : ∀ i : ℕ, d.transactionsWithState[i]? = some .missing →
    i ∈ (d.missingTxs.take txs.length).map UInt16.toNat

theorem Agrees.supplied (h : d.Agrees job) (ht : d.Tracks job)
    (hp : ∀ p ∈ d.missingTxs.zip txs, job.txIdsList.1[p.1.toNat]? = some (R.computeTxid p.2)) :
    (supplied R d txs).Agrees job := by
  intro i k hi
  cases ht.supplied_cases hi
  case inr hi => exact h i k hi.right
  case inl he =>
    obtain ⟨p, hm, rfl, he⟩ := he
    cases he
    exact hp p hm

theorem Completes.missing_notMem (h : Completes R d job message txs) (ht : d.Tracks job) :
    .missing ∉ (supplied R d txs).transactionsWithState := by
  intro hm
  have ⟨i, hi⟩ := List.mem_iff_getElem?.mp hm
  cases ht.supplied_cases hi
  case inl hp =>
    have ⟨_, _, _, he⟩ := hp
    cases he
  case inr hi => exact hi.left <| h.complete i hi.right

theorem Completes.handle (h : Completes R d job message txs) (ht : d.Tracks job) :
    ∃ r, d.handleProvideMissingTransactionsSuccess R message =
        .ok (.respond (.declareMiningJobSuccess r), supplied R d txs) ∧
      r.requestId = message.requestId := by
  have hp := provide_of_decodes message [] h.decodes h.fits fun i hi => by
      rw [ht.length]
      exact ht.bound i hi
  rw [List.nil_append] at hp
  have ⟨token, hs⟩ : ∃ token, signedToken R job.miningJobToken d.privateKey = .ok token := by
    rw [signedToken, if_pos]
    · exact ⟨_, rfl⟩
    · rw [List.length_cons, ht.token]
      decide
  have hm : .missing ∉ supply R (d.missingTxs.zip txs) d.transactionsWithState :=
    h.missing_notMem ht
  refine ⟨⟨message.requestId, token⟩, ?_, rfl⟩
  simp only [handleProvideMissingTransactionsSuccess, h.current, if_pos h.requestId, hp, bind,
    Except.bind, if_neg hm, hs, supplied]
  rfl

end Provide

theorem Tracks.congr (h : d.Tracks job) (hs : d'.transactionsWithState = d.transactionsWithState)
    (hm : d'.missingTxs = d.missingTxs) : d'.Tracks job where
  length  := hs ▸ h.length
  nodup   := hm ▸ h.nodup
  bound   := hm ▸ h.bound
  missing := hs ▸ hm ▸ h.missing
  token   := h.token

end JobDeclaratorDownstream

theorem Flushed.declaredMiningJob {d d' : JobDeclaratorDownstream Tx} (h : Flushed d d') :
    d'.declaredMiningJob = d.declaredMiningJob := by
  cases h with
  | inl h => rw [h]
  | inr h => rw [h]

theorem Flushed.transactionsWithState {d d' : JobDeclaratorDownstream Tx} (h : Flushed d d') :
    d'.transactionsWithState = d.transactionsWithState := by
  cases h with
  | inl h => rw [h]
  | inr h => rw [h]

theorem Flushed.missingTxs {d d' : JobDeclaratorDownstream Tx} (h : Flushed d d') :
    d'.missingTxs = d.missingTxs := by
  cases h with
  | inl h => rw [h]
  | inr h => rw [h]

namespace Server

open JobDeclaratorDownstream Machine

theorem takeDeclaredMiningJob_current {d : JobDeclaratorDownstream Tx} {message : DeclareMiningJob} :
    (d.takeDeclaredMiningJob m message).2.declaredMiningJob = none := by
  rw [takeDeclaredMiningJob]
  split
  case h_1 hj => exact hj
  case h_2    => rfl

-- What holds of every session: the states belong to the current job, and a rebuilding has collected
-- the first of them.
structure Kept (R : RolesLogic Tx) (x : Session Tx) : Prop where
  tracks   : ∀ job, x.downstream.declaredMiningJob = some job → x.downstream.Tracks job
  rebuilds : ∀ message retrieved job todo txs, x.task = .rebuild message retrieved job todo txs →
    x.downstream.declaredMiningJob = some job ∧ x.downstream.transactionsWithState =
      txs.map (fun tx => .presentInMempool (R.computeTxid tx)) ++ todo

theorem Kept.step {message : Option JobDeclaration} (h : Kept R x) (hs : x.Step m message x') :
    Kept R x' := by
  cases hs with
  | allocate he hf =>
    cases he
    constructor
    case rebuilds =>
      intro _ _ _ _ _ ht
      cases ht
    case tracks =>
      intro job hj
      exact (h.tracks job (hf.declaredMiningJob ▸ hj)).congr hf.transactionsWithState hf.missingTxs
  | take =>
    constructor
    case rebuilds =>
      intro _ _ _ _ _ ht
      cases ht
    case tracks =>
      intro job hj
      rw [takeDeclaredMiningJob_current] at hj
      cases hj
  | declare _ he hf =>
    constructor
    case rebuilds =>
      intro _ _ _ _ _ ht
      cases ht
    case tracks =>
      intro job hj
      rw [hf.declaredMiningJob] at hj
      apply Tracks.congr _ hf.transactionsWithState hf.missingTxs
      cases handleDeclareMiningJob_eq_ok he
      case inl hd =>
        have ⟨hd, _⟩ := hd
        subst hd
        exact h.tracks job hj
      case inr hd =>
        have ⟨hl, hj', hs, hm⟩ := hd
        cases hj'.symm.trans hj
        exact tracks_declared hl hs hm
  | provide _ he hf =>
    have ⟨_, txs, _, _, _, _, _, _, hd⟩ := handleProvideMissingTransactionsSuccess_eq_ok he
    subst hd
    constructor
    case rebuilds =>
      intro _ _ _ _ _ ht
      cases ht
    case tracks =>
      intro job hj
      rw [hf.declaredMiningJob] at hj
      exact (h.tracks job hj).supplied.congr hf.transactionsWithState hf.missingTxs
  | work ht =>
    refine ⟨h.tracks, fun message retrieved job todo txs he => ?_⟩
    cases ht message retrieved job todo txs he
    case inl h =>
      obtain ⟨hj, rfl, rfl⟩ := h
      exact ⟨hj, rfl⟩
    case inr h' =>
      obtain ⟨state, tx, txs, hr, hc, rfl⟩ := h'
      have ⟨hj, hs⟩ := h.rebuilds _ _ _ _ _ hr
      have hk : state = .presentInMempool (R.computeTxid tx) := by
        cases state with
        | missing => cases hc
        | presentInMempool k =>
          have ⟨n, hl⟩ := collectTx_eq_some.mp hc
          rw [m.txid_eq _ _ _ hl]
      exact ⟨hj, by simp [hs, hk]⟩

theorem kept_step (h : s.Sessions (Kept R)) (hs : s.step cfg a = some s') : s'.Sessions (Kept R) := by
  intro c x' hx'
  cases step_session hs hx'
  case inl hn =>
    rw [hn.right]
    refine ⟨fun job hj => ?_, fun _ _ _ _ _ ht => ?_⟩
    · cases hj
    · cases ht
  case inr hm =>
    have ⟨x, hx, hm⟩ := hm
    cases hm
    case inl he => exact he ▸ h c x hx
    case inr hm => exact (h c x hx).step hm.right

theorem sessions_of_init {P : Session Tx → Prop} (h : (machine R cfg).Init s) : s.Sessions P := by
  intro c x hx
  simp [h.left] at hx

theorem kept_of_run {tr : List (Event (Server R) (Action Tx))} (r : (machine R cfg).Run tr s) :
    s.Sessions (Kept R) :=
  r.reachable.invariant (I := fun s => s.Sessions (Kept R)) (fun _ => sessions_of_init)
    fun _ _ _ => kept_step

-- The job of every client that was answered with success has the declared transactions in their
-- order, and so has every block that is rebuilt for it.
structure Exact (s : Server R) : Prop where
  states : ∀ c x job r, s.clients.lookup c = some x → x.downstream.declaredMiningJob = some job →
    lastAnswer x.sent = some (.declareMiningJobSuccess r) →
    x.downstream.transactionsWithState = job.txIdsList.1.map .presentInMempool
  block  : ∀ c x message retrieved job txs r, s.clients.lookup c = some x →
    x.task = .rebuild message retrieved job [] txs →
    lastAnswer x.sent = some (.declareMiningJobSuccess r) →
    txs.map R.computeTxid = job.txIdsList.1

-- A reply that is taken provides the declared transactions.
def Honest (s : Server R) (a : Action Tx) : Prop :=
  ∀ c message x job txs, a = .receive c (.provideMissingTransactionsSuccess message) →
    s.clients.lookup c = some x → Completes R x.downstream job message txs →
    ∀ p ∈ x.downstream.missingTxs.zip txs,
      job.txIdsList.1[p.1.toNat]? = some (R.computeTxid p.2)

def Agreeing (x : Session Tx) : Prop :=
  ∀ job, x.downstream.declaredMiningJob = some job → x.downstream.Agrees job

theorem Exact.of_agreeing (hs : s.Sessions Sound) (hk : s.Sessions (Kept R))
    (ha : s.Sessions Agreeing) : s.Exact := by
  have states (c x job r) (hx : s.clients.lookup c = some x)
      (hj : x.downstream.declaredMiningJob = some job)
      (hr : lastAnswer x.sent = some (.declareMiningJobSuccess r)) :
      x.downstream.transactionsWithState = job.txIdsList.1.map .presentInMempool :=
    (ha c x hx job hj).states_eq ((hk c x hx).tracks job hj).length (hs c x hx (by simp [hj]) r hr)
  refine ⟨states, fun c x message retrieved job txs r hx ht hr => ?_⟩
  obtain ⟨hj, he⟩ := (hk c x hx).rebuilds _ _ _ _ _ ht
  rw [states c x job r hx hj hr, List.append_nil] at he
  have inj : Function.Injective TransactionState.presentInMempool := fun _ _ h => by cases h; rfl
  apply List.map_injective_iff.mpr inj
  rw [List.map_map]
  exact he.symm

-- A session takes only honest replies.
theorem Agreeing.step {message : Option JobDeclaration} (hk : Kept R x) (h : Agreeing x)
    (hp : ∀ reply job txs, message = some (.provideMissingTransactionsSuccess reply) →
      Completes R x.downstream job reply txs → ∀ p ∈ x.downstream.missingTxs.zip txs,
        job.txIdsList.1[p.1.toNat]? = some (R.computeTxid p.2))
    (hs : x.Step m message x') : Agreeing x' := by
  intro job hj
  cases hs with
  | allocate he hf =>
    cases he
    intro i k hi
    rw [hf.transactionsWithState] at hi
    exact h job (hf.declaredMiningJob ▸ hj) i k hi
  | take =>
    rw [takeDeclaredMiningJob_current] at hj
    cases hj
  | declare _ he hf =>
    intro i k hi
    rw [hf.declaredMiningJob] at hj
    rw [hf.transactionsWithState] at hi
    cases handleDeclareMiningJob_eq_ok he
    case inl hd =>
      have ⟨hd, _⟩ := hd
      subst hd
      exact h job hj i k hi
    case inr hd =>
      have ⟨_, hj', hst, _⟩ := hd
      cases hj'.symm.trans hj
      exact agrees_declared hst i k hi
  | @provide message _ _ _ _ he hf =>
    intro i k hi
    rw [hf.declaredMiningJob] at hj
    rw [hf.transactionsWithState] at hi
    have ⟨job', txs, hj', hr, hd, hl, hm, _, he⟩ := handleProvideMissingTransactionsSuccess_eq_ok he
    subst he
    cases hj'.symm.trans hj
    have hp := hp message job txs rfl ⟨hj, hr, hd, hl, fun _ => mem_provided_of_missing hm⟩
    exact (h job hj).supplied (hk.tracks job hj) hp i k hi
  | work => exact h job hj

theorem agreeing_step (hk : s.Sessions (Kept R)) (h : s.Sessions Agreeing) (ha : s.Honest a)
    (hs : s.step cfg a = some s') : s'.Sessions Agreeing := by
  intro c x' hx'
  cases step_session hs hx'
  case inl hn =>
    rw [hn.right]
    intro job hj
    cases hj
  case inr hm =>
    have ⟨x, hx, hm⟩ := hm
    cases hm
    case inl he => exact he ▸ h c x hx
    case inr hm =>
      have ⟨hc, hm⟩ := hm
      refine (h c x hx).step (hk c x hx) (fun reply job txs he hd => ?_) hm
      have ha' : a = .receive c (.provideMissingTransactionsSuccess reply) := by
        cases a <;> cases hc <;> cases he
        rfl
      exact ha c reply x job txs ha' hx hd

-- Of the replies that are taken the honest ones, and no others, leave the states exact.
theorem Exact.honest (hk : s.Sessions (Kept R)) (hs : s.step cfg a = some s') (h : s'.Exact) :
    s.Honest a := by
  intro c message x job txs ha hx hc p hp
  subst ha
  obtain ⟨y, hy, hs⟩ := Option.bind_eq_some_iff.mp hs
  cases hx.symm.trans hy
  split at hs
  case h_2 => cases hs
  case h_1 =>
    obtain ⟨r, hr, _⟩ := hc.handle <| (hk c x hx).tracks job hc.current
    rw [Option.some_inj, receive, hr, deliver] at hs
    subst hs
    have hl := h.states c _ job r setSession_lookup hc.current (by simp [lastAnswer_append, isAnswer])
    have hi := ((hk c x hx).tracks job hc.current).supplied_getElem? (R := R) hp
    rw [hl, List.getElem?_map] at hi
    obtain ⟨k, hk, he⟩ := Option.map_eq_some_iff.mp hi
    cases he
    exact hk

end Server

open Machine Server

-- The run lemma: the jobs and the blocks hold exactly what was declared in those runs in which each
-- reply that is taken provides the transactions that were declared.
theorem declared_txs_exact_iff {tr : List (Event (Server R) (Action Tx))}
    (r : (machine R cfg).Run tr s) : (∀ e ∈ tr, e.post.Exact) ↔ Along Honest tr where
  mp h e he :=
    have ⟨_, _, _, r', _⟩ := r.split he
    (h e he).honest (kept_of_run r') (r.step_of_mem he)
  mpr h e he := by
    have ⟨_, _, _, r', _⟩ := r.split he
    have r'' := r'.snoc (r.step_of_mem he)
    have hi := r.invariant_of_mem (I := fun s => s.Sessions (Kept R) ∧ s.Sessions Agreeing)
      (fun _ hi => ⟨sessions_of_init hi, sessions_of_init hi⟩)
      (fun _ _ _ hi ha hs => ⟨kept_step hi.left hs, agreeing_step hi.left hi.right ha hs⟩) h he
    exact .of_agreeing (started_of_run r'').sound hi.right.left hi.right.right

namespace Sample

-- A client declares a transaction that the mempool does not know, and provides another one.
def swapped : List (Action Bytes) :=
  [ .connect, .receive 0 (.allocateMiningJobToken ⟨[], 1⟩),
    .receive 0 (.declareMiningJob (Sample.job 2 (fit [1]))), .run 0,
    .receive 0 (.provideMissingTransactionsSuccess ⟨2, fit [tx]⟩) ]

-- What of exactness a check can read off the sessions.
def exactStates (s : Server roles) : Bool :=
  s.clients.entries.all fun ⟨_, x⟩ => (x.downstream.declaredMiningJob).all fun job =>
    !((lastAnswer x.sent).any (· matches .declareMiningJobSuccess _)) ||
      x.downstream.transactionsWithState = job.txIdsList.1.map .presentInMempool

theorem exactStates_of_exact {s : Server roles} (h : s.Exact) : exactStates s := by
  simp only [exactStates, List.all_eq_true, Option.all_eq_true, Bool.or_eq_true,
    Bool.not_eq_eq_eq_not, Bool.not_true, decide_eq_true_eq]
  rintro ⟨c, x⟩ hx job hj
  by_cases ha : (lastAnswer x.sent).any (· matches .declareMiningJobSuccess _)
  case neg => exact .inl <| by simpa using ha
  case pos =>
    obtain ⟨m, hm, hr⟩ := Option.any_eq_true _ _ |>.mp ha
    split at hr
    case h_2 => cases hr
    case h_1 r => exact .inr <| h.states c x job r (AList.mem_lookup_iff.mpr hx) hj hm

theorem swapped_exec : ((machine roles config).exec start swapped).any fun _ =>
    (machine roles config).trace start swapped |>.any fun e => !exactStates e.post := by
  decide +kernel

theorem swapped_not_exact : ∃ tr s, (machine roles config).Run tr s ∧ ¬∀ e ∈ tr, e.post.Exact := by
  have ⟨s, he, h⟩ := Option.any_eq_true _ _ |>.mp swapped_exec
  refine ⟨_, s, .of_exec start_init he, fun hx => ?_⟩
  have ⟨e, he, hn⟩ := List.any_eq_true.mp h
  simp [exactStates_of_exact (hx e he)] at hn

-- The reply of an honest client, as it can be computed.
def honest (e : Event (Server roles) (Action Bytes)) : Bool :=
  match e.act with
  | .receive c (.provideMissingTransactionsSuccess message) =>
    (e.pre.clients.lookup c).all fun x => x.downstream.declaredMiningJob.all fun job =>
      (x.downstream.missingTxs.zip message.transactionList.1).all fun p =>
        roles.consensusDecode p.2 = .ok p.2 &&
          job.txIdsList.1[p.1.toNat]? = some (roles.computeTxid p.2)
  | _ => true

theorem honest_of_all {tr : List (Event (Server roles) (Action Bytes))} (h : tr.all honest) :
    Along Honest tr := by
  intro e he c message x job txs ha hx hc p hp
  have h := List.all_eq_true.mp h e he
  simp only [honest, ha, hx, hc.current, Option.all_some, List.all_eq_true, Bool.and_eq_true,
    decide_eq_true_eq] at h
  obtain ⟨i, hi⟩ := List.mem_iff_getElem?.mp hp
  obtain ⟨hm, ht⟩ := List.getElem?_zip_eq_some.mp hi
  have hd := congrArg (·[i]?) hc.decodes
  simp only [List.getElem?_map, ht, Option.map_some, Option.map_eq_some_iff] at hd
  obtain ⟨bytes, hb, hd⟩ := hd
  have hmem : (p.1, bytes) ∈ x.downstream.missingTxs.zip message.transactionList.1 :=
    List.mem_iff_getElem?.mpr ⟨i, List.getElem?_zip_eq_some.mpr ⟨hm, hb⟩⟩
  obtain ⟨hdec, ht⟩ := h _ hmem
  cases hdec.symm.trans hd
  exact ht

theorem provided_honest : ((machine roles config).trace start provided).all honest := by
  decide +kernel

theorem provided_exec : ((machine roles config).exec start provided).any
    fun s => s.Answered 0 (Sample.job 2 txids) := by
  decide +kernel

end Sample

theorem not_declared_txs_exact :
    ¬∀ tr s, (machine Sample.roles Sample.config).Run tr s → ∀ e ∈ tr, e.post.Exact := by
  intro h
  have ⟨tr, s, r, hn⟩ := Sample.swapped_not_exact
  exact hn <| h tr s r

open Sample in
theorem declared_txs_exact_iff_sample : (∃ tr s, (machine roles config).Run tr s ∧
    s.Answered 0 (Sample.job 2 txids) ∧ ∀ e ∈ tr, e.post.Exact) ∧
    ∃ tr s, (machine roles config).Run tr s ∧ ¬Along Honest tr := by
  constructor
  case left =>
    obtain ⟨s, hs, ha⟩ := Option.any_eq_true _ _ |>.mp provided_exec
    have r := Run.of_exec start_init hs
    exact ⟨_, s, r, of_decide_eq_true ha,
      (declared_txs_exact_iff r).mpr (honest_of_all provided_honest)⟩
  case right =>
    have ⟨tr, s, r, hn⟩ := swapped_not_exact
    exact ⟨tr, s, r, fun h => hn <| (declared_txs_exact_iff r).mpr h⟩

end Jds
