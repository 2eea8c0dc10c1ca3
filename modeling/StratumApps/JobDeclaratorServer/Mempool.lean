import StratumApps.Lib.Map
import StratumApps.Sv2.JobDeclaration

open Sv2

namespace Jds

abbrev Txid := U256

-- What the server uses of the crates it is built on: transaction ids and the decoding of
-- transactions, the signature of a token, and the hex of the block that `BlockCreator` makes, which
-- panics when the coinbase of the job does not decode.
structure RolesLogic (Tx : Type) where
  computeTxid     : Tx → Txid
  consensusDecode : Bytes → Except String Tx
  sign            : Bytes → Bytes → Bytes
  blockHex        : DeclareMiningJob → List Tx → PushSolution → Option String

variable {Tx : Type} {R : RolesLogic Tx}

inductive JdsMempoolError
  | emptyMempool
  | noClient
  | rpc (e : String)
  | poisonLock (e : String)
  deriving DecidableEq

structure MiniRpcClient where
  url : List Char
  deriving DecidableEq

-- `none` is a thin entry, whose data are missing; a fat entry has the transaction and its counter.
-- Every insertion of a fat entry computes the key from the transaction, which is `txid_eq`.
structure JdsMempool (R : RolesLogic Tx) where
  mempool : Map Txid (Option (Tx × UInt32))
  url     : List Char
  txid_eq : ∀ k tx n, mempool.lookup k = some (some (tx, n)) → R.computeTxid tx = k

namespace JdsMempool

variable {m : JdsMempool R} {k : Txid} {tx : Tx}

instance : Membership Txid (JdsMempool R) where
  mem m k := k ∈ m.mempool

theorem mem_def : k ∈ m ↔ k ∈ m.mempool := Iff.rfl

def Thin (m : JdsMempool R) (k : Txid) : Prop :=
  m.mempool.lookup k = some none

def Fat (m : JdsMempool R) (k : Txid) : Prop :=
  ∃ tx n, m.mempool.lookup k = some (some (tx, n))

theorem mem_iff_thin_or_fat : k ∈ m ↔ m.Thin k ∨ m.Fat k := by
  rw [mem_def, Map.mem_iff_lookup, Thin, Fat]
  constructor
  · intro ⟨e, h⟩
    match e with
    | none         => exact .inl h
    | some (tx, n) => exact .inr ⟨tx, n, h⟩
  · intro h
    cases h
    case inl h => exact ⟨_, h⟩
    case inr h =>
      have ⟨tx, n, h⟩ := h
      exact ⟨_, h⟩

theorem Fat.mem (h : m.Fat k) : k ∈ m :=
  mem_iff_thin_or_fat.mpr <| .inr h

def new (R : RolesLogic Tx) (url : List Char) : JdsMempool R where
  mempool := ∅
  url     := url
  txid_eq := by simp

def getClient (m : JdsMempool R) : Option MiniRpcClient :=
  if "http".toList <:+: m.url then some ⟨m.url⟩ else none

-- The entry of a transaction whose data have arrived.
def fill (tx : Tx) : Option (Option (Tx × UInt32)) → Option (Tx × UInt32)
  | some (some (tx', count)) => some (tx', count + 1)
  | some none | none         => some (tx, 1)

-- One `entry(..).and_modify(..).or_insert(..)` of `add_tx_data_to_mempool`, under one lock.
def addTx (m : JdsMempool R) (tx : Tx) : JdsMempool R where
  mempool := m.mempool.upsert (R.computeTxid tx) (fill tx)
  url     := m.url
  txid_eq k tx' n h := by
    by_cases hk : k = R.computeTxid tx
    case neg => exact m.txid_eq _ _ _ <| Map.lookup_upsert_ne hk ▸ h
    case pos =>
      subst hk
      rw [Map.lookup_upsert, Option.some_inj] at h
      match hm : m.mempool.lookup (R.computeTxid tx) with
      | none | some none => simp_all [fill]
      | some (some (t, c)) =>
        have := m.txid_eq _ _ _ hm
        simp_all [fill]

-- `update_mempool` holds the lock until all ids are in, each as a thin entry unless it is known.
def updateMempool (m : JdsMempool R) : List Txid → JdsMempool R
  | []          => m
  | txid :: ids =>
    if h : txid ∈ m.mempool then m.updateMempool ids
    else JdsMempool.updateMempool {
      mempool := m.mempool.insert txid none
      url     := m.url
      txid_eq k tx n hk := by
        rw [Map.lookup_insert_ite] at hk
        split at hk
        · cases hk
        · exact m.txid_eq _ _ _ hk
    } ids

-- What no insertion can undo: known ids stay known, and data that have arrived stay.
structure Grows (m₁ m₂ : JdsMempool R) : Prop where
  mem : ∀ {k}, k ∈ m₁ → k ∈ m₂
  fat : ∀ {k}, m₁.Fat k → m₂.Fat k
  url : m₂.url = m₁.url

namespace Grows

variable {m₁ m₂ m₃ : JdsMempool R}

theorem refl (m : JdsMempool R) : Grows m m :=
  ⟨id, id, rfl⟩

theorem of_eq (h : m₂ = m₁) : Grows m₁ m₂ :=
  h ▸ refl m₂

theorem trans (h₁ : Grows m₁ m₂) (h₂ : Grows m₂ m₃) : Grows m₁ m₃ :=
  ⟨(h₂.mem <| h₁.mem ·), (h₂.fat <| h₁.fat ·), h₂.url.trans h₁.url⟩

end Grows

theorem addTx_fat (m : JdsMempool R) (tx : Tx) : (m.addTx tx).Fat (R.computeTxid tx) := by
  match h : m.mempool.lookup (R.computeTxid tx) with
  | none | some none => exact ⟨tx, 1, by simp [addTx, fill, h]⟩
  | some (some (t, n)) => exact ⟨t, n + 1, by simp [addTx, fill, h]⟩

theorem addTx_lookup_ne (h : k ≠ R.computeTxid tx) :
    (m.addTx tx).mempool.lookup k = m.mempool.lookup k :=
  Map.lookup_upsert_ne h

theorem addTx_grows (m : JdsMempool R) (tx : Tx) : Grows m (m.addTx tx) where
  mem hk := Map.mem_upsert.mpr <| .inr hk
  fat {k} hk := by
    by_cases he : k = R.computeTxid tx
    case pos => exact he ▸ m.addTx_fat tx
    case neg => simpa only [Fat, addTx_lookup_ne he] using hk
  url := rfl

theorem updateMempool_lookup {ids : List Txid} (h : k ∈ m) :
    (m.updateMempool ids).mempool.lookup k = m.mempool.lookup k := by
  induction ids generalizing m with
  | nil => rfl
  | cons txid ids ih =>
    rw [updateMempool]
    split
    case isTrue => exact ih h
    case isFalse hn =>
      have hk : k ≠ txid := fun he => hn (he ▸ h)
      rw [ih]
      · exact AList.lookup_insert_ne hk
      · exact (AList.mem_insert _).mpr <| .inr h

theorem updateMempool_url (m : JdsMempool R) (ids : List Txid) :
    (m.updateMempool ids).url = m.url := by
  induction ids generalizing m with
  | nil => rfl
  | cons txid ids ih =>
    rw [updateMempool]
    split
    case isTrue  => exact ih m
    case isFalse => exact ih _

theorem updateMempool_grows (m : JdsMempool R) (ids : List Txid) :
    Grows m (m.updateMempool ids) where
  mem hk := by
    have ⟨_, he⟩ := Map.mem_iff_lookup.mp hk
    exact Map.mem_iff_lookup.mpr ⟨_, updateMempool_lookup hk ▸ he⟩
  fat hk := by simpa only [Fat, updateMempool_lookup hk.mem] using hk
  url := m.updateMempool_url ids

section Clear

-- What one occurrence of a dropped id does to its entry: a counter above one goes down by one, a
-- fat entry whose counter is not above one goes away, and a thin entry stays.
def release : Option (Option (Tx × UInt32)) → Option (Option (Tx × UInt32))
  | some (some (tx, counter)) => if counter > 1 then some (some (tx, counter - 1)) else none
  | entry                     => entry

def decrement (m : JdsMempool R) (txid : Txid) : JdsMempool R :=
  match h : m.mempool.lookup txid with
  | some (some (tx, counter)) =>
    if counter > 1 then
      { m with
        mempool := m.mempool.insert txid (some (tx, counter - 1))
        txid_eq k t n hk := by
          rw [Map.lookup_insert_ite] at hk
          split at hk
          case isTrue he =>
            cases hk
            exact he ▸ m.txid_eq _ _ _ h
          case isFalse => exact m.txid_eq _ _ _ hk }
    else
      { m with
        mempool := m.mempool.erase txid
        txid_eq k t n hk := by
          rw [Map.lookup_erase_ite] at hk
          split at hk
          case isTrue  => cases hk
          case isFalse => exact m.txid_eq _ _ _ hk }
  | some none | none => m

theorem decrement_lookup (m : JdsMempool R) (k : Txid) :
    (m.decrement k).mempool.lookup k = release (m.mempool.lookup k) := by
  rw [decrement]
  split
  case h_1 h =>
    simp only [h, release]
    split <;> simp
  all_goals simp_all [release]

theorem decrement_lookup_ne {txid : Txid} (h : k ≠ txid) :
    (m.decrement txid).mempool.lookup k = m.mempool.lookup k := by
  rw [decrement]
  split
  case h_1 =>
    split
    · exact AList.lookup_insert_ne h
    · exact AList.lookup_erase_ne h
  all_goals rfl

-- The body of the loop of `clear_declared_mining_job`: whether the entry is fat is read from the
-- copy taken before the loop, the counter from the mempool itself.
def clearTxid (mempoolTxs m : JdsMempool R) (oldTxid : Txid) : JdsMempool R :=
  match mempoolTxs.mempool.lookup oldTxid with
  | some (some (transaction, _)) => m.decrement (R.computeTxid transaction)
  | some none | none             => m

theorem clearTxid_url (m₀ m : JdsMempool R) (txid : Txid) : (clearTxid m₀ m txid).url = m.url := by
  rw [clearTxid]
  split
  case h_1 =>
    rw [decrement]
    split <;> try split
    all_goals rfl
  all_goals rfl

def clearTxids (m : JdsMempool R) (txids : List Txid) : JdsMempool R :=
  txids.foldl (clearTxid m) m

variable {m₀ : JdsMempool R} {txids : List Txid}

theorem clearTxid_lookup_ne {txid : Txid} (h : k ≠ txid) :
    (clearTxid m₀ m txid).mempool.lookup k = m.mempool.lookup k := by
  rw [clearTxid]
  split
  case h_1 hl => exact decrement_lookup_ne <| m₀.txid_eq _ _ _ hl ▸ h
  all_goals rfl

-- An entry that is fat in the mempool is fat in the copy, as long as the loop has not removed it.
theorem clearTxid_lookup (h : m.Fat k → m₀.Fat k) :
    (clearTxid m₀ m k).mempool.lookup k = release (m.mempool.lookup k) := by
  rw [clearTxid]
  split
  case h_1 hl => exact m₀.txid_eq _ _ _ hl ▸ decrement_lookup _ _
  all_goals
    match hm : m.mempool.lookup k with
    | none | some none => rfl
    | some (some (tx, n)) =>
      have ⟨_, _, _⟩ := h ⟨tx, n, hm⟩
      simp_all

theorem Fat.of_clearTxid {txid : Txid} (h : (clearTxid m₀ m txid).Fat k) (hm : m.Fat k → m₀.Fat k) :
    m.Fat k := by
  by_cases he : k = txid
  case neg => simpa only [Fat, clearTxid_lookup_ne he] using h
  case pos =>
    subst he
    match hl : m.mempool.lookup k with
    | none | some none    => simp_all [Fat, clearTxid_lookup hm, release]
    | some (some (tx, n)) => exact ⟨tx, n, hl⟩

theorem foldl_clearTxid_lookup (h : m.Fat k → m₀.Fat k) :
    (txids.foldl (clearTxid m₀) m).mempool.lookup k =
      release^[txids.count k] (m.mempool.lookup k) := by
  induction txids generalizing m with
  | nil => rfl
  | cons txid txids ih =>
    rw [List.foldl_cons, ih fun hf => h <| hf.of_clearTxid h]
    by_cases he : k = txid
    case pos =>
      subst he
      rw [clearTxid_lookup h, List.count_cons_self, Function.iterate_succ_apply]
    case neg => rw [clearTxid_lookup_ne he, List.count_cons_of_ne (Ne.symm he)]

theorem clearTxids_lookup (m : JdsMempool R) (txids : List Txid) (k : Txid) :
    (m.clearTxids txids).mempool.lookup k = release^[txids.count k] (m.mempool.lookup k) :=
  foldl_clearTxid_lookup id

theorem clearTxids_url (m : JdsMempool R) (txids : List Txid) : (m.clearTxids txids).url = m.url := by
  suffices h : ∀ m', (txids.foldl (clearTxid m) m').url = m'.url from h m
  induction txids with
  | nil => exact fun _ => rfl
  | cons txid txids ih => exact fun m' => (ih _).trans <| clearTxid_url m m' txid

-- An entry goes away when the dropped ids name it and its counter does not exceed their number.
def Drops (m : JdsMempool R) (txids : List Txid) (k : Txid) : Prop :=
  ∃ tx counter, m.mempool.lookup k = some (some (tx, counter)) ∧
    k ∈ txids ∧ counter.toNat ≤ txids.count k

theorem release_iterate_none (n : ℕ) : release^[n] none = (none : Option (Option (Tx × UInt32))) :=
  Function.iterate_fixed rfl n

theorem release_iterate_thin (n : ℕ) :
    release^[n] (some none) = (some none : Option (Option (Tx × UInt32))) :=
  Function.iterate_fixed rfl n

theorem release_iterate_fat {tx : Tx} {n : ℕ} {counter : UInt32} (h : n < counter.toNat) :
    release^[n] (some (some (tx, counter))) = some (some (tx, counter - .ofNat n)) := by
  induction n generalizing counter with
  | zero => simp
  | succ n ih =>
    have hc : counter > 1 := by
      rw [gt_iff_lt, UInt32.lt_iff_toNat_lt]
      simpa using Nat.lt_of_le_of_lt (Nat.le_add_left 1 n) h
    have hs : (counter - 1).toNat = counter.toNat - 1 :=
      UInt32.toNat_sub_of_le _ _ <| UInt32.le_of_lt hc
    rw [Function.iterate_succ_apply, release, if_pos hc, ih (by omega)]
    have he : counter - 1 - .ofNat n = counter - .ofNat (n + 1) := by
      rw [UInt32.ofNat_add]
      grind
    rw [he]

theorem release_iterate_fat_le {tx : Tx} {n : ℕ} {counter : UInt32} (hn : n ≠ 0)
    (h : counter.toNat ≤ n) : release^[n] (some (some (tx, counter))) = none := by
  induction n generalizing counter with
  | zero => exact absurd rfl hn
  | succ n ih =>
    rw [Function.iterate_succ_apply, release]
    split
    case isFalse => exact release_iterate_none n
    case isTrue hc =>
      have hs : (counter - 1).toNat = counter.toNat - 1 :=
        UInt32.toNat_sub_of_le _ _ <| UInt32.le_of_lt hc
      have : 1 < counter.toNat := UInt32.lt_iff_toNat_lt.mp hc
      exact ih (by omega) (by omega)

theorem mem_clearTxids : k ∈ m.clearTxids txids ↔ k ∈ m ∧ ¬m.Drops txids k := by
  rw [mem_def, mem_def, Map.mem_iff_lookup, Map.mem_iff_lookup, clearTxids_lookup]
  match h : m.mempool.lookup k with
  | none      => simp [release_iterate_none]
  | some none => simp [release_iterate_thin, Drops, h]
  | some (some (tx, counter)) =>
    by_cases hk : k ∈ txids
    case neg => simp [Drops, hk, List.count_eq_zero.mpr hk]
    case pos =>
      have hn : txids.count k ≠ 0 := by simpa [List.count_eq_zero] using hk
      by_cases hc : counter.toNat ≤ txids.count k
      case pos => simp [Drops, h, hk, hc, release_iterate_fat_le hn hc]
      case neg => simp [Drops, h, hc, release_iterate_fat (not_le.mp hc)]

theorem Fat.clearTxids (h : m.Fat k) (hd : ¬m.Drops txids k) : (m.clearTxids txids).Fat k := by
  have ⟨tx, counter, hl⟩ := h
  rw [Fat, clearTxids_lookup, hl]
  by_cases hk : k ∈ txids
  case neg => exact ⟨tx, counter, by simp [List.count_eq_zero.mpr hk]⟩
  case pos =>
    have hc : txids.count k < counter.toNat :=
      not_le.mp fun hc => hd ⟨tx, counter, hl, hk, hc⟩
    exact ⟨_, _, release_iterate_fat hc⟩

end Clear

end JdsMempool

structure AddTrasactionsToMempoolInner (Tx : Type) where
  knownTransactions   : List Txid
  unknownTransactions : List Tx
  deriving DecidableEq

-- A call of `add_tx_data_to_mempool` between two accesses of the mempool: in front of its next
-- lock, waiting for the node to answer `getrawtransaction`, or over.
inductive AddTxData (Tx : Type)
  | next (inner : AddTrasactionsToMempoolInner Tx)
  | getRawTransaction (txid : Txid) (inner : AddTrasactionsToMempoolInner Tx)
  | done (result : Except JdsMempoolError Unit)

namespace AddTxData

variable {m m' : JdsMempool R} {t t' : AddTxData Tx}

def start (m : JdsMempool R) (inner : AddTrasactionsToMempoolInner Tx) : AddTxData Tx :=
  if m.getClient.isSome then .next inner else .done (.error .noClient)

def run (m : JdsMempool R) : AddTxData Tx → Option (JdsMempool R × AddTxData Tx)
  | .next ⟨txid :: txids, transactions⟩ =>
    match m.mempool.lookup txid with
    | some none          => some (m, .getRawTransaction txid ⟨txids, transactions⟩)
    | some (some _)|none => some (m, .next ⟨txids, transactions⟩)
  | .next ⟨[], transaction :: transactions⟩ =>
    some (m.addTx transaction, .next ⟨[], transactions⟩)
  | .next ⟨[], []⟩ => some (m, .done (.ok ()))
  | .getRawTransaction .. | .done _ => none

def reply (m : JdsMempool R) (answer : Except String Tx) :
    AddTxData Tx → Option (JdsMempool R × AddTxData Tx)
  | .getRawTransaction _ inner =>
    match answer with
    | .ok transaction => some (m.addTx transaction, .next inner)
    | .error e        => some (m, .done (.error (.rpc e)))
  | .next _ | .done _ => none

theorem run_grows (h : t.run m = some (m', t')) : m.Grows m' := by
  match t with
  | .next ⟨txid :: txids, transactions⟩ =>
    rw [run] at h
    split at h <;> cases h <;> exact .refl m
  | .next ⟨[], transaction :: transactions⟩ =>
    cases h
    exact m.addTx_grows transaction
  | .next ⟨[], []⟩ =>
    cases h
    exact .refl m

theorem reply_grows {answer : Except String Tx} (h : t.reply m answer = some (m', t')) :
    m.Grows m' := by
  match t, answer with
  | .getRawTransaction _ inner, .ok transaction =>
    cases h
    exact m.addTx_grows transaction
  | .getRawTransaction _ inner, .error e =>
    cases h
    exact .refl m

end AddTxData

end Jds
