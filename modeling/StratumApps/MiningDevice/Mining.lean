import StratumApps.MiningDevice.Hashing

open Sv2 Wire

namespace MiningDevice

structure Share where
  nonce   : UInt32
  jobId   : JobId
  version : UInt32
  time    : UInt32
  deriving DecidableEq

-- A mining thread: its miner, the nonces whose hash it has compared with the target, and the shares
-- it has sent.
structure Worker where
  miner  : Miner
  tested : List UInt32
  sent   : List Share

def Miner.mapNonce (m : Miner) (f : UInt32 → UInt32) : Miner :=
  { m with header := m.header.map fun h => { h with nonce := f h.nonce } }

-- The nonces from a first one on, which wrap around.
def window (start : UInt32) (n : ℕ) : List UInt32 :=
  (List.range n).map fun i => start + .ofNat i

namespace Worker

variable (compress256 : Compress)

-- The loop over the nonces of a batch, which stops at the first hit: the hit, the nonces it has
-- tested, and the hasher.
def search (tgtLe : Bytes) (time : UInt32) (fast : FastSha256d) :
    List UInt32 → Option UInt32 × List UInt32 × FastSha256d
  | []              => (none, [], fast)
  | nonce :: nonces =>
    let (hash, fast) := fast.hashWithNonceTime compress256 nonce time
    if hashMeetsTargetLe hash tgtLe then
      (some nonce, [nonce], fast)
    else
      let (found, tested, fast) := search tgtLe time fast nonces
      (found, nonce :: tested, fast)

-- A panic when the miner has a header but no job.
def send (w : Worker) (nonce time : UInt32) : Option Worker := do
  let jobId ← w.miner.jobId
  let version ← w.miner.version
  return { w with sent := w.sent ++ [⟨nonce, jobId, version, time⟩] }

def mineBatch (batch : UInt32) (header : Header) (target : U256) (fast : FastSha256d) (w : Worker) :
    Option Worker := do
  let start := header.nonce
  let (found, tested, fast) := search compress256 (toLittleEndian target) header.time fast
    (window start batch.toNat)
  let w := { w with
    miner  := { w.miner with fastHasher := some fast }
    tested := w.tested ++ tested }
  let w ← match found with
    | none       => some w
    | some nonce =>
      let w := { w with miner := w.miner.mapNonce fun _ => nonce }
      w.send nonce header.time
  return { w with miner := w.miner.mapNonce fun _ => start + batch }

-- The pass of the loop that tests one nonce.
def minePlain (w : Worker) : Option Worker := do
  let (outcome, miner) := w.miner.nextShare compress256
  let tested := match outcome with
    | .validShare | .invalidShare => (miner.header.map Header.nonce).toList
    | .noTarget | .noHeader       => []
  let w := { w with miner := miner, tested := w.tested ++ tested }
  let w ←
    if outcome.isValid then do
      let header ← w.miner.header
      w.send header.nonce header.time
    else
      some w
  return { w with miner := w.miner.mapNonce (· + 1) }

-- A pass of the loop of a thread that has not been killed.
def mine (batch : UInt32) (w : Worker) : Option Worker :=
  match w.miner.fastHasher, w.miner.target, w.miner.header with
  | some fast, some target, some header => w.mineBatch compress256 batch header target fast
  | _, _, _                             => w.minePlain compress256

def passes (pass : Worker → Option Worker) : ℕ → Worker → Option Worker
  | 0, w     => some w
  | k + 1, w => (pass w).bind (passes pass k)

end Worker

section Hits

variable {α : Type} {p : α → Bool} {l : List α}

-- A list up to its first hit.
def upToHit (p : α → Bool) : List α → List α
  | []     => []
  | a :: l => if p a then [a] else a :: upToHit p l

theorem upToHit_length_le : (upToHit p l).length ≤ l.length := by
  induction l with
  | nil         => exact Nat.le_refl _
  | cons a l ih =>
    rw [upToHit]
    split
    · simp
    · simpa using ih

theorem upToHit_eq_iff : upToHit p l = l ↔ ∀ a ∈ l.dropLast, p a = false := by
  induction l with
  | nil         => simp [upToHit]
  | cons a l ih =>
    cases l with
    | nil      => simp [upToHit]
    | cons b l =>
      rw [upToHit, List.dropLast_cons_cons, List.forall_mem_cons]
      split
      case isTrue h  => simp [h]
      case isFalse h => simpa [h] using ih

end Hits

section Window

variable {start : UInt32} {m n : ℕ}

theorem window_length : (window start n).length = n := by
  simp [window]

theorem window_add : window start (m + n) = window start m ++ window (start + .ofNat m) n := by
  simp only [window, List.range_add, List.map_append, List.map_map]
  refine congrArg₂ _ rfl (List.map_congr_left fun i _ => ?_)
  simp [UInt32.ofNat_add, UInt32.add_assoc]

theorem window_one : window start 1 = [start] := by
  simp [window]

theorem mem_dropLast_window {a : UInt32} :
    a ∈ (window start n).dropLast ↔ ∃ i, i + 1 < n ∧ a = start + .ofNat i := by
  cases n with
  | zero   => simp [window]
  | succ n =>
    have hd : (window start (n + 1)).dropLast = window start n := by
      rw [window_add, window_one, List.dropLast_concat]
    rw [hd]
    simp [window, eq_comm]

end Window

namespace Worker

variable {compress256 : Compress} {h : Header} {t : U256} {jobId : JobId} {version nonce : UInt32}
variable {w w' w₁ w₂ : Worker} {batch : UInt32} {k : ℕ}

-- Whether a nonce meets the target, by the definition of the hash.
def meets (compress256 : Compress) (h : Header) (t : U256) (nonce : UInt32) : Bool :=
  value (sha256d compress256 { h with nonce := nonce }.serialize) ≤ t.toNat

-- A worker on a job and a header, at a nonce.
structure Mines (compress256 : Compress) (h : Header) (t : U256) (jobId : JobId) (version : UInt32)
    (nonce : UInt32) (w : Worker) : Prop where
  header     : w.miner.header = some { h with nonce := nonce }
  target     : w.miner.target = some t
  jobId      : w.miner.jobId = some jobId
  version    : w.miner.version = some version
  fastHasher : ∃ fast, w.miner.fastHasher = some fast ∧ fast.Of compress256 h

def shares (compress256 : Compress) (h : Header) (t : U256) (jobId : JobId) (version : UInt32)
    (nonces : List UInt32) : List Share :=
  (nonces.filter (meets compress256 h t)).map fun nonce => ⟨nonce, jobId, version, h.time⟩

-- From one worker to the other, these nonces have been tested, and those that meet the target sent.
structure Tests (compress256 : Compress) (h : Header) (t : U256) (jobId : JobId) (version : UInt32)
    (nonces : List UInt32) (w w' : Worker) : Prop where
  tested : w'.tested = w.tested ++ nonces
  sent   : w'.sent = w.sent ++ shares compress256 h t jobId version nonces

theorem search_of {fast : FastSha256d} {nonces : List UInt32} (ho : fast.Of compress256 h) :
    ∃ fast', fast'.Of compress256 h ∧
      search compress256 (toLittleEndian t) h.time fast nonces =
        (nonces.find? (meets compress256 h t), upToHit (meets compress256 h t) nonces, fast') := by
  induction nonces generalizing fast with
  | nil                 => exact ⟨fast, ho, rfl⟩
  | cons nonce nonces ih =>
    have ho' : (fast.hashWithNonceTime compress256 nonce h.time).2.Of compress256 h := ho.hash.left
    have hh : (fast.hashWithNonceTime compress256 nonce h.time).1.toList =
        sha256d compress256 { h with nonce := nonce }.serialize := ho.hash.right
    have hm : hashMeetsTargetLe (fast.hashWithNonceTime compress256 nonce h.time).1
        (toLittleEndian t) = meets compress256 h t nonce := by
      rw [Bool.eq_iff_iff, hashMeetsTargetLe_iff, hh]
      simp [meets]
    simp only [search, hm, upToHit]
    cases hc : meets compress256 h t nonce with
    | true  => exact ⟨_, ho', by simp [hc]⟩
    | false =>
      have ⟨fast', hf, hs⟩ := ih ho'
      exact ⟨fast', hf, by simp [hc, hs]⟩

theorem shares_upToHit {nonces : List UInt32} :
    shares compress256 h t jobId version (upToHit (meets compress256 h t) nonces) =
      ((nonces.find? (meets compress256 h t)).map fun nonce =>
        ⟨nonce, jobId, version, h.time⟩).toList := by
  induction nonces with
  | nil                 => rfl
  | cons nonce nonces ih =>
    cases hc : meets compress256 h t nonce with
    | true  => simp [upToHit, shares, hc]
    | false => simpa [upToHit, shares, hc] using ih

theorem Tests.refl : Tests compress256 h t jobId version [] w w :=
  ⟨by simp, by simp [shares]⟩

theorem Tests.trans {nonces nonces' : List UInt32}
    (h₁ : Tests compress256 h t jobId version nonces w w₁)
    (h₂ : Tests compress256 h t jobId version nonces' w₁ w₂) :
    Tests compress256 h t jobId version (nonces ++ nonces') w w₂ :=
  ⟨by rw [h₂.tested, h₁.tested, List.append_assoc],
    by simp [h₂.sent, h₁.sent, shares]⟩

theorem send_of (hj : w.miner.jobId = some jobId) (hv : w.miner.version = some version)
    {time : UInt32} : w.send nonce time =
      some { w with sent := w.sent ++ [⟨nonce, jobId, version, time⟩] } := by
  simp [send, hj, hv]

-- A pass of the batched loop tests its window up to the first hit, and goes on behind the window.
theorem mine_pass (hw : w.Mines compress256 h t jobId version nonce) : ∃ w',
    w.mine compress256 batch = some w' ∧
    w'.Mines compress256 h t jobId version (nonce + batch) ∧
    Tests compress256 h t jobId version
      (upToHit (meets compress256 h t) (window nonce batch.toNat)) w w' := by
  obtain ⟨hh, ht, hj, hv, fast, hf, ho⟩ := hw
  obtain ⟨fast', ho', hs⟩ : ∃ fast' : FastSha256d, fast'.Of compress256 h ∧
    search compress256 (toLittleEndian t) h.time fast (window nonce batch.toNat) = _ := search_of ho
  have hm : w.mine compress256 batch =
      w.mineBatch compress256 batch { h with nonce := nonce } t fast := by
    simp only [mine, hf, ht, hh]
  rw [hm]
  cases hc : (window nonce batch.toNat).find? (meets compress256 h t) with
  | none =>
    simp only [mineBatch, hs, hc]
    refine ⟨_, rfl, ?_, rfl, ?_⟩
    · exact ⟨by simp [Miner.mapNonce, hh], ht, hj, hv, fast', rfl, ho'⟩
    · simp [shares_upToHit, hc]
  | some hit =>
    simp only [mineBatch, hs, hc]
    rw [send_of (by exact hj) (by exact hv)]
    refine ⟨_, rfl, ?_, rfl, ?_⟩
    · exact ⟨by simp [Miner.mapNonce, hh], ht, hj, hv, fast', rfl, ho'⟩
    · simp [shares_upToHit, hc]

theorem minePlain_pass (hw : w.Mines compress256 h t jobId version nonce) : ∃ w',
    w.minePlain compress256 = some w' ∧
    w'.Mines compress256 h t jobId version (nonce + 1) ∧
    Tests compress256 h t jobId version [nonce] w w' := by
  obtain ⟨hh, ht, hj, hv, fast, hf, ho⟩ := hw
  obtain ⟨fast', ho', hn⟩ : ∃ fast' : FastSha256d, fast'.Of compress256 _ ∧
    w.miner.nextShare compress256 = _ := Miner.nextShare_of hh ht hf (ho.with nonce h.time)
  cases hc : meets compress256 h t nonce with
  | true  =>
    have hm := of_decide_eq_true hc
    simp only [minePlain, hn, if_pos hm, NextShareOutcome.isValid, hh, ↓reduceIte,
      Option.bind_eq_bind, Option.bind_some]
    rw [send_of (by exact hj) (by exact hv)]
    refine ⟨_, rfl, ?_, rfl, ?_⟩
    · exact ⟨by simp [Miner.mapNonce], ht, hj, hv, fast', rfl, ho'.with h.nonce h.time⟩
    · simp [shares, hc]
  | false =>
    have hm := of_decide_eq_false hc
    simp only [minePlain, hn, if_neg hm, NextShareOutcome.isValid, hh]
    refine ⟨_, rfl, ?_, rfl, ?_⟩
    · exact ⟨by simp [Miner.mapNonce], ht, hj, hv, fast', rfl, ho'.with h.nonce h.time⟩
    · simp [shares, hc]

-- What `k` passes of the batched loop test.
def batches (compress256 : Compress) (h : Header) (t : U256) (batch : UInt32) :
    ℕ → UInt32 → List UInt32
  | 0, _         => []
  | k + 1, nonce =>
    upToHit (meets compress256 h t) (window nonce batch.toNat) ++
      batches compress256 h t batch k (nonce + batch)

theorem mine_passes (hw : w.Mines compress256 h t jobId version nonce) : ∃ w',
    passes (mine compress256 batch) k w = some w' ∧
    Tests compress256 h t jobId version (batches compress256 h t batch k nonce) w w' := by
  induction k generalizing w nonce with
  | zero      => exact ⟨w, rfl, .refl⟩
  | succ k ih =>
    obtain ⟨w₁, hp, hw₁, h₁⟩ := mine_pass hw
    obtain ⟨w₂, hps, h₂⟩ := ih hw₁
    exact ⟨w₂, by simp [passes, hp, hps], h₁.trans h₂⟩

theorem minePlain_passes (hw : w.Mines compress256 h t jobId version nonce) : ∃ w',
    passes (minePlain compress256) k w = some w' ∧
    Tests compress256 h t jobId version (window nonce k) w w' := by
  induction k generalizing w nonce with
  | zero      => exact ⟨w, rfl, .refl⟩
  | succ k ih =>
    obtain ⟨w₁, hp, hw₁, h₁⟩ := minePlain_pass hw
    obtain ⟨w₂, hps, h₂⟩ := ih hw₁
    refine ⟨w₂, by simp [passes, hp, hps], ?_⟩
    rw [Nat.add_comm, window_add, window_one]
    exact h₁.trans h₂

-- A hit can only be the last nonce of a window.
def OnlyLast (compress256 : Compress) (h : Header) (t : U256) (batch : UInt32) (k : ℕ)
    (start : UInt32) : Prop :=
  ∀ n < k * batch.toNat, meets compress256 h t (start + .ofNat n) → batch.toNat ∣ n + 1

theorem batches_length_le :
    (batches compress256 h t batch k nonce).length ≤ k * batch.toNat := by
  induction k generalizing nonce with
  | zero      => simp [batches]
  | succ k ih =>
    have hl := upToHit_length_le (p := meets compress256 h t) (l := window nonce batch.toNat)
    rw [window_length] at hl
    rw [batches, List.length_append, Nat.succ_mul, Nat.add_comm]
    exact Nat.add_le_add ih hl

theorem window_succ_mul : window nonce ((k + 1) * batch.toNat) =
    window nonce batch.toNat ++ window (nonce + batch) (k * batch.toNat) := by
  rw [Nat.succ_mul, Nat.add_comm, window_add, UInt32.ofNat_toNat]

theorem batches_succ_eq_window :
    batches compress256 h t batch (k + 1) nonce = window nonce ((k + 1) * batch.toNat) ↔
      upToHit (meets compress256 h t) (window nonce batch.toNat) = window nonce batch.toNat ∧
      batches compress256 h t batch k (nonce + batch) =
        window (nonce + batch) (k * batch.toNat) := by
  rw [batches, window_succ_mul]
  constructor
  case mpr =>
    rintro ⟨h₁, h₂⟩
    rw [h₁, h₂]
  case mp =>
    intro heq
    have hl := upToHit_length_le (p := meets compress256 h t) (l := window nonce batch.toNat)
    have hk : (batches compress256 h t batch k (nonce + batch)).length ≤ k * batch.toNat :=
      batches_length_le
    have hlen := congrArg List.length heq
    simp only [List.length_append, window_length] at hlen hl
    exact List.append_inj heq (by rw [window_length]; omega)

theorem onlyLast_succ : OnlyLast compress256 h t batch (k + 1) nonce ↔
    (∀ a ∈ (window nonce batch.toNat).dropLast, meets compress256 h t a = false) ∧
      OnlyLast compress256 h t batch k (nonce + batch) := by
  have hb : ∀ n, nonce + batch + .ofNat n = nonce + .ofNat (batch.toNat + n) := by
    intro n
    rw [UInt32.ofNat_add, UInt32.ofNat_toNat, UInt32.add_assoc]
  simp only [OnlyLast, Nat.succ_mul, hb]
  constructor
  case mp =>
    intro ho
    refine ⟨fun a ha => ?_, fun n hn hm => ?_⟩
    · obtain ⟨i, hi, rfl⟩ := mem_dropLast_window.mp ha
      cases hm : meets compress256 h t (nonce + .ofNat i) with
      | false => rfl
      | true  => exact absurd (Nat.le_of_dvd (by omega) (ho i (by omega) hm)) (by omega)
    · have hd := ho (batch.toNat + n) (by omega) hm
      rwa [Nat.add_assoc, Nat.dvd_add_right (Nat.dvd_refl _)] at hd
  case mpr =>
    rintro ⟨hf, ho⟩ n hn hm
    rcases Nat.lt_or_ge n batch.toNat with hlt | hge
    case inl =>
      rcases Nat.lt_or_ge (n + 1) batch.toNat with hi | hi
      · exact absurd hm (by simp [hf _ (mem_dropLast_window.mpr ⟨n, hi, rfl⟩)])
      · rw [show n + 1 = batch.toNat by omega]
    case inr =>
      obtain ⟨i, rfl⟩ := Nat.exists_eq_add_of_le hge
      rw [Nat.add_assoc, Nat.dvd_add_right (Nat.dvd_refl _)]
      exact ho i (by omega) hm

theorem batches_eq_window :
    batches compress256 h t batch k nonce = window nonce (k * batch.toNat) ↔
      OnlyLast compress256 h t batch k nonce := by
  induction k generalizing nonce with
  | zero      => simp [batches, window, OnlyLast]
  | succ k ih => rw [batches_succ_eq_window, ih, upToHit_eq_iff, onlyLast_succ]

-- A run of `k` passes of the batched loop against the plain loop over the nonces of its windows: it
-- tests each of them once, in order, and sends the same shares.
def SameAsPlain (compress256 : Compress) (batch : UInt32) (k : ℕ) (w : Worker) : Prop :=
  ∃ w₁ w₂, passes (mine compress256 batch) k w = some w₁ ∧
    passes (minePlain compress256) (k * batch.toNat) w = some w₂ ∧
    w₁.tested = w₂.tested ∧ w₁.sent = w₂.sent

theorem Mines.same_iff (hw : w.Mines compress256 h t jobId version nonce) :
    SameAsPlain compress256 batch k w ↔ OnlyLast compress256 h t batch k nonce := by
  obtain ⟨w₁, hp₁, h₁⟩ : ∃ w₁, passes (mine compress256 batch) k w = some w₁ ∧ _ := mine_passes hw
  obtain ⟨w₂, hp₂, h₂⟩ : ∃ w₂, passes (minePlain compress256) (k * batch.toNat) w = some w₂ ∧ _ :=
    minePlain_passes hw
  rw [← batches_eq_window]
  constructor
  case mp =>
    rintro ⟨_, _, h₁', h₂', ht, _⟩
    cases hp₁.symm.trans h₁'
    cases hp₂.symm.trans h₂'
    rw [h₁.tested, h₂.tested] at ht
    exact List.append_cancel_left ht
  case mpr =>
    intro heq
    refine ⟨w₁, w₂, hp₁, hp₂, ?_, ?_⟩
    · rw [h₁.tested, h₂.tested, heq]
    · rw [h₁.sent, h₂.sent, heq]

-- A thread that has been given a miner with a job, at a nonce.
def start (compress256 : Compress) (h : Header) (t : U256) (m : Miner) (jobId : JobId)
    (version nonce : UInt32) : Worker where
  miner  := { m with
    header     := some { h with nonce := nonce }
    target     := some t
    jobId      := some jobId
    version    := some version
    fastHasher := some (.fromHeaderStatic compress256 h) }
  tested := []
  sent   := []

theorem start_mines {m : Miner} :
    (start compress256 h t m jobId version nonce).Mines compress256 h t jobId version nonce :=
  ⟨rfl, rfl, rfl, rfl, _, rfl, FastSha256d.fromHeaderStatic_of⟩

theorem sameAsPlain_iff (h : Header) (t : U256) (m : Miner) (jobId : JobId)
    (version nonce batch : UInt32) (k : ℕ) :
    SameAsPlain compress256 batch k (start compress256 h t m jobId version nonce) ↔
      OnlyLast compress256 h t batch k nonce :=
  start_mines.same_iff

-- Every nonce meets the greatest target.
theorem meets_allOnes : meets compress256 h (BitVec.allOnes 256) nonce = true := by
  refine decide_eq_true ?_
  have hv : value (sha256d compress256 { h with nonce := nonce }.serialize) <
      256 ^ (sha256d compress256 { h with nonce := nonce }.serialize).length := value_lt
  have hl : (sha256d compress256 { h with nonce := nonce }.serialize).length = 32 :=
    Sha256.digest_length
  simp only [hl] at hv
  rw [BitVec.toNat_allOnes]
  omega

theorem not_sameAsPlain :
    ¬∀ (h : Header) (t : U256) (m : Miner) (jobId : JobId) (version nonce batch : UInt32) (k : ℕ),
      SameAsPlain Sha256.compress batch k (start Sha256.compress h t m jobId version nonce) := by
  intro hs
  have ho := start_mines.same_iff.mp
    (hs ⟨1, 0, 0, 1231006505, 0x1d00ffff, 0⟩ (BitVec.allOnes 256) (.new 0) 1 1 0 2 1)
  exact absurd (ho 0 (by decide) meets_allOnes) (by decide)

end Worker

end MiningDevice
