import StratumApps.MiningDevice.Miner

open Sv2 Wire

namespace MiningDevice

variable {compress256 : Compress} {h : Header} {nonce time : UInt32}

section Words

variable {n k : ℕ} {v : Vector UInt8 n} {s : Sha256.State} {front old rest : Bytes}

theorem toList_foldl_write {ws : List UInt32} (h : v.toList = front ++ old ++ rest)
    (hf : front.length = k * 4) (ho : old.length = 4 * ws.length) :
    ((ws.zipIdx k).foldl
        (fun v w => Buffer.write v (w.2 * 4) (bigEndian 4 w.1.toNat)) v).toList =
      front ++ ws.flatMap (fun w => bigEndian 4 w.toNat) ++ rest := by
  induction ws generalizing k v front old with
  | nil          =>
    cases List.length_eq_zero_iff.mp ho
    exact h
  | cons w ws ih =>
    rw [List.length_cons] at ho
    have h' : v.toList = front ++ old.take 4 ++ (old.drop 4 ++ rest) := by
      rw [List.append_assoc front, ← List.append_assoc (old.take 4), List.take_append_drop, h,
        List.append_assoc]
    have hw : (Buffer.write v (k * 4) (bigEndian 4 w.toNat)).toList =
        front ++ bigEndian 4 w.toNat ++ (old.drop 4 ++ rest) :=
      Buffer.toList_write_of_append h' hf (by rw [List.length_take, bigEndian_length]; omega)
    rw [← List.append_assoc] at hw
    rw [List.zipIdx_cons, List.foldl_cons,
      ih hw (by rw [List.length_append, bigEndian_length]; omega) (by rw [List.length_drop]; omega),
      List.flatMap_cons, List.append_assoc front]

theorem toList_writeWords (h : v.toList = old ++ rest) (ho : old.length = 32) :
    (writeWords v s).toList = Sha256.digest s ++ rest := by
  have h' : v.toList = [] ++ old ++ rest := h
  exact toList_foldl_write h' rfl (by simpa using ho)

-- The constant bytes of a block behind the first ones.
theorem toList_write_padding {b : Sha256.Block} (h : b.toList = front ++ .replicate (64 - k) 0)
    (hf : front.length = k) (hk : k ≤ 55) :
    (Buffer.write (Buffer.write b k [0x80]) 56 (bigEndian 8 n)).toList =
      front ++ (0x80 :: .replicate (55 - k) 0 ++ bigEndian 8 n) := by
  have h₁ : b.toList = front ++ [0] ++ .replicate (63 - k) 0 := by
    rw [h, List.append_assoc, List.singleton_append, ← List.replicate_succ]
    congr 2
    omega
  have hb : (Buffer.write b k [0x80]).toList = front ++ [0x80] ++ .replicate (63 - k) 0 :=
    Buffer.toList_write_of_append h₁ hf rfl
  have h₂ : (Buffer.write b k [0x80]).toList =
      front ++ (0x80 :: .replicate (55 - k) 0) ++ .replicate 8 0 ++ [] := by
    rw [hb, show 63 - k = (55 - k) + 8 by omega, ← List.replicate_append_replicate]
    simp
  rw [Buffer.toList_write_of_append h₂ (by simp [hf]; omega) (by simp [bigEndian_length])]
  simp

end Words

section Header

theorem leBytes_length {n : UInt32} : (leBytes n).length = 4 :=
  littleEndian_length

theorem toLittleEndian_length {x : U256} : (toLittleEndian x).length = 32 :=
  littleEndian_length

namespace Header

-- The bytes of a header that are hashed once, and the end of its merkle root behind them.
def chunk0 (h : Header) : Bytes :=
  leBytes h.version ++ toLittleEndian h.prevBlockhash ++ (toLittleEndian h.merkleRoot).take 28

def merkleTail (h : Header) : Bytes :=
  (toLittleEndian h.merkleRoot).drop 28

theorem chunk0_length : h.chunk0.length = 64 := by
  simp [chunk0, leBytes_length, toLittleEndian_length]

theorem merkleTail_length : h.merkleTail.length = 4 := by
  simp [merkleTail, toLittleEndian_length]

theorem serialize_eq : h.serialize =
    h.chunk0 ++ (h.merkleTail ++ leBytes h.time ++ leBytes h.bits ++ leBytes h.nonce) := by
  simp only [serialize, chunk0, merkleTail, ← List.append_assoc]
  rw [List.append_assoc _ (List.take 28 _), List.take_append_drop]

theorem serialize_length : h.serialize.length = 80 := by
  simp [serialize, leBytes_length, toLittleEndian_length]

-- The first pass over a header goes on from the midstate.
theorem hash_serialize : Sha256.hash compress256 h.serialize =
    Sha256.digest (compress256 (compress256 Sha256.initial (Sha256.block h.chunk0)) (Sha256.block
      (h.merkleTail ++ leBytes h.time ++ leBytes h.bits ++ leBytes h.nonce ++
        Sha256.padding 80))) := by
  have hl : (h.merkleTail ++ leBytes h.time ++ leBytes h.bits ++ leBytes h.nonce).length = 16 := by
    simp [merkleTail_length, leBytes_length]
  have hc : h.chunk0.length = 64 * 1 := chunk0_length
  rw [serialize_eq, Sha256.hash_append hc (by omega), hl]
  rfl

end Header

theorem hash_digest {s : Sha256.State} : Sha256.hash compress256 (Sha256.digest s) =
    Sha256.digest (compress256 Sha256.initial
      (Sha256.block (Sha256.digest s ++ Sha256.padding 32))) := by
  have hn : ([] : Bytes).length = 64 * 0 := rfl
  have hr : (Sha256.digest s).length ≤ 55 := by simp
  have h : Sha256.hash compress256 ([] ++ Sha256.digest s) = _ := Sha256.hash_append hn hr
  rwa [Sha256.digest_length] at h

end Header

namespace FastSha256d

variable {fast : FastSha256d}

-- What a hasher of a header keeps, whatever it has hashed: the midstate, and all bytes of the two
-- blocks but the time, the nonce and the first digest.
structure Of (compress256 : Compress) (h : Header) (fast : FastSha256d) : Prop where
  state0      : fast.state0 = compress256 Sha256.initial (Sha256.block h.chunk0)
  block1      : ∃ time nonce : UInt32, fast.block1.toList =
    h.merkleTail ++ leBytes time ++ leBytes h.bits ++ leBytes nonce ++ Sha256.padding 80
  secondBlock : ∃ old, old.length = 32 ∧ fast.secondBlock.toList = old ++ Sha256.padding 32

theorem fromHeaderStatic_of : (fromHeaderStatic compress256 h).Of compress256 h where
  state0      := by
    have hz : (zeros 64).toList = [] ++ .replicate 64 0 ++ [] := rfl
    have hs : h.serialize.take 64 = h.chunk0 := by
      rw [Header.serialize_eq, List.take_left' Header.chunk0_length]
    have hb : (Buffer.write (zeros 64) 0 h.chunk0).toList = [] ++ h.chunk0 ++ [] :=
      Buffer.toList_write_of_append hz rfl (by simp [Header.chunk0_length])
    simp only [fromHeaderStatic, hs]
    exact congrArg _ (Sha256.eq_block (by simpa using hb))
  block1      := by
    have hz : (zeros 64).toList = [] ++ .replicate 16 0 ++ .replicate 48 0 := rfl
    have hs : h.serialize.drop 64 =
        h.merkleTail ++ leBytes h.time ++ leBytes h.bits ++ leBytes h.nonce := by
      rw [Header.serialize_eq, List.drop_left' Header.chunk0_length]
    have hl : (h.serialize.drop 64).length = 16 := by simp [Header.serialize_length]
    have hb : (Buffer.write (zeros 64) 0 (h.serialize.drop 64)).toList =
        h.serialize.drop 64 ++ .replicate 48 0 :=
      Buffer.toList_write_of_append hz rfl (by simp [hl])
    refine ⟨h.time, h.nonce, (toList_write_padding hb hl (by decide)).trans ?_⟩
    rw [hs, Sha256.padding_of_le (by decide)]
  secondBlock := by
    have hz : (zeros 64).toList = .replicate 32 0 ++ .replicate (64 - 32) 0 := rfl
    refine ⟨.replicate 32 0, rfl, (toList_write_padding hz rfl (by decide)).trans ?_⟩
    rw [Sha256.padding_of_le (by decide)]

theorem Of.hash (ho : fast.Of compress256 h) :
    (fast.hashWithNonceTime compress256 nonce time).2.Of compress256 h ∧
    (fast.hashWithNonceTime compress256 nonce time).1.toList =
      sha256d compress256 { h with nonce := nonce, time := time }.serialize := by
  obtain ⟨hs, ⟨time', nonce', hb⟩, old, hl, hd⟩ := ho
  have hb₀ : fast.block1.toList = h.merkleTail ++ leBytes time' ++
      (leBytes h.bits ++ leBytes nonce' ++ Sha256.padding 80) := by
    simp [hb]
  have hb₁ : (Buffer.write fast.block1 4 (leBytes time)).toList =
      h.merkleTail ++ leBytes time ++ leBytes h.bits ++ leBytes nonce' ++ Sha256.padding 80 := by
    rw [Buffer.toList_write_of_append hb₀ Header.merkleTail_length
      (leBytes_length.trans leBytes_length.symm)]
    simp
  have hb₂ : (Buffer.write (Buffer.write fast.block1 4 (leBytes time)) 12 (leBytes nonce)).toList =
      h.merkleTail ++ leBytes time ++ leBytes h.bits ++ leBytes nonce ++ Sha256.padding 80 :=
    Buffer.toList_write_of_append hb₁ (by simp [Header.merkleTail_length, leBytes_length])
      (leBytes_length.trans leBytes_length.symm)
  have hd₁ : ∀ s, (writeWords fast.secondBlock s).toList = Sha256.digest s ++ Sha256.padding 32 :=
    fun _ => toList_writeWords hd hl
  have hz : (zeros 32).toList = .replicate 32 0 ++ [] := rfl
  refine ⟨⟨hs, ⟨time, nonce, hb₂⟩, _, Sha256.digest_length, hd₁ _⟩, ?_⟩
  rw [sha256d, Header.hash_serialize, hash_digest]
  simp only [hashWithNonceTime]
  rw [toList_writeWords hz (by decide), List.append_nil, Sha256.eq_block (hd₁ _),
    Sha256.eq_block hb₂, hs]
  rfl

-- A hasher after the tries of some nonces and times.
def tries (compress256 : Compress) (fast : FastSha256d) (tried : List (UInt32 × UInt32)) :
    FastSha256d :=
  tried.foldl (fun fast try_ => (fast.hashWithNonceTime compress256 try_.1 try_.2).2) fast

-- The time and the nonce of the header that a hasher is made from are not in it.
theorem Of.with (ho : fast.Of compress256 h) (nonce time : UInt32) :
    fast.Of compress256 { h with nonce := nonce, time := time } :=
  ⟨ho.state0, ho.block1, ho.secondBlock⟩

theorem Of.tries {tried : List (UInt32 × UInt32)} (ho : fast.Of compress256 h) :
    (fast.tries compress256 tried).Of compress256 h := by
  induction tried generalizing fast with
  | nil            => exact ho
  | cons try_ tried ih => exact ih ho.hash.left

end FastSha256d

section Compare

variable {a b : Bytes} {n : ℕ} {hash : Hash} {t : U256}

theorem value_take_succ (h : 4 * n ≤ a.length) :
    value (a.take (4 * (n + 1))) = value (a.take (4 * n)) + 256 ^ (4 * n) * wordLe a n := by
  rw [Nat.mul_succ, List.take_add, value_append, List.length_take, Nat.min_eq_left h, wordLe]

theorem value_take_lt (h : 4 * n ≤ a.length) : value (a.take (4 * n)) < 256 ^ (4 * n) := by
  have hv : value (a.take (4 * n)) < 256 ^ (a.take (4 * n)).length := value_lt
  rwa [List.length_take, Nat.min_eq_left h] at hv

-- The most significant words decide, as long as they differ.
theorem compareWords_eq (ha : 4 * n ≤ a.length) (hb : 4 * n ≤ b.length) :
    compareWords a b n = (decide (value (a.take (4 * n)) < value (b.take (4 * n))),
      decide (value (a.take (4 * n)) = value (b.take (4 * n)))) := by
  induction n with
  | zero      => rfl
  | succ n ih =>
    have hla : value (a.take (4 * n)) < 256 ^ (4 * n) := value_take_lt (by omega)
    have hlb : value (b.take (4 * n)) < 256 ^ (4 * n) := value_take_lt (by omega)
    rw [value_take_succ (by omega), value_take_succ (by omega), compareWords]
    have hmul : ∀ {x y : ℕ}, x < y → 256 ^ (4 * n) * x + 256 ^ (4 * n) ≤ 256 ^ (4 * n) * y :=
      fun h => Nat.mul_succ _ _ ▸ Nat.mul_le_mul_left _ h
    split
    case h_1 hc =>
      have hw := hmul (compare_lt_iff_lt.mp hc)
      rw [decide_eq_true (by omega), decide_eq_false (by omega)]
    case h_2 hc =>
      have hw := hmul (compare_gt_iff_gt.mp hc)
      rw [decide_eq_false (by omega), decide_eq_false (by omega)]
    case h_3 hc =>
      rw [ih (by omega) (by omega), compare_eq_iff_eq.mp hc]
      simp

theorem toLittleEndian_value : value (toLittleEndian t) = t.toNat :=
  value_littleEndian (by simpa using t.isLt)

theorem compareWords_target : compareWords hash.toList (toLittleEndian t) 8 =
    (decide (value hash.toList < t.toNat), decide (value hash.toList = t.toNat)) := by
  have hl : hash.toList.length = 32 := by simp
  have ht : (toLittleEndian t).length = 32 := toLittleEndian_length
  rw [compareWords_eq (by omega) (by omega), List.take_of_length_le (by omega),
    List.take_of_length_le (by omega), toLittleEndian_value]

theorem hashMeetsTargetLe_iff :
    hashMeetsTargetLe hash (toLittleEndian t) = true ↔ value hash.toList ≤ t.toNat := by
  simp [hashMeetsTargetLe, compareWords_target, Nat.le_iff_lt_or_eq]

end Compare

namespace Miner

variable {m : Miner} {header : Header} {fast : FastSha256d} {t : U256}

-- The miner changes in its hasher only.
theorem nextShare_of (hh : m.header = some header) (ht : m.target = some t)
    (hf : m.fastHasher = some fast) (ho : fast.Of compress256 header) :
    ∃ fast', fast'.Of compress256 header ∧ m.nextShare compress256 =
      (if value (sha256d compress256 header.serialize) ≤ t.toNat then .validShare else .invalidShare,
        { m with fastHasher := some fast' }) := by
  refine ⟨(fast.hashWithNonceTime compress256 header.nonce header.time).2, ho.hash.left, ?_⟩
  have hv : (fast.hashWithNonceTime compress256 header.nonce header.time).1.toList =
      sha256d compress256 header.serialize := ho.hash.right
  simp only [nextShare, hh, hashHeader, hf, ht, compareWords_target]
  rw [hv]
  rcases Nat.lt_or_ge t.toNat (value (sha256d compress256 header.serialize)) with hlt | hle
  case inl =>
    rw [if_neg (by simp; omega), if_neg (by omega)]
  case inr =>
    rw [if_pos (by simp; omega), if_pos hle]

end Miner

-- The first block of the chain.
example :
    let header : Header := {
      version       := 1
      prevBlockhash := 0
      merkleRoot    := 0x4a5e1e4baab89f3a32518a88c31bc87f618f76673e2cc77ab2127b7afdeda33b
      time          := 1231006505
      bits          := 0x1d00ffff
      nonce         := 0 }
    let fast := FastSha256d.fromHeaderStatic Sha256.compress header
    value (fast.hashWithNonceTime Sha256.compress 2083236893 header.time).1.toList =
      0x000000000019d6689c085ae165831e934ff763ae46a2a6c172b3f1b60a8ce26f := by
  decide +kernel

end MiningDevice
