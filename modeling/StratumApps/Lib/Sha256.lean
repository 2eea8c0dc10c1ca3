import StratumApps.Lib.Wire

namespace Buffer

variable {α : Type} {n k : ℕ}

-- Overwrites the items of a buffer from an offset on.
def write (v : Vector α n) (offset : ℕ) (items : List α) : Vector α n :=
  v.mapIdx fun i a => if offset ≤ i then items.getD (i - offset) a else a

theorem getElem_write {v : Vector α n} {offset i : ℕ} {items : List α} (h : i < n) :
    (write v offset items)[i] = if offset ≤ i then items.getD (i - offset) v[i] else v[i] := by
  simp [write]

theorem toList_write {v : Vector α n} {offset : ℕ} {items : List α}
    (h : offset + items.length ≤ n) : (write v offset items).toList =
      v.toList.take offset ++ items ++ v.toList.drop (offset + items.length) := by
  refine List.ext_getElem ?_ fun i hi _ => ?_
  · simp
    omega
  · have hn : i < n := by simpa using hi
    rw [Vector.getElem_toList, getElem_write hn, List.getD_eq_getElem?_getD]
    grind

theorem toList_write_of_append {v : Vector α n} {offset : ℕ} {items front old rest : List α}
    (h : v.toList = front ++ old ++ rest) (hf : front.length = offset)
    (ho : old.length = items.length) :
    (write v offset items).toList = front ++ items ++ rest := by
  have hn : offset + items.length ≤ n := by
    have hn := congrArg List.length h
    simp only [Vector.length_toList, List.length_append] at hn
    omega
  have hd : (front ++ old ++ rest).drop (offset + items.length) = rest :=
    List.drop_left' (by simp [hf, ho])
  rw [toList_write hn, h, hd, List.append_assoc front, List.take_left' hf]

end Buffer

namespace Sha256

abbrev State := Vector UInt32 8

abbrev Block := Vector UInt8 64

def words (a b c d e f g h : UInt32) : State :=
  #v[a, b, c, d, e, f, g, h]

def initial : State :=
  words 0x6a09e667 0xbb67ae85 0x3c6ef372 0xa54ff53a 0x510e527f 0x9b05688c 0x1f83d9ab 0x5be0cd19

-- The first bytes of a message as a block.
def block (m : List UInt8) : Block :=
  .ofFn fun i => m.getD i 0

-- A one bit, zeros up to the last eight bytes of a block, and the number of bits of the message.
def padding (n : ℕ) : List UInt8 :=
  0x80 :: List.replicate ((119 - n % 64) % 64) 0 ++ Wire.bigEndian 8 (8 * n)

def digest (s : State) : List UInt8 :=
  s.toList.flatMap fun word => Wire.bigEndian 4 word.toNat

@[simp]
theorem digest_length {s : State} : (digest s).length = 32 := by
  simp [digest, List.length_flatMap, Wire.bigEndian_length]

theorem padding_of_le {n : ℕ} (h : n % 64 ≤ 55) : padding n =
    0x80 :: List.replicate (55 - n % 64) 0 ++ Wire.bigEndian 8 (8 * n) := by
  rw [padding, show (119 - n % 64) % 64 = 55 - n % 64 by omega]

theorem padding_length {n : ℕ} : (n + (padding n).length) % 64 = 0 := by
  simp only [padding, List.length_append, List.length_cons, List.length_replicate,
    Wire.bigEndian_length]
  omega

-- A block is made of the bytes of its own.
theorem block_append {m m' : List UInt8} (h : m.length = 64) : block (m ++ m') = block m := by
  refine Vector.ext fun i hi => ?_
  simp only [block, Vector.getElem_ofFn]
  exact List.getD_append _ _ _ _ (by omega)

theorem eq_block {b : Block} {m : List UInt8} (h : b.toList = m) : b = block m := by
  refine Vector.ext fun i hi => ?_
  simp [block, ← h]

section Hash

variable (compress : State → Block → State)

-- What becomes of a state over the first blocks of a message.
def absorb : ℕ → State → List UInt8 → State
  | 0, s, _     => s
  | k + 1, s, m => absorb k (compress s (block m)) (m.drop 64)

def hash (m : List UInt8) : List UInt8 :=
  let padded := m ++ padding m.length
  digest (absorb compress (padded.length / 64) initial padded)

variable {compress} {j k : ℕ} {s : State} {front rest : List UInt8}

theorem absorb_append (h : front.length = 64 * j) :
    absorb compress (j + k) s (front ++ rest) =
      absorb compress k (absorb compress j s front) rest := by
  induction j generalizing s front with
  | zero =>
    cases List.length_eq_zero_iff.mp h
    rw [Nat.zero_add, List.nil_append, absorb]
  | succ j ih =>
    have hb : block (front ++ rest) = block front := by
      rw [← List.take_append_drop 64 front, List.append_assoc, block_append (by simp; omega),
        block_append (by simp; omega)]
    rw [Nat.succ_add, absorb, absorb, hb, List.drop_append_of_le_length (by omega)]
    exact ih (by simp; omega)

-- The midstate rule: the state after the full blocks of a message and what is left of it decide the
-- hash, in one more block when the rest leaves room for the padding.
theorem hash_append (hf : front.length = 64 * j) (hr : rest.length ≤ 55) :
    hash compress (front ++ rest) = digest (compress (absorb compress j initial front)
      (block (rest ++ padding (64 * j + rest.length)))) := by
  have hm : (64 * j + rest.length) % 64 = rest.length := by omega
  have hp : (rest ++ padding (64 * j + rest.length)).length = 64 := by
    rw [padding_of_le (by omega), hm]
    simp only [List.length_append, List.length_cons, List.length_replicate, Wire.bigEndian_length]
    omega
  have hl : (front ++ rest).length = 64 * j + rest.length := by simp [hf]
  have hn : (front ++ (rest ++ padding (64 * j + rest.length))).length / 64 = j + 1 := by
    rw [List.length_append, hp, hf]
    omega
  simp only [hash, hl]
  rw [List.append_assoc, hn, absorb_append hf]
  rfl

end Hash

section Compress

-- The compression function of the standard, over the words of a block.

def roundConstants : List UInt32 := [
  0x428a2f98, 0x71374491, 0xb5c0fbcf, 0xe9b5dba5, 0x3956c25b, 0x59f111f1, 0x923f82a4, 0xab1c5ed5,
  0xd807aa98, 0x12835b01, 0x243185be, 0x550c7dc3, 0x72be5d74, 0x80deb1fe, 0x9bdc06a7, 0xc19bf174,
  0xe49b69c1, 0xefbe4786, 0x0fc19dc6, 0x240ca1cc, 0x2de92c6f, 0x4a7484aa, 0x5cb0a9dc, 0x76f988da,
  0x983e5152, 0xa831c66d, 0xb00327c8, 0xbf597fc7, 0xc6e00bf3, 0xd5a79147, 0x06ca6351, 0x14292967,
  0x27b70a85, 0x2e1b2138, 0x4d2c6dfc, 0x53380d13, 0x650a7354, 0x766a0abb, 0x81c2c92e, 0x92722c85,
  0xa2bfe8a1, 0xa81a664b, 0xc24b8b70, 0xc76c51a3, 0xd192e819, 0xd6990624, 0xf40e3585, 0x106aa070,
  0x19a4c116, 0x1e376c08, 0x2748774c, 0x34b0bcb5, 0x391c0cb3, 0x4ed8aa4a, 0x5b9cca4f, 0x682e6ff3,
  0x748f82ee, 0x78a5636f, 0x84c87814, 0x8cc70208, 0x90befffa, 0xa4506ceb, 0xbef9a3f7, 0xc67178f2]

def rotateRight (x : UInt32) (n : UInt32) : UInt32 :=
  x >>> n ||| x <<< (32 - n)

def wordAt (b : Block) (i : ℕ) : UInt32 :=
  .ofNat (Wire.value (b.toList.drop (4 * i) |>.take 4).reverse)

def smallSigma (a b c : UInt32) (x : UInt32) : UInt32 :=
  rotateRight x a ^^^ rotateRight x b ^^^ x >>> c

def bigSigma (a b c : UInt32) (x : UInt32) : UInt32 :=
  rotateRight x a ^^^ rotateRight x b ^^^ rotateRight x c

-- The message schedule, the last word first.
def extend : ℕ → List UInt32 → List UInt32
  | 0, ws     => ws
  | k + 1, ws => extend k <|
    (smallSigma 17 19 10 (ws.getD 1 0) + ws.getD 6 0 + smallSigma 7 18 3 (ws.getD 14 0) +
      ws.getD 15 0) :: ws

def schedule (b : Block) : List UInt32 :=
  (extend 48 ((List.range 16).map (wordAt b)).reverse).reverse

def round (s : State) (wk : UInt32 × UInt32) : State :=
  let a := s[0]
  let e := s[4]
  let ch := (e &&& s[5]) ^^^ (~~~e &&& s[6])
  let maj := (a &&& s[1]) ^^^ (a &&& s[2]) ^^^ (s[1] &&& s[2])
  let t₁ := s[7] + bigSigma 6 11 25 e + ch + wk.2 + wk.1
  let t₂ := bigSigma 2 13 22 a + maj
  words (t₁ + t₂) a s[1] s[2] (s[3] + t₁) e s[5] s[6]

def compress (s : State) (b : Block) : State :=
  s.zipWith (· + ·) (((schedule b).zip roundConstants).foldl round s)

example : hash compress [0x61, 0x62, 0x63] = Wire.bigEndian 32
    0xba7816bf8f01cfea414140de5dae2223b00361a396177a9cb410ff61f20015ad := by
  decide +kernel

end Compress

end Sha256
