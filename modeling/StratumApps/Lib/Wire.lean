import Mathlib

namespace Wire

-- Numbers as bytes, the least significant byte first.
def littleEndian : ℕ → ℕ → List UInt8
  | 0, _     => []
  | k + 1, n => .ofNat (n % 256) :: littleEndian k (n / 256)

def bigEndian (k n : ℕ) : List UInt8 :=
  (littleEndian k n).reverse

def value : List UInt8 → ℕ
  | []      => 0
  | b :: bs => b.toNat + 256 * value bs

@[simp]
theorem littleEndian_length {k n : ℕ} : (littleEndian k n).length = k := by
  induction k generalizing n with
  | zero      => rfl
  | succ k ih => simp [littleEndian, ih]

theorem value_littleEndian {k n : ℕ} (h : n < 256 ^ k) : value (littleEndian k n) = n := by
  induction k generalizing n with
  | zero =>
    rw [pow_zero, Nat.lt_one_iff] at h
    subst h
    rfl
  | succ k ih =>
    have hn : n / 256 < 256 ^ k := by
      rw [Nat.div_lt_iff_lt_mul (by decide), ← pow_succ]
      exact h
    simp only [littleEndian, value, ih hn, UInt8.toNat_ofNat']
    omega

theorem value_append {as bs : List UInt8} :
    value (as ++ bs) = value as + 256 ^ as.length * value bs := by
  induction as with
  | nil         => simp [value]
  | cons a as ih =>
    rw [List.cons_append, value, value, ih, List.length_cons, pow_succ]
    ring

theorem value_lt {bs : List UInt8} : value bs < 256 ^ bs.length := by
  induction bs with
  | nil          => simp [value]
  | cons b bs ih =>
    have hb := b.toNat_lt
    rw [value, List.length_cons, pow_succ]
    omega

theorem bigEndian_length {k n : ℕ} : (bigEndian k n).length = k := by
  rw [bigEndian, List.length_reverse, littleEndian_length]

variable {α : Type} {encode : α → List UInt8} {decode : List UInt8 → Option (α × List UInt8)}

-- The first bytes of a string and what follows them.
def take (n : ℕ) (bytes : List UInt8) : Option (List UInt8 × List UInt8) :=
  if n ≤ bytes.length then some (bytes.take n, bytes.drop n) else none

theorem take_append {front rest : List UInt8} {n : ℕ} (h : front.length = n) :
    take n (front ++ rest) = some (front, rest) := by
  subst h
  simp [take]

theorem take_eq_some {bytes front rest : List UInt8} {n : ℕ}
    (h : take n bytes = some (front, rest)) : front.length = n := by
  simp only [take, Option.ite_none_right_eq_some, Option.some_inj, Prod.mk.injEq] at h
  obtain ⟨hn, rfl, _⟩ := h
  simpa using hn

-- A run of items, one after the other.
def decodeMany (decode : List UInt8 → Option (α × List UInt8)) :
    ℕ → List UInt8 → Option (List α × List UInt8)
  | 0, bytes     => some ([], bytes)
  | n + 1, bytes => do
    let (a, bytes) ← decode bytes
    let (as, bytes) ← decodeMany decode n bytes
    return (a :: as, bytes)

theorem decodeMany_flatMap {as : List α} {rest : List UInt8}
    (h : ∀ a ∈ as, ∀ rest, decode (encode a ++ rest) = some (a, rest)) :
    decodeMany decode as.length (as.flatMap encode ++ rest) = some (as, rest) := by
  induction as with
  | nil => rfl
  | cons a as ih =>
    have ⟨ha, has⟩ := List.forall_mem_cons.mp h
    simp [decodeMany, ha, ih has]

theorem decodeMany_eq_some {P : α → Prop} {n : ℕ} {bytes rest : List UInt8} {as : List α}
    (h : ∀ bytes a rest, decode bytes = some (a, rest) → P a)
    (hd : decodeMany decode n bytes = some (as, rest)) : as.length = n ∧ ∀ a ∈ as, P a := by
  induction n generalizing bytes as rest with
  | zero =>
    simp only [decodeMany, Option.some_inj, Prod.mk.injEq] at hd
    simp [← hd.left]
  | succ n ih =>
    simp only [decodeMany, Option.bind_eq_bind, Option.bind_eq_some_iff, Prod.exists,
      Option.pure_def, Option.some_inj, Prod.mk.injEq] at hd
    obtain ⟨a, bytes', ha, as', _, has, rfl, _⟩ := hd
    have ⟨hl, hP⟩ := ih has
    exact ⟨by simp [hl], List.forall_mem_cons.mpr ⟨h _ _ _ ha, hP⟩⟩

end Wire
