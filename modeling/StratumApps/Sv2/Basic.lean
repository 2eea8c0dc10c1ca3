import Mathlib

namespace Sv2

abbrev Bytes := List UInt8

abbrev U256 := BitVec 256

-- Sequences and byte strings no longer than what the length field of their wire format can say.
abbrev Seq064K (α : Type) := { l : List α // l.length ≤ 65535 }

abbrev B064K := Seq064K UInt8

abbrev B0255 := { l : Bytes // l.length ≤ 255 }

abbrev B032 := { l : Bytes // l.length ≤ 32 }

-- The bits of a float. No function of the model computes with one.
abbrev F32 := BitVec 32

abbrev F64 := BitVec 64

structure TxOut where
  value        : UInt64
  scriptPubkey : Bytes
  deriving DecidableEq

structure TlvType where
  extensionType : UInt16
  fieldType     : UInt8
  deriving DecidableEq

structure Tlv where
  type  : TlvType
  value : Bytes
  deriving DecidableEq

-- The conversion of a byte string that is longer than its type allows fails.
def Bytes.tryInto (n : ℕ) (bytes : Bytes) : Option { l : Bytes // l.length ≤ n } :=
  if h : bytes.length ≤ n then some ⟨bytes, h⟩ else none

-- What of a list fits in a sequence of that length.
def fit {α : Type} {n : ℕ} (l : List α) : { l : List α // l.length ≤ n } :=
  ⟨l.take n, List.length_take_le n l⟩

theorem Bytes.tryInto_isSome {n : ℕ} {bytes : Bytes} :
    (bytes.tryInto n).isSome ↔ bytes.length ≤ n := by
  simp [tryInto, Option.isSome_dite]

theorem Bytes.val_of_tryInto {n : ℕ} {bytes : Bytes} {l : { l : Bytes // l.length ≤ n }}
    (h : bytes.tryInto n = some l) : l.1 = bytes := by
  rw [tryInto] at h
  split at h <;> cases h
  rfl

end Sv2
