import StratumApps.BitcoinCore.System
import StratumApps.JobDeclaratorClient.System

open Sv2 Handler StratumCore

namespace BitcoinCore

-- What the node is asked for with a new block template.
structure BlockCreateOptions where
  blockReservedWeight               : UInt64
  coinbaseOutputMaxAdditionalSigops : UInt64
  useMempool                        : Bool
  deriving DecidableEq

def weightFactor : UInt32 := 4

def minBlockReservedWeight : UInt64 := 2000

-- The options of the request. The weight is a product of 32 bits, and is widened then.
def newTemplateIpcClient (coinbaseOutputMaxAdditionalSize : UInt32)
    (coinbaseOutputMaxAdditionalSigops : UInt16) : BlockCreateOptions where
  blockReservedWeight               :=
    max (coinbaseOutputMaxAdditionalSize * weightFactor).toUInt64 minBlockReservedWeight
  coinbaseOutputMaxAdditionalSigops := coinbaseOutputMaxAdditionalSigops.toUInt64
  useMempool                        := true

-- The node leaves the weight of the outputs, or the least that it takes, and their sigops.
structure BlockCreateOptions.Reserves (options : BlockCreateOptions) (size sigops : ℕ) : Prop where
  weight : options.blockReservedWeight.toNat = max (4 * size) 2000
  sigops : options.coinbaseOutputMaxAdditionalSigops.toNat = sigops

variable {size : UInt32} {sigops : UInt16}

theorem blockReservedWeight_toNat : (newTemplateIpcClient size sigops).blockReservedWeight.toNat =
    max (4 * size.toNat % 2 ^ 32) 2000 := by
  have hm (a b : UInt64) : (max a b).toNat = max a.toNat b.toNat := by
    change (if a ≤ b then b else a).toNat = _
    split
    case isTrue h  => exact (Nat.max_eq_right (UInt64.le_iff_toNat_le.mp h)).symm
    case isFalse h =>
      rw [UInt64.le_iff_toNat_le, not_le] at h
      exact (Nat.max_eq_left h.le).symm
  have hw : (size * weightFactor).toUInt64.toNat = 4 * size.toNat % 2 ^ 32 := by
    rw [UInt32.toNat_toUInt64, UInt32.toNat_mul, Nat.mul_comm]
    rfl
  rw [newTemplateIpcClient, hm, hw]
  rfl

theorem reserves_iff :
    (newTemplateIpcClient size sigops).Reserves size.toNat sigops.toNat ↔ size.toNat < 2 ^ 30 := by
  have hs := size.toNat_lt
  constructor
  case mp =>
    intro h
    have hw := h.weight
    rw [blockReservedWeight_toNat] at hw
    omega
  case mpr =>
    intro h
    refine ⟨?_, UInt16.toNat_toUInt64 _⟩
    rw [blockReservedWeight_toNat, Nat.mod_eq_of_lt (by omega)]

end BitcoinCore

namespace Jdc

variable {C : StratumCore}

namespace ChannelManager

variable {s : ChannelManager C} {msg : AllocateMiningJobTokenSuccess} {outputs : List TxOut}

-- The constraints that the outputs of the answer make the client send are those of the outputs.
def ConstrainsExactly (s : ChannelManager C) (msg : AllocateMiningJobTokenSuccess)
    (outputs : List TxOut) : Prop :=
  ∃ o m, s.handleAllocateMiningJobTokenSuccess msg = .ok o ∧
    o.messages = [.templateProvider (.coinbaseOutputConstraints m)] ∧
    m.maxAdditionalSize.toNat = (outputs.map C.txOutSize).sum ∧
    m.maxAdditionalSigops.toNat = C.sigopCost outputs

theorem handleAllocateMiningJobTokenSuccess_changed (hc : s.coinbaseOutputs ≠ msg.coinbaseOutputs)
    (hd : C.consensusDecode msg.coinbaseOutputs = .ok outputs) :
    s.handleAllocateMiningJobTokenSuccess msg = .ok {
      manager  := { s with coinbaseOutputs := msg.coinbaseOutputs, allocateTokens := some msg }
      messages := [coinbaseOutputConstraints C outputs] } := by
  rw [handleAllocateMiningJobTokenSuccess, if_pos hc, hd]
  rfl

theorem constrainsExactly_iff (hc : s.coinbaseOutputs ≠ msg.coinbaseOutputs)
    (hd : C.consensusDecode msg.coinbaseOutputs = .ok outputs) : s.ConstrainsExactly msg outputs ↔
      (outputs.map C.txOutSize).sum < 2 ^ 32 ∧ C.sigopCost outputs < 2 ^ 16 := by
  rw [ConstrainsExactly, handleAllocateMiningJobTokenSuccess_changed hc hd]
  constructor
  case mp =>
    rintro ⟨o, m, ho, hm, hz, hg⟩
    cases ho
    cases hm
    exact ⟨hz ▸ UInt32.toNat_lt _, hg ▸ UInt16.toNat_lt _⟩
  case mpr =>
    rintro ⟨hz, hg⟩
    refine ⟨_, _, rfl, rfl, ?_, ?_⟩
    · exact UInt32.toNat_ofNat_of_lt' hz
    · exact UInt16.toNat_ofNat_of_lt' hg

end ChannelManager

theorem coinbase_constraints_exact_iff {s : ChannelManager C} {msg : AllocateMiningJobTokenSuccess}
    {outputs : List TxOut} (hc : s.coinbaseOutputs ≠ msg.coinbaseOutputs)
    (hd : C.consensusDecode msg.coinbaseOutputs = .ok outputs) (size : UInt32) (sigops : UInt16) :
    s.ConstrainsExactly msg outputs ∧
      (BitcoinCore.newTemplateIpcClient size sigops).Reserves size.toNat sigops.toNat ↔
    ((outputs.map C.txOutSize).sum < 2 ^ 32 ∧ C.sigopCost outputs < 2 ^ 16) ∧ size.toNat < 2 ^ 30 :=
  and_congr (ChannelManager.constrainsExactly_iff hc hd) BitcoinCore.reserves_iff

-- Outputs to scripts of nothing but the checks of many signatures, each of which counts for twenty.
namespace Multisig

open Sample

def opCheckmultisig : UInt8 := 0xae

-- The cost of scripts that push nothing.
def countSigops (script : Bytes) : ℕ :=
  (script.map fun op => if op = 0xac ∨ op = 0xad then 1 else if op = 0xae ∨ op = 0xaf then 20 else 0).sum

def core : StratumCore where
  __ := reference
  sigopCost outputs := 4 * (outputs.map fun o => countSigops o.scriptPubkey).sum

def manager (coinbaseOutputs : Bytes) : ChannelManager core :=
  .new ⟨[], 4, 0⟩ coinbaseOutputs

def outputs (n : ℕ) : List TxOut :=
  .replicate 4 ⟨0, .replicate n opCheckmultisig⟩

def answer (n : ℕ) : AllocateMiningJobTokenSuccess :=
  ⟨1, [1, 0, 0, 0], Reference.encodeOutputs (outputs n)⟩

theorem answer_decodes {n : ℕ} (h : n < 253) :
    core.consensusDecode (answer n).coinbaseOutputs = .ok (outputs n) := by
  have hl : (outputs n).length < 253 := by
    rw [outputs, List.length_replicate]
    decide
  refine Reference.decodeOutputs_encodeOutputs hl fun o ho => ?_
  rw [(List.mem_replicate.mp ho).right, List.length_replicate]
  exact h

theorem sigopCost_outputs (n : ℕ) : core.sigopCost (outputs n) = 320 * n := by
  have hs : countSigops (.replicate n opCheckmultisig) = 20 * n := by
    rw [countSigops, List.map_replicate, List.sum_replicate, smul_eq_mul, mul_comm]
    rfl
  have hc : core.sigopCost (outputs n) =
      4 * ((outputs n).map fun o => countSigops o.scriptPubkey).sum := rfl
  rw [hc, outputs, List.map_replicate, List.sum_replicate, hs, smul_eq_mul]
  omega

theorem txOutSize_outputs (n : ℕ) : ((outputs n).map core.txOutSize).sum = 4 * (9 + n) := by
  have hc : core.txOutSize ⟨0, .replicate n opCheckmultisig⟩ = 9 + n := by
    have h : core.txOutSize ⟨0, .replicate n opCheckmultisig⟩ =
      (Reference.encodeOutput ⟨0, .replicate n opCheckmultisig⟩).length := rfl
    rw [h, Reference.encodeOutput, List.length_append, List.length_cons, List.length_replicate,
      Wire.littleEndian_length]
    omega
  rw [outputs, List.map_replicate, List.sum_replicate, hc, smul_eq_mul]

end Multisig

open Multisig in
theorem not_coinbase_constraints_exact :
    ¬∀ (s : ChannelManager core) msg outputs size sigops, s.coinbaseOutputs ≠ msg.coinbaseOutputs →
      core.consensusDecode msg.coinbaseOutputs = .ok outputs →
        s.ConstrainsExactly msg outputs ∧
          (BitcoinCore.newTemplateIpcClient size sigops).Reserves size.toNat sigops.toNat := by
  intro h
  have hc : (manager []).coinbaseOutputs ≠ (answer 205).coinbaseOutputs := (List.cons_ne_nil _ _).symm
  have hd := answer_decodes (n := 205) (by decide)
  have hx := (ChannelManager.constrainsExactly_iff hc hd).mp (h _ _ _ 0 0 hc hd).left
  rw [sigopCost_outputs] at hx
  exact absurd hx.right (by decide)

open Multisig in
theorem coinbase_constraints_exact_sample :
    (manager []).ConstrainsExactly (answer 200) (outputs 200) ∧
      (BitcoinCore.newTemplateIpcClient 1000 80).Reserves 1000 80 := by
  have hc : (manager []).coinbaseOutputs ≠ (answer 200).coinbaseOutputs := (List.cons_ne_nil _ _).symm
  have hd := answer_decodes (n := 200) (by decide)
  refine (coinbase_constraints_exact_iff hc hd 1000 80).mpr ⟨⟨?_, ?_⟩, by decide⟩
  · rw [txOutSize_outputs]
    decide
  · rw [sigopCost_outputs]
    decide

end Jdc
