import StratumApps.StratumCore.Reference

open Sv2

namespace StratumCore

variable {χ ι : Type}

-- The prefixes that a factory hands out, one after the other.
inductive Hands (next : ι → χ → Except ExtendedExtranonceError Bytes × χ) : χ → List Bytes → χ → Prop
  | nil {x : χ} : Hands next x [] x
  | cons {i : ι} {x x₁ x' : χ} {p : Bytes} {ps : List Bytes} :
    next i x = (.ok p, x₁) → Hands next x₁ ps x' → Hands next x (p :: ps) x'

-- Two prefixes that no extranonce has both of.
def Apart (p q : Bytes) : Prop :=
  ¬p <+: q ∧ ¬q <+: p

theorem Apart.symm {p q : Bytes} (h : Apart p q) : Apart q p :=
  ⟨h.right, h.left⟩

theorem apart_of_length {p q : Bytes} (hl : p.length = q.length) (hn : p ≠ q) : Apart p q :=
  ⟨fun h => hn (h.eq_of_length hl), fun h => hn (h.eq_of_length hl.symm).symm⟩

theorem Hands.append {next : ι → χ → Except ExtendedExtranonceError Bytes × χ} {x x₁ x' : χ}
    {ps qs : List Bytes} (h : Hands next x ps x₁) (h' : Hands next x₁ qs x') :
    Hands next x (ps ++ qs) x' := by
  induction h with
  | nil => exact h'
  | cons hp _ ih => exact .cons hp (ih h')

-- What every call keeps of the factory, and what it makes of a prefix.
theorem Hands.forall {next : ι → χ → Except ExtendedExtranonceError Bytes × χ} {x x' : χ}
    {ps : List Bytes} {P : χ → Prop} {Q : Bytes → Prop} (hP : ∀ i x, P x → P (next i x).2)
    (hQ : ∀ i x p, P x → (next i x).1 = .ok p → Q p) (h : Hands next x ps x') (hx : P x) :
    ∀ p ∈ ps, Q p := by
  induction h with
  | nil => simp
  | @cons i x x₁ _ p _ hp _ ih =>
    have h₁ : (next i x).2 = x₁ := congrArg Prod.snd hp
    rw [List.forall_mem_cons]
    exact ⟨hQ i x p hx (congrArg Prod.fst hp), ih (h₁ ▸ hP i x hx)⟩

theorem Hands.keeps {next : ι → χ → Except ExtendedExtranonceError Bytes × χ} {x x' : χ}
    {ps : List Bytes} {P : χ → Prop} (hP : ∀ i x, P x → P (next i x).2) (h : Hands next x ps x')
    (hx : P x) : P x' := by
  induction h with
  | nil => exact hx
  | @cons i x x₁ _ _ _ hp _ ih =>
    have h₁ : (next i x).2 = x₁ := congrArg Prod.snd hp
    exact ih (h₁ ▸ hP i x hx)

-- A factory that counts hands out prefixes that are apart, when they have one length and tell the
-- values of the counter from each other.
theorem Hands.counted {next : ι → χ → Except ExtendedExtranonceError Bytes × χ} {x x' : χ}
    {ps : List Bytes} {P : χ → Prop} {counter : χ → ℕ} {code : ℕ → Bytes} {length bound : ℕ}
    (hl : ∀ j, (code j).length = length)
    (hi : ∀ j j', j < bound → j' < bound → code j = code j' → j = j')
    (hn : ∀ i x p x₁, P x → next i x = (.ok p, x₁) →
      P x₁ ∧ counter x₁ = counter x + 1 ∧ counter x₁ < bound ∧ p = code (counter x₁))
    (h : Hands next x ps x') (hx : P x) :
    (∀ p ∈ ps, ∃ j, counter x < j ∧ j < bound ∧ p = code j) ∧ ps.Pairwise Apart := by
  induction h with
  | nil => simp
  | @cons i x x₁ _ p ps hp _ ih =>
    obtain ⟨hx₁, hc, hb, rfl⟩ := hn i x p x₁ hx hp
    obtain ⟨hm, hd⟩ := ih hx₁
    refine ⟨List.forall_mem_cons.mpr ⟨⟨_, by omega, hb, rfl⟩, fun q hq => ?_⟩,
      List.pairwise_cons.mpr ⟨fun q hq => ?_, hd⟩⟩
    · obtain ⟨j, hj, hjb, rfl⟩ := hm q hq
      exact ⟨j, by omega, hjb, rfl⟩
    · obtain ⟨j, hj, hjb, rfl⟩ := hm q hq
      apply apart_of_length
      · rw [hl, hl]
      · intro he
        have := hi _ _ hb hjb he
        omega

namespace Extranonces

variable (X : Extranonces χ)

def HandsStandard : χ → List Bytes → χ → Prop :=
  Hands fun (_ : Unit) => X.nextPrefixStandard

def HandsExtended : χ → List Bytes → χ → Prop :=
  Hands fun n x => X.nextPrefixExtended x n

variable {X} {upstream : Bytes} {x x' : χ} {ps : List Bytes}

theorem extends_of_standard (hX : X.Lawful) (h : X.HandsStandard x ps x') (hx : X.From upstream x) :
    ∀ p ∈ ps, upstream <+: p :=
  Hands.forall (fun _ _ => .nextStandard) (fun _ _ _ => hX.nextStandard _ _ _) h hx

theorem extends_of_extended (hX : X.Lawful) (h : X.HandsExtended x ps x') (hx : X.From upstream x) :
    ∀ p ∈ ps, upstream <+: p :=
  Hands.forall (fun _ _ => .nextExtended) (fun _ _ _ => hX.nextExtended _ _ _ _) h hx

end Extranonces

-- A channel that refuses a prefix keeps the one it has.
structure UpstreamChannels.Refuses {υ : Type} (U : UpstreamChannels υ) : Prop where
  setExtranoncePrefix : ∀ u p e u', U.setExtranoncePrefix u p = (.error e, u') →
    U.getExtranoncePrefix u' = U.getExtranoncePrefix u

-- A factory with a counter in each of its two ranges. The range for standard channels is behind the
-- one for extended channels, whose counter is zero in their prefixes.
structure Ranges where
  shared       : Bytes
  extendedSize : ℕ
  standardSize : ℕ
  fits         : shared.length + extendedSize + standardSize ≤ 32
  extended     : ℕ
  standard     : ℕ

namespace Ranges

variable {x x' : Ranges} {ps : List Bytes}

def counters (extended standard : ℕ) (x : Ranges) : Bytes :=
  x.shared ++ Wire.bigEndian x.extendedSize extended ++ Wire.bigEndian x.standardSize standard

def nextStandard (x : Ranges) : Except ExtendedExtranonceError Bytes × Ranges :=
  if x.standard + 1 < 256 ^ x.standardSize then
    (.ok (x.counters x.extended (x.standard + 1)), { x with standard := x.standard + 1 })
  else
    (.error "max value reached", x)

def nextExtended (x : Ranges) (required : ℕ) : Except ExtendedExtranonceError Bytes × Ranges :=
  if required ≤ x.standardSize ∧ x.extended + 1 < 256 ^ x.extendedSize then
    (.ok (x.shared ++ Wire.bigEndian x.extendedSize (x.extended + 1)),
      { x with extended := x.extended + 1 })
  else
    (.error "max value reached", x)

def ofRanges (shared : Bytes) (r₁ r₂ : ℕ × ℕ) : Except ExtendedExtranonceError Ranges :=
  if h : shared.length + (r₁.2 - r₁.1) + (r₂.2 - r₂.1) ≤ 32 ∧ r₁.1 = shared.length ∧ r₁.2 = r₂.1 then
    .ok ⟨shared, r₁.2 - r₁.1, r₂.2 - r₂.1, h.left, 0, 0⟩
  else
    .error "invalid range"

end Ranges

def ranges : Extranonces Ranges where
  new _ r₁ r₂ additional              := Ranges.ofRanges (additional.getD []) r₁ r₂
  fromUpstreamExtranonce bytes _ r₁ r₂ := Ranges.ofRanges bytes r₁ r₂
  nextPrefixStandard                  := Ranges.nextStandard
  nextPrefixExtended                  := Ranges.nextExtended

namespace Ranges

theorem from_shared {upstream : Bytes} (h : ranges.From upstream x) : x.shared = upstream := by
  induction h with
  | made h =>
    simp only [ranges, ofRanges] at h
    split at h
    case isTrue  =>
      cases h
      rfl
    case isFalse => cases h
  | @nextStandard y _ ih =>
    rw [← ih]
    simp only [ranges, nextStandard]
    split <;> rfl
  | @nextExtended y n _ ih =>
    rw [← ih]
    simp only [ranges, nextExtended]
    split <;> rfl

end Ranges

open Ranges

theorem ranges_lawful : ranges.Lawful where
  nextStandard upstream x p hx h := by
    simp only [ranges, nextStandard] at h
    split at h
    case isTrue =>
      cases h
      rw [← from_shared hx, counters, List.append_assoc]
      exact List.prefix_append _ _
    case isFalse => cases h
  nextExtended upstream x n p hx h := by
    simp only [ranges, nextExtended] at h
    split at h
    case isTrue =>
      cases h
      rw [← from_shared hx]
      exact List.prefix_append _ _
    case isFalse => cases h

end StratumCore
