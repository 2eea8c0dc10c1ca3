import StratumApps.Lib.Least
import StratumApps.JobDeclaratorClient.Works

open Sv2 Handler StratumCore

namespace Jdc

variable {C : StratumCore}

def leBytes (t : Target) : Bytes :=
  Wire.littleEndian 32 t.toNat

theorem leBytes_injective : Function.Injective leBytes := by
  intro t t' h
  have hv (t : Target) : Wire.value (leBytes t) = t.toNat := by
    apply Wire.value_littleEndian
    exact t.isLt.trans_eq (by norm_num)
  apply BitVec.eq_of_toNat_eq
  rw [← hv t, ← hv t', h]

-- The order in which the vardiff loop compares two targets.
def LeBytes (t t' : Target) : Prop :=
  leBytes t ≤ leBytes t'

instance : DecidableRel LeBytes :=
  fun t t' => inferInstanceAs (Decidable (leBytes t ≤ leBytes t'))

instance : IsLinearOrder Target LeBytes where
  refl t            := List.le_refl (leBytes t)
  trans _ _ _ h h'  := List.le_trans h h'
  antisymm _ _ h h' := leBytes_injective (List.le_antisymm h h')
  total t t'        := List.le_total (leBytes t) (leBytes t')

instance : IsLinearOrder Target (· ≤ ·) where
  refl t            := Nat.le_refl t.toNat
  trans _ _ _       := Nat.le_trans
  antisymm _ _ h h' := BitVec.eq_of_toNat_eq (Nat.le_antisymm h h')
  total t t'        := Nat.le_total t.toNat t'.toNat

namespace Downstream

variable (downstream : Downstream C)

def hashrates : List F32 :=
  downstream.standardChannels.entries.map (C.standard.getNominalHashrate ·.2) ++
    downstream.extendedChannels.entries.map (C.extended.getNominalHashrate ·.2)

def targets : List Target :=
  downstream.standardChannels.entries.map (C.standard.getTarget ·.2) ++
    downstream.extendedChannels.entries.map (C.extended.getTarget ·.2)

end Downstream

namespace ChannelManager

section Aggregate

variable (s : ChannelManager C)

-- The hashrates and the targets of the open channels of all downstreams.
def hashrates : List F32 :=
  s.downstream.entries.flatMap (·.2.hashrates)

def targets : List Target :=
  s.downstream.entries.flatMap (·.2.targets)

-- What the upstream is to know of the channels. Without a channel, the target is the greatest.
structure Totals (m : UpdateChannel) : Prop where
  nominalHashRate : m.nominalHashRate = s.hashrates.foldl C.addHashrate 0
  open_channel    : s.targets ≠ [] → m.maximumTarget ∈ s.targets
  smallest        : ∀ t ∈ s.targets, m.maximumTarget ≤ t

-- The smallest of the targets comes first when they are compared by their bytes as well.
def BytesAgree : Prop :=
  ∃ t ∈ BitVec.allOnes 256 :: s.targets, ∀ t' ∈ BitVec.allOnes 256 :: s.targets,
    t ≤ t' ∧ LeBytes t t'

-- What the handler of `UpdateChannel` sends when it leaves the same channels.
def Handles (m : UpdateChannel) : Prop :=
  ∀ (s' : ChannelManager C) (d : DownstreamId) (msg m' : UpdateChannel) (o : Outcome C),
    s'.handleUpdateChannel d msg = .ok o → .upstream (.updateChannel m') ∈ o.messages →
    o.manager.downstream = s.downstream →
      m'.maximumTarget = m.maximumTarget ∧ m'.nominalHashRate = m.nominalHashRate

end Aggregate

variable {s : ChannelManager C} {o : Outcome C} {d : DownstreamId} {m : UpdateChannel}
  {min : Target → Target → Target}

theorem aggregateChannels_eq {κ μ ω ε : Type} {S : ShareChannels κ μ ω ε}
    {channels : Map ChannelId κ} {r : F32 × Target} :
    aggregateChannels (C := C) S min channels r =
      ((channels.entries.map (S.getNominalHashrate ·.2)).foldl C.addHashrate r.1,
        (channels.entries.map (S.getTarget ·.2)).foldl (fun t t' => min t' t) r.2) := by
  obtain ⟨es, hn⟩ := channels
  simp only [aggregateChannels]
  clear hn
  induction es generalizing r with
  | nil => rfl
  | cons e es ih =>
    rw [List.foldl_cons, ih]
    rfl

theorem aggregate_eq : s.aggregate min = (s.hashrates.foldl C.addHashrate 0,
    s.targets.foldl (fun t t' => min t' t) (BitVec.allOnes 256)) := by
  have h (es : List (Σ _ : DownstreamId, Downstream C)) (r : F32 × Target) :
      es.foldl (fun r e => aggregateChannels (C := C) C.extended.toShareChannels min
        e.2.extendedChannels <| aggregateChannels (C := C) C.standard.toShareChannels min
          e.2.standardChannels r) r =
      ((es.flatMap (·.2.hashrates)).foldl C.addHashrate r.1,
        (es.flatMap (·.2.targets)).foldl (fun t t' => min t' t) r.2) := by
    induction es generalizing r with
    | nil => rfl
    | cons e es ih =>
      rw [List.foldl_cons, ih, aggregateChannels_eq, aggregateChannels_eq]
      simp only [List.flatMap_cons, List.foldl_append, Downstream.hashrates, Downstream.targets]
  exact h _ _

theorem aggregate_minTarget : (s.aggregate minTarget).2 =
    s.targets.foldl (Least.keep (· ≤ ·)) (BitVec.allOnes 256) := by
  rw [aggregate_eq]
  rfl

theorem aggregate_minTargetBytes : (s.aggregate minTargetBytes).2 =
    s.targets.foldl (Least.keep LeBytes) (BitVec.allOnes 256) := by
  rw [aggregate_eq]
  rfl

-- No target is greater than the one that the walk starts from.
theorem mem_targets_of_least {t : Target} (h : t ∈ BitVec.allOnes 256 :: s.targets)
    (hl : ∀ t' ∈ s.targets, t ≤ t') (hn : s.targets ≠ []) : t ∈ s.targets := by
  cases List.mem_cons.mp h with
  | inr h => exact h
  | inl h =>
    obtain ⟨t', ht'⟩ := List.exists_mem_of_ne_nil _ hn
    have hle : t ≤ t' := hl t' ht'
    have hge : t' ≤ t := by
      rw [h, BitVec.le_def, BitVec.toNat_allOnes]
      exact Nat.le_sub_one_of_lt t'.isLt
    exact antisymm (r := (· ≤ ·)) hle hge ▸ ht'

theorem totals_minTarget (hh : m.nominalHashRate = (s.aggregate min).1)
    (ht : m.maximumTarget = (s.aggregate minTarget).2) : s.Totals m := by
  rw [aggregate_minTarget] at ht
  have hl : ∀ t ∈ BitVec.allOnes 256 :: s.targets, m.maximumTarget ≤ t := by
    rw [ht]
    exact Least.foldl_keep_le
  have hl' : ∀ t ∈ s.targets, m.maximumTarget ≤ t := fun t h => hl t (List.mem_cons_of_mem _ h)
  refine ⟨?_, mem_targets_of_least ?_ hl', hl'⟩
  · rw [hh, aggregate_eq]
  · rw [ht]
    exact Least.foldl_keep_mem

theorem Totals.maximumTarget_eq (h : s.Totals m) :
    m.maximumTarget = (s.aggregate minTarget).2 ∨ s.targets = [] := by
  by_cases hn : s.targets = []
  case pos => exact .inr hn
  case neg =>
    rw [aggregate_minTarget]
    refine .inl (Least.eq_foldl_keep (List.mem_cons_of_mem _ (h.open_channel hn)) fun t ht => ?_)
    cases List.mem_cons.mp ht with
    | inr ht => exact h.smallest t ht
    | inl ht =>
      rw [ht, BitVec.le_def, BitVec.toNat_allOnes]
      exact Nat.le_sub_one_of_lt m.maximumTarget.isLt

theorem mem_updateUpstream (h : .upstream (.updateChannel m) ∈ s.updateUpstream min) :
    m.nominalHashRate = (s.aggregate min).1 ∧ m.maximumTarget = (s.aggregate min).2 := by
  simp only [updateUpstream, List.mem_map, RouteMessageTo.upstream.injEq,
    Mining.updateChannel.injEq] at h
  obtain ⟨_, _, rfl⟩ := h
  exact ⟨rfl, rfl⟩

theorem updateChannel_downstream {κ μ ω ε : Type} {S : ShareChannels κ μ ω ε}
    {errorCode : ε → Option String} {channel : κ} {msg : UpdateChannel} :
    ∀ x ∈ (updateChannel d S errorCode channel msg).2, ∃ d' m', x = .downstream d' m' := by
  intro x hx
  rw [updateChannel] at hx
  split at hx
  case h_1 => exact ⟨_, _, List.mem_singleton.mp hx⟩
  case h_2 e _ _ =>
    rw [List.mem_singleton.mp hx]
    cases errorCode e with
    | none   => exact ⟨_, _, rfl⟩
    | some _ => exact ⟨_, _, rfl⟩

theorem updateDownstreamChannel_downstream {downstream : Downstream C} {msg : UpdateChannel} :
    ∀ x ∈ (updateDownstreamChannel d downstream msg).2, ∃ d' m', x = .downstream d' m' := by
  rw [updateDownstreamChannel]
  split
  case h_1 => exact updateChannel_downstream
  case h_2 => exact updateChannel_downstream
  case h_3 =>
    intro x hx
    exact ⟨_, _, List.mem_singleton.mp hx⟩

theorem mem_updateUpstream_of_append {messages : List RouteMessageTo}
    (hd : ∀ x ∈ messages, ∃ d' m', x = .downstream d' m')
    (h : .upstream (.updateChannel m) ∈ messages ++ s.updateUpstream min) :
    .upstream (.updateChannel m) ∈ s.updateUpstream min := by
  cases List.mem_append.mp h with
  | inr h => exact h
  | inl h =>
    obtain ⟨_, _, h⟩ := hd _ h
    cases h

-- The handler sends what the upstream is to know.
theorem handleUpdateChannel_updates {msg : UpdateChannel} (h : s.handleUpdateChannel d msg = .ok o)
    (hm : .upstream (.updateChannel m) ∈ o.messages) :
    m.nominalHashRate = (o.manager.aggregate minTarget).1 ∧
      m.maximumTarget = (o.manager.aggregate minTarget).2 := by
  rw [handleUpdateChannel] at h
  split at h
  case h_1 =>
    cases pure_eq_ok.mp h
    exact mem_updateUpstream (mem_of_mem_forward hm)
  case h_2 =>
    cases pure_eq_ok.mp h
    apply mem_updateUpstream
    exact mem_updateUpstream_of_append updateDownstreamChannel_downstream (mem_of_mem_forward hm)

theorem runVardiff_updates (h : s.runVardiff = .ok o)
    (hm : .upstream (.updateChannel m) ∈ o.messages) :
    m.nominalHashRate = (o.manager.aggregate minTargetBytes).1 ∧
      m.maximumTarget = (o.manager.aggregate minTargetBytes).2 := by
  simp only [runVardiff, bind_eq_ok, Prod.exists] at h
  obtain ⟨vardiff, downstream, messages, hv, h⟩ := h
  have hd : Adds [] messages := forEach_adds (g := Prod.snd) (fun _ _ _ _ _ => vardiffRound_adds) hv
  obtain ⟨new, rfl, hn⟩ := hd
  split at h
  case isTrue =>
    cases pure_eq_ok.mp h
    exact absurd (mem_of_mem_forward hm) List.not_mem_nil
  case isFalse =>
    cases pure_eq_ok.mp h
    apply mem_updateUpstream
    exact mem_updateUpstream_of_append hn (mem_of_mem_forward hm)

theorem bytesAgree_iff :
    s.BytesAgree ↔ (s.aggregate minTargetBytes).2 = (s.aggregate minTarget).2 := by
  rw [aggregate_minTarget, aggregate_minTargetBytes, eq_comm, Least.foldl_keep_eq_iff]
  exact Iff.rfl

-- The vardiff loop sends what the upstream is to know, and what the handler of `UpdateChannel` sends
-- for the same channels, exactly when the order of the bytes does not matter for the smallest target.
theorem runVardiff_totals_iff (h : s.runVardiff = .ok o)
    (hm : .upstream (.updateChannel m) ∈ o.messages) :
    o.manager.Totals m ∧ o.manager.Handles m ↔ o.manager.BytesAgree := by
  have hu := runVardiff_updates h hm
  rw [bytesAgree_iff, ← hu.right]
  constructor
  · rintro ⟨ht, _⟩
    cases ht.maximumTarget_eq with
    | inl ht => exact ht
    | inr hn =>
      rw [hu.right, aggregate_minTarget, aggregate_minTargetBytes, hn]
      rfl
  · intro ht
    refine ⟨totals_minTarget hu.left ht, fun s' d msg m' o' h' hm' hd => ?_⟩
    have hu' := handleUpdateChannel_updates h' hm'
    have he (min : Target → Target → Target) : o'.manager.aggregate min = o.manager.aggregate min := by
      rw [aggregate, aggregate, hd]
    rw [hu'.right, hu'.left, hu.left, ht, he]
    refine ⟨rfl, ?_⟩
    rw [aggregate_eq, aggregate_eq]

end ChannelManager

-- A client whose channels get the difficulty of their hashrate in every round.
namespace Retargeted

open Sample

def core : StratumCore where
  __           := reference
  VardiffState := ℕ
  vardiff      := { reference.vardiff with
    tryVardiff n hashrate _ _ := (.ok (some hashrate), n) }

def start : System core where
  manager := .new (C := core) ⟨[], 4, 0⟩ coinbaseOutputs
  status  := .running
  sent    := []

theorem start_init : (machine core (config [] [])).Init start := by
  constructor <;> rfl

def openTarget (target : Target) : Action :=
  .downstreamMessage 0 (.openExtendedMiningChannel ⟨1, "miner", 0, target, 4⟩)

def opening (target : Target) : List Action :=
  [.setJdMode .coinbaseOnly, .setUpstreamState .noChannel, future 1, prevHash 1, .connect,
    openTarget target, opened]

-- The end of a run, and what a round of the vardiff loop sends there.
theorem runVardiff_exec :
    (((machine core (config [] [])).exec start (opening 256 ++ [openTarget 1])).any fun s =>
      s.manager.runVardiff.toOption.any fun o => 1 ∈ o.manager.targets ∧
        .upstream (.updateChannel ⟨7, 0, 256⟩) ∈ o.messages) ∧
    (((machine core (config [] [])).exec start (opening 256)).any fun s =>
      s.manager.runVardiff.toOption.any fun o =>
        .upstream (.updateChannel ⟨7, 0, 256⟩) ∈ o.messages) := by
  decide +kernel

end Retargeted

open Sample Retargeted in
theorem not_totals : ¬∀ tr s o m, (machine core (config [] [])).Run tr s →
    s.manager.runVardiff = .ok o → .upstream (.updateChannel m) ∈ o.messages →
      o.manager.Totals m := by
  intro h
  obtain ⟨hexec, _⟩ := runVardiff_exec
  obtain ⟨s, hs, ho⟩ := Option.any_eq_true _ _ |>.mp hexec
  obtain ⟨o, ho, hm⟩ := Option.any_eq_true _ _ |>.mp ho
  obtain ⟨ht, hm⟩ := of_decide_eq_true hm
  have hl := (h _ s o _ (Machine.Run.of_exec start_init hs) (toOption_eq_some.mp ho) hm).smallest 1 ht
  exact absurd hl (by decide)

open Sample Retargeted in
theorem runVardiff_totals_sample : ∃ (s : ChannelManager core) (o : Outcome core) (m : UpdateChannel),
    s.runVardiff = .ok o ∧ .upstream (.updateChannel m) ∈ o.messages ∧
      (o.manager.Totals m ∧ o.manager.Handles m ↔ o.manager.BytesAgree) := by
  obtain ⟨_, hexec⟩ := runVardiff_exec
  obtain ⟨s, _, ho⟩ := Option.any_eq_true _ _ |>.mp hexec
  obtain ⟨o, ho, hm⟩ := Option.any_eq_true _ _ |>.mp ho
  have hv := toOption_eq_some.mp ho
  have hs := of_decide_eq_true hm
  exact ⟨s.manager, o, _, hv, hs, ChannelManager.runVardiff_totals_iff hv hs⟩

end Jdc
