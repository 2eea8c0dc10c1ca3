import StratumApps.Translator.Reference

open Sv2 Handler StratumCore

namespace Translator

-- A factory is made of ranges that end within an extranonce. Its first prefix needs a byte of the
-- range of the translator, and is refused when more is asked for than the range of the miner has.
structure ExtendedExtranonces.Roomy {χ : Type} (X : ExtendedExtranonces χ) : Prop where
  made  : ∀ p b total, p.1.length ≤ b → b ≤ total →
    ((∃ x, X.fromUpstreamExtranonce p (0, p.1.length) (p.1.length, b) (b, total) = .ok x) ↔
      total ≤ 32)
  bytes : ∀ p b total x,
    X.fromUpstreamExtranonce p (0, p.1.length) (p.1.length, b) (b, total) = .ok x →
      X.getRange2Len x = total - b
  first : ∀ p b total x n,
    X.fromUpstreamExtranonce p (0, p.1.length) (p.1.length, b) (b, total) = .ok x →
      ((∃ q, (X.nextPrefixExtended x n).1 = .ok q) ↔ n ≤ total - b ∧ p.1.length < b)

theorem Reference.extranonces_roomy : Reference.extranonces.Roomy where
  made p b total hp hb      := by
    simp only [Reference.extranonces, Reference.Factory.fromUpstreamExtranonce]
    split
    case isTrue h  => exact iff_of_false (by simp) (by omega)
    case isFalse h => simpa using h
  bytes p b total x h       := by
    simp only [Reference.extranonces, Reference.Factory.fromUpstreamExtranonce] at h
    split at h
    case isTrue  => cases h
    case isFalse =>
      split at h <;> cases h
      rfl
  first p b total x n h     := by
    simp only [Reference.extranonces, Reference.Factory.fromUpstreamExtranonce] at h
    split at h
    case isTrue  => cases h
    case isFalse =>
      split at h <;> cases h
      simp only [Reference.extranonces, Reference.Factory.nextPrefixExtended]
      split
      case isTrue hn  => exact iff_of_false (by simp) (by omega)
      case isFalse hn =>
        have hp : 0 + 1 < 256 ^ (b - p.1.length) ↔ p.1.length < b := by
          rw [Nat.zero_add, show p.1.length < b ↔ 0 < b - p.1.length from Nat.sub_pos_iff_lt.symm]
          cases b - p.1.length with
          | zero   => simp
          | succ k => simp [Nat.one_lt_pow_iff]
        split
        case isTrue hc  => exact iff_of_true ⟨_, rfl⟩ ⟨Nat.le_of_not_lt hn, hp.mp hc⟩
        case isFalse hc => exact iff_of_false (by simp) fun h => hc (hp.mpr h.right)

variable {C : TranslatorCore} {cfg : Config} {mode : ChannelMode}

-- The panics for an optional value that is not there, for a difference below zero, and for a factory
-- of prefixes that cannot be made or has no prefix.
def missingState : List String := [
  unwrapNone,
  subtractWithOverflow,
  "Failed to create ExtendedExtranonce from upstream extranonce",
  "next_prefix_extended should return a value for valid input",
  "Failed to create ExtendedExtranonce factory - likely extranonce size configuration issue",
  "Failed to generate extranonce prefix"]

def Missing {α : Type} (x : Except (Fault TproxyError) α) : Prop :=
  ∃ msg ∈ missingState, x = .error (.panicked msg)

section Missing

variable {α β : Type} {x : Except (Fault TproxyError) α} {f : α → Except (Fault TproxyError) β}
variable {o : Option α} {a : α} {e : TproxyError} {msg : String}

@[simp]
theorem missing_ok : ¬Missing (.ok a) := by
  simp [Missing]

@[simp]
theorem missing_pure : ¬Missing (pure a : Except (Fault TproxyError) α) :=
  missing_ok

@[simp]
theorem missing_err : ¬Missing (throw (.err e) : Except (Fault TproxyError) α) := by
  simp [Missing, throw, throwThe, MonadExceptOf.throw]

theorem missing_bind : Missing (x >>= f) ↔ Missing x ∨ ∃ a, x = .ok a ∧ Missing (f a) := by
  cases x with
  | error fault => simp [Missing, bind, Except.bind]
  | ok a        => simp [Missing, bind, Except.bind]

@[simp]
theorem missing_map {g : α → β} : Missing (g <$> x) ↔ Missing x := by
  cases x with
  | error fault => simp [Missing, Functor.map, Except.map]
  | ok a        => simp [Missing, Functor.map, Except.map]

@[simp]
theorem missing_orErr : ¬Missing (orErr o e) := by
  cases o <;> simp [Missing, orErr]

@[simp]
theorem missing_expect : Missing (expect o msg) ↔ o = none ∧ msg ∈ missingState := by
  cases o <;> simp [Missing, expect]

end Missing

namespace ChannelManager

variable {s s' : ChannelManager C} {messages : List RouteMessageTo}

-- The factory came with the upstream channel and outlives it.
def HasFactory (s : ChannelManager C) : Prop :=
  s.upstreamExtendedChannel.isSome → s.extranoncePrefixFactory.isSome

theorem missing_handleOpenExtendedMiningChannel {m : OpenExtendedMiningChannel}
    (h : s.HasFactory) : ¬Missing (s.handleOpenExtendedMiningChannel m) := by
  rw [handleOpenExtendedMiningChannel]
  split
  case isFalse => simp
  case isTrue =>
    split
    case h_2 => simp [missingState, unwrapNone, subtractWithOverflow]
    case h_1 upstream hu =>
      obtain ⟨factory, hf⟩ := Option.isSome_iff_exists.mp (h (by simp [hu]))
      simp only [deriveChannel, missing_bind, missing_expect, hf]
      rintro (h | ⟨_, _, h⟩)
      · cases h.left
      · split at h
        · exact missing_pure h
        · split at h <;> exact missing_pure h

theorem missing_adjustExtranonce {m : SubmitSharesExtended} {channel : Option C.Channel} {n : ℕ} :
    ¬Missing (adjustExtranonce m channel n) := by
  rw [adjustExtranonce.eq_def]
  split
  case h_1 => simp
  case h_2 => simp [missing_bind, missingState, unwrapNone, subtractWithOverflow]

theorem missing_handleSubmitSharesExtended {m : SubmitSharesExtended} (h : s.HasFactory) :
    ¬Missing (s.handleSubmitSharesExtended m) := by
  rw [handleSubmitSharesExtended]
  split
  case h_1 => simp
  case h_2 =>
    dsimp only
    split
    case h_1 => simp
    case h_2 upstream _ _ hu =>
      obtain ⟨factory, hf⟩ := Option.isSome_iff_exists.mp (h (by simp [hu]))
      simp [forwardAggregated, missing_bind, hf, missing_adjustExtranonce]
    case h_3 =>
      simp only [forwardNonAggregated, adjustNonAggregated, missing_bind, missing_pure]
      split
      case h_1 => simp
      case h_2 => simp [missing_adjustExtranonce]

theorem missing_handleUpdateChannel {m : UpdateChannel} : Missing (s.handleUpdateChannel m) ↔
    s.mode = .aggregated ∧ s.upstreamExtendedChannel = none := by
  rw [handleUpdateChannel]
  split <;> simp_all [missingState]

-- The factory for what the upstream has granted.
def newFactory (m : OpenExtendedMiningChannelSuccess) (n : ℕ) :
    Except ExtendedExtranonceError C.Extranonce :=
  let range1 := m.extranoncePrefix.1.length + (m.extranonceSize.toNat - n)
  C.extranonce.fromUpstreamExtranonce m.extranoncePrefix (0, m.extranoncePrefix.1.length)
    (m.extranoncePrefix.1.length, range1) (range1, range1 + n)

theorem extranonceFactory_of_le {m : OpenExtendedMiningChannelSuccess} {n : ℕ} {msg : String}
    (h : n ≤ m.extranonceSize.toNat) :
    extranonceFactory (C := C) m n msg = expect (newFactory m n).toOption msg := by
  rw [extranonceFactory, proxyExtranoncePrefixLen, if_pos h]
  rfl

-- It is made when the grant ends within an extranonce, and has a prefix for the miner's bytes when the
-- grant is more than these.
theorem newFactory_made (hX : C.extranonce.Roomy) {m : OpenExtendedMiningChannelSuccess} {n : ℕ}
    (h : n ≤ m.extranonceSize.toNat) : (∃ x, newFactory (C := C) m n = .ok x) ↔
      m.extranoncePrefix.1.length + m.extranonceSize.toNat ≤ 32 := by
  have ht : m.extranoncePrefix.1.length + (m.extranonceSize.toNat - n) + n =
      m.extranoncePrefix.1.length + m.extranonceSize.toNat := by
    omega
  have hm := hX.made m.extranoncePrefix (m.extranoncePrefix.1.length + (m.extranonceSize.toNat - n))
    _ (Nat.le_add_right _ _) (Nat.le_add_right _ n)
  exact ht ▸ hm

theorem newFactory_first (hX : C.extranonce.Roomy) {m : OpenExtendedMiningChannelSuccess} {n : ℕ}
    {x : C.Extranonce} (h : newFactory m n = .ok x) : C.extranonce.getRange2Len x = n ∧
      ((∃ q, (C.extranonce.nextPrefixExtended x n).1 = .ok q) ↔ n < m.extranonceSize.toNat) := by
  refine ⟨(hX.bytes _ _ _ _ h).trans (Nat.add_sub_cancel_left ..), (hX.first _ _ _ _ _ h).trans ?_⟩
  omega

-- The grant of the upstream has room for a prefix of the translator in front of the miner's bytes.
def Splits (m : OpenExtendedMiningChannelSuccess) (n : ℕ) : Prop :=
  n < m.extranonceSize.toNat ∧ m.extranoncePrefix.1.length + m.extranonceSize.toNat ≤ 32

instance {m : OpenExtendedMiningChannelSuccess} {n : ℕ} : Decidable (Splits m n) :=
  inferInstanceAs <| Decidable <|
    n < m.extranonceSize.toNat ∧ m.extranoncePrefix.1.length + m.extranonceSize.toNat ≤ 32

-- A channel that is not aggregated may also be granted just what the miner rolls.
def Admits (s : ChannelManager C) (m : OpenExtendedMiningChannelSuccess) : Prop :=
  ∀ p ∈ s.pendingChannels.lookup m.requestId.toNat,
    (s.mode = .aggregated ∨ m.extranonceSize.toNat ≠ p.downstreamExtranonceLen) →
      Splits m p.downstreamExtranonceLen

instance {m : OpenExtendedMiningChannelSuccess} : Decidable (s.Admits m) :=
  inferInstanceAs <| Decidable <| ∀ p ∈ s.pendingChannels.lookup m.requestId.toNat,
    (s.mode = .aggregated ∨ m.extranonceSize.toNat ≠ p.downstreamExtranonceLen) →
      Splits m p.downstreamExtranonceLen

-- A factory is made, and gives its first prefix for as many bytes as the miner rolls.
theorem missing_firstPrefix {α : Type} (hX : C.extranonce.Roomy)
    {m : OpenExtendedMiningChannelSuccess} {n : ℕ} {msg msg' : String} {size : C.Extranonce → ℕ}
    {f : C.Extranonce → B032 → α} (h : msg ∈ missingState) (h' : msg' ∈ missingState)
    (hs : ∀ x, C.extranonce.getRange2Len x = n → n ≤ 32 → size x = n) :
    Missing (do
      let factory ← extranonceFactory m n msg
      let extranoncePrefix ←
        expect (C.extranonce.nextPrefixExtended factory (size factory)).1.toOption msg'
      return f factory extranoncePrefix) ↔ ¬Splits m n := by
  rw [Splits]
  by_cases hn : n ≤ m.extranonceSize.toNat
  case neg =>
    have he : extranonceFactory (C := C) m n msg = .error (.panicked subtractWithOverflow) := by
      rw [extranonceFactory, proxyExtranoncePrefixLen, if_neg hn]
      rfl
    refine iff_of_true (missing_bind.mpr (.inl ?_)) fun hs => hn (Nat.le_of_lt hs.left)
    exact ⟨subtractWithOverflow, by simp [missingState], he⟩
  case pos =>
    have hm := newFactory_made hX hn
    rw [missing_bind, extranonceFactory_of_le hn, missing_expect, ← hm]
    cases hx : newFactory (C := C) m n with
    | error e => simp [h, Except.toOption]
    | ok x    =>
      obtain ⟨hr, hf⟩ := newFactory_first hX hx
      have hk : size x = n := hs x hr (by have := hm.mp ⟨x, hx⟩; omega)
      rw [← hf]
      cases hq : (C.extranonce.nextPrefixExtended x n).1 with
      | error e => simp [expect, Except.toOption, hk, hq, h', Missing]
      | ok q    => simp [expect, Except.toOption, hk, hq, Missing]

theorem missing_handleOpenExtendedMiningChannelSuccess (hX : C.extranonce.Roomy)
    {m : OpenExtendedMiningChannelSuccess} :
    Missing (s.handleOpenExtendedMiningChannelSuccess m) ↔ ¬s.Admits m := by
  simp only [handleOpenExtendedMiningChannelSuccess, missing_bind, missing_orErr, orErr_eq_ok,
    false_or, Admits, Option.mem_def, not_forall, exists_prop]
  refine exists_congr fun p => and_congr_right fun _ => ?_
  split
  case isTrue ha =>
    simp only [ha, true_or, true_and]
    refine missing_firstPrefix hX (by simp [missingState]) (by simp [missingState]) fun x hx hn => ?_
    rw [hx, UInt16.toNat_ofNat']
    omega
  case isFalse ha =>
    split
    case isTrue he =>
      simp only [ha, he, ne_eq, not_false_eq_true, or_true, true_and]
      exact missing_firstPrefix hX (by simp [missingState]) (by simp [missingState]) fun _ _ _ => rfl
    case isFalse he =>
      simp [openUnadjusted, ha, not_not.mp he]

theorem missing_handleDownstreamMessage {m : Mining} (h : s.HasFactory) :
    Missing (s.handleDownstreamMessage m) ↔ ∃ m', m = .updateChannel m' ∧ s.mode = .aggregated ∧
      s.upstreamExtendedChannel = none := by
  rw [handleDownstreamMessage.eq_def]
  split
  case h_1 => simpa using missing_handleOpenExtendedMiningChannel h
  case h_2 => simpa using missing_handleSubmitSharesExtended h
  case h_3 => simp [missing_handleUpdateChannel]
  case h_4 => simp
  case h_5 hu _ =>
    simp only [missing_pure, false_iff, not_exists, not_and]
    exact fun m' he => absurd he (hu m')

theorem missing_handleMiningMessageFromServer (hX : C.extranonce.Roomy) {m : Mining} :
    Missing (s.handleMiningMessageFromServer m) ↔
      ∃ m', m = .openExtendedMiningChannelSuccess m' ∧ ¬s.Admits m' := by
  rw [handleMiningMessageFromServer.eq_def]
  split
  case h_1 => simp [missing_handleOpenExtendedMiningChannelSuccess hX]
  case h_4 => simp only [handleCloseChannel]; split <;> simp
  case h_9 | h_10 | h_11 =>
    simp [handleNewExtendedMiningJob, handleSetNewPrevHash, handleSetTarget]
  case h_12 => simp_all
  all_goals simp

theorem missing_handleExtensionsMessageFromServer {m : Extensions} :
    ¬Missing (s.handleExtensionsMessageFromServer cfg m) := by
  rw [handleExtensionsMessageFromServer.eq_def]
  split
  case h_1 => simp only [handleRequestExtensionsSuccess]; split <;> simp
  case h_2 =>
    simp only [handleRequestExtensionsError]
    repeat' split
    all_goals simp
  case h_3 => simp

section Factory

theorem hasFactory_downstream {m : Mining} (hs : s.HasFactory) (h : s.Handles m s' messages) :
    s'.HasFactory := by
  cases h with
  | derived            => exact fun _ => rfl
  | unanswered         => exact fun _ => rfl
  | requested          => exact hs
  | unknown            => exact hs
  | invalid            => exact hs
  | updated            => exact hs
  | closed             => exact hs
  | dropped            => exact hs
  | aggregated _ _ _ _ _ h | nonAggregated _ _ _ h =>
    obtain ⟨_, _, rfl, _⟩ := h
    exact hs

theorem hasFactory_updateChannels {channelId : ChannelId} {f g : C.Channel → C.Channel}
    (hs : s.HasFactory) : (s.updateChannels channelId f g).HasFactory := by
  rw [updateChannels]
  split
  case isTrue  => simpa [HasFactory] using hs
  case isFalse => exact hs

theorem hasFactory_upstream {m : Mining} (hs : s.HasFactory) (h : s.Follows m s' messages) :
    s'.HasFactory := by
  cases h with
  | aggregated => exact fun _ => rfl
  | adjusted   => exact hs
  | unadjusted => exact hs
  | closed     => simp [HasFactory]
  | erased     => exact hs
  | job        => exact hasFactory_updateChannels hs
  | prevHash   => exact hasFactory_updateChannels hs
  | target     => exact hasFactory_updateChannels hs
  | ignored    => exact hs

end Factory

end ChannelManager

namespace System

variable {s s' : System C} {a : Action} {tr : List (Machine.Event (System C) Action)}

-- The manager has not stopped for want of a value, of a difference or of a prefix.
def Sound (s : System C) : Prop :=
  ∀ msg ∈ missingState, s.status ≠ .stopped (.panicked msg)

-- What the messages have to be like: no update in aggregated mode without an upstream channel, and
-- an upstream that grants more than the miner rolls, within the length of an extranonce.
def Admissible (s : System C) : Action → Prop
  | .downstream (.updateChannel _) =>
    s.manager.mode = .aggregated → s.manager.upstreamExtendedChannel.isSome
  | .upstream (.openExtendedMiningChannelSuccess m) => s.manager.Admits m
  | _ => True

instance : DecidablePred s.Admissible := by
  intro a
  induction a using Action.casesOn with
  | downstream m =>
    induction m using Mining.casesOn with
    | updateChannel => exact inferInstanceAs <| Decidable <|
      s.manager.mode = .aggregated → s.manager.upstreamExtendedChannel.isSome
    | _ => exact inferInstanceAs (Decidable True)
  | upstream m =>
    induction m using Mining.casesOn with
    | openExtendedMiningChannelSuccess m => exact inferInstanceAs (Decidable (s.manager.Admits m))
    | _ => exact inferInstanceAs (Decidable True)
  | _ => exact inferInstanceAs (Decidable True)

theorem sound_deliver {x : Result C} (h : s.status = .running) :
    (s.deliver x).Sound ↔ ¬Missing x := by
  cases x with
  | ok r        => simp [deliver, Sound, h]
  | error fault => simp [deliver, Sound, Missing]

theorem sound_act (hX : C.extranonce.Roomy) (hf : s.manager.HasFactory) (h : s.status = .running) :
    (s.act cfg a).Sound ↔ s.Admissible a := by
  cases a with
  | downstream m =>
    rw [act, sound_deliver, ChannelManager.missing_handleDownstreamMessage hf]
    · cases m <;> simp [Admissible, Option.isSome_iff_ne_none]
    · exact h
  | upstream m =>
    rw [act, sound_deliver, ChannelManager.missing_handleMiningMessageFromServer hX]
    · cases m <;> simp [Admissible]
    · exact h
  | extensions m =>
    rw [act, sound_deliver h]
    simp [Admissible, ChannelManager.missing_handleExtensionsMessageFromServer]
  | fallback => simp [act, Sound, Admissible, h]

theorem hasFactory_step (hf : s.manager.HasFactory) (h : s.step cfg a = some s') :
    s'.manager.HasFactory := by
  cases (moves_of_step h).right with
  | downstream hm   => exact ChannelManager.hasFactory_downstream hf hm
  | upstream hm     => exact ChannelManager.hasFactory_upstream hf hm
  | extensions      => exact hf
  | fallback        => exact fun h => nomatch h
  | downstreamFails => exact hf
  | upstreamFails   => exact hf
  | extensionsFails => exact hf

theorem sound_step (hX : C.extranonce.Roomy) (hf : s.manager.HasFactory) (h : s.step cfg a = some s') :
    s'.Sound ↔ s.Admissible a := by
  rw [step] at h
  split at h
  case h_1 hs =>
    cases h
    exact sound_act hX hf hs
  case h_2 => cases h

-- No step of a run stops the manager so exactly when every step is admissible.
theorem sound_iff_admissible (hX : C.extranonce.Roomy) (r : (machine C cfg mode).Run tr s) :
    (∀ e ∈ tr, e.post.Sound) ↔ Machine.Along Admissible tr := by
  have h₀ (s : System C) (h : (machine C cfg mode).Init s) : s.manager.HasFactory := by
    rw [h.manager]
    exact fun h => nomatch h
  refine forall₂_congr fun e he => ?_
  have hf : e.pre.manager.HasFactory :=
    (r.reachable_of_mem he).invariant (I := fun s => s.manager.HasFactory) h₀
      fun _ _ _ => hasFactory_step
  have hst : e.pre.step cfg e.act = some e.post := r.step_of_mem he
  exact sound_step hX hf hst

end System

section Sample

open Sample

theorem update_exec :
    ((machine reference config .aggregated).exec (.start .aggregated) [update]).any fun s =>
      s.status = .stopped (.panicked unwrapNone) := by
  decide +kernel

-- A miner that leaves before the upstream channel is there makes the SV1 server send the update.
theorem not_sound : ¬∀ tr s, (machine reference config .aggregated).Run tr s →
    ∀ e ∈ tr, e.post.Sound := by
  intro h
  obtain ⟨s, hs, he⟩ := Option.any_eq_true _ _ |>.mp update_exec
  have r := Machine.Run.init (M := machine reference config .aggregated) System.start_init
  have r := r.snoc (a := update) (by simpa [Machine.exec] using hs)
  have hm : unwrapNone ∈ missingState := List.mem_cons_self
  exact h _ _ r _ List.mem_concat_self _ hm (of_decide_eq_true he)

def updated : List Action :=
  [openChannel 1, opened 1 1 8 [7], update]

theorem updated_exec : ((machine reference config .aggregated).exec (.start .aggregated) updated).any
    fun s => s.status = .running := by
  decide +kernel

theorem updated_admissible :
    ((machine reference config .aggregated).trace (.start .aggregated) updated).all
      fun e => e.pre.Admissible e.act := by
  decide +kernel

-- The upstream grants just what the miner rolls, so that there is no prefix of the translator.
theorem exact_exec :
    ((machine reference config .aggregated).exec (.start .aggregated) [openChannel 1]).any fun s =>
      (s.step config (opened 1 1 4 [7])).any fun s' => s'.status =
        .stopped (.panicked "next_prefix_extended should return a value for valid input") := by
  decide +kernel

theorem sound_iff_admissible_sample : (∃ tr s, (machine reference config .aggregated).Run tr s ∧
    s.status = .running ∧ ∀ e ∈ tr, e.post.Sound) ∧
    ∃ tr s, (machine reference config .aggregated).Run tr s ∧
      s.status = .stopped (.panicked "next_prefix_extended should return a value for valid input") ∧
      ¬Machine.Along System.Admissible tr := by
  have hX : reference.extranonce.Roomy := Reference.extranonces_roomy
  constructor
  case left =>
    obtain ⟨s, hs, he⟩ := Option.any_eq_true _ _ |>.mp updated_exec
    have r := Machine.Run.of_exec System.start_init hs
    refine ⟨_, s, r, of_decide_eq_true he, (System.sound_iff_admissible hX r).mpr fun e he => ?_⟩
    exact of_decide_eq_true (List.all_eq_true.mp updated_admissible e he)
  case right =>
    obtain ⟨s, hs, h⟩ := Option.any_eq_true _ _ |>.mp exact_exec
    obtain ⟨s', hs', he⟩ := Option.any_eq_true _ _ |>.mp h
    have r := (Machine.Run.of_exec System.start_init hs).snoc hs'
    refine ⟨_, s', r, of_decide_eq_true he, fun ha => ?_⟩
    have hs := (System.sound_iff_admissible hX r).mpr ha _ List.mem_concat_self
    exact hs _ (by simp [missingState]) (of_decide_eq_true he)

end Sample

end Translator
