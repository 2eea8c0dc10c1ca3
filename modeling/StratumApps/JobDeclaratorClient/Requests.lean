import StratumApps.JobDeclaratorClient.Messages
import StratumApps.JobDeclaratorClient.Provenance

open Sv2 Handler StratumCore

namespace Jdc

variable {C : StratumCore} {cfg : Config}

-- At most `n` request ids have been taken in between.
def Numbers (n : ℕ) (i j : RequestId) : Prop :=
  ∃ k ≤ n, j = i + .ofNat k

namespace Numbers

variable {n m : ℕ} {i j k : RequestId}

theorem refl : Numbers n i i :=
  ⟨0, Nat.zero_le n, by simp⟩

theorem succ : Numbers 1 i (i + 1) :=
  ⟨1, le_rfl, rfl⟩

theorem mono (h : Numbers n i j) (hn : n ≤ m) : Numbers m i j := by
  obtain ⟨a, ha, rfl⟩ := h
  exact ⟨a, ha.trans hn, rfl⟩

theorem trans (h : Numbers n i j) (h' : Numbers m j k) : Numbers (n + m) i k := by
  obtain ⟨a, ha, rfl⟩ := h
  obtain ⟨b, hb, rfl⟩ := h'
  exact ⟨a + b, Nat.add_le_add ha hb, by rw [UInt32.ofNat_add, UInt32.add_assoc]⟩

theorem bounds (h : Numbers n i j) (hn : i.toNat + n < 2 ^ 32) :
    i.toNat ≤ j.toNat ∧ j.toNat ≤ i.toNat + n := by
  obtain ⟨a, ha, rfl⟩ := h
  rw [UInt32.toNat_add, UInt32.toNat_ofNat', Nat.add_mod_mod, Nat.mod_eq_of_lt (by omega)]
  omega

end Numbers

namespace ChannelManager

variable {s s' : ChannelManager C} {o : Outcome C} {n : ℕ} {outputs paid : List TxOut}
variable {upstream : C.Upstream} {token : Bytes} {prevHash : SetNewPrevHash} {template : NewTemplate}
variable {jobs : List SetCustomMiningJob}

theorem Customizes.numbers (h : Customizes upstream token prevHash template outputs s n jobs s') :
    Numbers n s.requestIdFactory s'.requestIdFactory := by
  induction h with
  | nil           => exact .refl
  | register _ ih => exact ih
  | custom _ _ ih =>
    obtain ⟨_, _, he⟩ := makeCustomJob_frame
    rw [he]
    exact ih.trans .succ

theorem Templated.numbers (h : s.Templated template outputs jobs s') :
    Numbers s.downstream.entries.length s.requestIdFactory s'.requestIdFactory := by
  obtain ⟨_, _, _, _, h⟩ | ⟨_, _, _, rfl⟩ := h
  · exact h.numbers
  · exact .refl

theorem Customized.numbers {upstreamChannel : Option C.Upstream}
    (h : s.Customized upstreamChannel outputs jobs s') :
    Numbers 1 s.requestIdFactory s'.requestIdFactory := by
  cases h with
  | idle => exact .refl
  | made =>
    obtain ⟨_, _, he⟩ := makeCustomJob_frame
    rw [he]
    exact .succ

theorem renewToken_numbers {asked : Bool} :
    Numbers 1 s.requestIdFactory (s.renewToken cfg asked).1.requestIdFactory := by
  rw [renewToken]
  split
  case isTrue  => exact .succ
  case isFalse => exact .refl

theorem handleNewTemplate_numbers {msg : NewTemplate} (h : s.handleNewTemplate cfg msg = .ok o) :
    Numbers (s.downstream.entries.length + 1) s.requestIdFactory o.manager.requestIdFactory := by
  obtain ⟨_, _, _, _, _, _, _, ht, hm, _⟩ := handleNewTemplate_eq_ok h
  rw [hm]
  exact ht.numbers.trans renewToken_numbers

theorem handleSetNewPrevHash_numbers {msg : SetNewPrevHash}
    (h : s.handleSetNewPrevHash cfg msg = .ok o) :
    Numbers 2 s.requestIdFactory o.manager.requestIdFactory := by
  obtain ⟨_, _, _, _, _, hc, hm, _⟩ := handleSetNewPrevHash_eq_ok h
  rw [hm]
  refine Numbers.trans (n := 1) (m := 1) (i := (s.tipped msg).requestIdFactory) hc.numbers ?_
  exact renewToken_numbers

theorem Declared.numbers {msg : RequestTransactionDataSuccess} {jobs : List DeclareMiningJob}
    (h : s.Declared msg jobs s') : s'.requestIdFactory = s.requestIdFactory + 1 + 1 := by
  cases h <;> rfl

theorem firstMessages_numbers {job : Option SetCustomMiningJob} :
    Numbers 1 s.requestIdFactory (s.firstMessages cfg job).1.requestIdFactory := by
  rw [firstMessages]
  split
  case h_1 => exact .refl
  case h_2 =>
    cases job with
    | none   => exact .refl
    | some _ => exact .succ
  case h_3 => exact .refl

theorem handleOpenExtendedMiningChannelSuccess_numbers {msg : OpenExtendedMiningChannelSuccess}
    (h : s.handleOpenExtendedMiningChannelSuccess cfg msg = .ok o) :
    Numbers 2 s.requestIdFactory o.manager.requestIdFactory := by
  cases he : s.established cfg msg with
  | none =>
    obtain ⟨hm, _⟩ := handleOpenExtendedMiningChannelSuccess_none he h
    rw [hm]
    exact .mono .succ one_le_two
  | some r =>
    have hh := handleOpenExtendedMiningChannelSuccess_some he
    obtain ⟨hw, _⟩ := openPending_serves (hh.symm.trans h)
    rw [show o.manager.requestIdFactory = r.1.requestIdFactory from congrArg Work.requestIdFactory hw]
    simp only [established, Option.bind_eq_bind, Option.bind_eq_some_iff, toOption_eq_some,
      Option.pure_def, Option.some.injEq] at he
    obtain ⟨outputs, _, request, _, extranonces, _, rfl⟩ := he
    have hc : s.Customized (some (s.newUpstreamChannel cfg msg request.hashrate)) outputs _ _ :=
      firstCustomJob_customized
    refine Numbers.trans (n := 1) (m := 1) hc.numbers ?_
    exact firstMessages_numbers

theorem handleMiningMessageFromServer_numbers {m : Mining}
    (h : s.handleMiningMessageFromServer cfg m = .ok o) :
    Numbers 2 s.requestIdFactory o.manager.requestIdFactory := by
  by_cases ho : ∃ msg, m = .openExtendedMiningChannelSuccess msg
  case pos =>
    obtain ⟨msg, rfl⟩ := ho
    exact handleOpenExtendedMiningChannelSuccess_numbers h
  case neg =>
    by_cases hj : ∃ msg, m = .setCustomMiningJobSuccess msg
    case pos =>
      obtain ⟨msg, rfl⟩ := hj
      obtain ⟨hm | ⟨_, _, _, hm⟩, _⟩ := handleSetCustomMiningJobSuccess_frame h <;> rw [hm] <;>
        exact .refl
    case neg =>
      obtain ⟨_, _, _, _, hm, _⟩ :=
        handleMiningMessageFromServer_frame (fun msg h => ho ⟨msg, h⟩) (fun msg h => hj ⟨msg, h⟩) h
      rw [hm]
      exact .refl

theorem handleTemplateDistributionMessageFromServer_numbers {m : TemplateDistribution}
    (h : s.handleTemplateDistributionMessageFromServer cfg m = .ok o) :
    Numbers (s.downstream.entries.length + 2) s.requestIdFactory o.manager.requestIdFactory := by
  rw [handleTemplateDistributionMessageFromServer.eq_def] at h
  split at h
  case h_1 => exact (handleNewTemplate_numbers h).mono (by omega)
  case h_2 => exact (handleSetNewPrevHash_numbers h).mono (by omega)
  case h_3 =>
    rw [handleRequestTxDataError] at h
    split at h
    case isTrue =>
      cases pure_eq_ok.mp h
      exact .refl
    case isFalse => cases h
  case h_4 =>
    rw [(handleRequestTxDataSuccess_declared h).left.numbers]
    exact .mono (.trans .succ .succ) (by omega)
  case h_5 => cases h

section Bare

variable {k : RequestId} {s₁ : ChannelManager C}

-- The record of a custom job that was made without a declaration.
def Bare (s : ChannelManager C) (k : RequestId) : Prop :=
  ∃ declared, s.lastDeclareJobStore.lookup k = some declared ∧ declared.declareMiningJob = none

-- Records without a declaration come under request ids that are taken meanwhile.
structure Fills (s s' : ChannelManager C) : Prop where
  le   : s.requestIdFactory.toNat ≤ s'.requestIdFactory.toNat
  bare : ∀ k, s'.Bare k →
    s.Bare k ∨ s.requestIdFactory.toNat ≤ k.toNat ∧ k.toNat < s'.requestIdFactory.toNat

namespace Fills

theorem trans (h : s.Fills s₁) (h' : s₁.Fills s') : s.Fills s' where
  le := h.le.trans h'.le
  bare k hb := by
    obtain hb | ⟨hle, hlt⟩ := h'.bare k hb
    · exact (h.bare k hb).imp_right fun hk => ⟨hk.left, hk.right.trans_le h'.le⟩
    · exact .inr ⟨h.le.trans hle, hlt⟩

theorem of_bare (hle : s.requestIdFactory.toNat ≤ s'.requestIdFactory.toNat)
    (hb : ∀ k, s'.Bare k → s.Bare k) : s.Fills s' :=
  ⟨hle, fun k h => .inl (hb k h)⟩

theorem of_store (hle : s.requestIdFactory.toNat ≤ s'.requestIdFactory.toNat)
    (hs : s'.lastDeclareJobStore = s.lastDeclareJobStore) : s.Fills s' :=
  of_bare hle fun _ ⟨declared, hl, hn⟩ => ⟨declared, hs ▸ hl, hn⟩

end Fills

theorem makeCustomJob_fills {factory : C.JobFactory} (hn : s.requestIdFactory.toNat + 1 < 2 ^ 32) :
    s.Fills (s.makeCustomJob factory upstream token prevHash template outputs).1 := by
  have hr : (s.makeCustomJob factory upstream token prevHash template outputs).1.requestIdFactory.toNat =
      s.requestIdFactory.toNat + 1 := by
    obtain ⟨_, _, he⟩ := makeCustomJob_frame
    rw [he]
    simp only [UInt32.toNat_add, UInt32.reduceToNat]
    omega
  refine ⟨by omega, fun k ⟨declared, hl, hd⟩ => ?_⟩
  simp only [makeCustomJob] at hl
  split at hl
  case h_1 =>
    simp only [storeCustomJob, Map.lookup_insert_ite] at hl
    split at hl
    case isTrue hk =>
      cases hk
      exact .inr ⟨le_rfl, by omega⟩
    case isFalse => exact .inl ⟨declared, hl, hd⟩
  case h_2 => exact .inl ⟨declared, hl, hd⟩

theorem Customizes.fills (h : Customizes upstream token prevHash template outputs s n jobs s')
    (hn : s.requestIdFactory.toNat + n < 2 ^ 32) : s.Fills s' := by
  induction h with
  | nil            => exact .of_store le_rfl rfl
  | register _ ih  => exact (ih hn).trans (.of_store le_rfl rfl)
  | custom hc _ ih =>
    have hub := (hc.numbers.bounds (by omega)).right
    exact (ih (by omega)).trans (makeCustomJob_fills (by omega))

theorem Templated.fills (h : s.Templated template outputs jobs s')
    (hn : s.requestIdFactory.toNat + s.downstream.entries.length < 2 ^ 32) : s.Fills s' := by
  obtain ⟨_, _, _, _, h⟩ | ⟨_, _, _, rfl⟩ := h
  · exact h.fills hn
  · exact .of_store le_rfl rfl

theorem Customized.fills {upstreamChannel : Option C.Upstream}
    (h : s.Customized upstreamChannel outputs jobs s')
    (hn : s.requestIdFactory.toNat + 1 < 2 ^ 32) : s.Fills s' := by
  cases h with
  | idle => exact .of_store le_rfl rfl
  | made => exact makeCustomJob_fills hn

theorem renewToken_fills {asked : Bool} (hn : s.requestIdFactory.toNat + 1 < 2 ^ 32) :
    s.Fills (s.renewToken cfg asked).1 := by
  refine .of_store (renewToken_numbers.bounds hn).left ?_
  rw [renewToken]
  split <;> rfl

theorem tipped_fills {msg : SetNewPrevHash} : s.Fills (s.tipped msg) := by
  refine .of_bare le_rfl fun k ⟨declared, hl, hd⟩ => ?_
  rw [tipped, onChainTipUpdate, recordPrevHash, Map.lookup_mapValues, Option.map_eq_some_iff] at hl
  obtain ⟨old, ho, rfl⟩ := hl
  exact ⟨old, ho, activate_declaration.left.symm.trans hd⟩

theorem handleNewTemplate_fills {msg : NewTemplate} (h : s.handleNewTemplate cfg msg = .ok o)
    (hn : s.requestIdFactory.toNat + s.downstream.entries.length + 1 < 2 ^ 32) :
    s.Fills o.manager := by
  obtain ⟨_, _, D, s₁, _, _, _, ht, hm, _⟩ := handleNewTemplate_eq_ok h
  have hs : s.Fills (s.storeTemplate msg) := .of_store le_rfl rfl
  have hroom : (s.storeTemplate msg).requestIdFactory.toNat +
      (s.storeTemplate msg).downstream.entries.length + 1 < 2 ^ 32 := hn
  have hub := (ht.numbers.bounds (by omega)).right
  have hf := hs.trans (ht.fills (by omega))
  rw [hm]
  have hd : s₁.Fills { s₁ with downstream := D } := .of_store le_rfl rfl
  refine (hf.trans hd).trans (renewToken_fills ?_)
  show s₁.requestIdFactory.toNat + 1 < 2 ^ 32
  omega

theorem handleSetNewPrevHash_fills {msg : SetNewPrevHash}
    (h : s.handleSetNewPrevHash cfg msg = .ok o) (hn : s.requestIdFactory.toNat + 2 < 2 ^ 32) :
    s.Fills o.manager := by
  obtain ⟨_, _, s₁, D, _, hc, hm, _⟩ := handleSetNewPrevHash_eq_ok h
  have hroom : (s.tipped msg).requestIdFactory.toNat + 2 < 2 ^ 32 := hn
  have hub := (hc.numbers.bounds (by omega)).right
  have hf := tipped_fills.trans (hc.fills (by omega))
  rw [hm]
  have hd : s₁.Fills { s₁ with downstream := D } := .of_store le_rfl rfl
  refine (hf.trans hd).trans (renewToken_fills ?_)
  show s₁.requestIdFactory.toNat + 1 < 2 ^ 32
  omega

theorem firstMessages_fills {job : Option SetCustomMiningJob}
    (hn : s.requestIdFactory.toNat + 1 < 2 ^ 32) : s.Fills (s.firstMessages cfg job).1 := by
  have ⟨_, he⟩ : ∃ requestId, (s.firstMessages cfg job).1 = { s with requestIdFactory := requestId } :=
    firstMessages_frame
  exact .of_store (firstMessages_numbers.bounds hn).left (he ▸ rfl)

theorem openUpstreamChannel_fills {msg : OpenExtendedMiningChannelSuccess} {extranonces : C.Extranonce}
    {hashrate : F32} (hn : s.requestIdFactory.toNat + 2 < 2 ^ 32) :
    s.Fills (s.openUpstreamChannel cfg msg extranonces hashrate outputs).1 := by
  have hc : s.Customized (some (s.newUpstreamChannel cfg msg hashrate)) outputs _ _ :=
    firstCustomJob_customized
  have hub := (hc.numbers.bounds (by omega)).right
  refine (hc.fills (by omega)).trans ?_
  rw [openUpstreamChannel]
  refine .trans ?_ (firstMessages_fills ?_)
  · exact .of_store le_rfl rfl
  · exact (Nat.add_le_add_right hub 1).trans_lt hn

theorem handleOpenExtendedMiningChannelSuccess_fills {msg : OpenExtendedMiningChannelSuccess}
    (h : s.handleOpenExtendedMiningChannelSuccess cfg msg = .ok o)
    (hn : s.requestIdFactory.toNat + 2 < 2 ^ 32) : s.Fills o.manager := by
  cases he : s.established cfg msg with
  | none =>
    obtain ⟨hm, _⟩ := handleOpenExtendedMiningChannelSuccess_none he h
    rw [hm]
    exact .of_store (Numbers.succ.bounds (by omega)).left rfl
  | some r =>
    have hh := handleOpenExtendedMiningChannelSuccess_some he
    obtain ⟨hw, _⟩ := openPending_serves (hh.symm.trans h)
    simp only [established, Option.bind_eq_bind, Option.bind_eq_some_iff, toOption_eq_some,
      Option.pure_def, Option.some.injEq] at he
    obtain ⟨outputs, _, request, _, extranonces, _, rfl⟩ := he
    have hr := congrArg Work.requestIdFactory hw
    have hs := congrArg Work.lastDeclareJobStore hw
    exact Fills.trans (openUpstreamChannel_fills hn) (.of_store (congrArg UInt32.toNat hr).ge hs)

end Bare

theorem Declared.bare {msg : RequestTransactionDataSuccess} {jobs : List DeclareMiningJob}
    {k : RequestId} (h : s.Declared msg jobs s') (hb : s'.Bare k) : s.Bare k := by
  obtain ⟨declared, hl, hd⟩ := hb
  cases h with
  | idle     => exact ⟨declared, hl, hd⟩
  | failed   => exact ⟨declared, hl, hd⟩
  | declared =>
    simp only [storeDeclaredJob, Map.lookup_insert_ite] at hl
    split at hl
    case isTrue =>
      cases hl
      cases hd
    case isFalse => exact ⟨declared, hl, hd⟩

section Declares

variable {msg : RequestTransactionDataSuccess} {job job' : DeclareMiningJob}
variable {template' : NewTemplate} {paid' : List TxOut} {factory factory' : C.JobFactory}

theorem Declares.requestId (h : s.Declares msg template paid job factory) :
    job.requestId = s.requestIdFactory := by
  obtain ⟨_, _, _, _, _, _, hj⟩ := h.job
  exact (declareJob_eq_ok hj).left

theorem Declares.txIds (h : s.Declares msg template paid job factory) :
    List.Forall₂ (fun raw txid => C.computeTxid raw = .ok txid) msg.transactionList
      job.txIdsList.1 := by
  obtain ⟨_, _, _, _, hi, _, hj⟩ := h.job
  rw [(declareJob_eq_ok hj).right.right]
  exact txIds_eq_ok hi

theorem Declares.unique (h : s.Declares msg template paid job factory)
    (h' : s.Declares msg template' paid' job' factory') : job = job' := by
  cases h.stored.symm.trans h'.stored
  obtain ⟨outputs, ho, hp⟩ := h.outputs
  obtain ⟨outputs', ho', hp'⟩ := h'.outputs
  cases ho.symm.trans ho'
  cases hp.symm.trans hp'
  obtain ⟨token, ids, f, ht, hi, hf, hj⟩ := h.job
  obtain ⟨token', ids', f', ht', hi', hf', hj'⟩ := h'.job
  cases ht.symm.trans ht'
  cases hi.symm.trans hi'
  cases hf.symm.trans hf'
  cases hj.symm.trans hj'
  rfl

-- A declaration that can be made is made.
theorem Declares.returns (cfg : Config) (h : s.Declares msg template paid job factory) :
    Returns (s.handleRequestTxDataSuccess cfg msg) := by
  obtain ⟨outputs, ho, hp⟩ := h.outputs
  obtain ⟨token, ids, f, ht, hi, hf, hj⟩ := h.job
  refine returns_bind.mpr ⟨outputs, ofExcept_eq_ok.mpr ho, ?_⟩
  simp only [ht, h.stored]
  refine returns_bind.mpr ⟨paid, expect_eq_ok.mpr hp, returns_bind.mpr ⟨ids, hi, ?_⟩⟩
  simp only [allocateToken, requestTokens, hf]
  exact returns_bind.mpr ⟨(factory, some job), hj, returns_pure⟩

end Declares

end ChannelManager

namespace System

open ChannelManager

section Acts

variable {s s' : ChannelManager C} {a : Action} {messages : List RouteMessageTo}

-- A step that is no fallback takes the next request ids, if any.
theorem numbers_of_acts (hf : ∀ outputs, a ≠ .fallback outputs) (h : Acts cfg s a s' messages) :
    Numbers (s.downstream.entries.length + 2) s.requestIdFactory s'.requestIdFactory := by
  cases h with
  | fallback => exact absurd rfl (hf _)
  | stuck    => exact .refl
  | token    => exact .mono .succ (by omega)
  | @handled a o h =>
    cases a with
    | downstreamMessage d m =>
      have hs := handleDownstreamMessage_serves (Option.some.inj h)
      rw [show o.manager.requestIdFactory = s.requestIdFactory from
        congrArg Work.requestIdFactory hs.work]
      exact .refl
    | poolMessage m =>
      exact (handleMiningMessageFromServer_numbers (Option.some.inj h)).mono (by omega)
    | extensionsMessage m =>
      obtain ⟨_, hm, _⟩ := handleExtensionsMessageFromServer_frame (Option.some.inj h)
      rw [hm]
      exact .refl
    | jdsMessage m =>
      obtain ⟨_, _, _, _, hm⟩ := handleJobDeclarationMessageFromServer_frame (Option.some.inj h)
      rw [hm]
      exact .refl
    | templateMessage m =>
      exact handleTemplateDistributionMessageFromServer_numbers (Option.some.inj h)
    | vardiff =>
      obtain ⟨_, _, hm, _⟩ := runVardiff_frame (Option.some.inj h)
      rw [hm]
      exact .refl
    | _ => cases h
  | _ => exact .refl

theorem fills_of_acts (hf : ∀ outputs, a ≠ .fallback outputs)
    (hn : s.requestIdFactory.toNat + s.downstream.entries.length + 2 < 2 ^ 32)
    (h : Acts cfg s a s' messages) : s.Fills s' := by
  have hle := (numbers_of_acts hf h).bounds (by omega) |>.left
  have hw := works_of_acts h
  generalize declarations messages = ds at hw
  generalize customJobs messages = cs at hw
  cases hw with
  | reset => exact absurd rfl (hf _)
  | template =>
    cases h with
    | handled h => exact handleNewTemplate_fills (Option.some.inj h) (by omega)
    | fails     => exact .of_store le_rfl rfl
  | tip =>
    cases h with
    | handled h => exact handleSetNewPrevHash_fills (Option.some.inj h) (by omega)
    | fails     => exact .of_store le_rfl rfl
  | opened =>
    cases h with
    | handled h => exact handleOpenExtendedMiningChannelSuccess_fills (Option.some.inj h) (by omega)
    | fails     => exact .of_store le_rfl rfl
  | kept hw => exact .of_store hle (congrArg Work.lastDeclareJobStore hw)
  | accepted _ hw =>
    refine .of_bare hle fun k hb => ?_
    obtain ⟨declared, hl, hd⟩ := hb
    refine ⟨declared, ?_, hd⟩
    rw [show s'.lastDeclareJobStore = _ from congrArg Work.lastDeclareJobStore hw] at hl
    simp only [ChannelManager.work, ChannelManager.mapTemplate] at hl
    rw [Map.lookup_filterValues, Option.filter_eq_some_iff, Map.lookup_erase_ite] at hl
    exact (Option.ite_none_left_eq_some.mp hl.left).right
  | @custom m =>
    refine .of_bare hle fun k hb => ?_
    obtain ⟨declared, hl, hd⟩ := hb
    by_cases hk : k = m.requestId
    case pos =>
      subst hk
      rw [Map.lookup_modify, Option.map_eq_some_iff] at hl
      obtain ⟨old, hl, rfl⟩ := hl
      exact ⟨old, hl, hd⟩
    case neg =>
      rw [Map.lookup_modify_ne hk] at hl
      exact ⟨declared, hl, hd⟩
  | declared hd => exact .of_bare hle fun k hb => hd.bare hb
  | _           => exact .of_store hle rfl

-- A step declares what waits for its prev hash, or what it makes of the data of a template.
theorem declared_of_works {ds : List DeclareMiningJob} {cs : List SetCustomMiningJob}
    (h : Works cfg s a s' ds cs) :
    ds = [] ∨ (∃ m, a = .templateMessage (.setNewPrevHash m)) ∧ ds = declarations s.declarePending ∨
      ∃ data template paid job factory, a = .templateMessage (.requestTransactionDataSuccess data) ∧
        s.Declares data template paid job factory ∧ ds = [job] := by
  cases h with
  | tip      => exact .inr (.inl ⟨⟨_, rfl⟩, rfl⟩)
  | declared hd =>
    cases hd with
    | idle        => exact .inl rfl
    | failed      => exact .inl rfl
    | declared hj =>
      split
      case isTrue  => exact .inl rfl
      case isFalse => exact .inr (.inr ⟨_, _, _, _, _, rfl, hj, rfl⟩)
  | _ => exact .inl rfl

-- The declaration of a step that can make one takes its request id.
theorem requestIdFactory_of_declares {data : RequestTransactionDataSuccess} {template : NewTemplate}
    {paid : List TxOut} {job : DeclareMiningJob} {factory : C.JobFactory}
    (hd : s.Declares data template paid job factory)
    (h : Acts cfg s (.templateMessage (.requestTransactionDataSuccess data)) s' messages) :
    s'.requestIdFactory = s.requestIdFactory + 1 + 1 := by
  cases h with
  | handled h => exact (handleRequestTxDataSuccess_declared (Option.some.inj h)).left.numbers
  | fails h   =>
    obtain ⟨o, ho⟩ := hd.returns cfg
    cases ho.symm.trans (Option.some.inj h)

theorem bare_of_requested {data : RequestTransactionDataSuccess} {k : RequestId}
    (h : Acts cfg s (.templateMessage (.requestTransactionDataSuccess data)) s' messages)
    (hb : s'.Bare k) : s.Bare k := by
  cases h with
  | handled h => exact (handleRequestTxDataSuccess_declared (Option.some.inj h)).left.bare hb
  | fails     => exact hb

-- The client has only tokens that the server has allocated.
theorem allocated_of_works {ds : List DeclareMiningJob} {cs : List SetCustomMiningJob}
    {m : AllocateMiningJobTokenSuccess} (h : Works cfg s a s' ds cs) (hm : s'.allocateTokens = some m) :
    s.allocateTokens = some m ∨ a = .jdsMessage (.allocateMiningJobTokenSuccess m) := by
  cases h with
  | kept hw | accepted _ hw => exact .inl ((congrArg Work.allocateTokens hw).symm.trans hm)
  | reset hw                => cases (congrArg Work.allocateTokens hw).symm.trans hm
  | allocated =>
    cases hm
    exact .inr rfl
  | template _ _ ht hw =>
    obtain ⟨_, _, _, _, rfl⟩ := ht.frame
    exact .inl ((congrArg Work.allocateTokens hw).symm.trans hm)
  | tip _ hc hw | opened _ _ hc hw =>
    obtain ⟨_, _, _, rfl⟩ := hc.frame
    exact .inl ((congrArg Work.allocateTokens hw).symm.trans hm)
  | declared hd =>
    cases hd with
    | idle | failed | declared => exact .inl hm
  | _ => exact .inl hm

end Acts

section Run

variable {tr tr' : List (Event C)} {s s' : System C} {a : Action} {e : Event C}
variable {data data' : RequestTransactionDataSuccess} {job job' : DeclareMiningJob}
variable {reply : ProvideMissingTransactionsSuccess}

-- The declaration has been made with these transactions.
def Made (tr : List (Event C)) (data : RequestTransactionDataSuccess) (job : DeclareMiningJob) : Prop :=
  ∃ e ∈ tr, e.act = .templateMessage (.requestTransactionDataSuccess data) ∧
    ∃ template paid factory, e.pre.manager.Declares data template paid job factory

theorem Made.of_source {template : NewTemplate} {paid : List TxOut}
    (h : Source tr template data paid job) : Made tr data job := by
  obtain ⟨e, he, ha, factory, hd⟩ := h.made
  exact ⟨e, he, ha, template, paid, factory, hd⟩

theorem Made.txIds (h : Made tr data job) :
    List.Forall₂ (fun raw txid => C.computeTxid raw = .ok txid) data.transactionList
      job.txIdsList.1 := by
  obtain ⟨_, _, _, _, _, _, hd⟩ := h
  exact hd.txIds

theorem Made.snoc (h : Made tr data job) : Made (tr ++ [e]) data job := by
  obtain ⟨e', he, h⟩ := h
  exact ⟨e', List.mem_append_left _ he, h⟩

theorem made_snoc (h : Made (tr ++ [e]) data job) :
    Made tr data job ∨ e.act = .templateMessage (.requestTransactionDataSuccess data) ∧
      ∃ template paid factory, e.pre.manager.Declares data template paid job factory := by
  obtain ⟨e', he, h⟩ := h
  obtain he | he := List.mem_append.mp he
  · exact .inl ⟨e', he, h⟩
  · cases List.mem_singleton.mp he
    exact .inr h

-- A message of the server that has arrived in a run.
def Heard (tr : List (Event C)) (m : JobDeclaration) : Prop :=
  ∃ e ∈ tr, e.act = .jdsMessage m

theorem Heard.snoc {m : JobDeclaration} (h : Heard tr m) : Heard (tr ++ [e]) m := by
  obtain ⟨e', he, ha⟩ := h
  exact ⟨e', List.mem_append_left _ he, ha⟩

theorem heard_of_run (r : (machine C cfg).Run tr s) {m : AllocateMiningJobTokenSuccess}
    (hm : s.manager.allocateTokens = some m) : Heard tr (.allocateMiningJobTokenSuccess m) := by
  obtain ⟨s₀, hi, p⟩ := r
  induction p with
  | nil =>
    have hi : s₀.Init := hi
    cases hi.allocateTokens.symm.trans hm
  | snoc p hs ih =>
    obtain ⟨_, ha, _⟩ := acts_of_step hs
    obtain hm | rfl := allocated_of_works (works_of_acts ha) hm
    · exact (ih hm).snoc
    · exact ⟨_, List.mem_append_right _ (List.mem_singleton_self _), rfl⟩

-- A declaration is made with a token that has arrived.
theorem Made.token (h : Made tr data job) (r : (machine C cfg).Run tr s) :
    ∃ m, Heard tr (.allocateMiningJobTokenSuccess m) ∧ job.miningJobToken.1 = m.miningJobToken := by
  obtain ⟨e, he, _, _, _, _, hd⟩ := h
  obtain ⟨m, _, _, hm, _, _, hj⟩ := hd.job
  obtain ⟨tr₁, tr₂, rfl, r₁, _⟩ := r.split he
  obtain ⟨e', he', ha⟩ := heard_of_run r₁ hm
  exact ⟨m, ⟨e', List.mem_append_left _ he', ha⟩, (declareJob_eq_ok hj).right.left⟩

-- A step within one session with the server that has request ids left, and a prev hash for which no
-- declaration is sent again.
structure Fresh (s : System C) (a : Action) : Prop where
  stays : ∀ outputs, a ≠ .fallback outputs
  ids   : s.manager.requestIdFactory.toNat + s.manager.downstream.entries.length + 2 < 2 ^ 32
  once  : ∀ m, a = .templateMessage (.setNewPrevHash m) →
    ∀ job ∈ declarations s.manager.declarePending, job ∉ declarations s.sent

-- No declaration has the request id, and none will have it.
def Unmade (tr : List (Event C)) (s : ChannelManager C) (k : RequestId) : Prop :=
  k.toNat < s.requestIdFactory.toNat ∧ ∀ data job, Made tr data job → job.requestId ≠ k

-- Each declaration has a request id of its own, and is sent once.
structure Numbered (tr : List (Event C)) (s : System C) : Prop where
  below  : ∀ data job, Made tr data job → job.requestId.toNat < s.manager.requestIdFactory.toNat
  unique : ∀ data job data' job', Made tr data job → Made tr data' job' →
    job.requestId = job'.requestId → data = data' ∧ job = job'
  made   : ∀ job ∈ declarations s.sent, ∃ data, Made tr data job
  nodup  : (declarations s.sent).Nodup
  bare   : ∀ k, s.manager.Bare k → Unmade tr s.manager k

section Step

variable {k : RequestId} {messages : List RouteMessageTo}

-- A step makes a declaration under the next request id.
theorem made_of_acts (hf : Fresh s a) (ha : Acts cfg s.manager a s'.manager messages)
    (hm : Made (tr ++ [⟨s, a, s'⟩]) data job) : Made tr data job ∨
      a = .templateMessage (.requestTransactionDataSuccess data) ∧
        job.requestId = s.manager.requestIdFactory ∧
        s.manager.requestIdFactory.toNat < s'.manager.requestIdFactory.toNat := by
  obtain hm | ⟨rfl, _, _, _, hd⟩ := made_snoc hm
  · exact .inl hm
  · refine .inr ⟨rfl, hd.requestId, ?_⟩
    have hids := hf.ids
    rw [requestIdFactory_of_declares hd ha]
    simp only [UInt32.toNat_add, UInt32.reduceToNat]
    omega

theorem Unmade.step (hi : Unmade tr s.manager k) (hf : Fresh s a)
    (ha : Acts cfg s.manager a s'.manager messages) :
    Unmade (tr ++ [⟨s, a, s'⟩]) s'.manager k := by
  have hle := (fills_of_acts hf.stays hf.ids ha).le
  refine ⟨hi.left.trans_le hle, fun data job hm he => ?_⟩
  obtain hm | ⟨_, hid, _⟩ := made_of_acts hf ha hm
  · exact hi.right data job hm he
  · have hlt := hi.left
    rw [← he, hid] at hlt
    exact lt_irrefl _ hlt

theorem Numbered.bare_step (hi : Numbered tr s) (hf : Fresh s a)
    (ha : Acts cfg s.manager a s'.manager messages) (hb : s'.manager.Bare k) :
    Unmade (tr ++ [⟨s, a, s'⟩]) s'.manager k := by
  obtain hb | ⟨hle, hlt⟩ := (fills_of_acts hf.stays hf.ids ha).bare k hb
  · exact (hi.bare k hb).step hf ha
  · refine ⟨hlt, fun data job hm he => ?_⟩
    obtain hm | ⟨rfl, _⟩ := made_of_acts hf ha hm
    · have hb := hi.below data job hm
      rw [he] at hb
      exact absurd hb hle.not_gt
    · exact hle.not_gt (hi.bare k (bare_of_requested ha hb)).left

theorem Numbered.nodup_step (hi : Numbered tr s) (hf : Fresh s a)
    (ha : Acts cfg s.manager a s'.manager messages) (hsent : s'.sent = s.sent ++ messages) :
    (declarations s'.sent).Nodup := by
  rw [hsent, declarations_append]
  obtain hd | ⟨⟨m, hm⟩, hd⟩ | ⟨data, _, _, job, _, hm, hj, hd⟩ := declared_of_works (works_of_acts ha)
  · rw [hd, List.append_nil]
    exact hi.nodup
  · rw [hd, List.nodup_append]
    refine ⟨hi.nodup, ?_, fun job hj job' hj' he => hf.once m hm job' hj' (he ▸ hj)⟩
    rw [declarePending]
    split
    case isTrue  => cases s.manager.pendingDeclaration <;> simp [declarations, RouteMessageTo.declaration]
    case isFalse => exact List.nodup_nil
  · rw [hd, List.nodup_append]
    refine ⟨hi.nodup, List.nodup_singleton job, fun job' hj' job'' hj'' he => ?_⟩
    cases List.mem_singleton.mp hj''
    subst he
    obtain ⟨data', hm'⟩ := hi.made _ hj'
    have hb := hi.below data' _ hm'
    rw [hj.requestId] at hb
    exact lt_irrefl _ hb

end Step

theorem Numbered.step (hi : Numbered tr s) (hf : Fresh s a) (r : (machine C cfg).Run tr s)
    (hC : C.Lawful) (h : s.step cfg a = some s') : Numbered (tr ++ [⟨s, a, s'⟩]) s' := by
  obtain ⟨messages, ha, hsent⟩ := acts_of_step h
  have hle := (fills_of_acts hf.stays hf.ids ha).le
  refine ⟨fun data job hm => ?_, fun data job data' job' hm hm' he => ?_, fun job hj => ?_,
    hi.nodup_step hf ha hsent, fun k => hi.bare_step hf ha⟩
  · obtain hm | ⟨_, hid, hlt⟩ := made_of_acts hf ha hm
    · exact (hi.below data job hm).trans_le hle
    · rwa [hid]
  · obtain hm | ⟨hm, _, _, _, hd⟩ := made_snoc hm <;>
      obtain hm' | ⟨hm', _, _, _, hd'⟩ := made_snoc hm'
    · exact hi.unique data job data' job' hm hm' he
    · have hb := hi.below data job hm
      rw [he, hd'.requestId] at hb
      exact absurd hb (lt_irrefl _)
    · have hb := hi.below data' job' hm'
      rw [← he, hd.requestId] at hb
      exact absurd hb (lt_irrefl _)
    · cases hm.symm.trans hm'
      exact ⟨rfl, hd.unique hd'⟩
  · rw [hsent, declarations_append] at hj
    obtain hj | hj := List.mem_append.mp hj
    · obtain ⟨data, hm⟩ := hi.made job hj
      exact ⟨data, hm.snoc⟩
    · have hj : job ∈ declarations (System.messages ⟨s, a, s'⟩) := by
        simpa [System.messages, hsent] using hj
      obtain ⟨_, data, _, hs, _⟩ :=
        (provenance_of_run hC (r.snoc h) tr _ [] rfl).declared job hj
      exact ⟨data, .of_source hs⟩

-- The reply answers a request that has arrived. It has the transactions at the positions asked for of
-- the declaration under that request id, if there is one.
def Replied (tr : List (Event C)) (s : System C) (reply : ProvideMissingTransactionsSuccess) : Prop :=
  ∃ request, Heard tr (.provideMissingTransactions request) ∧ reply.requestId = request.requestId ∧
    (Unmade tr s.manager request.requestId ∨ ∃ data job, Made tr data job ∧
      job.requestId = request.requestId ∧ reply.transactionList.1 =
        missingTransactions data.transactionList request.unknownTxPositionList)

end Run

end System

end Jdc
