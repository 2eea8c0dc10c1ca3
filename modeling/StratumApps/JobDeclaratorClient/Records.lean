import StratumApps.JobDeclaratorClient.Tokens

open Sv2 Handler StratumCore

namespace Jdc

variable {C : StratumCore} {cfg : Config}

namespace ChannelManager

variable {s s' s₁ : ChannelManager C} {factory : C.JobFactory} {upstream : C.Upstream} {token : Bytes}
variable {prevHash : SetNewPrevHash} {template : NewTemplate} {outputs : List TxOut}
variable {jobs : List SetCustomMiningJob} {n : ℕ} {k : RequestId} {declared : DeclaredJob}

-- The record of a custom job that was made without a declaration.
def Undeclared (template : NewTemplate) (prevHash : SetNewPrevHash) (declared : DeclaredJob) : Prop :=
  ∃ job outputs, declared = {
    declareMiningJob   := none
    template           := template
    prevHash           := some prevHash
    setCustomMiningJob := some job
    coinbaseOutput     := outputs
    txList             := [] }

theorem lookup_makeCustomJob
    (h : (s.makeCustomJob factory upstream token prevHash template outputs).1.lastDeclareJobStore.lookup
      k = some declared) :
    s.lastDeclareJobStore.lookup k = some declared ∨ Undeclared template prevHash declared := by
  simp only [makeCustomJob] at h
  split at h
  case h_1 job _ =>
    simp only [storeCustomJob, Map.lookup_insert_ite] at h
    split at h
    case isTrue =>
      cases h
      exact .inr ⟨job, s.coinbaseOutputs, rfl⟩
    case isFalse => exact .inl h
  case h_2 => exact .inl h

theorem Customizes.lookup (h : Customizes upstream token prevHash template outputs s n jobs s')
    (hl : s'.lastDeclareJobStore.lookup k = some declared) :
    s.lastDeclareJobStore.lookup k = some declared ∨ Undeclared template prevHash declared := by
  induction h with
  | nil           => exact .inl hl
  | register _ ih => exact ih hl
  | custom _ _ ih =>
    cases lookup_makeCustomJob hl
    case inl hl => exact ih hl
    case inr hu => exact .inr hu

theorem Customized.lookup {upstreamChannel : Option C.Upstream}
    (h : s.Customized upstreamChannel outputs jobs s')
    (hl : s'.lastDeclareJobStore.lookup k = some declared) :
    s.lastDeclareJobStore.lookup k = some declared ∨ ∃ template prevHash,
      s.lastFutureTemplate = some template ∧ s.lastNewPrevHash = some prevHash ∧
        Undeclared template prevHash declared := by
  cases h with
  | idle => exact .inl hl
  | made _ _ _ ht hp _ =>
    cases lookup_makeCustomJob hl
    case inl hl => exact .inl hl
    case inr hu => exact .inr ⟨_, _, ht, hp, hu⟩

-- The record of a declaration as it is made.
def declaredJob (s : ChannelManager C) (template : NewTemplate) (paid : List TxOut)
    (job : DeclareMiningJob) (txList : List Bytes) : DeclaredJob where
  declareMiningJob   := some job
  template           := template
  prevHash           := s.lastNewPrevHash
  setCustomMiningJob := none
  coinbaseOutput     := C.consensusEncode paid
  txList             := txList

-- Where a record comes from that a step leaves under a request id.
inductive Records (s : ChannelManager C) (a : Action) (k : RequestId) : DeclaredJob → Prop
  | kept {declared : DeclaredJob} :
    s.lastDeclareJobStore.lookup k = some declared → Records s a k declared
  | customized {declared : DeclaredJob} {job : SetCustomMiningJob} :
    s.lastDeclareJobStore.lookup k = some declared →
    Records s a k { declared with setCustomMiningJob := some job }
  | activated {m : SetNewPrevHash} {declared : DeclaredJob} :
    a = .templateMessage (.setNewPrevHash m) → s.lastDeclareJobStore.lookup k = some declared →
    Records s a k (activate m declared)
  | undeclared {template : NewTemplate} {prevHash : SetNewPrevHash} {declared : DeclaredJob} :
    Undeclared template prevHash declared → Records s a k declared
  | declared {m : RequestTransactionDataSuccess} {template : NewTemplate} {paid : List TxOut}
    {job : DeclareMiningJob} {factory : C.JobFactory} :
    a = .templateMessage (.requestTransactionDataSuccess m) →
    s.Declares m template paid job factory → k = job.requestId →
    Records s a k (s.declaredJob template paid job m.transactionList)

section Declarations

variable {s s' : ChannelManager C} {a : Action} {job : DeclareMiningJob} {positions : List UInt16}
variable {txList : List Bytes}

-- A declaration is stored under its request id, and lists the ids of the transactions that are
-- stored with it, in their order.
def Lists (s : ChannelManager C) : Prop :=
  ∀ k declared job, s.lastDeclareJobStore.lookup k = some declared →
    declared.declareMiningJob = some job → k = job.requestId ∧
      List.Forall₂ (fun raw txid => C.computeTxid raw = .ok txid) declared.txList job.txIdsList.1

-- The client has the declaration and its transactions.
def Remembers (s : ChannelManager C) (job : DeclareMiningJob) (txList : List Bytes) : Prop :=
  ∃ declared, s.lastDeclareJobStore.lookup job.requestId = some declared ∧
    declared.declareMiningJob = some job ∧ declared.txList = txList

theorem txIds_eq_ok {msg : RequestTransactionDataSuccess} {ids : Seq064K U256}
    (h : txIds (C := C) msg = .ok ids) :
    List.Forall₂ (fun raw txid => C.computeTxid raw = .ok txid) msg.transactionList ids.1 := by
  simp only [txIds, bind_eq_ok, orErr_eq_ok] at h
  obtain ⟨txids, hm, h⟩ := h
  split at h <;> cases h
  refine (forall₂_of_mapM hm).imp fun raw txid h => ?_
  rwa [expect_eq_ok, toOption_eq_some] at h

theorem activate_declaration {m : SetNewPrevHash} :
    (activate m declared).declareMiningJob = declared.declareMiningJob ∧
      (activate m declared).txList = declared.txList := by
  rw [activate]
  split <;> exact ⟨rfl, rfl⟩

theorem Records.lists (hs : s.Lists) (h : s.Records a k declared)
    (hj : declared.declareMiningJob = some job) : k = job.requestId ∧
      List.Forall₂ (fun raw txid => C.computeTxid raw = .ok txid) declared.txList job.txIdsList.1 := by
  cases h with
  | kept hl       => exact hs _ _ _ hl hj
  | @customized declared _ hl => exact hs k declared job hl hj
  | activated _ hl =>
    rw [activate_declaration.left] at hj
    rw [activate_declaration.right]
    exact hs _ _ _ hl hj
  | undeclared hu =>
    obtain ⟨_, _, rfl⟩ := hu
    cases hj
  | declared _ hd hk =>
    cases hj
    obtain ⟨_, ids, _, _, hids, _, hmade⟩ := hd.job
    refine ⟨hk, ?_⟩
    rw [(declareJob_eq_ok hmade).right.right]
    exact txIds_eq_ok hids

theorem missingTransactions_map (h : ∀ p ∈ positions, p.toNat < txList.length) :
    (missingTransactions txList positions).map some = positions.map (txList[·.toNat]?) := by
  induction positions with
  | nil => rfl
  | cons p positions ih =>
    obtain ⟨hp, hps⟩ := List.forall_mem_cons.mp h
    have he : txList[p.toNat]? = some txList[p.toNat] := List.getElem?_eq_getElem hp
    rw [missingTransactions, List.filterMap_cons_some (f := fun p : UInt16 => txList[p.toNat]?) he,
      List.map_cons, List.map_cons, he, ← ih hps]
    rfl

theorem Remembers.provides (h : s.Remembers job txList) (msg : ProvideMissingTransactions)
    (hr : msg.requestId = job.requestId)
    (hp : ∀ p ∈ msg.unknownTxPositionList, p.toNat < txList.length)
    (hl : msg.unknownTxPositionList.length ≤ 65535) :
    ∃ reply : ProvideMissingTransactionsSuccess, s.handleProvideMissingTransactions msg = .ok {
        manager  := s
        messages := [.jobDeclarator (.provideMissingTransactionsSuccess reply)] } ∧
      reply.requestId = job.requestId ∧
      reply.transactionList.1.map some = msg.unknownTxPositionList.map (txList[·.toNat]?) := by
  obtain ⟨declared, hd, _, rfl⟩ := h
  have hm := missingTransactions_map hp
  have hle : (missingTransactions declared.txList msg.unknownTxPositionList).length ≤ 65535 := by
    have hlen := congrArg List.length hm
    rw [List.length_map, List.length_map] at hlen
    omega
  refine ⟨⟨msg.requestId, ⟨_, hle⟩⟩, ?_, hr, hm⟩
  have hl : s.lastDeclareJobStore.lookup msg.requestId = some declared := hr ▸ hd
  exact bind_eq_ok.mpr ⟨declared, orErr_eq_ok.mpr hl,
    bind_eq_ok.mpr ⟨_, orErr_eq_ok.mpr (dif_pos hle), rfl⟩⟩

end Declarations

end ChannelManager

namespace System

section Records

variable {s s' : ChannelManager C} {a : Action} {ds : List DeclareMiningJob}
variable {cs : List SetCustomMiningJob} {k : RequestId} {declared : DeclaredJob}

theorem records_of_works (h : Works cfg s a s' ds cs)
    (hl : s'.lastDeclareJobStore.lookup k = some declared) : s.Records a k declared := by
  cases h with
  | kept hw =>
    rw [show s'.lastDeclareJobStore = _ from congrArg Work.lastDeclareJobStore hw] at hl
    exact .kept hl
  | mode      => exact .kept hl
  | allocated => exact .kept hl
  | refused   => exact .kept hl
  | reset hw =>
    rw [show s'.lastDeclareJobStore = ∅ from congrArg Work.lastDeclareJobStore hw] at hl
    cases hl
  | @accepted m _ old _ hw =>
    rw [show s'.lastDeclareJobStore = _ from congrArg Work.lastDeclareJobStore hw] at hl
    simp only [ChannelManager.work, ChannelManager.mapTemplate] at hl
    rw [Map.lookup_filterValues, Option.filter_eq_some_iff] at hl
    have hl := hl.left
    rw [Map.lookup_erase_ite] at hl
    split at hl
    case isTrue  => cases hl
    case isFalse => exact .kept hl
  | @custom m _ _ job =>
    by_cases hk : k = m.requestId
    case pos =>
      subst hk
      rw [Map.lookup_modify, Option.map_eq_some_iff] at hl
      obtain ⟨old, hl, rfl⟩ := hl
      exact .customized hl
    case neg =>
      rw [Map.lookup_modify_ne hk] at hl
      exact .kept hl
  | @template m _ _ _ s₁ _ _ _ _ ht hw =>
    rw [show s'.lastDeclareJobStore = s₁.lastDeclareJobStore from
      congrArg Work.lastDeclareJobStore hw] at hl
    obtain ⟨_, _, _, _, hc⟩ | ⟨_, _, _, rfl⟩ := ht
    · cases hc.lookup hl
      case inl hl => exact .kept hl
      case inr hu => exact .undeclared hu
    · exact .kept hl
  | @tip m _ _ s₁ _ _ _ hc hw =>
    rw [show s'.lastDeclareJobStore = s₁.lastDeclareJobStore from
      congrArg Work.lastDeclareJobStore hw] at hl
    cases hc.lookup hl
    case inr hu =>
      obtain ⟨_, _, _, _, hu⟩ := hu
      exact .undeclared hu
    case inl hl =>
      rw [ChannelManager.tipped, ChannelManager.onChainTipUpdate, ChannelManager.recordPrevHash,
        Map.lookup_mapValues, Option.map_eq_some_iff] at hl
      obtain ⟨old, ho, rfl⟩ := hl
      exact .activated rfl ho
  | @declared m _ _ hj =>
    cases hj with
    | idle   => exact .kept hl
    | failed => exact .kept hl
    | @declared template paid job factory hj =>
      simp only [ChannelManager.storeDeclaredJob, Map.lookup_insert_ite] at hl
      split at hl
      case isTrue hk =>
        cases hl
        exact .declared rfl hj hk
      case isFalse => exact .kept hl
  | @opened m _ _ _ s₁ _ _ _ _ hc hw =>
    rw [show s'.lastDeclareJobStore = s₁.lastDeclareJobStore from
      congrArg Work.lastDeclareJobStore hw] at hl
    cases hc.lookup hl
    case inl hl => exact .kept hl
    case inr hu =>
      obtain ⟨_, _, _, _, hu⟩ := hu
      exact .undeclared hu

end Records

open ChannelManager

variable {s s' : System C} {a : Action} {tr : List (Machine.Event (System C) Action)}
variable {job : DeclareMiningJob}

theorem lists_step (hs : s.manager.Lists) (h : s.step cfg a = some s') : s'.manager.Lists := by
  obtain ⟨messages, ha, _⟩ := acts_of_step h
  intro k declared job hl hj
  exact (records_of_works (works_of_acts ha) hl).lists hs hj

theorem lists_of_run (r : (machine C cfg).Run tr s) : s.manager.Lists := by
  refine r.reachable.invariant (I := fun s => s.manager.Lists) (fun s hi => ?_)
    fun _ _ _ => lists_step
  have hi : s.Init := hi
  intro k declared job hl
  rw [hi.lastDeclareJobStore] at hl
  cases hl

theorem remembers_of_works {s s' : ChannelManager C} {ds : List DeclareMiningJob}
    {cs : List SetCustomMiningJob} (hs : s.Lists) (h : Works cfg s a s' ds cs) (hj : job ∈ ds) :
    ∃ txList, s'.Remembers job txList := by
  cases h with
  | @tip m _ _ s₁ _ _ _ hc hw =>
    have hw : s'.lastDeclareJobStore = s₁.lastDeclareJobStore :=
      congrArg Work.lastDeclareJobStore hw
    rw [declarePending] at hj
    split at hj
    case isFalse => cases hj
    case isTrue hm =>
      -- A client with templates of its own makes no custom job at a prev hash.
      cases hc with
      | made _ _ _ _ _ hm' => cases hm.symm.trans hm'
      | idle =>
        cases hp : s.pendingDeclaration with
        | none => simp [hp, declarations] at hj
        | some pending =>
          have he : job = pending := by
            simpa [hp, declarations, RouteMessageTo.declaration] using hj
          subst he
          simp only [pendingDeclaration, Option.bind_eq_bind, Option.bind_eq_some_iff] at hp
          obtain ⟨_, _, ⟨k, declared⟩, hf, hd⟩ := hp
          have hl : s.lastDeclareJobStore.lookup k = some declared :=
            AList.mem_lookup_iff.mpr (List.mem_of_find?_eq_some hf)
          obtain ⟨rfl, _⟩ := hs k declared job hl hd
          refine ⟨declared.txList, activate m declared, ?_, ?_, activate_declaration.right⟩
          · rw [hw, tipped, onChainTipUpdate, recordPrevHash, Map.lookup_mapValues, onChainTipUpdate,
              hl]
            rfl
          · rw [activate_declaration.left, hd]
  | @declared m _ _ hd =>
    cases hd with
    | idle   => cases hj
    | failed => cases hj
    | @declared template paid job' factory hd =>
      have he : job = job' := by
        split at hj
        case isTrue  => cases hj
        case isFalse => exact List.mem_singleton.mp hj
      subst he
      exact ⟨m.transactionList, _, AList.lookup_insert _, rfl, rfl⟩
  | _ => cases hj

theorem remembers_of_step (hs : s.manager.Lists) (h : s.step cfg a = some s')
    (hj : job ∈ declarations (messages ⟨s, a, s'⟩)) : ∃ txList, s'.manager.Remembers job txList := by
  obtain ⟨sent, ha, hsent⟩ := acts_of_step h
  have hm : messages ⟨s, a, s'⟩ = sent := by simp [messages, hsent]
  rw [hm] at hj
  exact remembers_of_works hs (works_of_acts ha) hj

end System

end Jdc
