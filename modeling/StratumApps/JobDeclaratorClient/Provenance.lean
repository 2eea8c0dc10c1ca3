import StratumApps.JobDeclaratorClient.Records

open Sv2 Handler StratumCore

namespace Jdc

variable {C : StratumCore} {cfg : Config}

-- A custom job that a factory has made of a template, for a prev hash and with these outputs.
def CustomOf (C : StratumCore) (template : NewTemplate) (prevHash : SetNewPrevHash)
    (outputs : List TxOut) (job : SetCustomMiningJob) : Prop :=
  ∃ factory channelId requestId token size, (C.jobFactory.newCustomJob factory channelId requestId
    token (chainTip prevHash) template outputs size).1 = .ok job

-- A future template is one no more once its prev hash has arrived.
def Settles (template template' : NewTemplate) : Prop :=
  template' = template ∨ template' = { template with futureTemplate := false }

namespace ChannelManager

variable {s s' : ChannelManager C} {factory : C.JobFactory} {upstream : C.Upstream} {token : Bytes}
variable {prevHash m : SetNewPrevHash} {template : NewTemplate} {outputs : List TxOut}
variable {jobs : List SetCustomMiningJob} {n : ℕ} {job : SetCustomMiningJob} {declared : DeclaredJob}

theorem customOf_makeCustomJob
    (h : job ∈ (s.makeCustomJob factory upstream token prevHash template outputs).2.toList) :
    CustomOf C template prevHash outputs job := by
  simp only [makeCustomJob] at h
  split at h
  case h_1 hj =>
    cases Option.mem_toList.mp h
    exact ⟨_, _, _, _, _, hj⟩
  case h_2 => cases h

theorem Customizes.customOf (h : Customizes upstream token prevHash template outputs s n jobs s')
    (hj : job ∈ jobs) : CustomOf C template prevHash outputs job := by
  induction h with
  | nil           => cases hj
  | register _ ih => exact ih hj
  | custom _ _ ih =>
    obtain hj | hj := List.mem_append.mp hj
    · exact ih hj
    · exact customOf_makeCustomJob hj

theorem Customized.customOf {upstreamChannel : Option C.Upstream}
    (h : s.Customized upstreamChannel outputs jobs s') (hj : job ∈ jobs) :
    ∃ template prevHash, s.lastFutureTemplate = some template ∧ s.lastNewPrevHash = some prevHash ∧
      CustomOf C template prevHash outputs job := by
  cases h with
  | idle             => cases hj
  | made _ _ _ ht hp => exact ⟨_, _, ht, hp, customOf_makeCustomJob hj⟩

theorem settles_activate : Settles declared.template (activate m declared).template := by
  rw [activate]
  split
  case isTrue  => exact .inr rfl
  case isFalse => exact .inl rfl

theorem coinbaseOutput_activate :
    (activate m declared).coinbaseOutput = declared.coinbaseOutput := by
  rw [activate]
  split <;> rfl

theorem prevHash_activate (h : (activate m declared).prevHash = some prevHash) :
    prevHash = m ∨ declared.prevHash = some prevHash := by
  rw [activate] at h
  split at h
  case isTrue  => exact .inl (Option.some_inj.mp h).symm
  case isFalse => exact .inr h

end ChannelManager

theorem Settles.trans {t t₁ t' : NewTemplate} (h : Settles t t₁) (h' : Settles t₁ t') :
    Settles t t' := by
  obtain rfl | rfl := h'
  · exact h
  · obtain rfl | rfl := h
    · exact .inr rfl
    · exact .inr rfl

namespace System

section Receives

variable {s s' : ChannelManager C} {a : Action} {ds : List DeclareMiningJob}
variable {cs : List SetCustomMiningJob}

-- What a step adds to the templates and the prev hash of the manager: what has just arrived.
structure Receives (s : ChannelManager C) (a : Action) (s' : ChannelManager C) : Prop where
  stored : ∀ t template, s'.templateStore.lookup t = some template →
    s.templateStore.lookup t = some template ∨
      a = .templateMessage (.newTemplate template) ∧ template.templateId = t
  last   : ∀ template, s'.lastFutureTemplate = some template →
    s.lastFutureTemplate = some template ∨ a = .templateMessage (.newTemplate template)
  tip    : ∀ p, s'.lastNewPrevHash = some p →
    s.lastNewPrevHash = some p ∨ a = .templateMessage (.setNewPrevHash p)

theorem Receives.of_same (ht : s'.templateStore = s.templateStore)
    (hl : s'.lastFutureTemplate = s.lastFutureTemplate)
    (hp : s'.lastNewPrevHash = s.lastNewPrevHash) : Receives s a s' where
  stored _ _ h := .inl (ht ▸ h)
  last _ h     := .inl (hl ▸ h)
  tip _ h      := .inl (hp ▸ h)

theorem Receives.of_erase {t : TemplateId} (ht : s'.templateStore = s.templateStore.erase t)
    (hl : s'.lastFutureTemplate = s.lastFutureTemplate)
    (hp : s'.lastNewPrevHash = s.lastNewPrevHash) : Receives s a s' where
  stored t' template h := by
    rw [ht, Map.lookup_erase_ite] at h
    split at h
    case isTrue  => cases h
    case isFalse => exact .inl h
  last _ h := .inl (hl ▸ h)
  tip _ h  := .inl (hp ▸ h)

theorem receives_of_works (h : Works cfg s a s' ds cs) : Receives s a s' := by
  cases h with
  | mode      => exact .of_same rfl rfl rfl
  | allocated => exact .of_same rfl rfl rfl
  | refused   => exact .of_same rfl rfl rfl
  | custom    => exact .of_same rfl rfl rfl
  | kept hw =>
    exact .of_same (congrArg Work.templateStore hw) (congrArg Work.lastFutureTemplate hw)
      (congrArg Work.lastNewPrevHash hw)
  | accepted _ hw =>
    exact .of_same (congrArg Work.templateStore hw) (congrArg Work.lastFutureTemplate hw)
      (congrArg Work.lastNewPrevHash hw)
  | reset hw =>
    have ht : s'.templateStore = ∅ := congrArg Work.templateStore hw
    refine ⟨fun t template h => ?_, fun _ h => .inl ?_, fun _ h => .inl ?_⟩
    · rw [ht] at h
      cases h
    · exact (congrArg Work.lastFutureTemplate hw).symm.trans h
    · exact (congrArg Work.lastNewPrevHash hw).symm.trans h
  | @template m _ _ _ s₁ _ _ _ _ ht hw =>
    obtain ⟨_, _, _, _, rfl⟩ := ht.frame
    have hs : s'.templateStore = s.templateStore.insert m.templateId m := congrArg Work.templateStore hw
    have hl : s'.lastFutureTemplate = if m.futureTemplate then some m else s.lastFutureTemplate :=
      congrArg Work.lastFutureTemplate hw
    refine ⟨fun t template h => ?_, fun _ h => ?_, fun _ h => .inl ?_⟩
    · rw [hs, Map.lookup_insert_ite] at h
      split at h
      case isTrue ht =>
        cases h
        exact .inr ⟨rfl, ht.symm⟩
      case isFalse => exact .inl h
    · rw [hl] at h
      split at h
      case isTrue =>
        cases h
        exact .inr rfl
      case isFalse => exact .inl h
    · exact (congrArg Work.lastNewPrevHash hw).symm.trans h
  | @tip m _ _ s₁ _ _ _ hc hw =>
    obtain ⟨_, _, _, rfl⟩ := hc.frame
    have hp : s'.lastNewPrevHash = some m := congrArg Work.lastNewPrevHash hw
    refine ⟨fun _ _ h => .inl ?_, fun _ h => .inl ?_, fun p h => ?_⟩
    · rwa [show s'.templateStore = s.templateStore from congrArg Work.templateStore hw] at h
    · exact (congrArg Work.lastFutureTemplate hw).symm.trans h
    · cases hp.symm.trans h
      exact .inr rfl
  | declared hd =>
    cases hd with
    | idle     => exact .of_erase rfl rfl rfl
    | failed   => exact .of_erase rfl rfl rfl
    | declared => exact .of_erase rfl rfl rfl
  | @opened _ _ _ _ s₁ _ _ _ _ hc hw =>
    obtain ⟨_, _, _, rfl⟩ := hc.frame
    exact .of_same (congrArg Work.templateStore hw) (congrArg Work.lastFutureTemplate hw)
      (congrArg Work.lastNewPrevHash hw)

end Receives

section Sources

variable {tr : List (Event C)} {s s' : System C} {a : Action}

-- A message of the template provider that has arrived in a run.
def Arrived (tr : List (Event C)) (m : TemplateDistribution) : Prop :=
  ∃ e ∈ tr, e.act = .templateMessage m

-- The declaration was made of the template, with the transactions that have arrived for it and with
-- these outputs.
structure Source (tr : List (Event C)) (template : NewTemplate) (data : RequestTransactionDataSuccess)
    (paid : List TxOut) (job : DeclareMiningJob) : Prop where
  arrived    : Arrived tr (.newTemplate template)
  templateId : template.templateId = data.templateId
  made       : ∃ e ∈ tr, e.act = .templateMessage (.requestTransactionDataSuccess data) ∧
    ∃ factory, e.pre.manager.Declares data template paid job factory

-- What a run knows of a record: its template and its prev hash have arrived, and its declaration is
-- that of the template, with the transactions and the outputs of the record.
structure Known (tr : List (Event C)) (declared : DeclaredJob) : Prop where
  template : ∃ template, Arrived tr (.newTemplate template) ∧ Settles template declared.template ∧
    ∀ job, declared.declareMiningJob = some job → ∃ data paid, Source tr template data paid job ∧
      declared.txList = data.transactionList ∧ declared.coinbaseOutput = C.consensusEncode paid
  prevHash : ∀ p, declared.prevHash = some p → Arrived tr (.setNewPrevHash p)

-- What a run knows of the manager.
structure Sourced (tr : List (Event C)) (s : ChannelManager C) : Prop where
  stored  : ∀ t template, s.templateStore.lookup t = some template →
    template.templateId = t ∧ Arrived tr (.newTemplate template)
  last    : ∀ template, s.lastFutureTemplate = some template → Arrived tr (.newTemplate template)
  tip     : ∀ p, s.lastNewPrevHash = some p → Arrived tr (.setNewPrevHash p)
  records : ∀ k declared, s.lastDeclareJobStore.lookup k = some declared → Known tr declared

theorem Arrived.snoc {m : TemplateDistribution} {e : Event C} (h : Arrived tr m) :
    Arrived (tr ++ [e]) m :=
  have ⟨e', he, ha⟩ := h
  ⟨e', List.mem_append_left _ he, ha⟩

theorem Arrived.last {m : TemplateDistribution} (h : a = .templateMessage m) :
    Arrived (tr ++ [⟨s, a, s'⟩]) m :=
  ⟨_, List.mem_append_right _ (List.mem_singleton.mpr rfl), h⟩

theorem Source.snoc {template : NewTemplate} {data : RequestTransactionDataSuccess}
    {paid : List TxOut} {job : DeclareMiningJob} {e : Event C} (h : Source tr template data paid job) :
    Source (tr ++ [e]) template data paid job where
  arrived    := h.arrived.snoc
  templateId := h.templateId
  made       :=
    have ⟨e', he, ha⟩ := h.made
    ⟨e', List.mem_append_left _ he, ha⟩

theorem Known.snoc {declared : DeclaredJob} {e : Event C} (h : Known tr declared) :
    Known (tr ++ [e]) declared where
  template :=
    have ⟨template, ha, hs, hj⟩ := h.template
    ⟨template, ha.snoc, hs, fun job h =>
      have ⟨data, paid, hd, ht⟩ := hj job h
      ⟨data, paid, hd.snoc, ht⟩⟩
  prevHash p hp := (h.prevHash p hp).snoc

theorem Sourced.source (hi : Sourced tr s.manager) {template : NewTemplate}
    {data : RequestTransactionDataSuccess} {paid : List TxOut} {job : DeclareMiningJob}
    {factory : C.JobFactory} (ha : a = .templateMessage (.requestTransactionDataSuccess data))
    (hd : s.manager.Declares data template paid job factory) :
    Source (tr ++ [⟨s, a, s'⟩]) template data paid job where
  arrived    := (hi.stored _ _ hd.stored).right.snoc
  templateId := (hi.stored _ _ hd.stored).left
  made       := ⟨_, List.mem_append_right _ (List.mem_singleton.mpr rfl), ha, factory, hd⟩

-- The record of a custom job that was made without a declaration.
theorem known_of_undeclared {template : NewTemplate} {prevHash : SetNewPrevHash}
    {declared : DeclaredJob} (h : ChannelManager.Undeclared template prevHash declared)
    (ht : Arrived tr (.newTemplate template)) (hp : Arrived tr (.setNewPrevHash prevHash)) :
    Known tr declared := by
  obtain ⟨_, _, rfl⟩ := h
  refine ⟨⟨template, ht, .inl rfl, fun _ h => (by cases h)⟩, fun p h => ?_⟩
  cases h
  exact hp

theorem Known.activate {m : SetNewPrevHash} {declared : DeclaredJob} (h : Known tr declared)
    (hm : Arrived tr (.setNewPrevHash m)) : Known tr (ChannelManager.activate m declared) where
  template := by
    obtain ⟨template, ha, hs, hj⟩ := h.template
    refine ⟨template, ha, hs.trans ChannelManager.settles_activate, ?_⟩
    rwa [ChannelManager.activate_declaration.left, ChannelManager.activate_declaration.right,
      ChannelManager.coinbaseOutput_activate]
  prevHash p hp := by
    obtain rfl | hp := ChannelManager.prevHash_activate hp
    · exact hm
    · exact h.prevHash p hp

-- What a step leaves in the records.
theorem Sourced.known {ds : List DeclareMiningJob} {cs : List SetCustomMiningJob}
    (hi : Sourced tr s.manager) (h : Works cfg s.manager a s'.manager ds cs) {k : RequestId}
    {declared : DeclaredJob} (hl : s'.manager.lastDeclareJobStore.lookup k = some declared) :
    Known (tr ++ [⟨s, a, s'⟩]) declared := by
  have kept {k : RequestId} {declared : DeclaredJob}
      (hl : s.manager.lastDeclareJobStore.lookup k = some declared) :
      Known (tr ++ [⟨s, a, s'⟩]) declared := (hi.records k declared hl).snoc
  have last {template : NewTemplate} (h : s.manager.lastFutureTemplate = some template) :
      Arrived (tr ++ [⟨s, a, s'⟩]) (.newTemplate template) := (hi.last template h).snoc
  have tip {p : SetNewPrevHash} (h : s.manager.lastNewPrevHash = some p) :
      Arrived (tr ++ [⟨s, a, s'⟩]) (.setNewPrevHash p) := (hi.tip p h).snoc
  generalize hm : s.manager = pre at h
  generalize hm' : s'.manager = post at h hl
  cases h with
  | kept hw =>
    subst hm
    rw [show post.lastDeclareJobStore = _ from congrArg Work.lastDeclareJobStore hw] at hl
    exact kept hl
  | mode      => exact kept (hm ▸ hl)
  | allocated => exact kept (hm ▸ hl)
  | refused   => exact kept (hm ▸ hl)
  | reset hw =>
    rw [show post.lastDeclareJobStore = ∅ from congrArg Work.lastDeclareJobStore hw] at hl
    cases hl
  | accepted _ hw =>
    subst hm
    rw [show post.lastDeclareJobStore = _ from congrArg Work.lastDeclareJobStore hw] at hl
    simp only [ChannelManager.work, ChannelManager.mapTemplate] at hl
    rw [Map.lookup_filterValues, Option.filter_eq_some_iff, Map.lookup_erase_ite] at hl
    obtain ⟨hl, _⟩ := hl
    split at hl
    case isTrue  => cases hl
    case isFalse => exact kept hl
  | @custom m _ _ job =>
    subst hm
    by_cases hk : k = m.requestId
    case pos =>
      subst hk
      rw [Map.lookup_modify, Option.map_eq_some_iff] at hl
      obtain ⟨old, hl, rfl⟩ := hl
      exact ⟨(kept hl).template, (kept hl).prevHash⟩
    case neg =>
      rw [Map.lookup_modify_ne hk] at hl
      exact kept hl
  | @template m _ _ _ s₁ _ _ _ _ ht hw =>
    subst hm
    rw [show post.lastDeclareJobStore = s₁.lastDeclareJobStore from
      congrArg Work.lastDeclareJobStore hw] at hl
    obtain ⟨_, _, _, ha, hc⟩ | ⟨_, _, _, rfl⟩ := ht
    · obtain hl | hu := hc.lookup hl
      · exact kept hl
      · exact known_of_undeclared hu (.last rfl) (tip ha.prevHash)
    · exact kept hl
  | @tip m _ _ s₁ _ _ _ hc hw =>
    subst hm
    rw [show post.lastDeclareJobStore = s₁.lastDeclareJobStore from
      congrArg Work.lastDeclareJobStore hw] at hl
    obtain hl | ⟨_, _, ht, hp, hu⟩ := hc.lookup hl
    · rw [ChannelManager.tipped, ChannelManager.onChainTipUpdate, ChannelManager.recordPrevHash,
        Map.lookup_mapValues, Option.map_eq_some_iff] at hl
      obtain ⟨old, ho, rfl⟩ := hl
      exact (kept ho).activate (.last rfl)
    · cases hp
      exact known_of_undeclared hu (last ht) (.last rfl)
  | @declared m _ _ hj =>
    subst hm
    cases hj with
    | idle   => exact kept hl
    | failed => exact kept hl
    | @declared template paid job factory hj =>
      simp only [ChannelManager.storeDeclaredJob, Map.lookup_insert_ite] at hl
      split at hl
      case isFalse => exact kept hl
      case isTrue hk =>
        cases hl
        have hs : Source (tr ++ [⟨s, _, s'⟩]) template m paid job := hi.source rfl hj
        refine ⟨⟨template, hs.arrived, .inl rfl, fun job h => ?_⟩, fun p hp => tip hp⟩
        cases h
        exact ⟨m, paid, hs, rfl, rfl⟩
  | @opened m _ _ _ s₁ _ _ _ _ hc hw =>
    subst hm
    rw [show post.lastDeclareJobStore = s₁.lastDeclareJobStore from
      congrArg Work.lastDeclareJobStore hw] at hl
    obtain hl | ⟨_, _, ht, hp, hu⟩ := hc.lookup hl
    · exact kept hl
    · exact known_of_undeclared hu (last ht) (tip hp)

theorem Sourced.step (hi : Sourced tr s.manager) (h : s.step cfg a = some s') :
    Sourced (tr ++ [⟨s, a, s'⟩]) s'.manager := by
  obtain ⟨messages, ha, _⟩ := acts_of_step h
  have hw := works_of_acts ha
  have hr := receives_of_works hw
  refine ⟨fun t template hl => ?_, fun template hl => ?_, fun p hl => ?_, fun k declared hl =>
    hi.known hw hl⟩
  · obtain hl | ⟨ha, rfl⟩ := hr.stored t template hl
    · exact (hi.stored t template hl).imp_right .snoc
    · exact ⟨rfl, .last ha⟩
  · obtain hl | ha := hr.last template hl
    · exact (hi.last template hl).snoc
    · exact .last ha
  · obtain hl | ha := hr.tip p hl
    · exact (hi.tip p hl).snoc
    · exact .last ha

theorem sourced_of_run (r : (machine C cfg).Run tr s) : Sourced tr s.manager := by
  obtain ⟨s₀, hi, p⟩ := r
  induction p with
  | snoc _ hs ih => exact ih.step hs
  | nil =>
    have hi : s₀.Init := hi
    refine ⟨fun _ _ h => ?_, fun _ h => ?_, fun _ h => ?_, fun _ _ h => ?_⟩
    · rw [hi.templateStore] at h
      cases h
    · rw [hi.lastFutureTemplate] at h
      cases h
    · rw [hi.lastNewPrevHash] at h
      cases h
    · rw [hi.lastDeclareJobStore] at h
      cases h

end Sources

section Provenance

variable {tr : List (Event C)} {s s' : System C} {a : Action} {job : DeclareMiningJob}

-- Where what an event sends comes from. A declaration is of a template and of the transactions that
-- have arrived for it, and the client remembers those. A custom job is of a template and a prev hash
-- that have arrived; the one for an accepted declaration is of its template and has its outputs.
structure Provenance (tr : List (Event C)) (e : Event C) : Prop where
  declared   : ∀ job ∈ declarations (messages e), ∃ template data paid,
    Source (tr ++ [e]) template data paid job ∧ e.post.manager.Remembers job data.transactionList
  customized : ∀ job ∈ customJobs (messages e), ∃ template template' prevHash outputs,
    Arrived (tr ++ [e]) (.newTemplate template) ∧ Settles template template' ∧
      Arrived (tr ++ [e]) (.setNewPrevHash prevHash) ∧ CustomOf C template' prevHash outputs job
  accepted   : ∀ msg declared declaration, e.act = .jdsMessage (.declareMiningJobSuccess msg) →
    e.pre.manager.lastDeclareJobStore.lookup msg.requestId = some declared →
    declared.declareMiningJob = some declaration → ∀ job ∈ customJobs (messages e),
      ∃ template template' data paid prevHash, Source tr template data paid declaration ∧
        Settles template template' ∧ declared.prevHash = some prevHash ∧
        CustomOf C template' prevHash paid job

-- The outputs of a declaration are read back as they were written.
theorem Source.outputs {template : NewTemplate} {data : RequestTransactionDataSuccess}
    {paid : List TxOut} (hC : C.Lawful) (h : Source tr template data paid job) :
    C.deserializeOutputs (C.consensusEncode paid) = .ok paid := by
  obtain ⟨_, _, _, _, hd⟩ := h.made
  obtain ⟨outputs, ho, hp⟩ := hd.outputs
  cases outputs with
  | nil       => cases hp
  | cons o os =>
    cases hp
    exact hC.deserializeOutputs _ o os _ ho

theorem Sourced.declared (hi : Sourced tr s.manager) {ds : List DeclareMiningJob}
    {cs : List SetCustomMiningJob} (hl : s.manager.Lists)
    (h : Works cfg s.manager a s'.manager ds cs) (hj : job ∈ ds) :
    ∃ template data paid, Source (tr ++ [⟨s, a, s'⟩]) template data paid job ∧
      s'.manager.Remembers job data.transactionList := by
  obtain ⟨txList, hr⟩ := remembers_of_works hl h hj
  obtain ⟨declared, hd, hjob, rfl⟩ := id hr
  obtain ⟨template, _, _, hk⟩ := (hi.known h hd).template
  obtain ⟨data, paid, hs, htx, _⟩ := hk job hjob
  exact ⟨template, data, paid, hs, htx ▸ hr⟩

theorem Sourced.customized (hi : Sourced tr s.manager) {ds : List DeclareMiningJob}
    {cs : List SetCustomMiningJob} {job : SetCustomMiningJob}
    (h : Works cfg s.manager a s'.manager ds cs) (hj : job ∈ cs) :
    ∃ template template' prevHash outputs, Arrived (tr ++ [⟨s, a, s'⟩]) (.newTemplate template) ∧
      Settles template template' ∧ Arrived (tr ++ [⟨s, a, s'⟩]) (.setNewPrevHash prevHash) ∧
      CustomOf C template' prevHash outputs job := by
  generalize hpre : s.manager = pre at h
  generalize s'.manager = post at h
  cases h with
  | @custom m declared r _ hc hr =>
    cases List.mem_singleton.mp hj
    obtain ⟨prevHash, outputs, factory, upstream, hp, _, _, _, rfl⟩ := hc.made
    have hk := hi.records _ _ (hpre ▸ hc.stored)
    obtain ⟨template, ha, hs, _⟩ := hk.template
    exact ⟨template, _, prevHash, outputs, ha.snoc, hs, (hk.prevHash _ hp).snoc, _, _, _, _, _, hr⟩
  | template _ _ ht _ =>
    obtain ⟨_, _, prevHash, ha, hc⟩ | ⟨_, rfl, _⟩ := ht
    · exact ⟨_, _, prevHash, _, .last rfl, .inl rfl, (hi.tip _ (hpre ▸ ha.prevHash)).snoc,
        hc.customOf hj⟩
    · cases hj
  | tip _ hc _ =>
    obtain ⟨template, _, ht, hp, hc⟩ := hc.customOf hj
    cases hp
    exact ⟨template, _, _, _, (hi.last _ (hpre ▸ ht)).snoc, .inl rfl, .last rfl, hc⟩
  | opened _ _ hc _ =>
    obtain ⟨template, prevHash, ht, hp, hc⟩ := hc.customOf hj
    exact ⟨template, _, prevHash, _, (hi.last _ (hpre ▸ ht)).snoc, .inl rfl,
      (hi.tip _ (hpre ▸ hp)).snoc, hc⟩
  | _ => cases hj

theorem Sourced.accepted (hC : C.Lawful) (hi : Sourced tr s.manager) {ds : List DeclareMiningJob}
    {cs : List SetCustomMiningJob} {m : DeclareMiningJobSuccess} {declared : DeclaredJob}
    {job : SetCustomMiningJob} {declaration : DeclareMiningJob}
    (h : Works cfg s.manager (.jdsMessage (.declareMiningJobSuccess m)) s'.manager ds cs)
    (hl : s.manager.lastDeclareJobStore.lookup m.requestId = some declared)
    (hd : declared.declareMiningJob = some declaration) (hj : job ∈ cs) :
    ∃ template template' data paid prevHash, Source tr template data paid declaration ∧
      Settles template template' ∧ declared.prevHash = some prevHash ∧
      CustomOf C template' prevHash paid job := by
  generalize hpre : s.manager = pre at h
  generalize s'.manager = post at h
  cases h with
  | kept    => cases hj
  | refused => cases hj
  | custom hc hr =>
    cases List.mem_singleton.mp hj
    cases hl.symm.trans (hpre ▸ hc.stored)
    obtain ⟨prevHash, outputs, factory, upstream, hp, ho, _, _, rfl⟩ := hc.made
    obtain ⟨template, _, hs, hk⟩ := (hi.records _ _ hl).template
    obtain ⟨data, paid, hsrc, _, henc⟩ := hk declaration hd
    rw [henc, hsrc.outputs hC] at ho
    cases ho
    exact ⟨template, _, data, outputs, prevHash, hsrc, hs, hp, _, _, _, _, _, hr⟩

theorem provenance_of_run (hC : C.Lawful) (r : (machine C cfg).Run tr s) :
    Machine.History Provenance tr := by
  rintro tr₁ ⟨s₁, a, s₂⟩ tr₂ rfl
  obtain ⟨r₁, hs, _⟩ := r.middle
  have hi := sourced_of_run r₁
  obtain ⟨sent, ha, hsent⟩ := acts_of_step hs
  have hsent : s₂.sent = s₁.sent ++ sent := hsent
  have hm : messages ⟨s₁, a, s₂⟩ = sent := by simp [messages, hsent]
  have hw := works_of_acts ha
  refine ⟨fun job hj => ?_, fun job hj => ?_, fun m declared declaration he hl hd job hj => ?_⟩
  · rw [hm] at hj
    exact hi.declared (lists_of_run r₁) hw hj
  · rw [hm] at hj
    exact hi.customized hw hj
  · rw [hm] at hj
    have he : a = .jdsMessage (.declareMiningJobSuccess m) := he
    subst he
    exact hi.accepted hC hw hl hd hj

end Provenance

end System

-- A client with templates of its own, whose declaration is accepted.
namespace Confirmed

open Sample

def confirmed : List Action :=
  [.setJdMode .fullTemplate, .setUpstreamState .noChannel, future 1, prevHash 1, .connect,
    openExtended 0, opened, allocate [1], newTemplate 2, data 2,
    .jdsMessage (.declareMiningJobSuccess ⟨0, [5]⟩)]

theorem confirmed_exec : ((machine reference (config [] [])).exec (start rewardOutputs)
    confirmed).any fun s =>
      (declarations s.sent).map (·.txIdsList.1) = [[]] && (customJobs s.sent).length = 1 := by
  decide +kernel

end Confirmed

open Sample Confirmed in
theorem provenance_of_run_sample : ∃ tr s, (machine reference (config [] [])).Run tr s ∧
    (declarations s.sent).map (·.txIdsList.1) = [[]] ∧ (customJobs s.sent).length = 1 ∧
    Machine.History System.Provenance tr := by
  obtain ⟨s, hs, hj⟩ := Option.any_eq_true _ _ |>.mp confirmed_exec
  obtain ⟨hd, hc⟩ := Bool.and_eq_true_iff.mp hj
  have r := Machine.Run.of_exec start_init hs
  exact ⟨_, s, r, of_decide_eq_true hd, of_decide_eq_true hc,
    System.provenance_of_run reference_lawful r⟩

end Jdc
