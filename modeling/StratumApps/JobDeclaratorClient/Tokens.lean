import StratumApps.JobDeclaratorClient.Works

open Sv2 Handler StratumCore

namespace Jdc

variable {C : StratumCore} {cfg : Config}

namespace ChannelManager

variable {s s' s₁ : ChannelManager C} {factory : C.JobFactory} {upstream : C.Upstream} {token : Bytes}
variable {prevHash : SetNewPrevHash} {template : NewTemplate} {outputs : List TxOut}
variable {jobs : List SetCustomMiningJob} {job : DeclareMiningJob} {n : ℕ}

def Stores (s : ChannelManager C) (job : DeclareMiningJob) : Prop :=
  ∃ k declared, s.lastDeclareJobStore.lookup k = some declared ∧ declared.declareMiningJob = some job

theorem Stores.congr (h : s'.Stores job) (hs : s'.lastDeclareJobStore = s.lastDeclareJobStore) :
    s.Stores job := by
  rw [Stores, ← hs]
  exact h

-- A custom job goes in without a declaration.
theorem stores_makeCustomJob
    (h : (s.makeCustomJob factory upstream token prevHash template outputs).1.Stores job) :
    s.Stores job := by
  obtain ⟨k, declared, hl, hd⟩ := h
  simp only [makeCustomJob] at hl
  split at hl
  case h_1 =>
    simp only [storeCustomJob, Map.lookup_insert_ite] at hl
    split at hl
    case isTrue =>
      cases hl
      cases hd
    case isFalse => exact ⟨k, declared, hl, hd⟩
  case h_2 => exact ⟨k, declared, hl, hd⟩

theorem makeCustomJob_token {job : SetCustomMiningJob} (hF : C.jobFactory.Carries)
    (h : job ∈ (s.makeCustomJob factory upstream token prevHash template outputs).2.toList) :
    job.token.1 = token := by
  simp only [makeCustomJob] at h
  split at h
  case h_1 hr =>
    cases List.mem_singleton.mp h
    exact hF.newCustomJob _ _ _ _ _ _ _ _ _ hr
  case h_2 => cases h

theorem Customizes.stores (h : Customizes upstream token prevHash template outputs s n jobs s')
    (hs : s'.Stores job) : s.Stores job := by
  induction h with
  | nil            => exact hs
  | custom _ _ ih  => exact ih (stores_makeCustomJob hs)
  | register _ ih  => exact ih hs

theorem Customizes.tokens (hF : C.jobFactory.Carries)
    (h : Customizes upstream token prevHash template outputs s n jobs s') :
    jobs.length ≤ n ∧ ∀ job ∈ jobs, job.token.1 = token := by
  induction h with
  | nil => simp
  | register _ ih => exact ih
  | @custom n jobs s₁ factory _ _ ih =>
    refine ⟨?_, List.forall_mem_append.mpr ⟨ih.right, fun job => makeCustomJob_token hF⟩⟩
    have hl := Option.length_toList_le (o := (s₁.makeCustomJob factory upstream token prevHash template
      outputs).2)
    rw [List.length_append]
    omega

-- A client without templates of its own makes a custom job of its last future template.
def Remakes (s : ChannelManager C) : Prop :=
  s.jobFactory.isSome ∧ s.allocateTokens.isSome ∧ s.lastFutureTemplate.isSome ∧
    s.jdMode = .coinbaseOnly

-- The steps that make a declaration or a custom job with the stored token.
def Takes (cfg : Config) (s : ChannelManager C) : Action → Prop
  | .templateMessage (.newTemplate m) =>
    (∃ upstream token prevHash, s.Asks m upstream token prevHash) ∧ s.downstream.entries ≠ []
  | .templateMessage (.setNewPrevHash _) => s.upstreamChannel.isSome ∧ s.Remakes
  | .templateMessage (.requestTransactionDataSuccess m) =>
    ∃ template paid job factory, s.Declares m template paid job factory
  | .poolMessage (.openExtendedMiningChannelSuccess m) =>
    (s.established cfg m).isSome ∧ s.lastNewPrevHash.isSome ∧ s.Remakes
  | _ => False

theorem Customized.stores {upstreamChannel : Option C.Upstream}
    (h : s.Customized upstreamChannel outputs jobs s') (hs : s'.Stores job) : s.Stores job := by
  cases h with
  | made => exact stores_makeCustomJob hs
  | idle => exact hs

theorem Customized.tokens {upstreamChannel : Option C.Upstream} (hF : C.jobFactory.Carries)
    (h : s.Customized upstreamChannel outputs jobs s') :
    jobs = [] ∨ upstreamChannel.isSome ∧ s.lastNewPrevHash.isSome ∧ s.Remakes ∧ jobs.length ≤ 1 ∧
      ∀ m, s.allocateTokens = some m → ∀ job ∈ jobs, job.token.1 = m.miningJobToken := by
  cases h with
  | idle => exact .inl rfl
  | made hu hf ht hl hp hm =>
    refine .inr ⟨by simp [hu], by simp [hp], ⟨by simp [hf], by simp [ht], by simp [hl], hm⟩,
      Option.length_toList_le, fun m hm' => ?_⟩
    cases ht.symm.trans hm'
    exact fun _ => makeCustomJob_token hF

end ChannelManager

def Action.allocated : Action → Option Bytes
  | .jdsMessage (.allocateMiningJobTokenSuccess m) => some m.miningJobToken
  | _                                              => none

-- The custom job of an accepted declaration has a token of its own.
def Action.tokens (a : Action) (ds : List DeclareMiningJob) (cs : List SetCustomMiningJob) :
    List Bytes :=
  match a with
  | .jdsMessage _ => []
  | _             => ds.map (·.miningJobToken.1) ++ cs.map (·.token.1)

namespace System

variable {s s' : ChannelManager C} {a : Action} {ds : List DeclareMiningJob}
variable {cs : List SetCustomMiningJob}

-- What a step does with the stored token and with the stored declarations.
inductive Spends (cfg : Config) (s : ChannelManager C) (a : Action) (s' : ChannelManager C) :
    List Bytes → List DeclareMiningJob → Prop
  | kept : (∀ m, s'.allocateTokens = some m → s.allocateTokens = some m) →
    (∀ job, s'.Stores job → s.Stores job) → Spends cfg s a s' [] []
  | allocated {m : AllocateMiningJobTokenSuccess} : a.allocated = some m.miningJobToken →
    s'.allocateTokens = some m → (∀ job, s'.Stores job → s.Stores job) → Spends cfg s a s' [] []
  | pending {job : DeclareMiningJob} : (∀ m, s'.allocateTokens = some m → s.allocateTokens = some m) →
    (∀ job, s'.Stores job → s.Stores job) → s.Stores job →
    (∃ m, a = .templateMessage (.setNewPrevHash m)) → s.jdMode = .fullTemplate →
    s.pendingDeclaration = some job → Spends cfg s a s' [job.miningJobToken.1] [job]
  | custom {m : AllocateMiningJobTokenSuccess} : s.Takes cfg a → s.allocateTokens = some m →
    s'.allocateTokens = some m → (∀ job, s'.Stores job → s.Stores job) →
    Spends cfg s a s' [m.miningJobToken] []
  | declared {m : AllocateMiningJobTokenSuccess} {job : DeclareMiningJob} {b : Bool} :
    s.Takes cfg a → s.allocateTokens = some m → s'.allocateTokens = some m →
    job.miningJobToken.1 = m.miningJobToken → (∀ job', s'.Stores job' → s.Stores job' ∨ job' = job) →
    Spends cfg s a s' (if b then [] else [m.miningJobToken]) (if b then [] else [job])

theorem tokens_nil : a.tokens [] [] = [] := by
  cases a <;> rfl

theorem stores_modify {k : RequestId} {f : DeclaredJob → DeclaredJob} {job : DeclareMiningJob}
    (hf : ∀ declared, (f declared).declareMiningJob = declared.declareMiningJob)
    (hs : s'.lastDeclareJobStore = s.lastDeclareJobStore.modify k f) (h : s'.Stores job) :
    s.Stores job := by
  obtain ⟨k', declared, hl, hd⟩ := h
  rw [hs] at hl
  by_cases hk : k' = k
  case pos =>
    subst hk
    rw [Map.lookup_modify, Option.map_eq_some_iff] at hl
    obtain ⟨declared₀, hl, rfl⟩ := hl
    exact ⟨k', declared₀, hl, (hf declared₀).symm.trans hd⟩
  case neg =>
    rw [Map.lookup_modify_ne hk] at hl
    exact ⟨k', declared, hl, hd⟩

theorem stores_mapTemplate {k : RequestId} {t : NewTemplate} {j : UpstreamJobId}
    {job : DeclareMiningJob} (h : (s.mapTemplate k t j).Stores job) : s.Stores job := by
  obtain ⟨k', declared, hl, hd⟩ := h
  rw [ChannelManager.mapTemplate, Map.lookup_filterValues, Option.filter_eq_some_iff] at hl
  have hl := hl.left
  rw [Map.lookup_erase_ite] at hl
  split at hl
  case isTrue  => cases hl
  case isFalse => exact ⟨k', declared, hl, hd⟩

theorem stores_tipped {m : SetNewPrevHash} {job : DeclareMiningJob} (h : (s.tipped m).Stores job) :
    s.Stores job := by
  obtain ⟨k, declared, hl, hd⟩ := h
  rw [ChannelManager.tipped, ChannelManager.onChainTipUpdate, ChannelManager.recordPrevHash,
    Map.lookup_mapValues, Option.map_eq_some_iff] at hl
  obtain ⟨declared₀, hl, rfl⟩ := hl
  refine ⟨k, declared₀, hl, ?_⟩
  rw [ChannelManager.activate] at hd
  split at hd <;> exact hd

theorem stores_pendingDeclaration {job : DeclareMiningJob} (h : s.pendingDeclaration = some job) :
    s.Stores job := by
  simp only [ChannelManager.pendingDeclaration, Option.bind_eq_bind, Option.bind_eq_some_iff] at h
  obtain ⟨template, _, entry, he, hd⟩ := h
  exact ⟨entry.1, entry.2, AList.mem_lookup_iff.mpr (List.mem_of_find?_eq_some he), hd⟩

-- At most one custom job takes the token.
theorem spends_custom {m : AllocateMiningJobTokenSuccess} (ht : cs ≠ [] → s.Takes cfg a)
    (hm : s.allocateTokens = some m) (hm' : s'.allocateTokens = some m)
    (hs : ∀ job, s'.Stores job → s.Stores job) (hl : cs.length ≤ 1)
    (hc : ∀ job ∈ cs, job.token.1 = m.miningJobToken) :
    Spends cfg s a s' (cs.map (·.token.1)) [] := by
  cases cs with
  | nil => exact .kept (fun _ h => by rw [hm, ← hm', h]) hs
  | cons job cs =>
    have hn : cs = [] := by simpa using hl
    subst hn
    rw [List.map_singleton, hc job (by simp)]
    exact .custom (ht (by simp)) hm hm' hs

theorem spends_of_works (hF : C.jobFactory.Carries)
    (hd : ∀ m, a = .templateMessage (.newTemplate m) → s.Takes cfg a →
      s.downstream.entries.length ≤ 1)
    (h : Works cfg s a s' ds cs) : Spends cfg s a s' (a.tokens ds cs) ds := by
  cases h with
  | kept hw =>
    rw [tokens_nil]
    refine .kept (fun m hm => ?_) (fun job hj => hj.congr ?_)
    · exact (congrArg Work.allocateTokens hw).symm.trans hm
    · exact congrArg Work.lastDeclareJobStore hw
  | mode => exact .kept (fun _ h => h) (fun _ h => h)
  | reset hw =>
    refine .kept (fun m hm => ?_) (fun job hj => ?_)
    · cases (congrArg Work.allocateTokens hw).symm.trans hm
    · obtain ⟨k, declared, hl, _⟩ := hj
      rw [show s'.lastDeclareJobStore = ∅ from congrArg Work.lastDeclareJobStore hw] at hl
      cases hl
  | allocated => exact .allocated rfl rfl fun _ h => h
  | @accepted m _ declared hl hw =>
    refine .kept (fun _ hm => ?_) (fun job hj => ?_)
    · exact (congrArg Work.allocateTokens hw).symm.trans hm
    · have hs : s'.lastDeclareJobStore =
          (s.mapTemplate m.requestId declared.template m.jobId).lastDeclareJobStore :=
        congrArg Work.lastDeclareJobStore hw
      exact stores_mapTemplate (hj.congr hs)
  | refused => exact .kept (fun _ h => h) (fun _ h => h)
  | @custom _ _ _ job =>
    refine .kept (fun _ h => h) fun _ h => ?_
    exact stores_modify (f := ({ · with setCustomMiningJob := some job })) (fun _ => rfl) rfl h
  | @template m outputs paid jobs s₁ _ _ ho hp ht hw =>
    have hs : s'.lastDeclareJobStore = s₁.lastDeclareJobStore :=
      congrArg Work.lastDeclareJobStore hw
    have hm : s'.allocateTokens = s₁.allocateTokens := congrArg Work.allocateTokens hw
    obtain ⟨upstream, token, prevHash, ha, hc⟩ | ⟨_, rfl, registry, rfl⟩ := ht
    case inr =>
      exact .kept (fun m h => hm.symm.trans h) (fun job h => h.congr (s := s) hs)
    case inl =>
      have ha : s.Asks m upstream token prevHash := ha.congr rfl rfl rfl rfl
      have hf : s₁.allocateTokens = s.allocateTokens := by
        obtain ⟨_, _, _, _, rfl⟩ := hc.frame
        rfl
      obtain ⟨msg, hmsg, rfl⟩ := ha.token
      obtain ⟨hl, htoken⟩ := hc.tokens hF
      have takes (hn : cs ≠ []) : s.Takes cfg (.templateMessage (.newTemplate m)) := by
        refine ⟨⟨_, _, _, ha⟩, fun he => hn (List.length_eq_zero_iff.mp ?_)⟩
        have hl : cs.length ≤ s.downstream.entries.length := hl
        simpa [he] using hl
      refine spends_custom takes hmsg (hm.trans (hf.trans hmsg))
        (fun job h => hc.stores (h.congr hs)) ?_ htoken
      by_cases hn : cs = []
      case pos => simp [hn]
      case neg => exact hl.trans (hd m rfl (takes hn))
  | @tip m outputs _ s₁ _ _ ho hc hw =>
    have hs : s'.lastDeclareJobStore = s₁.lastDeclareJobStore :=
      congrArg Work.lastDeclareJobStore hw
    have hm : s'.allocateTokens = s.allocateTokens := by
      obtain ⟨_, _, _, rfl⟩ := hc.frame
      exact congrArg Work.allocateTokens hw
    have hst (job : DeclareMiningJob) (hj : s'.Stores job) : s.Stores job :=
      stores_tipped (hc.stores (hj.congr hs))
    obtain rfl | ⟨hu, _, hr, hl, htoken⟩ := hc.tokens hF
    case inl =>
      have hk : ∀ m, s'.allocateTokens = some m → s.allocateTokens = some m :=
        fun _ h => hm.symm.trans h
      rw [ChannelManager.declarePending]
      split
      case isFalse => exact .kept hk hst
      case isTrue hmode =>
        cases hp : s.pendingDeclaration with
        | none     => exact .kept hk hst
        | some job => exact .pending hk hst (stores_pendingDeclaration hp) ⟨m, rfl⟩ hmode hp
    case inr =>
      have hmode : s.jdMode = .coinbaseOnly := hr.right.right.right
      obtain ⟨msg, hmsg⟩ := Option.isSome_iff_exists.mp hr.right.left
      rw [ChannelManager.declarePending, hmode, if_neg (by simp)]
      refine spends_custom (fun _ => ⟨?_, hr⟩) hmsg (hm.trans hmsg) hst hl (htoken msg hmsg)
      simpa [ChannelManager.tipped, ChannelManager.onChainTipUpdate,
        ChannelManager.recordPrevHash] using hu
  | @declared m _ _ hj =>
    cases hj with
    | idle   => exact .kept (fun _ h => h) (fun _ h => h)
    | failed => exact .kept (fun _ h => h) (fun _ h => h)
    | @declared template paid job factory hj =>
      obtain ⟨token, _, _, htoken, _, _, hmade⟩ := hj.job
      have hjob : job.miningJobToken.1 = token.miningJobToken :=
        (ChannelManager.declareJob_eq_ok hmade).right.left
      have hu : Action.tokens (.templateMessage (.requestTransactionDataSuccess m))
          (if s.isActivatedFutureTemplate template then [] else [job]) [] =
          if s.isActivatedFutureTemplate template then [] else [token.miningJobToken] := by
        split <;> simp [Action.tokens, hjob]
      rw [hu]
      refine .declared ⟨template, paid, job, factory, hj⟩ htoken htoken hjob fun job' h => ?_
      obtain ⟨k, declared, hl, hd⟩ := h
      simp only [ChannelManager.storeDeclaredJob, Map.lookup_insert_ite] at hl
      split at hl
      case isTrue =>
        cases hl
        exact .inr (Option.some.inj hd).symm
      case isFalse => exact .inl ⟨k, declared, hl, hd⟩
  | @opened m upstream outputs jobs s₁ _ _ he ho hc hw =>
    have hs : s'.lastDeclareJobStore = s₁.lastDeclareJobStore :=
      congrArg Work.lastDeclareJobStore hw
    have hm : s'.allocateTokens = s.allocateTokens := by
      obtain ⟨_, _, _, rfl⟩ := hc.frame
      exact congrArg Work.allocateTokens hw
    have hst (job : DeclareMiningJob) (hj : s'.Stores job) : s.Stores job :=
      hc.stores (hj.congr hs)
    obtain rfl | ⟨_, hp, hr, hl, htoken⟩ := hc.tokens hF
    case inl => exact .kept (fun _ h => hm.symm.trans h) hst
    case inr =>
      obtain ⟨msg, hmsg⟩ := Option.isSome_iff_exists.mp hr.right.left
      exact spends_custom (fun _ => ⟨he, hp, hr⟩) hmsg (hm.trans hmsg) hst hl (htoken msg hmsg)

section Run

abbrev Event (C : StratumCore) := Machine.Event (System C) Action

def messages (e : Event C) : List RouteMessageTo :=
  e.post.sent.drop e.pre.sent.length

-- The tokens of the declarations and of the custom jobs that an event sends.
def used (e : Event C) : List Bytes :=
  e.act.tokens (declarations (messages e)) (customJobs (messages e))

def uses (tr : List (Event C)) : List Bytes :=
  tr.flatMap used

def allocations (tr : List (Event C)) : List Bytes :=
  tr.filterMap (·.act.allocated)

def Renews (e : Event C) : Prop :=
  ∃ m, e.act = .jdsMessage (.allocateMiningJobTokenSuccess m) ∧
    e.post.manager.allocateTokens = some m

-- No step has taken the token since the last reply brought one.
def Untaken (cfg : Config) (tr : List (Event C)) : Prop :=
  ∀ tr₁ e tr₂, tr = tr₁ ++ e :: tr₂ → e.pre.manager.Takes cfg e.act → ∃ e' ∈ tr₂, Renews e'

-- The condition: the server does not allocate a token twice, between any two steps that take the
-- token a reply brings the next one, a template is turned into the custom job of one downstream, and
-- a prev hash does not send a declaration again.
structure Spaced (cfg : Config) (tr : List (Event C)) (e : Event C) : Prop where
  fresh   : ∀ token, e.act.allocated = some token → token ∉ allocations tr
  untaken : e.pre.manager.Takes cfg e.act → Untaken cfg tr
  single  : ∀ m, e.act = .templateMessage (.newTemplate m) → e.pre.manager.Takes cfg e.act →
    e.pre.manager.downstream.entries.length ≤ 1
  unsent  : ∀ m job, e.act = .templateMessage (.setNewPrevHash m) →
    e.pre.manager.jdMode = .fullTemplate → e.pre.manager.pendingDeclaration = some job →
    job ∉ declarations e.pre.sent

variable {tr : List (Event C)} {e : Event C} {s s' : System C}

theorem Untaken.of_snoc (h : Untaken cfg (tr ++ [e])) :
    Renews e ∨ Untaken cfg tr ∧ ¬e.pre.manager.Takes cfg e.act := by
  by_cases hr : Renews e
  case pos => exact .inl hr
  case neg =>
    refine .inr ⟨fun tr₁ e' tr₂ htr ht => ?_, fun ht => ?_⟩
    · obtain ⟨e'', he, hr'⟩ := h tr₁ e' (tr₂ ++ [e]) (by simp [htr]) ht
      obtain he | he := List.mem_append.mp he
      · exact ⟨e'', he, hr'⟩
      · cases List.mem_singleton.mp he
        exact absurd hr' hr
    · obtain ⟨_, he, _⟩ := h tr e [] rfl ht
      cases he

-- The tokens of a run: none is used twice, and what is stored has not been used but where its
-- declaration has been sent.
structure Spent (cfg : Config) (tr : List (Event C)) (s : System C) : Prop where
  nodup     : (uses tr).Nodup
  allocated : ∀ token ∈ uses tr, token ∈ allocations tr
  stored    : ∀ job, s.manager.Stores job → job.miningJobToken.1 ∈ allocations tr ∧
    (job ∉ declarations s.sent → job.miningJobToken.1 ∉ uses tr)
  unique    : ∀ job job', s.manager.Stores job → s.manager.Stores job' →
    job.miningJobToken = job'.miningJobToken → job = job'
  fresh     : ∀ m, s.manager.allocateTokens = some m → m.miningJobToken ∈ allocations tr ∧
    (Untaken cfg tr → m.miningJobToken ∉ uses tr ∧
      ∀ job, s.manager.Stores job → job.miningJobToken.1 ≠ m.miningJobToken)

theorem spends_of_step (hF : C.jobFactory.Carries) (hc : Spaced cfg tr ⟨s, a, s'⟩)
    (h : s.step cfg a = some s') : ∃ ds, Spends cfg s.manager a s'.manager (used ⟨s, a, s'⟩) ds ∧
      declarations s'.sent = declarations s.sent ++ ds := by
  obtain ⟨messages, ha, hs⟩ := acts_of_step h
  refine ⟨declarations messages, ?_, by rw [hs, declarations_append]⟩
  have hm : System.messages ⟨s, a, s'⟩ = messages := by simp [System.messages, hs]
  rw [used, hm]
  exact spends_of_works hF hc.single (works_of_acts ha)

theorem Spent.step (hF : C.jobFactory.Carries) (hi : Spent cfg tr s)
    (hc : Spaced cfg tr ⟨s, a, s'⟩) (h : s.step cfg a = some s') :
    Spent cfg (tr ++ [⟨s, a, s'⟩]) s' := by
  obtain ⟨ds, hsp, hds⟩ := spends_of_step hF hc h
  have hu : uses (tr ++ [⟨s, a, s'⟩]) = uses tr ++ used ⟨s, a, s'⟩ := by simp [uses]
  have hal : ∀ token ∈ allocations tr, token ∈ allocations (tr ++ [⟨s, a, s'⟩]) := by
    intro token ht
    rw [allocations, List.filterMap_append]
    exact List.mem_append_left _ ht
  -- A token that was stored before is not the one of this reply.
  have kept (m : AllocateMiningJobTokenSuccess) (hm : s.manager.allocateTokens = some m)
      (hm' : s'.manager.allocateTokens = some m) (hut : Untaken cfg (tr ++ [⟨s, a, s'⟩])) :
      Untaken cfg tr ∧ ¬s.manager.Takes cfg a := by
    obtain ⟨m', ha, hr⟩ | hut := hut.of_snoc
    case inl =>
      cases hm'.symm.trans hr
      exact absurd (hi.fresh m hm).left (hc.fresh _ (by rw [ha]; rfl))
    case inr => exact hut
  have snoc (token : Bytes) (h : token ∉ uses tr) : (uses tr ++ [token]).Nodup := by
    simpa using hi.nodup.concat h
  generalize used ⟨s, a, s'⟩ = us at hsp hu
  cases hsp with
  | kept hk hs =>
    rw [List.append_nil] at hu hds
    refine ⟨hu ▸ hi.nodup, fun t ht => hal t (hi.allocated t (hu ▸ ht)), fun job hj => ?_,
      fun job job' hj hj' => hi.unique job job' (hs job hj) (hs job' hj'), fun m hm => ?_⟩
    · obtain ⟨hj, hn⟩ := hi.stored job (hs job hj)
      exact ⟨hal _ hj, by rwa [hds, hu]⟩
    · obtain ⟨hm', hf⟩ := hi.fresh m (hk m hm)
      refine ⟨hal _ hm', fun hut => ?_⟩
      obtain ⟨hn, hd⟩ := hf (kept m (hk m hm) hm hut).left
      exact ⟨hu ▸ hn, fun job hj => hd job (hs job hj)⟩
  | @allocated m ha hm hs =>
    rw [List.append_nil] at hu hds
    have hn : m.miningJobToken ∉ allocations tr := hc.fresh _ ha
    refine ⟨hu ▸ hi.nodup, fun t ht => hal t (hi.allocated t (hu ▸ ht)), fun job hj => ?_,
      fun job job' hj hj' => hi.unique job job' (hs job hj) (hs job' hj'), fun m' hm' => ?_⟩
    · obtain ⟨hj, hn⟩ := hi.stored job (hs job hj)
      exact ⟨hal _ hj, by rwa [hds, hu]⟩
    · cases hm.symm.trans hm'
      refine ⟨?_, fun _ => ⟨fun h => hn (hi.allocated _ (hu ▸ h)), fun job hj he => hn ?_⟩⟩
      · simp [allocations, ha]
      · exact he ▸ (hi.stored job (hs job hj)).left
  | @pending job hk hs hj ha hmode hp =>
    obtain ⟨msg, ha⟩ := ha
    have hn : job ∉ declarations s.sent := hc.unsent msg job ha hmode hp
    obtain ⟨hja, hju⟩ := hi.stored job hj
    have hju := hju hn
    refine ⟨?_, fun t ht => ?_, fun job' hj' => ?_,
      fun job job' hj hj' => hi.unique job job' (hs job hj) (hs job' hj'), fun m hm => ?_⟩
    · rw [hu]
      exact snoc _ hju
    · obtain ht | ht := List.mem_append.mp (hu ▸ ht)
      · exact hal t (hi.allocated t ht)
      · cases List.mem_singleton.mp ht
        exact hal _ hja
    · obtain ⟨hja', hju'⟩ := hi.stored job' (hs job' hj')
      refine ⟨hal _ hja', fun hn' => ?_⟩
      rw [hds, List.mem_append, not_or, List.mem_singleton] at hn'
      rw [hu, List.mem_append, not_or, List.mem_singleton]
      refine ⟨hju' hn'.left, fun he => hn'.right ?_⟩
      exact hi.unique job' job (hs job' hj') hj (Subtype.ext he)
    · obtain ⟨hm', hf⟩ := hi.fresh m (hk m hm)
      refine ⟨hal _ hm', fun hut => ?_⟩
      obtain ⟨hn, hd⟩ := hf (kept m (hk m hm) hm hut).left
      refine ⟨?_, fun job hj => hd job (hs job hj)⟩
      rw [hu, List.mem_append, not_or, List.mem_singleton]
      exact ⟨hn, fun he => hd job hj he.symm⟩
  | @custom m ht hm hm' hs =>
    rw [List.append_nil] at hds
    obtain ⟨hma, hf⟩ := hi.fresh m hm
    obtain ⟨hmu, hmd⟩ := hf (hc.untaken ht)
    refine ⟨?_, fun t ht => ?_, fun job hj => ?_,
      fun job job' hj hj' => hi.unique job job' (hs job hj) (hs job' hj'), fun m' hm'' => ?_⟩
    · rw [hu]
      exact snoc _ hmu
    · obtain ht | ht := List.mem_append.mp (hu ▸ ht)
      · exact hal t (hi.allocated t ht)
      · cases List.mem_singleton.mp ht
        exact hal _ hma
    · obtain ⟨hja, hju⟩ := hi.stored job (hs job hj)
      refine ⟨hal _ hja, fun hn => ?_⟩
      rw [hu, List.mem_append, not_or, List.mem_singleton]
      exact ⟨hju (hds ▸ hn), hmd job (hs job hj)⟩
    · cases hm'.symm.trans hm''
      exact ⟨hal _ hma, fun hut => absurd ht (kept m hm hm' hut).right⟩
  | @declared m job b ht hm hm' hj hs =>
    obtain ⟨hma, hf⟩ := hi.fresh m hm
    obtain ⟨hmu, hmd⟩ := hf (hc.untaken ht)
    have hus : ∀ t ∈ uses (tr ++ [⟨s, a, s'⟩]), t ∈ uses tr ∨ b = false ∧ t = m.miningJobToken := by
      rw [hu]
      cases b <;> simp
    refine ⟨?_, fun t ht => ?_, fun job' hj' => ?_, fun job₁ job₂ hj₁ hj₂ he => ?_,
      fun m' hm'' => ?_⟩
    · rw [hu]
      cases b with
      | true  => simpa using hi.nodup
      | false => exact snoc _ hmu
    · obtain ht | ⟨_, rfl⟩ := hus t ht
      · exact hal t (hi.allocated t ht)
      · exact hal _ hma
    · obtain hj' | rfl := hs job' hj'
      · obtain ⟨hja, hju⟩ := hi.stored job' hj'
        refine ⟨hal _ hja, fun hn ht => ?_⟩
        rw [hds, List.mem_append, not_or] at hn
        obtain ht | ⟨_, ht⟩ := hus _ ht
        · exact hju hn.left ht
        · exact hmd job' hj' ht
      · refine ⟨hal _ (hj ▸ hma), fun hn ht => ?_⟩
        obtain ht | ⟨rfl, _⟩ := hus _ ht
        · exact hmu (hj ▸ ht)
        · exact hn (by simp [hds])
    · obtain hj₁ | rfl := hs job₁ hj₁ <;> obtain hj₂ | rfl := hs job₂ hj₂
      · exact hi.unique job₁ job₂ hj₁ hj₂ he
      · exact absurd (he ▸ hj) (hmd job₁ hj₁)
      · exact absurd (he ▸ hj) (hmd job₂ hj₂)
      · rfl
    · cases hm'.symm.trans hm''
      exact ⟨hal _ hma, fun hut => absurd ht (kept m hm hm' hut).right⟩

theorem spent_of_run (hF : C.jobFactory.Carries) (r : (machine C cfg).Run tr s)
    (hc : Machine.History (Spaced cfg) tr) : Spent cfg tr s := by
  obtain ⟨s₀, hi, p⟩ := r
  induction p with
  | nil =>
    have hi : s₀.Init := hi
    refine ⟨List.nodup_nil, by simp [uses], fun job hj => ?_, fun job _ hj => ?_, fun m hm => ?_⟩
    · obtain ⟨_, _, hl, _⟩ := hj
      rw [hi.lastDeclareJobStore] at hl
      cases hl
    · obtain ⟨_, _, hl, _⟩ := hj
      rw [hi.lastDeclareJobStore] at hl
      cases hl
    · cases hi.allocateTokens.symm.trans hm
  | snoc p hst ih =>
    obtain ⟨hc, he⟩ := Machine.History.snoc.mp hc
    exact (ih hc).step hF he hst

theorem used_once_of_run (hF : C.jobFactory.Carries) (r : (machine C cfg).Run tr s)
    (hc : Machine.History (Spaced cfg) tr) (token : Bytes) : (uses tr).count token ≤ 1 :=
  List.nodup_iff_count_le_one.mp (spent_of_run hF r hc).nodup token

-- A run without a step that may take the token, and without a declaration that waits.
def names (s : ChannelManager C) : Action → Bool
  | .templateMessage (.requestTransactionDataSuccess m) => (s.templateStore.lookup m.templateId).isSome
  | _                                                   => false

def quiet (e : Event C) : Bool :=
  e.pre.manager.jdMode ≠ .coinbaseOnly && e.pre.manager.pendingDeclaration.isNone &&
    !names e.pre.manager e.act

theorem not_takes_of_quiet (h : quiet e) : ¬e.pre.manager.Takes cfg e.act := by
  obtain ⟨⟨hm, _⟩, hr⟩ := by simpa [quiet] using h
  intro ht
  rw [ChannelManager.Takes.eq_def] at ht
  split at ht
  case h_1 =>
    obtain ⟨⟨_, _, _, ha⟩, _⟩ := ht
    exact hm ha.mode
  case h_2 => exact hm ht.right.right.right.right
  case h_3 m ha =>
    obtain ⟨_, _, _, _, hd⟩ := ht
    simp [ha, names, hd.stored] at hr
  case h_4 => exact hm ht.right.right.right.right.right
  case h_5 => exact ht

theorem untaken_of_quiet (h : tr.all quiet) : Untaken cfg tr := by
  rintro tr₁ e tr₂ rfl ht
  exact absurd ht (not_takes_of_quiet (List.all_eq_true.mp h e (by simp)))

theorem history_of_quiet (hn : (allocations tr).Nodup) (h : tr.all quiet) :
    Machine.History (Spaced cfg) tr := by
  rintro tr₁ e tr₂ rfl
  have hq : quiet e := List.all_eq_true.mp h e (by simp)
  have hp : e.pre.manager.pendingDeclaration.isNone := by
    simp only [quiet, Bool.and_eq_true] at hq
    exact hq.left.right
  refine ⟨fun token ha ht => ?_, fun ht => absurd ht (not_takes_of_quiet hq),
    fun _ _ ht => absurd ht (not_takes_of_quiet hq), fun m job _ _ hj => ?_⟩
  · rw [allocations, List.filterMap_append, List.filterMap_cons, ha, List.nodup_append] at hn
    exact hn.right.right token ht token (by simp) rfl
  · rw [hj] at hp
    cases hp

end Run

end System

-- A client with templates of its own and a token.
namespace Allocated

open Sample

def allocated : List Action :=
  [.setJdMode .fullTemplate, .setUpstreamState .noChannel, future 1, prevHash 1, .connect,
    openExtended 0, opened, allocate [1], newTemplate 2, newTemplate 3]

theorem twice_exec : ((machine reference (config [] [])).exec (start rewardOutputs)
    (allocated ++ [data 2, data 3])).isSome ∧
    System.uses ((machine reference (config [] [])).trace (start rewardOutputs)
      (allocated ++ [data 2, data 3])) = [[1], [1]] := by
  decide +kernel

theorem once_exec : (((machine reference (config [] [])).exec (start rewardOutputs)
      allocated).any fun s =>
        (s.step (config [] []) (data 2)).isSome && s.manager.jdMode = .fullTemplate) ∧
    ((machine reference (config [] [])).trace (start rewardOutputs) allocated).all System.quiet ∧
    (System.allocations
      ((machine reference (config [] [])).trace (start rewardOutputs) allocated)).Nodup ∧
    System.uses ((machine reference (config [] [])).trace (start rewardOutputs)
      (allocated ++ [data 2])) = [[1]] := by
  decide +kernel

end Allocated

open Sample Allocated in
theorem not_used_once : ¬∀ tr s, (machine reference (config [] [])).Run tr s →
    ∀ token, (System.uses tr).count token ≤ 1 := by
  intro h
  obtain ⟨hexec, huses⟩ := twice_exec
  obtain ⟨s, hs⟩ := Option.isSome_iff_exists.mp hexec
  have hc := h _ s (Machine.Run.of_exec start_init hs) [1]
  rw [huses] at hc
  exact absurd hc (by decide)

open Sample Allocated in
theorem used_once_sample : ∃ tr s, (machine reference (config [] [])).Run tr s ∧
    [1] ∈ System.uses tr ∧ ∀ token, (System.uses tr).count token ≤ 1 := by
  obtain ⟨hexec, hquiet, hallocations, hu⟩ := once_exec
  obtain ⟨s, hs, hd⟩ := Option.any_eq_true _ _ |>.mp hexec
  obtain ⟨hst, _⟩ := Bool.and_eq_true_iff.mp hd
  obtain ⟨s', hst⟩ := Option.isSome_iff_exists.mp hst
  have r := (Machine.Run.of_exec start_init hs).snoc hst
  have hq : Machine.History (System.Spaced (config [] [])) _ :=
    System.history_of_quiet hallocations hquiet
  rw [Machine.trace_concat hs hst] at hu
  refine ⟨_, s', r, by simp [hu], System.used_once_of_run
    StratumCore.Reference.jobFactories_carries r (Machine.History.snoc.mpr ⟨hq, ?_⟩)⟩
  refine ⟨fun _ h => ?_, fun _ => System.untaken_of_quiet hquiet, fun _ h => ?_, fun _ _ h => ?_⟩
  all_goals cases h

end Jdc
