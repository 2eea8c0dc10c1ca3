import StratumApps.JobDeclaratorClient.Frames

open Sv2 Handler StratumCore

namespace Jdc

variable {C : StratumCore} {cfg : Config}

namespace RouteMessageTo

def declaration : RouteMessageTo → Option DeclareMiningJob
  | jobDeclarator (.declareMiningJob m) => some m
  | _                                   => none

def customJob : RouteMessageTo → Option SetCustomMiningJob
  | upstream (.setCustomMiningJob m) => some m
  | _                                => none

-- A message that is about no job of the client.
def Plain (m : RouteMessageTo) : Prop :=
  m.declaration = none ∧ m.customJob = none

end RouteMessageTo

def declarations (messages : List RouteMessageTo) : List DeclareMiningJob :=
  messages.filterMap (·.declaration)

def customJobs (messages : List RouteMessageTo) : List SetCustomMiningJob :=
  messages.filterMap (·.customJob)

section Messages

variable {messages messages' : List RouteMessageTo} {mode : JdMode} {jobs : List SetCustomMiningJob}
variable {d : DownstreamId} {m : RouteMessageTo}

@[simp]
theorem declarations_append :
    declarations (messages ++ messages') = declarations messages ++ declarations messages' :=
  List.filterMap_append

@[simp]
theorem customJobs_append :
    customJobs (messages ++ messages') = customJobs messages ++ customJobs messages' :=
  List.filterMap_append

theorem declarations_plain (h : ∀ m ∈ messages, m.Plain) : declarations messages = [] :=
  List.filterMap_eq_nil_iff.mpr fun m hm => (h m hm).left

theorem customJobs_plain (h : ∀ m ∈ messages, m.Plain) : customJobs messages = [] :=
  List.filterMap_eq_nil_iff.mpr fun m hm => (h m hm).right

theorem RouteMessageTo.Serves.plain (h : m.Serves d) : m.Plain := by
  cases m with
  | upstream m       => cases m <;> first | exact ⟨rfl, rfl⟩ | cases h
  | jobDeclarator m  => cases m <;> first | exact ⟨rfl, rfl⟩ | cases h
  | templateProvider => exact ⟨rfl, rfl⟩
  | extensions       => exact ⟨rfl, rfl⟩
  | downstream       => exact ⟨rfl, rfl⟩
  | status           => exact ⟨rfl, rfl⟩

@[simp]
theorem declarations_custom :
    declarations (jobs.map fun job => .upstream (.setCustomMiningJob job)) = [] := by
  simp [declarations, List.filterMap_map, RouteMessageTo.declaration]

@[simp]
theorem customJobs_custom :
    customJobs (jobs.map fun job => .upstream (.setCustomMiningJob job)) = jobs := by
  simp [customJobs, List.filterMap_map, RouteMessageTo.customJob]

-- Messages for the downstreams, behind those that are there already.
def Adds (messages messages' : List RouteMessageTo) : Prop :=
  ∃ new, messages' = messages ++ new ∧ ∀ m ∈ new, ∃ d m', m = .downstream d m'

theorem Adds.refl (messages : List RouteMessageTo) : Adds messages messages :=
  ⟨[], by simp, by simp⟩

theorem Adds.trans {messages₁ messages₂ messages₃ : List RouteMessageTo}
    (h₁ : Adds messages₁ messages₂) (h₂ : Adds messages₂ messages₃) : Adds messages₁ messages₃ := by
  obtain ⟨new₁, rfl, hn₁⟩ := h₁
  obtain ⟨new₂, rfl, hn₂⟩ := h₂
  exact ⟨new₁ ++ new₂, by simp, List.forall_mem_append.mpr ⟨hn₁, hn₂⟩⟩

theorem Adds.singleton {m : Mining} : Adds messages (messages ++ [.downstream d m]) :=
  ⟨[.downstream d m], rfl, fun _ h => ⟨d, m, List.mem_singleton.mp h⟩⟩

theorem Adds.plain (h : Adds [] messages) : ∀ m ∈ messages, m.Plain := by
  obtain ⟨new, rfl, hn⟩ := h
  intro m hm
  obtain ⟨d, m', rfl⟩ := hn m hm
  exact ⟨rfl, rfl⟩

theorem Adds.work (h : Adds messages messages') :
    declarations messages' = declarations messages ∧ customJobs messages' = customJobs messages := by
  obtain ⟨new, rfl, hn⟩ := h
  have hp : ∀ m ∈ new, m.Plain := by
    intro m hm
    obtain ⟨d, m', rfl⟩ := hn m hm
    exact ⟨rfl, rfl⟩
  simp [declarations_plain hp, customJobs_plain hp]

theorem forward_of_ne (h : mode ≠ .soloMining) : forward mode messages = messages := by
  rw [forward, List.filter_eq_self]
  intro m _
  cases m <;> simp [RouteMessageTo.forwards, h]

-- Only messages to the upstream are held back.
theorem declarations_forward : declarations (forward mode messages) = declarations messages := by
  rw [declarations, forward, List.filterMap_filter, declarations]
  congr 1
  funext m
  cases m <;> simp [RouteMessageTo.forwards, RouteMessageTo.declaration]

theorem customJobs_forward (h : customJobs messages = []) :
    customJobs (forward mode messages) = [] := by
  rw [customJobs, List.filterMap_eq_nil_iff] at h ⊢
  exact fun m hm => h m (mem_of_mem_forward hm)

theorem declarations_unless {b : Bool} {job : DeclareMiningJob} :
    declarations (if b then [] else [.jobDeclarator (.declareMiningJob job)]) =
      if b then [] else [job] := by
  cases b <;> rfl

theorem customJobs_unless {b : Bool} {job : DeclareMiningJob} :
    customJobs (if b then [] else [.jobDeclarator (.declareMiningJob job)]) = [] := by
  cases b <;> rfl

end Messages

section Loops

variable {κ μ ε : Type} [JobMessage μ] {J : JobStore κ μ ε} {d : DownstreamId} {mining : μ → Mining}
variable {t : NewTemplate} {p : SetNewPrevHash} {outputs : List TxOut} {channelId : ChannelId}
variable {messages messages' : List RouteMessageTo} {D D' : Downstream C}

theorem channelNewTemplate_adds {c c' : κ} {r r' : Registry × List RouteMessageTo}
    (h : channelNewTemplate J d mining t outputs channelId c r = .ok (c', r')) :
    Adds r.2 r'.2 := by
  rw [channelNewTemplate] at h
  split at h
  case h_1 =>
    cases pure_eq_ok.mp h
    exact .refl _
  case h_2 =>
    simp only [bind_eq_ok, pure_eq_ok] at h
    obtain ⟨_, _, h⟩ := h
    cases h
    exact .singleton

theorem channelSetNewPrevHash_adds {c c' : κ} {silent : Bool}
    (h : channelSetNewPrevHash J d silent p channelId c messages = .ok (c', messages')) :
    Adds messages messages' := by
  rw [channelSetNewPrevHash] at h
  split at h
  case h_1 =>
    cases pure_eq_ok.mp h
    exact .refl _
  case h_2 =>
    split at h
    case isTrue =>
      cases pure_eq_ok.mp h
      exact .refl _
    case isFalse =>
      simp only [bind_eq_ok, pure_eq_ok] at h
      obtain ⟨_, _, h⟩ := h
      cases h
      exact .singleton

-- A loop whose rounds only add messages for the downstreams.
theorem forEach_adds {κ α σ : Type} [DecidableEq κ] {f : κ → α → σ → Except (Fault JDCError) (α × σ)}
    {g : σ → List RouteMessageTo} {m m' : Map κ α} {s s' : σ}
    (hf : ∀ k v s v' s', f k v s = .ok (v', s') → Adds (g s) (g s'))
    (h : m.forEach f s = .ok (m', s')) : Adds (g s) (g s') := by
  have hr := Map.forEach_rule (P := fun _ => True) (T := fun s s' => Adds (g s) (g s'))
    (fun _ => .refl _) (fun _ _ _ => Adds.trans) (fun k v s v' s' _ _ h => ⟨trivial, hf _ _ _ _ _ h⟩)
    trivial h
  exact hr.right.left

namespace Downstream

theorem standardNewTemplate_adds {groupJob : Option ExtendedJob} {c c' : C.Standard}
    {r r' : Registry × List RouteMessageTo}
    (h : D.standardNewTemplate d groupJob t outputs channelId c r = .ok (c', r')) :
    Adds r.2 r'.2 := by
  rw [standardNewTemplate.eq_def] at h
  split at h
  case isTrue => exact channelNewTemplate_adds h
  case isFalse =>
    split at h
    case h_1 =>
      cases pure_eq_ok.mp h
      exact .refl _
    case h_2 =>
      split at h <;> cases pure_eq_ok.mp h <;> exact .refl _

theorem channelsNewTemplate_adds {group : Option C.Group} {groupJob : Option ExtendedJob}
    {registry : Registry} {r : Downstream C × Registry × List RouteMessageTo}
    (h : D.channelsNewTemplate d t outputs group groupJob registry messages = .ok r) :
    Adds messages r.2.2 := by
  simp only [channelsNewTemplate, bind_eq_ok, pure_eq_ok, Prod.exists] at h
  obtain ⟨standard, _, _, hs, extended, _, _, he, rfl⟩ := h
  refine (forEach_adds (g := Prod.snd) (fun _ _ _ _ _ => standardNewTemplate_adds) hs).trans ?_
  refine Adds.trans ?_ (forEach_adds (g := Prod.snd) (fun _ _ _ _ _ => channelNewTemplate_adds) he)
  refine ⟨_, rfl, fun m hm => ?_⟩
  obtain ⟨_, _, rfl⟩ := List.mem_map.mp hm
  exact ⟨_, _, rfl⟩

theorem setNewPrevHash_adds {r : Downstream C × List RouteMessageTo}
    (h : D.setNewPrevHash d p messages = .ok r) : Adds messages r.2 := by
  simp only [setNewPrevHash, bind_eq_ok, pure_eq_ok, Prod.exists] at h
  obtain ⟨group, messages₁, hg, standard, _, hs, extended, _, he, rfl⟩ := h
  have hg : Adds messages messages₁ := by
    rw [groupSetNewPrevHash] at hg
    split at hg
    case h_1 =>
      cases pure_eq_ok.mp hg
      exact .refl _
    case h_2 =>
      simp only [bind_eq_ok, pure_eq_ok] at hg
      obtain ⟨_, _, hg⟩ := hg
      cases hg
      exact .singleton
  refine hg.trans ?_
  refine (forEach_adds (g := id) (fun _ _ _ _ _ => channelSetNewPrevHash_adds) hs).trans ?_
  exact forEach_adds (g := id) (fun _ _ _ _ _ => channelSetNewPrevHash_adds) he

end Downstream

end Loops

namespace ChannelManager

variable {s s' s₁ : ChannelManager C} {factory : C.JobFactory} {upstream : C.Upstream}
variable {token : Bytes} {prevHash : SetNewPrevHash} {template : NewTemplate}
variable {outputs : List TxOut} {jobs : List SetCustomMiningJob} {n : ℕ}

-- What the manager changes when it makes a custom job.
theorem makeCustomJob_frame :
    ∃ factory' store, (s.makeCustomJob factory upstream token prevHash template outputs).1 = { s with
      requestIdFactory    := s.requestIdFactory + 1
      jobFactory          := some factory'
      lastDeclareJobStore := store } := by
  simp only [makeCustomJob]
  split <;> exact ⟨_, _, rfl⟩

-- The custom jobs that are made of a template one after the other, with the registrations of other
-- jobs between them.
inductive Customizes (upstream : C.Upstream) (token : Bytes) (prevHash : SetNewPrevHash)
    (template : NewTemplate) (outputs : List TxOut) (s : ChannelManager C) :
    ℕ → List SetCustomMiningJob → ChannelManager C → Prop
  | nil : Customizes upstream token prevHash template outputs s 0 [] s
  | custom {n : ℕ} {jobs : List SetCustomMiningJob} {s₁ : ChannelManager C} {factory : C.JobFactory} :
    Customizes upstream token prevHash template outputs s n jobs s₁ →
    s₁.jobFactory = some factory →
    Customizes upstream token prevHash template outputs s (n + 1)
      (jobs ++ (s₁.makeCustomJob factory upstream token prevHash template outputs).2.toList)
      (s₁.makeCustomJob factory upstream token prevHash template outputs).1
  | register {n : ℕ} {jobs : List SetCustomMiningJob} {s₁ : ChannelManager C} {registry : Registry} :
    Customizes upstream token prevHash template outputs s n jobs s₁ →
    Customizes upstream token prevHash template outputs s n jobs
      { s₁ with downstreamChannelIdAndJobIdToTemplateId := registry }

theorem Customizes.frame (h : Customizes upstream token prevHash template outputs s n jobs s') :
    ∃ requestId factory store registry, s' = { s with
      requestIdFactory                        := requestId
      jobFactory                              := factory
      lastDeclareJobStore                     := store
      downstreamChannelIdAndJobIdToTemplateId := registry } := by
  induction h with
  | nil => exact ⟨_, _, _, _, rfl⟩
  | custom _ _ ih =>
    obtain ⟨_, _, _, registry, rfl⟩ := ih
    obtain ⟨_, _, he⟩ := makeCustomJob_frame
    exact ⟨_, _, _, registry, he⟩
  | register _ ih =>
    obtain ⟨_, _, _, _, rfl⟩ := ih
    exact ⟨_, _, _, _, rfl⟩

section NewTemplate

variable {msg : NewTemplate} {messages : List RouteMessageTo}

-- The upstream is asked for a job of the template.
structure Asks (s : ChannelManager C) (msg : NewTemplate) (upstream : C.Upstream) (token : Bytes)
    (prevHash : SetNewPrevHash) : Prop where
  upstream : s.upstreamChannel = some upstream
  token    : ∃ t, s.allocateTokens = some t ∧ t.miningJobToken = token
  prevHash : s.lastNewPrevHash = some prevHash
  future   : msg.futureTemplate = false
  mode     : s.jdMode = .coinbaseOnly

theorem Asks.congr {s' : ChannelManager C} (h : s.Asks msg upstream token prevHash)
    (hu : s'.upstreamChannel = s.upstreamChannel) (ht : s'.allocateTokens = s.allocateTokens)
    (hp : s'.lastNewPrevHash = s.lastNewPrevHash) (hm : s'.jdMode = s.jdMode) :
    s'.Asks msg upstream token prevHash where
  upstream := hu.trans h.upstream
  token    := ht ▸ h.token
  prevHash := hp.trans h.prevHash
  future   := h.future
  mode     := hm.trans h.mode

theorem customNewTemplate_asks (ha : s.Asks msg upstream token prevHash)
    {r : ChannelManager C × List RouteMessageTo}
    (h : s.customNewTemplate msg outputs messages = .ok r) : ∃ factory, s.jobFactory = some factory ∧
      r.1 = (s.makeCustomJob factory upstream token prevHash msg outputs).1 ∧
      r.2 = messages ++ (s.makeCustomJob factory upstream token prevHash msg outputs).2.toList.map
        fun job => .upstream (.setCustomMiningJob job) := by
  obtain ⟨t, ht, rfl⟩ := ha.token
  rw [customNewTemplate, ha.upstream, ht, ha.prevHash] at h
  simp only [ha.future, ha.mode, Bool.not_false, decide_true, Bool.and_self, if_true, bind_eq_ok,
    expect_eq_ok, pure_eq_ok] at h
  obtain ⟨factory, hf, rfl⟩ := h
  exact ⟨factory, hf, rfl, rfl⟩

theorem customNewTemplate_not_asks
    (ha : ¬∃ upstream token prevHash, s.Asks msg upstream token prevHash)
    {r : ChannelManager C × List RouteMessageTo}
    (h : s.customNewTemplate msg outputs messages = .ok r) : r = (s, messages) := by
  rw [customNewTemplate] at h
  split at h
  case h_2 =>
    cases pure_eq_ok.mp h
    rfl
  case h_1 upstream token prevHash hu ht hp =>
    split at h
    case isFalse =>
      cases pure_eq_ok.mp h
      rfl
    case isTrue hc =>
      simp only [Bool.and_eq_true, Bool.not_eq_true', decide_eq_true_eq] at hc
      exact absurd ⟨upstream, _, prevHash, hu, ⟨token, ht, rfl⟩, hp, hc.left, hc.right⟩ ha

theorem downstreamNewTemplate_customizes {d : DownstreamId} {D D' : Downstream C}
    {r r' : ChannelManager C × List RouteMessageTo} (ha : s.Asks msg upstream token prevHash)
    (hc : Customizes upstream token prevHash msg outputs s n jobs r.1)
    (h : downstreamNewTemplate msg outputs d D r = .ok (D', r')) :
    ∃ jobs', Customizes upstream token prevHash msg outputs s (n + 1) (jobs ++ jobs') r'.1 ∧
      declarations r'.2 = declarations r.2 ∧ customJobs r'.2 = customJobs r.2 ++ jobs' := by
  simp only [downstreamNewTemplate, bind_eq_ok, pure_eq_ok, Prod.exists] at h
  obtain ⟨group, groupJob, _, s₁, messages₁, hn, D₁, registry, messages₂, hd, h⟩ := h
  cases h
  have ha : r.1.Asks msg upstream token prevHash := by
    obtain ⟨_, _, _, _, he⟩ := hc.frame
    rw [he]
    exact ha.congr rfl rfl rfl rfl
  obtain ⟨factory, hf, rfl, rfl⟩ := customNewTemplate_asks ha hn
  obtain ⟨hd, hj⟩ := (Downstream.channelsNewTemplate_adds hd).work
  exact ⟨_, (hc.custom hf).register, by simpa using hd, by simpa using hj⟩

theorem downstreamNewTemplate_registers {d : DownstreamId} {D D' : Downstream C}
    {r r' : ChannelManager C × List RouteMessageTo}
    (ha : ¬∃ upstream token prevHash, r.1.Asks msg upstream token prevHash)
    (h : downstreamNewTemplate msg outputs d D r = .ok (D', r')) :
    ∃ registry, r'.1 = { r.1 with downstreamChannelIdAndJobIdToTemplateId := registry } ∧
      declarations r'.2 = declarations r.2 ∧ customJobs r'.2 = customJobs r.2 := by
  simp only [downstreamNewTemplate, bind_eq_ok, pure_eq_ok, Prod.exists] at h
  obtain ⟨group, groupJob, _, s₁, messages₁, hn, D₁, registry, messages₂, hd, h⟩ := h
  cases h
  cases customNewTemplate_not_asks ha hn
  exact ⟨_, rfl, (Downstream.channelsNewTemplate_adds hd).work⟩

theorem renewToken_frame {asked : Bool} :
    ∃ requestId, (s.renewToken cfg asked).1 = { s with requestIdFactory := requestId } := by
  rw [renewToken]
  split <;> exact ⟨_, rfl⟩

theorem renewToken_plain {asked : Bool} : ∀ m ∈ (s.renewToken cfg asked).2, m.Plain := by
  rw [renewToken]
  split
  case isTrue  => simp [allocateToken, requestTokens, RouteMessageTo.Plain,
    RouteMessageTo.declaration, RouteMessageTo.customJob]
  case isFalse => simp

theorem requestTransactionData_plain : ∀ m ∈ s.requestTransactionData msg, m.Plain := by
  rw [requestTransactionData]
  split
  case isTrue  => simp [RouteMessageTo.Plain, RouteMessageTo.declaration, RouteMessageTo.customJob]
  case isFalse => simp

-- The custom jobs of a template, one for each downstream, or none.
def Templated (s : ChannelManager C) (msg : NewTemplate) (outputs : List TxOut)
    (jobs : List SetCustomMiningJob) (s' : ChannelManager C) : Prop :=
  (∃ upstream token prevHash, s.Asks msg upstream token prevHash ∧
    Customizes upstream token prevHash msg outputs s s.downstream.entries.length jobs s') ∨
  (¬∃ upstream token prevHash, s.Asks msg upstream token prevHash) ∧ jobs = [] ∧
    ∃ registry, s' = { s with downstreamChannelIdAndJobIdToTemplateId := registry }

theorem Templated.frame (h : s.Templated msg outputs jobs s') :
    ∃ requestId factory store registry, s' = { s with
      requestIdFactory                        := requestId
      jobFactory                              := factory
      lastDeclareJobStore                     := store
      downstreamChannelIdAndJobIdToTemplateId := registry } := by
  obtain ⟨_, _, _, _, h⟩ | ⟨_, _, _, rfl⟩ := h
  · exact h.frame
  · exact ⟨_, _, _, _, rfl⟩

theorem forEach_templated {D : Map DownstreamId (Downstream C)} {messages' : List RouteMessageTo}
    (h : s.downstream.forEach (downstreamNewTemplate msg outputs) (s, []) = .ok (D, s', messages')) :
    ∃ jobs, s.Templated msg outputs jobs s' ∧ declarations messages' = [] ∧
      customJobs (forward s.jdMode messages') = jobs := by
  by_cases ha : ∃ upstream token prevHash, s.Asks msg upstream token prevHash
  case pos =>
    obtain ⟨upstream, token, prevHash, ha⟩ := ha
    have hc := Map.forEach_counted (P := fun n (r : ChannelManager C × List RouteMessageTo) =>
      ∃ jobs, Customizes upstream token prevHash msg outputs s n jobs r.1 ∧
        declarations r.2 = [] ∧ customJobs r.2 = jobs) ?_ ⟨[], .nil, rfl, rfl⟩ h
    · obtain ⟨jobs, hc, hd, hj⟩ := hc
      refine ⟨jobs, .inl ⟨upstream, token, prevHash, ha, hc⟩, hd, ?_⟩
      rw [forward_of_ne (by simp [ha.mode]), hj]
    · rintro d D r D' r' n ⟨jobs, hc, hd, hj⟩ h
      obtain ⟨jobs', hc, hd', hj'⟩ := downstreamNewTemplate_customizes ha hc h
      exact ⟨_, hc, hd'.trans hd, by rw [hj', hj]⟩
  case neg =>
    have hc := Map.forEach_counted (P := fun _ (r : ChannelManager C × List RouteMessageTo) =>
      (∃ registry, r.1 = { s with downstreamChannelIdAndJobIdToTemplateId := registry }) ∧
        declarations r.2 = [] ∧ customJobs r.2 = []) ?_ ⟨⟨_, rfl⟩, rfl, rfl⟩ h
    · obtain ⟨hr, hd, hj⟩ := hc
      exact ⟨[], .inr ⟨ha, rfl, hr⟩, hd, customJobs_forward hj⟩
    · rintro d D r D' r' n ⟨⟨registry, he⟩, hd, hj⟩ h
      have ha' : ¬∃ upstream token prevHash, r.1.Asks msg upstream token prevHash := by
        rintro ⟨upstream, token, prevHash, ha'⟩
        rw [he] at ha'
        exact ha ⟨upstream, token, prevHash, ha'.congr rfl rfl rfl rfl⟩
      obtain ⟨registry', he', hd', hj'⟩ := downstreamNewTemplate_registers ha' h
      exact ⟨⟨registry', by rw [he', he]⟩, hd'.trans hd, hj'.trans hj⟩

theorem handleNewTemplate_eq_ok {o : Outcome C} (h : s.handleNewTemplate cfg msg = .ok o) :
    ∃ outputs paid D s' jobs, C.deserializeOutputs s.coinbaseOutputs = .ok outputs ∧
      payRemaining msg.coinbaseTxValueRemaining outputs = some paid ∧
      (s.storeTemplate msg).Templated msg paid jobs s' ∧
      o.manager = ({ s' with downstream := D }.renewToken cfg (!msg.futureTemplate)).1 ∧
      o.error = none ∧ declarations o.messages = [] ∧ customJobs o.messages = jobs := by
  simp only [handleNewTemplate, bind_eq_ok, ofExcept_eq_ok, expect_eq_ok, pure_eq_ok,
    Prod.exists] at h
  obtain ⟨outputs, ho, paid, hp, D, s', messages, hl, rfl⟩ := h
  obtain ⟨jobs, ht, hd, hj⟩ := forEach_templated hl
  refine ⟨outputs, paid, D, s', jobs, ho, hp, ht, rfl, rfl, ?_, ?_⟩
  · simp only [declarations_append, declarations_plain requestTransactionData_plain,
      declarations_plain renewToken_plain, declarations_forward, hd, List.nil_append]
  · simp only [customJobs_append, customJobs_plain requestTransactionData_plain,
      customJobs_plain renewToken_plain, hj, List.nil_append]

end NewTemplate

section SetNewPrevHash

variable {msg : SetNewPrevHash} {upstreamChannel : Option C.Upstream}

-- The manager as a prev hash leaves it before it makes a custom job.
def tipped (s : ChannelManager C) (msg : SetNewPrevHash) : ChannelManager C :=
  ((s.onChainTipUpdate msg).recordPrevHash msg).onChainTipUpdate msg

-- At most one custom job is made of the last future template.
inductive Customized (s : ChannelManager C) (upstreamChannel : Option C.Upstream)
    (outputs : List TxOut) : List SetCustomMiningJob → ChannelManager C → Prop
  | made {upstream : C.Upstream} {factory : C.JobFactory} {token : AllocateMiningJobTokenSuccess}
    {template : NewTemplate} {prevHash : SetNewPrevHash} :
    upstreamChannel = some upstream → s.jobFactory = some factory →
    s.allocateTokens = some token → s.lastFutureTemplate = some template →
    s.lastNewPrevHash = some prevHash → s.jdMode = .coinbaseOnly →
    Customized s upstreamChannel outputs
      (s.makeCustomJob factory upstream token.miningJobToken prevHash template outputs).2.toList
      (s.makeCustomJob factory upstream token.miningJobToken prevHash template outputs).1
  | idle : Customized s upstreamChannel outputs [] s

theorem Customized.frame (h : Customized s upstreamChannel outputs jobs s') :
    ∃ requestId factory store, s' = { s with
      requestIdFactory    := requestId
      jobFactory          := factory
      lastDeclareJobStore := store } := by
  cases h with
  | made =>
    obtain ⟨_, _, he⟩ := makeCustomJob_frame
    exact ⟨_, _, _, he⟩
  | idle => exact ⟨_, _, _, rfl⟩

theorem Customized.forwarded {messages : List RouteMessageTo}
    (h : Customized s upstreamChannel outputs jobs s') (hj : customJobs messages = jobs) :
    customJobs (forward s.jdMode messages) = jobs := by
  cases h with
  | made _ _ _ _ _ hm =>
    rw [forward_of_ne (by simp [hm])]
    exact hj
  | idle => exact customJobs_forward hj

theorem customSetNewPrevHash_customized (outputs : List TxOut)
    (hp : s.lastNewPrevHash = some msg) :
    ∃ jobs, s.Customized s.upstreamChannel outputs jobs (s.customSetNewPrevHash msg outputs).1 ∧
      (s.customSetNewPrevHash msg outputs).2 =
        jobs.map fun job => .upstream (.setCustomMiningJob job) := by
  rw [customSetNewPrevHash]
  split
  case h_2 => exact ⟨[], .idle, rfl⟩
  case h_1 hu hf ht hl =>
    split
    case isTrue hm => exact ⟨_, .made hu hf ht hl hp hm, rfl⟩
    case isFalse   => exact ⟨[], .idle, rfl⟩

theorem customJobs_declarePending : customJobs s.declarePending = [] := by
  rw [declarePending]
  split
  case isTrue  => simp [customJobs, RouteMessageTo.customJob]
  case isFalse => rfl

theorem handleSetNewPrevHash_eq_ok {o : Outcome C} (h : s.handleSetNewPrevHash cfg msg = .ok o) :
    ∃ outputs jobs s' D, C.deserializeOutputs s.coinbaseOutputs = .ok outputs ∧
      (s.tipped msg).Customized (s.tipped msg).upstreamChannel outputs jobs s' ∧
      o.manager = ({ s' with downstream := D }.renewToken cfg true).1 ∧ o.error = none ∧
      declarations o.messages = declarations s.declarePending ∧ customJobs o.messages = jobs := by
  simp only [handleSetNewPrevHash, bind_eq_ok, ofExcept_eq_ok, pure_eq_ok, Prod.exists] at h
  obtain ⟨outputs, ho, D, messages, hl, rfl⟩ := h
  have hp : (s.tipped msg).lastNewPrevHash = some msg := rfl
  obtain ⟨jobs, hc, hm⟩ := customSetNewPrevHash_customized outputs hp
  have ha := (forEach_adds (g := id) (fun _ _ _ _ _ => Downstream.setNewPrevHash_adds) hl).work
  rw [id, id, ← tipped, hm, declarations_custom, customJobs_custom] at ha
  refine ⟨outputs, jobs, _, D, ho, hc, rfl, rfl, ?_, ?_⟩
  · simp only [declarations_append, declarations_plain renewToken_plain, declarations_forward,
      ha.left, List.append_nil]
  · simp only [customJobs_append, customJobs_plain renewToken_plain, customJobs_declarePending,
      List.nil_append]
    exact hc.forwarded ha.right

end SetNewPrevHash

section RequestTxData

variable {msg : RequestTransactionDataSuccess}

-- The declaration of a stored template.
structure Declares (s : ChannelManager C) (msg : RequestTransactionDataSuccess)
    (template : NewTemplate) (paid : List TxOut) (job : DeclareMiningJob)
    (factory' : C.JobFactory) : Prop where
  stored  : s.templateStore.lookup msg.templateId = some template
  outputs : ∃ outputs, C.deserializeOutputs s.coinbaseOutputs = .ok outputs ∧
    payRemaining template.coinbaseTxValueRemaining outputs = some paid
  job     : ∃ token ids factory, s.allocateTokens = some token ∧
    txIds (C := C) msg = .ok ids ∧ s.jobFactory = some factory ∧
    s.declareJob msg s.requestIdFactory token.miningJobToken template paid ids factory =
      .ok (factory', some job)

theorem declareJob_eq_ok {requestId : RequestId} {ids : Seq064K U256} {factory' : C.JobFactory}
    {job : DeclareMiningJob}
    (h : s.declareJob msg requestId token template outputs ids factory = .ok (factory', some job)) :
    job.requestId = requestId ∧ job.miningJobToken.1 = token ∧ job.txIdsList = ids := by
  rw [declareJob] at h
  split at h
  case h_1 => cases h
  case h_2 =>
    simp only [bind_eq_ok, expect_eq_ok, pure_eq_ok, Prod.mk.injEq, Option.some.injEq] at h
    obtain ⟨miningJobToken, ht, _, _, _, _, _, rfl⟩ := h
    exact ⟨rfl, Bytes.val_of_tryInto ht, rfl⟩

-- What becomes of the work with the data of a template.
inductive Declared (s : ChannelManager C) (msg : RequestTransactionDataSuccess) :
    List DeclareMiningJob → ChannelManager C → Prop
  | idle : Declared s msg [] { s with
      templateStore    := s.templateStore.erase msg.templateId
      requestIdFactory := s.requestIdFactory + 1 + 1 }
  | failed {factory : C.JobFactory} : Declared s msg [] { s with
      templateStore    := s.templateStore.erase msg.templateId
      requestIdFactory := s.requestIdFactory + 1 + 1
      jobFactory       := some factory }
  | declared {template : NewTemplate} {paid : List TxOut} {job : DeclareMiningJob}
    {factory : C.JobFactory} :
    s.Declares msg template paid job factory →
    Declared s msg (if s.isActivatedFutureTemplate template then [] else [job])
      ({ s with
        templateStore    := s.templateStore.erase msg.templateId
        requestIdFactory := s.requestIdFactory + 1 + 1
        jobFactory       := some factory }.storeDeclaredJob msg template paid job)

theorem Declared.frame {jobs : List DeclareMiningJob} (h : s.Declared msg jobs s') :
    ∃ store requestId factory declared, s' = { s with
      templateStore       := store
      requestIdFactory    := requestId
      jobFactory          := factory
      lastDeclareJobStore := declared } := by
  cases h <;> exact ⟨_, _, _, _, rfl⟩

theorem handleRequestTxDataSuccess_declared {o : Outcome C}
    (h : s.handleRequestTxDataSuccess cfg msg = .ok o) :
    s.Declared msg (declarations o.messages) o.manager ∧ customJobs o.messages = [] := by
  have hp : ∀ m ∈ ({ s with
      templateStore    := s.templateStore.erase msg.templateId
      requestIdFactory := s.requestIdFactory + 1 }.allocateToken cfg).2, m.Plain := by
    simp [allocateToken, requestTokens, RouteMessageTo.Plain, RouteMessageTo.declaration,
      RouteMessageTo.customJob]
  simp only [handleRequestTxDataSuccess, bind_eq_ok, ofExcept_eq_ok] at h
  obtain ⟨outputs, ho, h⟩ := h
  split at h
  case h_1 =>
    cases pure_eq_ok.mp h
    rw [declarations_plain hp]
    exact ⟨.idle, customJobs_plain hp⟩
  case h_2 =>
    cases pure_eq_ok.mp h
    rw [declarations_plain hp]
    exact ⟨.idle, customJobs_plain hp⟩
  case h_3 token template ht hl =>
    simp only [declareTemplate, bind_eq_ok, expect_eq_ok] at h
    obtain ⟨paid, hpaid, txIds, hids, h⟩ := h
    split at h
    case h_1 =>
      cases pure_eq_ok.mp h
      rw [declarations_plain hp]
      exact ⟨.idle, customJobs_plain hp⟩
    case h_2 factory hf =>
      simp only [bind_eq_ok, Prod.exists] at h
      obtain ⟨factory', job, hj, h⟩ := h
      split at h
      case h_1 =>
        cases pure_eq_ok.mp h
        rw [declarations_plain hp]
        exact ⟨.failed, customJobs_plain hp⟩
      case h_2 job =>
        cases pure_eq_ok.mp h
        have hd : s.Declares msg template paid job factory' :=
          ⟨hl, ⟨outputs, ho, hpaid⟩, token, txIds, factory, ht, hids, hf, hj⟩
        simp only [declarations_append, declarations_plain hp, customJobs_append,
          customJobs_plain hp, List.nil_append, declarations_unless, customJobs_unless]
        exact ⟨.declared hd, trivial⟩

end RequestTxData

section Open

variable {msg : OpenExtendedMiningChannelSuccess} {o : Outcome C} {messages : List RouteMessageTo}
variable {requests : List PendingChannelRequest} {r : ChannelManager C × List RouteMessageTo}

-- The manager with its upstream channel, when an answer of the upstream opens one.
def established (cfg : Config) (msg : OpenExtendedMiningChannelSuccess) (s : ChannelManager C) :
    Option (ChannelManager C × List RouteMessageTo) := do
  let outputs ← (C.deserializeOutputs s.coinbaseOutputs).toOption
  let request ← s.pendingDownstreamRequests.head?
  let extranonces ← (newExtranonces (C := C) msg.extranoncePrefix.1
    (msg.extranoncePrefix.1.length + msg.extranonceSize.toNat)).toOption
  let r := s.openUpstreamChannel cfg msg extranonces request.hashrate outputs
  return ({ r.1 with pendingDownstreamRequests := [] }, r.2)

theorem firstCustomJob_customized :
    s.Customized (some upstream) outputs (s.firstCustomJob upstream outputs).2.toList
      (s.firstCustomJob upstream outputs).1 := by
  rw [firstCustomJob]
  split
  case h_2 => exact .idle
  case h_1 hf ht hl hp =>
    split
    case isTrue hm => exact .made rfl hf ht hl hp hm
    case isFalse   => exact .idle

theorem firstCustomJob_mode (h : (s.firstCustomJob upstream outputs).2 ≠ none) :
    s.jdMode = .coinbaseOnly := by
  rw [firstCustomJob] at h
  split at h
  case h_2 => exact absurd rfl h
  case h_1 =>
    split at h
    case isTrue hm => exact hm
    case isFalse   => exact absurd rfl h

theorem firstMessages_frame {job : Option SetCustomMiningJob} :
    ∃ requestId, (s.firstMessages cfg job).1 = { s with requestIdFactory := requestId } := by
  rw [firstMessages]
  split
  case h_1 => exact ⟨_, rfl⟩
  case h_2 => cases job <;> exact ⟨_, rfl⟩
  case h_3 => exact ⟨_, rfl⟩

theorem firstMessages_jobs {job : Option SetCustomMiningJob}
    (hj : job ≠ none → s.jdMode = .coinbaseOnly) :
    declarations (s.firstMessages cfg job).2 = [] ∧
      customJobs (s.firstMessages cfg job).2 = job.toList := by
  rw [firstMessages]
  split
  case h_1 hm =>
    have hj : job = none := by
      by_contra hn
      simp [hm] at hj
      exact hn hj
    simp [hj, declarations, customJobs, List.filterMap_map, RouteMessageTo.declaration,
      RouteMessageTo.customJob]
  case h_2 =>
    cases job <;> simp [allocateToken, requestTokens, declarations, customJobs,
      RouteMessageTo.declaration, RouteMessageTo.customJob]
  case h_3 hm =>
    have hj : job = none := by
      by_contra hn
      simp [hm] at hj
      exact hn hj
    simp [hj, declarations, customJobs]

theorem openUpstreamChannel_frame (extranonces : C.Extranonce) (hashrate : F32)
    (outputs : List TxOut) :
    ∃ requestId, (s.openUpstreamChannel cfg msg extranonces hashrate outputs).1 =
      { (s.firstCustomJob (s.newUpstreamChannel cfg msg hashrate) outputs).1 with
        extranoncePrefixFactoryExtended := extranonces
        extranoncePrefixFactoryStandard := extranonces
        upstreamChannel                 := some (s.newUpstreamChannel cfg msg hashrate)
        jobFactory                      := some <|
          C.jobFactory.new true s.poolTagString (some cfg.minerTagString)
        upstreamState                   := .connected
        requestIdFactory                := requestId } := by
  rw [openUpstreamChannel]
  exact firstMessages_frame

-- What a new upstream channel makes of the manager.
theorem established_eq_some (h : s.established cfg msg = some r) :
    ∃ outputs request extranonces upstream jobs s' requestId,
      C.deserializeOutputs s.coinbaseOutputs = .ok outputs ∧
      s.pendingDownstreamRequests.head? = some request ∧
      newExtranonces msg.extranoncePrefix.1
        (msg.extranoncePrefix.1.length + msg.extranonceSize.toNat) = .ok extranonces ∧
      upstream = s.newUpstreamChannel cfg msg request.hashrate ∧
      s.Customized (some upstream) outputs jobs s' ∧
      r.1 = { s' with
        extranoncePrefixFactoryExtended := extranonces
        extranoncePrefixFactoryStandard := extranonces
        upstreamChannel                 := some upstream
        jobFactory                      := some <|
          C.jobFactory.new true s.poolTagString (some cfg.minerTagString)
        upstreamState                   := .connected
        requestIdFactory                := requestId
        pendingDownstreamRequests       := [] } ∧
      declarations r.2 = [] ∧ customJobs r.2 = jobs := by
  simp only [established, Option.bind_eq_bind, Option.bind_eq_some_iff, toOption_eq_some,
    Option.pure_def, Option.some.injEq] at h
  obtain ⟨outputs, ho, request, hr, extranonces, hx, rfl⟩ := h
  have hc : s.Customized (some (s.newUpstreamChannel cfg msg request.hashrate)) outputs _ _ :=
    firstCustomJob_customized
  obtain ⟨_, _, _, he⟩ := hc.frame
  obtain ⟨requestId, hf⟩ := s.openUpstreamChannel_frame extranonces request.hashrate outputs
  refine ⟨outputs, request, extranonces, _, _, _, requestId, ho, hr, hx, rfl, hc, ?_, ?_⟩
  · rw [hf]
  · exact firstMessages_jobs fun hn =>
      (congrArg ChannelManager.jdMode he).trans (firstCustomJob_mode (s := s) hn)

theorem handleOpenExtendedMiningChannelSuccess_some (h : s.established cfg msg = some r) :
    s.handleOpenExtendedMiningChannelSuccess cfg msg =
      openPending cfg s.pendingDownstreamRequests r.1 r.2 := by
  simp only [established, Option.bind_eq_bind, Option.bind_eq_some_iff, toOption_eq_some,
    Option.pure_def, Option.some.injEq] at h
  obtain ⟨outputs, ho, request, hr, extranonces, hx, rfl⟩ := h
  rw [handleOpenExtendedMiningChannelSuccess, ho, hr, hx]
  rfl

-- An answer that opens no channel closes it again.
theorem handleOpenExtendedMiningChannelSuccess_none (hn : s.established cfg msg = none)
    (h : s.handleOpenExtendedMiningChannelSuccess cfg msg = .ok o) :
    o.manager = { s with
      upstreamState    := .noChannel
      requestIdFactory := s.requestIdFactory + 1 } ∧
    declarations o.messages = [] ∧ customJobs o.messages = [] ∧ o.error = none := by
  have closed (h : s.closeUpstreamChannel cfg msg = .ok o) : o.manager = { s with
      upstreamState    := .noChannel
      requestIdFactory := s.requestIdFactory + 1 } ∧
      declarations o.messages = [] ∧ customJobs o.messages = [] ∧ o.error = none := by
    cases pure_eq_ok.mp h
    exact ⟨rfl, rfl, rfl, rfl⟩
  simp only [handleOpenExtendedMiningChannelSuccess, bind_eq_ok, ofExcept_eq_ok] at h
  obtain ⟨outputs, ho, h⟩ := h
  split at h
  case h_1 => exact closed h
  case h_2 request hr =>
    split at h
    case h_1 => exact closed h
    case h_2 extranonces hx =>
      simp [established, ho, hr, hx, Except.toOption] at hn

-- The loop over the requests that have waited serves their downstreams.
theorem openPending_serves (h : openPending cfg requests s messages = .ok o) :
    o.manager.work = s.work ∧ o.manager.queue = s.queue ∧
      o.manager.upstreamChannel.isSome = s.upstreamChannel.isSome ∧
      (∀ d, d ∈ o.manager.downstream ↔ d ∈ s.downstream) ∧
      declarations o.messages = declarations messages ∧ customJobs o.messages = customJobs messages := by
  induction requests generalizing s messages with
  | nil =>
    cases h
    exact ⟨rfl, rfl, rfl, fun _ => Iff.rfl, rfl, rfl⟩
  | cons request requests ih =>
    rw [openPending] at h
    split at h
    case h_1 r hr =>
      have hs := handleMiningMessageFromClient_handled hr
      have hp : ∀ m ∈ r.messages, m.Plain := fun m hm => (hs.messages m hm).plain
      obtain ⟨hw, hq, hu, hd, hm, hj⟩ := ih h
      refine ⟨hw.trans hs.work, hq.trans hs.queue, hu.trans hs.upstream,
        fun d => (hd d).trans (hs.mem d), ?_, ?_⟩
      · simpa [declarations_plain hp] using hm
      · simpa [customJobs_plain hp] using hj
    case h_2 =>
      cases h
      exact ⟨rfl, rfl, rfl, fun _ => Iff.rfl, rfl, rfl⟩
    case h_3 => cases h

end Open

section Messages

variable {o : Outcome C}

theorem renewPrefix_adds {κ μ ω ε : Type} {S : ShareChannels κ μ ω ε} {d : DownstreamId}
    {next : C.Extranonce → κ → Except ExtendedExtranonceError Bytes × C.Extranonce}
    {channelId : ChannelId} {channel channel' : κ} {r r' : C.Extranonce × List RouteMessageTo}
    (h : renewPrefix S d next channelId channel r = .ok (channel', r')) : Adds r.2 r'.2 := by
  rw [renewPrefix] at h
  split at h
  case h_1 =>
    cases pure_eq_ok.mp h
    exact .refl _
  case h_2 =>
    split at h
    case h_1 =>
      cases pure_eq_ok.mp h
      exact .refl _
    case h_2 =>
      simp only [bind_eq_ok, pure_eq_ok] at h
      obtain ⟨_, _, h⟩ := h
      cases h
      exact .singleton

theorem renewDownstream_adds {d : DownstreamId} {D D' : Downstream C} {r r' : Renewal C}
    (h : renewDownstream d D r = .ok (D', r')) : Adds r.messages r'.messages := by
  simp only [renewDownstream, bind_eq_ok, pure_eq_ok, Prod.exists] at h
  obtain ⟨_, _, _, hs, _, _, _, he, h⟩ := h
  cases h
  have hs := forEach_adds (g := Prod.snd) (fun _ _ _ _ _ => renewPrefix_adds) hs
  exact hs.trans (forEach_adds (g := Prod.snd) (fun _ _ _ _ _ => renewPrefix_adds) he)

theorem handleSetExtranoncePrefix_frame {msg : SetExtranoncePrefix}
    (h : s.handleSetExtranoncePrefix msg = .ok o) :
    ∃ downstream upstreamChannel extended standard, o.manager = { s with
      downstream                      := downstream
      upstreamChannel                 := upstreamChannel
      extranoncePrefixFactoryExtended := extended
      extranoncePrefixFactoryStandard := standard } ∧ o.error = none ∧ ∀ m ∈ o.messages, m.Plain := by
  rw [handleSetExtranoncePrefix] at h
  split at h
  case h_1 =>
    cases pure_eq_ok.mp h
    exact ⟨_, _, _, _, rfl, rfl, by simp [finish, forward]⟩
  case h_2 =>
    obtain ⟨r, _, h⟩ := bind_eq_ok.mp h
    dsimp only at h
    split at h
    case isTrue  => cases h
    case isFalse =>
      simp only [bind_eq_ok, pure_eq_ok] at h
      obtain ⟨extranonces, _, r, hr, rfl⟩ := h
      refine ⟨_, _, _, _, rfl, rfl, fun m hm => ?_⟩
      exact (forEach_adds (fun _ _ _ _ _ => renewDownstream_adds) hr).plain m (mem_of_mem_forward hm)

-- The messages of the upstream that neither open its channel nor accept a job.
theorem handleMiningMessageFromServer_frame {m : Mining}
    (ho : ∀ msg, m ≠ .openExtendedMiningChannelSuccess msg)
    (hj : ∀ msg, m ≠ .setCustomMiningJobSuccess msg)
    (h : s.handleMiningMessageFromServer cfg m = .ok o) :
    ∃ downstream upstreamChannel extended standard, o.manager = { s with
      downstream                      := downstream
      upstreamChannel                 := upstreamChannel
      extranoncePrefixFactoryExtended := extended
      extranoncePrefixFactoryStandard := standard } ∧ o.error = none ∧ ∀ m ∈ o.messages, m.Plain := by
  rw [handleMiningMessageFromServer.eq_def] at h
  split at h
  case h_2 => exact absurd rfl (ho _)
  case h_6 => exact handleSetExtranoncePrefix_frame h
  case h_12 => exact absurd rfl (hj _)
  case h_15 => cases h
  all_goals
    cases pure_eq_ok.mp h
    exact ⟨_, _, _, _, rfl, rfl, by
      simp [RouteMessageTo.Plain, RouteMessageTo.declaration, RouteMessageTo.customJob]⟩

theorem handleSetCustomMiningJobSuccess_frame {msg : SetCustomMiningJobSuccess}
    (h : s.handleSetCustomMiningJobSuccess msg = .ok o) :
    (o.manager = s ∨ ∃ declared upstreamChannel,
      s.lastDeclareJobStore.lookup msg.requestId = some declared ∧ o.manager =
        { s.mapTemplate msg.requestId declared.template msg.jobId with
          upstreamChannel := upstreamChannel }) ∧ o.error = none ∧ o.messages = [] := by
  rw [handleSetCustomMiningJobSuccess] at h
  split at h
  case h_1 =>
    cases pure_eq_ok.mp h
    exact ⟨.inl rfl, rfl, rfl⟩
  case h_2 declared hl =>
    dsimp only at h
    split at h <;> cases pure_eq_ok.mp h <;> exact ⟨.inr ⟨declared, _, hl, rfl⟩, rfl, rfl⟩

theorem handleExtensionsMessageFromServer_frame {m : Extensions}
    (h : s.handleExtensionsMessageFromServer cfg m = .ok o) :
    ∃ extensions, o.manager = { s with negotiatedExtensions := extensions } ∧ o.error = none ∧
      ∀ m ∈ o.messages, m.Plain := by
  rw [handleExtensionsMessageFromServer.eq_def] at h
  split at h
  case h_1 =>
    rw [handleRequestExtensionsSuccess] at h
    split at h
    case isTrue =>
      cases pure_eq_ok.mp h
      exact ⟨_, rfl, rfl, by simp⟩
    case isFalse => cases h
  case h_2 =>
    simp only [handleRequestExtensionsError] at h
    split at h
    case isTrue  => cases h
    case isFalse =>
      split at h
      case isTrue =>
        cases pure_eq_ok.mp h
        exact ⟨_, rfl, rfl, by simp⟩
      case isFalse =>
        split at h
        case isTrue  => cases h
        case isFalse =>
          cases pure_eq_ok.mp h
          exact ⟨_, rfl, rfl, by
            simp [RouteMessageTo.Plain, RouteMessageTo.declaration, RouteMessageTo.customJob]⟩
  case h_3 => cases h

theorem runVardiffOnChannels_downstream {κ μ ω ε : Type} {S : ShareChannels κ μ ω ε}
    {d : DownstreamId} {channelId : ChannelId} {channels : Map ChannelId κ} {v : C.VardiffState} :
    ∀ m ∈ (runVardiffOnChannels d S channelId channels v).2.2, ∃ d' m', m = .downstream d' m' := by
  rw [runVardiffOnChannels]
  split
  case h_1 => simp
  case h_2 =>
    dsimp only
    rw [runVardiffOnChannel]
    split
    case h_1 => split <;> simp [setTarget]
    case h_2 => simp
    case h_3 => simp

theorem vardiffRound_adds {key : VardiffKey} {v v' : C.VardiffState}
    {r r' : Map DownstreamId (Downstream C) × List RouteMessageTo}
    (h : vardiffRound key v r = .ok (v', r')) : Adds r.2 r'.2 := by
  rw [vardiffRound] at h
  split at h
  case h_1 =>
    cases pure_eq_ok.mp h
    exact .refl _
  case h_2 =>
    cases pure_eq_ok.mp h
    refine ⟨_, List.append_assoc _ _ _, List.forall_mem_append.mpr ⟨?_, ?_⟩⟩
    · exact runVardiffOnChannels_downstream
    · exact runVardiffOnChannels_downstream

theorem runVardiff_frame (h : s.runVardiff = .ok o) :
    ∃ vardiff downstream, o.manager = { s with
      vardiff    := vardiff
      downstream := downstream } ∧ o.error = none ∧ ∀ m ∈ o.messages, m.Plain := by
  simp only [runVardiff, bind_eq_ok, Prod.exists] at h
  obtain ⟨vardiff, downstream, messages, hv, h⟩ := h
  have hp := (forEach_adds (g := Prod.snd) (fun _ _ _ _ _ => vardiffRound_adds) hv).plain
  split at h
  case isTrue =>
    cases pure_eq_ok.mp h
    exact ⟨_, _, rfl, rfl, by simp [finish, forward]⟩
  case isFalse =>
    cases pure_eq_ok.mp h
    refine ⟨_, _, rfl, rfl, fun m hm => ?_⟩
    obtain hm | hm := List.mem_append.mp (mem_of_mem_forward hm)
    · exact hp m hm
    · exact (updateUpstream_serves (d := 0) m hm).plain

theorem handleAllocateMiningJobTokenSuccess_frame {msg : AllocateMiningJobTokenSuccess}
    (h : s.handleAllocateMiningJobTokenSuccess msg = .ok o) :
    o.manager = { s with
      coinbaseOutputs := msg.coinbaseOutputs
      allocateTokens  := some msg } ∧ o.error = none ∧ ∀ m ∈ o.messages, m.Plain := by
  simp only [handleAllocateMiningJobTokenSuccess] at h
  split at h
  case isTrue =>
    simp only [bind_eq_ok, pure_eq_ok] at h
    obtain ⟨_, _, rfl⟩ := h
    exact ⟨rfl, rfl, by simp [RouteMessageTo.Plain, RouteMessageTo.declaration,
      RouteMessageTo.customJob, coinbaseOutputConstraints]⟩
  case isFalse =>
    cases pure_eq_ok.mp h
    exact ⟨rfl, rfl, by simp⟩

theorem handleProvideMissingTransactions_frame {msg : ProvideMissingTransactions}
    (h : s.handleProvideMissingTransactions msg = .ok o) :
    o.manager = s ∧ o.error = none ∧ ∀ m ∈ o.messages, m.Plain := by
  simp only [handleProvideMissingTransactions, bind_eq_ok, pure_eq_ok] at h
  obtain ⟨_, _, _, _, rfl⟩ := h
  exact ⟨rfl, rfl, by
    simp [RouteMessageTo.Plain, RouteMessageTo.declaration, RouteMessageTo.customJob]⟩

-- The custom job of a declaration that the server has accepted.
structure Customs (s : ChannelManager C) (msg : DeclareMiningJobSuccess) (declared : DeclaredJob)
    (r : Except JobFactoryError SetCustomMiningJob × C.JobFactory) : Prop where
  stored : s.lastDeclareJobStore.lookup msg.requestId = some declared
  made   : ∃ prevHash outputs factory upstream, declared.prevHash = some prevHash ∧
    C.deserializeOutputs declared.coinbaseOutput = .ok outputs ∧ s.jobFactory = some factory ∧
    s.upstreamChannel = some upstream ∧
    r = customJobOf declared prevHash outputs msg factory upstream

theorem handleDeclareMiningJobSuccess_frame {msg : DeclareMiningJobSuccess}
    (h : s.handleDeclareMiningJobSuccess msg = .ok o) :
    ∃ declared r, s.Customs msg declared r ∧ declarations o.messages = [] ∧
      ((∃ e, r.1 = .error e ∧ customJobs o.messages = [] ∧
        o.manager = { s with jobFactory := some r.2 }) ∨
      ∃ job, r.1 = .ok job ∧ customJobs o.messages = [job] ∧ o.manager = { s with
        jobFactory          := some r.2
        lastDeclareJobStore := s.lastDeclareJobStore.modify msg.requestId
          ({ · with setCustomMiningJob := some job }) }) := by
  simp only [handleDeclareMiningJobSuccess, bind_eq_ok, orErr_eq_ok, ofExcept_eq_ok] at h
  obtain ⟨declared, hl, prevHash, hp, outputs, ho, factory, hf, upstream, hu, h⟩ := h
  refine ⟨declared, _, ⟨hl, prevHash, outputs, factory, upstream, hp, ho, hf, hu, rfl⟩, ?_⟩
  split at h
  case h_1 e hr =>
    cases pure_eq_ok.mp h
    exact ⟨rfl, .inl ⟨e, hr, rfl, rfl⟩⟩
  case h_2 job hr =>
    cases pure_eq_ok.mp h
    exact ⟨rfl, .inr ⟨job, hr, rfl, rfl⟩⟩

theorem handleJobDeclarationMessageFromServer_frame {m : JobDeclaration}
    (h : s.handleJobDeclarationMessageFromServer m = .ok o) :
    ∃ outputs token factory declared, o.manager = { s with
      coinbaseOutputs     := outputs
      allocateTokens      := token
      jobFactory          := factory
      lastDeclareJobStore := declared } := by
  rw [handleJobDeclarationMessageFromServer.eq_def] at h
  split at h
  case h_1 => exact ⟨_, _, _, _, (handleAllocateMiningJobTokenSuccess_frame h).left⟩
  case h_2 =>
    cases pure_eq_ok.mp h
    exact ⟨_, _, _, _, rfl⟩
  case h_3 =>
    obtain ⟨_, _, _, _, hm⟩ := handleDeclareMiningJobSuccess_frame h
    obtain ⟨_, _, _, hm⟩ | ⟨_, _, _, hm⟩ := hm <;> exact ⟨_, _, _, _, hm⟩
  case h_4 => exact ⟨_, _, _, _, (handleProvideMissingTransactions_frame h).left⟩
  case h_5 => cases h

end Messages

end ChannelManager

end Jdc
