import StratumApps.JobDeclaratorClient.Updates

open Sv2 Handler StratumCore

namespace Jdc

variable {C : StratumCore} {cfg : Config}

namespace System

variable {s s' : System C} {a : Action}

-- The handler of an action that is a message.
def handle (cfg : Config) (s : ChannelManager C) : Action → Option (Result C)
  | .downstreamMessage d m => some (s.handleDownstreamMessage cfg d m)
  | .poolMessage m         => some (s.handleMiningMessageFromServer cfg m)
  | .extensionsMessage m   => some (s.handleExtensionsMessageFromServer cfg m)
  | .jdsMessage m          => some (s.handleJobDeclarationMessageFromServer m)
  | .templateMessage m     => some (s.handleTemplateDistributionMessageFromServer cfg m)
  | .vardiff               => some s.runVardiff
  | _                      => none

-- What an action makes of the manager, and the messages that it sends.
inductive Acts (cfg : Config) (s : ChannelManager C) :
    Action → ChannelManager C → List RouteMessageTo → Prop
  | connect : Acts cfg s .connect s.connect []
  | setup {d : DownstreamId} {requireStdJob : Bool} :
    Acts cfg s (.setupConnection d requireStdJob) { s with
      downstream := s.downstream.modify d fun downstream => { downstream with
        requireStdJob := downstream.requireStdJob || requireStdJob } } []
  | negotiate {d : DownstreamId} {extensions : List UInt16} :
    Acts cfg s (.negotiate d extensions) { s with
      downstream := s.downstream.modify d ({ · with negotiatedExtensions := extensions }) } []
  | handled {a : Action} {o : Outcome C} :
    handle cfg s a = some (.ok o) → Acts cfg s a o.manager o.messages
  | fails {a : Action} {fault : Fault JDCError} :
    handle cfg s a = some (.error fault) → Acts cfg s a s []
  | shutdown {d : DownstreamId} : Acts cfg s (.downstreamShutdown d) (s.removeDownstream d) []
  | fallback {coinbaseOutputs : Bytes} {s' : ChannelManager C} :
    { s with upstreamState := .soloMining }.reset coinbaseOutputs = .ok s' →
    Acts cfg s (.fallback coinbaseOutputs) s' []
  | stuck {coinbaseOutputs : Bytes} : Acts cfg s (.fallback coinbaseOutputs) s []
  | state {state : UpstreamState} :
    Acts cfg s (.setUpstreamState state) { s with upstreamState := state } []
  | mode {mode : JdMode} : Acts cfg s (.setJdMode mode) { s with jdMode := mode } []
  | token : Acts cfg s .allocateTokens (s.allocateToken cfg).1 (s.allocateToken cfg).2

theorem deliver_cases {r : Result C} :
    (∃ o, r = .ok o ∧ (s.deliver r).manager = o.manager ∧ (s.deliver r).sent = s.sent ++ o.messages) ∨
      ∃ fault, r = .error fault ∧ (s.deliver r).manager = s.manager ∧ (s.deliver r).sent = s.sent := by
  cases r with
  | ok o =>
    refine .inl ⟨o, rfl, ?_⟩
    rw [deliver]
    split
    case h_1 => exact ⟨rfl, rfl⟩
    case h_2 => split <;> exact ⟨rfl, rfl⟩
  | error fault =>
    refine .inr ⟨fault, rfl, ?_⟩
    cases fault with
    | err e =>
      rw [deliver]
      split <;> exact ⟨rfl, rfl⟩
    | panicked => exact ⟨rfl, rfl⟩

theorem acts_of_step (h : s.step cfg a = some s') :
    ∃ messages, Acts cfg s.manager a s'.manager messages ∧ s'.sent = s.sent ++ messages := by
  rw [step] at h
  split at h
  case h_2 => cases h
  case h_1 =>
    cases h
    have handled {r : Result C} (hr : handle cfg s.manager a = some r) :
        ∃ messages, Acts cfg s.manager a (s.deliver r).manager messages ∧
          (s.deliver r).sent = s.sent ++ messages := by
      obtain ⟨o, rfl, hm, hs⟩ | ⟨fault, rfl, hm, hs⟩ := deliver_cases (s := s) (r := r)
      · exact ⟨o.messages, by rw [hm]; exact .handled hr, hs⟩
      · exact ⟨[], by rw [hm]; exact .fails hr, by simp [hs]⟩
    cases a with
    | connect            => exact ⟨[], .connect, by simp [act]⟩
    | setupConnection    => exact ⟨[], .setup, by simp [act, setDownstream]⟩
    | negotiate          => exact ⟨[], .negotiate, by simp [act, setDownstream]⟩
    | downstreamMessage  => exact handled rfl
    | poolMessage        => exact handled rfl
    | extensionsMessage  => exact handled rfl
    | jdsMessage         => exact handled rfl
    | templateMessage    => exact handled rfl
    | vardiff            => exact handled rfl
    | downstreamShutdown => exact ⟨[], .shutdown, by simp [act]⟩
    | fallback outputs   =>
      rw [act]
      cases hr : { s.manager with upstreamState := .soloMining }.reset outputs with
      | ok manager  => exact ⟨[], .fallback hr, by simp [deliver, Except.map]⟩
      | error fault =>
        obtain ⟨_, he, _⟩ | ⟨_, _, hm, hs⟩ := deliver_cases (s := s) (r := .error fault)
        · cases he
        · exact ⟨[], by rw [Except.map, hm]; exact .stuck, by rw [Except.map, hs, List.append_nil]⟩
    | setUpstreamState   => exact ⟨[], .state, by simp [act]⟩
    | setJdMode          => exact ⟨[], .mode, by simp [act]⟩
    | allocateTokens     => exact ⟨_, .token, rfl⟩

-- What an action makes of the work, with the declarations and the custom jobs that it sends. An
-- action that is not named leaves the templates, the token and the declarations alone.
inductive Works (cfg : Config) (s : ChannelManager C) :
    Action → ChannelManager C → List DeclareMiningJob → List SetCustomMiningJob → Prop
  | kept {a : Action} {s' : ChannelManager C} {requestId : RequestId} {extensions : List UInt16} :
    s'.work = { s.work with
      requestIdFactory     := requestId
      negotiatedExtensions := extensions } →
    Works cfg s a s' [] []
  | mode {mode : JdMode} : Works cfg s (.setJdMode mode) { s with jdMode := mode } [] []
  | reset {coinbaseOutputs : Bytes} {s' : ChannelManager C} :
    s'.work = { s.work with
      requestIdFactory          := 0
      allocateTokens            := none
      templateStore             := ∅
      lastDeclareJobStore       := ∅
      templateIdToUpstreamJobId := ∅
      coinbaseOutputs           := coinbaseOutputs
      poolTagString             := none } →
    Works cfg s (.fallback coinbaseOutputs) s' [] []
  | allocated {m : AllocateMiningJobTokenSuccess} :
    Works cfg s (.jdsMessage (.allocateMiningJobTokenSuccess m))
      { s with coinbaseOutputs := m.coinbaseOutputs, allocateTokens := some m } [] []
  | accepted {m : SetCustomMiningJobSuccess} {s' : ChannelManager C} {declared : DeclaredJob} :
    s.lastDeclareJobStore.lookup m.requestId = some declared →
    s'.work = (s.mapTemplate m.requestId declared.template m.jobId).work →
    Works cfg s (.poolMessage (.setCustomMiningJobSuccess m)) s' [] []
  | refused {m : DeclareMiningJobSuccess} {declared : DeclaredJob}
    {r : Except JobFactoryError SetCustomMiningJob × C.JobFactory} {e : JobFactoryError} :
    s.Customs m declared r → r.1 = .error e →
    Works cfg s (.jdsMessage (.declareMiningJobSuccess m)) { s with jobFactory := some r.2 } [] []
  | custom {m : DeclareMiningJobSuccess} {declared : DeclaredJob}
    {r : Except JobFactoryError SetCustomMiningJob × C.JobFactory} {job : SetCustomMiningJob} :
    s.Customs m declared r → r.1 = .ok job →
    Works cfg s (.jdsMessage (.declareMiningJobSuccess m)) { s with
      jobFactory          := some r.2
      lastDeclareJobStore := s.lastDeclareJobStore.modify m.requestId
        ({ · with setCustomMiningJob := some job }) } [] [job]
  | template {m : NewTemplate} {outputs paid : List TxOut} {jobs : List SetCustomMiningJob}
    {s₁ s' : ChannelManager C} {requestId : RequestId} :
    C.deserializeOutputs s.coinbaseOutputs = .ok outputs →
    payRemaining m.coinbaseTxValueRemaining outputs = some paid →
    (s.storeTemplate m).Templated m paid jobs s₁ →
    s'.work = { s₁.work with requestIdFactory := requestId } →
    Works cfg s (.templateMessage (.newTemplate m)) s' [] jobs
  | tip {m : SetNewPrevHash} {outputs : List TxOut} {jobs : List SetCustomMiningJob}
    {s₁ s' : ChannelManager C} {requestId : RequestId} :
    C.deserializeOutputs s.coinbaseOutputs = .ok outputs →
    (s.tipped m).Customized (s.tipped m).upstreamChannel outputs jobs s₁ →
    s'.work = { s₁.work with requestIdFactory := requestId } →
    Works cfg s (.templateMessage (.setNewPrevHash m)) s' (declarations s.declarePending) jobs
  | declared {m : RequestTransactionDataSuccess} {jobs : List DeclareMiningJob}
    {s' : ChannelManager C} :
    s.Declared m jobs s' → Works cfg s (.templateMessage (.requestTransactionDataSuccess m)) s' jobs []
  | opened {m : OpenExtendedMiningChannelSuccess} {upstream : C.Upstream} {outputs : List TxOut}
    {jobs : List SetCustomMiningJob} {s₁ s' : ChannelManager C} {requestId : RequestId} :
    (s.established cfg m).isSome →
    C.deserializeOutputs s.coinbaseOutputs = .ok outputs →
    s.Customized (some upstream) outputs jobs s₁ →
    s'.work = { s₁.work with
      requestIdFactory := requestId
      jobFactory       := some <|
        C.jobFactory.new true s.poolTagString (some cfg.minerTagString) } →
    Works cfg s (.poolMessage (.openExtendedMiningChannelSuccess m)) s' [] jobs

section Works

variable {s s' : ChannelManager C} {a : Action} {o : Outcome C} {messages : List RouteMessageTo}

theorem Works.of_plain {requestId : RequestId} {extensions : List UInt16}
    (hw : s'.work = { s.work with
      requestIdFactory     := requestId
      negotiatedExtensions := extensions })
    (hp : ∀ m ∈ messages, m.Plain) :
    Works cfg s a s' (declarations messages) (customJobs messages) := by
  rw [declarations_plain hp, customJobs_plain hp]
  exact .kept hw

theorem works_poolMessage {m : Mining} (h : s.handleMiningMessageFromServer cfg m = .ok o) :
    Works cfg s (.poolMessage m) o.manager (declarations o.messages) (customJobs o.messages) := by
  by_cases ho : ∃ msg, m = .openExtendedMiningChannelSuccess msg
  case pos =>
    obtain ⟨msg, rfl⟩ := ho
    have h : s.handleOpenExtendedMiningChannelSuccess cfg msg = .ok o := h
    cases he : s.established cfg msg with
    | some r =>
      have hh := ChannelManager.handleOpenExtendedMiningChannelSuccess_some he
      obtain ⟨hw, _, _, _, hd, hj⟩ := ChannelManager.openPending_serves (hh.symm.trans h)
      obtain ⟨outputs, _, _, upstream, jobs, s₁, requestId, hout, _, _, _, hc, hr, hd', hj'⟩ :=
        ChannelManager.established_eq_some he
      rw [hd, hd', hj, hj']
      rw [hr] at hw
      exact .opened (by simp [he]) hout hc hw
    | none =>
      obtain ⟨hm, hd, hj, _⟩ := ChannelManager.handleOpenExtendedMiningChannelSuccess_none he h
      rw [hm, hd, hj]
      exact .kept rfl
  case neg =>
    by_cases hj : ∃ msg, m = .setCustomMiningJobSuccess msg
    case pos =>
      obtain ⟨msg, rfl⟩ := hj
      obtain ⟨hm, _, hmsg⟩ := ChannelManager.handleSetCustomMiningJobSuccess_frame h
      rw [hmsg]
      obtain hm | ⟨declared, _, hl, hm⟩ := hm
      · rw [hm]
        exact .kept rfl
      · rw [hm]
        exact .accepted hl rfl
    case neg =>
      obtain ⟨_, _, _, _, hm, _, hp⟩ := ChannelManager.handleMiningMessageFromServer_frame
        (fun msg h => ho ⟨msg, h⟩) (fun msg h => hj ⟨msg, h⟩) h
      rw [hm]
      exact .of_plain rfl hp

theorem works_jdsMessage {m : JobDeclaration}
    (h : s.handleJobDeclarationMessageFromServer m = .ok o) :
    Works cfg s (.jdsMessage m) o.manager (declarations o.messages) (customJobs o.messages) := by
  rw [ChannelManager.handleJobDeclarationMessageFromServer.eq_def] at h
  split at h
  case h_1 =>
    obtain ⟨hm, _, hp⟩ := ChannelManager.handleAllocateMiningJobTokenSuccess_frame h
    rw [hm, declarations_plain hp, customJobs_plain hp]
    exact .allocated
  case h_2 =>
    cases pure_eq_ok.mp h
    exact .kept rfl
  case h_3 =>
    obtain ⟨declared, r, hc, hd, ⟨e, he, hj, hm⟩ | ⟨job, he, hj, hm⟩⟩ :=
      ChannelManager.handleDeclareMiningJobSuccess_frame h
    · rw [hd, hj, hm]
      exact .refused hc he
    · rw [hd, hj, hm]
      exact .custom hc he
  case h_4 =>
    obtain ⟨hm, _, hp⟩ := ChannelManager.handleProvideMissingTransactions_frame h
    rw [hm]
    exact .of_plain rfl hp
  case h_5 => cases h

theorem works_templateMessage {m : TemplateDistribution}
    (h : s.handleTemplateDistributionMessageFromServer cfg m = .ok o) :
    Works cfg s (.templateMessage m) o.manager (declarations o.messages) (customJobs o.messages) := by
  rw [ChannelManager.handleTemplateDistributionMessageFromServer.eq_def] at h
  split at h
  case h_1 =>
    obtain ⟨_, _, _, _, _, ho, hp, ht, hm, _, hd, hj⟩ := ChannelManager.handleNewTemplate_eq_ok h
    obtain ⟨requestId, hr⟩ := ChannelManager.renewToken_frame
    rw [hd, hj, hm, hr]
    exact .template ho hp ht rfl
  case h_2 =>
    obtain ⟨_, _, _, _, ho, hc, hm, _, hd, hj⟩ := ChannelManager.handleSetNewPrevHash_eq_ok h
    obtain ⟨requestId, hr⟩ := ChannelManager.renewToken_frame
    rw [hd, hj, hm, hr]
    exact .tip ho hc rfl
  case h_3 =>
    rw [ChannelManager.handleRequestTxDataError] at h
    split at h
    case isTrue =>
      cases pure_eq_ok.mp h
      exact .kept rfl
    case isFalse => cases h
  case h_4 =>
    obtain ⟨hd, hj⟩ := ChannelManager.handleRequestTxDataSuccess_declared h
    rw [hj]
    exact .declared hd
  case h_5 => cases h

theorem reset_work {coinbaseOutputs : Bytes} (h : s.reset coinbaseOutputs = .ok s') :
    s'.work = { s.work with
      requestIdFactory          := 0
      allocateTokens            := none
      templateStore             := ∅
      lastDeclareJobStore       := ∅
      templateIdToUpstreamJobId := ∅
      coinbaseOutputs           := coinbaseOutputs
      poolTagString             := none } := by
  simp only [ChannelManager.reset, bind_eq_ok, pure_eq_ok] at h
  obtain ⟨_, _, rfl⟩ := h
  rfl

theorem works_of_acts (h : Acts cfg s a s' messages) :
    Works cfg s a s' (declarations messages) (customJobs messages) := by
  cases h with
  | connect   => exact .kept rfl
  | setup     => exact .kept rfl
  | negotiate => exact .kept rfl
  | shutdown  => exact .kept rfl
  | stuck     => exact .kept rfl
  | fails     => exact .kept rfl
  | state     => exact .kept rfl
  | token     => exact .kept rfl
  | mode      => exact .mode
  | fallback h => exact .reset ((reset_work h).trans rfl)
  | @handled a o h =>
    cases a with
    | downstreamMessage d m =>
      have hs := ChannelManager.handleDownstreamMessage_serves (Option.some.inj h)
      exact .of_plain hs.work fun m hm => (hs.messages m hm).plain
    | poolMessage m       => exact works_poolMessage (Option.some.inj h)
    | extensionsMessage m =>
      obtain ⟨_, hm, _, hp⟩ :=
        ChannelManager.handleExtensionsMessageFromServer_frame (Option.some.inj h)
      rw [hm]
      exact .of_plain rfl hp
    | jdsMessage m        => exact works_jdsMessage (Option.some.inj h)
    | templateMessage m   => exact works_templateMessage (Option.some.inj h)
    | vardiff             =>
      obtain ⟨_, _, hm, _, hp⟩ := ChannelManager.runVardiff_frame (Option.some.inj h)
      rw [hm]
      exact .of_plain rfl hp
    | _ => cases h

end Works

end System

end Jdc
