import StratumApps.JobDeclaratorClient.CustomJobs

open Sv2 Handler StratumCore

namespace Jdc

variable {C : StratumCore} {cfg : Config}

-- A factory that has been made with a tag of the pool. It keeps the tag whatever it makes.
inductive Tagged (C : StratumCore) (cfg : Config) (tag : Option String) : C.JobFactory → Prop
  | new : Tagged C cfg tag (C.jobFactory.new true tag (some cfg.minerTagString))
  | coinbase {f : C.JobFactory} {t : NewTemplate} {outputs : List TxOut} {size : ℕ} :
    Tagged C cfg tag f → Tagged C cfg tag (C.jobFactory.newCoinbaseTxPrefixAndSuffix f t outputs size).2
  | custom {f : C.JobFactory} {c : ChannelId} {r : RequestId} {token : Bytes} {tip : ChainTip}
    {t : NewTemplate} {outputs : List TxOut} {size : ℕ} :
    Tagged C cfg tag f → Tagged C cfg tag (C.jobFactory.newCustomJob f c r token tip t outputs size).2

-- What the crate does with the outputs of a custom job: they have to add up to what the template leaves
-- for them, and then the job is made if its parts fit the fields of its message. What the factory has
-- made before makes no difference to that.
def Balances (C : StratumCore) (cfg : Config)
    (Fits : Option String → Bytes → NewTemplate → List TxOut → ℕ → Prop) : Prop :=
  ∀ tag f c r token tip t outputs size, Tagged C cfg tag f →
    ((C.jobFactory.newCustomJob f c r token tip t outputs size).1.isOk ↔
      (outputs.map (·.value)).sum = t.coinbaseTxValueRemaining ∧ Fits tag token t outputs size)

namespace ChannelManager

variable {s s' : ChannelManager C} {upstream : C.Upstream} {token : Bytes}
variable {prevHash : SetNewPrevHash} {template : NewTemplate} {outputs : List TxOut}
variable {jobs : List SetCustomMiningJob} {o : Outcome C}

-- No tag of a pool has been taken over, and the stored factory is made with that.
structure Tags (cfg : Config) (s : ChannelManager C) : Prop where
  poolTagString : s.poolTagString = none
  jobFactory    : ∀ factory, s.jobFactory = some factory → Tagged C cfg s.poolTagString factory

theorem Tags.congr (h : s.Tags cfg) (hp : s'.poolTagString = s.poolTagString)
    (hf : s'.jobFactory = s.jobFactory) : s'.Tags cfg := by
  refine ⟨hp.trans h.poolTagString, ?_⟩
  rw [hp, hf]
  exact h.jobFactory

theorem Tags.makes {factory : C.JobFactory} (h : s.Tags cfg)
    (hp : s'.poolTagString = s.poolTagString) (ht : Tagged C cfg s.poolTagString factory)
    (hf : s'.jobFactory = some factory) : s'.Tags cfg := by
  refine ⟨hp.trans h.poolTagString, fun f he => ?_⟩
  rw [hf, Option.some_inj] at he
  exact he ▸ hp ▸ ht

theorem makeCustomJob_jobFactory {factory : C.JobFactory} :
    (s.makeCustomJob factory upstream token prevHash template outputs).1.jobFactory =
      some (C.jobFactory.newCustomJob factory (C.upstream.getChannelId upstream) s.requestIdFactory
        token (chainTip prevHash) template outputs (C.upstream.getFullExtranonceSize upstream)).2 := by
  simp only [makeCustomJob]
  split <;> rfl

theorem Tags.makeCustomJob {factory : C.JobFactory} (h : s.Tags cfg)
    (hf : s.jobFactory = some factory) :
    (s.makeCustomJob factory upstream token prevHash template outputs).1.Tags cfg := by
  refine h.makes ?_ (h.jobFactory factory hf).custom makeCustomJob_jobFactory
  have he : ∃ factory' store, (s.makeCustomJob factory upstream token prevHash template outputs).1 =
      { s with
        requestIdFactory    := s.requestIdFactory + 1
        jobFactory          := some factory'
        lastDeclareJobStore := store } := makeCustomJob_frame
  obtain ⟨_, _, he⟩ := he
  rw [he]

theorem Tags.customizes (ht : s.Tags cfg) {n : ℕ}
    (h : Customizes upstream token prevHash template outputs s n jobs s') : s'.Tags cfg := by
  induction h with
  | nil            => exact ht
  | custom _ hf ih => exact ih.makeCustomJob hf
  | register _ ih  => exact ih.congr rfl rfl

theorem Tags.customized (ht : s.Tags cfg) {upstreamChannel : Option C.Upstream}
    (h : Customized s upstreamChannel outputs jobs s') : s'.Tags cfg := by
  cases h with
  | made _ hf => exact ht.makeCustomJob hf
  | idle      => exact ht

theorem Tags.templated (ht : s.Tags cfg) (h : s.Templated template outputs jobs s') :
    s'.Tags cfg := by
  obtain ⟨_, _, _, _, hc⟩ | ⟨_, _, _, rfl⟩ := h
  · exact ht.customizes hc
  · exact ht.congr rfl rfl

theorem declareJob_tagged {msg : RequestTransactionDataSuccess} {requestId : RequestId}
    {ids : Seq064K U256} {factory factory' : C.JobFactory} {job : Option DeclareMiningJob}
    {tag : Option String} (ht : Tagged C cfg tag factory)
    (h : s.declareJob msg requestId token template outputs ids factory = .ok (factory', job)) :
    Tagged C cfg tag factory' := by
  rw [declareJob] at h
  have hn : Tagged C cfg tag (C.jobFactory.newCoinbaseTxPrefixAndSuffix factory template outputs
    (s.upstreamChannel.elim 32 C.upstream.getFullExtranonceSize)).2 := ht.coinbase
  split at h
  case h_1 he =>
    rw [he] at hn
    cases pure_eq_ok.mp h
    exact hn
  case h_2 he =>
    rw [he] at hn
    simp only [bind_eq_ok, pure_eq_ok, Prod.mk.injEq] at h
    obtain ⟨_, _, _, _, _, _, rfl, _⟩ := h
    exact hn

theorem Tags.handleRequestTxDataSuccess (ht : s.Tags cfg) {msg : RequestTransactionDataSuccess}
    (h : s.handleRequestTxDataSuccess cfg msg = .ok o) : o.manager.Tags cfg := by
  simp only [ChannelManager.handleRequestTxDataSuccess, bind_eq_ok] at h
  obtain ⟨_, _, h⟩ := h
  split at h
  case h_1 =>
    cases pure_eq_ok.mp h
    exact ht.congr rfl rfl
  case h_2 =>
    cases pure_eq_ok.mp h
    exact ht.congr rfl rfl
  case h_3 =>
    simp only [declareTemplate, bind_eq_ok] at h
    obtain ⟨_, _, _, _, h⟩ := h
    split at h
    case h_1 =>
      cases pure_eq_ok.mp h
      exact ht.congr rfl rfl
    case h_2 factory hf =>
      simp only [bind_eq_ok, Prod.exists] at h
      obtain ⟨factory', _, hj, h⟩ := h
      have hn : Tagged C cfg s.poolTagString factory' :=
        declareJob_tagged (ht.jobFactory factory hf) hj
      split at h <;> cases pure_eq_ok.mp h <;> exact ht.makes rfl hn rfl

section Open

variable {msg : OpenExtendedMiningChannelSuccess} {request : PendingChannelRequest}
variable {extranonces : C.Extranonce} {allocated : AllocateMiningJobTokenSuccess}

-- The custom jobs that a new upstream channel starts with.
def sentCustomJobs (cfg : Config) (msg : OpenExtendedMiningChannelSuccess) (s : ChannelManager C) :
    List SetCustomMiningJob :=
  (s.established cfg msg).elim [] fun r => customJobs r.2

-- They are all that the handler asks the upstream for: the requests that have waited add none.
theorem handleOpenExtendedMiningChannelSuccess_customJobs
    (h : s.handleOpenExtendedMiningChannelSuccess cfg msg = .ok o) :
    customJobs o.messages = s.sentCustomJobs cfg msg := by
  rw [sentCustomJobs]
  cases he : s.established cfg msg with
  | none   => exact (handleOpenExtendedMiningChannelSuccess_none he h).right.right.left
  | some r =>
    have hp : openPending cfg s.pendingDownstreamRequests r.1 r.2 = .ok o :=
      (handleOpenExtendedMiningChannelSuccess_some he).symm.trans h
    exact (openPending_serves hp).right.right.right.right.right

theorem sentCustomJobs_eq (ho : C.deserializeOutputs s.coinbaseOutputs = .ok outputs)
    (hr : s.pendingDownstreamRequests.head? = some request)
    (hx : newExtranonces msg.extranoncePrefix.1
      (msg.extranoncePrefix.1.length + msg.extranonceSize.toNat) = .ok extranonces) :
    s.sentCustomJobs cfg msg =
      (s.firstCustomJob (s.newUpstreamChannel cfg msg request.hashrate) outputs).2.toList := by
  have hc : s.Customized (some (s.newUpstreamChannel cfg msg request.hashrate)) outputs _ _ :=
    firstCustomJob_customized
  obtain ⟨_, _, _, he⟩ := hc.frame
  have hs : s.established cfg msg = some
      ({ (s.openUpstreamChannel cfg msg extranonces request.hashrate outputs).1 with
        pendingDownstreamRequests := [] },
      (s.openUpstreamChannel cfg msg extranonces request.hashrate outputs).2) := by
    rw [established, ho, hr, hx]
    rfl
  rw [sentCustomJobs, hs]
  refine (firstMessages_jobs fun hn => ?_).right
  exact (congrArg ChannelManager.jdMode he).trans (firstCustomJob_mode (s := s) hn)

theorem makeCustomJob_job {factory : C.JobFactory} {job : SetCustomMiningJob} :
    (s.makeCustomJob factory upstream token prevHash template outputs).2 = some job ↔
      (C.jobFactory.newCustomJob factory (C.upstream.getChannelId upstream) s.requestIdFactory
        token (chainTip prevHash) template outputs (C.upstream.getFullExtranonceSize upstream)).1 =
          .ok job := by
  simp only [makeCustomJob]
  split
  case h_1 h => simp [h]
  case h_2 h => simp [h]

-- One custom job of a template is sent for the new channel, made with a factory that carries the tag
-- of the pool.
def StartsOn (cfg : Config) (msg : OpenExtendedMiningChannelSuccess) (s : ChannelManager C)
    (token : Bytes) (template : NewTemplate) (prevHash : SetNewPrevHash) : Prop :=
  ∃ job factory request outputs, s.sentCustomJobs cfg msg = [job] ∧
    (∀ o, s.handleOpenExtendedMiningChannelSuccess cfg msg = .ok o → customJobs o.messages = [job]) ∧
    Tagged C cfg s.poolTagString factory ∧ C.deserializeOutputs s.coinbaseOutputs = .ok outputs ∧
    s.pendingDownstreamRequests.head? = some request ∧
    (C.jobFactory.newCustomJob factory
      (C.upstream.getChannelId (s.newUpstreamChannel cfg msg request.hashrate)) s.requestIdFactory
      token (chainTip prevHash) template outputs
      (C.upstream.getFullExtranonceSize (s.newUpstreamChannel cfg msg request.hashrate))).1 = .ok job

-- The condition for that asks for a factory of an earlier upstream channel, and for outputs that are
-- stored with the value of the template, which nothing here gives them.
structure StartsFirst (cfg : Config)
    (Fits : Option String → Bytes → NewTemplate → List TxOut → ℕ → Prop)
    (msg : OpenExtendedMiningChannelSuccess) (s : ChannelManager C) (token : Bytes)
    (template : NewTemplate) : Prop where
  extranonces : ∃ extranonces : C.Extranonce, newExtranonces msg.extranoncePrefix.1
    (msg.extranoncePrefix.1.length + msg.extranonceSize.toNat) = .ok extranonces
  jobFactory  : s.jobFactory.isSome
  outputs     : ∃ request outputs, s.pendingDownstreamRequests.head? = some request ∧
    C.deserializeOutputs s.coinbaseOutputs = .ok outputs ∧
    (outputs.map (·.value)).sum = template.coinbaseTxValueRemaining ∧
    Fits s.poolTagString token template outputs
      (C.upstream.getFullExtranonceSize (s.newUpstreamChannel cfg msg request.hashrate))

theorem Tags.startsOn_iff_startsFirst
    {Fits : Option String → Bytes → NewTemplate → List TxOut → ℕ → Prop} (hF : Balances C cfg Fits)
    (hs : s.Tags cfg) (hm : s.jdMode = .coinbaseOnly) (ht : s.allocateTokens = some allocated)
    (hl : s.lastFutureTemplate = some template) (hp : s.lastNewPrevHash = some prevHash) :
    s.StartsOn cfg msg allocated.miningJobToken template prevHash ↔
      s.StartsFirst cfg Fits msg allocated.miningJobToken template := by
  constructor
  · rintro ⟨job, _, _, _, hj, _, _, _, _, _⟩
    rw [sentCustomJobs] at hj
    cases he : s.established cfg msg with
    | none => simp [he] at hj
    | some r =>
      obtain ⟨outputs, request, extranonces, upstream, jobs, _, _, ho, hr, hx, rfl, hc, _, _, hjobs⟩ :=
        established_eq_some he
      simp only [he, Option.elim, hjobs] at hj
      subst hj
      generalize hjob : [job] = jobs at hc
      cases hc with
      | idle => cases hjob
      | @made _ factory _ _ _ hu hf ht' hl' hp' =>
        cases hu
        cases ht.symm.trans ht'
        cases hl.symm.trans hl'
        cases hp.symm.trans hp'
        have hlen := s.makeCustomJob_length (s.newUpstreamChannel cfg msg request.hashrate)
          allocated.miningJobToken prevHash template outputs factory
        rw [← hjob] at hlen
        have hmakes : makesJob (s.newUpstreamChannel cfg msg request.hashrate)
            allocated.miningJobToken prevHash template outputs factory s.requestIdFactory :=
          Bool.toNat_eq_one.mp hlen.symm
        obtain ⟨hsum, hfits⟩ := (hF _ _ _ _ _ _ _ _ _ (hs.jobFactory factory hf)).mp hmakes
        exact ⟨⟨extranonces, hx⟩, by rw [hf]; rfl, request, outputs, hr, ho, hsum, hfits⟩
  · rintro ⟨⟨extranonces, hx⟩, hf, request, outputs, hr, ho, hsum, hfits⟩
    obtain ⟨factory, hf⟩ := Option.isSome_iff_exists.mp hf
    have hmakes : makesJob (s.newUpstreamChannel cfg msg request.hashrate) allocated.miningJobToken
        prevHash template outputs factory s.requestIdFactory :=
      (hF _ _ _ _ _ _ _ _ _ (hs.jobFactory factory hf)).mpr ⟨hsum, hfits⟩
    have hlen := s.makeCustomJob_length (s.newUpstreamChannel cfg msg request.hashrate)
      allocated.miningJobToken prevHash template outputs factory
    rw [hmakes] at hlen
    obtain ⟨job, hjob⟩ := List.length_eq_one_iff.mp hlen
    have hsent : s.sentCustomJobs cfg msg = [job] := by
      rw [sentCustomJobs_eq ho hr hx, firstCustomJob, hf, ht, hl, hp]
      dsimp only
      rw [if_pos hm]
      exact hjob
    have hmade : (C.jobFactory.newCustomJob factory _ _ _ _ _ _ _).1 = .ok job :=
      makeCustomJob_job.mp (Option.toList_eq_singleton_iff.mp hjob)
    have hall : ∀ o, s.handleOpenExtendedMiningChannelSuccess cfg msg = .ok o →
        customJobs o.messages = [job] :=
      fun o h => (handleOpenExtendedMiningChannelSuccess_customJobs h).trans hsent
    exact ⟨job, factory, request, outputs, hsent, hall, hs.jobFactory factory hf, ho, hr, hmade⟩

end Open

end ChannelManager

namespace System

variable {s : System C} {a : Action}

theorem tags_of_works {s s' : ChannelManager C} {ds : List DeclareMiningJob}
    {cs : List SetCustomMiningJob} (ht : s.Tags cfg) (h : Works cfg s a s' ds cs)
    (hd : ∀ m, a ≠ .templateMessage (.requestTransactionDataSuccess m)) : s'.Tags cfg := by
  cases h with
  | kept hw =>
    exact ht.congr (congrArg Work.poolTagString hw) (congrArg Work.jobFactory hw)
  | mode => exact ht.congr rfl rfl
  | reset hw =>
    have hp : s'.poolTagString = s.poolTagString :=
      (congrArg Work.poolTagString hw).trans ht.poolTagString.symm
    exact ht.congr hp (congrArg Work.jobFactory hw)
  | allocated => exact ht.congr rfl rfl
  | accepted _ hw =>
    exact ht.congr (congrArg Work.poolTagString hw) (congrArg Work.jobFactory hw)
  | refused hc =>
    obtain ⟨_, _, factory, _, _, _, hf, _, rfl⟩ := hc.made
    exact ht.makes rfl (ht.jobFactory factory hf).custom rfl
  | custom hc =>
    obtain ⟨_, _, factory, _, _, _, hf, _, rfl⟩ := hc.made
    exact ht.makes rfl (ht.jobFactory factory hf).custom rfl
  | @template m _ _ _ _ _ _ _ _ hT hw =>
    have ht : (s.storeTemplate m).Tags cfg := ht.congr rfl rfl
    exact (ht.templated hT).congr (congrArg Work.poolTagString hw) (congrArg Work.jobFactory hw)
  | @tip m _ _ _ _ _ _ hc hw =>
    have ht : (s.tipped m).Tags cfg := ht.congr rfl rfl
    exact (ht.customized hc).congr (congrArg Work.poolTagString hw) (congrArg Work.jobFactory hw)
  | declared => exact absurd rfl (hd _)
  | opened _ _ hc hw =>
    obtain ⟨_, _, _, rfl⟩ := hc.frame
    exact ht.makes (congrArg Work.poolTagString hw) .new (congrArg Work.jobFactory hw)

theorem tags_of_acts {s s' : ChannelManager C} {messages : List RouteMessageTo} (ht : s.Tags cfg)
    (h : Acts cfg s a s' messages) : s'.Tags cfg := by
  by_cases hd : ∃ m, a = .templateMessage (.requestTransactionDataSuccess m)
  case neg => exact tags_of_works ht (works_of_acts h) fun m hm => hd ⟨m, hm⟩
  case pos =>
    obtain ⟨m, rfl⟩ := hd
    cases h with
    | handled ho => exact ht.handleRequestTxDataSuccess (Option.some_inj.mp ho)
    | fails      => exact ht

theorem tags_of_init (h : s.Init) : s.manager.Tags cfg where
  poolTagString := h.poolTagString
  jobFactory _ hf := by
    rw [h.jobFactory] at hf
    cases hf

theorem tags_of_reachable (h : (machine C cfg).Reachable s) : s.manager.Tags cfg := by
  refine h.invariant (I := fun s => s.manager.Tags cfg) (fun _ => tags_of_init) ?_
  intro s a s' ht hs
  obtain ⟨_, ha, _⟩ := acts_of_step hs
  exact tags_of_acts ht ha

-- A client without templates of its own starts on a new upstream channel with one custom job of its
-- template exactly when a request waits for the channel, the channel leaves room for prefixes, a
-- factory is stored from before, and the stored outputs can be read and have the value of the template.
theorem startsOn_iff {Fits : Option String → Bytes → NewTemplate → List TxOut → ℕ → Prop}
    (hF : Balances C cfg Fits) (h : (machine C cfg).Reachable s)
    (hm : s.manager.jdMode = .coinbaseOnly) {allocated : AllocateMiningJobTokenSuccess}
    {template : NewTemplate} {prevHash : SetNewPrevHash}
    (ht : s.manager.allocateTokens = some allocated)
    (hl : s.manager.lastFutureTemplate = some template)
    (hp : s.manager.lastNewPrevHash = some prevHash) (msg : OpenExtendedMiningChannelSuccess) :
    s.manager.StartsOn cfg msg allocated.miningJobToken template prevHash ↔
      s.manager.StartsFirst cfg Fits msg allocated.miningJobToken template :=
  (tags_of_reachable h).startsOn_iff_startsFirst hF hm ht hl hp

end System

-- A client that has got a token before it has an upstream channel, and one that comes back to an
-- upstream after a fallback, with a token whose outputs have the value of the template, or none.
namespace Restarted

open Sample Reference

def firstConnection : List Action :=
  [.setJdMode .coinbaseOnly, .setUpstreamState .noChannel, future 1, prevHash 1, .connect,
    openExtended 0, allocate [1]]

def secondConnection (outputs : Bytes) : List Action :=
  firstConnection ++ [opened, .fallback rewardOutputs, .setUpstreamState .noChannel, .connect,
    openExtended 0, .jdsMessage (.allocateMiningJobTokenSuccess ⟨1, [2], outputs⟩)]

def fitsMessage (_ : Option String) (token : Bytes) (_ : NewTemplate) (outputs : List TxOut)
    (_ : ℕ) : Prop :=
  token.length ≤ 255 ∧ (encodeOutputs outputs).length ≤ 65535

theorem reference_balances : Balances reference (config [] []) fitsMessage := by
  intro tag f c r token tip t outputs size _
  show (customJob c r token tip t outputs).isOk ↔ _
  rw [customJob]
  split
  case isTrue hn  => exact iff_of_false Bool.false_ne_true fun h => hn h.left
  case isFalse hs =>
    split
    case isTrue hf  => exact iff_of_true rfl ⟨not_not.mp hs, hf⟩
    case isFalse hf => exact iff_of_false Bool.false_ne_true fun h => hf h.right

def ready (s : System reference) : Bool :=
  s.manager.jdMode = .coinbaseOnly && s.manager.allocateTokens.isSome &&
    s.manager.lastFutureTemplate.isSome && s.manager.lastNewPrevHash.isSome

theorem eq_some_of_ready {s : System reference} (h : ready s) :
    s.manager.jdMode = .coinbaseOnly ∧ ∃ allocated template prevHash,
      s.manager.allocateTokens = some allocated ∧ s.manager.lastFutureTemplate = some template ∧
      s.manager.lastNewPrevHash = some prevHash := by
  simp only [ready, Bool.and_eq_true, Option.isSome_iff_exists, decide_eq_true_eq] at h
  obtain ⟨⟨⟨hm, t, ht⟩, l, hl⟩, p, hp⟩ := h
  exact ⟨hm, t, l, p, ht, hl, hp⟩

-- After the actions a factory is stored or not, and the channel starts with so many custom jobs.
def startsWith (actions : List Action) (stored : Bool) (n : ℕ) : Bool :=
  ((machine reference (config [] [])).exec (start rewardOutputs) actions).any fun s =>
    ready s && s.manager.jobFactory.isSome = stored &&
      (s.manager.sentCustomJobs (config [] []) success).length = n

theorem startsWith_first : startsWith firstConnection false 0 := by
  decide +kernel

theorem startsWith_second : startsWith (secondConnection coinbaseOutputs) true 1 ∧
    startsWith (secondConnection rewardOutputs) true 0 := by
  decide +kernel

theorem reachable_of_startsWith {actions : List Action} {stored : Bool} {n : ℕ}
    (h : startsWith actions stored n) :
    ∃ (s : System reference) (allocated : AllocateMiningJobTokenSuccess) (template : NewTemplate)
      (prevHash : SetNewPrevHash), (machine reference (config [] [])).Reachable s ∧
      s.manager.jdMode = .coinbaseOnly ∧ s.manager.allocateTokens = some allocated ∧
      s.manager.lastFutureTemplate = some template ∧ s.manager.lastNewPrevHash = some prevHash ∧
      s.manager.jobFactory.isSome = stored ∧
      (s.manager.sentCustomJobs (config [] []) success).length = n := by
  obtain ⟨s, hs, hr⟩ := Option.any_eq_true _ _ |>.mp h
  simp only [Bool.and_eq_true, decide_eq_true_eq] at hr
  obtain ⟨⟨hr, hf⟩, hj⟩ := hr
  obtain ⟨hm, t, l, p, ht, hl, hp⟩ := eq_some_of_ready hr
  exact ⟨s, t, l, p, ⟨_, .of_exec start_init hs⟩, hm, ht, hl, hp, hf, hj⟩

theorem not_startsOn_of_length {s : ChannelManager reference} {token : Bytes} {template : NewTemplate}
    {prevHash : SetNewPrevHash} (h : (s.sentCustomJobs (config [] []) success).length = 0) :
    ¬s.StartsOn (config [] []) success token template prevHash := by
  rintro ⟨job, _, _, _, hsent, _⟩
  rw [hsent] at h
  cases h

end Restarted

open Sample Restarted in
theorem not_startsOn : ¬∀ (s : System reference) (allocated : AllocateMiningJobTokenSuccess) template
    prevHash msg,
    (machine reference (config [] [])).Reachable s → s.manager.jdMode = .coinbaseOnly →
      s.manager.allocateTokens = some allocated → s.manager.lastFutureTemplate = some template →
      s.manager.lastNewPrevHash = some prevHash →
      s.manager.StartsOn (config [] []) msg allocated.miningJobToken template prevHash := by
  intro h
  obtain ⟨s, t, l, p, hr, hm, ht, hl, hp, _, hj⟩ := reachable_of_startsWith startsWith_first
  exact not_startsOn_of_length hj (h s t l p success hr hm ht hl hp)

-- With a factory that is stored, the outputs still have to have the value of the template.
open Sample Restarted in
theorem startsOn_sample : (∃ (s : System reference) (allocated : AllocateMiningJobTokenSuccess)
    (template : NewTemplate) (prevHash : SetNewPrevHash),
    (machine reference (config [] [])).Reachable s ∧ s.manager.jobFactory.isSome ∧
      (s.manager.StartsOn (config [] []) success allocated.miningJobToken template prevHash ↔
        s.manager.StartsFirst (config [] []) fitsMessage success allocated.miningJobToken template) ∧
      (s.manager.sentCustomJobs (config [] []) success).length = 1) ∧
    ∃ (s : System reference) (allocated : AllocateMiningJobTokenSuccess) (template : NewTemplate),
    (machine reference (config [] [])).Reachable s ∧ s.manager.jobFactory.isSome ∧
      ¬s.manager.StartsFirst (config [] []) fitsMessage success allocated.miningJobToken template := by
  obtain ⟨h₁, h₂⟩ := startsWith_second
  constructor
  case left =>
    obtain ⟨s, t, l, p, hr, hm, ht, hl, hp, hf, hj⟩ := reachable_of_startsWith h₁
    exact ⟨s, t, l, p, hr, hf, System.startsOn_iff reference_balances hr hm ht hl hp success, hj⟩
  case right =>
    obtain ⟨s, t, l, p, hr, hm, ht, hl, hp, hf, hj⟩ := reachable_of_startsWith h₂
    have hn : ¬s.manager.StartsOn _ success t.miningJobToken l p := not_startsOn_of_length hj
    exact ⟨s, t, l, hr, hf,
      fun h => hn ((System.startsOn_iff reference_balances hr hm ht hl hp success).mpr h)⟩

end Jdc
