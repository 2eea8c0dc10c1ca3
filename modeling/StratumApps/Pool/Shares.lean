import StratumApps.Pool.Answers

open Sv2 Handler StratumCore

namespace Pool

variable {C : StratumCore} {cfg : Config} {d : DownstreamId} {m : Mining}

namespace ShareOutcome

def isBlockFound : ShareOutcome → Bool
  | .ok (.blockFound _ _ _) => true
  | _                       => false

-- The template of the job, when it is the job of a block and has one.
def solved : ShareOutcome → Option TemplateId
  | .ok (.blockFound _ templateId _) => templateId
  | _                                => none

end ShareOutcome

def RouteMessageTo.solution : RouteMessageTo → Option TemplateId
  | .templateProvider (.submitSolution m) => some m.templateId
  | _                                     => none

-- An event says of a share what the messages say. A valid share may still wait for its batch.
structure Agrees (d : DownstreamId) (outcome : ShareOutcome) (event : ShareEvent)
    (messages : List RouteMessageTo) : Prop where
  isValid      : event.isValid = outcome.isOk
  isBlockFound : event.isBlockFound = outcome.isBlockFound
  accepted     : event.isValid = true → event.errorCode = none ∧
    ∀ m, .downstream d (.submitSharesError m) ∉ messages
  acknowledged : event.isBlockFound = true → ∃ m, .downstream d (.submitSharesSuccess m) ∈ messages
  refused      : event.isValid = false → ∃ m, messages = [.downstream d (.submitSharesError m)] ∧
    event.errorCode = some m.errorCode
  solutions    : messages.filterMap RouteMessageTo.solution = outcome.solved.toList

-- One event is written, and it agrees with the messages.
def Report.Accounts (r : Report) (d : DownstreamId) (outcome : ShareOutcome) : Prop :=
  ∃ event messages, r.events = [event] ∧ r.messages = .ok messages ∧ Agrees d outcome event messages

namespace ChannelManager

variable {s : ChannelManager C} {D : Downstream C}

section Shares

variable {κ μ ω ε : Type} (S : ShareChannels κ μ ω ε) (channel : κ) (share : ShareFields)

theorem submitSolution_eq_ok {templateId : Option TemplateId} {coinbase : Bytes}
    {messages : List RouteMessageTo} (h : submitSolution share templateId coinbase = .ok messages) :
    messages.filterMap RouteMessageTo.solution = templateId.toList ∧
      ∀ m, .downstream d m ∉ messages := by
  cases templateId with
  | none =>
    cases h
    exact ⟨rfl, by simp⟩
  | some t =>
    simp only [submitSolution, bind_eq_ok, pure_eq_ok] at h
    obtain ⟨_, _, rfl⟩ := h
    exact ⟨rfl, by simp⟩

theorem shareReport_valid (d : DownstreamId) (C : StratumCore)
    (errorCode : ShareValidationError → Option String) (shareHash : U256) :
    (shareReport S channel share d C errorCode (.ok (.valid shareHash))).Accounts d
      (.ok (.valid shareHash)) := by
  refine ⟨_, _, rfl, rfl, rfl, rfl, fun _ => ⟨rfl, fun m => ?_⟩, ?_, ?_, ?_⟩
  · split <;> simp [submitSharesSuccess]
  · intro h
    cases h
  · intro h
    cases h
  · split <;> rfl

theorem shareReport_blockFound (d : DownstreamId) (C : StratumCore)
    (errorCode : ShareValidationError → Option String) (shareHash : U256)
    (templateId : Option TemplateId) (coinbase : Bytes) :
    (shareReport S channel share d C errorCode (.ok (.blockFound shareHash templateId coinbase))).Accounts
      d (.ok (.blockFound shareHash templateId coinbase)) ↔
        Returns (submitSolution share templateId coinbase) := by
  constructor
  · rintro ⟨_, messages, _, h, _⟩
    have hm : (do
        let solution ← submitSolution share templateId coinbase
        return solution ++ [submitSharesSuccess d S channel share]) = .ok messages := h
    exact returns_bind_pure.mp ⟨messages, hm⟩
  · rintro ⟨solution, hs⟩
    obtain ⟨hsol, hno⟩ := submitSolution_eq_ok (d := d) share hs
    have hm : (shareReport S channel share d C errorCode
        (.ok (.blockFound shareHash templateId coinbase))).messages =
          .ok (solution ++ [submitSharesSuccess d S channel share]) := by
      rw [shareReport, hs]
      rfl
    refine ⟨_, _, rfl, hm, rfl, rfl, fun _ => ⟨rfl, fun m hm => ?_⟩, fun _ => ?_, ?_, ?_⟩
    · obtain hm | hm := List.mem_append.mp hm
      · exact hno _ hm
      · simp [submitSharesSuccess] at hm
    · exact ⟨_, List.mem_append_right solution (List.mem_singleton_self _)⟩
    · intro h
      cases h
    · rw [List.filterMap_append, hsol]
      exact List.append_nil _

theorem shareReport_error (d : DownstreamId) (C : StratumCore)
    (errorCode : ShareValidationError → Option String) (e : ShareValidationError) :
    (shareReport S channel share d C errorCode (.error e)).Accounts d (.error e) ↔
      (errorCode e).isSome ∧ e ≠ .duplicateShare := by
  rw [Report.Accounts, shareReport]
  cases errorCode e with
  | none =>
    refine iff_of_false ?_ (by simp)
    rintro ⟨_, _, h, _⟩
    cases h
  | some code =>
    by_cases hd : e = .duplicateShare
    case pos =>
      refine iff_of_false ?_ fun h => h.right hd
      rintro ⟨_, _, h, _⟩
      dsimp only at h
      rw [if_pos hd] at h
      cases h
    case neg =>
      refine iff_of_true ⟨_, _, if_neg hd, rfl, rfl, rfl, ?_, ?_, ?_, rfl⟩ ⟨rfl, hd⟩
      · intro h
        cases h
      · intro h
        cases h
      · exact fun _ => ⟨_, rfl, rfl⟩

-- The share is accounted for exactly when its handler answers the outcome and it is not refused as a
-- duplicate.
theorem shareReport_accounts (d : DownstreamId) (C : StratumCore)
    (errorCode : ShareValidationError → Option String) (outcome : ShareOutcome) :
    (shareReport S channel share d C errorCode outcome).Accounts d outcome ↔
      Listed errorCode outcome ∧ outcome ≠ .error .duplicateShare := by
  cases outcome with
  | ok r =>
    rw [and_iff_left (by simp)]
    cases r with
    | valid => exact iff_of_true (shareReport_valid S channel share d C errorCode _) trivial
    | blockFound _ templateId coinbase =>
      rw [shareReport_blockFound, returns_submitSolution]
      exact Iff.rfl
  | error e =>
    rw [shareReport_error, ne_eq, ne_eq, Except.error.injEq]
    exact Iff.rfl

-- The same for a whole handler of shares.
def submitReport (s : ChannelManager C) (d : DownstreamId)
    (errorCode : ShareValidationError → Option String) (channels : Map ChannelId κ) (msg : ω) :
    Report :=
  match channels.lookup share.channelId with
  | none         => { events := [], messages := .ok [submitSharesError d share "invalid-channel-id"] }
  | some channel =>
    match s.vardiff.lookup (d, share.channelId) with
    | none   => { events := [], messages := .error (.err (.vardiffNotFound share.channelId)) }
    | some _ =>
      let r := S.validateShare channel msg
      shareReport S r.2 share d C errorCode r.1

-- The handlers write the events and send the messages of their reports.
theorem submitShares_report (errorCode : ShareValidationError → Option String)
    (channels : Map ChannelId κ) (set : Map ChannelId κ → Downstream C) (msg : ω) :
    (s.submitShares d S share errorCode channels set msg).map (fun r => (r.1.persisted, r.2)) =
      (submitReport S share s d errorCode channels msg).result.map fun r =>
        (s.persisted ++ r.1, r.2) := by
  rw [submitShares, submitReport]
  cases channels.lookup share.channelId with
  | none => simp [Report.result, Except.map, pure, Except.pure]
  | some channel =>
    cases s.vardiff.lookup (d, share.channelId) with
    | none   => rfl
    | some _ =>
      simp only [orErr, reportShare_eq]
      cases (shareReport S (S.validateShare channel msg).2 share d C errorCode
        (S.validateShare channel msg).1).result <;> rfl

end Shares

-- A share of a channel of the downstream, with the outcome of its validation, the refusals that its
-- handler answers, and the report of the handler.
inductive Validates (s : ChannelManager C) (d : DownstreamId) :
    Mining → ShareOutcome → (ShareValidationError → Option String) → Report → Prop
  | standard {D : Downstream C} {msg : SubmitSharesStandard} {channel : C.Standard} :
    s.downstream.lookup d = some D → D.standardChannels.lookup msg.channelId = some channel →
    Validates s d (.submitSharesStandard msg) (C.standard.validateShare channel msg).1
      standardShareErrorCode (submitReport C.standard.toShareChannels (standardShare msg) s d
        standardShareErrorCode D.standardChannels msg)
  | extended {D : Downstream C} {msg : SubmitSharesExtended} {channel : C.Extended} :
    s.downstream.lookup d = some D → D.extendedChannels.lookup msg.channelId = some channel →
    Validates s d (.submitSharesExtended msg) (C.extended.validateShare channel msg).1
      extendedShareErrorCode (submitReport C.extended.toShareChannels (extendedShare msg) s d
        extendedShareErrorCode D.extendedChannels msg)

variable {outcome : ShareOutcome} {errorCode : ShareValidationError → Option String} {r : Report}

theorem Validates.report (h : s.Validates d m outcome errorCode r) :
    (s.handleMiningMessageFromClient cfg d m).map (fun r => (r.1.persisted, r.2)) =
      r.result.map fun r => (s.persisted ++ r.1, r.2) := by
  cases h with
  | @standard D msg _ hD _ =>
    have he : s.handleMiningMessageFromClient cfg d (.submitSharesStandard msg) =
        s.submitShares d C.standard.toShareChannels (standardShare msg) standardShareErrorCode
          D.standardChannels (fun channels => { D with standardChannels := channels }) msg := by
      rw [handleMiningMessageFromClient, handleSubmitSharesStandard, hD]
      rfl
    rw [he]
    apply submitShares_report
  | @extended D msg _ hD _ =>
    have he : s.handleMiningMessageFromClient cfg d (.submitSharesExtended msg) =
        s.submitShares d C.extended.toShareChannels (extendedShare msg) extendedShareErrorCode
          D.extendedChannels (fun channels => { D with extendedChannels := channels }) msg := by
      rw [handleMiningMessageFromClient, handleSubmitSharesExtended,
        getNegotiatedExtensionsWithClient, hD]
      rfl
    rw [he]
    apply submitShares_report

theorem submitReport_accounts {κ μ ω ε : Type} (S : ShareChannels κ μ ω ε) (share : ShareFields)
    {channels : Map ChannelId κ} {channel : κ} (hv : (d, share.channelId) ∈ s.vardiff)
    (hl : channels.lookup share.channelId = some channel) (msg : ω) :
    (submitReport S share s d errorCode channels msg).Accounts d (S.validateShare channel msg).1 ↔
      Listed errorCode (S.validateShare channel msg).1 ∧
        (S.validateShare channel msg).1 ≠ .error .duplicateShare := by
  obtain ⟨v, hv⟩ := Map.mem_iff_lookup.mp hv
  rw [submitReport, hl]
  dsimp only
  rw [hv]
  apply shareReport_accounts

theorem Validates.accounts_iff_of_tracked (h : s.Validates d m outcome errorCode r)
    (ht : ∀ D c, s.downstream.lookup d = some D → D.Has c → (d, c) ∈ s.vardiff) :
    r.Accounts d outcome ↔ Listed errorCode outcome ∧ outcome ≠ .error .duplicateShare := by
  cases h with
  | standard hD hl =>
    have hv : (d, _) ∈ s.vardiff := ht _ _ hD (.inl (Map.mem_iff_lookup.mpr ⟨_, hl⟩))
    exact submitReport_accounts C.standard.toShareChannels (standardShare _) hv hl _
  | extended hD hl =>
    have hv : (d, _) ∈ s.vardiff := ht _ _ hD (.inr (Map.mem_iff_lookup.mpr ⟨_, hl⟩))
    exact submitReport_accounts C.extended.toShareChannels (extendedShare _) hv hl _

end ChannelManager

namespace System

variable {s : System C} {outcome : ShareOutcome} {r : Report}
variable {errorCode : ShareValidationError → Option String}

-- A share of a channel is accounted for exactly when its outcome is one that the handler lists, with
-- a solution that fits its message, other than a duplicate.
theorem accounts_iff (h : (machine C cfg).Reachable s) (hr : s.status = .running)
    (hv : s.manager.Validates d m outcome errorCode r) :
    r.Accounts d outcome ↔
      ChannelManager.Listed errorCode outcome ∧ outcome ≠ .error .duplicateShare :=
  hv.accounts_iff_of_tracked fun D c => tracked_of_reachable h hr d D c

end System

-- A core whose standard channels refuse a share that they have taken before.
namespace Duplicates

def within {κ μ ε : Type} (J : JobStore κ μ ε) (σ : Type) : JobStore (κ × σ) μ ε where
  getChannelId c             := J.getChannelId c.1
  getFutureTemplateToJobId c := J.getFutureTemplateToJobId c.1
  getFutureJobs c            := J.getFutureJobs c.1
  getActiveJob c             := J.getActiveJob c.1
  getPastJobs c              := J.getPastJobs c.1
  onNewTemplate c t outputs  :=
    let r := J.onNewTemplate c.1 t outputs
    (r.1, r.2, c.2)
  onSetNewPrevHash c p       :=
    let r := J.onSetNewPrevHash c.1 p
    (r.1, r.2, c.2)

def validateShare {κ : Type} (S : StandardChannels κ) (c : κ × List SubmitSharesStandard)
    (share : SubmitSharesStandard) : ShareOutcome × κ × List SubmitSharesStandard :=
  if share ∈ c.2 then
    (.error .duplicateShare, c)
  else
    let r := S.validateShare c.1 share
    (r.1, r.2, if r.1.isOk then share :: c.2 else c.2)

def standardChannels {κ : Type} (S : StandardChannels κ) :
    StandardChannels (κ × List SubmitSharesStandard) where
  toJobStore                            := within S.toJobStore _
  getTarget c                           := S.getTarget c.1
  getExtranoncePrefix c                 := S.getExtranoncePrefix c.1
  getUserIdentity c                     := S.getUserIdentity c.1
  getNominalHashrate c                  := S.getNominalHashrate c.1
  getSharesPerMinute c                  := S.getSharesPerMinute c.1
  getShareAccounting c                  := S.getShareAccounting c.1
  validateShare                         := validateShare S
  updateChannel c hashrate target       :=
    let r := S.updateChannel c.1 hashrate target
    (r.1, r.2, c.2)
  setExtranoncePrefix c bytes           :=
    let r := S.setExtranoncePrefix c.1 bytes
    (r.1, r.2, c.2)
  newForPool params tag                 := (S.newForPool params tag).map (·, [])
  newForJobDeclarationClient params tag miner :=
    (S.newForJobDeclarationClient params tag miner).map (·, [])
  onGroupChannelJob c job               :=
    let r := S.onGroupChannelJob c.1 job
    (r.1, r.2, c.2)

def core : StratumCore where
  __       := reference
  Standard := reference.Standard × List SubmitSharesStandard
  standard := standardChannels reference.standard

open Sample

def share : SubmitSharesStandard where
  channelId      := 2
  sequenceNumber := 1
  jobId          := 1
  nonce          := 0
  ntime          := 1700000000
  version        := 0x20000000

def start : System core :=
  System.start config (⟨[0, 1], 2, 0⟩ : Reference.Factory)

theorem start_init : (machine core config).Init start where
  downstream      := rfl
  idFactory       := rfl
  extended        := rfl
  standard        := rfl
  vardiff         := rfl
  coinbaseOutputs := rfl
  lastNewPrevHash := rfl
  lastTemplate    := rfl
  persisted       := rfl
  running         := rfl
  connections     := rfl
  receiver        := rfl
  shutdowns       := rfl
  sent            := rfl

-- The outcome of the share in a state, when its channel is open.
def outcome? (s : System core) : Option ShareOutcome := do
  let downstream ← s.manager.downstream.lookup 1
  let channel ← downstream.standardChannels.lookup share.channelId
  return (core.standard.validateShare channel share).1

theorem validates_of_outcome? {s : System core} {outcome : ShareOutcome}
    (h : outcome? s = some outcome) : ∃ r,
      s.manager.Validates 1 (.submitSharesStandard share) outcome
        ChannelManager.standardShareErrorCode r := by
  simp only [outcome?, Option.bind_eq_bind, Option.bind_eq_some_iff, Option.pure_def,
    Option.some_inj] at h
  obtain ⟨D, hD, channel, hl, rfl⟩ := h
  exact ⟨_, .standard hD hl⟩

def opened : List Action :=
  connected ++ [future 1, prevHash 1] ++ handled 1 openStandard

theorem outcome_exec :
    (((machine core config).exec start opened).any fun s =>
      s.status = .running ∧ outcome? s = some (.ok (.valid 0))) ∧
      ((machine core config).exec start (opened ++ handled 1 (.submitSharesStandard share))).any
        fun s => s.status = .running ∧ outcome? s = some (.error .duplicateShare) := by
  decide +kernel

end Duplicates

open Duplicates in
theorem not_accounts : ¬∀ (s : System core) d m outcome errorCode r,
    (machine core Sample.config).Reachable s → s.status = .running →
      s.manager.Validates d m outcome errorCode r → r.Accounts d outcome := by
  intro h
  obtain ⟨_, hexec⟩ := outcome_exec
  obtain ⟨s, hs, ho⟩ := Option.any_eq_true _ _ |>.mp hexec
  obtain ⟨hst, ho⟩ := of_decide_eq_true ho
  have hr : (machine core Sample.config).Reachable s := ⟨_, .of_exec start_init hs⟩
  obtain ⟨r, hv⟩ := validates_of_outcome? ho
  have ha := hv.accounts_iff_of_tracked fun D c => System.tracked_of_reachable hr hst 1 D c
  exact (ha.mp (h s 1 _ _ _ r hr hst hv)).right rfl

open Duplicates in
theorem accounts_sample : ∃ (s : System core) (r : Report), (machine core Sample.config).Reachable s ∧
    r.Accounts 1 (.ok (.valid 0)) := by
  obtain ⟨hexec, _⟩ := outcome_exec
  obtain ⟨s, hs, ho⟩ := Option.any_eq_true _ _ |>.mp hexec
  obtain ⟨hst, ho⟩ := of_decide_eq_true ho
  have hr : (machine core Sample.config).Reachable s := ⟨_, .of_exec start_init hs⟩
  obtain ⟨r, hv⟩ := validates_of_outcome? ho
  exact ⟨s, r, hr, (System.accounts_iff hr hst hv).mpr ⟨trivial, by simp⟩⟩

end Pool
