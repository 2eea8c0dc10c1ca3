import StratumApps.Pool.Invariants

open Sv2 Handler StratumCore

namespace Pool

variable {C : StratumCore} {cfg : Config} {d : DownstreamId} {c : ChannelId} {m : Mining}

namespace ChannelManager

variable {s s' : ChannelManager C} {D : Downstream C}

-- A new channel takes the last future template and the last prev hash.
def Starts {κ μ ε : Type} (J : JobStore κ μ ε) (channel : κ) (t : NewTemplate)
    (p : SetNewPrevHash) (outputs : List TxOut) : Prop :=
  ∃ c₁ c₂, J.onNewTemplate channel t outputs = (.ok (), c₁) ∧
    (J.futureJob c₁ t.templateId).isSome ∧ J.onSetNewPrevHash c₁ p = (.ok (), c₂)

-- The group channel is there, or not wanted, or can be made.
def GroupReady (cfg : Config) (D : Downstream C) (t : NewTemplate) (p : SetNewPrevHash) : Prop :=
  (!D.requiresStandardJobs && D.groupChannels.isNone) = true →
    ∃ g₀ g₁ g₂, C.group.newForPool D.channelIdFactory fullExtranonceSize cfg.poolTagString = .ok g₀ ∧
      C.group.onNewTemplate g₀ t [cfg.poolCoinbaseOutput t] = (.ok (), g₁) ∧
      C.group.onSetNewPrevHash g₁ p = (.ok (), g₂)

-- The id of the next standard channel. A group channel that is made on the way takes one, too.
def standardChannelId (D : Downstream C) : ChannelId :=
  if !D.requiresStandardJobs && D.groupChannels.isNone then
    D.channelIdFactory + 1
  else
    D.channelIdFactory

-- The standard channel is refused with a code of the protocol, or it starts with a job.
def StartsStandard (C : StratumCore) (cfg : Config) (channelId : ChannelId) (extranoncePrefix : Bytes)
    (msg : OpenStandardMiningChannel) (t : NewTemplate) (p : SetNewPrevHash) : Prop :=
  match C.standard.newForPool (standardParams cfg channelId extranoncePrefix msg)
    cfg.poolTagString with
  | .error e    => (standardChannelErrorCode e).isSome
  | .ok channel => (C.standard.getExtranoncePrefix channel).length ≤ 32 ∧
    Starts C.standard.toJobStore channel t p [cfg.poolCoinbaseOutput t] ∧ Returns C.vardiff.new

def OpensStandard (s : ChannelManager C) (cfg : Config) (D : Downstream C)
    (msg : OpenStandardMiningChannel) (t : NewTemplate) (p : SetNewPrevHash) : Prop :=
  GroupReady cfg D t p ∧
    ∃ extranoncePrefix,
      (C.extranonce.nextPrefixStandard s.extranoncePrefixFactoryStandard).1 = .ok extranoncePrefix ∧
        StartsStandard C cfg (standardChannelId D) extranoncePrefix msg t p

-- The same for an extended channel, which takes the last template only without custom work.
def StartsExtended (s : ChannelManager C) (cfg : Config) (D : Downstream C)
    (extranoncePrefix : Bytes) (msg : OpenExtendedMiningChannel) : Prop :=
  match C.extended.newForPool (extendedParams cfg D.channelIdFactory extranoncePrefix msg) true
    msg.minExtranonceSize cfg.poolTagString with
  | .error e    => (extendedChannelErrorCode e).isSome
  | .ok channel => (C.extended.getExtranoncePrefix channel).length ≤ 32 ∧
    ∃ p t, s.lastNewPrevHash = some p ∧ s.lastFutureTemplate = some t ∧
      (if D.requiresCustomWork then ∃ c, C.extended.onSetNewPrevHash channel p = (.ok (), c) else
        Starts C.extended.toJobStore channel t p [cfg.poolCoinbaseOutput t]) ∧
      Returns C.vardiff.new

def OpensExtended (s : ChannelManager C) (cfg : Config) (D : Downstream C)
    (msg : OpenExtendedMiningChannel) : Prop :=
  ∀ extranoncePrefix,
    (C.extranonce.nextPrefixExtended s.extranoncePrefixFactoryExtended
      msg.minExtranonceSize.toNat).1 = .ok extranoncePrefix →
    s.StartsExtended cfg D extranoncePrefix msg

-- The answers to a share that its handler lists, and whose solution fits its message.
def Listed (errorCode : ShareValidationError → Option String) :
    Except ShareValidationError ShareValidationResult → Prop
  | .ok (.valid _)                          => True
  | .ok (.blockFound _ templateId coinbase) => templateId.isSome → coinbase.length ≤ 65535
  | .error e                                => (errorCode e).isSome

-- The messages of a connected downstream that its handler answers.
def Answerable (s : ChannelManager C) (cfg : Config) (D : Downstream C) : Mining → Prop
  | .openStandardMiningChannel msg => D.requiresCustomWork = true ∨
    ∃ t p, s.lastFutureTemplate = some t ∧ s.lastNewPrevHash = some p ∧ s.OpensStandard cfg D msg t p
  | .openExtendedMiningChannel msg => s.OpensExtended cfg D msg
  | .closeChannel _                => True
  | .updateChannel msg             =>
    (∀ ch, D.standardChannels.lookup msg.channelId = some ch →
      ∀ e, (C.standard.updateChannel ch msg.nominalHashRate (some msg.maximumTarget)).1 = .error e →
        (updateStandardErrorCode e).isSome) ∧
    (D.standardChannels.lookup msg.channelId = none →
      ∀ ch, D.extendedChannels.lookup msg.channelId = some ch →
      ∀ e, (C.extended.updateChannel ch msg.nominalHashRate (some msg.maximumTarget)).1 = .error e →
        (updateExtendedErrorCode e).isSome)
  | .submitSharesStandard msg      => ∀ ch, D.standardChannels.lookup msg.channelId = some ch →
    Listed standardShareErrorCode (C.standard.validateShare ch msg).1
  | .submitSharesExtended msg      => ∀ ch, D.extendedChannels.lookup msg.channelId = some ch →
    Listed extendedShareErrorCode (C.extended.validateShare ch msg).1
  | .setCustomMiningJob msg        =>
    ∃ outputs, C.consensusDecode msg.coinbaseTxOutputs.1 = .ok outputs ∧
      ((∃ output ∈ outputs, output.scriptPubkey = cfg.coinbaseRewardScript) →
        ∀ ch, D.extendedChannels.lookup msg.channelId = some ch →
          Returns (C.extended.onSetCustomMiningJob ch msg).1)
  | _ => False

section Shares

variable {κ μ ω ε : Type} {S : ShareChannels κ μ ω ε} {share : ShareFields} {msg : ω}
variable {errorCode : ShareValidationError → Option String} {channels : Map ChannelId κ}
variable {put : Map ChannelId κ → Downstream C} {channel : κ}
variable {res : Except ShareValidationError ShareValidationResult}

theorem returns_submitSolution (share : ShareFields) {templateId : Option TemplateId} {coinbase : Bytes} :
    Returns (submitSolution share templateId coinbase) ↔
      (templateId.isSome → coinbase.length ≤ 65535) := by
  cases templateId with
  | none => simp [submitSolution]
  | some t =>
    rw [← Bytes.tryInto_isSome]
    simp only [submitSolution, returns_bind_pure, returns_orErr, Option.isSome_some, true_imp_iff]

theorem returns_reportShare (d : DownstreamId) (S : ShareChannels κ μ ω ε) (C : StratumCore)
    (share : ShareFields) (errorCode : ShareValidationError → Option String) (channel : κ)
    (res : Except ShareValidationError ShareValidationResult) :
    Returns (reportShare d S channel share C errorCode res) ↔ Listed errorCode res := by
  match res with
  | .ok (.valid _) => simp [reportShare, Listed]
  | .ok (.blockFound _ templateId coinbase) =>
    rw [Listed, ← returns_submitSolution share]
    simp only [reportShare, returns_bind_pure]
  | .error e => cases h : errorCode e <;> simp [reportShare, Listed, h]

theorem returns_submitShares
    (hv : ∀ ch, channels.lookup share.channelId = some ch → (d, share.channelId) ∈ s.vardiff) :
    Returns (s.submitShares d S share errorCode channels put msg) ↔
      ∀ ch, channels.lookup share.channelId = some ch → Listed errorCode (S.validateShare ch msg).1 := by
  cases hl : channels.lookup share.channelId with
  | none => simp [submitShares, hl]
  | some ch =>
    obtain ⟨v, hv⟩ := Map.mem_iff_lookup.mp (hv ch hl)
    have hr := returns_reportShare d S C share errorCode (S.validateShare ch msg).2
      (S.validateShare ch msg).1
    simp only [submitShares, hl, returns_bind, orErr_eq_ok, hv, Option.some_inj, forall_eq',
      exists_eq_left', returns_pure, and_true, ← hr]
    exact Iff.rfl

end Shares

section Start

variable {t : NewTemplate} {p : SetNewPrevHash}

theorem returns_newGroupChannel : Returns (newGroupChannel (C := C) cfg c t p) ↔
    ∃ g₀ g₁ g₂, C.group.newForPool c fullExtranonceSize cfg.poolTagString = .ok g₀ ∧
      C.group.onNewTemplate g₀ t [cfg.poolCoinbaseOutput t] = (.ok (), g₁) ∧
      C.group.onSetNewPrevHash g₁ p = (.ok (), g₂) := by
  simp only [Returns, newGroupChannel_eq_ok]
  constructor
  · rintro ⟨g₂, g₀, g₁, h⟩
    exact ⟨g₀, g₁, g₂, h⟩
  · rintro ⟨g₀, g₁, g₂, h⟩
    exact ⟨g₂, g₀, g₁, h⟩

theorem returns_ensureGroupChannel :
    Returns (ensureGroupChannel cfg D t p) ↔ GroupReady cfg D t p := by
  rw [ensureGroupChannel, GroupReady, ← returns_newGroupChannel]
  split
  case isTrue h  => simp only [returns_bind_pure, h, true_imp_iff]
  case isFalse h => simp [h]

theorem ensureGroupChannel_channelIdFactory {D' : Downstream C}
    (h : ensureGroupChannel cfg D t p = .ok D') : D'.channelIdFactory = standardChannelId D := by
  rw [ensureGroupChannel] at h
  rw [standardChannelId]
  split at h
  case isTrue hc =>
    simp only [bind_eq_ok, pure_eq_ok] at h
    obtain ⟨g, _, rfl⟩ := h
    rw [if_pos hc]
  case isFalse hc =>
    cases pure_eq_ok.mp h
    rw [if_neg hc]

theorem returns_futureJobOf {κ μ ε : Type} {J : JobStore κ μ ε} {channel : κ} {t : TemplateId} :
    Returns (futureJobOf J channel t) ↔ (J.futureJob channel t).isSome := by
  simp only [futureJobOf, returns_bind, expect_eq_ok, returns_pure, and_true, JobStore.futureJob,
    Option.isSome_iff_exists, Option.bind_eq_some_iff]
  exact ⟨fun ⟨i, hi, job, hj⟩ => ⟨job, i, hi, hj⟩, fun ⟨job, i, hi, hj⟩ => ⟨i, hi, job, hj⟩⟩

theorem returns_startStandardChannel {channel : C.Standard} {msg : OpenStandardMiningChannel} :
    Returns (s.startStandardChannel cfg d D channel c msg t p) ↔
      (C.standard.getExtranoncePrefix channel).length ≤ 32 ∧
        Starts C.standard.toJobStore channel t p [cfg.poolCoinbaseOutput t] ∧
        Returns C.vardiff.new := by
  rw [← Bytes.tryInto_isSome, Option.isSome_iff_exists]
  simp only [startStandardChannel, returns_bind, expect_eq_ok, attempt_eq_ok, ofExcept_eq_ok,
    returns_pure, and_true, Prod.exists, Starts, ← returns_futureJobOf]
  constructor
  · rintro ⟨pre, hpre, _, c₁, hn, jobId, job, hj, _, c₂, hp, v, hv⟩
    exact ⟨⟨pre, hpre⟩, ⟨c₁, c₂, hn, ⟨_, hj⟩, hp⟩, v, hv⟩
  · rintro ⟨⟨pre, hpre⟩, ⟨c₁, c₂, hn, ⟨⟨jobId, job⟩, hj⟩, hp⟩, v, hv⟩
    exact ⟨pre, hpre, (), c₁, hn, jobId, job, hj, (), c₂, hp, v, hv⟩

theorem returns_openStandardChannel {msg : OpenStandardMiningChannel} {pre : Bytes} :
    Returns (s.openStandardChannel cfg d D pre msg t p) ↔
      StartsStandard C cfg D.channelIdFactory pre msg t p := by
  simp only [openStandardChannel, StartsStandard]
  cases C.standard.newForPool (standardParams cfg D.channelIdFactory pre msg) cfg.poolTagString with
  | ok channel => exact returns_startStandardChannel
  | error e => cases he : standardChannelErrorCode e <;> simp [he]

theorem returns_handleOpenStandardMiningChannel {msg : OpenStandardMiningChannel}
    (hD : s.downstream.lookup d = some D) :
    Returns (s.handleOpenStandardMiningChannel cfg d msg) ↔
      Answerable s cfg D (.openStandardMiningChannel msg) := by
  simp only [handleOpenStandardMiningChannel, returns_bind, orErr_eq_ok, hD, Option.some_inj,
    exists_eq_left', Answerable]
  split
  case isTrue h => simp [h]
  case isFalse h =>
    simp only [h, returns_bind, orErr_eq_ok, attempt_eq_ok, Prod.exists, OpensStandard,
      returns_openStandardChannel]
    constructor
    · rintro ⟨t, ht, p, hp, D₁, hg, pre, factory, hx, h⟩
      rw [ensureGroupChannel_channelIdFactory hg] at h
      exact .inr ⟨t, p, ht, hp, returns_ensureGroupChannel.mp ⟨D₁, hg⟩, pre, by rw [hx], h⟩
    · rintro (h | ⟨t, p, ht, hp, hg, pre, hx, h⟩)
      · cases h
      · obtain ⟨D₁, hg⟩ := returns_ensureGroupChannel.mpr hg
        rw [← ensureGroupChannel_channelIdFactory hg] at h
        exact ⟨t, ht, p, hp, D₁, hg, pre, _, Prod.ext hx rfl, h⟩

theorem returns_startExtendedJobs {channel : C.Extended} {requiresCustomWork : Bool} :
    Returns (startExtendedJobs cfg d requiresCustomWork channel c t p) ↔
      if requiresCustomWork then ∃ c, C.extended.onSetNewPrevHash channel p = (.ok (), c) else
        Starts C.extended.toJobStore channel t p [cfg.poolCoinbaseOutput t] := by
  rw [startExtendedJobs]
  split
  case isTrue =>
    simp only [returns_bind, attempt_eq_ok, returns_pure, and_true, Prod.exists]
    constructor
    · rintro ⟨_, c, h⟩
      exact ⟨c, h⟩
    · rintro ⟨c, h⟩
      exact ⟨(), c, h⟩
  case isFalse =>
    simp only [returns_bind, attempt_eq_ok, returns_pure, and_true, Prod.exists, Starts,
      ← returns_futureJobOf]
    constructor
    · rintro ⟨_, c₁, hn, jobId, job, hj, _, c₂, hp⟩
      exact ⟨c₁, c₂, hn, ⟨_, hj⟩, hp⟩
    · rintro ⟨c₁, c₂, hn, ⟨⟨jobId, job⟩, hj⟩, hp⟩
      exact ⟨(), c₁, hn, jobId, job, hj, (), c₂, hp⟩

theorem returns_startExtendedChannel {channel : C.Extended} {msg : OpenExtendedMiningChannel} :
    Returns (s.startExtendedChannel cfg d D channel c msg) ↔
      (C.extended.getExtranoncePrefix channel).length ≤ 32 ∧
        ∃ p t, s.lastNewPrevHash = some p ∧ s.lastFutureTemplate = some t ∧
          (if D.requiresCustomWork then ∃ c, C.extended.onSetNewPrevHash channel p = (.ok (), c) else
            Starts C.extended.toJobStore channel t p [cfg.poolCoinbaseOutput t]) ∧
          Returns C.vardiff.new := by
  rw [← Bytes.tryInto_isSome, Option.isSome_iff_exists]
  simp only [startExtendedChannel, returns_bind, orErr_eq_ok, returns_pure, and_true,
    ofExcept_eq_ok, ← returns_startExtendedJobs (d := d) (c := c)]
  constructor
  · rintro ⟨pre, hpre, p, hp, t, ht, r, hj, hv⟩
    exact ⟨⟨pre, hpre⟩, p, t, hp, ht, ⟨r, hj⟩, hv⟩
  · rintro ⟨⟨pre, hpre⟩, p, t, hp, ht, ⟨r, hj⟩, hv⟩
    exact ⟨pre, hpre, p, hp, t, ht, r, hj, hv⟩

theorem returns_openExtendedChannel {msg : OpenExtendedMiningChannel} {pre : Bytes} :
    Returns (s.openExtendedChannel cfg d D pre msg) ↔ s.StartsExtended cfg D pre msg := by
  simp only [openExtendedChannel, StartsExtended]
  cases C.extended.newForPool (extendedParams cfg D.channelIdFactory pre msg) true
    msg.minExtranonceSize cfg.poolTagString with
  | ok channel => exact returns_startExtendedChannel
  | error e => cases he : extendedChannelErrorCode e <;> simp [he]

theorem returns_handleOpenExtendedMiningChannel {msg : OpenExtendedMiningChannel}
    (hD : s.downstream.lookup d = some D) :
    Returns (s.handleOpenExtendedMiningChannel cfg d msg) ↔
      Answerable s cfg D (.openExtendedMiningChannel msg) := by
  simp only [handleOpenExtendedMiningChannel, returns_bind, orErr_eq_ok, hD, Option.some_inj,
    exists_eq_left', Answerable, OpensExtended]
  cases (C.extranonce.nextPrefixExtended s.extranoncePrefixFactoryExtended
    msg.minExtranonceSize.toNat).1 with
  | error => simp
  | ok pre =>
    simp only [Except.ok.injEq, forall_eq']
    exact returns_openExtendedChannel

end Start

section UpdateChannel

variable {κ μ ω ε : Type} {S : ShareChannels κ μ ω ε} {errorCode : ε → Option String}
variable {err : ε → PoolError} {channel : κ} {msg : UpdateChannel}

theorem returns_updateChannel : Returns (updateChannel d S errorCode err channel msg) ↔
    ∀ e, (S.updateChannel channel msg.nominalHashRate (some msg.maximumTarget)).1 = .error e →
      (errorCode e).isSome := by
  simp only [updateChannel]
  cases (S.updateChannel channel msg.nominalHashRate (some msg.maximumTarget)).1 with
  | ok => simp
  | error e => cases he : errorCode e <;> simp [he]

end UpdateChannel

theorem returns_handleUpdateChannel {msg : UpdateChannel} (hD : s.downstream.lookup d = some D) :
    Returns (s.handleUpdateChannel d msg) ↔ Answerable s cfg D (.updateChannel msg) := by
  simp only [handleUpdateChannel, returns_bind, orErr_eq_ok, hD, Option.some_inj,
    exists_eq_left', Answerable]
  cases hs : D.standardChannels.lookup msg.channelId with
  | some ch => simp only [returns_bind_pure, returns_updateChannel]; simp
  | none =>
    cases he : D.extendedChannels.lookup msg.channelId with
    | some ch => simp only [returns_bind_pure, returns_updateChannel]; simp
    | none => simp

theorem returns_handleSetCustomMiningJob {msg : SetCustomMiningJob}
    (hD : s.downstream.lookup d = some D) :
    Returns (s.handleSetCustomMiningJob cfg d msg) ↔
      Answerable s cfg D (.setCustomMiningJob msg) := by
  simp only [handleSetCustomMiningJob, returns_bind, ofExcept_eq_ok, Answerable]
  refine exists_congr fun outputs => and_congr_right fun _ => ?_
  split
  case isTrue h =>
    have hp : ¬∃ output ∈ outputs, output.scriptPubkey = cfg.coinbaseRewardScript := by
      simpa using h
    simp only [returns_pure, hp, false_imp_iff]
  case isFalse h =>
    have hp : ∃ output ∈ outputs, output.scriptPubkey = cfg.coinbaseRewardScript := by
      simpa using h
    simp only [hp, true_imp_iff, returns_bind, orErr_eq_ok, hD, Option.some_inj, exists_eq_left']
    cases D.extendedChannels.lookup msg.channelId with
    | none => simp
    | some ch =>
      simp only [returns_bind, attempt_eq_ok, returns_pure, and_true, Option.some_inj, forall_eq']
      constructor
      · rintro ⟨r, h⟩
        exact ⟨r.1, by rw [h]⟩
      · rintro ⟨j, h⟩
        exact ⟨(j, _), Prod.ext h rfl⟩

theorem returns_handleMiningMessageFromClient (hD : s.downstream.lookup d = some D)
    (hv : ∀ c, D.Has c → (d, c) ∈ s.vardiff) :
    Returns (s.handleMiningMessageFromClient cfg d m) ↔ Answerable s cfg D m := by
  cases m
  case openStandardMiningChannel => exact returns_handleOpenStandardMiningChannel hD
  case openExtendedMiningChannel => exact returns_handleOpenExtendedMiningChannel hD
  case updateChannel             => exact returns_handleUpdateChannel hD
  case closeChannel              =>
    simp only [handleMiningMessageFromClient, handleCloseChannel, returns_bind_pure,
      returns_orErr, hD, Option.isSome_some, Answerable]
  case submitSharesStandard msg  =>
    simp only [handleMiningMessageFromClient, handleSubmitSharesStandard, returns_bind,
      orErr_eq_ok, hD, Option.some_inj, exists_eq_left', Answerable]
    exact returns_submitShares fun ch hch => hv _ <| .inl <| Map.mem_iff_lookup.mpr ⟨ch, hch⟩
  case submitSharesExtended msg  =>
    simp only [handleMiningMessageFromClient, handleSubmitSharesExtended, returns_bind,
      getNegotiatedExtensionsWithClient, expect_eq_ok, orErr_eq_ok, hD, Option.map_some,
      Option.some_inj, exists_eq_left', Answerable]
    exact returns_submitShares fun ch hch => hv _ <| .inr <| Map.mem_iff_lookup.mpr ⟨ch, hch⟩
  case setCustomMiningJob        => exact returns_handleSetCustomMiningJob hD
  all_goals simp only [handleMiningMessageFromClient, not_returns_throw, Answerable]

end ChannelManager

namespace System

variable {s s' : System C}

-- The pool goes on with the next message of a connected downstream if and only if it is answerable.
theorem answered_iff {D : Downstream C} {rest : List (DownstreamId × Mining)}
    (hr : (machine C cfg).Reachable s) (hq : s.downstreamReceiver = (d, m) :: rest)
    (hD : s.manager.downstream.lookup d = some D) (hs : s.step cfg .downstreamMessage = some s') :
    s'.status = .running ↔ s.manager.Answerable cfg D m := by
  have ⟨hrun, ha⟩ := step_running hs
  simp only [act, hq, Option.some_inj] at ha
  subst ha
  rw [← ChannelManager.returns_handleMiningMessageFromClient hD (tracked_of_reachable hr hrun d D · hD)]
  rw [← ChannelManager.exitMiningMessageFromClient_returned]
  exact deliver_running_iff hrun

end System

namespace Sample

-- The outputs of the job are no bytes at all, which no list of outputs is encoded as.
def noOutputs : SetCustomMiningJob where
  channelId                := 1
  requestId                := 1
  token                    := fit []
  version                  := 0x20000000
  prevHash                 := 0
  minNtime                 := 0
  nbits                    := 0
  coinbaseTxVersion        := 2
  coinbasePrefix           := fit []
  coinbaseTxInputNSequence := 0
  coinbaseTxOutputs        := fit []
  coinbaseTxLocktime       := 0
  merklePath               := []

-- The only message that waits is one of the downstream, and the manager takes it.
def takes (actions : List Action) (m : Mining) (p : System reference → Bool) : Bool :=
  ((machine reference config).exec start (actions ++ [.receive 1 m])).any fun s =>
    s.downstreamReceiver = [(1, m)] && (s.manager.downstream.lookup 1).isSome &&
      ((machine reference config).step s .downstreamMessage).any p

theorem exists_of_takes {actions : List Action} {p : System reference → Bool}
    (h : takes actions m p = true) : ∃ s s' D, (machine reference config).Reachable s ∧
      s.downstreamReceiver = [(1, m)] ∧ s.manager.downstream.lookup 1 = some D ∧
        s.step config .downstreamMessage = some s' ∧ p s' = true := by
  obtain ⟨s, hs, h⟩ := Option.any_eq_true _ _ |>.mp h
  simp only [Bool.and_eq_true, decide_eq_true_eq, Option.isSome_iff_exists] at h
  obtain ⟨⟨hq, D, hD⟩, h⟩ := h
  obtain ⟨s', hs', h⟩ := Option.any_eq_true _ _ |>.mp h
  exact ⟨s, s', D, ⟨_, .of_exec start_init hs⟩, hq, hD, hs', h⟩

theorem noOutputs_takes :
    takes connected (.setCustomMiningJob noOutputs) (fun s' => s'.status ≠ .running) = true := by
  decide +kernel

theorem openStandard_takes : takes ([future 1, prevHash 1] ++ connected) openStandard
    (fun s' => s'.status = .running) = true := by
  decide +kernel

end Sample

open Sample in
theorem not_answered : ¬∀ s s' d msg D rest, (machine reference config).Reachable s →
    s.downstreamReceiver = (d, .setCustomMiningJob msg) :: rest →
      s.manager.downstream.lookup d = some D → s.step config .downstreamMessage = some s' →
        s'.status = .running := by
  intro h
  have ⟨s, s', D, hr, hq, hD, hs, hn⟩ := exists_of_takes noOutputs_takes
  exact of_decide_eq_true hn (h s s' 1 _ D [] hr hq hD hs)

open Sample in
theorem answered_iff_sample : (∃ s D, (machine reference config).Reachable s ∧
    s.manager.downstream.lookup 1 = some D ∧
      ¬s.manager.Answerable config D (.setCustomMiningJob noOutputs)) ∧
    ∃ s D, (machine reference config).Reachable s ∧ s.manager.downstream.lookup 1 = some D ∧
      s.manager.Answerable config D openStandard := by
  constructor
  case left =>
    have ⟨s, s', D, hr, hq, hD, hs, hn⟩ := exists_of_takes noOutputs_takes
    exact ⟨s, D, hr, hD, fun ha => of_decide_eq_true hn <|
      (System.answered_iff hr hq hD hs).mpr ha⟩
  case right =>
    have ⟨s, s', D, hr, hq, hD, hs, hrun⟩ := exists_of_takes openStandard_takes
    exact ⟨s, D, hr, hD, (System.answered_iff hr hq hD hs).mp <| of_decide_eq_true hrun⟩

end Pool
