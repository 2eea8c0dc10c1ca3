import StratumApps.Lib.Exit
import StratumApps.Pool.Templates

open Sv2 Handler StratumCore

namespace Pool

variable {C : StratumCore} {cfg : Config} {d : DownstreamId}

abbrev ShareOutcome := Except ShareValidationError ShareValidationResult

-- The events that a share handler has written when it is left, with the messages that it then sends,
-- or its error.
structure Report where
  events   : List ShareEvent
  messages : Except (Fault PoolError) (List RouteMessageTo)

-- The events are lost to who takes them only together with the messages.
def Report.result (r : Report) : Except (Fault PoolError) (List ShareEvent × List RouteMessageTo) :=
  r.messages.map (r.events, ·)

namespace ChannelManager

section Handlers

variable (cfg : Config) (s : ChannelManager C) (d : DownstreamId)

abbrev Exit (C : StratumCore) :=
  Handler.Exit (ChannelManager C) (Fault PoolError) (List RouteMessageTo)

-- The handlers of open requests as they change the data of the manager. Each number that they take is
-- gone, whatever comes after it.
def exitStandardChannel (downstream : Downstream C) (channel : C.Standard) (channelId : ChannelId)
    (msg : OpenStandardMiningChannel) (template : NewTemplate) (prevHash : SetNewPrevHash) : Exit C :=
  .after s (expect ((C.standard.getExtranoncePrefix channel).tryInto 32)
    "Extranonce_prefix must be valid") fun extranoncePrefix =>
  let success : OpenStandardMiningChannelSuccess := {
    requestId        := msg.requestId
    channelId        := channelId
    target           := C.standard.getTarget channel
    extranoncePrefix := extranoncePrefix
    groupChannelId   := downstream.groupChannels.elim 0 C.group.getChannelId }
  .after s (attempt .standard <|
    C.standard.onNewTemplate channel template [cfg.poolCoinbaseOutput template]) fun r =>
  .after s (futureJobOf C.standard.toJobStore r.2 template.templateId) fun j =>
  .after s (attempt .standard <| C.standard.onSetNewPrevHash r.2 prevHash) fun r =>
  let s := s.setDownstream d { downstream with
    standardChannels := downstream.standardChannels.insert channelId r.2
    groupChannels    := downstream.groupChannels.map (C.group.addStandardChannelId · channelId) }
  .after s (ofExcept .vardiff C.vardiff.new) fun vardiff =>
  ⟨{ s with vardiff := s.vardiff.insert (d, channelId) vardiff }, .ok [
    .downstream d (.openStandardMiningChannelSuccess success),
    .downstream d (.newMiningJob j.2.jobMessage),
    .downstream d (setNewPrevHashMp channelId j.1 prevHash)]⟩

def exitOpenStandardChannel (downstream : Downstream C) (msg : OpenStandardMiningChannel)
    (template : NewTemplate) (prevHash : SetNewPrevHash) : Exit C :=
  let next := C.extranonce.nextPrefixStandard s.extranoncePrefixFactoryStandard
  let s := { s with extranoncePrefixFactoryStandard := next.2 }
  .after s (ofExcept .extranonce next.1) fun extranoncePrefix =>
  let channelId := downstream.channelIdFactory
  let downstream := { downstream with channelIdFactory := channelId + 1 }
  let s := s.setDownstream d downstream
  match C.standard.newForPool (standardParams cfg channelId extranoncePrefix msg)
      cfg.poolTagString with
  | .ok channel => s.exitStandardChannel cfg d downstream channel channelId msg template prevHash
  | .error e    =>
    match standardChannelErrorCode e with
    | some errorCode => ⟨s, .ok [openMiningChannelError d msg.requestId errorCode]⟩
    | none           => ⟨s, .error (.err .channelErrorSender)⟩

def exitOpenStandardMiningChannel (msg : OpenStandardMiningChannel) : Exit C :=
  .after s (orErr (s.downstream.lookup d) .downstreamIdNotFound) fun downstream =>
  if downstream.requiresCustomWork then
    ⟨s, .ok [openMiningChannelError d msg.requestId
      "standard-channels-not-supported-for-custom-work"]⟩
  else
    .after s (orErr s.lastFutureTemplate .futureTemplateNotPresent) fun template =>
    .after s (orErr s.lastNewPrevHash .lastNewPrevhashNotFound) fun prevHash =>
    if !downstream.requiresStandardJobs && downstream.groupChannels.isNone then
      let groupChannelId := downstream.channelIdFactory
      let downstream := { downstream with channelIdFactory := groupChannelId + 1 }
      let s := s.setDownstream d downstream
      .after s (newGroupChannel cfg groupChannelId template prevHash) fun group =>
      let downstream := { downstream with groupChannels := some group }
      let s := s.setDownstream d downstream
      s.exitOpenStandardChannel cfg d downstream msg template prevHash
    else
      s.exitOpenStandardChannel cfg d downstream msg template prevHash

def exitExtendedChannel (downstream : Downstream C) (channel : C.Extended) (channelId : ChannelId)
    (msg : OpenExtendedMiningChannel) : Exit C :=
  .after s (orErr ((C.extended.getExtranoncePrefix channel).tryInto 32) .binarySv2)
    fun extranoncePrefix =>
  let success : OpenExtendedMiningChannelSuccess := {
    requestId        := msg.requestId
    channelId        := channelId
    target           := C.extended.getTarget channel
    extranoncePrefix := extranoncePrefix
    extranonceSize   := C.extended.getRollableExtranonceSize channel }
  .after s (orErr s.lastNewPrevHash .lastNewPrevhashNotFound) fun prevHash =>
  .after s (orErr s.lastFutureTemplate .futureTemplateNotPresent) fun template =>
  .after s (startExtendedJobs cfg d downstream.requiresCustomWork channel channelId template prevHash)
    fun r =>
  let s := s.setDownstream d { downstream with
    extendedChannels := downstream.extendedChannels.insert channelId r.1 }
  .after s (ofExcept .vardiff C.vardiff.new) fun vardiff =>
  ⟨{ s with vardiff := s.vardiff.insert (d, channelId) vardiff },
    .ok (.downstream d (.openExtendedMiningChannelSuccess success) :: r.2)⟩

def exitOpenExtendedMiningChannel (msg : OpenExtendedMiningChannel) : Exit C :=
  .after s (orErr (s.downstream.lookup d) .downstreamIdNotFound) fun downstream =>
  let next := C.extranonce.nextPrefixExtended s.extranoncePrefixFactoryExtended
    msg.minExtranonceSize.toNat
  let s := { s with extranoncePrefixFactoryExtended := next.2 }
  match next.1 with
  | .error _ =>
    ⟨s, .ok [openMiningChannelError d msg.requestId "min-extranonce-size-too-large"]⟩
  | .ok extranoncePrefix =>
    let channelId := downstream.channelIdFactory
    let downstream := { downstream with channelIdFactory := channelId + 1 }
    let s := s.setDownstream d downstream
    match C.extended.newForPool (extendedParams cfg channelId extranoncePrefix msg) true
        msg.minExtranonceSize cfg.poolTagString with
    | .ok channel => s.exitExtendedChannel cfg d downstream channel channelId msg
    | .error e    =>
      match extendedChannelErrorCode e with
      | some errorCode => ⟨s, .ok [openMiningChannelError d msg.requestId errorCode]⟩
      | none           => ⟨s, .error (.err (.extended e))⟩

def exitCloseChannel (msg : CloseChannel) : Exit C :=
  .after s (orErr (s.downstream.lookup d) (.downstreamNotFound d)) fun downstream =>
  let s := s.setDownstream d { downstream with
    standardChannels := downstream.standardChannels.erase msg.channelId
    extendedChannels := downstream.extendedChannels.erase msg.channelId }
  ⟨{ s with vardiff := s.vardiff.erase (d, msg.channelId) }, .ok []⟩

section Shares

variable {κ μ ω ε : Type} (S : ShareChannels κ μ ω ε) (channel : κ) (share : ShareFields)

-- The event of a block is written before its solution is made.
def shareReport (d : DownstreamId) (C : StratumCore)
    (errorCode : ShareValidationError → Option String) : ShareOutcome → Report
  | .ok (.valid shareHash) => {
    events   := [shareEvent S channel share C none false true (some shareHash) none]
    messages := .ok <| if (S.getShareAccounting channel).shouldAcknowledge then
      [submitSharesSuccess d S channel share] else [] }
  | .ok (.blockFound shareHash templateId coinbase) => {
    events   := [shareEvent S channel share C none true true (some shareHash) templateId]
    messages := do
      let solution ← submitSolution share templateId coinbase
      return solution ++ [submitSharesSuccess d S channel share] }
  | .error e =>
    match errorCode e with
    | some code => {
      events   := if e = .duplicateShare then [] else
        [shareEvent S channel share C (some code) false false none none]
      messages := .ok [submitSharesError d share code] }
    | none => { events := [], messages := .error (.err (.shareValidation e)) }

-- The channel and its vardiff state have counted the share when its outcome is looked at.
def exitSubmitShares (errorCode : ShareValidationError → Option String) (channels : Map ChannelId κ)
    (set : Map ChannelId κ → Downstream C) (msg : ω) : Exit C :=
  match channels.lookup share.channelId with
  | none         => ⟨s, .ok [submitSharesError d share "invalid-channel-id"]⟩
  | some channel =>
    .after s (orErr (s.vardiff.lookup (d, share.channelId)) (.vardiffNotFound share.channelId))
      fun vardiff =>
    let r := S.validateShare channel msg
    let report := shareReport S r.2 share d C errorCode r.1
    let s := s.setDownstream d <| set <| channels.insert share.channelId r.2
    ⟨{ s with
      vardiff   := s.vardiff.insert (d, share.channelId)
        (C.vardiff.incrementSharesSinceLastUpdate vardiff)
      persisted := s.persisted ++ report.events }, report.messages⟩

end Shares

def standardShare (msg : SubmitSharesStandard) : ShareFields where
  channelId              := msg.channelId
  sequenceNumber         := msg.sequenceNumber
  nonce                  := msg.nonce
  ntime                  := msg.ntime
  version                := msg.version
  rollableExtranonceSize := none

def extendedShare (msg : SubmitSharesExtended) : ShareFields where
  channelId              := msg.channelId
  sequenceNumber         := msg.sequenceNumber
  nonce                  := msg.nonce
  ntime                  := msg.ntime
  version                := msg.version
  rollableExtranonceSize := some msg.extranonce.1.length.toUInt16

def exitSubmitSharesStandard (msg : SubmitSharesStandard) : Exit C :=
  .after s (orErr (s.downstream.lookup d) (.downstreamNotFound d)) fun downstream =>
  s.exitSubmitShares d C.standard.toShareChannels (standardShare msg) standardShareErrorCode
    downstream.standardChannels (fun channels => { downstream with standardChannels := channels }) msg

def exitSubmitSharesExtended (msg : SubmitSharesExtended) : Exit C :=
  .after s (s.getNegotiatedExtensionsWithClient d) fun _ =>
  .after s (orErr (s.downstream.lookup d) (.downstreamNotFound d)) fun downstream =>
  s.exitSubmitShares d C.extended.toShareChannels (extendedShare msg) extendedShareErrorCode
    downstream.extendedChannels (fun channels => { downstream with extendedChannels := channels }) msg

-- A channel that refuses its update, or a custom job, stays as it is then.
def exitUpdateChannel (msg : UpdateChannel) : Exit C :=
  .after s (orErr (s.downstream.lookup d) (.downstreamNotFound d)) fun downstream =>
  match downstream.standardChannels.lookup msg.channelId,
      downstream.extendedChannels.lookup msg.channelId with
  | some channel, _ =>
    let set (channel : C.Standard) := s.setDownstream d { downstream with
      standardChannels := downstream.standardChannels.insert msg.channelId channel }
    .after (set (C.standard.updateChannel channel msg.nominalHashRate (some msg.maximumTarget)).2)
      (updateChannel d C.standard.toShareChannels updateStandardErrorCode .standard channel msg)
      fun r => ⟨set r.1, .ok r.2⟩
  | none, some channel =>
    let set (channel : C.Extended) := s.setDownstream d { downstream with
      extendedChannels := downstream.extendedChannels.insert msg.channelId channel }
    .after (set (C.extended.updateChannel channel msg.nominalHashRate (some msg.maximumTarget)).2)
      (updateChannel d C.extended.toShareChannels updateExtendedErrorCode .extended channel msg)
      fun r => ⟨set r.1, .ok r.2⟩
  | none, none => ⟨s, .ok [updateChannelError d msg.channelId "invalid-channel-id"]⟩

def exitSetCustomMiningJob (msg : SetCustomMiningJob) : Exit C :=
  .after s (ofExcept .bitcoinEncodeError (C.consensusDecode msg.coinbaseTxOutputs.1)) fun outputs =>
  if outputs.all (·.scriptPubkey ≠ cfg.coinbaseRewardScript) then
    ⟨s, .ok [setCustomMiningJobError d msg "pool-payout-script-missing"]⟩
  else
    .after s (orErr (s.downstream.lookup d) (.downstreamNotFound d)) fun downstream =>
    match downstream.extendedChannels.lookup msg.channelId with
    | none         => ⟨s, .ok [setCustomMiningJobError d msg "invalid-channel-id"]⟩
    | some channel =>
      let set (channel : C.Extended) := s.setDownstream d { downstream with
        extendedChannels := downstream.extendedChannels.insert msg.channelId channel }
      .after (set (C.extended.onSetCustomMiningJob channel msg).2)
        (attempt .extended <| C.extended.onSetCustomMiningJob channel msg) fun r =>
      ⟨set r.2, .ok [.downstream d (.setCustomMiningJobSuccess ⟨msg.channelId, msg.requestId, r.1⟩)]⟩

def exitMiningMessageFromClient : Mining → Exit C
  | .openStandardMiningChannel m => s.exitOpenStandardMiningChannel cfg d m
  | .openExtendedMiningChannel m => s.exitOpenExtendedMiningChannel cfg d m
  | .updateChannel m             => s.exitUpdateChannel d m
  | .closeChannel m              => s.exitCloseChannel d m
  | .submitSharesStandard m      => s.exitSubmitSharesStandard d m
  | .submitSharesExtended m      => s.exitSubmitSharesExtended d m
  | .setCustomMiningJob m        => s.exitSetCustomMiningJob cfg d m
  | _                            => ⟨s, .error (.err .unexpectedMessage)⟩

end Handlers

section Returned

variable {s : ChannelManager C} {downstream D : Downstream C}

@[simp]
theorem setDownstream_setDownstream :
    (s.setDownstream d downstream).setDownstream d D = s.setDownstream d D := by
  rw [setDownstream, setDownstream, setDownstream, AList.insert_insert]

theorem exitStandardChannel_returned {channel : C.Standard} {channelId : ChannelId}
    {msg : OpenStandardMiningChannel} {template : NewTemplate} {prevHash : SetNewPrevHash} :
    ((s.setDownstream d D).exitStandardChannel cfg d downstream channel channelId msg template
      prevHash).returned =
      s.startStandardChannel cfg d downstream channel channelId msg template prevHash := by
  apply Exit.returned_after
  intro extranoncePrefix _
  apply Exit.returned_after
  intro r _
  apply Exit.returned_after
  intro j _
  apply Exit.returned_after
  intro r _
  apply Exit.returned_after
  intro vardiff _
  rw [Exit.returned_ok, setDownstream_setDownstream]
  rfl

-- Whether the downstream has been stored before makes no difference once it is stored.
theorem exitOpenStandardChannel_returned {s' : ChannelManager C} {msg : OpenStandardMiningChannel}
    {template : NewTemplate} {prevHash : SetNewPrevHash}
    (hs : s' = s ∨ ∃ D, s' = s.setDownstream d D) :
    (s'.exitOpenStandardChannel cfg d downstream msg template prevHash).returned = (do
      let (extranoncePrefix, factory) ← attempt .extranonce <|
        C.extranonce.nextPrefixStandard s.extranoncePrefixFactoryStandard
      let s := { s with extranoncePrefixFactoryStandard := factory }
      s.openStandardChannel cfg d downstream extranoncePrefix msg template prevHash) := by
  have hx : s'.extranoncePrefixFactoryStandard = s.extranoncePrefixFactoryStandard := by
    obtain rfl | ⟨D, rfl⟩ := hs <;> rfl
  have hD (x : C.Extranonce) (D : Downstream C) :
      ({ s' with extranoncePrefixFactoryStandard := x } : ChannelManager C).setDownstream d D =
        ({ s with extranoncePrefixFactoryStandard := x } : ChannelManager C).setDownstream d D := by
    obtain rfl | ⟨D₀, rfl⟩ := hs
    · rfl
    · rw [setDownstream, setDownstream, setDownstream, AList.insert_insert]
  rw [exitOpenStandardChannel, hx]
  cases hn : (C.extranonce.nextPrefixStandard s.extranoncePrefixFactoryStandard).1 with
  | error e =>
    rw [attempt, hn]
    rfl
  | ok extranoncePrefix =>
    have ho : ofExcept PoolError.extranonce (.ok extranoncePrefix) = .ok extranoncePrefix := rfl
    simp only [attempt, hn, hD, ho, Exit.after_ok]
    refine Eq.trans ?_ (openStandardChannel.eq_def ..).symm
    dsimp only
    cases C.standard.newForPool (standardParams cfg downstream.channelIdFactory extranoncePrefix msg)
      cfg.poolTagString with
    | ok channel => exact exitStandardChannel_returned
    | error e    =>
      dsimp only
      cases standardChannelErrorCode e <;> rfl

theorem exitOpenStandardMiningChannel_returned (msg : OpenStandardMiningChannel) :
    (s.exitOpenStandardMiningChannel cfg d msg).returned =
      s.handleOpenStandardMiningChannel cfg d msg := by
  apply Exit.returned_after
  intro downstream _
  split
  case isTrue => rfl
  case isFalse =>
    apply Exit.returned_after
    intro template _
    apply Exit.returned_after
    intro prevHash _
    rw [ensureGroupChannel]
    split
    case isTrue =>
      dsimp only
      rw [bind_assoc]
      apply Exit.returned_after
      intro group _
      exact exitOpenStandardChannel_returned (.inr ⟨_, setDownstream_setDownstream⟩)
    case isFalse => exact exitOpenStandardChannel_returned (.inl rfl)

theorem exitExtendedChannel_returned {channel : C.Extended} {channelId : ChannelId}
    {msg : OpenExtendedMiningChannel} :
    ((s.setDownstream d D).exitExtendedChannel cfg d downstream channel channelId msg).returned =
      s.startExtendedChannel cfg d downstream channel channelId msg := by
  apply Exit.returned_after
  intro extranoncePrefix _
  apply Exit.returned_after
  intro prevHash _
  apply Exit.returned_after
  intro template _
  apply Exit.returned_after
  intro r _
  apply Exit.returned_after
  intro vardiff _
  rw [Exit.returned_ok, setDownstream_setDownstream]
  rfl

theorem exitOpenExtendedMiningChannel_returned (msg : OpenExtendedMiningChannel) :
    (s.exitOpenExtendedMiningChannel cfg d msg).returned =
      s.handleOpenExtendedMiningChannel cfg d msg := by
  apply Exit.returned_after
  intro downstream _
  dsimp only
  cases (C.extranonce.nextPrefixExtended s.extranoncePrefixFactoryExtended
    msg.minExtranonceSize.toNat).1 with
  | error => rfl
  | ok extranoncePrefix =>
    refine Eq.trans ?_ (openExtendedChannel.eq_def ..).symm
    dsimp only
    cases C.extended.newForPool (extendedParams cfg downstream.channelIdFactory extranoncePrefix msg)
      true msg.minExtranonceSize cfg.poolTagString with
    | ok channel => exact exitExtendedChannel_returned
    | error e    =>
      dsimp only
      cases extendedChannelErrorCode e <;> rfl

theorem exitCloseChannel_returned (msg : CloseChannel) :
    (s.exitCloseChannel d msg).returned = s.handleCloseChannel d msg := by
  apply Exit.returned_after
  intro downstream _
  rfl

section Shares

variable {κ μ ω ε : Type} (S : ShareChannels κ μ ω ε) (channel : κ) (share : ShareFields)

theorem reportShare_eq (errorCode : ShareValidationError → Option String) (outcome : ShareOutcome) :
    reportShare d S channel share C errorCode outcome =
      (shareReport S channel share d C errorCode outcome).result := by
  cases outcome with
  | ok r =>
    cases r with
    | valid => rfl
    | blockFound _ templateId coinbase =>
      simp only [reportShare, shareReport, Report.result]
      cases submitSolution share templateId coinbase <;> rfl
  | error e =>
    simp only [reportShare, shareReport]
    cases errorCode e <;> rfl

theorem exitSubmitShares_returned (errorCode : ShareValidationError → Option String)
    (channels : Map ChannelId κ) (set : Map ChannelId κ → Downstream C) (msg : ω) :
    (s.exitSubmitShares d S share errorCode channels set msg).returned =
      s.submitShares d S share errorCode channels set msg := by
  rw [exitSubmitShares, submitShares]
  cases channels.lookup share.channelId with
  | none         => rfl
  | some channel =>
    apply Exit.returned_after
    intro vardiff _
    dsimp only
    rw [reportShare_eq, Report.result, Exit.returned]
    cases (shareReport S (S.validateShare channel msg).2 share d C errorCode
      (S.validateShare channel msg).1).messages <;> rfl

end Shares

theorem exitSubmitSharesStandard_returned (msg : SubmitSharesStandard) :
    (s.exitSubmitSharesStandard d msg).returned = s.handleSubmitSharesStandard d msg := by
  apply Exit.returned_after
  intro downstream _
  apply exitSubmitShares_returned

theorem exitSubmitSharesExtended_returned (msg : SubmitSharesExtended) :
    (s.exitSubmitSharesExtended d msg).returned = s.handleSubmitSharesExtended d msg := by
  apply Exit.returned_after
  intro _ _
  apply Exit.returned_after
  intro downstream _
  apply exitSubmitShares_returned

theorem exitUpdateChannel_returned (msg : UpdateChannel) :
    (s.exitUpdateChannel d msg).returned = s.handleUpdateChannel d msg := by
  apply Exit.returned_after
  intro downstream _
  dsimp only
  cases downstream.standardChannels.lookup msg.channelId with
  | some channel =>
    apply Exit.returned_after
    intro r _
    rfl
  | none =>
    cases downstream.extendedChannels.lookup msg.channelId with
    | none         => rfl
    | some channel =>
      apply Exit.returned_after
      intro r _
      rfl

theorem exitSetCustomMiningJob_returned (msg : SetCustomMiningJob) :
    (s.exitSetCustomMiningJob cfg d msg).returned = s.handleSetCustomMiningJob cfg d msg := by
  apply Exit.returned_after
  intro outputs _
  split
  case isTrue  => rfl
  case isFalse =>
    apply Exit.returned_after
    intro downstream _
    dsimp only
    cases downstream.extendedChannels.lookup msg.channelId with
    | none         => rfl
    | some channel =>
      apply Exit.returned_after
      intro r _
      rfl

-- Where a handler ends with a value it has made of its data what the handlers above say.
theorem exitMiningMessageFromClient_returned (m : Mining) :
    (s.exitMiningMessageFromClient cfg d m).returned = s.handleMiningMessageFromClient cfg d m := by
  cases m
  case openStandardMiningChannel => exact exitOpenStandardMiningChannel_returned _
  case openExtendedMiningChannel => exact exitOpenExtendedMiningChannel_returned _
  case updateChannel             => exact exitUpdateChannel_returned _
  case closeChannel              => exact exitCloseChannel_returned _
  case submitSharesStandard      => exact exitSubmitSharesStandard_returned _
  case submitSharesExtended      => exact exitSubmitSharesExtended_returned _
  case setCustomMiningJob        => exact exitSetCustomMiningJob_returned _
  all_goals rfl

end Returned

end ChannelManager

end Pool
