import StratumApps.JobDeclaratorClient.System

open Sv2 Handler StratumCore

namespace Jdc

variable {C : StratumCore} {cfg : Config} {d : DownstreamId} {mode : JdMode}
variable {messages : List RouteMessageTo}

-- What the manager knows of templates and of their declaration.
structure Work (C : StratumCore) where
  requestIdFactory          : RequestId
  lastFutureTemplate        : Option NewTemplate
  lastNewPrevHash           : Option SetNewPrevHash
  allocateTokens            : Option AllocateMiningJobTokenSuccess
  templateStore             : Map TemplateId NewTemplate
  lastDeclareJobStore       : Map RequestId DeclaredJob
  templateIdToUpstreamJobId : Map TemplateId UpstreamJobId
  coinbaseOutputs           : Bytes
  poolTagString             : Option String
  jobFactory                : Option C.JobFactory
  negotiatedExtensions      : List UInt16
  jdMode                    : JdMode

def ChannelManager.work (s : ChannelManager C) : Work C where
  requestIdFactory          := s.requestIdFactory
  lastFutureTemplate        := s.lastFutureTemplate
  lastNewPrevHash           := s.lastNewPrevHash
  allocateTokens            := s.allocateTokens
  templateStore             := s.templateStore
  lastDeclareJobStore       := s.lastDeclareJobStore
  templateIdToUpstreamJobId := s.templateIdToUpstreamJobId
  coinbaseOutputs           := s.coinbaseOutputs
  poolTagString             := s.poolTagString
  jobFactory                := s.jobFactory
  negotiatedExtensions      := s.negotiatedExtensions
  jdMode                    := s.jdMode

-- The messages that the manager sends because of a message of a downstream.
def RouteMessageTo.Serves (d : DownstreamId) : RouteMessageTo → Prop
  | downstream d' _                       => d' = d
  | upstream (.openExtendedMiningChannel _) => True
  | upstream (.updateChannel _)             => True
  | upstream (.submitSharesExtended _)      => True
  | jobDeclarator (.pushSolution _)       => True
  | templateProvider (.submitSolution _)  => True
  | _                                     => False

-- The open requests that wait for the channel of the upstream, and how far that is.
def ChannelManager.queue (s : ChannelManager C) : UpstreamState × List PendingChannelRequest :=
  (s.upstreamState, s.pendingDownstreamRequests)

-- What a message of a downstream leaves alone: the work, and the other downstreams.
structure Serves (d : DownstreamId) (s : ChannelManager C) (o : Outcome C) : Prop where
  work     : o.manager.work = s.work
  upstream : o.manager.upstreamChannel.isSome = s.upstreamChannel.isSome
  others   : ∀ d', d' ≠ d → o.manager.downstream.lookup d' = s.downstream.lookup d'
  mem      : ∀ d', d' ∈ o.manager.downstream ↔ d' ∈ s.downstream
  messages : ∀ m ∈ o.messages, m.Serves d
  error    : o.error = none

-- One that is handled does not wait, nor lets another wait.
structure Handled (d : DownstreamId) (s : ChannelManager C) (o : Outcome C) : Prop
    extends Serves d s o where
  queue : o.manager.queue = s.queue

theorem mem_of_mem_forward {m : RouteMessageTo} (h : m ∈ forward mode messages) : m ∈ messages :=
  List.mem_of_mem_filter h

namespace ChannelManager

variable {s s' s₁ : ChannelManager C} {o : Outcome C} {D D' : Downstream C}

-- A handler that changes at most its own downstream, and what is not work.
theorem handled_finish (hw : s'.work = s.work) (hq : s'.queue = s.queue)
    (hu : s'.upstreamChannel.isSome = s.upstreamChannel.isSome)
    (hd : s'.downstream = s.downstream ∨ ∃ D', d ∈ s.downstream ∧
      s'.downstream = s.downstream.insert d D')
    (hm : ∀ m ∈ messages, m.Serves d) : Handled d s (s'.finish messages) := by
  refine ⟨⟨hw, hu, fun d' hne => ?_, fun d' => ?_, fun m h => hm m (mem_of_mem_forward h), rfl⟩, hq⟩
  · obtain he | ⟨D', _, he⟩ := hd
    · rw [finish, he]
    · rw [finish, he, AList.lookup_insert_ne hne]
  · obtain he | ⟨D', hd, he⟩ := hd
    · rw [finish, he]
    · rw [finish, he, AList.mem_insert, or_iff_right_iff_imp]
      exact (· ▸ hd)

theorem mem_of_lookup (h : s.downstream.lookup d = some D) : d ∈ s.downstream :=
  Map.mem_iff_lookup.mpr ⟨D, h⟩

theorem handleCloseChannel_handled {msg : CloseChannel}
    (h : s.handleCloseChannel d msg = .ok o) : Handled d s o := by
  simp only [handleCloseChannel, bind_eq_ok, orErr_eq_ok, pure_eq_ok] at h
  obtain ⟨D, hD, rfl⟩ := h
  show Handled d s (finish _ [])
  exact handled_finish rfl rfl rfl (.inr ⟨_, mem_of_lookup hD, rfl⟩) (by simp)

section Open

variable {template : NewTemplate} {prevHash : SetNewPrevHash} {outputs : List TxOut}
variable {channelId : ChannelId}

theorem openStandardChannel_handled {extranoncePrefix : Bytes} {msg : OpenStandardMiningChannel}
    (hd : d ∈ s.downstream)
    (h : s.openStandardChannel cfg d template prevHash outputs D extranoncePrefix msg = .ok o) :
    Handled d s o := by
  simp only [openStandardChannel] at h
  split at h
  case h_1 =>
    simp only [startStandardChannel, bind_eq_ok, pure_eq_ok] at h
    obtain ⟨_, _, _, _, _, _, _, _, _, _, rfl⟩ := h
    refine handled_finish rfl rfl rfl (.inr ⟨_, hd, rfl⟩) ?_
    simp [RouteMessageTo.Serves]
  case h_2 =>
    split at h
    case h_1 =>
      cases pure_eq_ok.mp h
      refine handled_finish rfl rfl rfl (.inr ⟨_, hd, rfl⟩) ?_
      simp [RouteMessageTo.Serves, openMiningChannelError]
    case h_2 => cases h

theorem openExtendedChannel_handled {extranoncePrefix : Bytes} {msg : OpenExtendedMiningChannel}
    (hd : d ∈ s.downstream)
    (h : s.openExtendedChannel cfg d template prevHash D extranoncePrefix msg = .ok o) :
    Handled d s o := by
  simp only [openExtendedChannel] at h
  split at h
  case h_1 =>
    simp only [startExtendedChannel, bind_eq_ok, pure_eq_ok] at h
    obtain ⟨_, _, _, _, _, _, _, _, _, _, _, _, _, _, rfl⟩ := h
    refine handled_finish rfl rfl rfl (.inr ⟨_, hd, rfl⟩) ?_
    simp [RouteMessageTo.Serves]
  case h_2 =>
    split at h
    case h_1 =>
      cases pure_eq_ok.mp h
      refine handled_finish rfl rfl rfl (.inr ⟨_, hd, rfl⟩) ?_
      simp [RouteMessageTo.Serves, openMiningChannelError]
    case h_2 => cases h

-- The frame does not look at the factories of the prefixes.
theorem handled_of_factory (h : Handled d s₁ o) (hw : s₁.work = s.work) (hq : s₁.queue = s.queue)
    (hu : s₁.upstreamChannel = s.upstreamChannel) (hd : s₁.downstream = s.downstream) :
    Handled d s o where
  work     := h.work.trans hw
  upstream := h.upstream.trans (by rw [hu])
  others   := hd ▸ h.others
  mem      := hd ▸ h.mem
  messages := h.messages
  error    := h.error
  queue    := h.queue.trans hq

theorem handleOpenStandardMiningChannel_handled {msg : OpenStandardMiningChannel}
    (h : s.handleOpenStandardMiningChannel cfg d msg = .ok o) : Handled d s o := by
  simp only [handleOpenStandardMiningChannel, bind_eq_ok, orErr_eq_ok] at h
  obtain ⟨_, _, _, _, _, _, D, hD, _, _, _, _, r, _, h⟩ := h
  refine handled_of_factory (openStandardChannel_handled ?_ h) rfl rfl rfl rfl
  exact mem_of_lookup hD

theorem handleOpenExtendedMiningChannel_handled {msg : OpenExtendedMiningChannel}
    (h : s.handleOpenExtendedMiningChannel cfg d msg = .ok o) : Handled d s o := by
  simp only [handleOpenExtendedMiningChannel, bind_eq_ok, orErr_eq_ok] at h
  obtain ⟨_, _, _, _, D, hD, r, _, h⟩ := h
  refine handled_of_factory (openExtendedChannel_handled ?_ h) rfl rfl rfl rfl
  exact mem_of_lookup hD

end Open

theorem updateUpstream_serves {min : Target → Target → Target} :
    ∀ m ∈ s.updateUpstream min, m.Serves d := by
  intro m hm
  obtain ⟨_, _, rfl⟩ := List.mem_map.mp hm
  trivial

section Channels

variable {κ μ ω ε : Type} {S : ShareChannels κ μ ω ε}

theorem updateChannel_serves {errorCode : ε → Option String} {channel : κ} {msg : UpdateChannel} :
    ∀ m ∈ (updateChannel d S errorCode channel msg).2, m.Serves d := by
  rw [updateChannel]
  split
  case h_1 => simp [RouteMessageTo.Serves, setTarget]
  case h_2 e _ _ =>
    cases errorCode e <;> simp [RouteMessageTo.Serves, setTarget, updateChannelError]

theorem handleUpdateChannel_handled {msg : UpdateChannel}
    (h : s.handleUpdateChannel d msg = .ok o) : Handled d s o := by
  rw [handleUpdateChannel] at h
  split at h
  case h_1 =>
    cases pure_eq_ok.mp h
    exact handled_finish rfl rfl rfl (.inl rfl) updateUpstream_serves
  case h_2 D hD =>
    cases pure_eq_ok.mp h
    refine handled_finish rfl rfl rfl (.inr ⟨_, mem_of_lookup hD, rfl⟩) ?_
    rw [List.forall_mem_append]
    refine ⟨?_, updateUpstream_serves⟩
    rw [updateDownstreamChannel]
    split
    case h_1 => exact updateChannel_serves
    case h_2 => exact updateChannel_serves
    case h_3 => simp [RouteMessageTo.Serves, updateChannelError]

theorem answerShare_serves {share : ShareFields} {channel : κ}
    {res : Except ShareValidationError ShareValidationResult} {r : Bool × List RouteMessageTo}
    (h : answerShare d S share channel res = .ok r) : ∀ m ∈ r.2, m.Serves d := by
  rw [answerShare.eq_def] at h
  split at h
  case h_1 =>
    cases pure_eq_ok.mp h
    split <;> simp [RouteMessageTo.Serves, submitSharesSuccess]
  case h_2 =>
    simp only [bind_eq_ok, pure_eq_ok] at h
    obtain ⟨solution, hs, rfl⟩ := h
    rw [submitSolution.eq_def] at hs
    split at hs
    case h_1 =>
      cases pure_eq_ok.mp hs
      simp [RouteMessageTo.Serves, submitSharesSuccess]
    case h_2 =>
      simp only [bind_eq_ok, pure_eq_ok] at hs
      obtain ⟨_, _, rfl⟩ := hs
      simp [RouteMessageTo.Serves, submitSharesSuccess]
  case h_3 =>
    simp only [bind_eq_ok, pure_eq_ok] at h
    obtain ⟨_, _, rfl⟩ := h
    simp [RouteMessageTo.Serves, submitSharesError]

-- What the forwarding of a share may change: the upstream channel, which takes the share too, and
-- the sequence numbers.
structure Forwards (s s' : ChannelManager C) : Prop where
  downstream : s'.downstream = s.downstream
  work       : s'.work = s.work
  queue      : s'.queue = s.queue
  upstream   : s'.upstreamChannel.isSome = s.upstreamChannel.isSome

theorem forwardShare_forwards {share : ShareFields} {prevHash : SetNewPrevHash}
    {solutionExtranonce : Bytes → Bytes → Bytes} {extranoncePrefix : Bytes}
    {r : ChannelManager C × List RouteMessageTo}
    (h : s.forwardShare d share prevHash solutionExtranonce extranoncePrefix = .ok r) :
    Forwards s r.1 ∧ ∀ m ∈ r.2, m.Serves d := by
  rw [forwardShare] at h
  split at h
  case h_1 =>
    cases pure_eq_ok.mp h
    exact ⟨⟨rfl, rfl, rfl, rfl⟩, by simp⟩
  case h_2 upstream hu =>
    obtain ⟨_, _, h⟩ := bind_eq_ok.mp h
    split at h
    case h_1 =>
      cases pure_eq_ok.mp h
      exact ⟨⟨rfl, rfl, rfl, rfl⟩, by simp⟩
    case h_2 =>
      obtain ⟨_, _, h⟩ := bind_eq_ok.mp h
      simp only [validateUpstream] at h
      split at h
      case h_1 =>
        cases pure_eq_ok.mp h
        exact ⟨⟨rfl, rfl, rfl, by simp [sendShare, hu]⟩, by simp [sendShare, RouteMessageTo.Serves]⟩
      case h_2 =>
        simp only [bind_eq_ok, pure_eq_ok] at h
        obtain ⟨_, _, rfl⟩ := h
        exact ⟨⟨rfl, rfl, rfl, by simp [sendShare, hu]⟩,
          by simp [sendShare, pushSolution, RouteMessageTo.Serves]⟩
      case h_3 =>
        simp only [bind_eq_ok, pure_eq_ok] at h
        obtain ⟨_, _, rfl⟩ := h
        exact ⟨⟨rfl, rfl, rfl, by simp [hu]⟩, by simp⟩

theorem submitShares_handled {share : ShareFields}
    {solutionExtranonce : Bytes → Bytes → Bytes → Bytes} {channels : Map ChannelId κ}
    {set : Map ChannelId κ → Downstream C} {prevHash : SetNewPrevHash} {msg : ω}
    (hd : d ∈ s.downstream)
    (h : s.submitShares d S share solutionExtranonce channels set prevHash msg = .ok o) :
    Handled d s o := by
  rw [submitShares] at h
  split at h
  case h_1 =>
    cases pure_eq_ok.mp h
    exact handled_finish rfl rfl rfl (.inl rfl) (by simp [RouteMessageTo.Serves, submitSharesError])
  case h_2 =>
    simp only [bind_eq_ok] at h
    obtain ⟨_, _, r, ha, h⟩ := h
    split at h
    case isTrue =>
      simp only [bind_eq_ok, pure_eq_ok] at h
      obtain ⟨r', hf, rfl⟩ := h
      obtain ⟨hf, hm⟩ := forwardShare_forwards hf
      refine handled_finish hf.work hf.queue hf.upstream (.inr ⟨_, hd, hf.downstream⟩) ?_
      rw [List.forall_mem_append]
      exact ⟨answerShare_serves ha, hm⟩
    case isFalse =>
      cases pure_eq_ok.mp h
      exact handled_finish rfl rfl rfl (.inr ⟨_, hd, rfl⟩) (answerShare_serves ha)

end Channels

theorem handleSubmitSharesStandard_handled {msg : SubmitSharesStandard}
    (h : s.handleSubmitSharesStandard d msg = .ok o) : Handled d s o := by
  simp only [handleSubmitSharesStandard, bind_eq_ok, orErr_eq_ok] at h
  obtain ⟨D, hD, _, _, h⟩ := h
  exact submitShares_handled (mem_of_lookup hD) h

theorem handleSubmitSharesExtended_handled {msg : SubmitSharesExtended}
    (h : s.handleSubmitSharesExtended d msg = .ok o) : Handled d s o := by
  simp only [handleSubmitSharesExtended, bind_eq_ok, orErr_eq_ok] at h
  obtain ⟨_, _, D, hD, _, _, h⟩ := h
  exact submitShares_handled (mem_of_lookup hD) h

theorem handleMiningMessageFromClient_handled {m : Mining}
    (h : s.handleMiningMessageFromClient cfg d m = .ok o) : Handled d s o := by
  rw [handleMiningMessageFromClient.eq_def] at h
  split at h
  case h_1 => exact handleOpenStandardMiningChannel_handled h
  case h_2 => exact handleOpenExtendedMiningChannel_handled h
  case h_3 => exact handleUpdateChannel_handled h
  case h_4 => exact handleCloseChannel_handled h
  case h_5 => exact handleSubmitSharesStandard_handled h
  case h_6 => exact handleSubmitSharesExtended_handled h
  case h_7 => cases h

theorem openUpstream_serves {nominalHashRate : F32} {maxTarget : U256} {minExtranonceSize : UInt16} :
    (openUpstream cfg nominalHashRate maxTarget minExtranonceSize).Serves d := by
  simp [openUpstream, RouteMessageTo.Serves]

theorem requestChannel_serves {request : PendingChannelRequest} {upstreamOpen : RouteMessageTo}
    (hr : request.downstreamId = d) (hm : upstreamOpen.Serves d)
    (h : s.requestChannel cfg request upstreamOpen = .ok o) : Serves d s o := by
  rw [requestChannel] at h
  split at h
  case h_1 =>
    cases pure_eq_ok.mp h
    exact ⟨rfl, rfl, fun _ _ => rfl, fun _ => Iff.rfl, by simpa using hm, rfl⟩
  case h_2 =>
    cases pure_eq_ok.mp h
    exact ⟨rfl, rfl, fun _ _ => rfl, fun _ => Iff.rfl, by simp, rfl⟩
  case h_3 => exact hr ▸ (handleMiningMessageFromClient_handled h).toServes
  case h_4 => exact hr ▸ (handleMiningMessageFromClient_handled h).toServes

theorem handleDownstreamMessage_serves {m : Mining}
    (h : s.handleDownstreamMessage cfg d m = .ok o) : Serves d s o := by
  rw [handleDownstreamMessage.eq_def] at h
  split at h
  case h_1 => exact requestChannel_serves rfl openUpstream_serves h
  case h_2 => exact requestChannel_serves rfl openUpstream_serves h
  case h_3 => exact (handleMiningMessageFromClient_handled h).toServes

end ChannelManager

end Jdc
