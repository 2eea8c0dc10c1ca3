import StratumApps.JobDeclaratorClient.Tolerance
import StratumApps.JobDeclaratorClient.Works

open Sv2 Handler StratumCore

namespace Jdc

variable {C : StratumCore} {cfg : Config}

namespace ChannelManager

variable {s s' s₁ : ChannelManager C} {o : Outcome C} {request : PendingChannelRequest}
variable {requests : List PendingChannelRequest} {messages : List RouteMessageTo}
variable {downstream : Map DownstreamId (Downstream C)}

-- The requests that the loop over the waiting ones hands to their handlers.
def handed (cfg : Config) : List PendingChannelRequest → ChannelManager C → List PendingChannelRequest
  | [], _                  => []
  | request :: requests, s =>
    request :: match s.handleMiningMessageFromClient cfg request.downstreamId request.message with
    | .ok r    => handed cfg requests r.manager
    | .error _ => []

def connected (downstream : Map DownstreamId (Downstream C)) (requests : List PendingChannelRequest) :
    List PendingChannelRequest :=
  requests.filter (·.downstreamId ∈ downstream)

-- The handler of the request opens a channel, or refuses it with a code of the protocol.
def Opens (s : ChannelManager C) (cfg : Config) : PendingChannelRequest → Prop
  | .standardChannel d msg =>
    ∃ outputs, C.deserializeOutputs s.coinbaseOutputs = .ok outputs ∧
      ∃ t, s.lastFutureTemplate = some t ∧ ∃ p, s.lastNewPrevHash = some p ∧
        ∃ D, s.downstream.lookup d = some D ∧ s.OpensStandard cfg D msg t p outputs
  | .extendedChannel d msg =>
    ∃ t, s.lastFutureTemplate = some t ∧ ∃ p, s.lastNewPrevHash = some p ∧
      ∃ D, s.downstream.lookup d = some D ∧ s.OpensExtended cfg D msg t p

-- A request may fail only when no downstream that is still there waits behind it.
def Drains (cfg : Config) : List PendingChannelRequest → ChannelManager C → Prop
  | [], _                  => True
  | request :: requests, s =>
    connected s.downstream requests ≠ [] → s.Opens cfg request ∧
      ∀ r, s.handleMiningMessageFromClient cfg request.downstreamId request.message = .ok r →
        Drains cfg requests r.manager

theorem opens_iff : s.Opens cfg request ↔
    Returns (s.handleMiningMessageFromClient cfg request.downstreamId request.message) := by
  cases request with
  | standardChannel => exact returns_handleOpenStandardMiningChannel.symm
  | extendedChannel => exact returns_handleOpenExtendedMiningChannel.symm

-- What comes of requests that are handed to their handlers: each handler runs once, in the state that
-- the one before has left. The last one may fail.
inductive HandsOver (cfg : Config) : List PendingChannelRequest → ChannelManager C →
    List RouteMessageTo → Result C → Prop
  | nil {s : ChannelManager C} {messages : List RouteMessageTo} :
    HandsOver cfg [] s messages (.ok { manager := s, messages := messages })
  | cons {s : ChannelManager C} {messages : List RouteMessageTo} {request : PendingChannelRequest}
    {requests : List PendingChannelRequest} {o : Outcome C} {x : Result C} :
    s.handleMiningMessageFromClient cfg request.downstreamId request.message = .ok o →
    HandsOver cfg requests o.manager (messages ++ o.messages) x →
    HandsOver cfg (request :: requests) s messages x
  | err {s : ChannelManager C} {messages : List RouteMessageTo} {request : PendingChannelRequest}
    {e : JDCError} :
    s.handleMiningMessageFromClient cfg request.downstreamId request.message = .error (.err e) →
    HandsOver cfg [request] s messages (.ok { manager := s, messages := messages, error := some e })
  | panic {s : ChannelManager C} {messages : List RouteMessageTo} {request : PendingChannelRequest}
    {msg : String} :
    s.handleMiningMessageFromClient cfg request.downstreamId request.message =
      .error (.panicked msg) →
    HandsOver cfg [request] s messages (.error (.panicked msg))

theorem openPending_handsOver :
    HandsOver cfg (handed cfg requests s) s messages (openPending cfg requests s messages) := by
  induction requests generalizing s messages with
  | nil => exact .nil
  | cons request requests ih =>
    rw [handed, openPending]
    cases h : s.handleMiningMessageFromClient cfg request.downstreamId request.message with
    | ok o    => exact .cons h ih
    | error e =>
      cases e with
      | err      => exact .err h
      | panicked => exact .panic h

theorem connected_congr {downstream' : Map DownstreamId (Downstream C)}
    (h : ∀ d, d ∈ downstream' ↔ d ∈ downstream) :
    connected downstream' requests = connected downstream requests := by
  simp only [connected, h]

theorem handed_sublist : (handed cfg requests s).Sublist requests := by
  induction requests generalizing s with
  | nil => exact .slnil
  | cons request requests ih =>
    rw [handed]
    split
    case h_1 => exact ih.cons_cons _
    case h_2 => exact (List.nil_sublist _).cons_cons _

theorem connected_cons : connected downstream (request :: requests) =
    (if request.downstreamId ∈ downstream then [request] else []) ++
      connected downstream requests := by
  rw [connected, connected, List.filter_cons]
  split <;> simp_all

theorem connected_eq_nil {requests' : List PendingChannelRequest} (h : requests'.Sublist requests)
    (hn : connected downstream requests = []) : connected downstream requests' = [] :=
  List.sublist_nil.mp (hn ▸ h.filter _)

-- All requests of downstreams that are still there are handed over exactly when none of those that
-- come before one of them fails.
theorem connected_handed :
    connected s.downstream (handed cfg requests s) = connected s.downstream requests ↔
      Drains cfg requests s := by
  induction requests generalizing s with
  | nil => simp [handed, Drains]
  | cons request requests ih =>
    rw [handed, Drains, connected_cons, connected_cons, List.append_cancel_left_eq]
    by_cases hn : connected s.downstream requests = []
    case pos =>
      refine iff_of_true ?_ (absurd hn)
      rw [hn]
      split
      case h_1 => exact connected_eq_nil handed_sublist hn
      case h_2 => rfl
    case neg =>
      simp only [hn, ne_eq, not_false_eq_true, true_imp_iff, opens_iff]
      cases hr : s.handleMiningMessageFromClient cfg request.downstreamId request.message with
      | error => simpa [Returns, connected] using Ne.symm hn
      | ok r  =>
        have hm := (handleMiningMessageFromClient_handled hr).mem
        simp only [Returns, Except.ok.injEq, exists_eq', true_and, forall_eq']
        rw [← ih, connected_congr hm, connected_congr hm]

-- No request waits for a channel that nobody asks for.
def Queued (s : ChannelManager C) : Prop :=
  s.upstreamState = .noChannel → s.pendingDownstreamRequests = []

theorem Queued.congr (h : s.Queued) (hq : s'.queue = s.queue) : s'.Queued := by
  obtain ⟨hu, hp⟩ := Prod.ext_iff.mp hq
  rw [Queued, show s'.upstreamState = s.upstreamState from hu,
    show s'.pendingDownstreamRequests = s.pendingDownstreamRequests from hp]
  exact h

theorem requestChannel_queued {upstreamOpen : RouteMessageTo} (hq : s.Queued)
    (h : s.requestChannel cfg request upstreamOpen = .ok o) : o.manager.Queued := by
  rw [requestChannel] at h
  split at h
  case h_1 =>
    cases pure_eq_ok.mp h
    exact fun hn => by cases hn
  case h_2 hs =>
    cases pure_eq_ok.mp h
    intro hn
    cases hs.symm.trans hn
  case h_3 => exact hq.congr (handleMiningMessageFromClient_handled h).queue
  case h_4 => exact hq.congr (handleMiningMessageFromClient_handled h).queue

theorem handleDownstreamMessage_queued {d : DownstreamId} {m : Mining} (hq : s.Queued)
    (h : s.handleDownstreamMessage cfg d m = .ok o) : o.manager.Queued := by
  rw [handleDownstreamMessage.eq_def] at h
  split at h
  case h_1 => exact requestChannel_queued hq h
  case h_2 => exact requestChannel_queued hq h
  case h_3 => exact hq.congr (handleMiningMessageFromClient_handled h).queue

theorem established_downstream {msg : OpenExtendedMiningChannelSuccess}
    {r : ChannelManager C × List RouteMessageTo} (h : s.established cfg msg = some r) :
    r.1.downstream = s.downstream ∧ r.1.queue = (.connected, []) := by
  obtain ⟨_, _, _, _, _, s', _, _, _, _, _, hc, hr, _⟩ := established_eq_some h
  obtain ⟨_, _, _, rfl⟩ := hc.frame
  rw [hr]
  exact ⟨rfl, rfl⟩

theorem handleTemplateDistributionMessageFromServer_queue {m : TemplateDistribution}
    (h : s.handleTemplateDistributionMessageFromServer cfg m = .ok o) :
    o.manager.queue = s.queue := by
  rw [handleTemplateDistributionMessageFromServer.eq_def] at h
  split at h
  case h_1 =>
    obtain ⟨_, _, _, _, _, _, _, ht, hm, _⟩ := handleNewTemplate_eq_ok h
    obtain ⟨_, _, _, _, rfl⟩ := ht.frame
    obtain ⟨_, hr⟩ := renewToken_frame
    rw [hm, hr]
    rfl
  case h_2 =>
    obtain ⟨_, _, _, _, _, hc, hm, _⟩ := handleSetNewPrevHash_eq_ok h
    obtain ⟨_, _, _, rfl⟩ := hc.frame
    obtain ⟨_, hr⟩ := renewToken_frame
    rw [hm, hr]
    rfl
  case h_3 =>
    rw [handleRequestTxDataError] at h
    split at h
    case isTrue =>
      cases pure_eq_ok.mp h
      rfl
    case isFalse => cases h
  case h_4 =>
    obtain ⟨hd, _⟩ := handleRequestTxDataSuccess_declared h
    generalize declarations o.messages = jobs, o.manager = s' at hd
    cases hd <;> rfl
  case h_5 => cases h

theorem handleJobDeclarationMessageFromServer_queue {m : JobDeclaration}
    (h : s.handleJobDeclarationMessageFromServer m = .ok o) : o.manager.queue = s.queue := by
  rw [handleJobDeclarationMessageFromServer.eq_def] at h
  split at h
  case h_1 =>
    rw [(handleAllocateMiningJobTokenSuccess_frame h).left]
    rfl
  case h_2 =>
    cases pure_eq_ok.mp h
    rfl
  case h_3 =>
    obtain ⟨_, _, _, _, ⟨_, _, _, hm⟩ | ⟨_, _, _, hm⟩⟩ := handleDeclareMiningJobSuccess_frame h <;>
      rw [hm] <;> rfl
  case h_4 => rw [(handleProvideMissingTransactions_frame h).left]
  case h_5 => cases h

end ChannelManager

namespace System

-- An answer of the upstream after which no channel is there.
def Closes (cfg : Config) (s : ChannelManager C) (msg : OpenExtendedMiningChannelSuccess) : Prop :=
  (∃ outputs, C.deserializeOutputs s.coinbaseOutputs = .ok outputs) ∧ s.established cfg msg = none

-- Waiting requests are handed to their handlers when the upstream channel is there, and what comes of
-- the message is what comes of them. They are all those of the downstreams that are still there, each
-- of them once. No request waits when nobody asks for a channel.
structure Drained (cfg : Config) (s : ChannelManager C) (a : Action) (s' : ChannelManager C) :
    Prop where
  handsOver : ∀ msg r, a = .poolMessage (.openExtendedMiningChannelSuccess msg) →
    s.established cfg msg = some r →
    ChannelManager.HandsOver cfg (ChannelManager.handed cfg s.pendingDownstreamRequests r.1) r.1 r.2
      (s.handleOpenExtendedMiningChannelSuccess cfg msg)
  post      : ∀ msg o, a = .poolMessage (.openExtendedMiningChannelSuccess msg) →
    s.handleOpenExtendedMiningChannelSuccess cfg msg = .ok o → s' = o.manager
  handed    : ∀ msg r, a = .poolMessage (.openExtendedMiningChannelSuccess msg) →
    s.established cfg msg = some r →
    ChannelManager.connected s.downstream
        (ChannelManager.handed cfg s.pendingDownstreamRequests r.1) =
      ChannelManager.connected s.downstream s.pendingDownstreamRequests
  queued    : s'.Queued

-- The condition: no request fails before one of a downstream that is still there, and the requests
-- do not outlive what they wait for.
def Drainable (cfg : Config) (s : ChannelManager C) : Action → Prop
  | .poolMessage (.openExtendedMiningChannelSuccess msg) =>
    (∀ r, s.established cfg msg = some r →
      ChannelManager.Drains cfg s.pendingDownstreamRequests r.1) ∧
    (Closes cfg s msg → s.pendingDownstreamRequests = [])
  | .setUpstreamState .noChannel => s.pendingDownstreamRequests = []
  | _                            => True

section Manager

variable {s s' : ChannelManager C} {o : Outcome C} {msg : OpenExtendedMiningChannelSuccess}

theorem reset_queued {coinbaseOutputs : Bytes} (h : s.reset coinbaseOutputs = .ok s') :
    s'.Queued := by
  simp only [ChannelManager.reset, bind_eq_ok, pure_eq_ok] at h
  obtain ⟨_, _, rfl⟩ := h
  exact fun _ => rfl

theorem drains_iff {r : ChannelManager C × List RouteMessageTo}
    (h : s.established cfg msg = some r) :
    ChannelManager.Drains cfg s.pendingDownstreamRequests r.1 ↔
      ChannelManager.connected s.downstream
          (ChannelManager.handed cfg s.pendingDownstreamRequests r.1) =
        ChannelManager.connected s.downstream s.pendingDownstreamRequests := by
  rw [← ChannelManager.connected_handed, (ChannelManager.established_downstream h).left]

theorem handsOver_of_established {r : ChannelManager C × List RouteMessageTo}
    (h : s.established cfg msg = some r) :
    ChannelManager.HandsOver cfg (ChannelManager.handed cfg s.pendingDownstreamRequests r.1) r.1 r.2
      (s.handleOpenExtendedMiningChannelSuccess cfg msg) := by
  rw [ChannelManager.handleOpenExtendedMiningChannelSuccess_some h]
  exact ChannelManager.openPending_handsOver

theorem closes_returns (h : Closes cfg s msg) :
    ∃ o, s.handleOpenExtendedMiningChannelSuccess cfg msg = .ok o := by
  obtain ⟨⟨outputs, ho⟩, hn⟩ := h
  rw [ChannelManager.handleOpenExtendedMiningChannelSuccess, ho]
  cases hr : s.pendingDownstreamRequests.head? with
  | none => exact ⟨_, rfl⟩
  | some request =>
    cases hx : ChannelManager.newExtranonces (C := C) msg.extranoncePrefix.1
        (msg.extranoncePrefix.1.length + msg.extranonceSize.toNat) with
    | error => exact ⟨_, rfl⟩
    | ok    => simp [ChannelManager.established, ho, hr, hx, Except.toOption] at hn

-- Where no answer closes the channel again, all is said by what the loop hands over.
theorem drained_of_queued {a : Action} (hq : s'.Queued)
    (ho : ∀ msg, a = .poolMessage (.openExtendedMiningChannelSuccess msg) → ¬Closes cfg s msg ∧
      ∀ o, s.handleOpenExtendedMiningChannelSuccess cfg msg = .ok o → s' = o.manager)
    (hs : a ≠ .setUpstreamState .noChannel) : Drained cfg s a s' ↔ Drainable cfg s a := by
  rw [Drainable.eq_def]
  split
  case h_1 msg =>
    obtain ⟨hn, hp⟩ := ho msg rfl
    refine ⟨fun h => ⟨fun r hr => (drains_iff hr).mpr (h.handed msg r rfl hr),
      fun hc => absurd hc hn⟩, ?_⟩
    rintro ⟨hd, _⟩
    refine ⟨fun msg' r hm hr => ?_, fun msg' o hm h => ?_, fun msg' r hm hr => ?_, hq⟩
    · exact handsOver_of_established hr
    · cases hm
      exact hp o h
    · cases hm
      exact (drains_iff hr).mp (hd r hr)
  case h_2 => exact absurd rfl hs
  case h_3 hm _ =>
    exact iff_of_true ⟨fun msg _ h => absurd h (hm msg), fun msg _ h => absurd h (hm msg),
      fun msg _ h => absurd h (hm msg), hq⟩ trivial

theorem drained_open (h : s.handleOpenExtendedMiningChannelSuccess cfg msg = .ok o) :
    Drained cfg s (.poolMessage (.openExtendedMiningChannelSuccess msg)) o.manager ↔
      Drainable cfg s (.poolMessage (.openExtendedMiningChannelSuccess msg)) := by
  cases he : s.established cfg msg with
  | some r =>
    have hh := ChannelManager.handleOpenExtendedMiningChannelSuccess_some he
    obtain ⟨_, hr, _⟩ := ChannelManager.openPending_serves (hh.symm.trans h)
    have hu := congrArg Prod.fst (hr.trans (ChannelManager.established_downstream he).right)
    refine drained_of_queued (fun hn => ?_) (fun msg' hm => ⟨fun hc => ?_, fun o' h' => ?_⟩) (by simp)
    · cases hn.symm.trans hu
    · cases hm
      cases hc.right.symm.trans he
    · cases hm
      cases h.symm.trans h'
      rfl
  | none =>
    have ho := (ChannelManager.handleOpenExtendedMiningChannelSuccess_none he h).left
    have hc : Closes cfg s msg := by
      simp only [ChannelManager.handleOpenExtendedMiningChannelSuccess, bind_eq_ok,
        ofExcept_eq_ok] at h
      obtain ⟨outputs, hd, _⟩ := h
      exact ⟨⟨outputs, hd⟩, he⟩
    constructor
    case mp =>
      intro h
      refine ⟨fun r hr => ?_, fun _ => ?_⟩
      · cases he.symm.trans hr
      · have hq := h.queued
        rw [ho] at hq
        exact hq rfl
    case mpr =>
      rintro ⟨_, hp⟩
      refine ⟨fun msg' r hm hr => ?_, fun msg' o' hm h' => ?_, fun msg' r hm hr => ?_, ?_⟩
      · exact handsOver_of_established hr
      · cases hm
        cases h.symm.trans h'
        rfl
      · cases hm
        cases he.symm.trans hr
      · rw [ho]
        exact fun _ => hp hc

theorem drained_iff {a : Action} {messages : List RouteMessageTo} (hq : s.Queued)
    (h : Acts cfg s a s' messages) : Drained cfg s a s' ↔ Drainable cfg s a := by
  have kept (hs : s'.queue = s.queue)
      (ho : ∀ msg, a ≠ .poolMessage (.openExtendedMiningChannelSuccess msg))
      (ha : a ≠ .setUpstreamState .noChannel) : Drained cfg s a s' ↔ Drainable cfg s a :=
    drained_of_queued (hq.congr hs) (fun msg h => absurd h (ho msg)) ha
  cases h with
  | connect   => exact kept rfl (by simp) (by simp)
  | setup     => exact kept rfl (by simp) (by simp)
  | negotiate => exact kept rfl (by simp) (by simp)
  | shutdown  => exact kept rfl (by simp) (by simp)
  | stuck     => exact kept rfl (by simp) (by simp)
  | mode      => exact kept rfl (by simp) (by simp)
  | token     => exact kept rfl (by simp) (by simp)
  | fallback h => exact drained_of_queued (reset_queued h) (by simp) (by simp)
  | @state state =>
    cases state with
    | noChannel =>
      exact ⟨fun h => h.queued rfl, fun h => ⟨by simp, by simp, by simp, fun _ => h⟩⟩
    | _ => exact drained_of_queued (fun hn => by cases hn) (by simp) (by simp)
  | fails h =>
    refine drained_of_queued hq (fun msg ha => ⟨fun hc => ?_, fun o ho => ?_⟩) (fun ha => ?_)
    · subst ha
      obtain ⟨o, ho⟩ := closes_returns hc
      cases ho.symm.trans (Option.some.inj h)
    · subst ha
      cases ho.symm.trans (Option.some.inj h)
    · subst ha
      cases h
  | @handled a o h =>
    cases a with
    | downstreamMessage d m =>
      have hq := ChannelManager.handleDownstreamMessage_queued hq (Option.some.inj h)
      exact drained_of_queued hq (by simp) (by simp)
    | poolMessage m =>
      have h := Option.some.inj h
      by_cases ho : ∃ msg, m = .openExtendedMiningChannelSuccess msg
      case pos =>
        obtain ⟨msg, rfl⟩ := ho
        exact drained_open h
      case neg =>
        refine kept ?_ (fun msg ha => ho ⟨msg, by simpa using ha⟩) (by simp)
        by_cases hj : ∃ msg, m = .setCustomMiningJobSuccess msg
        case pos =>
          obtain ⟨msg, rfl⟩ := hj
          obtain ⟨hm | ⟨_, _, _, hm⟩, _⟩ := ChannelManager.handleSetCustomMiningJobSuccess_frame h
          · rw [hm]
          · rw [hm]
            rfl
        case neg =>
          obtain ⟨_, _, _, _, hm, _⟩ := ChannelManager.handleMiningMessageFromServer_frame
            (fun msg h => ho ⟨msg, h⟩) (fun msg h => hj ⟨msg, h⟩) h
          rw [hm]
          rfl
    | extensionsMessage m =>
      obtain ⟨_, hm, _⟩ := ChannelManager.handleExtensionsMessageFromServer_frame (Option.some.inj h)
      exact kept (by rw [hm]; rfl) (by simp) (by simp)
    | jdsMessage m =>
      refine kept ?_ (by simp) (by simp)
      exact ChannelManager.handleJobDeclarationMessageFromServer_queue (Option.some.inj h)
    | templateMessage m =>
      refine kept ?_ (by simp) (by simp)
      exact ChannelManager.handleTemplateDistributionMessageFromServer_queue (Option.some.inj h)
    | vardiff =>
      obtain ⟨_, _, hm, _⟩ := ChannelManager.runVardiff_frame (Option.some.inj h)
      exact kept (by rw [hm]; rfl) (by simp) (by simp)
    | _ => cases h

end Manager

variable {s : System C} {tr : List (Machine.Event (System C) Action)}

theorem drained_iff_drainable (r : (machine C cfg).Run tr s) :
    (∀ e ∈ tr, Drained cfg e.pre.manager e.act e.post.manager) ↔
      Machine.Along (fun s a => Drainable cfg s.manager a) tr := by
  have step (s : System C) (a : Action) (s' : System C) (hq : s.manager.Queued)
      (hs : s.step cfg a = some s') :
      Drained cfg s.manager a s'.manager ↔ Drainable cfg s.manager a := by
    obtain ⟨_, h, _⟩ := acts_of_step hs
    exact drained_iff hq h
  refine r.forall_iff_along (I := fun s => s.manager.Queued) (fun s h _ => ?_) step
    fun s a s' hq hc hs => ?_
  · exact h.pendingDownstreamRequests
  · exact ((step s a s' hq hs).mpr hc).queued

-- The condition on concrete inputs.
def handsAll (cfg : Config) (s : ChannelManager C) (msg : OpenExtendedMiningChannelSuccess) : Bool :=
  (s.established cfg msg).all fun r =>
    ChannelManager.connected s.downstream
        (ChannelManager.handed cfg s.pendingDownstreamRequests r.1) =
      ChannelManager.connected s.downstream s.pendingDownstreamRequests

def drains (cfg : Config) (s : ChannelManager C) : Action → Bool
  | .poolMessage (.openExtendedMiningChannelSuccess msg) =>
    handsAll cfg s msg && ((s.established cfg msg).isSome || s.pendingDownstreamRequests = [])
  | .setUpstreamState .noChannel => s.pendingDownstreamRequests = []
  | _                            => true

theorem handsAll_iff {s : ChannelManager C} {msg : OpenExtendedMiningChannelSuccess} :
    handsAll cfg s msg ↔ ∀ r, s.established cfg msg = some r →
      ChannelManager.connected s.downstream
          (ChannelManager.handed cfg s.pendingDownstreamRequests r.1) =
        ChannelManager.connected s.downstream s.pendingDownstreamRequests := by
  simp [handsAll, Option.all_eq_true]

theorem drainable_of_drains {s : ChannelManager C} {a : Action} (h : drains cfg s a) :
    Drainable cfg s a := by
  rw [drains.eq_def] at h
  split at h
  case h_1 msg =>
    obtain ⟨hh, hp⟩ := Bool.and_eq_true_iff.mp h
    refine ⟨fun r hr => (drains_iff hr).mpr (handsAll_iff.mp hh r hr), fun hc => ?_⟩
    rw [hc.right] at hp
    exact of_decide_eq_true hp
  case h_2 =>
    have hp : s.pendingDownstreamRequests = [] := of_decide_eq_true h
    exact hp
  case h_3 ho hs =>
    rw [Drainable.eq_def]
    split
    case h_1 => exact absurd rfl (ho _)
    case h_2 => exact absurd rfl hs
    case h_3 => trivial

end System

namespace Waiting

open Sample

-- Two downstreams wait for the upstream channel.
def waiting : List Action :=
  [.setUpstreamState .noChannel, future 1, prevHash 1, .connect, .connect, openExtended 0,
    openExtended 1]

-- The first of them goes before the channel is there.
theorem vanished_exec : ((machine reference (config [] [])).exec (start rewardOutputs)
    (waiting ++ [.downstreamShutdown 0])).any fun s =>
      (s.step (config [] []) opened).isSome && !System.handsAll (config [] []) s.manager success := by
  decide +kernel

theorem served_exec : ((machine reference (config [] [])).exec (start rewardOutputs)
    (waiting ++ [opened])).any fun s =>
      s.manager.downstream.entries.map (fun e => (e.1, e.2.extendedChannels.entries.length)) =
        [(1, 1), (0, 1)] := by
  decide +kernel

theorem served_drains : ((machine reference (config [] [])).trace (start rewardOutputs)
    (waiting ++ [opened])).all fun e => System.drains (config [] []) e.pre.manager e.act := by
  decide +kernel

end Waiting

open Sample Waiting in
theorem not_drained : ¬∀ tr s, (machine reference (config [] [])).Run tr s →
    ∀ e ∈ tr, System.Drained (config [] []) e.pre.manager e.act e.post.manager := by
  intro h
  obtain ⟨s, hs, hd⟩ := Option.any_eq_true _ _ |>.mp vanished_exec
  obtain ⟨hst, hd⟩ := Bool.and_eq_true_iff.mp hd
  obtain ⟨s', hst⟩ := Option.isSome_iff_exists.mp hst
  have r := (Machine.Run.of_exec start_init hs).snoc hst
  have hd' := System.handsAll_iff.mpr fun r' =>
    (h _ _ r _ List.mem_concat_self).handed success r' rfl
  rw [hd'] at hd
  cases hd

open Sample Waiting in
theorem drained_iff_drainable_sample : ∃ tr s, (machine reference (config [] [])).Run tr s ∧
    s.manager.downstream.entries.map (fun e => (e.1, e.2.extendedChannels.entries.length)) =
      [(1, 1), (0, 1)] ∧
    ∀ e ∈ tr, System.Drained (config [] []) e.pre.manager e.act e.post.manager := by
  obtain ⟨s, hs, hl⟩ := Option.any_eq_true _ _ |>.mp served_exec
  have r := Machine.Run.of_exec start_init hs
  refine ⟨_, s, r, of_decide_eq_true hl, (System.drained_iff_drainable r).mpr fun e he => ?_⟩
  exact System.drainable_of_drains (List.all_eq_true.mp served_drains e he)

end Jdc
