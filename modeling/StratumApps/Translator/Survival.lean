import StratumApps.Translator.Reference
import StratumApps.Translator.Sv1.Reference
import StratumApps.Translator.Sv1.Rounds
import StratumApps.Translator.TranslatorSv2

open Sv2 Handler StratumCore

namespace Translator

namespace Sv1.System

variable {C : Core} {cfg : Config} {s s' : System} {d : DownstreamId} {a : Action} {op : ServerOp}

-- A share can be passed on that can be translated, and whose miner, where it has a channel of its own,
-- is still there with a name that fits.
def Passes (C : Core) (cfg : Config) (s : System) (m : SubmitShareWithChannelId) : Prop :=
  ∀ jobVersion, m.jobVersion = some jobVersion →
    (C.buildSv2SubmitShares m.share m.channelId s.server.sequenceCounter jobVersion
      m.versionRollingMask).isSome ∧
    (cfg.aggregateChannels = false → ∃ o, s.getDownstream m.downstreamId = some o ∧
      (C.userIdentityTlv o.data.userIdentity).isSome)

theorem shareTlvs_isOk : (∃ tlvs, s.shareTlvs C cfg d = .ok tlvs) ↔
    (cfg.aggregateChannels = false → ∃ o, s.getDownstream d = some o ∧
      (C.userIdentityTlv o.data.userIdentity).isSome) := by
  rw [shareTlvs]
  cases cfg.aggregateChannels with
  | true  => simp [pure, Except.pure]
  | false =>
    simp only [Bool.false_eq_true, if_false, bind_eq_ok, expect_eq_ok, pure_eq_ok, forall_const]
    constructor
    case mp =>
      rintro ⟨_, o, ho, tlv, ht, _⟩
      exact ⟨o, ho, by simp [ht]⟩
    case mpr =>
      rintro ⟨o, ho, ht⟩
      obtain ⟨tlv, ht⟩ := Option.isSome_iff_exists.mp ht
      exact ⟨some [tlv], o, ho, tlv, ht, rfl⟩

theorem submitShare_isOk {m : SubmitShareWithChannelId} :
    (∃ s', s.submitShare C cfg m = .ok s') ↔ s.Passes C cfg m := by
  rw [submitShare, Passes]
  cases m.jobVersion with
  | none   => exact iff_of_true ⟨s, rfl⟩ fun _ h => by cases h
  | some v =>
    simp only [Option.some.injEq, forall_eq', bind_eq_ok, orErr_eq_ok, pure_eq_ok]
    rw [← shareTlvs_isOk]
    constructor
    case mp =>
      rintro ⟨_, share, hs, tlvs, ht, _⟩
      exact ⟨by simp [hs], tlvs, ht⟩
    case mpr =>
      rintro ⟨hs, tlvs, ht⟩
      obtain ⟨share, hs⟩ := Option.isSome_iff_exists.mp hs
      exact ⟨_, share, hs, tlvs, ht, rfl⟩

theorem handleSubmitShares_running {m : SubmitShareWithChannelId} (hs : s.status = .running) :
    (s.handleSubmitShares C cfg m).status = .running ↔ s.Passes C cfg m := by
  rw [← submitShare_isOk, handleSubmitShares]
  split
  case h_1 s' h => exact iff_of_true ((submitShare_eq_ok h).right.right.trans hs) ⟨s', h⟩
  case h_2 e h  => exact iff_of_false (by simp [fail]) (by simp [h])

-- What the miners send and when they leave does not end the server, as long as it can pass on their
-- shares. The first `mining.set_difficulty` depends on the configuration alone.
theorem running_iff (hm : s.RoundsManned) (h : s.step C cfg a = some s') (hs : s.status = .running)
    (ho : a.isOwn) (hf : ∀ c ops, a = .serve → s.todo ≠ .sendFirst c :: ops) :
    s'.status = .running ↔
      (a = .downstream → ∀ m ms, s.inbox = .submitShares m :: ms → s.Passes C cfg m) := by
  have kept (hr : s'.status = .running) (ha : a ≠ .downstream) : s'.status = .running ↔
      (a = .downstream → ∀ m ms, s.inbox = .submitShares m :: ms → s.Passes C cfg m) :=
    iff_of_true hr fun h => absurd h ha
  cases a with
  | miner d m | receive d | stop d =>
    obtain ⟨_, _, _, _, rfl⟩ := update_eq_some h
    exact kept hs (by simp)
  | task d =>
    obtain ⟨_, _, _, _, rfl⟩ := task_eq_some h
    exact kept hs (by simp)
  | accept =>
    obtain ⟨_, _, rfl⟩ := idle_eq_some h
    exact kept hs (by simp)
  | tick us =>
    obtain ⟨_, h⟩ := Option.ite_none_right_eq_some.mp h
    obtain ⟨_, _, rfl⟩ := idle_eq_some h
    exact kept hs (by simp)
  | downstreamShutdown d =>
    obtain ⟨_, _, rfl⟩ := idle_eq_some h
    exact kept (downstreamShutdown_todo.right.right.trans hs) (by simp)
  | serve =>
    obtain ⟨op, ops, ht, _, rfl⟩ := serve_eq_some h
    refine kept (exec_running hs ?_ ?_) (by simp)
    case refine_1 =>
      rintro c rfl
      exact hf c ops rfl ht
    case refine_2 =>
      intro us all immediate hop ha
      exact minTarget_isSome (s := { s with todo := ops })
        (hm hs us all immediate (ht ▸ hop ▸ .head ops) ha)
  | downstream =>
    rw [step] at h
    split at h
    case h_1 => cases h
    case h_2 m ms hi =>
      obtain ⟨_, _, rfl⟩ := idle_eq_some h
      cases m with
      | openChannel d =>
        refine iff_of_true (handleOpenChannelRequest_todo.right.trans hs) fun _ m ms' h => ?_
        cases hi.symm.trans h
      | submitShares m =>
        have hr : ({ s with inbox := ms }.handleSubmitShares C cfg m).status = .running ↔ _ :=
          handleSubmitShares_running hs
        refine hr.trans ⟨fun hp _ m' ms' h => ?_, fun hp => hp rfl m ms hi⟩
        cases hi.symm.trans h
        exact hp
  | upstream m => cases ho
  | fallback   => cases ho

end Sv1.System

section Errs

variable {ε α β : Type} {x : Except (Fault ε) α} {f : α → Except (Fault ε) β} {o : Option α} {a : α}

-- The handler ends with an error, which shuts the translator down.
def Errs (x : Except (Fault ε) α) : Prop :=
  ∃ e, x = .error (.err e)

@[simp]
theorem errs_ok : ¬Errs (.ok a : Except (Fault ε) α) := by
  simp [Errs]

@[simp]
theorem errs_pure : ¬Errs (pure a : Except (Fault ε) α) :=
  errs_ok

theorem errs_bind : Errs (x >>= f) ↔ Errs x ∨ ∃ a, x = .ok a ∧ Errs (f a) := by
  cases x with
  | error fault => simp [Errs, bind, Except.bind]
  | ok a        => simp [Errs, bind, Except.bind]

@[simp]
theorem errs_map {g : α → β} : Errs (g <$> x) ↔ Errs x := by
  cases x with
  | error fault => simp [Errs, Functor.map, Except.map]
  | ok a        => simp [Errs, Functor.map, Except.map]

@[simp]
theorem errs_orErr {e : ε} : Errs (orErr o e) ↔ o = none := by
  cases o <;> simp [Errs, orErr]

@[simp]
theorem errs_expect {msg : String} : ¬Errs (expect o msg : Except (Fault ε) α) := by
  cases o <;> simp [Errs, expect]

end Errs

namespace ChannelManager

variable {C : TranslatorCore} {s : ChannelManager C}

-- The factory that has made the extranonce prefix of a channel.
def factoryOf (s : ChannelManager C) (channelId : ChannelId) : Option C.Extranonce :=
  if s.mode = .aggregated ∧ s.upstreamExtendedChannel.isSome then
    s.extranoncePrefixFactory
  else
    s.extranonceFactories.bind (·.lookup channelId)

-- The extranonce of a share that its channel accepts is not too long behind the bytes of the
-- translator.
def Fits (s : ChannelManager C) (m : SubmitSharesExtended) : Prop :=
  ∀ channel r factory extranoncePrefix, s.extendedChannels.lookup m.channelId = some channel →
    (C.channel.validateShare channel m).1 = .ok r → s.factoryOf m.channelId = some factory →
    extranoncePrefix = C.channel.getExtranoncePrefix (C.channel.validateShare channel m).2 →
    C.extranonce.getRange0Len factory ≤ extranoncePrefix.length →
      (extranoncePrefix.drop (C.extranonce.getRange0Len factory)).length +
        m.extranonce.1.length ≤ 32

theorem errs_adjustExtranonce {m : SubmitSharesExtended} {channel : C.Channel} {n : ℕ} :
    Errs (adjustExtranonce m (some channel) n) ↔
      n ≤ (C.channel.getExtranoncePrefix channel).length ∧
        32 < ((C.channel.getExtranoncePrefix channel).drop n).length + m.extranonce.1.length := by
  have hb {bytes : Bytes} : bytes.tryInto 32 = none ↔ 32 < bytes.length := by
    rw [← Option.not_isSome_iff_eq_none, Bytes.tryInto_isSome, not_le]
  simp [adjustExtranonce, errs_bind, hb]

theorem errs_handleSubmitSharesExtended {m : SubmitSharesExtended} :
    Errs (s.handleSubmitSharesExtended m) ↔ ¬s.Fits m := by
  rw [handleSubmitSharesExtended]
  split
  case h_1 hc => exact iff_of_false errs_pure (not_not.mpr fun _ _ _ _ h => by cases hc.symm.trans h)
  case h_2 channel hc =>
    dsimp only
    split
    case h_1 he =>
      refine iff_of_false errs_pure (not_not.mpr fun c r _ _ h hr => ?_)
      cases hc.symm.trans h
      cases he.symm.trans hr
    case h_2 upstream r hr hm hu =>
      have hf : s.factoryOf m.channelId = s.extranoncePrefixFactory := by simp [factoryOf, hm, hu]
      simp [forwardAggregated, errs_bind, Fits, hc, hr, hf, errs_adjustExtranonce]
    case h_3 r hr hn =>
      have hf : s.factoryOf m.channelId = s.extranonceFactories.bind (·.lookup m.channelId) := by
        cases hu : s.upstreamExtendedChannel with
        | none   => simp [factoryOf, hu]
        | some u =>
          have hm : s.mode ≠ .aggregated := fun hm => hn u hm hu
          simp [factoryOf, hm]
      simp only [forwardNonAggregated, adjustNonAggregated, errs_bind, Fits, hc, hf]
      cases hx : s.extranonceFactories.bind (·.lookup m.channelId) with
      | none         => simp
      | some factory => simp [errs_adjustExtranonce, hr]

theorem errs_handleDownstreamMessage {m : Mining} : Errs (s.handleDownstreamMessage m) ↔
    ∃ m', m = .submitSharesExtended m' ∧ ¬s.Fits m' := by
  rw [handleDownstreamMessage.eq_def]
  split
  case h_1 =>
    rw [handleOpenExtendedMiningChannel]
    split
    case isFalse => simp
    case isTrue =>
      split
      case h_2 => simp
      case h_1 upstream _ =>
        simp only [deriveChannel, errs_bind, errs_expect, false_or, reduceCtorEq, false_and,
          exists_false, iff_false, not_exists, not_and]
        intro factory _
        split
        case h_1 => exact errs_pure
        case h_2 => split <;> exact errs_pure
  case h_2 m => simp [errs_handleSubmitSharesExtended]
  case h_3 =>
    rw [handleUpdateChannel]
    split <;> simp
  case h_4 => simp
  case h_5 hs _ _ =>
    refine iff_of_false errs_pure ?_
    rintro ⟨m', rfl, _⟩
    exact hs m' rfl

end ChannelManager

namespace TranslatorSv2

variable {C : TranslatorCore} {K : Sv1.Core} {cfg : TranslatorConfig} {s s' : TranslatorSv2 C}
variable {a : Action} {tr : List (Machine.Event (TranslatorSv2 C) Action)}

-- What comes from the miners: the SV1 side goes on, an open request of a miner is answered, or the
-- channel manager takes what the server has sent for them.
def OfMiners (s : TranslatorSv2 C) : Action → Prop
  | .sv1 a      => ∀ c ops, a = .serve → s.sv1.todo ≠ .sendFirst c :: ops
  | .sv1Server  => ∃ q qs m, s.channelManagerToSv1Server = q :: qs ∧
    q.message = .openExtendedMiningChannelSuccess m ∧
    (s.sv1.server.requestIdToDownstreamId.lookup m.requestId).isSome
  | .downstream => True
  | _           => False

-- The server goes on, and the channel manager does not fail.
def Survives (e : Machine.Event (TranslatorSv2 C) Action) : Prop :=
  e.pre.OfMiners e.act →
    (e.pre.sv1.status = .running → e.post.sv1.status = .running) ∧
    (e.pre.manager.status = .running → ∀ err, e.post.manager.status ≠ .stopped (.err err))

-- The server can pass on the share that it takes next, and it is not too long for the channel manager.
structure Harmless (K : Sv1.Core) (cfg : TranslatorConfig) (s : TranslatorSv2 C) (a : Action) :
    Prop where
  passes : ∀ m ms, a = .sv1 .downstream → s.sv1.inbox = .submitShares m :: ms →
    s.sv1.Passes K cfg.sv1 m
  fits   : ∀ q qs m, a = .downstream → s.sv1ServerToChannelManager = q :: qs →
    q.message = .submitSharesExtended m → s.manager.manager.Fits m

theorem harmless_of_ne (hd : a ≠ .sv1 .downstream) (hm : a ≠ .downstream) : Harmless K cfg s a where
  passes _ _ h     := absurd h hd
  fits _ _ _ h     := absurd h hm

theorem stopped_iff {m : Mining} (hs : s.manager.status = .running) :
    (∃ err, (s.manager.act cfg.manager (.downstream m)).status = .stopped (.err err)) ↔
      Errs (s.manager.manager.handleDownstreamMessage m) := by
  rw [System.act]
  cases s.manager.manager.handleDownstreamMessage m with
  | ok r        => simp [System.deliver, hs]
  | error fault => simp [System.deliver, Errs]

theorem openSuccess_running {m : OpenExtendedMiningChannelSuccess} {sv1 sv1' : Sv1.System}
    (h : sv1.step K cfg.sv1 (.upstream (.openExtendedMiningChannelSuccess m)) = some sv1')
    (hd : (sv1.server.requestIdToDownstreamId.lookup m.requestId).isSome) :
    sv1'.status = .running := by
  obtain ⟨hs, _, rfl⟩ := Sv1.System.idle_eq_some h
  rw [Sv1.System.handleUpstreamMessage, Sv1.System.handleOpenExtendedMiningChannelSuccess.eq_def]
  split
  case h_1 hn => simp [hn] at hd
  case h_2 =>
    dsimp only
    split <;> exact hs

theorem survives_iff (hi : s.sv1.RoundsManned) (h : s.step K cfg a = some s') :
    Survives ⟨s, a, s'⟩ ↔ Harmless K cfg s a := by
  cases moves_of_step h with
  | @sv1 b t ho _ ht =>
    have hw : (s.withSv1 t).manager = s.manager := rfl
    have hm : s.manager.status = .running → ∀ err, (s.withSv1 t).manager.status ≠ .stopped (.err err) := by
      intro hm err
      simp [hw, hm]
    by_cases hf : ∀ c ops, b = .serve → s.sv1.todo ≠ .sendFirst c :: ops
    case neg =>
      have hb : b ≠ .downstream := by
        rintro rfl
        exact hf fun _ _ h => by cases h
      exact iff_of_true (fun hf' => absurd hf' hf) (harmless_of_ne (by simp [hb]) (by simp))
    case pos =>
      by_cases hs : s.sv1.status = .running
      case neg =>
        have hb : b ≠ .downstream := by
          rintro rfl
          rw [Sv1.System.step] at ht
          split at ht
          case h_1 => cases ht
          case h_2 => exact hs (Sv1.System.idle_eq_some ht).left
        exact iff_of_true (fun _ => ⟨fun hs' => absurd hs' hs, hm⟩)
          (harmless_of_ne (by simp [hb]) (by simp))
      case pos =>
        have hr := Sv1.System.running_iff hi ht hs ho hf
        constructor
        case mp =>
          intro hv
          have hp := hr.mp ((hv hf).left hs)
          exact ⟨fun m ms hb => hp (Action.sv1.inj hb) m ms, fun _ _ _ h => by cases h⟩
        case mpr =>
          intro hh _
          exact ⟨fun _ => hr.mpr fun hb m ms => hh.passes m ms (congrArg Action.sv1 hb), hm⟩
  | @sv1Server q qs t hq _ ht =>
    refine iff_of_true ?_ (harmless_of_ne (by simp) (by simp))
    rintro ⟨q', qs', m, hq', hm, hd⟩
    cases hq.symm.trans hq'
    rw [hm] at ht
    refine ⟨fun _ => openSuccess_running ht hd, fun hs err => ?_⟩
    have hw : ({ s with channelManagerToSv1Server := qs }.withSv1 t).manager = s.manager := rfl
    have hs : s.manager.status = .running := hs
    simp [hw, hs]
  | @downstream q qs t hq ht =>
    obtain ⟨hs, _⟩ := System.moves_of_step ht
    rw [System.step, hs] at ht
    obtain rfl := Option.some.inj ht
    have hiff : Errs (s.manager.manager.handleDownstreamMessage q.message) ↔ _ :=
      ChannelManager.errs_handleDownstreamMessage
    have hst : (∃ err, (s.manager.act cfg.manager (.downstream q.message)).status =
        .stopped (.err err)) ↔ _ := (stopped_iff hs).trans hiff
    constructor
    case mp =>
      intro hv
      refine ⟨fun _ _ h => (by cases h), fun q' qs' m _ hq' hm => ?_⟩
      cases hq.symm.trans hq'
      by_contra hf
      obtain ⟨err, he⟩ := hst.mpr ⟨m, hm, hf⟩
      exact (hv trivial).right hs err he
    case mpr =>
      intro hh _
      refine ⟨id, fun _ err he => ?_⟩
      obtain ⟨m, hm, hf⟩ := hst.mp ⟨err, he⟩
      exact hf (hh.fits q qs m rfl hq hm)
  | _ => exact iff_of_true (fun h => h.elim) (harmless_of_ne (by simp) (by simp))

theorem roundsManned_step (hi : s.sv1.RoundsManned) (h : s.step K cfg a = some s') :
    s'.sv1.RoundsManned := by
  cases sv1_of_step h with
  | inl he => exact he ▸ hi
  | inr hs =>
    obtain ⟨b, hs⟩ := hs
    exact Sv1.System.roundsManned_step hi hs

namespace OneMiner

def config (aggregateChannels enableVardiff : Bool) : TranslatorConfig where
  sv1     := Sv1.Reference.Sample.config aggregateChannels enableVardiff
  manager := ⟨[], []⟩

def own (actions : List Sv1.Action) : List Action :=
  actions.map .sv1

-- A message of the upstream goes through the channel manager to the server.
def pass : Sv1.Action → List Action
  | .upstream m => [.frame (.mining m), .upstream, .sv1Server]
  | _           => []

-- A miner subscribes, and the upstream grants it a channel.
def opened (d : DownstreamId) (requestId : RequestId) (channelId : ChannelId) : List Action :=
  own (Sv1.Reference.Sample.connect d ⟨1, .subscribe⟩) ++ [.downstream] ++
    pass (Sv1.Reference.Sample.success requestId channelId) ++ own (Sv1.Reference.Sample.serve 7)

-- It takes a name, and gets a job.
def working (name : String) : List Action :=
  opened 1 1 5 ++ own ([.miner 1 ⟨2, .authorize name⟩] ++ Sv1.Reference.Sample.goOn 1 5) ++
    pass (Sv1.Reference.Sample.prevHash 5 7) ++ pass (Sv1.Reference.Sample.job 5 1) ++
    own (Sv1.Reference.Sample.serve 1 ++ [.receive 1] ++ Sv1.Reference.Sample.goOn 1 1 ++
      [.receive 1, .receive 1] ++ Sv1.Reference.Sample.goOn 1 2)

def share (name : String) : Sv1.ClientMessage where
  id      := 3
  request := .submit {
    id          := 3
    userName    := name
    jobId       := "1"
    extraNonce2 := [0, 0, 0, 0]
    time        := 0
    nonce       := 5
    versionBits := none }

def submitted (name : String) : List Action :=
  working name ++ own ([.miner 1 (share name)] ++ Sv1.Reference.Sample.goOn 1 4)

-- The name does not fit in the extension that goes with a share.
def longName : String := "a name that is longer than the thirty-two bytes of the extension"

theorem longName_fatal : ((translator reference Sv1.Reference.core (config false false)).exec
    (.start reference (config false false)) (submitted longName)).any fun s =>
      s.sv1.status = .running && ((translator reference Sv1.Reference.core (config false false)).step s
        (.sv1 .downstream)).any (·.sv1.status ≠ .running) := by
  decide +kernel

-- With a short name the share goes to the channel manager.
def mining : List Action :=
  submitted "a" ++ [.sv1 .downstream, .downstream]

def passes (s : Sv1.System) : Sv1.DownstreamMessages → Bool
  | .openChannel _  => true
  | .submitShares m => m.jobVersion.all fun v =>
    (Sv1.Reference.core.buildSv2SubmitShares m.share m.channelId s.server.sequenceCounter v
      m.versionRollingMask).isSome &&
    (s.getDownstream m.downstreamId).any fun o =>
      (Sv1.Reference.core.userIdentityTlv o.data.userIdentity).isSome

def harmless (e : Machine.Event (TranslatorSv2 reference) Action) : Bool :=
  (e.act ≠ .sv1 .downstream || e.pre.sv1.inbox.all (passes e.pre.sv1)) &&
    (e.act ≠ .downstream || e.pre.manager.manager.mode = .nonAggregated &&
      e.pre.manager.manager.extranonceFactories.isNone)

theorem harmless_sound {e : Machine.Event (TranslatorSv2 reference) Action} (h : harmless e) :
    Harmless Sv1.Reference.core (config false false) e.pre e.act where
  passes m ms ha hi v hv := by
    have hp := (Bool.and_eq_true_iff.mp h).left
    simp only [ha, ne_eq, not_true_eq_false, decide_false, Bool.false_or, hi, List.all_cons,
      Bool.and_eq_true] at hp
    have hp := hp.left
    rw [passes, hv, Option.all_some, Bool.and_eq_true] at hp
    obtain ⟨o, ho, ht⟩ := Option.any_eq_true _ _ |>.mp hp.right
    exact ⟨hp.left, fun _ => ⟨o, ho, ht⟩⟩
  fits q qs m ha _ _ := by
    have hp := (Bool.and_eq_true_iff.mp h).right
    simp only [ha, ne_eq, not_true_eq_false, decide_false, Bool.false_or, Bool.and_eq_true,
      decide_eq_true_eq, Option.isNone_iff_eq_none] at hp
    intro _ _ _ _ _ _ hf
    simp [ChannelManager.factoryOf, hp.left, hp.right] at hf

theorem mining_exec : ((translator reference Sv1.Reference.core (config false false)).exec
    (.start reference (config false false)) mining).any (·.sv1.forwarded.length = 2) := by
  decide +kernel

theorem mining_harmless : ((translator reference Sv1.Reference.core (config false false)).trace
    (.start reference (config false false)) mining).all harmless := by
  decide +kernel

end OneMiner

theorem survives_iff_harmless (r : (translator C K cfg).Run tr s) :
    (∀ e ∈ tr, Survives e) ↔ Machine.Along (Harmless K cfg) tr := by
  have init (s : TranslatorSv2 C) (h : (translator C K cfg).Init s) : s.sv1.RoundsManned := by
    cases h
    intro _ _ _ _ h
    cases h
  exact r.forall_iff_along init (fun _ _ _ hi h => survives_iff hi h)
    (fun _ _ _ hi _ h => roundsManned_step hi h)

open OneMiner in
theorem not_survives : ¬∀ tr s, (translator reference Sv1.Reference.core (config false false)).Run tr s →
    ∀ e ∈ tr, Survives e := by
  intro h
  obtain ⟨s, hs, hf⟩ := Option.any_eq_true _ _ |>.mp longName_fatal
  obtain ⟨hr, hf⟩ := Bool.and_eq_true_iff.mp hf
  obtain ⟨s', hs', hf⟩ := Option.any_eq_true _ _ |>.mp hf
  have r := (Machine.Run.of_exec (M := translator reference Sv1.Reference.core (config false false))
    rfl hs).snoc hs'
  have hv := h _ s' r _ List.mem_concat_self (fun _ _ h => by cases h)
  exact of_decide_eq_true hf (hv.left (of_decide_eq_true hr))

open OneMiner in
theorem survives_sample : ∃ tr s,
    (translator reference Sv1.Reference.core (config false false)).Run tr s ∧
    s.sv1.forwarded.length = 2 ∧ ∀ e ∈ tr, Survives e := by
  obtain ⟨s, hs, hn⟩ := Option.any_eq_true _ _ |>.mp mining_exec
  have r := Machine.Run.of_exec (M := translator reference Sv1.Reference.core (config false false))
    rfl hs
  refine ⟨_, s, r, of_decide_eq_true hn, (survives_iff_harmless r).mpr fun e he => ?_⟩
  exact harmless_sound (List.all_eq_true.mp mining_harmless e he)

end TranslatorSv2

end Translator
