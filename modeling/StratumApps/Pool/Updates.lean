import StratumApps.Pool.System

open Sv2 Handler StratumCore

namespace Pool

variable {C : StratumCore}

section Rates

variable {κ μ ω ε : Type} (S : ShareChannels κ μ ω ε) (channel : κ)

-- What an update of a channel is about.
def rates : Target × F32 :=
  (S.getTarget channel, S.getNominalHashrate channel)

def updated (msg : UpdateChannel) : Except ε Unit × κ :=
  S.updateChannel channel msg.nominalHashRate (some msg.maximumTarget)

-- A channel that refuses an update stays as it is.
def KeepsRefused : Prop :=
  ∀ c hashrate target e, (S.updateChannel c hashrate target).1 = .error e →
    (S.updateChannel c hashrate target).2 = c

end Rates

def ChannelsKeepRefused (C : StratumCore) : Prop :=
  KeepsRefused C.standard.toShareChannels ∧ KeepsRefused C.extended.toShareChannels

namespace Downstream

variable (D : Downstream C)

-- The channel with an id is a standard one before it is an extended one.
def channelRates (c : ChannelId) : Option (Target × F32) :=
  match D.standardChannels.lookup c, D.extendedChannels.lookup c with
  | some channel, _    => some (rates C.standard.toShareChannels channel)
  | none, some channel => some (rates C.extended.toShareChannels channel)
  | none, none         => none

def Refuses (msg : UpdateChannel) : Prop :=
  match D.standardChannels.lookup msg.channelId, D.extendedChannels.lookup msg.channelId with
  | some channel, _    => ∃ e, (updated C.standard.toShareChannels channel msg).1 = .error e
  | none, some channel => ∃ e, (updated C.extended.toShareChannels channel msg).1 = .error e
  | none, none         => False

end Downstream

namespace ChannelManager

-- The one reply to an update: an error when there is no such channel, or when it has refused the
-- update and has kept its rates, else the target that the channel has now.
inductive UpdateReply (d : DownstreamId) (D D' : Downstream C) (msg : UpdateChannel) :
    List RouteMessageTo → Prop
  | missing {errorCode : String} :
    D.channelRates msg.channelId = none →
    UpdateReply d D D' msg [updateChannelError d msg.channelId errorCode]
  | refused {errorCode : String} :
    D.Refuses msg → D'.channelRates msg.channelId = D.channelRates msg.channelId →
    UpdateReply d D D' msg [updateChannelError d msg.channelId errorCode]
  | accepted {r : Target × F32} :
    D.channelRates msg.channelId ≠ none → ¬D.Refuses msg →
    D'.channelRates msg.channelId = some r →
    UpdateReply d D D' msg [setTarget d msg.channelId r.1]

def SettlesUpdate (s : ChannelManager C) (d : DownstreamId) (D : Downstream C)
    (msg : UpdateChannel) : Prop :=
  ∃ s' D' messages, s.handleUpdateChannel d msg = .ok (s', messages) ∧
    s'.downstream.lookup d = some D' ∧ UpdateReply d D D' msg messages

variable {s s' : ChannelManager C} {d : DownstreamId} {D D' : Downstream C} {msg : UpdateChannel}
variable {messages : List RouteMessageTo}

theorem UpdateReply.length (h : UpdateReply d D D' msg messages) : messages.length = 1 := by
  cases h <;> rfl

section Channel

variable {κ μ ω ε : Type} {S : ShareChannels κ μ ω ε} {errorCode : ε → Option String}
variable {err : ε → PoolError} {channel channel' : κ} {e : ε}

theorem updateChannel_accepted (h : (updated S channel msg).1 = .ok ()) :
    updateChannel d S errorCode err channel msg =
      .ok ((updated S channel msg).2,
        [setTarget d msg.channelId (S.getTarget (updated S channel msg).2)]) := by
  rw [updated] at h
  simp only [updateChannel, updated, h]
  rfl

-- A refusal is followed by the target in any case, or else the handler fails.
theorem updateChannel_refused (h : (updated S channel msg).1 = .error e)
    (hu : updateChannel d S errorCode err channel msg = .ok (channel', messages)) :
    channel' = (updated S channel msg).2 ∧ ∃ code, errorCode e = some code ∧
      messages = [updateChannelError d msg.channelId code,
        setTarget d msg.channelId (S.getTarget channel')] := by
  rw [updated] at h
  simp only [updateChannel, h] at hu
  split at hu
  case h_1 code hc =>
    cases pure_eq_ok.mp hu
    exact ⟨rfl, code, hc, rfl⟩
  case h_2 => cases hu

end Channel

theorem not_refuses_standard {channel : C.Standard}
    (hs : D.standardChannels.lookup msg.channelId = some channel) (h : ¬D.Refuses msg) :
    (updated C.standard.toShareChannels channel msg).1 = .ok () := by
  simp only [Downstream.Refuses, hs, not_exists] at h
  cases hr : (updated C.standard.toShareChannels channel msg).1 with
  | ok _    => rfl
  | error e => exact absurd hr (h e)

theorem not_refuses_extended {channel : C.Extended}
    (hs : D.standardChannels.lookup msg.channelId = none)
    (he : D.extendedChannels.lookup msg.channelId = some channel) (h : ¬D.Refuses msg) :
    (updated C.extended.toShareChannels channel msg).1 = .ok () := by
  simp only [Downstream.Refuses, hs, he, not_exists] at h
  cases hr : (updated C.extended.toShareChannels channel msg).1 with
  | ok _    => rfl
  | error e => exact absurd hr (h e)

section Handler

variable (hD : s.downstream.lookup d = some D)

include hD in
theorem handleUpdateChannel_missing (hs : D.standardChannels.lookup msg.channelId = none)
    (he : D.extendedChannels.lookup msg.channelId = none) :
    s.handleUpdateChannel d msg =
      .ok (s, [updateChannelError d msg.channelId "invalid-channel-id"]) := by
  simp only [handleUpdateChannel, bind_eq_ok, orErr_eq_ok]
  exact ⟨D, hD, by simp only [hs, he]; rfl⟩

include hD in
theorem handleUpdateChannel_standard {channel : C.Standard}
    (hs : D.standardChannels.lookup msg.channelId = some channel) :
    s.handleUpdateChannel d msg = .ok (s', messages) ↔ ∃ channel',
      updateChannel d C.standard.toShareChannels updateStandardErrorCode .standard channel msg =
        .ok (channel', messages) ∧
      s' = s.setDownstream d { D with
        standardChannels := D.standardChannels.insert msg.channelId channel' } := by
  simp only [handleUpdateChannel, bind_eq_ok, orErr_eq_ok, hD, Option.some_inj, exists_eq_left',
    hs, pure_eq_ok, Prod.exists, Prod.mk.injEq]
  constructor
  · rintro ⟨channel', messages', hu, rfl, rfl⟩
    exact ⟨channel', hu, rfl⟩
  · rintro ⟨channel', hu, rfl⟩
    exact ⟨channel', messages, hu, rfl, rfl⟩

include hD in
theorem handleUpdateChannel_extended {channel : C.Extended}
    (hs : D.standardChannels.lookup msg.channelId = none)
    (he : D.extendedChannels.lookup msg.channelId = some channel) :
    s.handleUpdateChannel d msg = .ok (s', messages) ↔ ∃ channel',
      updateChannel d C.extended.toShareChannels updateExtendedErrorCode .extended channel msg =
        .ok (channel', messages) ∧
      s' = s.setDownstream d { D with
        extendedChannels := D.extendedChannels.insert msg.channelId channel' } := by
  simp only [handleUpdateChannel, bind_eq_ok, orErr_eq_ok, hD, Option.some_inj, exists_eq_left',
    hs, he, pure_eq_ok, Prod.exists, Prod.mk.injEq]
  constructor
  · rintro ⟨channel', messages', hu, rfl, rfl⟩
    exact ⟨channel', hu, rfl⟩
  · rintro ⟨channel', hu, rfl⟩
    exact ⟨channel', messages, hu, rfl, rfl⟩

include hD in
-- A refused update ends in two replies that contradict each other, or in an error of the handler.
theorem handleUpdateChannel_refused (hr : D.Refuses msg)
    (h : s.handleUpdateChannel d msg = .ok (s', messages)) :
    ∃ code target, messages =
      [updateChannelError d msg.channelId code, setTarget d msg.channelId target] := by
  simp only [Downstream.Refuses] at hr
  split at hr
  case h_1 channel hs =>
    obtain ⟨e, hr⟩ := hr
    obtain ⟨channel', hu, _⟩ := (handleUpdateChannel_standard hD hs).mp h
    obtain ⟨_, code, _, hm⟩ := updateChannel_refused hr hu
    exact ⟨code, _, hm⟩
  case h_2 channel hs he =>
    obtain ⟨e, hr⟩ := hr
    obtain ⟨channel', hu, _⟩ := (handleUpdateChannel_extended hD hs he).mp h
    obtain ⟨_, code, _, hm⟩ := updateChannel_refused hr hu
    exact ⟨code, _, hm⟩
  case h_3 => cases hr

include hD in
-- The second of the two replies carries the target that the first one leaves in place.
theorem handleUpdateChannel_keeps (hC : ChannelsKeepRefused C) (hr : D.Refuses msg)
    (h : s.handleUpdateChannel d msg = .ok (s', messages)) : ∃ D' code r,
      s'.downstream.lookup d = some D' ∧ D.channelRates msg.channelId = some r ∧
      D'.channelRates msg.channelId = some r ∧
      messages = [updateChannelError d msg.channelId code, setTarget d msg.channelId r.1] := by
  simp only [Downstream.Refuses] at hr
  split at hr
  case h_1 channel hs =>
    obtain ⟨e, hr⟩ := hr
    obtain ⟨channel', hu, rfl⟩ := (handleUpdateChannel_standard hD hs).mp h
    obtain ⟨rfl, code, _, rfl⟩ := updateChannel_refused hr hu
    rw [updated, hC.left _ _ _ _ hr]
    refine ⟨_, code, rates C.standard.toShareChannels channel, AList.lookup_insert _, ?_, ?_, rfl⟩
    · simp only [Downstream.channelRates, hs]
    · simp only [Downstream.channelRates, AList.lookup_insert]
  case h_2 channel hs he =>
    obtain ⟨e, hr⟩ := hr
    obtain ⟨channel', hu, rfl⟩ := (handleUpdateChannel_extended hD hs he).mp h
    obtain ⟨rfl, code, _, rfl⟩ := updateChannel_refused hr hu
    rw [updated, hC.right _ _ _ _ hr]
    refine ⟨_, code, rates C.extended.toShareChannels channel, AList.lookup_insert _, ?_, ?_, rfl⟩
    · simp only [Downstream.channelRates, hs, he]
    · simp only [Downstream.channelRates, hs, AList.lookup_insert]
  case h_3 => cases hr

include hD in
theorem settlesUpdate_standard {channel : C.Standard}
    (hs : D.standardChannels.lookup msg.channelId = some channel) (hr : ¬D.Refuses msg) :
    s.SettlesUpdate d D msg := by
  have hu : updateChannel d C.standard.toShareChannels updateStandardErrorCode .standard channel msg = _ :=
    updateChannel_accepted (not_refuses_standard hs hr)
  refine ⟨_, { D with standardChannels := D.standardChannels.insert msg.channelId _ }, _,
    (handleUpdateChannel_standard hD hs).mpr ⟨_, hu, rfl⟩, AList.lookup_insert _, ?_⟩
  have hc : D.channelRates msg.channelId ≠ none := by
    simp [Downstream.channelRates, hs]
  refine .accepted (r := rates C.standard.toShareChannels _) hc hr ?_
  simp only [Downstream.channelRates, AList.lookup_insert]

include hD in
theorem settlesUpdate_extended {channel : C.Extended}
    (hs : D.standardChannels.lookup msg.channelId = none)
    (he : D.extendedChannels.lookup msg.channelId = some channel) (hr : ¬D.Refuses msg) :
    s.SettlesUpdate d D msg := by
  have hu : updateChannel d C.extended.toShareChannels updateExtendedErrorCode .extended channel msg = _ :=
    updateChannel_accepted (not_refuses_extended hs he hr)
  refine ⟨_, { D with extendedChannels := D.extendedChannels.insert msg.channelId _ }, _,
    (handleUpdateChannel_extended hD hs he).mpr ⟨_, hu, rfl⟩, AList.lookup_insert _, ?_⟩
  have hc : D.channelRates msg.channelId ≠ none := by
    simp [Downstream.channelRates, hs, he]
  refine .accepted (r := rates C.extended.toShareChannels _) hc hr ?_
  simp only [Downstream.channelRates, hs, AList.lookup_insert]

end Handler

theorem settlesUpdate_iff (hD : s.downstream.lookup d = some D) :
    s.SettlesUpdate d D msg ↔ ¬D.Refuses msg := by
  constructor
  case mp =>
    rintro ⟨s', D', messages, h, _, hm⟩ hr
    obtain ⟨_, _, rfl⟩ := handleUpdateChannel_refused hD hr h
    exact absurd hm.length (by simp)
  case mpr =>
    intro hr
    cases hs : D.standardChannels.lookup msg.channelId with
    | some channel => exact settlesUpdate_standard hD hs hr
    | none         =>
      cases he : D.extendedChannels.lookup msg.channelId with
      | some channel => exact settlesUpdate_extended hD hs he hr
      | none         =>
        refine ⟨s, D, _, handleUpdateChannel_missing hD hs he, hD, .missing ?_⟩
        simp only [Downstream.channelRates, hs, he]

end ChannelManager

namespace Updates

-- Channels that refuse a negative hash rate, one with the sign bit, and change nothing then.
def standardChannels {κ : Type} (S : StandardChannels κ) : StandardChannels κ where
  __                              := S
  updateChannel c hashrate target :=
    if 0x80000000 ≤ hashrate then
      (.error .invalidNominalHashrate, c)
    else
      S.updateChannel c hashrate target

def core : StratumCore where
  __       := reference
  standard := standardChannels reference.standard

open Sample

def start : System core :=
  System.start config (⟨[0, 1], 2, 0⟩ : Reference.Factory)

def opened : List Action :=
  [future 1, prevHash 1] ++ connected ++ handled 1 openStandard

-- The rate is minus one, and any target is low enough.
def request : UpdateChannel where
  channelId       := 2
  nominalHashRate := 0xbf800000
  maximumTarget   := .allOnes 256

def accepted : UpdateChannel :=
  { request with nominalHashRate := 0x3f800000 }

-- Whether the channel takes an update, in the state in which it has just been opened.
def accepts? (msg : UpdateChannel) : Option Bool := do
  let s ← (machine core config).exec start opened
  let downstream ← s.manager.downstream.lookup 1
  let channel ← downstream.standardChannels.lookup msg.channelId
  return (updated core.standard.toShareChannels channel msg).1.isOk

theorem accepts?_request : accepts? request = some false ∧ accepts? accepted = some true := by
  decide +kernel

theorem start_init : (machine core config).Init start where
  downstream      := rfl
  idFactory       := rfl
  extended        := rfl
  standard        := rfl
  vardiff         := rfl
  coinbaseOutputs := rfl
  lastNewPrevHash := rfl
  lastTemplate    := rfl
  persisted       := rfl
  running         := rfl
  connections     := rfl
  receiver        := rfl
  shutdowns       := rfl
  sent            := rfl

theorem exists_of_accepts? {msg : UpdateChannel} {b : Bool} (h : accepts? msg = some b) :
    ∃ (s : System core) (D : Downstream core) (channel : core.Standard),
      (machine core config).Reachable s ∧ s.manager.downstream.lookup 1 = some D ∧
      D.standardChannels.lookup msg.channelId = some channel ∧
      (updated core.standard.toShareChannels channel msg).1.isOk = b := by
  simp only [accepts?, Option.bind_eq_bind, Option.bind_eq_some_iff, Option.pure_def,
    Option.some_inj] at h
  obtain ⟨s, hs, D, hD, channel, hl, hb⟩ := h
  exact ⟨s, D, channel, ⟨_, .of_exec start_init hs⟩, hD, hl, hb⟩

theorem keepsRefused : ChannelsKeepRefused core := by
  constructor
  case left =>
    intro c hashrate target e h
    simp only [core, standardChannels] at h ⊢
    split at h
    case isTrue hz => rw [if_pos hz]
    case isFalse   => cases h
  case right =>
    intro c hashrate target e h
    cases h

end Updates

open Updates ChannelManager in
theorem not_settlesUpdate : ChannelsKeepRefused core ∧ ∃ (s : System core) (D : Downstream core),
    (machine core Sample.config).Reachable s ∧ s.manager.downstream.lookup 1 = some D ∧
      ¬s.manager.SettlesUpdate 1 D request := by
  obtain ⟨s, D, channel, hr, hD, hl, hb⟩ := exists_of_accepts? accepts?_request.left
  refine ⟨keepsRefused, s, D, hr, hD, ?_⟩
  rintro ⟨s', D', messages, h, _, hm⟩
  have hR : D.Refuses request := by
    simp only [Downstream.Refuses, hl]
    cases hc : (updated core.standard.toShareChannels channel request).1 with
    | ok _    => simp [hc, Except.isOk, Except.toBool] at hb
    | error e => exact ⟨e, rfl⟩
  obtain ⟨_, _, rfl⟩ := handleUpdateChannel_refused hD hR h
  exact absurd hm.length (by simp)

open Updates ChannelManager in
theorem settlesUpdate_sample : ∃ (s : System core) (D : Downstream core),
    (machine core Sample.config).Reachable s ∧ s.manager.downstream.lookup 1 = some D ∧
      s.manager.SettlesUpdate 1 D accepted := by
  obtain ⟨s, D, channel, hr, hD, hl, hb⟩ := exists_of_accepts? accepts?_request.right
  refine ⟨s, D, hr, hD, (settlesUpdate_iff hD).mpr ?_⟩
  simp only [Downstream.Refuses, hl]
  rintro ⟨e, he⟩
  simp [he, Except.isOk, Except.toBool] at hb

end Pool
