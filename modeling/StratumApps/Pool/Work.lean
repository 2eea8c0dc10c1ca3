import StratumApps.Pool.Announcements
import StratumApps.Pool.Channels

open Sv2 Handler StratumCore

-- The messages with work for extended channels. Other channels may get them, too.
def Sv2.Mining.isWork : Mining → Bool
  | .newExtendedMiningJob _ => true
  | .setNewPrevHash _       => true
  | _                       => false

namespace Pool

variable {C : StratumCore} {cfg : Config} {d d' : DownstreamId} {c : ChannelId}
variable {messages messages' : List RouteMessageTo}

namespace RouteMessageTo

-- The channel of a job that is sent to a downstream, of the kind that extended channels get.
def jobChannel (d : DownstreamId) : RouteMessageTo → Option ChannelId
  | .downstream d' (.newExtendedMiningJob m) => if d' = d then some m.channelId else none
  | _                                        => none

def prevHashChannel (d : DownstreamId) : RouteMessageTo → Option ChannelId
  | .downstream d' (.setNewPrevHash m) => if d' = d then some m.channelId else none
  | _                                  => none

end RouteMessageTo

def jobs (d : DownstreamId) (messages : List RouteMessageTo) : List ChannelId :=
  messages.filterMap (·.jobChannel d)

def prevHashes (d : DownstreamId) (messages : List RouteMessageTo) : List ChannelId :=
  messages.filterMap (·.prevHashChannel d)

-- No work for extended channels is sent to that downstream.
def Idle (d : DownstreamId) (messages : List RouteMessageTo) : Prop :=
  jobs d messages = [] ∧ prevHashes d messages = []

section Observations

variable {job : ExtendedJob} {p : SetNewPrevHash} {j : JobId}

@[simp]
theorem jobs_nil : jobs d [] = [] := rfl

@[simp]
theorem prevHashes_nil : prevHashes d [] = [] := rfl

-- What the messages to other downstreams are does not matter.
theorem idle_of_forall (h : ∀ m, .downstream d m ∈ messages → m.isWork = false) :
    Idle d messages := by
  constructor
  · refine List.filterMap_eq_nil_iff.mpr fun m hm => ?_
    cases m with
    | templateProvider => rfl
    | downstream d' m  =>
      by_cases hd : d' = d
      case neg => cases m <;> simp [RouteMessageTo.jobChannel, hd]
      case pos =>
        have hw := h m (hd ▸ hm)
        cases m <;> first | rfl | cases hw
  · refine List.filterMap_eq_nil_iff.mpr fun m hm => ?_
    cases m with
    | templateProvider => rfl
    | downstream d' m  =>
      by_cases hd : d' = d
      case neg => cases m <;> simp [RouteMessageTo.prevHashChannel, hd]
      case pos =>
        have hw := h m (hd ▸ hm)
        cases m <;> first | rfl | cases hw

end Observations

section Rounds

variable {κ μ ε : Type} [JobMessage μ] {J : JobStore κ μ ε} {channel channel' : κ} {job : Job μ}
variable {t : NewTemplate} {outputs : List TxOut}

end Rounds

namespace Downstream

variable {D D' : Downstream C}

-- Without standard channels there is no group channel.
structure Bare (D : Downstream C) : Prop where
  groupChannels    : D.groupChannels = none
  standardChannels : ∀ c, c ∉ D.standardChannels

-- What a message of a downstream may make of it: it keeps the flag, and is sent work only for a new
-- extended channel, unless it brings its own.
structure Provides (D : Downstream C) (d : DownstreamId) (messages : List RouteMessageTo)
    (D' : Downstream C) : Prop where
  requiresCustomWork : D'.requiresCustomWork = D.requiresCustomWork
  custom             : D.requiresCustomWork = true → D.Bare → D'.Bare ∧ Idle d messages
  opened             : D.requiresCustomWork = false → ∀ c, c ∈ D'.extendedChannels →
    c ∉ D.extendedChannels → jobs d messages = [c] ∧ prevHashes d messages = [c]

theorem Provides.of_idle (hw : D'.requiresCustomWork = D.requiresCustomWork)
    (hg : D'.groupChannels = D.groupChannels)
    (hs : ∀ c, c ∈ D'.standardChannels → c ∈ D.standardChannels)
    (he : ∀ c, c ∈ D'.extendedChannels → c ∈ D.extendedChannels) (hi : Idle d messages) :
    D.Provides d messages D' where
  requiresCustomWork      := hw
  custom _ hb             := ⟨⟨hg.trans hb.groupChannels, fun c hc => hb.standardChannels c (hs c hc)⟩, hi⟩
  opened _ c hc hn        := absurd (he c hc) hn

end Downstream

namespace ChannelManager

variable {s s' : ChannelManager C} {D D' : Downstream C}

-- The messages that answer a message of `d`.
def Replies (d : DownstreamId) (messages : List RouteMessageTo) : Prop :=
  ∀ d' m, .downstream d' m ∈ messages → d' = d ∧ m.isWork = false

theorem Replies.idle (h : Replies d messages) : Idle d messages :=
  idle_of_forall fun m hm => (h d m hm).right

structure Provided (s : ChannelManager C) (d : DownstreamId) (messages : List RouteMessageTo)
    (s' : ChannelManager C) : Prop where
  addressed : ∀ d' m, .downstream d' m ∈ messages → d' = d
  own       : ∀ D', s'.downstream.lookup d = some D' →
    ∃ D, s.downstream.lookup d = some D ∧ D.Provides d messages D'

theorem Provided.same (hd : s'.downstream = s.downstream) (hr : Replies d messages) :
    s.Provided d messages s' where
  addressed d' m hm := (hr d' m hm).left
  own D' h          := ⟨D', hd ▸ h, .of_idle rfl rfl (fun _ => id) (fun _ => id) hr.idle⟩

theorem Provided.set (hD : s.downstream.lookup d = some D)
    (hd : s'.downstream = s.downstream.insert d D') (hP : D.Provides d messages D')
    (ha : ∀ d' m, .downstream d' m ∈ messages → d' = d) : s.Provided d messages s' where
  addressed := ha
  own D₁ h  := by
    rw [hd, AList.lookup_insert, Option.some_inj] at h
    exact ⟨D, hD, h ▸ hP⟩

section Shares

variable {κ μ ω ε : Type} {S : ShareChannels κ μ ω ε} {share : ShareFields} {msg : ω}
variable {errorCode : ShareValidationError → Option String} {channels : Map ChannelId κ}
variable {put : Map ChannelId κ → Downstream C}

theorem Replies.nil : Replies d [] := by
  simp [Replies]

theorem Replies.cons {m : Mining} (h : m.isWork = false) (hr : Replies d messages) :
    Replies d (.downstream d m :: messages) := by
  intro d' m' hm
  cases hm with
  | head      => exact ⟨rfl, h⟩
  | tail _ hm => exact hr d' m' hm

theorem Replies.singleton {m : Mining} (h : m.isWork = false) : Replies d [.downstream d m] :=
  .cons h .nil

end Shares

end ChannelManager

section Rounds

variable {κ μ ε : Type} {J : JobStore κ μ ε} {channel channel' : κ} {t : NewTemplate}
variable {p : SetNewPrevHash} {outputs : List TxOut} {mining : μ → Mining} {silent : Bool}

variable [JobMessage μ]

end Rounds

namespace Downstream

variable {D D' : Downstream C} {t : NewTemplate} {p : SetNewPrevHash} {outputs : List TxOut}
variable {groupJob : Option ExtendedJob}

end Downstream

namespace ChannelManager

variable {s s' : ChannelManager C} {D : Downstream C} {t : NewTemplate} {p : SetNewPrevHash}

end ChannelManager

end Pool
