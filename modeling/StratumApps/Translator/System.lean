import StratumApps.Lib.Transition
import StratumApps.Translator.Steps

open Sv2 Handler StratumCore

namespace Translator

variable {C : TranslatorCore}

-- An error or a panic ends the loop of the channel manager, and with it the translator.
inductive Status
  | running
  | stopped (fault : Fault TproxyError)
  deriving DecidableEq

-- The manager with what it has taken and sent since its upstream connected: the open requests of the
-- miners, the prefixes that the upstream gave with its channels, and all messages.
structure System (C : TranslatorCore) where
  manager  : ChannelManager C
  status   : Status
  requests : List OpenExtendedMiningChannel
  granted  : Map ChannelId B032
  sent     : List RouteMessageTo

-- What the manager takes from the SV1 server and from the upstream, in any order. After a fallback it
-- has another upstream.
inductive Action
  | downstream (m : Mining)
  | upstream (m : Mining)
  | extensions (m : Extensions)
  | fallback
  deriving DecidableEq

-- The open requests among the messages of the SV1 server.
def openRequest : Mining → List OpenExtendedMiningChannel
  | .openExtendedMiningChannel m => [m]
  | _                            => []

-- The prefix that the upstream has for a channel is the one it gave last.
def grant (granted : Map ChannelId B032) : Mining → Map ChannelId B032
  | .openExtendedMiningChannelSuccess m => granted.insert m.channelId m.extranoncePrefix
  | .setExtranoncePrefix m              => granted.modify m.channelId fun _ => m.extranoncePrefix
  | _                                   => granted

namespace System

variable (cfg : Config) (s : System C)

-- What the loop of the channel manager does with the result of a handler.
def deliver : Result C → System C
  | .ok r        => { s with manager := r.1, sent := s.sent ++ r.2 }
  | .error fault => { s with status := .stopped fault }

def act : Action → System C
  | .downstream m => { s with requests := s.requests ++ openRequest m }.deliver <|
    s.manager.handleDownstreamMessage m
  | .upstream m   => { s with granted := grant s.granted m }.deliver <|
    s.manager.handleMiningMessageFromServer m
  | .extensions m => s.deliver (s.manager.handleExtensionsMessageFromServer cfg m)
  | .fallback     => {
    manager  := s.manager.resetForUpstreamReconnection
    status   := s.status
    requests := []
    granted  := ∅
    sent     := [] }

def step (a : Action) : Option (System C) :=
  match s.status with
  | .running   => some (s.act cfg a)
  | .stopped _ => none

structure Init (mode : ChannelMode) : Prop where
  manager  : s.manager = .new mode
  running  : s.status = .running
  requests : s.requests = []
  granted  : s.granted = ∅
  sent     : s.sent = []

def start (mode : ChannelMode) : System C where
  manager  := .new mode
  status   := .running
  requests := []
  granted  := ∅
  sent     := []

theorem start_init {mode : ChannelMode} : Init (start mode : System C) mode :=
  ⟨rfl, rfl, rfl, rfl, rfl⟩

-- What a step may do. A handler that fails changes nothing but the status.
inductive Moves (s : System C) : Action → System C → Prop
  | downstream {m : Mining} {manager : ChannelManager C} {messages : List RouteMessageTo} :
    s.manager.Handles m manager messages → Moves s (.downstream m)
      { s with
        manager  := manager
        requests := s.requests ++ openRequest m
        sent     := s.sent ++ messages }
  | upstream {m : Mining} {manager : ChannelManager C} {messages : List RouteMessageTo} :
    s.manager.Follows m manager messages → Moves s (.upstream m)
      { s with
        manager := manager
        granted := grant s.granted m
        sent    := s.sent ++ messages }
  | extensions {m : Extensions} {extensions : List UInt16} {messages : List RouteMessageTo} :
    (∀ o ∈ messages, ∃ m', o = .extensions m') → Moves s (.extensions m)
      { s with
        manager := { s.manager with negotiatedExtensions := extensions }
        sent    := s.sent ++ messages }
  | fallback : Moves s .fallback
      { s with
        manager  := s.manager.resetForUpstreamReconnection
        requests := []
        granted  := ∅
        sent     := [] }
  | downstreamFails {m : Mining} {fault : Fault TproxyError} :
    s.manager.handleDownstreamMessage m = .error fault → Moves s (.downstream m)
      { s with requests := s.requests ++ openRequest m, status := .stopped fault }
  | upstreamFails {m : Mining} {fault : Fault TproxyError} :
    s.manager.handleMiningMessageFromServer m = .error fault → Moves s (.upstream m)
      { s with granted := grant s.granted m, status := .stopped fault }
  | extensionsFails {m : Extensions} {fault : Fault TproxyError} :
    s.manager.handleExtensionsMessageFromServer cfg m = .error fault → Moves s (.extensions m)
      { s with status := .stopped fault }

variable {cfg s} {s' : System C} {a : Action}

theorem moves_of_step (h : s.step cfg a = some s') : s.status = .running ∧ s.Moves cfg a s' := by
  rw [step] at h
  split at h
  case h_2 => cases h
  case h_1 hs =>
    refine ⟨hs, ?_⟩
    cases h
    cases a with
    | downstream m =>
      rw [act]
      cases hr : s.manager.handleDownstreamMessage m with
      | ok r        => exact .downstream (ChannelManager.handles_of_ok hr)
      | error fault => exact .downstreamFails hr
    | upstream m =>
      rw [act]
      cases hr : s.manager.handleMiningMessageFromServer m with
      | ok r        => exact .upstream (ChannelManager.follows_of_ok hr)
      | error fault => exact .upstreamFails hr
    | extensions m =>
      rw [act]
      cases hr : s.manager.handleExtensionsMessageFromServer cfg m with
      | error fault => exact .extensionsFails hr
      | ok r        =>
        obtain ⟨⟨extensions, he⟩, hm⟩ := ChannelManager.negotiates_of_ok hr
        rw [deliver, he]
        exact .extensions hm
    | fallback => exact .fallback

theorem updateChannels_mode {s : ChannelManager C} {channelId : ChannelId}
    {f g : C.Channel → C.Channel} : (s.updateChannels channelId f g).mode = s.mode := by
  rw [ChannelManager.updateChannels]
  split <;> rfl

theorem mode_downstream {manager : ChannelManager C} {m : Mining} {messages : List RouteMessageTo}
    (h : s.manager.Handles m manager messages) : manager.mode = s.manager.mode := by
  cases h with
  | aggregated _ _ _ _ _ h | nonAggregated _ _ _ h =>
    obtain ⟨_, _, rfl, _⟩ := h
    rfl
  | _ => rfl

theorem mode_upstream {manager : ChannelManager C} {m : Mining} {messages : List RouteMessageTo}
    (h : s.manager.Follows m manager messages) : manager.mode = s.manager.mode := by
  cases h with
  | job      => exact updateChannels_mode
  | prevHash => exact updateChannels_mode
  | target   => exact updateChannels_mode
  | _        => rfl

theorem mode_step (h : s.step cfg a = some s') : s'.manager.mode = s.manager.mode := by
  cases (moves_of_step h).right with
  | downstream hm => exact mode_downstream hm
  | upstream hm   => exact mode_upstream hm
  | _             => rfl

end System

def machine (C : TranslatorCore) (cfg : Config) (mode : ChannelMode) :
    Machine (System C) Action where
  Init := (System.Init · mode)
  step := System.step cfg

end Translator
