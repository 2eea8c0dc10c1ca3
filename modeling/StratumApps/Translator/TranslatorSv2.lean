import StratumApps.Translator.System
import StratumApps.Translator.Sv1.Steps

open Sv2 Handler StratumCore

namespace Translator

-- A message in a queue, with the session of the one who put it there.
structure Queued (α : Type) where
  session : ℕ
  message : α
  deriving DecidableEq

inductive Frame
  | mining (m : Mining)
  | extensions (m : Extensions)
  deriving DecidableEq

def Frame.action : Frame → Action
  | .mining m     => .upstream m
  | .extensions m => .extensions m

-- The SV1 server with its downstreams, the channel manager, the queues between them and the upstream,
-- and how often each of the three has started over with another upstream.
structure TranslatorSv2 (C : TranslatorCore) where
  sv1                       : Sv1.System
  manager                   : System C
  sv1Session                : ℕ
  managerSession            : ℕ
  upstreamSession           : ℕ
  upstreamToChannelManager  : List (Queued Frame)
  channelManagerToUpstream  : List (Queued Frame)
  channelManagerToSv1Server : List (Queued Mining)
  sv1ServerToChannelManager : List (Queued Mining)

structure TranslatorConfig where
  sv1     : Sv1.Config
  manager : Config

def TranslatorConfig.mode (cfg : TranslatorConfig) : ChannelMode :=
  if cfg.sv1.aggregateChannels then .aggregated else .nonAggregated

-- The messages among those of the channel manager that are for the SV1 server, and those for the
-- upstream.
def RouteMessageTo.sv1Server? : RouteMessageTo → Option Mining
  | .sv1Server m => some m
  | _            => none

def RouteMessageTo.upstream? : RouteMessageTo → Option Frame
  | .upstream m   => some (.mining m)
  | .extensions m => some (.extensions m)
  | _             => none

namespace TranslatorSv2

variable {C : TranslatorCore}

-- The SV1 side goes on; the server or the channel manager takes the next message for it; the tasks of
-- the upstream take a frame from it, or send it one; the channel manager or the server processes the
-- fallback; another upstream is connected, and the server starts again.
inductive Action
  | sv1 (a : Sv1.Action)
  | sv1Server
  | downstream
  | upstream
  | frame (f : Frame)
  | send
  | managerFallback
  | sv1Fallback
  | connect
  deriving DecidableEq

variable (K : Sv1.Core) (cfg : TranslatorConfig) (s : TranslatorSv2 C)

def start (C : TranslatorCore) (cfg : TranslatorConfig) : TranslatorSv2 C where
  sv1                       := .new cfg.sv1.aggregateChannels
  manager                   := .start cfg.mode
  sv1Session                := 0
  managerSession            := 0
  upstreamSession           := 0
  upstreamToChannelManager  := []
  channelManagerToUpstream  := []
  channelManagerToSv1Server := []
  sv1ServerToChannelManager := []

-- What a part has newly sent goes to the queues.
def withSv1 (sv1 : Sv1.System) : TranslatorSv2 C :=
  { s with
    sv1                       := sv1
    sv1ServerToChannelManager := s.sv1ServerToChannelManager ++
      (sv1.forwarded.drop s.sv1.forwarded.length).map (⟨s.sv1Session, ·.1⟩) }

def withManager (manager : System C) : TranslatorSv2 C :=
  let messages := manager.sent.drop s.manager.sent.length
  { s with
    manager                   := manager
    channelManagerToSv1Server := s.channelManagerToSv1Server ++
      (messages.filterMap (·.sv1Server?)).map (⟨s.managerSession, ·⟩)
    channelManagerToUpstream  := s.channelManagerToUpstream ++
      (messages.filterMap (·.upstream?)).map (⟨s.managerSession, ·⟩) }

-- The upstream is connected, and its tasks and the server run.
def connected : Bool :=
  s.sv1Session = s.upstreamSession

-- All that took part in the old session has ended or started over.
def settled : Bool :=
  s.sv1Session = s.upstreamSession + 1 && s.managerSession = s.upstreamSession + 1 &&
    s.sv1.objects.entries.all fun e => !e.2.runs

def step : Action → Option (TranslatorSv2 C)
  | .sv1 a =>
    if a.isOwn ∧ (a.isServer → s.connected) then (s.sv1.step K cfg.sv1 a).map s.withSv1 else none
  | .sv1Server =>
    match s.channelManagerToSv1Server with
    | []      => none
    | q :: qs => if s.connected then
        (s.sv1.step K cfg.sv1 (.upstream q.message)).map
          { s with channelManagerToSv1Server := qs }.withSv1
      else none
  | .downstream =>
    match s.sv1ServerToChannelManager with
    | []      => none
    | q :: qs => (s.manager.step cfg.manager (.downstream q.message)).map
      { s with sv1ServerToChannelManager := qs }.withManager
  | .upstream =>
    match s.upstreamToChannelManager with
    | []      => none
    | q :: qs => (s.manager.step cfg.manager q.message.action).map
      { s with upstreamToChannelManager := qs }.withManager
  | .frame f =>
    some { s with upstreamToChannelManager :=
      s.upstreamToChannelManager ++ [⟨s.upstreamSession, f⟩] }
  | .send =>
    match s.channelManagerToUpstream with
    | []      => none
    | _ :: qs => some { s with channelManagerToUpstream := qs }
  | .managerFallback =>
    if s.managerSession = s.upstreamSession then
      (s.manager.step cfg.manager .fallback).map fun manager =>
        { s with manager := manager, managerSession := s.managerSession + 1 }
    else
      none
  | .sv1Fallback =>
    if s.sv1Session = s.upstreamSession then
      (s.sv1.step K cfg.sv1 .fallback).map fun sv1 =>
        { s with sv1 := sv1, sv1Session := s.sv1Session + 1 }
    else
      none
  | .connect =>
    if s.settled then some { s with upstreamSession := s.upstreamSession + 1 } else none

-- What a step may do.
inductive Moves (s : TranslatorSv2 C) : Action → TranslatorSv2 C → Prop
  | sv1 {a : Sv1.Action} {t : Sv1.System} : a.isOwn → (a.isServer → s.connected) →
    s.sv1.step K cfg.sv1 a = some t → Moves s (.sv1 a) (s.withSv1 t)
  | sv1Server {q : Queued Mining} {qs : List (Queued Mining)} {t : Sv1.System} :
    s.channelManagerToSv1Server = q :: qs → s.connected →
    s.sv1.step K cfg.sv1 (.upstream q.message) = some t →
    Moves s .sv1Server ({ s with channelManagerToSv1Server := qs }.withSv1 t)
  | downstream {q : Queued Mining} {qs : List (Queued Mining)} {t : System C} :
    s.sv1ServerToChannelManager = q :: qs →
    s.manager.step cfg.manager (.downstream q.message) = some t →
    Moves s .downstream ({ s with sv1ServerToChannelManager := qs }.withManager t)
  | upstream {q : Queued Frame} {qs : List (Queued Frame)} {t : System C} :
    s.upstreamToChannelManager = q :: qs →
    s.manager.step cfg.manager q.message.action = some t →
    Moves s .upstream ({ s with upstreamToChannelManager := qs }.withManager t)
  | frame {f : Frame} : Moves s (.frame f) { s with
    upstreamToChannelManager := s.upstreamToChannelManager ++ [⟨s.upstreamSession, f⟩] }
  | send {q : Queued Frame} {qs : List (Queued Frame)} : s.channelManagerToUpstream = q :: qs →
    Moves s .send { s with channelManagerToUpstream := qs }
  | managerFallback {t : System C} : s.managerSession = s.upstreamSession →
    s.manager.step cfg.manager .fallback = some t →
    Moves s .managerFallback { s with manager := t, managerSession := s.managerSession + 1 }
  | sv1Fallback {t : Sv1.System} : s.sv1Session = s.upstreamSession →
    s.sv1.step K cfg.sv1 .fallback = some t →
    Moves s .sv1Fallback { s with sv1 := t, sv1Session := s.sv1Session + 1 }
  | connect : s.settled → Moves s .connect { s with upstreamSession := s.upstreamSession + 1 }

variable {K cfg s} {s' : TranslatorSv2 C} {a : Action}

theorem moves_of_step (h : s.step K cfg a = some s') : s.Moves K cfg a s' := by
  cases a with
  | sv1 a =>
    obtain ⟨⟨ho, hs⟩, h⟩ := Option.ite_none_right_eq_some.mp h
    obtain ⟨t, ht, rfl⟩ := Option.map_eq_some_iff.mp h
    exact .sv1 ho hs ht
  | sv1Server =>
    rw [step] at h
    split at h
    case h_1 => cases h
    case h_2 hq =>
      obtain ⟨hc, h⟩ := Option.ite_none_right_eq_some.mp h
      obtain ⟨t, ht, rfl⟩ := Option.map_eq_some_iff.mp h
      exact .sv1Server hq hc ht
  | downstream =>
    rw [step] at h
    split at h
    case h_1 => cases h
    case h_2 hq =>
      obtain ⟨t, ht, rfl⟩ := Option.map_eq_some_iff.mp h
      exact .downstream hq ht
  | upstream =>
    rw [step] at h
    split at h
    case h_1 => cases h
    case h_2 hq =>
      obtain ⟨t, ht, rfl⟩ := Option.map_eq_some_iff.mp h
      exact .upstream hq ht
  | frame f =>
    cases h
    exact .frame
  | send =>
    rw [step] at h
    split at h
    case h_1 => cases h
    case h_2 hq =>
      cases h
      exact .send hq
  | managerFallback =>
    obtain ⟨hs, h⟩ := Option.ite_none_right_eq_some.mp h
    obtain ⟨t, ht, rfl⟩ := Option.map_eq_some_iff.mp h
    exact .managerFallback hs ht
  | sv1Fallback =>
    obtain ⟨hs, h⟩ := Option.ite_none_right_eq_some.mp h
    obtain ⟨t, ht, rfl⟩ := Option.map_eq_some_iff.mp h
    exact .sv1Fallback hs ht
  | connect =>
    obtain ⟨hs, h⟩ := Option.ite_none_right_eq_some.mp h
    cases h
    exact .connect hs

-- A step is one of the SV1 side, or leaves it alone; and the same for the channel manager.
theorem sv1_of_step (h : s.step K cfg a = some s') :
    s'.sv1 = s.sv1 ∨ ∃ b, s.sv1.step K cfg.sv1 b = some s'.sv1 := by
  cases moves_of_step h with
  | sv1 _ _ ht        => exact .inr ⟨_, ht⟩
  | sv1Server _ _ ht  => exact .inr ⟨_, ht⟩
  | sv1Fallback _ ht  => exact .inr ⟨_, ht⟩
  | _                 => exact .inl rfl

end TranslatorSv2

def translator (C : TranslatorCore) (K : Sv1.Core) (cfg : TranslatorConfig) :
    Machine (TranslatorSv2 C) TranslatorSv2.Action where
  Init s := s = .start C cfg
  step   := TranslatorSv2.step K cfg

end Translator
