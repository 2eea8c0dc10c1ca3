import StratumApps.Translator.Sv1.Server

open Sv2 Handler StratumCore

namespace Translator.Sv1

-- A miner connects, sends, or leaves; the task of its downstream goes on or takes a message of the
-- server; the server takes a message of a downstream or of the channel manager, finds that hashrates
-- have changed, goes on with what it is doing, hears that a downstream is gone, or is told that the
-- upstream is another one.
inductive Action
  | accept
  | miner (d : DownstreamId) (m : ClientMessage)
  | task (d : DownstreamId)
  | receive (d : DownstreamId)
  | stop (d : DownstreamId)
  | downstream
  | upstream (m : Mining)
  | tick (updates : List (DownstreamId × Hashrate))
  | serve
  | downstreamShutdown (d : DownstreamId)
  | fallback
  deriving DecidableEq

-- What the miners and the SV1 server do of their own accord, and what the loop of the server does.
def Action.isOwn : Action → Bool
  | .upstream _ | .fallback => false
  | _                       => true

def Action.isServer : Action → Bool
  | .accept | .downstream | .tick _ | .serve | .downstreamShutdown _ => true
  | _                                                                => false

namespace Downstream

-- A task that waits takes the next message of its miner.
def take (o : Downstream) (m : ClientMessage) : Option Downstream :=
  if o.runs ∧ o.todo = [] then
    some { o with sent := o.sent ++ [m], todo := [.checkEstablished m] }
  else
    none

-- It ends when it has fallen so far behind that the message is gone.
def receive (o : Downstream) : Option Downstream :=
  match o.received with
  | []      => none
  | e :: es =>
    if o.runs ∧ o.todo = [] then
      some <| if capacity < o.received.length then o.ends
        else { o with received := es }.handleSv1ServerMessage e
    else
      none

def goOn (C : Core) (validJobs : List Notify) (o : Downstream) :
    Option (Downstream × List DownstreamMessages) :=
  match o.todo with
  | []        => none
  | op :: ops => if o.runs then some ({ o with todo := ops }.exec C validJobs op) else none

def stop (o : Downstream) : Option Downstream :=
  if o.runs ∧ o.todo = [] then some o.ends else none

end Downstream

namespace System

variable (C : Core) (cfg : Config) (s : System)

def replace (d : DownstreamId) (o : Downstream) : System :=
  { s with objects := s.objects.insert d o }

def update (d : DownstreamId) (f : Downstream → Option Downstream) : Option System :=
  ((s.objects.lookup d).bind f).map (s.replace d)

def task (d : DownstreamId) : Option System :=
  ((s.objects.lookup d).bind fun o => o.goOn C (s.server.validJobs o.data.channelId)).map fun r =>
    { s.replace d r.1 with inbox := s.inbox ++ r.2 }

-- The server takes something new when it is done with the last.
def idle (s' : System) : Option System :=
  if s.status = .running ∧ s.todo = [] then some s' else none

def step : Action → Option System
  | .accept               => s.idle (s.accept cfg)
  | .miner d m            => s.update d (·.take m)
  | .task d               => s.task C d
  | .receive d            => s.update d (·.receive)
  | .stop d               => s.update d (·.stop)
  | .downstream           =>
    match s.inbox with
    | []      => none
    | m :: ms => s.idle ({ s with inbox := ms }.handleDownstreamMessage C cfg m)
  | .upstream m           => s.idle (s.handleUpstreamMessage C cfg m)
  | .tick updates         => if cfg.enableVardiff then s.idle (s.next [.vardiff updates [] []]) else none
  | .serve                =>
    match s.todo with
    | []        => none
    | op :: ops =>
      if s.status = .running then some ({ s with todo := ops }.exec C cfg op) else none
  | .downstreamShutdown d => s.idle (s.downstreamShutdown C cfg d)
  | .fallback             => s.idle (s.fallback cfg)

end System

def machine (C : Core) (cfg : Config) : Machine System Action where
  Init s := s = .new cfg.aggregateChannels
  step   := System.step C cfg

end Translator.Sv1
