import StratumApps.Network.ReadHalf
import StratumApps.Network.WriteHalf

open Sv2

namespace Network

variable {σ τ φ ψ ε ε' : Type}

inductive Frame (φ : Type)
  | handShake (payload : Bytes)
  | sv2 (frame : φ)
  deriving DecidableEq

-- An unbounded channel. What it held when it was closed can still be received.
structure Channel (ψ : Type) where
  queue  : List ψ
  closed : Bool
  deriving DecidableEq

def Channel.empty : Channel ψ where
  queue  := []
  closed := false

-- What the tasks of a connection forward between its channels and its socket. A frame that is not
-- forwarded ends the task that has read it.
structure Forwarding (φ ψ : Type) where
  toFrame : ψ → Frame φ
  ofFrame : Frame φ → Option ψ
  ofFrame_eq_some : ∀ f m, ofFrame f = some m ↔ f = toFrame m

def spawnIoTasks : Forwarding φ φ where
  toFrame := .sv2
  ofFrame
    | .handShake _ => none
    | .sv2 frame   => some frame
  ofFrame_eq_some f m := by cases f <;> simp

def Connection.new : Forwarding φ (Frame φ) where
  toFrame         := id
  ofFrame         := some
  ofFrame_eq_some := by simp

-- One end of a connection: its channels, its two tasks with their halves, and what its owner has put
-- into the outbound channel and taken out of the inbound one.
structure Peer (σ τ φ ψ ε : Type) where
  outbound : Channel ψ
  inbound  : Channel ψ
  writer   : Writer σ (Frame φ)
  writing  : Bool
  reader   : Reader τ (Frame φ) ε
  reading  : Bool
  accepted : List ψ
  received : List ψ

-- What the reader task does with its call of `read_frame`.
inductive ReadCall
  | start
  | poll (r : SocketRead)
  | resume
  deriving DecidableEq

def ReadCall.action : ReadCall → ReadAction
  | .start  => .readFrame
  | .poll r => .poll r
  | .resume => .resume

-- A notice on the shutdown bus ends the reader task or not, and cancels its call in both cases. The
-- writer task waits for notices only while it waits for the outbound channel.
inductive PeerAction (ψ : Type)
  | send (m : ψ)
  | recv
  | close
  | write (io : WriteAll)
  | endWriter
  | read (call : ReadCall)
  | notice (stops : Bool)
  deriving DecidableEq

namespace Peer

variable (T : Forwarding φ ψ) (E : Encoder σ (Frame φ) ε') (D : Decoder τ (Frame φ) ε)
variable (p : Peer σ τ φ ψ ε)

def start (c : σ) (d : τ) : Peer σ τ φ ψ ε where
  outbound := .empty
  inbound  := .empty
  writer   := .start c
  writing  := true
  reader   := .start d
  reading  := true
  accepted := []
  received := []

def closeChannels : Peer σ τ φ ψ ε :=
  { p with
    outbound := { p.outbound with closed := true }
    inbound  := { p.inbound with closed := true } }

def send (m : ψ) : Option (Peer σ τ φ ψ ε) :=
  if p.outbound.closed then
    none
  else
    some { p with
      outbound := { p.outbound with queue := p.outbound.queue ++ [m] }
      accepted := p.accepted ++ [m] }

def recv : Option (Peer σ τ φ ψ ε) :=
  match p.inbound.queue with
  | []      => none
  | m :: ms => some { p with
      inbound  := { p.inbound with queue := ms }
      received := p.received ++ [m] }

def stopWriter : Peer σ τ φ ψ ε :=
  { p.closeChannels with writing := false }

-- The writer task takes a message out of the channel and writes it to its end.
def write (io : WriteAll) : Option (Peer σ τ φ ψ ε) :=
  match p.writing, p.outbound.queue with
  | true, m :: ms =>
    (p.writer.step E (.writeFrame (T.toFrame m) io)).map fun w =>
      let p' := { p with outbound := { p.outbound with queue := ms }, writer := w }
      match (p.writer.half.writeFrame E (T.toFrame m) io).returned with
      | .ok _    => p'
      | .error _ => p'.stopWriter
  | _, _ => none

def endWriter : Option (Peer σ τ φ ψ ε) :=
  if p.writing then some p.stopWriter else none

def stopReader : Peer σ τ φ ψ ε :=
  { p.closeChannels with reading := false }

-- What the reader task does with what `read_frame` has returned.
def forward : Except (ReadError ε) (Frame φ) → Peer σ τ φ ψ ε
  | .ok frame =>
    match T.ofFrame frame with
    | some m =>
      if p.inbound.closed then
        p.stopReader
      else
        { p with inbound := { p.inbound with queue := p.inbound.queue ++ [m] } }
    | none   => p.stopReader
  | .error _ => p.stopReader

def read (call : ReadCall) : Option (Peer σ τ φ ψ ε) :=
  if p.reading then
    (p.reader.step D call.action).map fun r =>
      let p' := { p with reader := r }
      match r.returned.drop p.reader.returned.length with
      | []       => p'
      | res :: _ => p'.forward T res
  else
    none

def notice (stops : Bool) : Option (Peer σ τ φ ψ ε) :=
  if p.reading then
    let p' := { p with reader := { p.reader with call := none } }
    some (if stops then p'.stopReader else p')
  else
    none

def step : PeerAction ψ → Option (Peer σ τ φ ψ ε)
  | .send m       => p.send m
  | .recv         => p.recv
  | .close        => some p.closeChannels
  | .write io     => p.write T E io
  | .endWriter    => p.endWriter
  | .read call    => p.read T D call
  | .notice stops => p.notice stops

end Peer

-- The two ends of a connection, by their roles in its handshake.
inductive Side
  | initiator
  | responder
  deriving DecidableEq

def Side.other : Side → Side
  | initiator => responder
  | responder => initiator

structure Link (σ τ φ ψ ε : Type) where
  peer : Side → Peer σ τ φ ψ ε

-- `arrive` and `fin` are what the network does at a side.
inductive LinkAction (ψ : Type)
  | peer (x : Side) (a : PeerAction ψ)
  | arrive (x : Side) (n : ℕ)
  | fin (x : Side)
  deriving DecidableEq

namespace Link

variable (T : Forwarding φ ψ) (E : Encoder σ (Frame φ) ε') (D : Decoder τ (Frame φ) ε)
variable (s : Link σ τ φ ψ ε) (x : Side)

def set (p : Peer σ τ φ ψ ε) : Link σ τ φ ψ ε where
  peer := Function.update s.peer x p

-- The bytes from the other side that have not arrived yet.
def transit : Bytes :=
  (s.peer x.other).writer.wire.drop
    ((s.peer x).reader.consumed.length + (s.peer x).reader.arrived.length)

def network (a : ReadAction) : Option (Link σ τ φ ψ ε) :=
  ((s.peer x).reader.step D a).map fun r => s.set x { s.peer x with reader := r }

-- The bytes of a side arrive in order, and then its end.
def step : LinkAction ψ → Option (Link σ τ φ ψ ε)
  | .peer x a   => ((s.peer x).step T E D a).map (s.set x)
  | .arrive x n => s.network D x (.arrive ((s.transit x).take n))
  | .fin x      =>
    if (s.peer x.other).writing = false ∧ s.transit x = [] then s.network D x .close else none

def start (c : Side → σ) (d : Side → τ) : Link σ τ φ ψ ε where
  peer x := .start (c x) (d x)

def machine (c : Side → σ) (d : Side → τ) : Machine (Link σ τ φ ψ ε) (LinkAction ψ) where
  Init s := s = start c d
  step   := step T E D

end Link

end Network
