import StratumApps.Lib.Chunks
import StratumApps.Lib.Transition
import StratumApps.Sv2.Basic

open Sv2

namespace Network

variable {σ φ ε : Type}

-- What `next_frame` gives on a full buffer.
inductive Decoded (φ ε : Type)
  | frame (f : φ)
  | missingBytes
  | error (e : ε)
  deriving DecidableEq

-- The decoder with the cipher of the session: `writable_len`, and `next_frame` on the bytes that have
-- been copied to `writable`.
abbrev Decoder (σ φ ε : Type) := Consumer σ UInt8 (Decoded φ ε)

inductive ReadError (ε : Type)
  | socketClosed
  | codecError (e : ε)
  deriving DecidableEq

structure NoiseTcpReadHalf (σ : Type) where
  decoder         : σ
  currentFrameBuf : Bytes
  bytesRead       : ℕ

-- The two points at which `read_frame` waits.
inductive Await
  | read
  | yieldNow
  deriving DecidableEq

inductive Poll (φ ε : Type)
  | pending (a : Await)
  | ready (r : Except (ReadError ε) φ)

namespace NoiseTcpReadHalf

variable (D : Decoder σ φ ε) (half : NoiseTcpReadHalf σ)

def new (d : σ) : NoiseTcpReadHalf σ where
  decoder         := d
  currentFrameBuf := []
  bytesRead       := 0

def writableLen : ℕ :=
  D.demand half.decoder

-- A frame buffer of another length than the decoder wants is resized, and read anew.
def resize : NoiseTcpReadHalf σ :=
  let expected := half.writableLen D
  if half.currentFrameBuf.length = expected then
    half
  else
    { half with
      currentFrameBuf := half.currentFrameBuf.take expected ++
        .replicate (expected - half.currentFrameBuf.length) 0
      bytesRead       := 0 }

-- A read of some bytes, behind those that the buffer has already.
def fill (bytes : Bytes) : NoiseTcpReadHalf σ :=
  { half with
    currentFrameBuf := half.currentFrameBuf.take half.bytesRead ++ bytes ++
      half.currentFrameBuf.drop (half.bytesRead + bytes.length)
    bytesRead       := half.bytesRead + bytes.length }

def nextFrame : Decoded φ ε × NoiseTcpReadHalf σ :=
  let (decoded, decoder) := D.consume half.decoder half.currentFrameBuf
  (decoded, { half with decoder := decoder, bytesRead := 0 })

-- From the condition of the inner loop on, up to the next point at which `read_frame` waits or
-- returns.
def readLoop : Poll φ ε × NoiseTcpReadHalf σ :=
  if half.bytesRead < half.writableLen D then
    (.pending .read, half)
  else
    let (decoded, half) := half.nextFrame D
    match decoded with
    | .frame f      => (.ready (.ok f), half)
    | .missingBytes => (.pending .yieldNow, half)
    | .error e      => (.ready (.error (.codecError e)), half)

-- From the start of the outer loop on.
def readFrame : Poll φ ε × NoiseTcpReadHalf σ :=
  (half.resize D).readLoop D

-- `try_read_frame` with the bytes of its read.
def tryReadFrame (bytes : Bytes) : Except (ReadError ε) (Option φ) × NoiseTcpReadHalf σ :=
  let half := (half.resize D).fill bytes
  if half.bytesRead < half.writableLen D then
    (.ok none, half)
  else
    let (decoded, half) := half.nextFrame D
    match decoded with
    | .frame f      => (.ok (some f), half)
    | .missingBytes => (.ok none, half)
    | .error e      => (.error (.codecError e), half)

end NoiseTcpReadHalf

-- The reading half with its socket: the call of `read_frame` that is under way, the bytes that have
-- arrived and are not yet read, whether the peer has closed, what the calls have returned, and all
-- bytes that have been read.
structure Reader (σ φ ε : Type) where
  half     : NoiseTcpReadHalf σ
  call     : Option Await
  arrived  : Bytes
  closed   : Bool
  returned : List (Except (ReadError ε) φ)
  consumed : Bytes

-- What a read of the socket gives: some of the bytes that have arrived, the end of the stream, or an
-- error.
inductive SocketRead
  | bytes (n : ℕ)
  | closed
  | error
  deriving DecidableEq

-- A read that does not block gives nothing when it would.
inductive ReadAction
  | arrive (bytes : Bytes)
  | close
  | readFrame
  | poll (r : SocketRead)
  | resume
  | cancel
  | tryReadFrame (r : Option SocketRead)
  deriving DecidableEq

def ReadAction.arriving : ReadAction → Bytes
  | .arrive bytes => bytes
  | _             => []

-- What calls of `read_frame` do by themselves: they are made, take what a read gives, and go on.
def ReadAction.Reads : ReadAction → Prop
  | .readFrame | .poll (.bytes _) | .resume => True
  | _                                       => False

theorem ReadAction.Reads.arriving {a : ReadAction} (h : a.Reads) : a.arriving = [] := by
  cases a <;> first | rfl | cases h

namespace Reader

variable (D : Decoder σ φ ε) (s : Reader σ φ ε)

def settle : Poll φ ε × NoiseTcpReadHalf σ → Reader σ φ ε
  | (.pending a, half) => { s with half := half, call := some a }
  | (.ready r, half)   => { s with half := half, call := none, returned := s.returned ++ [r] }

def settleTry : Except (ReadError ε) (Option φ) × NoiseTcpReadHalf σ → Reader σ φ ε
  | (.ok none, half)     => { s with half := half }
  | (.ok (some f), half) => { s with half := half, returned := s.returned ++ [.ok f] }
  | (.error e, half)     => { s with half := half, returned := s.returned ++ [.error e] }

-- The socket hands out the first bytes that have arrived.
def take (n : ℕ) : Reader σ φ ε :=
  { s with arrived := s.arrived.drop n, consumed := s.consumed ++ s.arrived.take n }

-- A read gives at least one byte, and no more than there is room for.
def Gives (half : NoiseTcpReadHalf σ) : SocketRead → Prop
  | .bytes n => 0 < n ∧ n ≤ s.arrived.length ∧ half.bytesRead + n ≤ half.currentFrameBuf.length
  | .closed  => s.closed ∧ s.arrived = []
  | .error   => True

instance {half : NoiseTcpReadHalf σ} : DecidablePred (s.Gives half)
  | .bytes n => inferInstanceAs <| Decidable <|
    0 < n ∧ n ≤ s.arrived.length ∧ half.bytesRead + n ≤ half.currentFrameBuf.length
  | .closed  => inferInstanceAs (Decidable (s.closed ∧ s.arrived = []))
  | .error   => inferInstanceAs (Decidable True)

def polled : SocketRead → Reader σ φ ε
  | .bytes n         => (s.take n).settle ((s.half.fill (s.arrived.take n)).readLoop D)
  | .closed | .error => s.settle (.ready (.error .socketClosed), s.half)

def tried : SocketRead → Reader σ φ ε
  | .bytes n         => (s.take n).settleTry (s.half.tryReadFrame D (s.arrived.take n))
  | .closed | .error => s.settleTry (.error .socketClosed, s.half.resize D)

-- A call that is cancelled is dropped where it waits. No other call can be made while one is under
-- way.
def step : ReadAction → Option (Reader σ φ ε)
  | .arrive bytes          =>
    if s.closed then none else some { s with arrived := s.arrived ++ bytes }
  | .close                 => some { s with closed := true }
  | .readFrame             => if s.call = none then some (s.settle (s.half.readFrame D)) else none
  | .poll r                =>
    if s.call = some .read ∧ s.Gives s.half r then some (s.polled D r) else none
  | .resume                =>
    if s.call = some .yieldNow then some (s.settle (s.half.readFrame D)) else none
  | .cancel                => if s.call ≠ none then some { s with call := none } else none
  | .tryReadFrame none     =>
    if s.call = none then some { s with half := s.half.resize D } else none
  | .tryReadFrame (some r) =>
    if s.call = none ∧ s.Gives (s.half.resize D) r then some (s.tried D r) else none

def start (d : σ) : Reader σ φ ε where
  half     := .new d
  call     := none
  arrived  := []
  closed   := false
  returned := []
  consumed := []

def machine (d : σ) : Machine (Reader σ φ ε) ReadAction where
  Init s := s = start d
  step   := step D

end Reader

end Network
