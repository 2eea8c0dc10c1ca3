import StratumApps.Lib.Transition
import StratumApps.Sv2.Basic

open Sv2

namespace Network

-- The encoder with the cipher of the session, which both go on with every frame.
structure Encoder (σ φ ε : Type) where
  encode : σ → φ → Except ε Bytes × σ

variable {σ φ ε : Type}

-- A frame that cannot be encoded leaves the cipher as it is, and one that can goes on with it.
structure Encoder.Lawful (E : Encoder σ φ ε) : Prop where
  keeps    : ∀ c f e c', E.encode c f = (.error e, c') → c' = c
  advances : ∀ c f buf c', E.encode c f = (.ok buf, c') → c' ≠ c

inductive WriteError (ε : Type)
  | socketClosed
  | codecError (e : ε)
  deriving DecidableEq

-- How the socket takes a buffer that is written as a whole. It can fail after some bytes.
inductive WriteAll
  | complete
  | fails (n : ℕ)
  deriving DecidableEq

inductive TryWrite
  | accepts (n : ℕ)
  | wouldBlock
  | fails
  deriving DecidableEq

structure NoiseTcpWriteHalf (σ : Type) where
  cipher : σ

-- What a call returns, the bytes that it has put on the wire, and the half after it.
structure Written (σ ε α : Type) where
  returned : Except (WriteError ε) α
  wire     : Bytes
  half     : NoiseTcpWriteHalf σ

namespace NoiseTcpWriteHalf

variable (E : Encoder σ φ ε) (half : NoiseTcpWriteHalf σ) (f : φ)

def writeFrame (io : WriteAll) : Written σ ε Unit :=
  match E.encode half.cipher f with
  | (.error e, c) => ⟨.error (.codecError e), [], ⟨c⟩⟩
  | (.ok buf, c)  =>
    match io with
    | .complete => ⟨.ok (), buf, ⟨c⟩⟩
    | .fails n  => ⟨.error .socketClosed, buf.take n, ⟨c⟩⟩

def tryWriteFrame (io : TryWrite) : Written σ ε Bool :=
  match E.encode half.cipher f with
  | (.error e, c) => ⟨.error (.codecError e), [], ⟨c⟩⟩
  | (.ok buf, c)  =>
    match io with
    | .accepts n  =>
      if n = buf.length then
        ⟨.ok true, buf, ⟨c⟩⟩
      else
        ⟨.error .socketClosed, buf.take n, ⟨c⟩⟩
    | .wouldBlock => ⟨.ok false, [], ⟨c⟩⟩
    | .fails      => ⟨.error .socketClosed, [], ⟨c⟩⟩

end NoiseTcpWriteHalf

inductive WriteAction (φ : Type)
  | writeFrame (f : φ) (io : WriteAll)
  | tryWriteFrame (f : φ) (io : TryWrite)
  deriving DecidableEq

-- The half with its socket: whether the socket has failed, all bytes that have been put on the wire,
-- and the frames whose call has returned success.
structure Writer (σ φ : Type) where
  half   : NoiseTcpWriteHalf σ
  failed : Bool
  wire   : Bytes
  sent   : List φ

namespace Writer

variable (E : Encoder σ φ ε) (s : Writer σ φ)

-- What the socket can do with the bytes of a frame. One that has failed takes nothing more.
def Takes (buf : Bytes) : WriteAction φ → Prop
  | .writeFrame _ .complete       => s.failed = false
  | .writeFrame _ (.fails n)      => n < buf.length ∧ (s.failed = true → n = 0)
  | .tryWriteFrame _ (.accepts n) => n ≤ buf.length ∧ s.failed = false
  | .tryWriteFrame _ .wouldBlock  => s.failed = false
  | .tryWriteFrame _ .fails       => True

instance {buf : Bytes} : DecidablePred (s.Takes buf)
  | .writeFrame _ .complete       => inferInstanceAs (Decidable (s.failed = false))
  | .writeFrame _ (.fails n)      =>
    inferInstanceAs (Decidable (n < buf.length ∧ (s.failed = true → n = 0)))
  | .tryWriteFrame _ (.accepts n) => inferInstanceAs (Decidable (n ≤ buf.length ∧ s.failed = false))
  | .tryWriteFrame _ .wouldBlock  => inferInstanceAs (Decidable (s.failed = false))
  | .tryWriteFrame _ .fails       => inferInstanceAs (Decidable True)

-- An error of the socket, or a write that takes no byte of the frame, is its end.
def ends (buf : Bytes) : WriteAction φ → Bool
  | .writeFrame _ .complete       => false
  | .writeFrame _ (.fails _)      => true
  | .tryWriteFrame _ (.accepts n) => n = 0 && n < buf.length
  | .tryWriteFrame _ .wouldBlock  => false
  | .tryWriteFrame _ .fails       => true

end Writer

namespace WriteAction

def frame : WriteAction φ → φ
  | writeFrame f _ | tryWriteFrame f _ => f

-- A call of either kind. `Ok(())` is the `Ok(true)` of the other one.
def written (E : Encoder σ φ ε) (half : NoiseTcpWriteHalf σ) : WriteAction φ → Written σ ε Bool
  | writeFrame f io    =>
    let w := half.writeFrame E f io
    { w with returned := w.returned.map fun _ => true }
  | tryWriteFrame f io => half.tryWriteFrame E f io

end WriteAction

namespace Writer

variable (E : Encoder σ φ ε) (s : Writer σ φ)

def step (a : WriteAction φ) : Option (Writer σ φ) :=
  let w := a.written E s.half
  let next : Writer σ φ := { s with
    half := w.half
    wire := s.wire ++ w.wire
    sent := if w.returned.toOption = some true then s.sent ++ [a.frame] else s.sent }
  match (E.encode s.half.cipher a.frame).1 with
  | .error _ => some next
  | .ok buf  =>
    if s.Takes buf a then some { next with failed := s.failed || ends buf a } else none

def start (c : σ) : Writer σ φ where
  half   := ⟨c⟩
  failed := false
  wire   := []
  sent   := []

def machine (c : σ) : Machine (Writer σ φ) (WriteAction φ) where
  Init s := s = start c
  step   := step E

end Writer

end Network
