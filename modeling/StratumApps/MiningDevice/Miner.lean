import StratumApps.Lib.Sha256
import StratumApps.Sv2.Mining

open Sv2 Wire

namespace MiningDevice

abbrev Hash := Vector UInt8 32

abbrev Compress := Sha256.State → Sha256.Block → Sha256.State

structure Header where
  version       : UInt32
  prevBlockhash : U256
  merkleRoot    : U256
  time          : UInt32
  bits          : UInt32
  nonce         : UInt32
  deriving DecidableEq

def leBytes (n : UInt32) : Bytes :=
  littleEndian 4 n.toNat

def toLittleEndian (x : U256) : Bytes :=
  littleEndian 32 x.toNat

def Header.serialize (h : Header) : Bytes :=
  leBytes h.version ++ toLittleEndian h.prevBlockhash ++ toLittleEndian h.merkleRoot ++
    leBytes h.time ++ leBytes h.bits ++ leBytes h.nonce

def sha256InitialState : Sha256.State :=
  Sha256.words 0x6a09e667 0xbb67ae85 0x3c6ef372 0xa54ff53a 0x510e527f 0x9b05688c 0x1f83d9ab 0x5be0cd19

-- The words of a state, one after the other, over the first bytes of a buffer.
def writeWords {n : ℕ} (v : Vector UInt8 n) (s : Sha256.State) : Vector UInt8 n :=
  s.toList.zipIdx.foldl (fun v w => Buffer.write v (w.2 * 4) (bigEndian 4 w.1.toNat)) v

-- The state after the first 64 bytes of a header, the block with the rest of it, in which only the
-- time and the nonce are overwritten, and the block of the second pass.
structure FastSha256d where
  state0      : Sha256.State
  block1      : Sha256.Block
  secondBlock : Sha256.Block

namespace FastSha256d

variable (compress256 : Compress)

def zeros (n : ℕ) : Vector UInt8 n :=
  .replicate n 0

def fromHeaderStatic (h : Header) : FastSha256d :=
  let headerBytes := h.serialize
  let chunk0 := headerBytes.take 64
  let chunk1Last16 := headerBytes.drop 64
  let block := Buffer.write (zeros 64) 0 chunk0
  let block1 := Buffer.write (zeros 64) 0 chunk1Last16
  let block1 := Buffer.write block1 16 [0x80]
  let secondBlock := Buffer.write (zeros 64) 32 [0x80]
  { state0      := compress256 sha256InitialState block
    block1      := Buffer.write block1 56 (bigEndian 8 640)
    secondBlock := Buffer.write secondBlock 56 (bigEndian 8 256) }

def hashWithNonceTime (fast : FastSha256d) (nonce time : UInt32) : Hash × FastSha256d :=
  let block1 := Buffer.write fast.block1 4 (leBytes time)
  let block1 := Buffer.write block1 12 (leBytes nonce)
  let state1 := compress256 fast.state0 block1
  let secondBlock := writeWords fast.secondBlock state1
  let state2 := compress256 sha256InitialState secondBlock
  (writeWords (zeros 32) state2, { fast with block1 := block1, secondBlock := secondBlock })

end FastSha256d

-- The word at an index, of bytes in little-endian order.
def wordLe (bytes : Bytes) (i : ℕ) : ℕ :=
  value ((bytes.drop (4 * i)).take 4)

-- The flags `is_below` and `is_equal` after the loop over the words below an index, from the most
-- significant one.
def compareWords (hash tgtLe : Bytes) : ℕ → Bool × Bool
  | 0     => (false, true)
  | i + 1 =>
    match compare (wordLe hash i) (wordLe tgtLe i) with
    | .lt => (true, false)
    | .gt => (false, false)
    | .eq => compareWords hash tgtLe i

def hashMeetsTargetLe (hash : Hash) (tgtLe : Bytes) : Bool :=
  let (isBelow, isEqual) := compareWords hash.toList tgtLe 8
  isBelow || isEqual

inductive NextShareOutcome
  | validShare
  | invalidShare
  | noTarget
  | noHeader
  deriving DecidableEq

def NextShareOutcome.isValid : NextShareOutcome → Bool
  | validShare => true
  | _          => false

structure Miner where
  header     : Option Header
  target     : Option U256
  jobId      : Option JobId
  version    : Option UInt32
  handicap   : UInt32
  fastHasher : Option FastSha256d

namespace Miner

variable (compress256 : Compress)

def new (handicap : UInt32) : Miner where
  header     := none
  target     := none
  jobId      := none
  version    := none
  handicap   := handicap
  fastHasher := none

def newTarget (m : Miner) (target : U256) : Miner :=
  { m with target := some target }

-- The clock is read for the time of the header.
def newHeader (m : Miner) (now : UInt32) (p : SetNewPrevHashMp) (job : NewMiningJob) : Miner :=
  let header : Header := {
    version       := job.version
    prevBlockhash := p.prevHash
    merkleRoot    := job.merkleRoot
    time          := now
    bits          := p.nbits
    nonce         := 0 }
  { m with
    jobId      := some job.jobId
    version    := some job.version
    header     := some header
    fastHasher := some (.fromHeaderStatic compress256 header) }

end Miner

-- The double hash of a message, in the order in which a header is hashed.
def sha256d (compress256 : Compress) (m : Bytes) : Bytes :=
  Sha256.hash compress256 (Sha256.hash compress256 m)

def Header.blockHash (compress256 : Compress) (h : Header) : Hash :=
  Buffer.write (FastSha256d.zeros 32) 0 (sha256d compress256 h.serialize)

namespace Miner

variable (compress256 : Compress) (m : Miner)

def hashHeader (header : Header) : Hash × Miner :=
  match m.fastHasher with
  | none      => (header.blockHash compress256, m)
  | some fast =>
    let (hash, fast) := fast.hashWithNonceTime compress256 header.nonce header.time
    (hash, { m with fastHasher := some fast })

def nextShare : NextShareOutcome × Miner :=
  match m.header with
  | none        => (.noHeader, m)
  | some header =>
    let (hash, m) := m.hashHeader compress256 header
    match m.target with
    | none        => (.noTarget, m)
    | some target =>
      let (isBelow, isEqual) := compareWords hash.toList (toLittleEndian target) 8
      if isBelow || isEqual then
        (.validShare, m)
      else
        (.invalidShare, m)

end Miner

end MiningDevice
