import StratumApps.StratumCore.Interface

open Sv2 StratumCore

namespace Translator

-- A job of a client channel, with the extranonce prefix that the channel had when the job came.
abbrev ClientJob := NewExtendedMiningJob × Bytes

def chainTipOf (p : SetNewPrevHashMp) : ChainTip where
  prevHash := p.prevHash
  nbits    := p.nbits
  minNtime := p.minNtime

-- The extended channel at the side of a client that is sent its jobs.
structure ClientChannels (κ : Type) extends UpstreamChannels κ where
  getTarget              : κ → Target
  getActiveJob           : κ → Option ClientJob
  getFutureJobs          : κ → Map JobId ClientJob
  getChainTip            : κ → Option ChainTip
  setChainTip            : κ → ChainTip → κ
  onNewExtendedMiningJob : κ → NewExtendedMiningJob → Except ExtendedChannelError Unit × κ
  onSetNewPrevHash       : κ → SetNewPrevHashMp → Except ExtendedChannelError Unit × κ

-- A factory of extranonce prefixes behind the prefix of an upstream. No prefix is longer than the
-- longest extranonce. The ranges are counted in bytes.
structure ExtendedExtranonces (χ : Type) where
  fromUpstreamExtranonce : B032 → ℕ × ℕ → ℕ × ℕ → ℕ × ℕ → Except ExtendedExtranonceError χ
  nextPrefixExtended     : χ → ℕ → Except ExtendedExtranonceError B032 × χ
  getRange0Len           : χ → ℕ
  getRange2Len           : χ → ℕ

end Translator

open Translator

-- What the translator uses of the crates that `stratum_core` exports.
structure TranslatorCore where
  Channel    : Type
  Extranonce : Type
  channel    : ClientChannels Channel
  extranonce : ExtendedExtranonces Extranonce

namespace Translator

-- The work of a job, whoever it is for.
def plain (job : ClientJob) : NewExtendedMiningJob :=
  { job.1 with channelId := 0 }

section Laws

variable {κ : Type} (K : ClientChannels κ)

-- The same channel to the outside: its id and its extranonce prefix.
structure ClientChannels.Same (c c' : κ) : Prop where
  channelId        : K.getChannelId c' = K.getChannelId c
  extranoncePrefix : K.getExtranoncePrefix c' = K.getExtranoncePrefix c

-- The same work.
structure ClientChannels.Keeps (c c' : κ) : Prop where
  activeJob  : K.getActiveJob c' = K.getActiveJob c
  futureJobs : K.getFutureJobs c' = K.getFutureJobs c
  chainTip   : K.getChainTip c' = K.getChainTip c

-- No work yet.
structure ClientChannels.Idle (c : κ) : Prop where
  activeJob  : K.getActiveJob c = none
  futureJobs : K.getFutureJobs c = ∅
  chainTip   : K.getChainTip c = none

-- A client channel starts without jobs. It takes every job, a future one under its id, and a prev
-- hash activates the future job that it names and drops the others. A prev hash that names none is
-- refused, and nothing changes.
structure ClientChannels.Lawful : Prop where
  newChannelId      : ∀ c identity p target hashrate rolling size,
    K.getChannelId (K.new c identity p target hashrate rolling size) = c
  newPrefix         : ∀ c identity p target hashrate rolling size,
    K.getExtranoncePrefix (K.new c identity p target hashrate rolling size) = p
  newIdle           : ∀ c identity p target hashrate rolling size,
    K.Idle (K.new c identity p target hashrate rolling size)
  validateShare     : ∀ c share, K.Same c (K.validateShare c share).2 ∧
    K.Keeps c (K.validateShare c share).2
  setTarget         : ∀ c target, K.Same c (K.setTarget c target) ∧ K.Keeps c (K.setTarget c target)
  jobSame           : ∀ c job, K.Same c (K.onNewExtendedMiningJob c job).2
  prevHashSame      : ∀ c p, K.Same c (K.onSetNewPrevHash c p).2
  setChainTipSame   : ∀ c tip, K.Same c (K.setChainTip c tip)
  futureJob         : ∀ c job c', job.minNtime = none →
    c' = (K.onNewExtendedMiningJob c job).2 → K.getActiveJob c' = K.getActiveJob c ∧
      K.getFutureJobs c' = (K.getFutureJobs c).insert job.jobId (job, K.getExtranoncePrefix c) ∧
      K.getChainTip c' = K.getChainTip c
  job               : ∀ c job c', job.minNtime ≠ none →
    c' = (K.onNewExtendedMiningJob c job).2 →
      K.getActiveJob c' = some (job, K.getExtranoncePrefix c) ∧
        K.getFutureJobs c' = K.getFutureJobs c ∧ K.getChainTip c' = K.getChainTip c
  prevHash          : ∀ c p job c', (K.getFutureJobs c).lookup p.jobId = some job →
    c' = (K.onSetNewPrevHash c p).2 →
      K.getActiveJob c' = some ({ job.1 with minNtime := some p.minNtime }, job.2) ∧
        K.getFutureJobs c' = ∅ ∧ K.getChainTip c' = some (chainTipOf p)
  prevHashAbsent    : ∀ c p, (K.getFutureJobs c).lookup p.jobId = none →
    K.Keeps c (K.onSetNewPrevHash c p).2
  setChainTip       : ∀ c tip c', c' = K.setChainTip c tip → K.getActiveJob c' = K.getActiveJob c ∧
    K.getFutureJobs c' = K.getFutureJobs c ∧ K.getChainTip c' = some tip

end Laws

-- What a factory may be that has been made from the prefix of an upstream.
inductive ExtendedExtranonces.From {χ : Type} (X : ExtendedExtranonces χ) (upstream : Bytes) :
    χ → Prop
  | made {p : B032} {r₀ r₁ r₂ : ℕ × ℕ} {x : χ} :
    p.1 = upstream → r₀ = (0, p.1.length) → X.fromUpstreamExtranonce p r₀ r₁ r₂ = .ok x →
      X.From upstream x
  | next {x : χ} {n : ℕ} : X.From upstream x → X.From upstream (X.nextPrefixExtended x n).2

-- The prefix of the upstream is the first range, and every prefix goes on from it.
structure ExtendedExtranonces.Lawful {χ : Type} (X : ExtendedExtranonces χ) : Prop where
  range0Len : ∀ upstream x, X.From upstream x → X.getRange0Len x = upstream.length
  next      : ∀ upstream x n p, X.From upstream x → (X.nextPrefixExtended x n).1 = .ok p →
    upstream <+: p.1

end Translator

open Translator

structure TranslatorCore.Lawful (C : TranslatorCore) : Prop where
  channel    : C.channel.Lawful
  extranonce : C.extranonce.Lawful
