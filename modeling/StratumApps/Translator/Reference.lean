import StratumApps.Lib.Wire
import StratumApps.Translator.System

open Sv2 Handler StratumCore

namespace Translator.Reference

-- A client channel, but for the accounting of its shares.
structure Channel where
  channelId        : ChannelId
  extranoncePrefix : Bytes
  rollable         : UInt16
  target           : Target
  activeJob        : Option ClientJob
  futureJobs       : Map JobId ClientJob
  pastJobs         : Map JobId ClientJob
  chainTip         : Option ChainTip

namespace Channel

variable (c : Channel)

def new (channelId : ChannelId) (extranoncePrefix : Bytes) (target : Target) (rollable : UInt16) :
    Channel where
  channelId        := channelId
  extranoncePrefix := extranoncePrefix
  rollable         := rollable
  target           := target
  activeJob        := none
  futureJobs       := ∅
  pastJobs         := ∅
  chainTip         := none

def onNewExtendedMiningJob (job : NewExtendedMiningJob) : Channel :=
  if job.minNtime = none then
    { c with futureJobs := c.futureJobs.insert job.jobId (job, c.extranoncePrefix) }
  else
    { c with
      activeJob := some (job, c.extranoncePrefix)
      pastJobs  := c.activeJob.elim c.pastJobs fun past => c.pastJobs.insert past.1.jobId past }

def onSetNewPrevHash (p : SetNewPrevHashMp) : Except ExtendedChannelError Unit × Channel :=
  match c.futureJobs.lookup p.jobId with
  | none     => (.error (.other "job id not found"), c)
  | some job => (.ok (), { c with
    activeJob  := some ({ job.1 with minNtime := some p.minNtime }, job.2)
    futureJobs := ∅
    pastJobs   := ∅
    chainTip   := some (chainTipOf p) })

def knows (jobId : JobId) : Bool :=
  c.activeJob.any (·.1.jobId = jobId) || (c.pastJobs.lookup jobId).isSome

-- A share for a known job on a known tip meets the target when every hash does.
def validateShare (share : SubmitSharesExtended) :
    Except ShareValidationError ClientShareValidationResult :=
  if !c.knows share.jobId then
    .error .invalidJobId
  else if c.chainTip.isNone then
    .error (.other "no chain tip")
  else if c.target = BitVec.allOnes 256 then
    .ok (.valid 0)
  else
    .error .doesNotMeetTarget

end Channel

def clientChannels : ClientChannels Channel where
  new c _ p target _ _ size           := .new c p target size
  getChannelId                        := Channel.channelId
  getExtranoncePrefix                 := Channel.extranoncePrefix
  getRollableExtranonceSize           := Channel.rollable
  getFullExtranonceSize c             := c.extranoncePrefix.length + c.rollable.toNat
  onChainTipUpdate c tip              := (.ok (), { c with chainTip := some tip })
  setExtranoncePrefix c p             := (.ok (), { c with extranoncePrefix := p })
  setTarget c target                  := { c with target := target }
  onSetCustomMiningJobSuccess c _ _   := (.ok (), c)
  validateShare c share               := (c.validateShare share, c)
  getTarget                           := Channel.target
  getActiveJob                        := Channel.activeJob
  getFutureJobs                       := Channel.futureJobs
  getChainTip                         := Channel.chainTip
  setChainTip c tip                   := { c with chainTip := some tip }
  onNewExtendedMiningJob c job        := (.ok (), c.onNewExtendedMiningJob job)
  onSetNewPrevHash                    := Channel.onSetNewPrevHash

theorem onNewExtendedMiningJob_future {c : Channel} {job : NewExtendedMiningJob}
    (h : job.minNtime = none) : c.onNewExtendedMiningJob job =
      { c with futureJobs := c.futureJobs.insert job.jobId (job, c.extranoncePrefix) } := by
  simp [Channel.onNewExtendedMiningJob, h]

theorem onSetNewPrevHash_some {c : Channel} {p : SetNewPrevHashMp} {job : ClientJob}
    (h : c.futureJobs.lookup p.jobId = some job) : (c.onSetNewPrevHash p).2 = { c with
      activeJob  := some ({ job.1 with minNtime := some p.minNtime }, job.2)
      futureJobs := ∅
      pastJobs   := ∅
      chainTip   := some (chainTipOf p) } := by
  simp [Channel.onSetNewPrevHash, h]

theorem onSetNewPrevHash_none {c : Channel} {p : SetNewPrevHashMp}
    (h : c.futureJobs.lookup p.jobId = none) : (c.onSetNewPrevHash p).2 = c := by
  simp [Channel.onSetNewPrevHash, h]

theorem clientChannels_lawful : clientChannels.Lawful where
  newChannelId _ _ _ _ _ _ _ := rfl
  newPrefix _ _ _ _ _ _ _    := rfl
  newIdle _ _ _ _ _ _ _      := ⟨rfl, rfl, rfl⟩
  validateShare _ _          := ⟨⟨rfl, rfl⟩, rfl, rfl, rfl⟩
  setTarget _ _              := ⟨⟨rfl, rfl⟩, rfl, rfl, rfl⟩
  jobSame c job              := by
    simp only [clientChannels, Channel.onNewExtendedMiningJob]
    split <;> exact ⟨rfl, rfl⟩
  prevHashSame c p           := by
    simp only [clientChannels, Channel.onSetNewPrevHash]
    split <;> exact ⟨rfl, rfl⟩
  setChainTipSame _ _        := ⟨rfl, rfl⟩
  futureJob c job _ h hc     := by
    subst hc
    simp [clientChannels, onNewExtendedMiningJob_future h]
  job c job _ h hc           := by
    subst hc
    simp [clientChannels, Channel.onNewExtendedMiningJob, h]
  prevHash c p job _ h hc    := by
    subst hc
    simp [clientChannels, onSetNewPrevHash_some h]
  prevHashAbsent c p h       := by
    simp only [clientChannels]
    rw [onSetNewPrevHash_none h]
    exact ⟨rfl, rfl, rfl⟩
  setChainTip _ _ _ hc       := by
    subst hc
    exact ⟨rfl, rfl, rfl⟩

-- The prefixes count up in the second range, from 1, and the third range is the miner's.
structure Factory where
  upstream : B032
  size     : ℕ
  miner    : ℕ
  counter  : ℕ

namespace Factory

def fromUpstreamExtranonce (p : B032) (r₀ r₁ r₂ : ℕ × ℕ) :
    Except ExtendedExtranonceError Factory :=
  if r₂.2 > 32 then
    .error "exceeds the maximal length"
  else if r₀ = (0, p.1.length) ∧ r₀.2 = r₁.1 ∧ r₁.2 = r₂.1 then
    .ok ⟨p, r₁.2 - r₁.1, r₂.2 - r₂.1, 0⟩
  else
    .error "invalid ranges"

def nextPrefixExtended (x : Factory) (n : ℕ) : Except ExtendedExtranonceError B032 × Factory :=
  if n > x.miner then
    (.error "invalid downstream length", x)
  else if x.counter + 1 < 256 ^ x.size then
    (.ok (fit (x.upstream.1 ++ Wire.bigEndian x.size (x.counter + 1))),
      { x with counter := x.counter + 1 })
  else
    (.error "max value reached", x)

end Factory

def extranonces : ExtendedExtranonces Factory where
  fromUpstreamExtranonce := Factory.fromUpstreamExtranonce
  nextPrefixExtended     := Factory.nextPrefixExtended
  getRange0Len x         := x.upstream.1.length
  getRange2Len           := Factory.miner

theorem upstream_of_from {upstream : Bytes} {x : Factory} (h : extranonces.From upstream x) :
    x.upstream.1 = upstream := by
  induction h with
  | made hp _ h =>
    simp only [extranonces, Factory.fromUpstreamExtranonce] at h
    split at h
    · cases h
    · split at h <;> cases h
      exact hp
  | next _ ih =>
    simp only [extranonces, Factory.nextPrefixExtended]
    split
    · exact ih
    · split <;> exact ih

theorem extranonces_lawful : extranonces.Lawful where
  range0Len _ x hx := by
    rw [← upstream_of_from hx]
    rfl
  next upstream x n p hx h := by
    rw [← upstream_of_from hx]
    simp only [extranonces, Factory.nextPrefixExtended] at h
    split at h
    · cases h
    · split at h <;> cases h
      exact List.prefix_take_iff.mpr ⟨List.prefix_append _ _, x.upstream.2⟩

end Translator.Reference

namespace Translator

def reference : TranslatorCore where
  Channel    := Translator.Reference.Channel
  Extranonce := Translator.Reference.Factory
  channel    := Translator.Reference.clientChannels
  extranonce := Translator.Reference.extranonces

theorem reference_lawful : reference.Lawful where
  channel    := Translator.Reference.clientChannels_lawful
  extranonce := Translator.Reference.extranonces_lawful

-- The messages of runs on concrete inputs.
namespace Sample

def config : Config where
  supportedExtensions := []
  requiredExtensions  := []

def openChannel (requestId : RequestId) : Action :=
  .downstream <| .openExtendedMiningChannel ⟨requestId, "user.miner", 0, BitVec.allOnes 256, 4⟩

def opened (requestId : RequestId) (channelId : ChannelId) (size : UInt16)
    (extranoncePrefix : Bytes) : Action :=
  .upstream <| .openExtendedMiningChannelSuccess
    ⟨requestId, channelId, BitVec.allOnes 256, size, fit extranoncePrefix⟩

def update : Action :=
  .downstream <| .updateChannel ⟨0, 0, BitVec.allOnes 256⟩

def close (channelId : ChannelId) : Action :=
  .upstream <| .closeChannel ⟨channelId, "closed"⟩

def job (jobId : JobId) : Action :=
  .upstream <| .newExtendedMiningJob ⟨1, jobId, none, 0x20000000, true, [], fit [], fit []⟩

def prevHash (jobId : JobId) : Action :=
  .upstream <| .setNewPrevHash ⟨1, jobId, 0, 1700000000, 0x1d00ffff⟩

def share (channelId : ChannelId) (jobId : JobId) (extranonce : Bytes) : Action :=
  .downstream <| .submitSharesExtended
    ⟨channelId, 0, jobId, 0, 1700000000, 0x20000000, fit extranonce⟩

end Sample

end Translator
