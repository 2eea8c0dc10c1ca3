import StratumApps.StratumCore.Jobs

open Sv2

namespace StratumCore

inductive ShareValidationError
  | invalid
  | stale
  | invalidJobId
  | doesNotMeetTarget
  | duplicateShare
  | badExtranonceSize
  | other (e : String)
  deriving DecidableEq

inductive ShareValidationResult
  | valid (shareHash : U256)
  | blockFound (shareHash : U256) (templateId : Option TemplateId) (coinbase : Bytes)
  deriving DecidableEq

-- The client does not keep the template and the coinbase of a block.
inductive ClientShareValidationResult
  | valid (shareHash : U256)
  | blockFound (shareHash : U256)
  deriving DecidableEq

inductive StandardChannelError
  | invalidNominalHashrate
  | requestedMaxTargetOutOfRange
  | other (e : String)
  deriving DecidableEq

inductive ExtendedChannelError
  | invalidNominalHashrate
  | requestedMaxTargetOutOfRange
  | requestedMinExtranonceSizeTooLarge
  | other (e : String)
  deriving DecidableEq

abbrev GroupChannelError := String

abbrev ExtendedExtranonceError := String

abbrev VardiffError := String

abbrev EncodeError := String

abbrev JobFactoryError := String

structure ShareAccounting where
  shouldAcknowledge       : Bool
  lastShareSequenceNumber : UInt32
  lastBatchAccepted       : UInt32
  lastBatchWorkSum        : UInt64
  deriving DecidableEq

structure ChannelParams where
  channelId          : ChannelId
  userIdentity       : String
  extranoncePrefix   : Bytes
  requestedMaxTarget : Target
  nominalHashrate    : F32
  shareBatchSize     : ℕ
  sharesPerMinute    : F32
  deriving DecidableEq

structure ChainTip where
  prevHash : U256
  nbits    : UInt32
  minNtime : UInt32
  deriving DecidableEq

def chainTip (p : SetNewPrevHash) : ChainTip where
  prevHash := p.prevHash
  nbits    := p.nBits
  minNtime := p.headerTimestamp

class ShareMessage (ω : Type) where
  jobId : ω → JobId

instance : ShareMessage SubmitSharesStandard where
  jobId := SubmitSharesStandard.jobId

instance : ShareMessage SubmitSharesExtended where
  jobId := SubmitSharesExtended.jobId

-- A group channel is made for a number of bytes of the extranonce and with the tags of the pool and
-- of the miner.
structure GroupChannels (γ : Type) extends JobStore γ NewExtendedMiningJob GroupChannelError where
  newForPool                 : ChannelId → ℕ → String → Except GroupChannelError γ
  newForJobDeclarationClient : ChannelId → ℕ → Option String → String → Except GroupChannelError γ
  getStandardChannelIds      : γ → Finset ChannelId
  addStandardChannelId       : γ → ChannelId → γ

-- The channels that miners submit shares to, of either kind.
structure ShareChannels (κ μ ω ε : Type) extends JobStore κ μ ε where
  getTarget           : κ → Target
  getExtranoncePrefix : κ → Bytes
  getUserIdentity     : κ → String
  getNominalHashrate  : κ → F32
  getSharesPerMinute  : κ → F32
  getShareAccounting  : κ → ShareAccounting
  validateShare       : κ → ω → Except ShareValidationError ShareValidationResult × κ
  updateChannel       : κ → F32 → Option Target → Except ε Unit × κ
  setExtranoncePrefix : κ → Bytes → Except ε Unit × κ

structure StandardChannels (κ : Type)
    extends ShareChannels κ NewMiningJob SubmitSharesStandard StandardChannelError where
  newForPool                 : ChannelParams → String → Except StandardChannelError κ
  newForJobDeclarationClient : ChannelParams → Option String → String →
    Except StandardChannelError κ
  onGroupChannelJob          : κ → ExtendedJob → Except StandardChannelError Unit × κ

-- The flag of a new channel is whether version rolling is allowed, the number the rollable size of
-- the extranonce that is asked for.
structure ExtendedChannels (κ : Type)
    extends ShareChannels κ NewExtendedMiningJob SubmitSharesExtended ExtendedChannelError where
  newForPool                 : ChannelParams → Bool → UInt16 → String →
    Except ExtendedChannelError κ
  newForJobDeclarationClient : ChannelParams → Bool → UInt16 → Option String → String →
    Except ExtendedChannelError κ
  getRollableExtranonceSize  : κ → UInt16
  onSetCustomMiningJob       : κ → SetCustomMiningJob → Except ExtendedChannelError JobId × κ

-- The extended channel at the side of the client.
structure UpstreamChannels (υ : Type) where
  new                         : ChannelId → String → Bytes → Target → F32 → Bool → UInt16 → υ
  getChannelId                : υ → ChannelId
  getExtranoncePrefix         : υ → Bytes
  getRollableExtranonceSize   : υ → UInt16
  getFullExtranonceSize       : υ → ℕ
  onChainTipUpdate            : υ → ChainTip → Except ExtendedChannelError Unit × υ
  setExtranoncePrefix         : υ → Bytes → Except ExtendedChannelError Unit × υ
  setTarget                   : υ → Target → υ
  onSetCustomMiningJobSuccess : υ → SetCustomMiningJob → SetCustomMiningJobSuccess →
    Except ExtendedChannelError Unit × υ
  validateShare               : υ → SubmitSharesExtended →
    Except ShareValidationError ClientShareValidationResult × υ

-- The three ranges of an extranonce, and the prefix that is the same for all.
structure Extranonces (χ : Type) where
  new                    : ℕ × ℕ → ℕ × ℕ → ℕ × ℕ → Option Bytes → Except ExtendedExtranonceError χ
  fromUpstreamExtranonce : Bytes → ℕ × ℕ → ℕ × ℕ → ℕ × ℕ → Except ExtendedExtranonceError χ
  nextPrefixStandard     : χ → Except ExtendedExtranonceError Bytes × χ
  nextPrefixExtended     : χ → ℕ → Except ExtendedExtranonceError Bytes × χ

structure Vardiffs (ν : Type) where
  new                            : Except VardiffError ν
  incrementSharesSinceLastUpdate : ν → ν
  tryVardiff                     : ν → F32 → Target → F32 → Except VardiffError (Option F32) × ν

-- The factory is made with the permission to roll the version and the two tags. The number is that
-- of the bytes of the extranonce.
structure JobFactories (φ : Type) where
  new                          : Bool → Option String → Option String → φ
  newCoinbaseTxPrefixAndSuffix : φ → NewTemplate → List TxOut → ℕ →
    Except JobFactoryError (Bytes × Bytes) × φ
  newCustomJob                 : φ → ChannelId → RequestId → Bytes → ChainTip → NewTemplate →
    List TxOut → ℕ → Except JobFactoryError SetCustomMiningJob × φ

end StratumCore

open StratumCore

-- What the applications use of the crates that `stratum_core` exports.
structure StratumCore where
  Group              : Type
  Standard           : Type
  Extended           : Type
  Upstream           : Type
  Extranonce         : Type
  VardiffState       : Type
  JobFactory         : Type
  group              : GroupChannels Group
  standard           : StandardChannels Standard
  extended           : ExtendedChannels Extended
  upstream           : UpstreamChannels Upstream
  extranonce         : Extranonces Extranonce
  vardiff            : Vardiffs VardiffState
  jobFactory         : JobFactories JobFactory
  difficultyFloat    : Target → F64
  addHashrate        : F32 → F32 → F32
  consensusEncode    : List TxOut → Bytes
  consensusDecode    : Bytes → Except EncodeError (List TxOut)
  deserializeOutputs : Bytes → Except EncodeError (List TxOut)
  txOutSize          : TxOut → ℕ
  sigopCost          : List TxOut → ℕ
  computeTxid        : Bytes → Except EncodeError U256

namespace StratumCore

variable (C : StratumCore)

-- The operations of a channel other than those on templates and prev hashes leave its jobs alone,
-- and only a new prefix changes its prefix. A share that is accepted is for a job of the channel.
structure ShareChannels.Lawful {κ μ ω ε : Type} [JobMessage μ] [ShareMessage ω]
    (S : ShareChannels κ μ ω ε) : Prop extends S.toJobStore.Lawful where
  validateShare        : ∀ c share, S.Keeps c (S.validateShare c share).2
  updateChannel        : ∀ c hashrate target, S.Keeps c (S.updateChannel c hashrate target).2
  setExtranoncePrefix  : ∀ c p, S.Keeps c (S.setExtranoncePrefix c p).2
  validateShareJob     : ∀ c share r, (S.validateShare c share).1 = .ok r →
    ∃ job, S.Accepts c job ∧ job.getJobId = ShareMessage.jobId share
  prefixValidateShare  : ∀ c share,
    S.getExtranoncePrefix (S.validateShare c share).2 = S.getExtranoncePrefix c
  prefixUpdateChannel  : ∀ c hashrate target,
    S.getExtranoncePrefix (S.updateChannel c hashrate target).2 = S.getExtranoncePrefix c
  prefixNewTemplate    : ∀ c t outputs,
    S.getExtranoncePrefix (S.onNewTemplate c t outputs).2 = S.getExtranoncePrefix c
  prefixSetNewPrevHash : ∀ c p,
    S.getExtranoncePrefix (S.onSetNewPrevHash c p).2 = S.getExtranoncePrefix c
  prefixSet            : ∀ c p c', S.setExtranoncePrefix c p = (.ok (), c') →
    S.getExtranoncePrefix c' = p

-- A group channel records the standard channels that are added to it.
structure GroupChannels.Records {γ : Type} (G : GroupChannels γ) : Prop where
  newForPool           : ∀ c size tag g, G.newForPool c size tag = .ok g → G.getStandardChannelIds g = ∅
  addStandardChannelId : ∀ g c,
    G.getStandardChannelIds (G.addStandardChannelId g c) = insert c (G.getStandardChannelIds g)
  onNewTemplate        : ∀ g t outputs,
    G.getStandardChannelIds (G.onNewTemplate g t outputs).2 = G.getStandardChannelIds g
  onSetNewPrevHash     : ∀ g p,
    G.getStandardChannelIds (G.onSetNewPrevHash g p).2 = G.getStandardChannelIds g

-- The client keeps its extranonce prefix until it is set.
structure UpstreamChannels.Lawful {υ : Type} (U : UpstreamChannels υ) : Prop where
  new                         : ∀ c identity p target hashrate rolling size,
    U.getExtranoncePrefix (U.new c identity p target hashrate rolling size) = p
  onChainTipUpdate            : ∀ u tip,
    U.getExtranoncePrefix (U.onChainTipUpdate u tip).2 = U.getExtranoncePrefix u
  setExtranoncePrefix         : ∀ u p u', U.setExtranoncePrefix u p = (.ok (), u') →
    U.getExtranoncePrefix u' = p
  setTarget                   : ∀ u target,
    U.getExtranoncePrefix (U.setTarget u target) = U.getExtranoncePrefix u
  onSetCustomMiningJobSuccess : ∀ u job success,
    U.getExtranoncePrefix (U.onSetCustomMiningJobSuccess u job success).2 = U.getExtranoncePrefix u
  validateShare               : ∀ u share,
    U.getExtranoncePrefix (U.validateShare u share).2 = U.getExtranoncePrefix u

-- What a factory of prefixes may be, when it has been made from the prefix of an upstream.
inductive Extranonces.From {χ : Type} (X : Extranonces χ) (upstream : Bytes) : χ → Prop
  | made {r₀ r₁ r₂ : ℕ × ℕ} {x : χ} :
    X.fromUpstreamExtranonce upstream r₀ r₁ r₂ = .ok x → X.From upstream x
  | nextStandard {x : χ} : X.From upstream x → X.From upstream (X.nextPrefixStandard x).2
  | nextExtended {x : χ} {n : ℕ} : X.From upstream x → X.From upstream (X.nextPrefixExtended x n).2

structure Extranonces.Lawful {χ : Type} (X : Extranonces χ) : Prop where
  nextStandard : ∀ upstream x p, X.From upstream x → (X.nextPrefixStandard x).1 = .ok p →
    upstream <+: p
  nextExtended : ∀ upstream x n p, X.From upstream x → (X.nextPrefixExtended x n).1 = .ok p →
    upstream <+: p

-- A custom job carries the token that it is made with.
structure JobFactories.Carries {φ : Type} (F : JobFactories φ) : Prop where
  newCustomJob : ∀ f c requestId token tip t outputs size m,
    (F.newCustomJob f c requestId token tip t outputs size).1 = .ok m → m.token.1 = token

structure Lawful : Prop where
  group                : C.group.toJobStore.Lawful
  groupRecords         : C.group.Records
  standard             : C.standard.toShareChannels.Lawful
  extended             : C.extended.toShareChannels.Lawful
  upstream             : C.upstream.Lawful
  extranonce           : C.extranonce.Lawful
  newGroup             : ∀ c size tag g, C.group.newForPool c size tag = .ok g → C.group.Fresh g c
  newGroupClient       : ∀ c size tag minerTag g,
    C.group.newForJobDeclarationClient c size tag minerTag = .ok g → C.group.Fresh g c
  addStandardChannelId : ∀ g c, C.group.Keeps g (C.group.addStandardChannelId g c)
  newStandard          : ∀ params tag c,
    C.standard.newForPool params tag = .ok c → C.standard.Fresh c params.channelId
  newStandardClient    : ∀ params tag minerTag c,
    C.standard.newForJobDeclarationClient params tag minerTag = .ok c →
      C.standard.Fresh c params.channelId ∧
        C.standard.getExtranoncePrefix c = params.extranoncePrefix
  newExtended          : ∀ params rolling size tag c,
    C.extended.newForPool params rolling size tag = .ok c → C.extended.Fresh c params.channelId
  newExtendedClient    : ∀ params rolling size tag minerTag c,
    C.extended.newForJobDeclarationClient params rolling size tag minerTag = .ok c →
      C.extended.Fresh c params.channelId ∧
        C.extended.getExtranoncePrefix c = params.extranoncePrefix
  onSetCustomMiningJob : ∀ c m c', c' = (C.extended.onSetCustomMiningJob c m).2 →
    C.extended.getChannelId c' = C.extended.getChannelId c ∧
      C.extended.futureJob c' = C.extended.futureJob c
  onGroupChannelJob    : ∀ c job c', c' = (C.standard.onGroupChannelJob c job).2 →
    C.standard.getExtranoncePrefix c' = C.standard.getExtranoncePrefix c ∧
      ∀ job', C.standard.Knows c' job' → C.standard.Knows c job' ∨
        job'.template = job.template ∧ job'.coinbaseOutputs = job.coinbaseOutputs
  newCustomJob         : ∀ f c requestId token tip t outputs size m,
    (C.jobFactory.newCustomJob f c requestId token tip t outputs size).1 = .ok m →
      m.requestId = requestId
  deserializeOutputs   : ∀ bytes output outputs value,
    C.deserializeOutputs bytes = .ok (output :: outputs) →
      C.deserializeOutputs (C.consensusEncode ({ output with value := value } :: outputs)) =
        .ok ({ output with value := value } :: outputs)

structure Refuses : Prop where
  group    : C.group.Refuses
  standard : C.standard.Refuses
  extended : C.extended.Refuses

end StratumCore
