import StratumApps.StratumCore.Reference.Channel

open Sv2

namespace StratumCore.Reference

section Channels

variable {μ ω ε : Type} [MessageOf μ] [ShareMessage ω]

namespace Channel

def jobs (c : Channel μ) : List (Job μ) :=
  c.activeJob.toList ++ c.pastJobs.entries.map (·.2)

def validateShare (c : Channel μ) (share : ω) :
    Except ShareValidationError ShareValidationResult × Channel μ :=
  if c.jobs.any (·.getJobId = ShareMessage.jobId share) then
    (.ok (.valid 0), c)
  else
    (.error .invalidJobId, c)

def setParams (c : Channel μ) (params : ChannelParams) : Channel μ :=
  { c with params := { params with channelId := c.params.channelId } }

theorem validateShare_eq {c : Channel μ} {share : ω} : (c.validateShare share).2 = c := by
  rw [validateShare]
  split <;> rfl

theorem validateShare_job {other : String → ε} {c : Channel μ} {share : ω}
    {r : ShareValidationResult} (h : (c.validateShare share).1 = .ok r) :
    ∃ job, (jobStore other).Accepts c job ∧ job.getJobId = ShareMessage.jobId share := by
  rw [validateShare] at h
  split at h
  case isFalse => cases h
  case isTrue hj =>
    obtain ⟨job, hm, hj⟩ := List.any_eq_true.mp hj
    refine ⟨job, ?_, by simpa using hj⟩
    simp only [jobs, List.mem_append, Option.mem_toList, List.mem_map] at hm
    refine hm.imp_right fun ⟨e, he, hej⟩ => ⟨e.1, ?_⟩
    exact hej ▸ AList.mem_lookup_iff.mpr he

end Channel

def shareChannels (μ ω : Type) [MessageOf μ] [ShareMessage ω] (other : String → ε) :
    ShareChannels (Channel μ) μ ω ε where
  toJobStore                 := Channel.jobStore other
  getTarget c                := c.params.requestedMaxTarget
  getExtranoncePrefix c      := c.params.extranoncePrefix
  getUserIdentity c          := c.params.userIdentity
  getNominalHashrate c       := c.params.nominalHashrate
  getSharesPerMinute c       := c.params.sharesPerMinute
  getShareAccounting _       := ⟨true, 0, 1, 1⟩
  validateShare              := Channel.validateShare
  updateChannel c rate max   := (.ok (), c.setParams { c.params with
    nominalHashrate    := rate
    requestedMaxTarget := max.getD c.params.requestedMaxTarget })
  setExtranoncePrefix c bytes := (.ok (), c.setParams { c.params with extranoncePrefix := bytes })

section

variable {other : String → ε}

-- Stated for the functions, so that no proof has to unfold an operation.
theorem getExtranoncePrefix_eq {c : Channel μ} :
    (shareChannels μ ω other).getExtranoncePrefix c = c.params.extranoncePrefix := rfl

theorem onNewTemplate_eq :
    (shareChannels μ ω other).onNewTemplate = (Channel.jobStore other).onNewTemplate := rfl

theorem onSetNewPrevHash_eq :
    (shareChannels μ ω other).onSetNewPrevHash = (Channel.jobStore other).onSetNewPrevHash := rfl

end

theorem shareChannels_lawful {other : String → ε} : (shareChannels μ ω other).Lawful where
  toLawful                   := Channel.jobStore_lawful
  validateShare c share      := by
    rw [shareChannels, Channel.validateShare_eq]
    exact .refl _ c
  updateChannel _ _ _        := Channel.keeps_of_same rfl rfl rfl rfl rfl
  setExtranoncePrefix _ _    := Channel.keeps_of_same rfl rfl rfl rfl rfl
  validateShareJob _ _ _     := Channel.validateShare_job
  prefixValidateShare c share := by rw [shareChannels, Channel.validateShare_eq]
  prefixUpdateChannel _ _ _  := rfl
  prefixNewTemplate _ _ _    := by
    rw [getExtranoncePrefix_eq, getExtranoncePrefix_eq, onNewTemplate_eq, Channel.onNewTemplate_same.left]
  prefixSetNewPrevHash _ _   := by
    rw [getExtranoncePrefix_eq, getExtranoncePrefix_eq, onSetNewPrevHash_eq,
      Channel.onSetNewPrevHash_same.left]
  prefixSet _ _ _ h          := by
    cases h
    rfl

end Channels

def groupParams (channelId : ChannelId) : ChannelParams where
  channelId          := channelId
  userIdentity       := ""
  extranoncePrefix   := []
  requestedMaxTarget := 0
  nominalHashrate    := 0
  shareBatchSize     := 0
  sharesPerMinute    := 0

def groupChannels : GroupChannels (Channel NewExtendedMiningJob) where
  toJobStore                          := Channel.jobStore id
  newForPool c _ _                    := .ok (.new (groupParams c) 0)
  newForJobDeclarationClient c _ _ _  := .ok (.new (groupParams c) 0)
  getStandardChannelIds               := Channel.members
  addStandardChannelId g c            := { g with members := insert c g.members }

theorem getStandardChannelIds_eq : groupChannels.getStandardChannelIds = Channel.members := rfl

theorem group_onNewTemplate_eq :
    groupChannels.onNewTemplate = (Channel.jobStore id).onNewTemplate := rfl

theorem group_onSetNewPrevHash_eq :
    groupChannels.onSetNewPrevHash = (Channel.jobStore id).onSetNewPrevHash := rfl

theorem groupChannels_records : groupChannels.Records where
  newForPool _ _ _ _ h := by
    cases h
    rfl
  addStandardChannelId _ _ := rfl
  onNewTemplate _ _ _      := by
    rw [getStandardChannelIds_eq, group_onNewTemplate_eq, Channel.onNewTemplate_same.right]
  onSetNewPrevHash _ _     := by
    rw [getStandardChannelIds_eq, group_onSetNewPrevHash_eq, Channel.onSetNewPrevHash_same.right]

-- A standard channel takes the job of its group under the id that the group gave it.
def takeGroupJob (c : Channel NewMiningJob) (job : ExtendedJob) : Channel NewMiningJob :=
  match job.template with
  | none   => c
  | some t =>
    let job' : StandardJob := {
      template        := some t
      coinbaseOutputs := job.coinbaseOutputs
      jobMessage      := MessageOf.make c.params.channelId job.getJobId t }
    if t.futureTemplate then
      { c with
        futureTemplateToJobId := c.futureTemplateToJobId.insert t.templateId job.getJobId
        futureJobs            := c.futureJobs.insert job.getJobId job' }
    else
      { c with activeJob := some job', pastJobs := c.retire }

def standardChannels : StandardChannels (Channel NewMiningJob) where
  toShareChannels                         := shareChannels _ _ .other
  newForPool params _                     := .ok (.new params 0)
  newForJobDeclarationClient params _ _   := .ok (.new params 0)
  onGroupChannelJob c job                 := (.ok (), takeGroupJob c job)

theorem takeGroupJob_prefix {c : Channel NewMiningJob} {job : ExtendedJob} :
    (takeGroupJob c job).params = c.params := by
  rw [takeGroupJob]
  split
  case h_1 => rfl
  case h_2 => split <;> rfl

theorem takeGroupJob_knows {c : Channel NewMiningJob} {job : ExtendedJob} {job' : StandardJob}
    (h : standardChannels.Knows (takeGroupJob c job) job') :
    standardChannels.Knows c job' ∨
      job'.template = job.template ∧ job'.coinbaseOutputs = job.coinbaseOutputs := by
  rw [takeGroupJob] at h
  split at h
  case h_1 => exact .inl h
  case h_2 t ht =>
    split at h
    case isTrue =>
      obtain h | ⟨t', h⟩ := h
      · exact .inl (.inl h)
      · obtain ⟨i, hi, hj⟩ := Option.bind_eq_some_iff.mp h
        simp only [standardChannels, shareChannels, Channel.jobStore, Map.lookup_insert_ite] at hi hj
        split at hj
        case isTrue =>
          rw [← Option.some_inj.mp hj, ht]
          exact .inr ⟨rfl, rfl⟩
        case isFalse hne =>
          split at hi
          case isTrue  => exact absurd (Option.some_inj.mp hi).symm hne
          case isFalse => exact .inl <| .inr ⟨t', Option.bind_eq_some_iff.mpr ⟨i, hi, hj⟩⟩
    case isFalse =>
      obtain (h | ⟨j, h⟩) | h := h
      · simp only [standardChannels, shareChannels, Channel.jobStore, Option.some_inj] at h
        rw [← h, ht]
        exact .inr ⟨rfl, rfl⟩
      · exact .inl (.inl (Channel.accepts_of_retire h))
      · exact .inl (.inr h)

-- A custom job is active at once, and is made from no template.
def takeCustomJob (c : Channel NewExtendedMiningJob) (msg : SetCustomMiningJob) :
    Channel NewExtendedMiningJob where
  __        := c
  made      := c.made + 1
  pastJobs  := c.retire
  activeJob := some {
    template        := none
    coinbaseOutputs := ((decodeOutputs msg.coinbaseTxOutputs.1).toOption).getD []
    jobMessage      := {
      channelId             := c.params.channelId
      jobId                 := c.nextJobId
      minNtime              := some msg.minNtime
      version               := msg.version
      versionRollingAllowed := true
      merklePath            := msg.merklePath
      coinbaseTxPrefix      := ⟨msg.coinbasePrefix.1, msg.coinbasePrefix.2.trans (by decide)⟩
      coinbaseTxSuffix      := msg.coinbaseTxOutputs } }

def extendedChannels : ExtendedChannels (Channel NewExtendedMiningJob) where
  toShareChannels                                     := shareChannels _ _ .other
  newForPool params _ rollable _                      := .ok (.new params rollable)
  newForJobDeclarationClient params _ rollable _ _    := .ok (.new params rollable)
  getRollableExtranonceSize                           := Channel.rollable
  onSetCustomMiningJob c msg                          := (.ok c.nextJobId, takeCustomJob c msg)

structure Client where
  channelId        : ChannelId
  extranoncePrefix : Bytes
  rollable         : UInt16

def upstreamChannels : UpstreamChannels Client where
  new c _ bytes _ _ _ size            := ⟨c, bytes, size⟩
  getChannelId                        := Client.channelId
  getExtranoncePrefix                 := Client.extranoncePrefix
  getRollableExtranonceSize           := Client.rollable
  getFullExtranonceSize u             := u.extranoncePrefix.length + u.rollable.toNat
  onChainTipUpdate u _                := (.ok (), u)
  setExtranoncePrefix u bytes         := (.ok (), { u with extranoncePrefix := bytes })
  setTarget u _                       := u
  onSetCustomMiningJobSuccess u _ _   := (.ok (), u)
  validateShare u _                   := (.ok (.valid 0), u)

theorem upstreamChannels_lawful : upstreamChannels.Lawful where
  new _ _ _ _ _ _ _               := rfl
  onChainTipUpdate _ _            := rfl
  setExtranoncePrefix _ _ _ h     := by
    cases h
    rfl
  setTarget _ _                   := rfl
  onSetCustomMiningJobSuccess _ _ _ := rfl
  validateShare _ _               := rfl

-- The prefixes count up from one behind the bytes that all of them share.
structure Factory where
  shared  : Bytes
  size    : ℕ
  counter : ℕ

def Factory.next (x : Factory) : Bytes × Factory :=
  (x.shared ++ Wire.bigEndian x.size (x.counter + 1), { x with counter := x.counter + 1 })

def extranonces : Extranonces Factory where
  new _ r _ additional                     :=
    .ok ⟨additional.getD [], r.2 - r.1 - (additional.getD []).length, 0⟩
  fromUpstreamExtranonce bytes _ r _       := .ok ⟨bytes, r.2 - r.1, 0⟩
  nextPrefixStandard x                     := (.ok x.next.1, x.next.2)
  nextPrefixExtended x _                   := (.ok x.next.1, x.next.2)

theorem shared_of_from {upstream : Bytes} {x : Factory} (h : extranonces.From upstream x) :
    x.shared = upstream := by
  induction h with
  | made h =>
    cases h
    rfl
  | nextStandard _ ih => exact ih
  | nextExtended _ ih => exact ih

theorem extranonces_lawful : extranonces.Lawful where
  nextStandard _ x p hx h := by
    cases h
    rw [← shared_of_from hx]
    exact List.prefix_append _ _
  nextExtended _ x _ p hx h := by
    cases h
    rw [← shared_of_from hx]
    exact List.prefix_append _ _

def vardiffs : Vardiffs ℕ where
  new                                := .ok 0
  incrementSharesSinceLastUpdate n   := n + 1
  tryVardiff n _ _ _                 := (.ok none, n)

-- The outputs have to add up to what the template leaves for them.
def customJob (channelId : ChannelId) (requestId : RequestId) (token : Bytes) (tip : ChainTip)
    (t : NewTemplate) (outputs : List TxOut) : Except JobFactoryError SetCustomMiningJob :=
  if (outputs.map (·.value)).sum ≠ t.coinbaseTxValueRemaining then
    .error "invalid coinbase outputs sum"
  else if h : token.length ≤ 255 ∧ (encodeOutputs outputs).length ≤ 65535 then
    .ok {
      channelId                := channelId
      requestId                := requestId
      token                    := ⟨token, h.left⟩
      version                  := t.version
      prevHash                 := tip.prevHash
      minNtime                 := tip.minNtime
      nbits                    := tip.nbits
      coinbaseTxVersion        := t.coinbaseTxVersion
      coinbasePrefix           := t.coinbasePrefix
      coinbaseTxInputNSequence := t.coinbaseTxInputSequence
      coinbaseTxOutputs        := ⟨encodeOutputs outputs, h.right⟩
      coinbaseTxLocktime       := t.coinbaseTxLocktime
      merklePath               := t.merklePath }
  else
    .error "oversized"

theorem customJob_requestId {c : ChannelId} {requestId : RequestId} {token : Bytes} {tip : ChainTip}
    {t : NewTemplate} {outputs : List TxOut} {m : SetCustomMiningJob}
    (h : customJob c requestId token tip t outputs = .ok m) : m.requestId = requestId := by
  rw [customJob] at h
  split at h
  case isTrue  => cases h
  case isFalse =>
    split at h <;> cases h
    rfl

theorem customJob_token {c : ChannelId} {requestId : RequestId} {token : Bytes} {tip : ChainTip}
    {t : NewTemplate} {outputs : List TxOut} {m : SetCustomMiningJob}
    (h : customJob c requestId token tip t outputs = .ok m) : m.token.1 = token := by
  rw [customJob] at h
  split at h
  case isTrue  => cases h
  case isFalse =>
    split at h <;> cases h
    rfl

def jobFactories : JobFactories ℕ where
  new _ _ _                                          := 0
  newCoinbaseTxPrefixAndSuffix n t _ _               :=
    (.ok (t.coinbasePrefix.1, t.coinbaseTxOutputs.1), n)
  newCustomJob n c requestId token tip t outputs _   :=
    (customJob c requestId token tip t outputs, n + 1)

theorem jobFactories_carries : jobFactories.Carries where
  newCustomJob _ _ _ _ _ _ _ _ _ h := customJob_token h

-- No two transactions of fewer than 32 bytes have the same id.
def computeTxid : Bytes → Except EncodeError U256
  | []        => .error "unexpected end of file"
  | b :: bytes => .ok (.ofNat _ (Wire.value (b :: bytes)))

end StratumCore.Reference

namespace StratumCore

open Reference

def reference : StratumCore where
  Group              := Channel NewExtendedMiningJob
  Standard           := Channel NewMiningJob
  Extended           := Channel NewExtendedMiningJob
  Upstream           := Client
  Extranonce         := Factory
  VardiffState       := ℕ
  JobFactory         := ℕ
  group              := groupChannels
  standard           := standardChannels
  extended           := extendedChannels
  upstream           := upstreamChannels
  extranonce         := extranonces
  vardiff            := vardiffs
  jobFactory         := jobFactories
  difficultyFloat _  := 0
  addHashrate        := (· + ·)
  consensusEncode    := encodeOutputs
  consensusDecode    := decodeOutputs
  deserializeOutputs := decodeOutputs
  txOutSize output   := (encodeOutput output).length
  sigopCost _        := 0
  computeTxid        := Reference.computeTxid

theorem reference_lawful : reference.Lawful where
  group                       := Channel.jobStore_lawful
  groupRecords                := groupChannels_records
  standard                    := shareChannels_lawful
  extended                    := shareChannels_lawful
  upstream                    := upstreamChannels_lawful
  extranonce                  := extranonces_lawful
  newGroup _ _ _ _ h          := by
    cases h
    exact Channel.fresh_new
  newGroupClient _ _ _ _ _ h  := by
    cases h
    exact Channel.fresh_new
  addStandardChannelId _ _    := Channel.keeps_of_same rfl rfl rfl rfl rfl
  newStandard _ _ _ h         := by
    cases h
    exact Channel.fresh_new
  newStandardClient _ _ _ _ h := by
    cases h
    exact ⟨Channel.fresh_new, rfl⟩
  newExtended _ _ _ _ _ h     := by
    cases h
    exact Channel.fresh_new
  newExtendedClient _ _ _ _ _ _ h := by
    cases h
    exact ⟨Channel.fresh_new, rfl⟩
  onSetCustomMiningJob _ _ _ h := by
    subst h
    exact ⟨rfl, rfl⟩
  onGroupChannelJob _ _ _ h   := by
    subst h
    exact ⟨congrArg ChannelParams.extranoncePrefix takeGroupJob_prefix, fun _ => takeGroupJob_knows⟩
  newCustomJob _ _ _ _ _ _ _ _ _ h := customJob_requestId h
  deserializeOutputs _ _ _ _ h := by
    have ⟨hl, ho⟩ := decodeOutputs_eq_ok h
    refine decodeOutputs_encodeOutputs hl ?_
    simpa using ho

section Takes

variable {t : NewTemplate} {outputs : List TxOut} {params : ChannelParams} {rollable : UInt16}

end Takes

end StratumCore
