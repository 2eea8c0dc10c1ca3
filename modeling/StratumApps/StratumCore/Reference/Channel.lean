import StratumApps.Lib.Wire
import StratumApps.StratumCore.Interface

open Sv2

-- A small model of the crates, for runs on concrete inputs. It keeps the jobs as the channels do,
-- takes every share for an active or past job, and hashes nothing.
namespace StratumCore.Reference

section Codec

-- Lengths below 253 are a single byte. The reference does not read longer ones.
def encodeOutput (output : TxOut) : Bytes :=
  Wire.littleEndian 8 output.value.toNat ++
    .ofNat output.scriptPubkey.length :: output.scriptPubkey

def decodeOutput (bytes : Bytes) : Option (TxOut × Bytes) := do
  let (value, bytes) ← Wire.take 8 bytes
  match bytes with
  | [] => none
  | length :: bytes =>
    if length.toNat < 253 then
      let (script, bytes) ← Wire.take length.toNat bytes
      return (⟨.ofNat (Wire.value value), script⟩, bytes)
    else
      none

def encodeOutputs (outputs : List TxOut) : Bytes :=
  .ofNat outputs.length :: outputs.flatMap encodeOutput

def decodeOutputs : Bytes → Except EncodeError (List TxOut)
  | [] => .error "unexpected end of file"
  | count :: bytes =>
    if count.toNat < 253 then
      match Wire.decodeMany decodeOutput count.toNat bytes with
      | some (outputs, []) => .ok outputs
      | _                  => .error "parse failed"
    else
      .error "oversized vector"

variable {output : TxOut} {outputs : List TxOut} {bytes rest : Bytes}

theorem decodeOutput_encodeOutput (h : output.scriptPubkey.length < 253) :
    decodeOutput (encodeOutput output ++ rest) = some (output, rest) := by
  have hl : (UInt8.ofNat output.scriptPubkey.length).toNat = output.scriptPubkey.length := by
    rw [UInt8.toNat_ofNat']
    omega
  have hv : Wire.value (Wire.littleEndian 8 output.value.toNat) = output.value.toNat :=
    Wire.value_littleEndian output.value.toNat_lt
  simp [decodeOutput, encodeOutput, Wire.take_append, hl, h, hv]

theorem decodeOutput_eq_some (h : decodeOutput bytes = some (output, rest)) :
    output.scriptPubkey.length < 253 := by
  simp only [decodeOutput, Option.bind_eq_bind, Option.bind_eq_some_iff, Prod.exists] at h
  obtain ⟨_, bytes, _, h⟩ := h
  cases bytes with
  | nil => cases h
  | cons length bytes =>
    simp only [Option.bind_eq_some_iff, Prod.exists, Option.pure_def, Option.some_inj,
      Prod.mk.injEq, Option.ite_none_right_eq_some] at h
    obtain ⟨hl, _, _, ht, rfl, _⟩ := h
    rw [Wire.take_eq_some ht]
    exact hl

theorem decodeOutputs_encodeOutputs (h : outputs.length < 253)
    (ho : ∀ output ∈ outputs, output.scriptPubkey.length < 253) :
    decodeOutputs (encodeOutputs outputs) = .ok outputs := by
  have hl : (UInt8.ofNat outputs.length).toNat = outputs.length := by
    rw [UInt8.toNat_ofNat']
    omega
  have hd : Wire.decodeMany decodeOutput outputs.length (outputs.flatMap encodeOutput ++ []) =
      some (outputs, []) :=
    Wire.decodeMany_flatMap fun output hm _ => decodeOutput_encodeOutput (ho output hm)
  rw [List.append_nil] at hd
  simp [decodeOutputs, encodeOutputs, hl, h, hd]

theorem decodeOutputs_eq_ok (h : decodeOutputs bytes = .ok outputs) :
    outputs.length < 253 ∧ ∀ output ∈ outputs, output.scriptPubkey.length < 253 := by
  cases bytes with
  | nil => cases h
  | cons count bytes =>
    simp only [decodeOutputs] at h
    split at h
    case isFalse => cases h
    case isTrue hc =>
      split at h
      case h_2 => cases h
      case h_1 hd =>
        cases h
        have ⟨hl, ho⟩ := Wire.decodeMany_eq_some (fun _ _ _ => decodeOutput_eq_some) hd
        exact ⟨hl ▸ hc, ho⟩

end Codec

class MessageOf (μ : Type) extends JobMessage μ where
  make              : ChannelId → JobId → NewTemplate → μ
  activate          : μ → UInt32 → μ
  channelId_make    : ∀ c j t, channelId (make c j t) = c
  jobId_make        : ∀ c j t, jobId (make c j t) = j
  channelId_activate : ∀ m n, channelId (activate m n) = channelId m
  jobId_activate    : ∀ m n, jobId (activate m n) = jobId m

instance : MessageOf NewMiningJob where
  make c j t := {
    channelId  := c
    jobId      := j
    minNtime   := none
    version    := t.version
    merkleRoot := 0 }
  activate m n       := { m with minNtime := some n }
  channelId_make     := fun _ _ _ => rfl
  jobId_make         := fun _ _ _ => rfl
  channelId_activate := fun _ _ => rfl
  jobId_activate     := fun _ _ => rfl

instance : MessageOf NewExtendedMiningJob where
  make c j t := {
    channelId             := c
    jobId                 := j
    minNtime              := none
    version               := t.version
    versionRollingAllowed := true
    merklePath            := t.merklePath
    coinbaseTxPrefix      := ⟨t.coinbasePrefix.1, t.coinbasePrefix.2.trans (by decide)⟩
    coinbaseTxSuffix      := t.coinbaseTxOutputs }
  activate m n       := { m with minNtime := some n }
  channelId_make     := fun _ _ _ => rfl
  jobId_make         := fun _ _ _ => rfl
  channelId_activate := fun _ _ => rfl
  jobId_activate     := fun _ _ => rfl

structure Channel (μ : Type) where
  params                : ChannelParams
  rollable              : UInt16
  made                  : ℕ
  futureTemplateToJobId : Map TemplateId JobId
  futureJobs            : Map JobId (Job μ)
  activeJob             : Option (Job μ)
  pastJobs              : Map JobId (Job μ)
  chainTip              : Option SetNewPrevHash
  members               : Finset ChannelId

namespace Channel

variable {μ : Type} [MessageOf μ]

def new (params : ChannelParams) (rollable : UInt16) : Channel μ where
  params                := params
  rollable              := rollable
  made                  := 0
  futureTemplateToJobId := ∅
  futureJobs            := ∅
  activeJob             := none
  pastJobs              := ∅
  chainTip              := none
  members               := ∅

variable (c : Channel μ)

-- The jobs are numbered in the order they are made.
def nextJobId : JobId :=
  .ofNat (c.made + 1)

-- The ids of all jobs of the channel, and those it expects a future job under.
def jobIds : List JobId :=
  c.futureTemplateToJobId.entries.map (·.2) ++ c.futureJobs.entries.map (·.2.getJobId) ++
    c.activeJob.toList.map Job.getJobId ++ c.pastJobs.entries.map (·.2.getJobId)

def Unused (j : JobId) : Prop :=
  j ∉ c.jobIds

instance (j : JobId) : Decidable (c.Unused j) :=
  inferInstanceAs (Decidable (j ∉ c.jobIds))

def makeJob (t : NewTemplate) (outputs : List TxOut) : Job μ where
  template        := some t
  coinbaseOutputs := outputs
  jobMessage      := MessageOf.make c.params.channelId c.nextJobId t

def retire : Map JobId (Job μ) :=
  c.activeJob.elim c.pastJobs fun job => c.pastJobs.insert job.getJobId job

def activateJob (job : Job μ) (p : SetNewPrevHash) : Job μ :=
  { job with jobMessage := MessageOf.activate job.jobMessage p.headerTimestamp }

def onNewTemplate (t : NewTemplate) (outputs : List TxOut) : Except String Unit × Channel μ :=
  let job := c.makeJob t outputs
  if c.Unused c.nextJobId then
    if t.futureTemplate then
      (.ok (), { c with
        made                  := c.made + 1
        futureTemplateToJobId := c.futureTemplateToJobId.insert t.templateId c.nextJobId
        futureJobs            := c.futureJobs.insert c.nextJobId job })
    else
      match c.chainTip with
      | none   => (.error "chain tip not set", c)
      | some p => (.ok (), { c with
        made      := c.made + 1
        activeJob := some (activateJob job p)
        pastJobs  := c.retire })
  else
    (.error "job id not unique", c)

def futureJob (t : TemplateId) : Option (Job μ) :=
  c.futureTemplateToJobId.lookup t |>.bind c.futureJobs.lookup

def onSetNewPrevHash (p : SetNewPrevHash) : Except String Unit × Channel μ :=
  match c.futureJob p.templateId with
  | some job => (.ok (), { c with
    futureTemplateToJobId := c.futureTemplateToJobId.erase p.templateId
    activeJob             := some (activateJob job p)
    pastJobs              := ∅
    chainTip              := some p })
  | none =>
    if c.activeJob.isSome ∨ c.futureTemplateToJobId.entries ≠ [] then
      (.error "template id not found", c)
    else
      (.ok (), { c with chainTip := some p })

def jobStore {ε : Type} (other : String → ε) : JobStore (Channel μ) μ ε where
  getChannelId             := (·.params.channelId)
  getFutureTemplateToJobId := futureTemplateToJobId
  getFutureJobs            := futureJobs
  getActiveJob             := activeJob
  getPastJobs              := pastJobs
  onNewTemplate c t o      := (c.onNewTemplate t o).map (Except.mapError other) id
  onSetNewPrevHash c p     := (c.onSetNewPrevHash p).map (Except.mapError other) id

section Laws

variable {ε : Type} {other : String → ε} {c c' : Channel μ} {t : NewTemplate} {p : SetNewPrevHash}
variable {outputs : List TxOut} {job : Job μ} {j : JobId} {r : Except String Unit}

theorem activateJob_same : Job.Same job (activateJob job p) where
  template        := rfl
  coinbaseOutputs := rfl
  jobId           := MessageOf.jobId_activate job.jobMessage p.headerTimestamp
  channelId       := MessageOf.channelId_activate job.jobMessage p.headerTimestamp

theorem makeJob_jobId : (c.makeJob t outputs).getJobId = c.nextJobId :=
  MessageOf.jobId_make (μ := μ) c.params.channelId c.nextJobId t

theorem unused_iff : c.Unused j ↔
    (∀ e ∈ c.futureTemplateToJobId.entries, e.2 ≠ j) ∧ (∀ e ∈ c.futureJobs.entries, e.2.getJobId ≠ j) ∧
      (∀ job ∈ c.activeJob, job.getJobId ≠ j) ∧ ∀ e ∈ c.pastJobs.entries, e.2.getJobId ≠ j := by
  simp only [Unused, jobIds, List.mem_append, List.mem_map, Option.mem_toList, Option.mem_def, not_or,
    not_exists, not_and, ne_eq, and_assoc]

theorem Unused.knows (h : c.Unused j) (hk : (jobStore other).Knows c job) : job.getJobId ≠ j := by
  have ⟨_, hf, ha, hp⟩ := unused_iff.mp h
  obtain (hk | ⟨i, hk⟩) | ⟨t, hk⟩ := hk
  · exact ha job hk
  · exact hp _ <| AList.mem_lookup_iff.mp hk
  · obtain ⟨i, _, hk⟩ := Option.bind_eq_some_iff.mp hk
    exact hf _ <| AList.mem_lookup_iff.mp hk

theorem makeJob_makes (h : c.Unused c.nextJobId) :
    (jobStore other).Makes c t outputs (c.makeJob t outputs) where
  template        := rfl
  coinbaseOutputs := rfl
  channelId       := MessageOf.channelId_make (μ := μ) c.params.channelId c.nextJobId t
  fresh _ hk he   := h.knows hk (he.trans makeJob_jobId)

theorem makes_activate (h : (jobStore other).Makes c t outputs job) :
    (jobStore other).Makes c t outputs (activateJob job p) where
  template        := h.template
  coinbaseOutputs := h.coinbaseOutputs
  channelId       := activateJob_same.channelId.trans h.channelId
  fresh job' hk he := h.fresh job' hk (he.trans activateJob_same.jobId)

theorem onNewTemplate_cases (h : c.onNewTemplate t outputs = (r, c')) :
    (∃ e, r = .error e ∧ c' = c) ∨ r = .ok () ∧ c.Unused c.nextJobId ∧
      ((t.futureTemplate = true ∧ c' = { c with
          made                  := c.made + 1
          futureTemplateToJobId := c.futureTemplateToJobId.insert t.templateId c.nextJobId
          futureJobs            := c.futureJobs.insert c.nextJobId (c.makeJob t outputs) }) ∨
        t.futureTemplate = false ∧ ∃ p, c' = { c with
          made      := c.made + 1
          activeJob := some (activateJob (c.makeJob t outputs) p)
          pastJobs  := c.retire }) := by
  simp only [onNewTemplate] at h
  split at h
  case isFalse =>
    cases h
    exact .inl ⟨_, rfl, rfl⟩
  case isTrue hu =>
    split at h
    case isTrue ht =>
      cases h
      exact .inr ⟨rfl, hu, .inl ⟨ht, rfl⟩⟩
    case isFalse ht =>
      split at h
      case h_1 =>
        cases h
        exact .inl ⟨_, rfl, rfl⟩
      case h_2 p _ =>
        cases h
        exact .inr ⟨rfl, hu, .inr ⟨by simpa using ht, p, rfl⟩⟩

theorem accepts_of_retire (h : c.retire.lookup j = some job) : (jobStore other).Accepts c job := by
  rw [retire] at h
  cases ha : c.activeJob with
  | none =>
    rw [ha] at h
    exact .inr ⟨j, h⟩
  | some job' =>
    rw [ha, Option.elim_some, Map.lookup_insert_ite] at h
    split at h
    case isTrue =>
      cases h
      exact .inl ha
    case isFalse => exact .inr ⟨j, h⟩

theorem onSetNewPrevHash_cases (h : c.onSetNewPrevHash p = (r, c')) :
    (∃ job, r = .ok () ∧ c.futureJob p.templateId = some job ∧ c' = { c with
        futureTemplateToJobId := c.futureTemplateToJobId.erase p.templateId
        activeJob             := some (activateJob job p)
        pastJobs              := ∅
        chainTip              := some p }) ∨
      c.futureJob p.templateId = none ∧
        ((∃ e, r = .error e ∧ c' = c) ∨
          r = .ok () ∧ c.activeJob = none ∧ c.futureTemplateToJobId.entries = [] ∧
            c' = { c with chainTip := some p }) := by
  simp only [onSetNewPrevHash] at h
  split at h
  case h_1 job hj =>
    cases h
    exact .inl ⟨job, rfl, hj, rfl⟩
  case h_2 hj =>
    split at h
    case isTrue =>
      cases h
      exact .inr ⟨hj, .inl ⟨_, rfl, rfl⟩⟩
    case isFalse ha =>
      cases h
      simp only [not_or, Option.not_isSome_iff_eq_none, not_not] at ha
      exact .inr ⟨hj, .inr ⟨rfl, ha.left, ha.right, rfl⟩⟩

omit [MessageOf μ] in
-- What the results with an error of another type say about those of the reference.
theorem mapError_eq {x : Except String Unit × Channel μ} {y : Except ε Unit}
    (h : x.map (Except.mapError other) id = (y, c')) :
    ∃ r, x = (r, c') ∧ (y = .ok () ↔ r = .ok ()) := by
  obtain ⟨r, c⟩ := x
  obtain ⟨rfl, rfl⟩ := Prod.mk.inj h
  refine ⟨r, rfl, ?_⟩
  cases r <;> simp [Except.mapError]

theorem futureJob_newFuture {t' : TemplateId} (hu : c.Unused c.nextJobId) :
    futureJob { c with
      made                  := c.made + 1
      futureTemplateToJobId := c.futureTemplateToJobId.insert t.templateId c.nextJobId
      futureJobs            := c.futureJobs.insert c.nextJobId job } t' =
      if t' = t.templateId then some job else c.futureJob t' := by
  simp only [futureJob, Map.lookup_insert_ite]
  split
  case isTrue => simp
  case isFalse =>
    cases hl : c.futureTemplateToJobId.lookup t' with
    | none   => rfl
    | some i =>
      have hi : i ≠ c.nextJobId := (unused_iff.mp hu).left _ <| AList.mem_lookup_iff.mp hl
      simp [hi]

theorem keeps_of_same (hp : c'.params.channelId = c.params.channelId)
    (ht : c'.futureTemplateToJobId = c.futureTemplateToJobId) (hf : c'.futureJobs = c.futureJobs)
    (ha : c'.activeJob = c.activeJob) (hs : c'.pastJobs = c.pastJobs) :
    (jobStore other).Keeps c c' where
  channelId := hp
  futureJob := funext fun t => by simp only [JobStore.futureJob, jobStore, ht, hf]
  activeJob := ha
  pastJobs  := hs

theorem fresh_new {params : ChannelParams} {rollable : UInt16} :
    (jobStore other).Fresh (new (μ := μ) params rollable) params.channelId where
  channelId := rfl
  futureJob := fun _ => rfl
  activeJob := rfl
  pastJobs  := rfl

theorem newFutureTemplate (other : String → ε) (ht : t.futureTemplate = true)
    (h : c.onNewTemplate t outputs = (.ok (), c')) :
    c'.params = c.params ∧ c'.activeJob = c.activeJob ∧
      (∃ job, (jobStore other).Makes c t outputs job ∧ c'.futureJob t.templateId = some job) ∧
      ∀ t', t' ≠ t.templateId → c'.futureJob t' = c.futureJob t' := by
  obtain ⟨e, he, _⟩ | ⟨_, hu, ⟨_, rfl⟩ | ⟨hf, _⟩⟩ := onNewTemplate_cases h
  · cases he
  · refine ⟨rfl, rfl, ⟨_, makeJob_makes hu, ?_⟩, fun t' ht' => ?_⟩
    · rw [futureJob_newFuture hu, if_pos rfl]
    · rw [futureJob_newFuture hu, if_neg ht']
  · simp [ht] at hf

theorem newTemplate (other : String → ε) (ht : t.futureTemplate = false)
    (h : c.onNewTemplate t outputs = (.ok (), c')) :
    c'.params = c.params ∧ c'.futureJob = c.futureJob ∧
      ∃ job, (jobStore other).Makes c t outputs job ∧ c'.activeJob = some job := by
  obtain ⟨e, he, _⟩ | ⟨_, hu, ⟨hf, _⟩ | ⟨_, p, rfl⟩⟩ := onNewTemplate_cases h
  · cases he
  · simp [ht] at hf
  · exact ⟨rfl, rfl, _, makes_activate (makeJob_makes hu), rfl⟩

theorem newTemplatePast (h : c.onNewTemplate t outputs = (.ok (), c'))
    (hj : c'.pastJobs.lookup j = some job) : (jobStore other).Accepts c job := by
  obtain ⟨e, he, _⟩ | ⟨_, _, ⟨_, rfl⟩ | ⟨_, p, rfl⟩⟩ := onNewTemplate_cases h
  · cases he
  · exact .inr ⟨j, hj⟩
  · exact accepts_of_retire hj

omit [MessageOf μ] in
theorem futureJob_erase {t t' : TemplateId} {tip : Option SetNewPrevHash} {active : Option (Job μ)} :
    futureJob { c with
      futureTemplateToJobId := c.futureTemplateToJobId.erase t'
      activeJob             := active
      pastJobs              := ∅
      chainTip              := tip } t = if t = t' then none else c.futureJob t := by
  simp only [futureJob, Map.lookup_erase_ite]
  split <;> rfl

theorem setNewPrevHash (h : c.futureJob p.templateId = some job) :
    ∃ c', c.onSetNewPrevHash p = (.ok (), c') ∧
      (∃ job', c'.activeJob = some job' ∧ Job.Same job job') ∧ c'.futureJob p.templateId = none := by
  refine ⟨_, by simp only [onSetNewPrevHash, h]; rfl, ⟨_, rfl, activateJob_same⟩, ?_⟩
  rw [futureJob_erase, if_pos rfl]

theorem setNewPrevHashFuture (h : c.onSetNewPrevHash p = (r, c')) :
    c'.params = c.params ∧ ∀ t job, c'.futureJob t = some job → c.futureJob t = some job := by
  obtain ⟨_, _, _, rfl⟩ | ⟨_, ⟨_, _, rfl⟩ | ⟨_, _, _, rfl⟩⟩ := onSetNewPrevHash_cases h
  · refine ⟨rfl, fun t job hj => ?_⟩
    rw [futureJob_erase] at hj
    split at hj
    case isTrue  => cases hj
    case isFalse => exact hj
  · exact ⟨rfl, fun _ _ => id⟩
  · exact ⟨rfl, fun _ _ => id⟩

theorem setNewPrevHashKnows (h : c.onSetNewPrevHash p = (r, c'))
    (hk : (jobStore other).Knows c' job) : ∃ job', (jobStore other).Knows c job' ∧ Job.Same job' job := by
  obtain ⟨job', _, hj, rfl⟩ | ⟨_, ⟨_, _, rfl⟩ | ⟨_, _, _, rfl⟩⟩ := onSetNewPrevHash_cases h
  · obtain (hk | ⟨i, hk⟩) | ⟨t, hk⟩ := hk
    · cases hk
      exact ⟨job', .inr ⟨_, hj⟩, activateJob_same⟩
    · simp [jobStore] at hk
    · exact ⟨job, .inr ⟨t, (setNewPrevHashFuture h).right t job hk⟩, .refl job⟩
  · exact ⟨job, hk, .refl job⟩
  · exact ⟨job, hk, .refl job⟩

-- The results of the store are those of the channel, with their errors in another type.
theorem onNewTemplate_of_store {y : Except ε Unit}
    (h : (jobStore other).onNewTemplate c t outputs = (y, c')) :
    ∃ r, c.onNewTemplate t outputs = (r, c') ∧ (y = .ok () ↔ r = .ok ()) :=
  mapError_eq h

theorem onSetNewPrevHash_of_store {y : Except ε Unit}
    (h : (jobStore other).onSetNewPrevHash c p = (y, c')) :
    ∃ r, c.onSetNewPrevHash p = (r, c') ∧ (y = .ok () ↔ r = .ok ()) :=
  mapError_eq h

theorem onNewTemplate_same : ((jobStore other).onNewTemplate c t outputs).2.params = c.params ∧
    ((jobStore other).onNewTemplate c t outputs).2.members = c.members := by
  have ⟨_, h, _⟩ := onNewTemplate_of_store
    (Prod.mk.eta.symm : (jobStore other).onNewTemplate c t outputs = _)
  obtain ⟨_, _, hc⟩ | ⟨_, _, ⟨_, hc⟩ | ⟨_, _, hc⟩⟩ := onNewTemplate_cases h
  all_goals
    rw [hc]
    exact ⟨rfl, rfl⟩

theorem onSetNewPrevHash_same : ((jobStore other).onSetNewPrevHash c p).2.params = c.params ∧
    ((jobStore other).onSetNewPrevHash c p).2.members = c.members := by
  have ⟨_, h, _⟩ := onSetNewPrevHash_of_store
    (Prod.mk.eta.symm : (jobStore other).onSetNewPrevHash c p = _)
  obtain ⟨_, _, _, hc⟩ | ⟨_, ⟨_, _, hc⟩ | ⟨_, _, _, hc⟩⟩ := onSetNewPrevHash_cases h
  all_goals
    rw [hc]
    exact ⟨rfl, rfl⟩

theorem store_onSetNewPrevHash (h : c.onSetNewPrevHash p = (r, c')) :
    (jobStore other).onSetNewPrevHash c p = (r.mapError other, c') := by
  simp only [jobStore, h, Prod.map_apply, id_eq]

theorem jobStore_lawful : (jobStore (μ := μ) other).Lawful where
  newFutureTemplate c t outputs c' ht h := by
    have ⟨r, h, hr⟩ := onNewTemplate_of_store h
    have ⟨hp, ha, hm, ho⟩ := newFutureTemplate other ht (hr.mp rfl ▸ h)
    exact ⟨congrArg ChannelParams.channelId hp, ha, hm, ho⟩
  newTemplate c t outputs c' ht h := by
    have ⟨r, h, hr⟩ := onNewTemplate_of_store h
    have ⟨hp, hf, hm⟩ := newTemplate other ht (hr.mp rfl ▸ h)
    exact ⟨congrArg ChannelParams.channelId hp, hf, hm⟩
  newTemplateError c t outputs e c' h := by
    have ⟨r, h, hr⟩ := onNewTemplate_of_store h
    obtain ⟨_, _, rfl⟩ | ⟨rfl, _⟩ := onNewTemplate_cases h
    · exact .refl _ _
    · cases hr.mpr rfl
  newTemplatePast c t outputs c' j job h hj := by
    have ⟨r, h, hr⟩ := onNewTemplate_of_store h
    exact newTemplatePast (hr.mp rfl ▸ h) hj
  setNewPrevHash c p job h := by
    have ⟨c', hp, ha, hc⟩ := setNewPrevHash h
    exact ⟨c', store_onSetNewPrevHash hp, ha, hc⟩
  setNewPrevHashFuture c p y c' h := by
    have ⟨r, h, _⟩ := onSetNewPrevHash_of_store h
    have ⟨hp, hf⟩ := setNewPrevHashFuture h
    exact ⟨congrArg ChannelParams.channelId hp, hf⟩
  setNewPrevHashKnows c p y c' job' h hk := by
    have ⟨r, h, _⟩ := onSetNewPrevHash_of_store h
    exact setNewPrevHashKnows h hk

end Laws

end Channel

end StratumCore.Reference
