import StratumApps.Lib.Transition
import StratumApps.MiningDevice.Miner

open Sv2

namespace MiningDevice

def isFuture (job : NewMiningJob) : Bool :=
  job.minNtime.isNone

structure Device where
  miner      : Miner
  jobs       : List NewMiningJob
  prevHash   : Option SetNewPrevHashMp
  shouldSend : Bool

namespace Device

variable (compress256 : Compress) (d : Device) (now : UInt32)

def new (handicap : UInt32) : Device where
  miner      := .new handicap
  jobs       := []
  prevHash   := none
  shouldSend := true

-- The handlers that panic give nothing.

def handleNewMiningJob (m : NewMiningJob) : Option Device :=
  match isFuture m, d.prevHash with
  | false, some p => some { d with
    miner      := d.miner.newHeader compress256 now p m
    jobs       := [m]
    shouldSend := true }
  | true, _       => some { d with jobs := d.jobs ++ [m] }
  | false, none   => none

def handleSetNewPrevHash (m : SetNewPrevHashMp) : Option Device :=
  match d.jobs.filter fun j => j.jobId = m.jobId && isFuture j with
  | []    => some { d with prevHash := some m }
  | [job] => some { d with
    miner      := d.miner.newHeader compress256 now m job
    jobs       := [job]
    prevHash   := some m
    shouldSend := true }
  | _     => none

def handleSetTarget (target : Target) : Device :=
  { d with miner := d.miner.newTarget target, shouldSend := true }

end Device

-- The device, or nothing when it has panicked, the jobs it has received, the ids that the messages
-- on the prev hash have named, and the last of these messages.
structure Session where
  device    : Option Device
  received  : List NewMiningJob
  activated : List JobId
  last      : Option SetNewPrevHashMp

inductive Message
  | newMiningJob (now : UInt32) (m : NewMiningJob)
  | setNewPrevHash (now : UInt32) (m : SetNewPrevHashMp)
  | setTarget (target : Target)

namespace Session

variable (compress256 : Compress)

-- The upstream gives each job an id of its own, sends no job for the current prev hash before there
-- is one, and names a future job that it has sent.
def step (s : Session) : Message → Option Session
  | .newMiningJob now m   =>
    if m.jobId ∈ s.received.map (·.jobId) ∨ (isFuture m = false ∧ s.last = none) then
      none
    else
      some { s with
        device   := s.device.bind (·.handleNewMiningJob compress256 now m)
        received := s.received ++ [m] }
  | .setNewPrevHash now m =>
    if s.received.any fun job => job.jobId = m.jobId && isFuture job then
      some { s with
        device    := s.device.bind (·.handleSetNewPrevHash compress256 now m)
        activated := s.activated ++ [m.jobId]
        last      := some m }
    else
      none
  | .setTarget target     => some { s with device := s.device.map (·.handleSetTarget target) }

def start (handicap : UInt32) : Session where
  device    := some (.new handicap)
  received  := []
  activated := []
  last      := none

def machine : Machine Session Message where
  Init s := ∃ handicap, s = start handicap
  step   := step compress256

end Session

-- The header of the miner is that of a job on a prev hash.
def Device.On (d : Device) (job : NewMiningJob) (p : SetNewPrevHashMp) : Prop :=
  ∃ header, d.miner.header = some header ∧ header.merkleRoot = job.merkleRoot ∧
    header.version = job.version ∧ header.prevBlockhash = p.prevHash ∧ header.bits = p.nbits

open Machine (Event Along)

-- The device goes on after a message, with the header that the message asks for, and a job for the
-- current prev hash takes no future job that is still to be activated.
def Followed (e : Event Session Message) : Prop :=
  ∃ d d', e.pre.device = some d ∧ e.post.device = some d' ∧
    match e.act with
    | .newMiningJob _ m   => isFuture m = false →
      (∃ p, e.pre.last = some p ∧ d'.On m p) ∧
      ∀ job ∈ d.jobs, isFuture job → job.jobId ∉ e.pre.activated → job ∈ d'.jobs
    | .setNewPrevHash _ p => ∀ job ∈ e.pre.received, job.jobId = p.jobId → isFuture job → d'.On job p
    | .setTarget _        => True

-- A job for the current prev hash comes when no future job waits, and a prev hash for a job that the
-- device still has, unless its header is that of the job already.
def Timely (s : Session) : Message → Prop
  | .newMiningJob _ m   => isFuture m = false →
    ∀ d, s.device = some d → ∀ job ∈ d.jobs, isFuture job → job.jobId ∈ s.activated
  | .setNewPrevHash _ p => ∀ d, s.device = some d →
    ∀ job ∈ s.received, job.jobId = p.jobId → isFuture job → job ∈ d.jobs ∨ d.On job p
  | .setTarget _        => True

instance {d : Device} {job : NewMiningJob} {p : SetNewPrevHashMp} : Decidable (d.On job p) :=
  inferInstanceAs <| Decidable <| ∃ header ∈ d.miner.header, header.merkleRoot = job.merkleRoot ∧
    header.version = job.version ∧ header.prevBlockhash = p.prevHash ∧ header.bits = p.nbits

instance {s : Session} : DecidablePred (Timely s)
  | .newMiningJob _ m   => inferInstanceAs <| Decidable <| isFuture m = false →
    ∀ d ∈ s.device, ∀ job ∈ d.jobs, isFuture job → job.jobId ∈ s.activated
  | .setNewPrevHash _ p => inferInstanceAs <| Decidable <| ∀ d ∈ s.device,
    ∀ job ∈ s.received, job.jobId = p.jobId → isFuture job → job ∈ d.jobs ∨ d.On job p
  | .setTarget _        => inferInstanceAs (Decidable True)

-- The device has not panicked, and has some of the jobs it has received, which differ in their ids.
structure Session.Keeps (s : Session) : Prop where
  device : ∃ d, s.device = some d ∧ d.jobs.Sublist s.received ∧ d.prevHash = s.last
  nodup  : (s.received.map (·.jobId)).Nodup

variable {compress256 : Compress} {d : Device} {now : UInt32} {job : NewMiningJob}
variable {p : SetNewPrevHashMp} {s s' : Session} {a : Message}

theorem eq_of_jobId {jobs : List NewMiningJob} {job job' : NewMiningJob}
    (hn : (jobs.map (·.jobId)).Nodup) (h : job ∈ jobs) (h' : job' ∈ jobs)
    (hi : job.jobId = job'.jobId) : job = job' :=
  List.inj_on_of_nodup_map hn h h' hi

theorem filter_of_mem {jobs : List NewMiningJob} (hn : (jobs.map (·.jobId)).Nodup)
    (hm : job ∈ jobs) (hi : job.jobId = p.jobId) (hf : isFuture job) :
    jobs.filter (fun j => j.jobId = p.jobId && isFuture j) = [job] := by
  have hc : ∀ j ∈ jobs, (decide (j.jobId = p.jobId) && isFuture j) = (j == job) := by
    intro j hj
    rw [Bool.eq_iff_iff, beq_iff_eq, Bool.and_eq_true, decide_eq_true_iff]
    constructor
    · rintro ⟨hj', _⟩
      exact eq_of_jobId hn hj hm (hj'.trans hi.symm)
    · rintro rfl
      exact ⟨hi, hf⟩
  rw [List.filter_congr hc, List.filter_beq, List.count_eq_one_of_mem (.of_map _ hn) hm]
  rfl

theorem filter_eq_nil {jobs : List NewMiningJob}
    (h : ∀ job ∈ jobs, job.jobId = p.jobId → isFuture job = false) :
    jobs.filter (fun j => j.jobId = p.jobId && isFuture j) = [] := by
  rw [List.filter_eq_nil_iff]
  intro j hj
  simpa using h j hj

theorem handleNewMiningJob_cases (h : isFuture job = false → d.prevHash ≠ none) : ∃ d',
    d.handleNewMiningJob compress256 now job = some d' ∧ d'.prevHash = d.prevHash ∧
    ((isFuture job = true ∧ d'.jobs = d.jobs ++ [job]) ∨
      (isFuture job = false ∧ d'.jobs = [job] ∧ ∃ p, d.prevHash = some p ∧ d'.On job p)) := by
  rw [Device.handleNewMiningJob]
  cases hf : isFuture job with
  | true  => exact ⟨_, rfl, rfl, .inl ⟨rfl, rfl⟩⟩
  | false =>
    cases hp : d.prevHash with
    | none   => exact absurd hp (h hf)
    | some p => exact ⟨_, rfl, rfl, .inr ⟨rfl, rfl, p, rfl, _, rfl, rfl, rfl, rfl, rfl⟩⟩

-- The handler goes on with the job that the message names, if the device has it. If not, it stores
-- the message and leaves the header.
theorem handleSetNewPrevHash_cases (hn : (d.jobs.map (·.jobId)).Nodup) : ∃ d',
    d.handleSetNewPrevHash compress256 now p = some d' ∧ d'.jobs.Sublist d.jobs ∧
    d'.prevHash = some p ∧
    ((∃ job ∈ d.jobs, job.jobId = p.jobId ∧ isFuture job ∧ d'.On job p) ∨
      (∀ job ∈ d.jobs, job.jobId = p.jobId → isFuture job = false) ∧
        d'.miner.header = d.miner.header) := by
  by_cases h : ∃ job ∈ d.jobs, job.jobId = p.jobId ∧ isFuture job
  case pos =>
    obtain ⟨job, hm, hi, hf⟩ := h
    refine ⟨{ d with
      miner      := d.miner.newHeader compress256 now p job
      jobs       := [job]
      prevHash   := some p
      shouldSend := true }, ?_, List.singleton_sublist.mpr hm, rfl, ?_⟩
    · rw [Device.handleSetNewPrevHash, filter_of_mem hn hm hi hf]
    · exact .inl ⟨job, hm, hi, hf, _, rfl, rfl, rfl, rfl, rfl⟩
  case neg =>
    have h : ∀ job ∈ d.jobs, job.jobId = p.jobId → isFuture job = false := by
      intro job hm hi
      simpa using fun hf => h ⟨job, hm, hi, hf⟩
    refine ⟨{ d with prevHash := some p }, ?_, List.Sublist.refl _, rfl, .inr ⟨h, rfl⟩⟩
    rw [Device.handleSetNewPrevHash, filter_eq_nil h]

namespace Session

theorem keeps_start {handicap : UInt32} : (start handicap).Keeps where
  device := ⟨_, rfl, List.Sublist.refl _, rfl⟩
  nodup  := .nil

variable {m : NewMiningJob}

theorem step_newMiningJob (h : s.step compress256 (.newMiningJob now m) = some s') :
    m.jobId ∉ s.received.map (·.jobId) ∧ (isFuture m = false → s.last ≠ none) ∧
      s' = { s with
        device   := s.device.bind (·.handleNewMiningJob compress256 now m)
        received := s.received ++ [m] } := by
  simp only [step, Option.ite_none_left_eq_some, Option.some_inj, not_or, not_and] at h
  exact ⟨h.left.left, h.left.right, h.right.symm⟩

theorem step_setNewPrevHash (h : s.step compress256 (.setNewPrevHash now p) = some s') :
    s' = { s with
      device    := s.device.bind (·.handleSetNewPrevHash compress256 now p)
      activated := s.activated ++ [p.jobId]
      last      := some p } := by
  simp only [step, Option.ite_none_right_eq_some, Option.some_inj] at h
  exact h.right.symm

theorem Keeps.newMiningJob (hs : s.Keeps) (hd : s.device = some d)
    (h : s.step compress256 (.newMiningJob now m) = some s') : ∃ d',
    s'.device = some d' ∧ d'.prevHash = d.prevHash ∧
    ((isFuture m = true ∧ d'.jobs = d.jobs ++ [m]) ∨
      (isFuture m = false ∧ d'.jobs = [m] ∧ ∃ p, d.prevHash = some p ∧ d'.On m p)) := by
  obtain ⟨⟨_, hd', _, hp⟩, _⟩ := hs
  cases hd.symm.trans hd'
  obtain ⟨_, hf, rfl⟩ := step_newMiningJob h
  have hc : ∃ d', d.handleNewMiningJob compress256 now m = some d' ∧ _ :=
    handleNewMiningJob_cases (hp ▸ hf)
  simpa [hd] using hc

theorem Keeps.setNewPrevHash (hs : s.Keeps) (hd : s.device = some d)
    (h : s.step compress256 (.setNewPrevHash now p) = some s') : ∃ d',
    s'.device = some d' ∧ d'.jobs.Sublist d.jobs ∧ d'.prevHash = some p ∧
    ((∃ job ∈ d.jobs, job.jobId = p.jobId ∧ isFuture job ∧ d'.On job p) ∨
      (∀ job ∈ d.jobs, job.jobId = p.jobId → isFuture job = false) ∧
        d'.miner.header = d.miner.header) := by
  obtain ⟨⟨_, hd', hj, _⟩, hn⟩ := hs
  cases hd.symm.trans hd'
  cases step_setNewPrevHash h
  have hc : ∃ d', d.handleSetNewPrevHash compress256 now p = some d' ∧ _ :=
    handleSetNewPrevHash_cases ((hj.map _).nodup hn)
  simpa [hd] using hc

theorem Keeps.step (hs : s.Keeps) (h : s.step compress256 a = some s') : s'.Keeps := by
  have ⟨⟨d, hd, hj, hp⟩, hn⟩ := hs
  cases a with
  | newMiningJob now m   =>
    obtain ⟨d', hd', hp', hc⟩ := hs.newMiningJob hd h
    obtain ⟨hm, _, rfl⟩ := step_newMiningJob h
    refine ⟨⟨d', hd', ?_, hp'.trans hp⟩, ?_⟩
    · obtain ⟨_, hj'⟩ | ⟨_, hj', _⟩ := hc
      · exact hj' ▸ hj.append_right [m]
      · exact hj' ▸ List.sublist_append_right _ _
    · rw [List.map_append, List.map_singleton, ← List.concat_eq_append]
      exact hn.concat hm
  | setNewPrevHash now p =>
    obtain ⟨d', hd', hj', hp', _⟩ := hs.setNewPrevHash hd h
    cases step_setNewPrevHash h
    exact ⟨⟨d', hd', hj'.trans hj, hp'⟩, hn⟩
  | setTarget target     =>
    cases h
    exact ⟨⟨d.handleSetTarget target, by simp [hd], hj, hp⟩, hn⟩

-- A step is followed exactly when it is timely, whatever came before it.
theorem Keeps.followed_step (hs : s.Keeps) (h : s.step compress256 a = some s') :
    Followed ⟨s, a, s'⟩ ↔ Timely s a := by
  have ⟨⟨d, hd, hj, hp⟩, hn⟩ := hs
  cases a with
  | newMiningJob now m   =>
    obtain ⟨d', hd', hp', hc⟩ := hs.newMiningJob hd h
    simp only [Followed, Timely, hd, hd', Option.some_inj, exists_and_left, exists_eq_left', forall_eq']
    obtain ⟨hf, hj'⟩ | ⟨hf, hj', p, hp'', ho⟩ := hc
    case inl => simp [hf]
    case inr =>
      refine imp_congr_right fun _ => ⟨fun ⟨_, hk⟩ job hm hfut => ?_, fun ht => ⟨?_, ?_⟩⟩
      · by_contra hna
        have hjob := hk job hm hfut hna
        rw [hj', List.mem_singleton] at hjob
        rw [hjob, hf] at hfut
        cases hfut
      · exact ⟨p, hp ▸ hp'', ho⟩
      · exact fun job hm hfut hna => absurd (ht job hm hfut) hna
  | setNewPrevHash now p =>
    obtain ⟨d', hd', hj', hp', hc⟩ := hs.setNewPrevHash hd h
    simp only [Followed, Timely, hd, hd', Option.some_inj, exists_and_left, exists_eq_left', forall_eq']
    obtain ⟨job', hm', hi', hf', ho⟩ | ⟨hne, hh⟩ := hc
    case inl =>
      have heq : ∀ job ∈ s.received, job.jobId = p.jobId → job = job' := fun job hm hi =>
        eq_of_jobId hn hm (hj.subset hm') (hi.trans hi'.symm)
      refine iff_of_true (fun job hm hi _ => ?_) (fun job hm hi _ => .inl ?_)
      · exact heq job hm hi ▸ ho
      · exact heq job hm hi ▸ hm'
    case inr =>
      refine forall₄_congr fun job _ hi hf => ?_
      have hm : job ∉ d.jobs := fun hm => by simp [hne job hm hi] at hf
      simp only [hm, false_or, Device.On, hh]
  | setTarget target     =>
    cases h
    simp [Followed, Timely, hd]

theorem followed_iff {tr : List (Event Session Message)} (r : (machine compress256).Run tr s) :
    (∀ e ∈ tr, Followed e) ↔ Along Timely tr :=
  r.forall_iff_along (fun _ ⟨_, h⟩ => h ▸ keeps_start) (fun _ _ _ hk h => hk.followed_step h)
    (fun _ _ _ hk _ h => hk.step h)

namespace Sample

def newJob (i : JobId) (minNtime : Option UInt32) : NewMiningJob where
  channelId  := 1
  jobId      := i
  minNtime   := minNtime
  version    := 0x20000000
  merkleRoot := .ofNat 256 i.toNat

def future (i : JobId) : Message :=
  .newMiningJob 1700000000 (newJob i none)

def current (i : JobId) : Message :=
  .newMiningJob 1700000000 (newJob i (some 1700000000))

def prevHash (i : JobId) : Message :=
  .setNewPrevHash 1700000000 {
    channelId := 1
    jobId     := i
    prevHash  := .ofNat 256 i.toNat
    minNtime  := 1700000000
    nbits     := 0x1d00ffff }

-- The future job 2 is discarded by the job 3, and then named.
def overtaken : List Message :=
  [future 1, prevHash 1, future 2, current 3]

def inTime : List Message :=
  [future 1, prevHash 1, current 2, future 3, prevHash 3]

-- The header that is mined is that of the job 3, though the last prev hash has named the job 2.
theorem overtaken_exec : ((machine Sha256.compress).exec (start 0) overtaken).any fun s =>
    (s.step Sha256.compress (prevHash 2)).any fun s' => s.received.contains (newJob 2 none) &&
      (s'.device.bind (·.miner.header)).all (·.merkleRoot = 3) := by
  decide +kernel

theorem inTime_exec : ((machine Sha256.compress).exec (start 0) inTime).isSome ∧
    ∀ e ∈ (machine Sha256.compress).trace (start 0) inTime, Timely e.pre e.act := by
  decide +kernel

end Sample

open Sample in
theorem not_followed : ¬∀ tr s, (machine Sha256.compress).Run tr s → ∀ e ∈ tr, Followed e := by
  intro h
  obtain ⟨s, hs, ht⟩ := Option.any_eq_true _ _ |>.mp overtaken_exec
  obtain ⟨s', hs', hr⟩ := Option.any_eq_true _ _ |>.mp ht
  simp only [Bool.and_eq_true, List.contains_iff_mem] at hr
  have r : (machine Sha256.compress).Run _ s := .of_exec ⟨0, rfl⟩ hs
  have hst : (machine Sha256.compress).step s (prevHash 2) = some s' := hs'
  have hf : Followed ⟨s, prevHash 2, s'⟩ := h _ _ (r.snoc hst) _ List.mem_concat_self
  obtain ⟨d, d', _, hd', ho⟩ := hf
  obtain ⟨header, hh, hm, _⟩ := ho _ hr.left rfl rfl
  have hd' : s'.device = some d' := hd'
  simp only [hd', Option.bind_some, hh, Option.all_some, hm] at hr
  exact absurd hr.right (by decide)

open Sample in
theorem followed_sample : ∃ tr s, (machine Sha256.compress).Run tr s ∧ tr.length = inTime.length ∧
    ∀ e ∈ tr, Followed e := by
  obtain ⟨hexec, ht⟩ := inTime_exec
  obtain ⟨s, hs⟩ := Option.isSome_iff_exists.mp hexec
  have r : (machine Sha256.compress).Run _ s := .of_exec ⟨0, rfl⟩ hs
  exact ⟨_, s, r, by decide +kernel, (followed_iff r).mpr ht⟩

end Session

end MiningDevice
