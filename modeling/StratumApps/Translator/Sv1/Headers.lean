import StratumApps.Translator.Sv1.Tips

open Sv2 Handler StratumCore

namespace Translator.Sv1

structure Header where
  version    : UInt32
  prevHash   : U256
  merkleRoot : U256
  time       : UInt32
  bits       : UInt32
  nonce      : UInt32
  deriving DecidableEq

-- The merkle root of the parts of a coinbase, of its extranonce and of a branch; that of a job of the
-- upstream with an extranonce; and the hash of a header.
structure Hashing where
  merkleRootFromPath : Bytes → Bytes → Bytes → List U256 → Option U256
  jobMerkleRoot      : NewExtendedMiningJob → Bytes → Option U256
  blockHash          : Header → Target

-- A notify has the merkle roots of its job, and its chain tip.
structure Core.Hashes (C : Core) (H : Hashing) : Prop where
  shareHash : ∀ n extranonce version time nonce, C.shareHash n extranonce version time nonce =
    (H.merkleRootFromPath n.coinBase1 n.coinBase2 extranonce n.merkleBranch).map fun root =>
      H.blockHash ⟨version, n.prevHash, root, time, n.bits, nonce⟩
  notify    : ∀ p job clean n, C.buildSv1NotifyFromSv2 p job clean = some n →
    n.prevHash = p.prevHash ∧ n.bits = p.nbits ∧ ∀ extranonce,
      H.merkleRootFromPath n.coinBase1 n.coinBase2 extranonce n.merkleBranch =
        H.jobMerkleRoot job extranonce

-- A submission takes its fields from the share, and its version from that of the job it is given and
-- from the version bits. These go with a mask.
structure Core.Submits (C : Core) : Prop where
  made  : ∀ share channelId n version mask m,
    C.buildSv2SubmitShares share channelId n version mask = some m →
      m.ntime = share.time ∧ m.nonce = share.nonce ∧ m.extranonce.1 = share.extraNonce2 ∧
        Reference.shareVersion version share.versionBits mask = some m.version ∧
        ∀ p job clean notify, C.buildSv1NotifyFromSv2 p job clean = some notify →
          notify.jobId = share.jobId → m.jobId = job.jobId
  makes : ∀ share channelId n version mask p job clean notify, share.extraNonce2.length ≤ 32 →
    C.buildSv1NotifyFromSv2 p job clean = some notify → notify.jobId = share.jobId →
    Reference.shareVersion version share.versionBits mask ≠ none →
      ∃ m, C.buildSv2SubmitShares share channelId n version mask = some m

section Headers

variable (C : Core) (H : Hashing)

def referencedJob (share : Submit) (validJobs : List Notify) : Option Notify :=
  validJobs.find? (·.jobId = share.jobId)

def hashedVersion (share : Submit) (versionRollingMask : Option UInt32) (job : Notify) : UInt32 :=
  let shareVersion := share.versionBits.getD job.version
  let mask := versionRollingMask.getD versionMask
  (job.version &&& ~~~mask) ||| (shareVersion &&& mask)

-- The header that a share is checked with.
def hashedHeader (share : Submit) (extranonce1 : Bytes) (versionRollingMask : Option UInt32)
    (job : Notify) : Option Header :=
  (H.merkleRootFromPath job.coinBase1 job.coinBase2 (extranonce1 ++ share.extraNonce2)
    job.merkleBranch).map fun root => {
      version    := hashedVersion share versionRollingMask job
      prevHash   := job.prevHash
      merkleRoot := root
      time       := share.time
      bits       := job.bits
      nonce      := share.nonce }

-- The header of a submission for a job of the upstream.
def submittedHeader (p : SetNewPrevHashMp) (job : NewExtendedMiningJob) (extranoncePrefix : Bytes)
    (m : SubmitSharesExtended) : Option Header :=
  (H.jobMerkleRoot job (extranoncePrefix ++ m.extranonce.1)).map fun root => {
    version    := m.version
    prevHash   := p.prevHash
    merkleRoot := root
    time       := m.ntime
    bits       := p.nbits
    nonce      := m.nonce }

-- What the server makes of a share that it gets from a downstream.
def submission (sequenceNumber : UInt32) (m : SubmitShareWithChannelId) :
    Option SubmitSharesExtended :=
  m.jobVersion.bind fun jobVersion => C.buildSv2SubmitShares m.share m.channelId sequenceNumber
    jobVersion m.versionRollingMask

-- The submission that is made of a pending share is for the job that the share was checked with, and
-- has the same header.
def HeaderAgrees (d : DownstreamData) (validJobs : List Notify) (share : Submit)
    (pending : SubmitShareWithChannelId) : Prop :=
  ∀ n p job clean sequenceNumber, referencedJob share validJobs = some n →
    C.buildSv1NotifyFromSv2 p job clean = some n →
    ∃ m header, submission C sequenceNumber pending = some m ∧ m.jobId = job.jobId ∧
      hashedHeader H share d.extranonce1 d.versionRollingMask n = some header ∧
      submittedHeader H p job d.extranonce1 m = some header

-- Two versions of jobs that make the same of a share. Version bits go with a mask.
def SameUnder (a b : UInt32) : Option UInt32 → Option UInt32 → Prop
  | some _, some mask => a &&& ~~~mask = b &&& ~~~mask
  | none, none        => a = b
  | _, _              => False

-- The condition: the last version that the miner got is that of the job, but for the bits that are
-- rolled.
def SameVersion (d : DownstreamData) (validJobs : List Notify) (share : Submit) : Prop :=
  ∀ n, referencedJob share validJobs = some n → ∃ version, d.lastJobVersionField = some version ∧
    SameUnder n.version version share.versionBits d.versionRollingMask

end Headers

section Versions

variable {a b bits mask : UInt32}

-- The bits outside the mask are those of the job.
theorem combined_outside (bits : UInt32) :
    ((a &&& ~~~mask) ||| (bits &&& mask)) &&& ~~~mask = a &&& ~~~mask := by
  apply UInt32.toBitVec_inj.mp
  simp only [UInt32.toBitVec_and, UInt32.toBitVec_or, UInt32.toBitVec_not]
  ext i
  simp only [BitVec.getElem_and, BitVec.getElem_or, BitVec.getElem_not]
  cases mask.toBitVec[i] <;> simp

theorem combined_self : (a &&& ~~~mask) ||| (a &&& mask) = a := by
  apply UInt32.toBitVec_inj.mp
  simp only [UInt32.toBitVec_and, UInt32.toBitVec_or, UInt32.toBitVec_not]
  ext i
  simp only [BitVec.getElem_and, BitVec.getElem_or, BitVec.getElem_not]
  cases mask.toBitVec[i] <;> simp

theorem combined_eq_iff :
    (a &&& ~~~mask) ||| (bits &&& mask) = (b &&& ~~~mask) ||| (bits &&& mask) ↔
      a &&& ~~~mask = b &&& ~~~mask := by
  constructor
  case mp =>
    intro h
    rw [← combined_outside bits, h, combined_outside]
  case mpr =>
    intro h
    rw [h]

theorem sameUnder_iff {share : Submit} {mask : Option UInt32} {job : Notify} {version : UInt32} :
    SameUnder job.version version share.versionBits mask ↔
      Reference.shareVersion version share.versionBits mask = some (hashedVersion share mask job) := by
  rw [hashedVersion]
  cases share.versionBits with
  | none =>
    cases mask with
    | none   =>
      dsimp only [Option.getD_none]
      rw [combined_self]
      exact eq_comm.trans (Option.some.injEq _ _).to_iff.symm
    | some _ => exact iff_of_false id (Option.some_ne_none _).symm
  | some _ =>
    cases mask with
    | none   => exact iff_of_false id (Option.some_ne_none _).symm
    | some _ =>
      refine Iff.trans ?_ (Option.some.injEq _ _).to_iff.symm
      exact eq_comm.trans combined_eq_iff.symm

end Versions

section Share

variable {C : Core} {H : Hashing} {d data : DownstreamData} {validJobs : List Notify} {share : Submit}
variable {pending : SubmitShareWithChannelId} {n : Notify} {header : Header}

theorem validateSv1Share_eq (hH : C.Hashes H) {target : Target} {extranonce1 : Bytes}
    {mask : Option UInt32} : validateSv1Share C share target extranonce1 mask validJobs =
      ((referencedJob share validJobs).bind (hashedHeader H share extranonce1 mask)).any
        fun header => decide (H.blockHash header < target) := by
  rw [validateSv1Share, referencedJob]
  split
  case h_1 hn => rw [hn, Option.bind_none, Option.any_none]
  case h_2 n hn =>
    simp only [hn, Option.bind_some, hH.shareHash, hashedHeader, Option.any_map]
    rfl

-- A share that is accepted has been checked with a header, and is pending with what the miner has.
theorem handleSubmit_eq_true (hH : C.Hashes H) (h : d.handleSubmit C validJobs share = (true, data)) :
    ∃ channelId n header, d.channelId = some channelId ∧ referencedJob share validJobs = some n ∧
      hashedHeader H share d.extranonce1 d.versionRollingMask n = some header ∧
      data.pendingShare = some {
        channelId          := channelId
        downstreamId       := d.downstreamId
        share              := share
        extranonce         := d.extranonce1
        extranonce2Len     := d.extranonce2Len
        versionRollingMask := d.versionRollingMask
        jobVersion         := d.lastJobVersionField } := by
  rw [DownstreamData.handleSubmit] at h
  split at h
  case h_1 => cases h
  case h_2 channelId hc =>
    split at h
    case isFalse => cases h
    case isTrue hv =>
      cases h
      rw [validateSv1Share_eq hH, Option.any_eq_true] at hv
      obtain ⟨header, hh, _⟩ := hv
      obtain ⟨n, hn, hh⟩ := Option.bind_eq_some_iff.mp hh
      exact ⟨channelId, n, header, hc, hn, hh, rfl⟩

-- The server forwards the submission, if it can make one, and nothing else.
theorem submitShare_forwards {cfg : Config} {s s' : System} (h : s.submitShare C cfg pending = .ok s') :
    ∃ tlvs, s'.forwarded = s.forwarded ++ (submission C s.server.sequenceCounter pending).toList.map
      fun m => (.submitSharesExtended m, tlvs) := by
  rw [System.submitShare] at h
  split at h
  case h_1 hv =>
    cases pure_eq_ok.mp h
    rw [submission, hv]
    exact ⟨none, (List.append_nil _).symm⟩
  case h_2 version hv =>
    simp only [bind_eq_ok, orErr_eq_ok, pure_eq_ok] at h
    obtain ⟨m, hm, tlvs, _, rfl⟩ := h
    rw [submission, hv, Option.bind_some, hm]
    exact ⟨tlvs, rfl⟩

-- The two headers differ in their versions only.
theorem submittedHeader_eq (hH : C.Hashes H) (hB : C.Submits) {p : SetNewPrevHashMp}
    {job : NewExtendedMiningJob} {clean : Bool} {m : SubmitSharesExtended} {channelId : ChannelId}
    {sequenceNumber version : UInt32} {mask : Option UInt32} {extranonce1 : Bytes}
    (hj : C.buildSv1NotifyFromSv2 p job clean = some n)
    (hm : C.buildSv2SubmitShares share channelId sequenceNumber version mask = some m)
    (hh : hashedHeader H share extranonce1 mask n = some header) :
    submittedHeader H p job extranonce1 m = some { header with version := m.version } := by
  obtain ⟨ht, hx, he, _⟩ := hB.made _ _ _ _ _ _ hm
  obtain ⟨hp, hb, hr⟩ := hH.notify _ _ _ _ hj
  rw [hashedHeader, hr] at hh
  obtain ⟨root, hr, rfl⟩ := Option.map_eq_some_iff.mp hh
  rw [submittedHeader, he, hr, ht, hx, hp, hb]
  rfl

theorem submittedHeader_version {p : SetNewPrevHashMp} {job : NewExtendedMiningJob}
    {m : SubmitSharesExtended} {extranonce1 : Bytes}
    (hs : submittedHeader H p job extranonce1 m = some header) : header.version = m.version := by
  obtain ⟨_, _, rfl⟩ := Option.map_eq_some_iff.mp hs
  rfl

theorem hashedHeader_version {extranonce1 : Bytes} {mask : Option UInt32}
    (hh : hashedHeader H share extranonce1 mask n = some header) :
    header.version = hashedVersion share mask n := by
  obtain ⟨_, _, rfl⟩ := Option.map_eq_some_iff.mp hh
  rfl

theorem headerAgrees_iff (hH : C.Hashes H) (hB : C.Submits) (hl : share.extraNonce2.length ≤ 32)
    {p : SetNewPrevHashMp} {job : NewExtendedMiningJob} {clean : Bool}
    (hn : referencedJob share validJobs = some n) (hj : C.buildSv1NotifyFromSv2 p job clean = some n)
    (ha : d.handleSubmit C validJobs share = (true, data)) (hp : data.pendingShare = some pending) :
    HeaderAgrees C H d validJobs share pending ↔ SameVersion d validJobs share := by
  have hi : n.jobId = share.jobId := by simpa using List.find?_some hn
  obtain ⟨channelId, n', header, _, hn', hh, hp'⟩ := handleSubmit_eq_true hH ha
  cases hn.symm.trans hn'
  cases hp.symm.trans hp'
  constructor
  case mp =>
    intro h n' hn'
    cases hn.symm.trans hn'
    obtain ⟨m, header', hm, _, hh', hs⟩ := h n p job clean 0 hn hj
    cases hh.symm.trans hh'
    obtain ⟨version, hv, hm⟩ := Option.bind_eq_some_iff.mp hm
    refine ⟨version, hv, sameUnder_iff.mpr ?_⟩
    rw [← hashedHeader_version hh, submittedHeader_version hs]
    exact (hB.made _ _ _ _ _ _ hm).right.right.right.left
  case mpr =>
    intro h n' p' job' clean' sequenceNumber hn' hj'
    cases hn.symm.trans hn'
    obtain ⟨version, hv, hs⟩ := h n hn
    have hs := sameUnder_iff.mp hs
    obtain ⟨m, hm⟩ := hB.makes share channelId sequenceNumber version d.versionRollingMask _ _ _ _ hl
      hj' hi (by rw [hs]; exact Option.some_ne_none _)
    obtain ⟨_, _, _, hw, hk⟩ := hB.made _ _ _ _ _ _ hm
    have hw : m.version = header.version := by
      rw [hashedHeader_version hh]
      exact Option.some.inj (hw.symm.trans hs)
    refine ⟨m, header, ?_, hk _ _ _ _ hj' hi, hh, ?_⟩
    · exact Option.bind_eq_some_iff.mpr ⟨version, hv, hm⟩
    · rw [submittedHeader_eq hH hB hj' hm hh, hw]

end Share

namespace System

variable {C : Core} {H : Hashing} {cfg : Config} {s s' : System} {a : Action} {c c' : ChannelId}
variable {n n' : Notify}

-- A notify is of a job of the upstream.
def OfJob (C : Core) (n : Notify) : Prop :=
  ∃ p job clean, C.buildSv1NotifyFromSv2 p job clean = some n

def JobsMade (C : Core) (s : Sv1Server) : Prop :=
  ∀ c, ∀ n ∈ s.validJobs c, OfJob C n

theorem mem_validJobs_storeJob {s : Sv1Server} {clean : Bool} {c' : Option ChannelId}
    (h : n' ∈ (s.storeJob c n clean).validJobs c') : n' = n ∨ n' ∈ s.validJobs c' := by
  have pushed {jobs : List Notify} (h : n' ∈ (if clean then [] else jobs) ++ [n]) :
      n' = n ∨ n' ∈ jobs := by
    obtain h | h := List.mem_append.mp h
    · split at h
      case isTrue  => cases h
      case isFalse => exact .inr h
    · exact .inl (List.mem_singleton.mp h)
  rw [Sv1Server.storeJob.eq_def] at h
  dsimp only at h
  split at h
  case h_1 ha =>
    rw [Sv1Server.validJobs, ha]
    exact pushed h
  case h_2 jobs ha hn =>
    rw [Sv1Server.validJobs, ha, hn]
    rw [Sv1Server.validJobs, ha] at h
    dsimp only at h ⊢
    cases c' with
    | none   => cases h
    | some c' =>
      rw [Option.bind_some] at h ⊢
      by_cases hc : c' = c
      case pos =>
        rw [hc, Map.lookup_upsert] at h
        rw [hc]
        exact pushed h
      case neg =>
        rw [Map.lookup_upsert_ne hc] at h
        exact .inr h
  case h_3 ha hn => exact .inr h

theorem jobsMade_step (hm : JobsMade C s.server) (h : s.step C cfg a = some s') :
    JobsMade C s'.server := by
  have hr := revises_of_step h
  generalize s'.server = server at hr
  cases hr with
  | job _ hp hn =>
    intro c n' hn'
    obtain rfl | hn' := mem_validJobs_storeJob hn'
    · exact ⟨_, _, _, hn⟩
    · exact hm c n' hn'
  | _ => exact hm

theorem jobsMade_of_reachable (h : (machine C cfg).Reachable s) : JobsMade C s.server := by
  refine h.invariant (I := fun s => JobsMade C s.server) (fun s hs c n hn => ?_)
    fun _ _ _ => jobsMade_step
  subst hs
  simp only [new, Sv1Server.new, Sv1Server.validJobs] at hn
  generalize cfg.aggregateChannels = aggregateChannels at hn
  cases aggregateChannels <;> cases c <;> simp at hn

-- A share that is accepted is submitted with the header that it was checked with exactly when the
-- version of its job is the last one that the miner got, but for the bits that are rolled.
theorem accepted_share_header_iff (hH : C.Hashes H) (hB : C.Submits)
    (hr : (machine C cfg).Reachable s) {d data : DownstreamData} {share : Submit}
    {pending : SubmitShareWithChannelId} (hl : share.extraNonce2.length ≤ 32)
    (ha : d.handleSubmit C (s.server.validJobs d.channelId) share = (true, data))
    (hp : data.pendingShare = some pending) :
    HeaderAgrees C H d (s.server.validJobs d.channelId) share pending ↔
      SameVersion d (s.server.validJobs d.channelId) share := by
  obtain ⟨_, n, _, _, hn, _⟩ := handleSubmit_eq_true hH ha
  obtain ⟨p, job, clean, hj⟩ := jobsMade_of_reachable hr d.channelId n (List.mem_of_find?_eq_some hn)
  exact headerAgrees_iff hH hB hl hn hj ha hp

end System

namespace Reference

def hashing : Hashing where
  merkleRootFromPath _ _ _ _ := some 0
  jobMerkleRoot _ _          := some 0
  blockHash header           := BitVec.ofNat 256 header.nonce.toNat

theorem core_hashes : core.Hashes hashing where
  shareHash _ _ _ _ _ := rfl
  notify _ _ _ _ h := by
    cases h
    exact ⟨rfl, rfl, fun _ => rfl⟩

theorem parse_toString (n : ℕ) : parse (toString n).toList = some n := by
  have hd : Nat.toDigits 10 n ≠ [] ∧ (Nat.toDigits 10 n).all Char.isDigit :=
    ⟨Nat.toDigits_ne_nil, List.all_eq_true.mpr fun _ h => Nat.isDigit_of_mem_toDigits (by decide)
      (by decide) h⟩
  rw [Nat.toString_eq_repr, Nat.toList_repr, parse, if_pos hd]
  exact congrArg some (Nat.ofDigitChars_eq_foldl.symm.trans Nat.ofDigitChars_ten_toDigits)

theorem core_submits : core.Submits where
  made share channelId n version mask m h := by
    simp only [core, buildSv2SubmitShares, Option.bind_eq_bind, Option.bind_eq_some_iff] at h
    obtain ⟨i, hi, version, hv, extranonce, he, h⟩ := h
    split at h
    case isFalse => cases h
    case isTrue hl =>
      cases h
      refine ⟨rfl, rfl, ?_, hv, fun p job clean notify hn hj => ?_⟩
      · exact Bytes.val_of_tryInto he
      · cases hn
        rw [← hj] at hi
        cases hi.symm.trans (parse_toString _)
        exact UInt32.ofNat_toNat
  makes share channelId n version mask p job clean notify hl hn hj hv := by
    cases hn
    obtain ⟨version, hv⟩ := Option.ne_none_iff_exists'.mp hv
    simp only [core, buildSv2SubmitShares, hv, ← hj, buildSv1NotifyFromSv2, parse_toString,
      Bytes.tryInto, dif_pos hl, Option.bind_eq_bind, Option.bind_some]
    rw [if_pos (UInt32.toNat_lt _)]
    exact ⟨_, rfl⟩

namespace Sample

def versionedJob (jobId : JobId) (version : UInt32) : Action :=
  .upstream (.newExtendedMiningJob {
    channelId             := 7
    jobId                 := jobId
    minNtime              := some 0
    version               := version
    versionRollingAllowed := true
    merklePath            := []
    coinbaseTxPrefix      := fit []
    coinbaseTxSuffix      := fit [] })

def share (jobId : String) : Submit where
  id          := 2
  userName    := ""
  jobId       := jobId
  extraNonce2 := [0, 0, 0, 0]
  time        := 0
  nonce       := 0
  versionBits := none

-- A miner has got two jobs for one prev hash, and both are valid.
def twoJobs : List Action :=
  connect 1 ⟨1, .subscribe⟩ ++ [success 1 7] ++ serve 7 ++ [prevHash 7 5, versionedJob 1 0] ++
    serve 1 ++ [versionedJob 2 4] ++ serve 1 ++ [.receive 1, .task 1, .receive 1, .receive 1, .receive 1]

-- The versions of the submission and of the header that was checked, for a share that is accepted.
def versions (s : System) (share : Submit) (o : Downstream) : Option (UInt32 × UInt32) :=
  let jobs := s.server.validJobs o.data.channelId
  let r := o.data.handleSubmit core jobs share
  if r.1 then do
    let pending ← r.2.pendingShare
    let m ← submission core 0 pending
    let n ← referencedJob share jobs
    let header ← hashedHeader hashing share o.data.extranonce1 o.data.versionRollingMask n
    some (m.version, header.version)
  else
    none

theorem older_exec : ((machine core (config false false)).exec (.new false) twoJobs).any fun s =>
    (s.objects.lookup 1).any fun o => versions s (share "1") o = some (4, 0) := by
  decide +kernel

theorem newest_exec : ((machine core (config false false)).exec (.new false) twoJobs).any fun s =>
    (s.objects.lookup 1).any fun o =>
      o.data.versionRollingMask = none ∧ o.data.lastJobVersionField = some 4 ∧
      (referencedJob (share "2") (s.server.validJobs o.data.channelId)).map (·.version) = some 4 ∧
      versions s (share "2") o = some (4, 4) := by
  decide +kernel

theorem versions_eq_some {s : System} {share : Submit} {o : Downstream} {a b : UInt32}
    (h : versions s share o = some (a, b)) :
    ∃ data pending m n header,
      o.data.handleSubmit core (s.server.validJobs o.data.channelId) share = (true, data) ∧
      data.pendingShare = some pending ∧ submission core 0 pending = some m ∧ m.version = a ∧
      referencedJob share (s.server.validJobs o.data.channelId) = some n ∧
      hashedHeader hashing share o.data.extranonce1 o.data.versionRollingMask n = some header ∧
      header.version = b := by
  rw [versions] at h
  split at h
  case isFalse => cases h
  case isTrue ht =>
    simp only [Option.bind_eq_bind, Option.bind_eq_some_iff, Option.some.injEq, Prod.mk.injEq] at h
    obtain ⟨pending, hp, m, hm, n, hn, header, hh, ha, hb⟩ := h
    exact ⟨_, pending, m, n, header, Prod.ext ht rfl, hp, hm, ha, hn, hh, hb⟩

end Sample

open Sample in
theorem not_accepted_share_header : ¬∀ s, (machine core (config false false)).Reachable s →
    ∀ d o share data pending, s.objects.lookup d = some o →
      o.data.handleSubmit core (s.server.validJobs o.data.channelId) share = (true, data) →
      data.pendingShare = some pending →
        HeaderAgrees core hashing o.data (s.server.validJobs o.data.channelId) share pending := by
  intro h
  obtain ⟨s, hs, he⟩ := Option.any_eq_true _ _ |>.mp older_exec
  obtain ⟨o, ho, he⟩ := Option.any_eq_true _ _ |>.mp he
  have hr := Machine.Run.reachable (Machine.Run.of_exec rfl hs)
  obtain ⟨data, pending, m, n, header, ha, hp, hm, hv, hn, hh, hw⟩ :=
    versions_eq_some (of_decide_eq_true he)
  obtain ⟨p, job, clean, hj⟩ :=
    System.jobsMade_of_reachable hr _ n (List.mem_of_find?_eq_some hn)
  obtain ⟨m', header', hm', _, hh', hs'⟩ := h s hr 1 o _ _ _ ho ha hp n p job clean 0 hn hj
  cases hm.symm.trans hm'
  cases hh.symm.trans hh'
  have hs' := (submittedHeader_version hs').symm.trans hw
  rw [hv] at hs'
  exact absurd hs' (by decide)

open Sample in
theorem accepted_share_header_sample : ∃ s d data pending,
    (machine core (config false false)).Reachable s ∧
    d.handleSubmit core (s.server.validJobs d.channelId) (share "2") = (true, data) ∧
    data.pendingShare = some pending ∧
    HeaderAgrees core hashing d (s.server.validJobs d.channelId) (share "2") pending := by
  obtain ⟨s, hs, he⟩ := Option.any_eq_true _ _ |>.mp newest_exec
  obtain ⟨o, ho, he⟩ := Option.any_eq_true _ _ |>.mp he
  obtain ⟨hk, hl, hn, hv⟩ := of_decide_eq_true he
  have hr := Machine.Run.reachable (Machine.Run.of_exec rfl hs)
  obtain ⟨data, pending, m, n, header, ha, hp, _⟩ := versions_eq_some hv
  refine ⟨s, o.data, data, pending, hr, ha, hp, ?_⟩
  refine (System.accepted_share_header_iff core_hashes core_submits hr (by decide) ha hp).mpr ?_
  intro n hn'
  rw [hn'] at hn
  rw [hk]
  exact ⟨4, hl, Option.some.inj hn⟩

end Reference

end Translator.Sv1
