import StratumApps.JobDeclaratorClient.Frames

open Sv2 Handler StratumCore

namespace Jdc

variable {C : StratumCore} {cfg : Config} {d : DownstreamId}

-- The loop of the channel manager goes on with the next message.
def Tolerated {α : Type} : Except (Fault JDCError) α → Prop
  | .ok _                => True
  | .error (.err e)      => e.isCritical = false
  | .error (.panicked _) => False

-- Every error is critical.
def Strict {α : Type} (x : Except (Fault JDCError) α) : Prop :=
  ∀ e, x = .error (.err e) → e.isCritical = true

section Tolerated

variable {α β ε σ : Type} {x : Except (Fault JDCError) α} {f : α → Except (Fault JDCError) β}
variable {o : Option α} {a : α} {e : JDCError} {msg : String} {g : ε → JDCError}
variable {y : Except ε α} {z : Except ε α × σ}

theorem tolerated_bind :
    Tolerated (x >>= f) ↔ Tolerated x ∧ ∀ a, x = .ok a → Tolerated (f a) := by
  cases x with
  | ok a        => simp [Tolerated, bind, Except.bind]
  | error fault => cases fault <;> simp [Tolerated, bind, Except.bind]

@[simp]
theorem tolerated_pure : Tolerated (pure a : Except (Fault JDCError) α) :=
  trivial

@[simp]
theorem tolerated_orErr : Tolerated (orErr o e) ↔ (o = none → e.isCritical = false) := by
  cases o <;> simp [Tolerated, orErr]

@[simp]
theorem tolerated_expect : Tolerated (expect o msg) ↔ o.isSome := by
  cases o <;> simp [Tolerated, expect]

theorem returns_expect : Returns (expect o msg : Except (Fault JDCError) α) ↔ o.isSome := by
  simp [Returns, Option.isSome_iff_exists]

theorem tolerated_iff_returns (h : Strict x) : Tolerated x ↔ Returns x := by
  cases x with
  | ok a        => simp [Tolerated, Returns]
  | error fault => cases fault <;> simp_all [Tolerated, Returns, Strict]

theorem strict_bind (hx : Strict x) (hf : ∀ a, x = .ok a → Strict (f a)) : Strict (x >>= f) := by
  intro e h
  cases x with
  | ok a        => exact hf a rfl e h
  | error fault =>
    cases h
    exact hx e rfl

theorem tolerated_bind_strict (h : Strict x) :
    Tolerated (x >>= f) ↔ ∃ a, x = .ok a ∧ Tolerated (f a) := by
  rw [tolerated_bind, tolerated_iff_returns h]
  constructor
  · rintro ⟨⟨a, ha⟩, hf⟩
    exact ⟨a, ha, hf a ha⟩
  · rintro ⟨a, ha, hf⟩
    refine ⟨⟨a, ha⟩, fun a' ha' => ?_⟩
    cases ha.symm.trans ha'
    exact hf

theorem tolerated_bind_orErr {f : α → Except (Fault JDCError) β} (h : e.isCritical = false) :
    Tolerated (orErr o e >>= f) ↔ ∀ a, o = some a → Tolerated (f a) := by
  simp [tolerated_bind, h]

theorem strict_pure : Strict (pure a : Except (Fault JDCError) α) := by
  rintro e ⟨⟩

theorem strict_throw (h : e.isCritical = true) :
    Strict (throw (.err e) : Except (Fault JDCError) α) := by
  rintro e' ⟨⟩
  exact h

theorem strict_orErr (h : e.isCritical = true) : Strict (orErr o e) := by
  intro e' he
  cases o <;> cases he
  exact h

theorem strict_expect : Strict (expect o msg) := by
  intro e h
  cases o <;> cases h

theorem strict_ofExcept (h : ∀ e, (g e).isCritical = true) : Strict (ofExcept g y) := by
  intro e he
  cases y with
  | ok a     => cases he
  | error e' =>
    cases he
    exact h e'

theorem strict_attempt (h : ∀ e, (g e).isCritical = true) : Strict (attempt g z) := by
  obtain ⟨y, s⟩ := z
  intro e he
  cases y with
  | ok a     => cases he
  | error e' =>
    cases he
    exact h e'

end Tolerated

namespace ChannelManager

variable {s : ChannelManager C} {D : Downstream C} {t : NewTemplate} {p : SetNewPrevHash}
variable {outputs : List TxOut}

section Open

-- A new channel takes the last future template and the last prev hash.
def Starts {κ μ ε : Type} (J : JobStore κ μ ε) (channel : κ) (t : NewTemplate)
    (p : SetNewPrevHash) (outputs : List TxOut) : Prop :=
  ∃ c₁ c₂, J.onNewTemplate channel t outputs = (.ok (), c₁) ∧
    (J.futureJob c₁ t.templateId).isSome ∧ J.onSetNewPrevHash c₁ p = (.ok (), c₂)

-- The group channel is there, or not wanted, or can be made.
def GroupReady (s : ChannelManager C) (cfg : Config) (D : Downstream C) (t : NewTemplate)
    (p : SetNewPrevHash) (outputs : List TxOut) : Prop :=
  (!D.requireStdJob && D.groupChannels.isNone) = true →
    ∃ g₀ g₁ g₂, C.group.newForJobDeclarationClient D.channelIdFactory
        (s.upstreamChannel.elim 32 C.upstream.getFullExtranonceSize) s.poolTagString
        cfg.minerTagString = .ok g₀ ∧
      C.group.onNewTemplate g₀ t outputs = (.ok (), g₁) ∧
      C.group.onSetNewPrevHash g₁ p = (.ok (), g₂)

-- The id of the next standard channel. A group channel that is made on the way takes one, too.
def standardChannelId (D : Downstream C) : ChannelId :=
  if !D.requireStdJob && D.groupChannels.isNone then D.channelIdFactory + 1 else D.channelIdFactory

-- The standard channel is refused with a code of the protocol, or it starts with a job.
def StartsStandard (s : ChannelManager C) (cfg : Config) (channelId : ChannelId)
    (extranoncePrefix : Bytes) (msg : OpenStandardMiningChannel) (t : NewTemplate)
    (p : SetNewPrevHash) (outputs : List TxOut) : Prop :=
  match C.standard.newForJobDeclarationClient (standardParams cfg channelId extranoncePrefix msg)
    s.poolTagString cfg.minerTagString with
  | .error e    => (standardChannelErrorCode e).isSome
  | .ok channel => (C.standard.getExtranoncePrefix channel).length ≤ 32 ∧
    Starts C.standard.toJobStore channel t p outputs ∧ Returns C.vardiff.new

def OpensStandard (s : ChannelManager C) (cfg : Config) (D : Downstream C)
    (msg : OpenStandardMiningChannel) (t : NewTemplate) (p : SetNewPrevHash)
    (outputs : List TxOut) : Prop :=
  ∃ paid, payRemaining t.coinbaseTxValueRemaining outputs = some paid ∧
    GroupReady s cfg D t p paid ∧
    ∃ extranoncePrefix,
      (C.extranonce.nextPrefixStandard s.extranoncePrefixFactoryStandard).1 = .ok extranoncePrefix ∧
        s.StartsStandard cfg (standardChannelId D) extranoncePrefix msg t p paid

-- The same for an extended channel, which looks at the outputs only when it has been made.
def StartsExtended (s : ChannelManager C) (cfg : Config) (channelId : ChannelId)
    (extranoncePrefix : Bytes) (msg : OpenExtendedMiningChannel) (t : NewTemplate)
    (p : SetNewPrevHash) : Prop :=
  match C.extended.newForJobDeclarationClient (extendedParams cfg channelId extranoncePrefix msg)
    true msg.minExtranonceSize s.poolTagString cfg.minerTagString with
  | .error e    => (extendedChannelErrorCode e).isSome
  | .ok channel => (C.extended.getExtranoncePrefix channel).length ≤ 32 ∧
    ∃ outputs paid, C.deserializeOutputs s.coinbaseOutputs = .ok outputs ∧
      payRemaining t.coinbaseTxValueRemaining outputs = some paid ∧
      Starts C.extended.toJobStore channel t p paid ∧ Returns C.vardiff.new

def OpensExtended (s : ChannelManager C) (cfg : Config) (D : Downstream C)
    (msg : OpenExtendedMiningChannel) (t : NewTemplate) (p : SetNewPrevHash) : Prop :=
  ∃ extranoncePrefix,
    (C.extranonce.nextPrefixExtended s.extranoncePrefixFactoryExtended
      msg.minExtranonceSize.toNat).1 = .ok extranoncePrefix ∧
        s.StartsExtended cfg D.channelIdFactory extranoncePrefix msg t p

variable {channelId : ChannelId}

theorem newGroupChannel_strict : Strict (s.newGroupChannel cfg t p outputs channelId) := by
  refine strict_bind (strict_ofExcept fun _ => rfl) fun _ _ => ?_
  refine strict_bind (strict_attempt fun _ => rfl) fun _ _ => ?_
  exact strict_bind (strict_attempt fun _ => rfl) fun _ _ => strict_pure

theorem returns_newGroupChannel : Returns (s.newGroupChannel cfg t p outputs channelId) ↔
    ∃ g₀ g₁ g₂, C.group.newForJobDeclarationClient channelId
        (s.upstreamChannel.elim 32 C.upstream.getFullExtranonceSize) s.poolTagString
        cfg.minerTagString = .ok g₀ ∧
      C.group.onNewTemplate g₀ t outputs = (.ok (), g₁) ∧
      C.group.onSetNewPrevHash g₁ p = (.ok (), g₂) := by
  simp only [newGroupChannel, returns_bind, ofExcept_eq_ok, attempt_eq_ok, returns_pure, and_true,
    Prod.exists]
  constructor
  · rintro ⟨g₀, h₀, _, g₁, h₁, _, g₂, h₂⟩
    exact ⟨g₀, g₁, g₂, h₀, h₁, h₂⟩
  · rintro ⟨g₀, g₁, g₂, h₀, h₁, h₂⟩
    exact ⟨g₀, h₀, (), g₁, h₁, (), g₂, h₂⟩

theorem ensureGroupChannel_strict : Strict (s.ensureGroupChannel cfg t p outputs D) := by
  rw [ensureGroupChannel]
  split
  case isTrue  => exact strict_bind newGroupChannel_strict fun _ _ => strict_pure
  case isFalse => exact strict_pure

theorem returns_ensureGroupChannel :
    Returns (s.ensureGroupChannel cfg t p outputs D) ↔ GroupReady s cfg D t p outputs := by
  rw [ensureGroupChannel, GroupReady, ← returns_newGroupChannel]
  split
  case isTrue h  => simp only [returns_bind_pure, h, true_imp_iff]
  case isFalse h => simp [h]

theorem ensureGroupChannel_channelIdFactory {D' : Downstream C}
    (h : s.ensureGroupChannel cfg t p outputs D = .ok D') :
    D'.channelIdFactory = standardChannelId D := by
  rw [ensureGroupChannel] at h
  rw [standardChannelId]
  split at h
  case isTrue hc =>
    simp only [bind_eq_ok, pure_eq_ok] at h
    obtain ⟨g, _, rfl⟩ := h
    rw [if_pos hc]
  case isFalse hc =>
    cases pure_eq_ok.mp h
    rw [if_neg hc]

section FutureJob

variable {κ μ ε : Type} {J : JobStore κ μ ε} {channel : κ} {templateId : TemplateId}

theorem futureJobOf_strict : Strict (futureJobOf J channel templateId) :=
  strict_bind strict_expect fun _ _ => strict_bind strict_expect fun _ _ => strict_pure

theorem returns_futureJobOf :
    Returns (futureJobOf J channel templateId) ↔ (J.futureJob channel templateId).isSome := by
  simp only [futureJobOf, returns_bind, expect_eq_ok, returns_pure, and_true, JobStore.futureJob,
    Option.isSome_iff_exists, Option.bind_eq_some_iff]
  constructor
  · rintro ⟨i, hi, job, hj⟩
    exact ⟨job, i, hi, hj⟩
  · rintro ⟨job, i, hi, hj⟩
    exact ⟨i, hi, job, hj⟩

end FutureJob

section Standard

variable {channel : C.Standard} {msg : OpenStandardMiningChannel} {extranoncePrefix : Bytes}

theorem startStandardChannel_strict :
    Strict (s.startStandardChannel d t p outputs D channel channelId msg) := by
  refine strict_bind strict_expect fun _ _ => ?_
  refine strict_bind (strict_attempt fun _ => rfl) fun _ _ => ?_
  refine strict_bind futureJobOf_strict fun _ _ => ?_
  refine strict_bind (strict_attempt fun _ => rfl) fun _ _ => ?_
  exact strict_bind strict_expect fun _ _ => strict_pure

theorem returns_startStandardChannel :
    Returns (s.startStandardChannel d t p outputs D channel channelId msg) ↔
      (C.standard.getExtranoncePrefix channel).length ≤ 32 ∧
        Starts C.standard.toJobStore channel t p outputs ∧ Returns C.vardiff.new := by
  rw [← Bytes.tryInto_isSome, Option.isSome_iff_exists]
  simp only [startStandardChannel, returns_bind, expect_eq_ok, attempt_eq_ok, toOption_eq_some,
    returns_pure, and_true, Prod.exists, Starts, ← returns_futureJobOf]
  constructor
  · rintro ⟨pre, hpre, _, c₁, hn, jobId, job, hj, _, c₂, hp, v, hv⟩
    exact ⟨⟨pre, hpre⟩, ⟨c₁, c₂, hn, ⟨_, hj⟩, hp⟩, v, hv⟩
  · rintro ⟨⟨pre, hpre⟩, ⟨c₁, c₂, hn, ⟨⟨jobId, job⟩, hj⟩, hp⟩, v, hv⟩
    exact ⟨pre, hpre, (), c₁, hn, jobId, job, hj, (), c₂, hp, v, hv⟩

theorem openStandardChannel_strict :
    Strict (s.openStandardChannel cfg d t p outputs D extranoncePrefix msg) := by
  simp only [openStandardChannel]
  split
  case h_1 => exact startStandardChannel_strict
  case h_2 =>
    split
    case h_1 => exact strict_pure
    case h_2 => exact strict_throw rfl

theorem returns_openStandardChannel :
    Returns (s.openStandardChannel cfg d t p outputs D extranoncePrefix msg) ↔
      s.StartsStandard cfg D.channelIdFactory extranoncePrefix msg t p outputs := by
  simp only [openStandardChannel, StartsStandard]
  cases C.standard.newForJobDeclarationClient
    (standardParams cfg D.channelIdFactory extranoncePrefix msg) s.poolTagString cfg.minerTagString with
  | ok channel => exact returns_startStandardChannel
  | error e    => cases he : standardChannelErrorCode e <;> simp [he]

end Standard

section Extended

variable {channel : C.Extended} {msg : OpenExtendedMiningChannel} {extranoncePrefix : Bytes}

theorem startExtendedChannel_strict :
    Strict (s.startExtendedChannel d t p D channel channelId msg) := by
  refine strict_bind strict_expect fun _ _ => ?_
  refine strict_bind (strict_ofExcept fun _ => rfl) fun _ _ => ?_
  refine strict_bind strict_expect fun _ _ => ?_
  refine strict_bind (strict_attempt fun _ => rfl) fun _ _ => ?_
  refine strict_bind futureJobOf_strict fun _ _ => ?_
  refine strict_bind (strict_attempt fun _ => rfl) fun _ _ => ?_
  exact strict_bind strict_expect fun _ _ => strict_pure

theorem returns_startExtendedChannel :
    Returns (s.startExtendedChannel d t p D channel channelId msg) ↔
      (C.extended.getExtranoncePrefix channel).length ≤ 32 ∧
        ∃ outputs paid, C.deserializeOutputs s.coinbaseOutputs = .ok outputs ∧
          payRemaining t.coinbaseTxValueRemaining outputs = some paid ∧
          Starts C.extended.toJobStore channel t p paid ∧ Returns C.vardiff.new := by
  rw [← Bytes.tryInto_isSome, Option.isSome_iff_exists]
  simp only [startExtendedChannel, returns_bind, expect_eq_ok, ofExcept_eq_ok, attempt_eq_ok,
    toOption_eq_some, returns_pure, and_true, Prod.exists, Starts, ← returns_futureJobOf]
  constructor
  · rintro ⟨pre, hpre, o, ho, paid, hpd, _, c₁, hn, jobId, job, hj, _, c₂, hp, v, hv⟩
    exact ⟨⟨pre, hpre⟩, o, paid, ho, hpd, ⟨c₁, c₂, hn, ⟨_, hj⟩, hp⟩, v, hv⟩
  · rintro ⟨⟨pre, hpre⟩, o, paid, ho, hpd, ⟨c₁, c₂, hn, ⟨⟨jobId, job⟩, hj⟩, hp⟩, v, hv⟩
    exact ⟨pre, hpre, o, ho, paid, hpd, (), c₁, hn, jobId, job, hj, (), c₂, hp, v, hv⟩

theorem openExtendedChannel_strict :
    Strict (s.openExtendedChannel cfg d t p D extranoncePrefix msg) := by
  simp only [openExtendedChannel]
  split
  case h_1 => exact startExtendedChannel_strict
  case h_2 =>
    split
    case h_1 => exact strict_pure
    case h_2 => exact strict_throw rfl

theorem returns_openExtendedChannel :
    Returns (s.openExtendedChannel cfg d t p D extranoncePrefix msg) ↔
      s.StartsExtended cfg D.channelIdFactory extranoncePrefix msg t p := by
  simp only [openExtendedChannel, StartsExtended]
  cases C.extended.newForJobDeclarationClient
    (extendedParams cfg D.channelIdFactory extranoncePrefix msg) true msg.minExtranonceSize
    s.poolTagString cfg.minerTagString with
  | ok channel => exact returns_startExtendedChannel
  | error e    => cases he : extendedChannelErrorCode e <;> simp [he]

end Extended

section Handlers

variable {msg : OpenStandardMiningChannel} {msg' : OpenExtendedMiningChannel}

-- The prefix and the group channel as the handler takes them, one after the other.
theorem opensStandard_iff : s.OpensStandard cfg D msg t p outputs ↔
    ∃ paid, payRemaining t.coinbaseTxValueRemaining outputs = some paid ∧
      ∃ D', s.ensureGroupChannel cfg t p paid D = .ok D' ∧
        ∃ pre factory, C.extranonce.nextPrefixStandard s.extranoncePrefixFactoryStandard =
          (.ok pre, factory) ∧ s.StartsStandard cfg D'.channelIdFactory pre msg t p paid := by
  refine exists_congr fun paid => and_congr_right fun _ => ?_
  constructor
  · rintro ⟨hg, pre, hx, h⟩
    obtain ⟨D', hg⟩ := returns_ensureGroupChannel.mpr hg
    rw [← ensureGroupChannel_channelIdFactory hg] at h
    exact ⟨D', hg, pre, _, Prod.ext hx rfl, h⟩
  · rintro ⟨D', hg, pre, factory, hx, h⟩
    rw [ensureGroupChannel_channelIdFactory hg] at h
    exact ⟨returns_ensureGroupChannel.mp ⟨D', hg⟩, pre, by rw [hx], h⟩

theorem opensExtended_iff : s.OpensExtended cfg D msg' t p ↔
    ∃ pre factory, C.extranonce.nextPrefixExtended s.extranoncePrefixFactoryExtended
      msg'.minExtranonceSize.toNat = (.ok pre, factory) ∧
        s.StartsExtended cfg D.channelIdFactory pre msg' t p := by
  constructor
  · rintro ⟨pre, hx, h⟩
    exact ⟨pre, _, Prod.ext hx rfl, h⟩
  · rintro ⟨pre, factory, hx, h⟩
    exact ⟨pre, by rw [hx], h⟩

theorem returns_handleOpenStandardMiningChannel :
    Returns (s.handleOpenStandardMiningChannel cfg d msg) ↔
      ∃ outputs, C.deserializeOutputs s.coinbaseOutputs = .ok outputs ∧
        ∃ t, s.lastFutureTemplate = some t ∧ ∃ p, s.lastNewPrevHash = some p ∧
          ∃ D, s.downstream.lookup d = some D ∧ s.OpensStandard cfg D msg t p outputs := by
  simp only [handleOpenStandardMiningChannel, returns_bind, ofExcept_eq_ok, orErr_eq_ok,
    expect_eq_ok, attempt_eq_ok, Prod.exists, opensStandard_iff, returns_openStandardChannel]
  exact Iff.rfl

theorem returns_handleOpenExtendedMiningChannel :
    Returns (s.handleOpenExtendedMiningChannel cfg d msg') ↔
      ∃ t, s.lastFutureTemplate = some t ∧ ∃ p, s.lastNewPrevHash = some p ∧
        ∃ D, s.downstream.lookup d = some D ∧ s.OpensExtended cfg D msg' t p := by
  simp only [handleOpenExtendedMiningChannel, returns_bind, orErr_eq_ok, attempt_eq_ok,
    Prod.exists, opensExtended_iff, returns_openExtendedChannel]
  exact Iff.rfl

-- The errors for what may be missing are not critical. Those of the handler itself are.
theorem tolerated_handleOpenStandardMiningChannel :
    Tolerated (s.handleOpenStandardMiningChannel cfg d msg) ↔
      ∃ outputs, C.deserializeOutputs s.coinbaseOutputs = .ok outputs ∧
        ∀ t, s.lastFutureTemplate = some t → ∀ p, s.lastNewPrevHash = some p →
          ∀ D, s.downstream.lookup d = some D → s.OpensStandard cfg D msg t p outputs := by
  rw [handleOpenStandardMiningChannel, tolerated_bind_strict (strict_ofExcept fun _ => rfl)]
  simp only [ofExcept_eq_ok]
  refine exists_congr fun outputs => and_congr_right fun _ => ?_
  rw [tolerated_bind_orErr rfl]
  refine forall₂_congr fun t _ => ?_
  rw [tolerated_bind_orErr rfl]
  refine forall₂_congr fun p _ => ?_
  rw [tolerated_bind_orErr rfl]
  refine forall₂_congr fun D _ => (tolerated_iff_returns ?_).trans ?_
  · refine strict_bind strict_expect fun _ _ => ?_
    refine strict_bind ensureGroupChannel_strict fun _ _ => ?_
    exact strict_bind (strict_attempt fun _ => rfl) fun _ _ => openStandardChannel_strict
  · simp only [returns_bind, expect_eq_ok, attempt_eq_ok, Prod.exists, opensStandard_iff,
      returns_openStandardChannel]
    exact Iff.rfl

theorem tolerated_handleOpenExtendedMiningChannel :
    Tolerated (s.handleOpenExtendedMiningChannel cfg d msg') ↔
      ∀ t, s.lastFutureTemplate = some t → ∀ p, s.lastNewPrevHash = some p →
        ∀ D, s.downstream.lookup d = some D → s.OpensExtended cfg D msg' t p := by
  rw [handleOpenExtendedMiningChannel, tolerated_bind_orErr rfl]
  refine forall₂_congr fun t _ => ?_
  rw [tolerated_bind_orErr rfl]
  refine forall₂_congr fun p _ => ?_
  rw [tolerated_bind_orErr rfl]
  refine forall₂_congr fun D _ => (tolerated_iff_returns ?_).trans ?_
  · exact strict_bind (strict_attempt fun _ => rfl) fun _ _ => openExtendedChannel_strict
  · simp only [returns_bind, attempt_eq_ok, Prod.exists, opensExtended_iff,
      returns_openExtendedChannel]
    exact Iff.rfl

end Handlers

end Open

section Shares

variable {κ μ ω ε : Type} {S : ShareChannels κ μ ω ε} {share : ShareFields} {msg : ω} {channel : κ}
variable {solutionExtranonce : Bytes → Bytes → Bytes} {pre : Bytes} {jobId : UpstreamJobId}

-- The answers to a share that the handler lists, and whose solution fits its message.
def Listed : Except ShareValidationError ShareValidationResult → Prop
  | .ok (.valid _)                          => True
  | .ok (.blockFound _ templateId coinbase) => templateId.isSome → coinbase.length ≤ 65535
  | .error e                                => (shareErrorCode e).isSome

-- The same for the answer of the upstream channel, with the extranonce of the solution.
def UpstreamListed (solution : Bytes) :
    Except ShareValidationError ClientShareValidationResult → Prop
  | .ok (.valid _)      => True
  | .ok (.blockFound _) => solution.length ≤ 32
  | .error e            => (shareErrorCode e).isSome

def ForwardsUpstream (solutionExtranonce : Bytes → Bytes → Bytes) (upstream : C.Upstream)
    (msg : SubmitSharesExtended) : Prop :=
  UpstreamListed (solutionExtranonce
    (C.upstream.getExtranoncePrefix (C.upstream.validateShare upstream msg).2) msg.extranonce.1)
    (C.upstream.validateShare upstream msg).1

-- The prefix of the channel is no shorter than that of the upstream, and what is behind it fits.
def Forwardable (s : ChannelManager C) (d : DownstreamId) (share : ShareFields)
    (solutionExtranonce : Bytes → Bytes → Bytes) (pre : Bytes) : Prop :=
  ∀ upstream, s.upstreamChannel = some upstream →
    (C.upstream.getExtranoncePrefix upstream).length ≤ pre.length ∧
      ∀ jobId, s.upstreamJobId d share = some jobId →
        ∃ extranonce, Bytes.tryInto 32
          (pre.drop (C.upstream.getExtranoncePrefix upstream).length ++ share.extranonce) =
            some extranonce ∧
          ForwardsUpstream solutionExtranonce upstream (upstreamShare share upstream jobId extranonce)

-- The share of a channel is answered, and forwarded when it is valid.
def Submittable (s : ChannelManager C) (d : DownstreamId) (S : ShareChannels κ μ ω ε)
    (share : ShareFields) (solutionExtranonce : Bytes → Bytes → Bytes → Bytes)
    (channels : Map ChannelId κ) (msg : ω) : Prop :=
  ∀ channel, channels.lookup share.channelId = some channel →
    (s.vardiff.lookup (d, share.channelId)).isSome →
      Listed (S.validateShare channel msg).1 ∧
        (Returns (S.validateShare channel msg).1 →
          s.Forwardable d share
            (solutionExtranonce (S.getExtranoncePrefix (S.validateShare channel msg).2))
            (S.getExtranoncePrefix (S.validateShare channel msg).2))

theorem submitSolution_strict {templateId : Option TemplateId} {coinbase : Bytes} :
    Strict (submitSolution share templateId coinbase) := by
  cases templateId with
  | none   => exact strict_pure
  | some t => exact strict_bind (strict_orErr rfl) fun _ _ => strict_pure

theorem returns_submitSolution {templateId : Option TemplateId} {coinbase : Bytes} :
    Returns (submitSolution share templateId coinbase) ↔
      (templateId.isSome → coinbase.length ≤ 65535) := by
  cases templateId with
  | none   => simp [submitSolution]
  | some t =>
    rw [← Bytes.tryInto_isSome]
    simp only [submitSolution, returns_bind_pure, returns_orErr, Option.isSome_some, true_imp_iff]

variable {res : Except ShareValidationError ShareValidationResult}

theorem answerShare_strict : Strict (answerShare d S share channel res) := by
  cases res with
  | error e => exact strict_bind strict_expect fun _ _ => strict_pure
  | ok r    =>
    cases r with
    | valid      => exact strict_pure
    | blockFound => exact strict_bind submitSolution_strict fun _ _ => strict_pure

theorem returns_answerShare : Returns (answerShare d S share channel res) ↔ Listed res := by
  cases res with
  | error e => simp only [answerShare, returns_bind_pure, returns_expect, Listed]
  | ok r    =>
    cases r with
    | valid => simp [answerShare, Listed]
    | blockFound _ templateId coinbase =>
      have hs : Returns (submitSolution share templateId coinbase) ↔ _ := returns_submitSolution
      rw [Listed, ← hs]
      simp only [answerShare, returns_bind_pure]

theorem answerShare_valid {r : Bool × List RouteMessageTo}
    (h : answerShare d S share channel res = .ok r) : r.1 = true ↔ Returns res := by
  cases res with
  | error e =>
    simp only [answerShare, bind_eq_ok, pure_eq_ok] at h
    obtain ⟨_, _, rfl⟩ := h
    simp [Returns]
  | ok r'   =>
    cases r' with
    | valid =>
      cases h
      simp [Returns]
    | blockFound =>
      simp only [answerShare, bind_eq_ok, pure_eq_ok] at h
      obtain ⟨_, _, rfl⟩ := h
      simp [Returns]

variable {upstream : C.Upstream} {prevHash : SetNewPrevHash} {msg' : SubmitSharesExtended}

theorem validateUpstream_strict :
    Strict (s.validateUpstream share prevHash solutionExtranonce upstream msg') := by
  simp only [validateUpstream]
  split
  case h_1 => exact strict_pure
  case h_2 => exact strict_bind (strict_orErr rfl) fun _ _ => strict_pure
  case h_3 => exact strict_bind strict_expect fun _ _ => strict_pure

theorem returns_validateUpstream :
    Returns (s.validateUpstream share prevHash solutionExtranonce upstream msg') ↔
      ForwardsUpstream solutionExtranonce upstream msg' := by
  simp only [validateUpstream, ForwardsUpstream]
  split
  case h_1 h => simp [h, UpstreamListed]
  case h_2 h =>
    rw [h, UpstreamListed, ← Bytes.tryInto_isSome]
    simp only [returns_bind_pure, returns_orErr]
  case h_3 e h => simp only [returns_bind_pure, returns_expect, h, UpstreamListed]

theorem forwardShare_strict :
    Strict (s.forwardShare d share prevHash solutionExtranonce pre) := by
  rw [forwardShare]
  split
  case h_1 => exact strict_pure
  case h_2 =>
    refine strict_bind strict_expect fun _ _ => ?_
    split
    case h_1 => exact strict_pure
    case h_2 => exact strict_bind strict_expect fun _ _ => validateUpstream_strict

theorem returns_forwardShare : Returns (s.forwardShare d share prevHash solutionExtranonce pre) ↔
    s.Forwardable d share solutionExtranonce pre := by
  rw [forwardShare, Forwardable]
  cases hu : s.upstreamChannel with
  | none          => simp
  | some upstream =>
    simp only [Option.some_inj, forall_eq', returns_bind, expect_eq_ok]
    split
    case isTrue hl =>
      simp only [hl, Option.some_inj, exists_eq_left', true_and]
      cases hj : s.upstreamJobId d share with
      | none       => simp
      | some jobId =>
        simp only [Option.some_inj, forall_eq', returns_bind, expect_eq_ok,
          returns_validateUpstream]
    case isFalse hl => simp [hl]

section Submit

variable {solutionExtranonce : Bytes → Bytes → Bytes → Bytes} {channels : Map ChannelId κ}
variable {set : Map ChannelId κ → Downstream C}

theorem tolerated_submitShares :
    Tolerated (s.submitShares d S share solutionExtranonce channels set prevHash msg) ↔
      s.Submittable d S share solutionExtranonce channels msg := by
  rw [submitShares, Submittable]
  cases hl : channels.lookup share.channelId with
  | none         => simp
  | some channel =>
    dsimp only
    rw [tolerated_bind_orErr rfl]
    simp only [Option.some_inj, forall_eq', Option.isSome_iff_exists, forall_exists_index]
    refine forall₂_congr fun vardiff _ => (tolerated_iff_returns ?_).trans ?_
    · refine strict_bind answerShare_strict fun r _ => ?_
      split
      case isTrue  => exact strict_bind forwardShare_strict fun _ _ => strict_pure
      case isFalse => exact strict_pure
    · have ha : Returns (answerShare d S share (S.validateShare channel msg).2
          (S.validateShare channel msg).1) ↔ _ :=
        returns_answerShare
      rw [returns_bind, ← ha]
      constructor
      · rintro ⟨⟨valid, messages⟩, ha, h⟩
        refine ⟨⟨_, ha⟩, fun hv => ?_⟩
        rw [if_pos ((answerShare_valid ha).mpr hv)] at h
        obtain ⟨r, hf, _⟩ := returns_bind.mp h
        have hf := returns_forwardShare.mp ⟨r, hf⟩
        exact hf
      · rintro ⟨⟨⟨valid, messages⟩, ha⟩, h⟩
        refine ⟨_, ha, ?_⟩
        cases valid with
        | false => exact returns_pure
        | true  =>
          refine returns_bind.mpr ?_
          simp only [returns_pure, and_true]
          exact returns_forwardShare.mpr (h ((answerShare_valid ha).mp rfl))

end Submit

end Shares

-- What the share handlers read of their messages.
def standardShare (msg : SubmitSharesStandard) : ShareFields where
  channelId      := msg.channelId
  sequenceNumber := msg.sequenceNumber
  jobId          := msg.jobId
  nonce          := msg.nonce
  ntime          := msg.ntime
  version        := msg.version
  extranonce     := []

def extendedShare (msg : SubmitSharesExtended) : ShareFields where
  channelId      := msg.channelId
  sequenceNumber := msg.sequenceNumber
  jobId          := msg.jobId
  nonce          := msg.nonce
  ntime          := msg.ntime
  version        := msg.version
  extranonce     := msg.extranonce.1

-- The messages that the loop goes on after. A request that waits for the upstream is one.
def Tolerable (s : ChannelManager C) (cfg : Config) (d : DownstreamId) : Mining → Prop
  | .openStandardMiningChannel msg =>
    s.upstreamState = .connected ∨ s.upstreamState = .soloMining →
      ∃ outputs, C.deserializeOutputs s.coinbaseOutputs = .ok outputs ∧
        ∀ t, s.lastFutureTemplate = some t → ∀ p, s.lastNewPrevHash = some p →
          ∀ D, s.downstream.lookup d = some D → s.OpensStandard cfg D msg t p outputs
  | .openExtendedMiningChannel msg =>
    s.upstreamState = .connected ∨ s.upstreamState = .soloMining →
      ∀ t, s.lastFutureTemplate = some t → ∀ p, s.lastNewPrevHash = some p →
        ∀ D, s.downstream.lookup d = some D → s.OpensExtended cfg D msg t p
  | .submitSharesStandard msg =>
    ∀ D, s.downstream.lookup d = some D → s.lastNewPrevHash.isSome →
      s.Submittable d C.standard.toShareChannels (standardShare msg) (fun pre _ _ => pre)
        D.standardChannels msg
  | .submitSharesExtended msg =>
    ∃ D, s.downstream.lookup d = some D ∧ (s.lastNewPrevHash.isSome →
      s.Submittable d C.extended.toShareChannels (extendedShare msg)
        (fun _ upstreamPrefix extranonce => upstreamPrefix ++ extranonce) D.extendedChannels msg)
  | .updateChannel _ | .closeChannel _ => True
  | _ => False

theorem tolerated_handleSubmitSharesStandard {msg : SubmitSharesStandard} :
    Tolerated (s.handleSubmitSharesStandard d msg) ↔
      s.Tolerable cfg d (.submitSharesStandard msg) := by
  rw [handleSubmitSharesStandard, tolerated_bind_orErr rfl, Tolerable]
  refine forall₂_congr fun D _ => ?_
  rw [tolerated_bind_orErr rfl, Option.isSome_iff_exists, forall_exists_index]
  exact forall₂_congr fun p _ => tolerated_submitShares

theorem tolerated_handleSubmitSharesExtended {msg : SubmitSharesExtended} :
    Tolerated (s.handleSubmitSharesExtended d msg) ↔
      s.Tolerable cfg d (.submitSharesExtended msg) := by
  rw [handleSubmitSharesExtended, Tolerable]
  cases hD : s.downstream.lookup d with
  | none   => simp [getNegotiatedExtensionsWithClient, tolerated_bind, hD]
  | some D =>
    have he : s.getNegotiatedExtensionsWithClient d = .ok D.negotiatedExtensions := by
      rw [getNegotiatedExtensionsWithClient, hD]
      rfl
    rw [he]
    simp only [Option.some_inj, exists_eq_left', Option.isSome_iff_exists, forall_exists_index]
    refine (tolerated_bind_orErr rfl).trans ?_
    exact forall₂_congr fun p _ => tolerated_submitShares

theorem tolerated_handleUpdateChannel {msg : UpdateChannel} :
    Tolerated (s.handleUpdateChannel d msg) := by
  rw [handleUpdateChannel]
  split <;> exact tolerated_pure

theorem tolerated_requestChannel {request : PendingChannelRequest} {upstreamOpen : RouteMessageTo} :
    Tolerated (s.requestChannel cfg request upstreamOpen) ↔
      (s.upstreamState = .connected ∨ s.upstreamState = .soloMining →
        Tolerated (s.handleMiningMessageFromClient cfg request.downstreamId request.message)) := by
  rw [requestChannel]
  split <;> simp_all

theorem tolerated_iff {m : Mining} :
    Tolerated (s.handleDownstreamMessage cfg d m) ↔ s.Tolerable cfg d m := by
  cases m
  case openStandardMiningChannel m =>
    rw [handleDownstreamMessage, tolerated_requestChannel, Tolerable]
    exact imp_congr_right fun _ => tolerated_handleOpenStandardMiningChannel
  case openExtendedMiningChannel m =>
    rw [handleDownstreamMessage, tolerated_requestChannel, Tolerable]
    exact imp_congr_right fun _ => tolerated_handleOpenExtendedMiningChannel
  case updateChannel m        => exact iff_of_true tolerated_handleUpdateChannel trivial
  case closeChannel m         =>
    refine iff_of_true ?_ trivial
    exact (tolerated_bind_orErr rfl).mpr fun _ _ => tolerated_pure
  case submitSharesStandard m => exact tolerated_handleSubmitSharesStandard
  case submitSharesExtended m => exact tolerated_handleSubmitSharesExtended
  all_goals exact iff_of_false (fun h => by cases h) id

end ChannelManager

namespace System

variable {s s' : System C} {a : Action} {tr : List (Machine.Event (System C) Action)}

def Tolerable (cfg : Config) (s : System C) : Action → Prop
  | .downstreamMessage d m => s.manager.Tolerable cfg d m
  | _                      => True

-- The client goes on after a message of a downstream, which has changed nothing of the others, and
-- has not opened or closed the channel of the upstream.
structure Unharmed (d : DownstreamId) (s s' : System C) : Prop where
  running  : s'.status = .running
  others   : ∀ d', d' ≠ d → s'.manager.downstream.lookup d' = s.manager.downstream.lookup d'
  mem      : ∀ d', d' ∈ s'.manager.downstream ↔ d' ∈ s.manager.downstream
  work     : s'.manager.work = s.manager.work
  upstream : s'.manager.upstreamChannel.isSome = s.manager.upstreamChannel.isSome
  sent     : ∃ messages, s'.sent = s.sent ++ messages ∧ ∀ m ∈ messages, m.Serves d

theorem unharmed_step {m : Mining} (h : s.step cfg (.downstreamMessage d m) = some s') :
    Unharmed d s s' ↔ s.manager.Tolerable cfg d m := by
  rw [step] at h
  split at h
  case h_2 => cases h
  case h_1 hs =>
    cases h
    rw [← ChannelManager.tolerated_iff, act]
    cases hr : s.manager.handleDownstreamMessage cfg d m with
    | ok o =>
      have hf := ChannelManager.handleDownstreamMessage_serves hr
      have hd : s.deliver (.ok o) =
          { s with manager := o.manager, sent := s.sent ++ o.messages } := by
        simp only [deliver, hf.error]
      rw [hd]
      refine iff_of_true ?_ trivial
      exact ⟨hs, hf.others, hf.mem, hf.work, hf.upstream, _, rfl, hf.messages⟩
    | error fault =>
      cases fault with
      | panicked panic =>
        refine iff_of_false (fun hu => ?_) id
        cases hu.running
      | err e =>
        rw [Tolerated, deliver]
        split
        case isTrue hc =>
          refine iff_of_false (fun hu => ?_) (by simp [hc])
          cases hu.running
        case isFalse hc =>
          refine iff_of_true ?_ (by simpa using hc)
          exact ⟨hs, fun _ _ => rfl, fun _ => Iff.rfl, rfl, rfl, [], by simp, by simp⟩

-- A message whose handler returns is tolerable, and whether it does can be computed.
def returns (cfg : Config) (s : System C) : Action → Bool
  | .downstreamMessage d m => (s.manager.handleDownstreamMessage cfg d m).toOption.isSome
  | _                      => true

theorem tolerable_of_returns (h : s.returns cfg a) : s.Tolerable cfg a := by
  cases a with
  | downstreamMessage d m =>
    obtain ⟨o, ho⟩ := Option.isSome_iff_exists.mp h
    rw [Tolerable, ← ChannelManager.tolerated_iff, toOption_eq_some.mp ho]
    trivial
  | _ => trivial

-- No message of a downstream harms the client exactly when all of them are tolerable.
theorem unharmed_iff (r : (machine C cfg).Run tr s) :
    (∀ e ∈ tr, ∀ d m, e.act = .downstreamMessage d m → Unharmed d e.pre e.post) ↔
      Machine.Along (Tolerable cfg) tr := by
  refine forall₂_congr fun e he => ?_
  have hst : e.pre.step cfg e.act = some e.post := r.step_of_mem he
  cases ha : e.act with
  | downstreamMessage d m =>
    rw [ha] at hst
    rw [Tolerable, ← unharmed_step hst]
    constructor
    · intro h
      exact h d m rfl
    · rintro h _ _ ⟨⟩
      exact h
  | _ => simp [Tolerable]

end System

-- A downstream whose share is still queued when it is removed.
namespace Removed

open Sample

def share : Action :=
  .downstreamMessage 0 (.submitSharesExtended (submit 0 1))

def removed : List Action :=
  [.connect, .downstreamShutdown 0]

theorem removed_exec : ((machine reference (config [] [])).exec (start rewardOutputs)
    (removed ++ [share])).any fun s => s.status ≠ .running := by
  decide +kernel

-- The share arrives in time, and is valid.
def inTime : List Action :=
  [future 1, prevHash 1, .connect, openExtended 0, share, .downstreamShutdown 0]

theorem inTime_exec : ((machine reference (config [] [])).exec (start rewardOutputs) inTime).any
    fun s => s.sent.getLast? =
      some (.downstream 0 (.submitSharesSuccess ⟨0, 0, 1, 1⟩)) := by
  decide +kernel

theorem inTime_returns :
    ((machine reference (config [] [])).trace (start rewardOutputs) inTime).all fun e =>
      e.pre.returns (config [] []) e.act := by
  decide +kernel

end Removed

open Sample Removed in
theorem not_unharmed : ¬∀ tr s, (machine reference (config [] [])).Run tr s →
    ∀ e ∈ tr, ∀ d m, e.act = .downstreamMessage d m → System.Unharmed d e.pre e.post := by
  intro h
  obtain ⟨s', hs', hn⟩ := Option.any_eq_true _ _ |>.mp removed_exec
  rw [Machine.exec_append] at hs'
  obtain ⟨s, hs, hst⟩ := Option.bind_eq_some_iff.mp hs'
  have r := Machine.Run.of_exec start_init hs
  have r := r.snoc (a := share) (by simpa [Machine.exec] using hst)
  exact of_decide_eq_true hn (h _ _ r _ List.mem_concat_self _ _ rfl).running

open Sample Removed in
theorem unharmed_iff_sample : ∃ tr s, (machine reference (config [] [])).Run tr s ∧
    s.sent.getLast? = some (.downstream 0 (.submitSharesSuccess ⟨0, 0, 1, 1⟩)) ∧
      ∀ e ∈ tr, ∀ d m, e.act = .downstreamMessage d m → System.Unharmed d e.pre e.post := by
  obtain ⟨s, hs, hl⟩ := Option.any_eq_true _ _ |>.mp inTime_exec
  have r := Machine.Run.of_exec start_init hs
  refine ⟨_, s, r, of_decide_eq_true hl, (System.unharmed_iff r).mpr fun e he => ?_⟩
  exact System.tolerable_of_returns (List.all_eq_true.mp inTime_returns e he)

end Jdc
