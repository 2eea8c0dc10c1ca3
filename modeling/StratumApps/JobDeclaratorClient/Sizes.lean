import StratumApps.JobDeclaratorClient.Prefixes

open Sv2 Handler StratumCore

namespace StratumCore

variable {χ κ : Type}

-- `room` is the number of bytes that a factory leaves to the clients. A factory is made of ranges that
-- end within an extranonce. It refuses a size that its room is too small for, has a first prefix for
-- any other, and its prefixes leave the bytes that they are asked for.
structure Extranonces.Roomy (X : Extranonces χ) (room : χ → ℕ) : Prop where
  made    : ∀ p b total, p.length ≤ b → b ≤ total →
    ((∃ x, X.fromUpstreamExtranonce p (0, p.length) (p.length, b) (b, total) = .ok x) ↔ total ≤ 32)
  bytes   : ∀ p b total x,
    X.fromUpstreamExtranonce p (0, p.length) (p.length, b) (b, total) = .ok x → room x = total - b
  first   : ∀ p b total x n, p.length < b →
    X.fromUpstreamExtranonce p (0, p.length) (p.length, b) (b, total) = .ok x → n ≤ room x →
      ∃ q x', X.nextPrefixExtended x n = (.ok q, x')
  refuses : ∀ x n, room x < n → ∃ e x', X.nextPrefixExtended x n = (.error e, x')
  leaves  : ∀ x n q x', X.nextPrefixExtended x n = (.ok q, x') → q.length + n ≤ 32
  keeps   : ∀ x n, room (X.nextPrefixExtended x n).2 = room x

-- A channel has at least the rollable size that it is made with, and is not refused for a size that
-- its prefix leaves.
structure ExtendedChannels.Roomy (E : ExtendedChannels κ) : Prop where
  rollable : ∀ params rolling n tag minerTag c,
    E.newForJobDeclarationClient params rolling n tag minerTag = .ok c →
      n ≤ E.getRollableExtranonceSize c
  accepts  : ∀ params rolling n tag minerTag, params.extranoncePrefix.length + n.toNat ≤ 32 →
    E.newForJobDeclarationClient params rolling n tag minerTag ≠
      .error .requestedMinExtranonceSizeTooLarge

theorem ranges_roomy : ranges.Roomy Ranges.standardSize where
  made p b total hp hb := by
    simp only [ranges, Ranges.ofRanges]
    split
    case isTrue h =>
      refine iff_of_true ⟨_, rfl⟩ ?_
      have := h.left
      omega
    case isFalse h =>
      refine iff_of_false ?_ fun ht => h ⟨by omega, trivial, trivial⟩
      rintro ⟨_, hx⟩
      cases hx
  bytes p b total x h := by
    simp only [ranges, Ranges.ofRanges] at h
    split at h
    case isTrue =>
      cases h
      rfl
    case isFalse => cases h
  first p b total x n hb h hn := by
    have hx : x.extended = 0 ∧ x.extendedSize = b - p.length := by
      simp only [ranges, Ranges.ofRanges] at h
      split at h
      case isTrue =>
        cases h
        exact ⟨rfl, rfl⟩
      case isFalse => cases h
    have hc : x.extended + 1 < 256 ^ x.extendedSize := by
      rw [hx.left, hx.right]
      exact Nat.one_lt_pow (by omega) (by decide)
    simp only [ranges, Ranges.nextExtended]
    rw [if_pos ⟨hn, hc⟩]
    exact ⟨_, _, rfl⟩
  refuses x n h := by
    simp only [ranges, Ranges.nextExtended]
    rw [if_neg fun hc => by omega]
    exact ⟨_, _, rfl⟩
  leaves x n q x' h := by
    simp only [ranges, Ranges.nextExtended] at h
    split at h
    case isTrue hn =>
      cases h
      have := x.fits
      rw [List.length_append, Wire.bigEndian_length]
      omega
    case isFalse => cases h
  keeps x n := by
    simp only [ranges, Ranges.nextExtended]
    split <;> rfl

theorem extendedChannels_roomy : Reference.extendedChannels.Roomy where
  rollable _ _ n _ _ c h := by
    cases h
    exact UInt16.le_refl n
  accepts _ _ _ _ _ _ h := by cases h

end StratumCore

namespace Jdc

variable {C : StratumCore}

-- The size that an open request asks the upstream for.
def RouteMessageTo.asked : RouteMessageTo → Option UInt16
  | .upstream (.openExtendedMiningChannel m) => some m.minExtranonceSize
  | _                                        => none

-- No channel of a smaller size, and no refusal of the size.
def RouteMessageTo.Leaves (n : UInt16) : RouteMessageTo → Prop
  | .downstream _ (.openExtendedMiningChannelSuccess m) => n ≤ m.extranonceSize
  | .downstream _ (.openMiningChannelError m)           => m.errorCode ≠ "min-extranonce-size-too-large"
  | _                                                   => True

def PendingChannelRequest.minExtranonceSize : PendingChannelRequest → Option UInt16
  | extendedChannel _ m => some m.minExtranonceSize
  | standardChannel _ _ => none

namespace JDCError

def Factory (e : Fault JDCError) : Prop :=
  ∃ e', e = .err (.extranoncePrefixFactoryError e')

theorem not_factory_panicked {message : String} : ¬Factory (.panicked message) :=
  fun ⟨_, h⟩ => by cases h

@[simp]
theorem factory_err {e : JDCError} :
    Factory (.err e) ↔ ∃ e', e = .extranoncePrefixFactoryError e' := by
  simp [Factory]

end JDCError

namespace ChannelManager

section Sizes

variable (cfg : Config) (room : C.Extranonce → ℕ) (s : ChannelManager C)

-- The size is not what stands in the way of the channel.
structure Satisfiable (d : DownstreamId) (msg : OpenExtendedMiningChannel) : Prop where
  prefixed : Avoids JDCError.Factory (s.handleOpenExtendedMiningChannel cfg d msg)
  leaves   : ∀ o, s.handleOpenExtendedMiningChannel cfg d msg = .ok o →
    ∀ m ∈ o.messages, m.Leaves msg.minExtranonceSize

def Refused (d : DownstreamId) (msg : OpenExtendedMiningChannel) (r : Result C) : Prop :=
  ∃ o, r = .ok o ∧ o.error = none ∧ ∃ errorCode,
    openMiningChannelError d msg.requestId errorCode ∈ o.messages

-- The upstream is asked for the size of the first client and for the prefix of the client itself, and
-- a grant of as much is enough for that client. Anyone else whose size does not fit is told so.
structure SizesMet (a : Action) : Prop where
  asks    : ∀ d msg, a = .downstreamMessage d (.openExtendedMiningChannel msg) →
    s.upstreamState = .noChannel →
      ∃ o n, s.handleDownstreamMessage cfg d (.openExtendedMiningChannel msg) = .ok o ∧
        o.manager.pendingDownstreamRequests.head? = some (.extendedChannel d msg) ∧
        o.messages.filterMap (·.asked) = [n] ∧
        n.toNat = msg.minExtranonceSize.toNat + jdcSearchSpaceBytes
  grants  : ∀ success d msg, a = .poolMessage (.openExtendedMiningChannelSuccess success) →
    s.pendingDownstreamRequests.head? = some (.extendedChannel d msg) →
    msg.minExtranonceSize.toNat + jdcSearchSpaceBytes ≤ success.extranonceSize.toNat →
      ∃ r, s.established cfg success = some r ∧ r.1.Satisfiable cfg d msg
  pending : ∀ success r d msg, a = .poolMessage (.openExtendedMiningChannelSuccess success) →
    s.established cfg success = some r →
    .extendedChannel d msg ∈ s.pendingDownstreamRequests.tail →
    room r.1.extranoncePrefixFactoryExtended < msg.minExtranonceSize.toNat →
      Refused d msg (s.handleOpenExtendedMiningChannelSuccess cfg success)
  later   : ∀ d msg, a = .downstreamMessage d (.openExtendedMiningChannel msg) →
    s.upstreamState = .connected ∨ s.upstreamState = .soloMining →
    room s.extranoncePrefixFactoryExtended < msg.minExtranonceSize.toNat →
      Refused d msg (s.handleDownstreamMessage cfg d (.openExtendedMiningChannel msg))

-- A grant for the first request in the queue ends within an extranonce.
def enough (success : OpenExtendedMiningChannelSuccess) (n : UInt16) : Bool :=
  success.extranonceSize.toNat < n.toNat + jdcSearchSpaceBytes ||
    success.extranoncePrefix.1.length + success.extranonceSize.toNat ≤ maxExtranonceLen &&
      (C.deserializeOutputs s.coinbaseOutputs).toOption.isSome

-- The factory that a grant makes has room for the other requests in the queue.
def fitting (success : OpenExtendedMiningChannelSuccess) : Bool :=
  (C.deserializeOutputs s.coinbaseOutputs).toOption.all fun _ =>
    (newExtranonces (C := C) success.extranoncePrefix.1
      (success.extranoncePrefix.1.length + success.extranonceSize.toNat)).toOption.all fun x =>
        s.pendingDownstreamRequests.tail.all (·.minExtranonceSize.all (·.toNat ≤ room x))

-- The condition: no sum wraps around, no grant is too large for an extranonce, and nobody else asks
-- for more than there is room for.
def sizesFit : Action → Bool
  | .downstreamMessage _ (.openExtendedMiningChannel msg) =>
    match s.upstreamState with
    | .noChannel               => msg.minExtranonceSize.toNat + jdcSearchSpaceBytes < 65536
    | .pending                 => true
    | .connected | .soloMining =>
      msg.minExtranonceSize.toNat ≤ room s.extranoncePrefixFactoryExtended
  | .poolMessage (.openExtendedMiningChannelSuccess success) =>
    s.pendingDownstreamRequests.head?.all (·.minExtranonceSize.all (s.enough success)) &&
      s.fitting room success
  | _ => true

end Sizes

variable {cfg : Config} {room : C.Extranonce → ℕ} {s : ChannelManager C} {o : Outcome C}
variable {d : DownstreamId} {success : OpenExtendedMiningChannelSuccess}

section Open

variable {msg : OpenExtendedMiningChannel} {template : NewTemplate} {prevHash : SetNewPrevHash}
variable {D : Downstream C} {extranoncePrefix : Bytes} {channel : C.Extended} {channelId : ChannelId}

theorem startExtendedChannel_leaves
    (hl : msg.minExtranonceSize ≤ C.extended.getRollableExtranonceSize channel)
    (h : s.startExtendedChannel d template prevHash D channel channelId msg = .ok o) :
    o.manager.extranoncePrefixFactoryExtended = s.extranoncePrefixFactoryExtended ∧
      ∀ m ∈ o.messages, m.Leaves msg.minExtranonceSize := by
  simp only [startExtendedChannel, bind_eq_ok, pure_eq_ok] at h
  obtain ⟨_, _, _, _, _, _, _, _, _, _, _, _, _, _, rfl⟩ := h
  refine ⟨rfl, fun m hm => ?_⟩
  have hm := mem_of_mem_forward hm
  simp only [List.mem_cons, List.not_mem_nil, or_false] at hm
  obtain rfl | rfl | rfl := hm
  · exact hl
  · trivial
  · trivial

theorem openExtendedChannel_leaves (hE : C.extended.Roomy)
    (hl : extranoncePrefix.length + msg.minExtranonceSize.toNat ≤ 32)
    (h : s.openExtendedChannel cfg d template prevHash D extranoncePrefix msg = .ok o) :
    o.manager.extranoncePrefixFactoryExtended = s.extranoncePrefixFactoryExtended ∧
      ∀ m ∈ o.messages, m.Leaves msg.minExtranonceSize := by
  simp only [openExtendedChannel] at h
  split at h
  case h_1 hc => exact startExtendedChannel_leaves (hE.rollable _ _ _ _ _ _ hc) h
  case h_2 e hc =>
    split at h
    case h_2 => cases h
    case h_1 errorCode he =>
      cases pure_eq_ok.mp h
      refine ⟨rfl, fun m hm => ?_⟩
      have hm := mem_of_mem_forward hm
      cases List.mem_singleton.mp hm
      cases e with
      | requestedMinExtranonceSizeTooLarge => exact absurd hc (hE.accepts _ _ _ _ _ hl)
      | other                              => cases he
      | _                                  =>
        cases he
        simp [openMiningChannelError, RouteMessageTo.Leaves]

theorem startExtendedChannel_prefixed :
    Avoids JDCError.Factory (s.startExtendedChannel d template prevHash D channel channelId msg) := by
  have expected {α : Type} {o : Option α} {message : String} :
      Avoids JDCError.Factory (expect o message) := .expect JDCError.not_factory_panicked
  refine .bind expected fun _ _ => .bind (.ofExcept (by simp)) fun _ _ => ?_
  refine .bind expected fun _ _ => ?_
  refine .bind (.attempt (by simp [JDCError.extended])) fun _ _ => ?_
  refine .bind (.bind expected fun _ _ => .bind expected fun _ _ => .of_pure) fun _ _ => ?_
  refine .bind (.attempt (by simp [JDCError.extended])) fun _ _ => ?_
  exact .bind expected fun _ _ => .of_pure

theorem openExtendedChannel_prefixed : Avoids JDCError.Factory
    (s.openExtendedChannel cfg d template prevHash D extranoncePrefix msg) := by
  simp only [openExtendedChannel]
  split
  case h_1 => exact startExtendedChannel_prefixed
  case h_2 =>
    split
    case h_1 => exact .of_pure
    case h_2 => exact .error (by simp [JDCError.extended])

-- A factory that has a prefix for the size does not stand in the way of the channel.
theorem satisfiable_of_next (hX : C.extranonce.Roomy room) (hE : C.extended.Roomy)
    {factory : C.Extranonce} (hf : C.extranonce.nextPrefixExtended s.extranoncePrefixFactoryExtended
      msg.minExtranonceSize.toNat = (.ok extranoncePrefix, factory)) : s.Satisfiable cfg d msg where
  prefixed := by
    refine .bind (.orErr (by simp)) fun _ _ => .bind (.orErr (by simp)) fun _ _ => ?_
    refine .bind (.orErr (by simp)) fun _ _ => ?_
    rw [hf]
    exact openExtendedChannel_prefixed
  leaves o h := by
    simp only [handleOpenExtendedMiningChannel, bind_eq_ok, attempt_eq_ok, Prod.exists] at h
    obtain ⟨_, _, _, _, _, _, p, x, hp, h⟩ := h
    exact (openExtendedChannel_leaves hE (hX.leaves _ _ _ _ hp) h).right

-- A handler that returns has found the room for the size, and leaves as much for the next.
theorem handleOpenExtendedMiningChannel_room (hX : C.extranonce.Roomy room) (hE : C.extended.Roomy)
    (h : s.handleOpenExtendedMiningChannel cfg d msg = .ok o) :
    msg.minExtranonceSize.toNat ≤ room s.extranoncePrefixFactoryExtended ∧
      room o.manager.extranoncePrefixFactoryExtended = room s.extranoncePrefixFactoryExtended := by
  simp only [handleOpenExtendedMiningChannel, bind_eq_ok, attempt_eq_ok, Prod.exists] at h
  obtain ⟨_, _, _, _, _, _, p, x, hp, h⟩ := h
  constructor
  · by_contra hn
    obtain ⟨e, y, he⟩ := hX.refuses _ _ (Nat.lt_of_not_le hn)
    cases he.symm.trans hp
  · have hk := hX.keeps s.extranoncePrefixFactoryExtended msg.minExtranonceSize.toNat
    rw [hp] at hk
    exact (congrArg room (openExtendedChannel_leaves hE (hX.leaves _ _ _ _ hp) h).left).trans hk

theorem openStandardChannel_factory {outputs : List TxOut} {msg : OpenStandardMiningChannel}
    (h : s.openStandardChannel cfg d template prevHash outputs D extranoncePrefix msg = .ok o) :
    o.manager.extranoncePrefixFactoryExtended = s.extranoncePrefixFactoryExtended := by
  simp only [openStandardChannel] at h
  split at h
  case h_1 =>
    simp only [startStandardChannel, bind_eq_ok, pure_eq_ok] at h
    obtain ⟨_, _, _, _, _, _, _, _, _, _, rfl⟩ := h
    rfl
  case h_2 =>
    split at h
    case h_1 =>
      cases pure_eq_ok.mp h
      rfl
    case h_2 => cases h

theorem handleOpenStandardMiningChannel_factory {msg : OpenStandardMiningChannel}
    (h : s.handleOpenStandardMiningChannel cfg d msg = .ok o) :
    o.manager.extranoncePrefixFactoryExtended = s.extranoncePrefixFactoryExtended := by
  simp only [handleOpenStandardMiningChannel, bind_eq_ok] at h
  obtain ⟨_, _, _, _, _, _, _, _, _, _, _, _, _, _, h⟩ := h
  have h := openStandardChannel_factory h
  exact h

end Open

section Pending

variable {request : PendingChannelRequest} {requests : List PendingChannelRequest}
variable {messages : List RouteMessageTo}

-- What a request in the queue asks for is there when its handler returns, and then for all others.
theorem handleMiningMessageFromClient_room (hX : C.extranonce.Roomy room) (hE : C.extended.Roomy)
    (h : s.handleMiningMessageFromClient cfg request.downstreamId request.message = .ok o) :
    (∀ n ∈ request.minExtranonceSize, n.toNat ≤ room s.extranoncePrefixFactoryExtended) ∧
      room o.manager.extranoncePrefixFactoryExtended = room s.extranoncePrefixFactoryExtended := by
  cases request with
  | extendedChannel d msg =>
    have h : s.handleOpenExtendedMiningChannel cfg d msg = .ok o := h
    obtain ⟨hn, hk⟩ := handleOpenExtendedMiningChannel_room hX hE h
    refine ⟨fun n hm => ?_, hk⟩
    cases Option.mem_some.mp hm
    exact hn
  | standardChannel d msg =>
    refine ⟨fun n hm => (by cases hm), congrArg room ?_⟩
    exact handleOpenStandardMiningChannel_factory h

-- The loop gets to its end only when all requests fit.
theorem openPending_room (hX : C.extranonce.Roomy room) (hE : C.extended.Roomy)
    (h : openPending cfg requests s messages = .ok o) (he : o.error = none) :
    ∀ request ∈ requests, ∀ n ∈ request.minExtranonceSize,
      n.toNat ≤ room s.extranoncePrefixFactoryExtended := by
  induction requests generalizing s messages with
  | nil => simp
  | cons request requests ih =>
    rw [openPending] at h
    split at h
    case h_1 r hr =>
      obtain ⟨hn, hk⟩ := handleMiningMessageFromClient_room hX hE hr
      exact List.forall_mem_cons.mpr ⟨hn, hk ▸ ih h⟩
    case h_2 =>
      cases h
      cases he
    case h_3 => cases h

end Pending

section Established

-- What the factory of an upstream channel is made of.
theorem established_factory {r : ChannelManager C × List RouteMessageTo}
    (h : s.established cfg success = some r) :
    newExtranonces success.extranoncePrefix.1 (success.extranoncePrefix.1.length +
      success.extranonceSize.toNat) = .ok r.1.extranoncePrefixFactoryExtended ∧
      (C.deserializeOutputs s.coinbaseOutputs).toOption.isSome := by
  obtain ⟨_, _, x, _, _, s', _, ho, _, hx, _, _, hr, _⟩ := established_eq_some h
  rw [hr, ho]
  exact ⟨hx, rfl⟩

theorem established_of_factory (cfg : Config) {request : PendingChannelRequest} {x : C.Extranonce}
    (ho : (C.deserializeOutputs s.coinbaseOutputs).toOption.isSome)
    (hr : s.pendingDownstreamRequests.head? = some request)
    (hx : newExtranonces success.extranoncePrefix.1 (success.extranoncePrefix.1.length +
      success.extranonceSize.toNat) = .ok x) : ∃ r, s.established cfg success = some r := by
  obtain ⟨outputs, ho⟩ := Option.isSome_iff_exists.mp ho
  rw [established, ho, hr, hx]
  exact ⟨_, rfl⟩

-- A grant that covers the request of the first client serves it exactly when it ends within an
-- extranonce.
theorem enough_iff (hX : C.extranonce.Roomy room) (hE : C.extended.Roomy)
    {msg : OpenExtendedMiningChannel}
    (hr : s.pendingDownstreamRequests.head? = some (.extendedChannel d msg)) :
    (msg.minExtranonceSize.toNat + jdcSearchSpaceBytes ≤ success.extranonceSize.toNat →
      ∃ r, s.established cfg success = some r ∧ r.1.Satisfiable cfg d msg) ↔
      s.enough success msg.minExtranonceSize := by
  rw [enough, Bool.or_eq_true, Bool.and_eq_true, decide_eq_true_eq, decide_eq_true_eq,
    ← Nat.not_le, ← imp_iff_not_or]
  refine imp_congr_right fun hn => ?_
  have hb : success.extranoncePrefix.1.length + jdcSearchSpaceBytes ≤
      success.extranoncePrefix.1.length + success.extranonceSize.toNat := by omega
  have hm := hX.made success.extranoncePrefix.1 _ _ (Nat.le_add_right _ _) hb
  constructor
  case mp =>
    rintro ⟨r, hr, _⟩
    obtain ⟨hx, ho⟩ := established_factory hr
    exact ⟨hm.mp ⟨_, hx⟩, ho⟩
  case mpr =>
    rintro ⟨hl, ho⟩
    obtain ⟨x, hx⟩ := hm.mpr hl
    obtain ⟨r, hr⟩ := established_of_factory cfg ho hr hx
    have hx := (established_factory hr).left
    obtain ⟨q, x', hq⟩ := hX.first _ _ _ _ msg.minExtranonceSize.toNat
      (Nat.lt_add_of_pos_right (by decide)) hx (by rw [hX.bytes _ _ _ _ hx]; omega)
    exact ⟨r, hr, satisfiable_of_next hX hE hq⟩

theorem fitting_eq_true : s.fitting room success ↔
    (C.deserializeOutputs s.coinbaseOutputs).toOption.isSome → ∀ x,
      newExtranonces success.extranoncePrefix.1 (success.extranoncePrefix.1.length +
        success.extranonceSize.toNat) = .ok x →
      ∀ request ∈ s.pendingDownstreamRequests.tail, ∀ n ∈ request.minExtranonceSize,
        n.toNat ≤ room x := by
  simp only [fitting, Option.all_eq_true, List.all_eq_true, decide_eq_true_eq, toOption_eq_some,
    Option.isSome_iff_exists, forall_exists_index, Option.mem_def]

-- Nobody behind the first client whose size does not fit is told so.
theorem fitting_iff (cfg : Config) (hX : C.extranonce.Roomy room) (hE : C.extended.Roomy) :
    (∀ r d msg, s.established cfg success = some r →
      .extendedChannel d msg ∈ s.pendingDownstreamRequests.tail →
      room r.1.extranoncePrefixFactoryExtended < msg.minExtranonceSize.toNat →
        Refused d msg (s.handleOpenExtendedMiningChannelSuccess cfg success)) ↔
      s.fitting room success := by
  rw [fitting_eq_true]
  constructor
  case mp =>
    intro h ho x hx request hm n hn
    by_contra hl
    obtain ⟨first, hf⟩ := Option.isSome_iff_exists.mp <| List.isSome_head?.mpr <|
      List.ne_nil_of_mem (List.mem_of_mem_tail hm)
    obtain ⟨r, hr⟩ := established_of_factory cfg ho hf hx
    have hr' := (established_factory hr).left
    cases hx.symm.trans hr'
    cases request with
    | standardChannel d msg => cases hn
    | extendedChannel d msg =>
      cases Option.mem_some.mp hn
      obtain ⟨o, ho, he, _⟩ := h r d msg hr hm (Nat.lt_of_not_le hl)
      rw [handleOpenExtendedMiningChannelSuccess_some hr] at ho
      exact hl (openPending_room hX hE ho he _ (List.mem_of_mem_tail hm) _ hn)
  case mpr =>
    intro h r d msg hr hm hn
    obtain ⟨hx, ho⟩ := established_factory hr
    exact absurd (h ho _ hx _ hm _ rfl) (Nat.not_le_of_lt hn)

end Established

section Requests

variable {msg : OpenExtendedMiningChannel}

theorem asks_iff (hs : s.upstreamState = .noChannel) :
    (∃ o n, s.handleDownstreamMessage cfg d (.openExtendedMiningChannel msg) = .ok o ∧
      o.manager.pendingDownstreamRequests.head? = some (.extendedChannel d msg) ∧
      o.messages.filterMap (·.asked) = [n] ∧
      n.toNat = msg.minExtranonceSize.toNat + jdcSearchSpaceBytes) ↔
      msg.minExtranonceSize.toNat + jdcSearchSpaceBytes < 65536 := by
  have ha : (msg.minExtranonceSize + UInt16.ofNat jdcSearchSpaceBytes).toNat =
      (msg.minExtranonceSize.toNat + jdcSearchSpaceBytes) % 65536 := UInt16.toNat_add _ _
  constructor
  case mp =>
    rintro ⟨o, n, ho, _, hn, he⟩
    simp only [handleDownstreamMessage, requestChannel, hs] at ho
    cases pure_eq_ok.mp ho
    cases hn
    rw [ha] at he
    omega
  case mpr =>
    intro hl
    simp only [handleDownstreamMessage, requestChannel, hs]
    refine ⟨_, _, rfl, rfl, rfl, ?_⟩
    rw [ha, Nat.mod_eq_of_lt hl]

-- A client that comes later is served, or the manager fails.
theorem later_iff (hX : C.extranonce.Roomy room) (hE : C.extended.Roomy)
    (hs : s.upstreamState = .connected ∨ s.upstreamState = .soloMining) :
    (room s.extranoncePrefixFactoryExtended < msg.minExtranonceSize.toNat →
      Refused d msg (s.handleDownstreamMessage cfg d (.openExtendedMiningChannel msg))) ↔
      msg.minExtranonceSize.toNat ≤ room s.extranoncePrefixFactoryExtended := by
  have hh : s.handleDownstreamMessage cfg d (.openExtendedMiningChannel msg) =
      s.handleOpenExtendedMiningChannel cfg d msg := by
    obtain hs | hs := hs
    · simp only [handleDownstreamMessage, requestChannel, hs]
      rfl
    · simp only [handleDownstreamMessage, requestChannel, hs]
      rfl
  rw [hh]
  constructor
  case mp =>
    intro h
    by_contra hl
    obtain ⟨o, ho, _⟩ := h (Nat.lt_of_not_le hl)
    exact hl (handleOpenExtendedMiningChannel_room hX hE ho).left
  case mpr => exact fun hl hn => absurd hl (Nat.not_le_of_lt hn)

end Requests

theorem sizesMet_open (hX : C.extranonce.Roomy room) (hE : C.extended.Roomy)
    {msg : OpenExtendedMiningChannel} :
    s.SizesMet cfg room (.downstreamMessage d (.openExtendedMiningChannel msg)) ↔
      s.sizesFit room (.downstreamMessage d (.openExtendedMiningChannel msg)) := by
  constructor
  case mp =>
    intro h
    rw [sizesFit]
    split
    case h_1 hs => exact decide_eq_true ((asks_iff hs).mp (h.asks d msg rfl hs))
    case h_2    => rfl
    case h_3 hs => exact decide_eq_true ((later_iff hX hE (.inl hs)).mp (h.later d msg rfl (.inl hs)))
    case h_4 hs => exact decide_eq_true ((later_iff hX hE (.inr hs)).mp (h.later d msg rfl (.inr hs)))
  case mpr =>
    intro h
    rw [sizesFit] at h
    refine ⟨?_, by simp, by simp, ?_⟩
    · rintro d' msg' ha hs
      cases ha
      rw [hs] at h
      exact (asks_iff hs).mpr (of_decide_eq_true h)
    · rintro d' msg' ha hs
      cases ha
      refine (later_iff hX hE hs).mpr ?_
      obtain hs | hs := hs <;> rw [hs] at h <;> exact of_decide_eq_true h

theorem sizesMet_success (hX : C.extranonce.Roomy room) (hE : C.extended.Roomy) :
    s.SizesMet cfg room (.poolMessage (.openExtendedMiningChannelSuccess success)) ↔
      s.sizesFit room (.poolMessage (.openExtendedMiningChannelSuccess success)) := by
  rw [sizesFit, Bool.and_eq_true, ← fitting_iff cfg hX hE]
  constructor
  case mp =>
    intro h
    refine ⟨?_, fun r d msg hr hm hn => h.pending success r d msg rfl hr hm hn⟩
    rw [Option.all_eq_true]
    intro request hr
    rw [Option.all_eq_true]
    intro n hn
    cases request with
    | standardChannel => cases hn
    | extendedChannel d msg =>
      cases hn
      exact (enough_iff hX hE hr).mp (h.grants success d msg rfl hr)
  case mpr =>
    rintro ⟨he, hf⟩
    refine ⟨by simp, ?_, ?_, by simp⟩
    · rintro success' d msg ha hr
      cases ha
      rw [hr] at he
      exact (enough_iff hX hE hr).mpr he
    · rintro success' r d msg ha hr
      cases ha
      exact hf r d msg hr

-- The sizes are met exactly when they fit, whatever comes in whatever state.
theorem sizes_met_iff_fit (hX : C.extranonce.Roomy room) (hE : C.extended.Roomy) {a : Action} :
    s.SizesMet cfg room a ↔ s.sizesFit room a := by
  by_cases ho : ∃ d msg, a = .downstreamMessage d (.openExtendedMiningChannel msg)
  case pos =>
    obtain ⟨d, msg, rfl⟩ := ho
    exact sizesMet_open hX hE
  case neg =>
    by_cases hs : ∃ success, a = .poolMessage (.openExtendedMiningChannelSuccess success)
    case pos =>
      obtain ⟨success, rfl⟩ := hs
      exact sizesMet_success hX hE
    case neg =>
      refine iff_of_true ⟨?_, ?_, ?_, ?_⟩ ?_
      · exact fun d msg ha => absurd ⟨d, msg, ha⟩ ho
      · exact fun success _ _ ha => absurd ⟨success, ha⟩ hs
      · exact fun success _ _ _ ha => absurd ⟨success, ha⟩ hs
      · exact fun d msg ha => absurd ⟨d, msg, ha⟩ ho
      · rw [sizesFit.eq_def]
        split
        case h_1 => exact absurd ⟨_, _, rfl⟩ ho
        case h_2 => exact absurd ⟨_, rfl⟩ hs
        case h_3 => rfl

end ChannelManager

theorem init_new {cfg : Config} {extranonces : C.Extranonce} {coinbaseOutputs : Bytes}
    (hx : C.extranonce.new (0, 0) (0, jdcSearchSpaceBytes) (jdcSearchSpaceBytes, maxExtranonceLen)
      none = .ok extranonces) :
    (machine C cfg).Init ⟨.new extranonces coinbaseOutputs, .running, []⟩ :=
  ⟨rfl, hx, rfl, rfl, rfl, rfl, rfl, rfl, rfl, rfl, rfl, rfl, rfl, rfl, rfl, rfl, rfl, rfl, rfl, rfl,
    rfl, rfl, rfl⟩

namespace Grants

open Sample Renamed

def first : System core where
  manager := .new manager.extranoncePrefixFactoryExtended coinbaseOutputs
  status  := .running
  sent    := []

def openSize (d : DownstreamId) (minExtranonceSize : UInt16) : Action :=
  .downstreamMessage d <| .openExtendedMiningChannel
    ⟨1, "miner", 0x447a0000, .allOnes 256, minExtranonceSize⟩

-- A client has asked for four bytes, and another one has come.
def asked : List Action :=
  [.setUpstreamState .noChannel, future 1, prevHash 1, .connect, .connect, openSize 0 4]

theorem asked_exec : ((machine core (config [] [])).exec first asked).any fun s =>
    s.manager.sizesFit Ranges.standardSize opened ∧
      ((machine core (config [] [])).step s opened).any fun s =>
        s.manager.downstream.entries.map (fun e => (e.1, e.2.extendedChannels.entries.length)) =
          [(0, 1), (1, 0)] := by
  decide +kernel

-- The upstream leaves four bytes to the clients, and the other one asks for five.
theorem larger_exec : ((machine core (config [] [])).exec first (asked ++ [opened])).any fun s =>
    s.manager.upstreamState = .connected ∧
      s.manager.extranoncePrefixFactoryExtended.standardSize < 5 ∧
      (s.manager.handleDownstreamMessage (config [] []) 1
        (.openExtendedMiningChannel ⟨1, "miner", 0x447a0000, .allOnes 256, 5⟩)).toOption.isNone := by
  decide +kernel

end Grants

open Sample Renamed Grants in
theorem not_sizes_met : ¬∀ s a, (machine core (config [] [])).Reachable s →
    s.manager.SizesMet (config [] []) Ranges.standardSize a := by
  intro h
  obtain ⟨s, hs, he⟩ := Option.any_eq_true _ _ |>.mp larger_exec
  obtain ⟨hu, hl, hn⟩ := of_decide_eq_true he
  have hr := Machine.Run.reachable (Machine.Run.of_exec (init_new rfl) hs)
  obtain ⟨o, ho, _⟩ := (h s (openSize 1 5) hr).later _ _ rfl (.inl hu) hl
  rw [ho] at hn
  cases hn

open Sample Renamed Grants in
theorem sizes_met_sample : ∃ s, (machine core (config [] [])).Reachable s ∧
    (((machine core (config [] [])).step s opened).any fun s =>
      s.manager.downstream.entries.map (fun e => (e.1, e.2.extendedChannels.entries.length)) =
        [(0, 1), (1, 0)]) ∧ s.manager.SizesMet (config [] []) Ranges.standardSize opened := by
  obtain ⟨s, hs, he⟩ := Option.any_eq_true _ _ |>.mp asked_exec
  obtain ⟨hf, hd⟩ := of_decide_eq_true he
  refine ⟨s, Machine.Run.reachable (Machine.Run.of_exec (init_new rfl) hs), hd, ?_⟩
  exact (ChannelManager.sizes_met_iff_fit ranges_roomy extendedChannels_roomy).mpr hf

end Jdc
