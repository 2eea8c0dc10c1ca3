import StratumApps.Pool.Invariants

open Sv2 Handler StratumCore

namespace Pool

-- What the pool keeps of the channel ids of a downstream: the group channel with the standard
-- channels it has recorded, the channels of either kind, and those with a vardiff state.
structure Ids where
  standardJobs : Bool
  group        : Option (ChannelId × Finset ChannelId)
  standard     : Set ChannelId
  extended     : Set ChannelId
  vardiff      : Set ChannelId
  next         : ChannelId

namespace Ids

variable {x x' : Ids} {m : Mining} {c : ChannelId}

def new : Ids where
  standardJobs := false
  group        := none
  standard     := ∅
  extended     := ∅
  vardiff      := ∅
  next         := 1

def openGroup (x : Ids) : Ids :=
  { x with group := some (x.next, ∅), next := x.next + 1 }

def refuse (x : Ids) : Ids :=
  { x with next := x.next + 1 }

def openStandard (x : Ids) : Ids where
  standardJobs := x.standardJobs
  group        := x.group.map fun g => (g.1, insert x.next g.2)
  standard     := insert x.next x.standard
  extended     := x.extended
  vardiff      := insert x.next x.vardiff
  next         := x.next + 1

def openExtended (x : Ids) : Ids :=
  { x with
    extended := insert x.next x.extended
    vardiff  := insert x.next x.vardiff
    next     := x.next + 1 }

-- The group channel keeps its record of a standard channel that is closed.
def close (x : Ids) (c : ChannelId) : Ids :=
  { x with standard := x.standard \ {c}, extended := x.extended \ {c}, vardiff := x.vardiff \ {c} }

def Uses (x : Ids) (c : ChannelId) : Prop :=
  c ∈ x.standard ∨ c ∈ x.extended ∨ ∃ g, x.group = some g ∧ g.1 = c

-- A group channel is made on the way to a standard channel, if it is wanted and not there.
def Grouped (x x' : Ids) : Prop :=
  x' = x ∨ x.standardJobs = false ∧ x.group = none ∧ x' = x.openGroup

-- What the handler of a message may make of the ids, also where it fails. Without `V` the vardiff
-- state of a new channel can not be made, and the channel is open by then.
inductive Handles (x : Ids) (V : Prop) : Mining → Ids → Prop
  | same {m : Mining} : Handles x V m x
  | group {msg : OpenStandardMiningChannel} {x' : Ids} :
    x.Grouped x' → Handles x V (.openStandardMiningChannel msg) x'
  | refuseStandard {msg : OpenStandardMiningChannel} {x' : Ids} :
    x.Grouped x' → Handles x V (.openStandardMiningChannel msg) x'.refuse
  | openStandard {msg : OpenStandardMiningChannel} {x' : Ids} :
    x.Grouped x' → (x'.group = none → x'.standardJobs = true) →
      Handles x V (.openStandardMiningChannel msg) x'.openStandard
  | loseStandard {msg : OpenStandardMiningChannel} {x' : Ids} : ¬V →
    Handles x V (.openStandardMiningChannel msg) x'
  | refuseExtended {msg : OpenExtendedMiningChannel} :
    Handles x V (.openExtendedMiningChannel msg) x.refuse
  | openExtended {msg : OpenExtendedMiningChannel} :
    Handles x V (.openExtendedMiningChannel msg) x.openExtended
  | loseExtended {msg : OpenExtendedMiningChannel} {x' : Ids} : ¬V →
    Handles x V (.openExtendedMiningChannel msg) x'
  | close {msg : CloseChannel} : Handles x V (.closeChannel msg) (x.close msg.channelId)

-- Vardiff states can be made, no id is taken from a counter that has wrapped, and no standard channel
-- of a group is closed.
def Orderly (x : Ids) (V : Prop) : Mining → Prop
  | .openStandardMiningChannel _ =>
    V ∧ x.next ≠ 0 ∧ (x.standardJobs = false → x.group = none → x.next + 1 ≠ 0)
  | .openExtendedMiningChannel _ => V ∧ x.next ≠ 0
  | .closeChannel msg            => x.group = none ∨ msg.channelId ∉ x.standard
  | _                            => True

def Tracked (x : Ids) : Prop :=
  x.vardiff = x.standard ∪ x.extended

-- The ids are distinct, and the record of the group channel is right. The counter is above all of
-- them until it wraps.
structure Sound (x : Ids) : Prop where
  disjoint : ∀ c ∈ x.standard, c ∉ x.extended
  group    : ∀ g, x.group = some g → g.1 ∉ x.standard ∧ g.1 ∉ x.extended ∧ ∀ c, c ∈ g.2 ↔ c ∈ x.standard
  grouped  : x.standardJobs = false → x.group = none → x.standard = ∅
  next     : x.next = 0 ∨ ∀ c, x.Uses c → c < x.next

theorem Tracked.handles {V : Prop} (h : x.Tracked) (hh : x.Handles V m x') (ho : x.Orderly V m) :
    x'.Tracked := by
  have hg {x₁ : Ids} (hg : x.Grouped x₁) : x₁.Tracked := by
    obtain rfl | ⟨_, _, rfl⟩ := hg <;> exact h
  cases hh with
  | same             => exact h
  | group g          => exact hg g
  | refuseStandard g =>
    have := hg g
    exact this
  | loseStandard hV  => exact absurd ho.left hV
  | loseExtended hV  => exact absurd ho.left hV
  | openStandard g   =>
    have := hg g
    simp only [Tracked, openStandard] at this ⊢
    rw [this, Set.insert_union]
  | refuseExtended   => exact h
  | openExtended     =>
    simp only [Tracked, openExtended] at h ⊢
    rw [h, Set.union_insert]
  | close            =>
    simp only [Tracked, close] at h ⊢
    rw [h, Set.union_sdiff_distrib]

namespace Sound

theorem new : new.Sound where
  disjoint := by simp [Ids.new]
  group    := by simp [Ids.new]
  grouped  := fun _ _ => rfl
  next     := .inr <| by simp [Ids.new, Uses]

-- An id that is taken from a counter that has not wrapped is a new one.
theorem not_uses (h : x.Sound) (hn : x.next ≠ 0) : ¬x.Uses x.next := by
  intro hu
  exact absurd (h.next.resolve_left hn _ hu) (UInt32.lt_irrefl _)

-- The counter stays above all ids in use when it gives the next one.
theorem next_succ (h : x.Sound) (hn : x.next ≠ 0)
    (hu : ∀ c, x'.Uses c → c = x.next ∨ x.Uses c) :
    x.next + 1 = 0 ∨ ∀ c, x'.Uses c → c < x.next + 1 := by
  by_cases hw : x.next + 1 = 0
  case pos => exact .inl hw
  case neg =>
    have hs : (x.next + 1).toNat = x.next.toNat + 1 := by
      have := UInt32.toNat_add x.next 1
      have := x.next.toNat_lt
      rw [← UInt32.toNat_inj, UInt32.toNat_zero] at hw
      rw [UInt32.toNat_one] at *
      omega
    refine .inr fun c hc => ?_
    rw [UInt32.lt_iff_toNat_lt, hs]
    cases hu c hc
    case inl he => simp [he]
    case inr hc =>
      have := UInt32.lt_iff_toNat_lt.mp (h.next.resolve_left hn c hc)
      omega

theorem openGroup (h : x.Sound) (hs : x.standardJobs = false) (hg : x.group = none)
    (hn : x.next ≠ 0) : x.openGroup.Sound := by
  have hu := h.not_uses hn
  have he := h.grouped hs hg
  constructor
  case disjoint => exact h.disjoint
  case group =>
    intro g hg'
    cases hg'
    refine ⟨fun hc => hu (.inl hc), fun hc => hu (.inr (.inl hc)), fun c => ?_⟩
    simp [Ids.openGroup, he]
  case grouped =>
    intro _ hg'
    cases hg'
  case next =>
    apply h.next_succ hn
    rintro c (hc | hc | ⟨g, hg', rfl⟩)
    · exact .inr (.inl hc)
    · exact .inr (.inr (.inl hc))
    · cases hg'
      exact .inl rfl

theorem refuse (h : x.Sound) (hn : x.next ≠ 0) : x.refuse.Sound where
  disjoint := h.disjoint
  group    := h.group
  grouped  := h.grouped
  next     := h.next_succ hn fun _ => .inr

theorem openStandard (h : x.Sound) (hn : x.next ≠ 0)
    (hg : x.group = none → x.standardJobs = true) : x.openStandard.Sound := by
  have hu := h.not_uses hn
  constructor
  case disjoint =>
    rintro c (rfl | hc)
    · exact fun hc => hu (.inr (.inl hc))
    · exact h.disjoint c hc
  case group =>
    intro g hg'
    obtain ⟨g₀, hg₀, rfl⟩ := Option.map_eq_some_iff.mp hg'
    obtain ⟨h₁, h₂, h₃⟩ := h.group g₀ hg₀
    refine ⟨?_, h₂, fun c => ?_⟩
    · rintro (hc | hc)
      · exact hu (.inr (.inr ⟨g₀, hg₀, hc⟩))
      · exact h₁ hc
    · simp [Ids.openStandard, h₃]
  case grouped =>
    intro hs hg'
    have : x.standardJobs = true := hg (Option.map_eq_none_iff.mp hg')
    simp [Ids.openStandard, this] at hs
  case next =>
    apply h.next_succ hn
    rintro c ((hc | hc) | hc | ⟨g, hg', rfl⟩)
    · exact .inl hc
    · exact .inr (.inl hc)
    · exact .inr (.inr (.inl hc))
    · obtain ⟨g₀, hg₀, rfl⟩ := Option.map_eq_some_iff.mp hg'
      exact .inr (.inr (.inr ⟨g₀, hg₀, rfl⟩))

theorem openExtended (h : x.Sound) (hn : x.next ≠ 0) : x.openExtended.Sound := by
  have hu := h.not_uses hn
  constructor
  case disjoint =>
    rintro c hc (rfl | hc')
    · exact hu (.inl hc)
    · exact h.disjoint c hc hc'
  case group =>
    intro g hg
    obtain ⟨h₁, h₂, h₃⟩ := h.group g hg
    refine ⟨h₁, ?_, h₃⟩
    rintro (hc | hc)
    · exact hu (.inr (.inr ⟨g, hg, hc⟩))
    · exact h₂ hc
  case grouped => exact h.grouped
  case next =>
    apply h.next_succ hn
    rintro c (hc | (hc | hc) | hc)
    · exact .inr (.inl hc)
    · exact .inl hc
    · exact .inr (.inr (.inl hc))
    · exact .inr (.inr (.inr hc))

theorem close (h : x.Sound) (hc : x.group = none ∨ c ∉ x.standard) : (x.close c).Sound := by
  constructor
  case disjoint =>
    rintro c' ⟨hs, _⟩ ⟨he, _⟩
    exact h.disjoint c' hs he
  case group =>
    intro g hg
    obtain ⟨h₁, h₂, h₃⟩ := h.group g hg
    have hc : c ∉ x.standard := hc.resolve_left fun hn => by cases hg.symm.trans hn
    refine ⟨fun hg => h₁ hg.left, fun hg => h₂ hg.left, fun c' => ?_⟩
    rw [h₃, Ids.close, Set.mem_sdiff_singleton]
    exact ⟨fun hc' => ⟨hc', fun he => hc (he ▸ hc')⟩, And.left⟩
  case grouped =>
    intro hs hg
    have := h.grouped hs hg
    simp [Ids.close, this]
  case next =>
    refine h.next.imp_right fun hn c' hu => hn c' ?_
    exact hu.imp And.left (Or.imp_left And.left)

theorem of_grouped {x₁ : Ids} (h : x.Sound) (hg : x.Grouped x₁) (hn : x.next ≠ 0)
    (hn' : x.standardJobs = false → x.group = none → x.next + 1 ≠ 0) :
    x₁.Sound ∧ (x₁ = x ∨ x₁.next ≠ 0) := by
  obtain rfl | ⟨hs, hg, rfl⟩ := hg
  · exact ⟨h, .inl rfl⟩
  · exact ⟨h.openGroup hs hg hn, .inr (hn' hs hg)⟩

theorem handles {V : Prop} (h : x.Sound) (hh : x.Handles V m x') (ho : x.Orderly V m) :
    x'.Sound := by
  cases hh with
  | same => exact h
  | group hg =>
    obtain ⟨_, hn, hn'⟩ := ho
    exact (h.of_grouped hg hn hn').left
  | refuseStandard hg =>
    obtain ⟨_, hn, hn'⟩ := ho
    obtain ⟨h₁, he⟩ := h.of_grouped hg hn hn'
    exact h₁.refuse (he.elim (· ▸ hn) id)
  | openStandard hg hw =>
    obtain ⟨_, hn, hn'⟩ := ho
    obtain ⟨h₁, he⟩ := h.of_grouped hg hn hn'
    exact h₁.openStandard (he.elim (· ▸ hn) id) hw
  | loseStandard hV => exact absurd ho.left hV
  | refuseExtended  => exact h.refuse ho.right
  | openExtended    => exact h.openExtended ho.right
  | loseExtended hV => exact absurd ho.left hV
  | close           => exact h.close ho

end Sound

end Ids

variable {C : StratumCore} {cfg : Config} {d d' : DownstreamId} {c : ChannelId}
variable {messages messages' : List RouteMessageTo}

def keys {κ : Type} (m : Map ChannelId κ) : Set ChannelId :=
  {c | c ∈ m}

section Keys

variable {κ : Type} {m m' : Map ChannelId κ} {v : κ}

theorem keys_insert : keys (m.insert c v) = insert c (keys m) := by
  ext c'
  exact AList.mem_insert m

theorem keys_erase : keys (m.erase c) = keys m \ {c} := by
  ext c'
  rw [Set.mem_sdiff_singleton, and_comm]
  exact AList.mem_erase

theorem keys_insert_lookup (h : m.lookup c = some v) {v' : κ} : keys (m.insert c v') = keys m := by
  have hm : c ∈ keys m := Map.mem_iff_lookup.mpr ⟨v, h⟩
  rw [keys_insert, Set.insert_eq_of_mem hm]

end Keys

def groupIds (g : C.Group) : ChannelId × Finset ChannelId :=
  (C.group.getChannelId g, C.group.getStandardChannelIds g)

def Downstream.ids (D : Downstream C) (vardiff : Set ChannelId) : Ids where
  standardJobs := D.requiresStandardJobs
  group        := D.groupChannels.map groupIds
  standard     := keys D.standardChannels
  extended     := keys D.extendedChannels
  vardiff      := vardiff
  next         := D.channelIdFactory

namespace ChannelManager

variable {s s' s₁ : ChannelManager C} {D D' D₁ : Downstream C}

def vardiffIds (s : ChannelManager C) (d : DownstreamId) : Set ChannelId :=
  {c | (d, c) ∈ s.vardiff}

def ids (s : ChannelManager C) (d : DownstreamId) : Option Ids :=
  (s.downstream.lookup d).map (·.ids (s.vardiffIds d))

theorem ids_eq (hD : s.downstream.lookup d = some D) : s.ids d = some (D.ids (s.vardiffIds d)) := by
  rw [ids, hD, Option.map_some]

theorem vardiffIds_insert {v : C.VardiffState} (h : s'.vardiff = s.vardiff.insert (d, c) v) :
    s'.vardiffIds d = insert c (s.vardiffIds d) := by
  ext c'
  simp [vardiffIds, h]

theorem vardiffIds_erase (h : s'.vardiff = s.vardiff.erase (d, c)) :
    s'.vardiffIds d = s.vardiffIds d \ {c} := by
  ext c'
  simp [vardiffIds, h, AList.mem_erase, and_comm]

-- What a message of `d` makes of the data, wherever its handler is left: the other downstreams stay as
-- they are, and this one keeps its ids but for those of the channels that the message is about.
structure Alters (s : ChannelManager C) (d : DownstreamId) (m : Mining) (s' : ChannelManager C) :
    Prop where
  others              : ∀ d', d' ≠ d → s'.downstream.lookup d' = s.downstream.lookup d'
  othersVardiff       : ∀ k : VardiffKey, k.1 ≠ d → (k ∈ s'.vardiff ↔ k ∈ s.vardiff)
  downstreamIdFactory : s'.downstreamIdFactory = s.downstreamIdFactory
  handled             : ∃ x x', s.ids d = some x ∧ s'.ids d = some x' ∧
    x.Handles (Returns C.vardiff.new) m x'

namespace Alters

variable {m : Mining} {V : Set ChannelId}

theorem set (hD : s.downstream.lookup d = some D) (hd : s'.downstream = s.downstream.insert d D')
    (hv : ∀ k : VardiffKey, k.1 ≠ d → (k ∈ s'.vardiff ↔ k ∈ s.vardiff))
    (hf : s'.downstreamIdFactory = s.downstreamIdFactory) (hV : s'.vardiffIds d = V)
    (hh : (D.ids (s.vardiffIds d)).Handles (Returns C.vardiff.new) m (D'.ids V)) :
    s.Alters d m s' where
  others _ hne        := by rw [hd, AList.lookup_insert_ne hne]
  othersVardiff       := hv
  downstreamIdFactory := hf
  handled             := ⟨_, _, ids_eq hD, hV ▸ ids_eq (hd ▸ AList.lookup_insert _), hh⟩

theorem same (hD : s.downstream.lookup d = some D) (hd : s'.downstream = s.downstream)
    (hv : s'.vardiff = s.vardiff) (hf : s'.downstreamIdFactory = s.downstreamIdFactory) :
    s.Alters d m s' where
  others _ _          := by rw [hd]
  othersVardiff _ _   := by rw [hv]
  downstreamIdFactory := hf
  handled             := by
    have hi : s'.ids d = s.ids d := by rw [ids, ids, vardiffIds, vardiffIds, hd, hv]
    exact ⟨_, _, ids_eq hD, hi.trans (ids_eq hD), .same⟩

-- A channel that was open is put back.
theorem put (hD : s.downstream.lookup d = some D) (hd : s'.downstream = s.downstream.insert d D')
    (hi : ∀ V, D'.ids V = D.ids V) (hv : ∀ k, k ∈ s'.vardiff ↔ k ∈ s.vardiff)
    (hf : s'.downstreamIdFactory = s.downstreamIdFactory) : s.Alters d m s' := by
  have hV : s'.vardiffIds d = s.vardiffIds d := Set.ext fun c => hv (d, c)
  refine .set hD hd (fun k _ => hv k) hf hV ?_
  rw [hi]
  exact .same

end Alters

theorem ids_put_standard {ch ch' : C.Standard} (hl : D.standardChannels.lookup c = some ch)
    (V : Set ChannelId) :
    ({ D with standardChannels := D.standardChannels.insert c ch' }).ids V = D.ids V := by
  simp only [Downstream.ids, keys_insert_lookup hl]

theorem ids_put_extended {ch ch' : C.Extended} (hl : D.extendedChannels.lookup c = some ch)
    (V : Set ChannelId) :
    ({ D with extendedChannels := D.extendedChannels.insert c ch' }).ids V = D.ids V := by
  simp only [Downstream.ids, keys_insert_lookup hl]

-- The data that a handler leaves, with a value or without.
def Leaving (s : ChannelManager C) (d : DownstreamId) (m : Mining) (e : Exit C) : Prop :=
  e.state = s ∨ s.Alters d m e.state

-- A handler looks its downstream up before it changes anything.
theorem leaving_lookup {m : Mining} {error : PoolError} {k : Downstream C → Exit C}
    (h : ∀ D, s.downstream.lookup d = some D → s.Leaving d m (k D)) :
    s.Leaving d m (.after s (orErr (s.downstream.lookup d) error) k) :=
  Exit.after_rule (fun _ _ => .inl rfl) fun D hD => h D (orErr_eq_ok.mp hD)

theorem exitCloseChannel_leaving (msg : CloseChannel) :
    s.Leaving d (.closeChannel msg) (s.exitCloseChannel d msg) := by
  refine leaving_lookup fun D hD => .inr <| .set hD rfl (fun k hk => ?_) rfl
    (vardiffIds_erase (s := s) rfl) ?_
  · simp only [AList.mem_erase, setDownstream]
    exact and_iff_right fun he => hk (by rw [he])
  · have hx : ({ D with
        standardChannels := D.standardChannels.erase msg.channelId
        extendedChannels := D.extendedChannels.erase msg.channelId } : Downstream C).ids
          (s.vardiffIds d \ {msg.channelId}) = (D.ids (s.vardiffIds d)).close msg.channelId := by
      simp only [Downstream.ids, Ids.close, keys_erase]
    exact hx ▸ .close

theorem exitUpdateChannel_leaving (msg : UpdateChannel) :
    s.Leaving d (.updateChannel msg) (s.exitUpdateChannel d msg) := by
  refine leaving_lookup fun D hD => ?_
  cases hl : D.standardChannels.lookup msg.channelId with
  | some channel =>
    refine Exit.after_rule (fun _ _ => .inr ?_) fun _ _ => .inr ?_
    all_goals exact .put hD rfl (ids_put_standard hl) (fun _ => Iff.rfl) rfl
  | none =>
    cases hl : D.extendedChannels.lookup msg.channelId with
    | none         => exact .inl rfl
    | some channel =>
      refine Exit.after_rule (fun _ _ => .inr ?_) fun _ _ => .inr ?_
      all_goals exact .put hD rfl (ids_put_extended hl) (fun _ => Iff.rfl) rfl

theorem exitSubmitShares_leaving {κ μ ω ε : Type} (S : ShareChannels κ μ ω ε) (share : ShareFields)
    {m : Mining} {errorCode : ShareValidationError → Option String} {channels : Map ChannelId κ}
    {put : Map ChannelId κ → Downstream C} (msg : ω) (hD : s.downstream.lookup d = some D)
    (hi : ∀ ch ch' V, channels.lookup share.channelId = some ch →
      (put (channels.insert share.channelId ch')).ids V = D.ids V) :
    s.Leaving d m (s.exitSubmitShares d S share errorCode channels put msg) := by
  rw [exitSubmitShares]
  cases hl : channels.lookup share.channelId with
  | none         => exact .inl rfl
  | some channel =>
    refine Exit.after_rule (fun _ _ => .inl rfl) fun vardiff hv => .inr ?_
    exact .put hD rfl (fun V => hi channel _ V hl) (fun _ => mem_insert_lookup (orErr_eq_ok.mp hv)) rfl

theorem exitSubmitSharesStandard_leaving (msg : SubmitSharesStandard) :
    s.Leaving d (.submitSharesStandard msg) (s.exitSubmitSharesStandard d msg) :=
  leaving_lookup fun _ hD =>
    exitSubmitShares_leaving _ (standardShare msg) msg hD fun _ _ V hl => ids_put_standard hl V

theorem exitSubmitSharesExtended_leaving (msg : SubmitSharesExtended) :
    s.Leaving d (.submitSharesExtended msg) (s.exitSubmitSharesExtended d msg) :=
  Exit.after_rule (fun _ _ => .inl rfl) fun _ _ => leaving_lookup fun _ hD =>
    exitSubmitShares_leaving _ (extendedShare msg) msg hD fun _ _ V hl => ids_put_extended hl V

theorem exitSetCustomMiningJob_leaving (msg : SetCustomMiningJob) :
    s.Leaving d (.setCustomMiningJob msg) (s.exitSetCustomMiningJob cfg d msg) := by
  refine Exit.after_rule (fun _ _ => .inl rfl) fun outputs _ => ?_
  split
  case isTrue  => exact .inl rfl
  case isFalse =>
    refine leaving_lookup fun D hD => ?_
    cases hl : D.extendedChannels.lookup msg.channelId with
    | none         => exact .inl rfl
    | some channel =>
      refine Exit.after_rule (fun _ _ => .inr ?_) fun _ _ => .inr ?_
      all_goals exact .put hD rfl (ids_put_extended hl) (fun _ => Iff.rfl) rfl

section Open

variable {t : NewTemplate} {p : SetNewPrevHash} {g g' : C.Group} {outputs : List TxOut}

theorem groupIds_onNewTemplate {r : Except GroupChannelError Unit} (hC : C.Lawful)
    (h : C.group.onNewTemplate g t outputs = (r, g')) : groupIds g' = groupIds g := by
  have hm := hC.groupRecords.onNewTemplate g t outputs
  rw [h] at hm
  refine Prod.ext ?_ hm
  cases r with
  | error e => exact (hC.group.newTemplateError _ _ _ _ _ h).channelId
  | ok =>
    cases ht : t.futureTemplate with
    | true  => exact (hC.group.newFutureTemplate _ _ _ _ ht h).left
    | false => exact (hC.group.newTemplate _ _ _ _ ht h).left

theorem groupIds_onSetNewPrevHash {r : Except GroupChannelError Unit} (hC : C.Lawful)
    (h : C.group.onSetNewPrevHash g p = (r, g')) : groupIds g' = groupIds g := by
  have hm := hC.groupRecords.onSetNewPrevHash g p
  rw [h] at hm
  exact Prod.ext (hC.group.setNewPrevHashFuture _ _ _ _ h).left hm

theorem newGroupChannel_ids (hC : C.Lawful) (h : newGroupChannel cfg c t p = .ok g) :
    groupIds g = (c, ∅) := by
  obtain ⟨g₀, g₁, h₀, h₁, h₂⟩ := newGroupChannel_eq_ok.mp h
  rw [groupIds_onSetNewPrevHash hC h₂, groupIds_onNewTemplate hC h₁]
  exact Prod.ext (hC.newGroup _ _ _ _ h₀).channelId (hC.groupRecords.newForPool _ _ _ _ h₀)

-- The downstream as it is when its new standard channel is made.
theorem exitStandardChannel_leaving {channel : C.Standard} {msg : OpenStandardMiningChannel}
    (hC : C.Lawful) (hD : s.downstream.lookup d = some D)
    (hd : s₁.downstream = s.downstream.insert d { D₁ with channelIdFactory := D₁.channelIdFactory + 1 })
    (hv : s₁.vardiff = s.vardiff) (hf : s₁.downstreamIdFactory = s.downstreamIdFactory)
    (hg : (D.ids (s.vardiffIds d)).Grouped (D₁.ids (s.vardiffIds d)))
    (hw : (D₁.ids (s.vardiffIds d)).group = none → D₁.requiresStandardJobs = true) :
    s.Leaving d (.openStandardMiningChannel msg) (s₁.exitStandardChannel cfg d
      { D₁ with channelIdFactory := D₁.channelIdFactory + 1 } channel D₁.channelIdFactory msg t p) := by
  have hV : s₁.vardiffIds d = s.vardiffIds d := by rw [vardiffIds, vardiffIds, hv]
  have hr : s.Alters d (.openStandardMiningChannel msg) s₁ :=
    .set hD hd (fun _ _ => by rw [hv]) hf hV (.refuseStandard hg)
  refine Exit.after_rule (fun _ _ => .inr hr) fun pre _ => ?_
  refine Exit.after_rule (fun _ _ => .inr hr) fun r _ => ?_
  refine Exit.after_rule (fun _ _ => .inr hr) fun j _ => ?_
  refine Exit.after_rule (fun _ _ => .inr hr) fun r _ => ?_
  have hd' (D' : Downstream C) : (s₁.setDownstream d D').downstream = s.downstream.insert d D' := by
    rw [setDownstream, hd, AList.insert_insert]
  refine Exit.after_rule (fun e he => .inr ?_) fun vardiff _ => .inr ?_
  · refine .set hD (hd' _) (fun _ _ => by rw [setDownstream, hv]) hf hV (.loseStandard ?_)
    rintro ⟨v, hv⟩
    rw [hv] at he
    cases he
  · refine .set hD (hd' _) (fun k hk => ?_) hf
      ((vardiffIds_insert (s := s₁) rfl).trans (congrArg _ hV)) ?_
    · simpa only [setDownstream, hv] using mem_insert_vardiff hk
    · convert Ids.Handles.openStandard hg hw using 1
      simp only [Downstream.ids, Ids.openStandard, keys_insert, Option.map_map]
      congr 2
      funext g
      exact Prod.ext (hC.addStandardChannelId g _).channelId (hC.groupRecords.addStandardChannelId g _)

theorem exitOpenStandardChannel_leaving {msg : OpenStandardMiningChannel} (hC : C.Lawful)
    (hD : s.downstream.lookup d = some D) (hs : s₁ = s ∧ D₁ = D ∨ s₁ = s.setDownstream d D₁)
    (hg : (D.ids (s.vardiffIds d)).Grouped (D₁.ids (s.vardiffIds d)))
    (hw : (D₁.ids (s.vardiffIds d)).group = none → D₁.requiresStandardJobs = true) :
    s.Leaving d (.openStandardMiningChannel msg) (s₁.exitOpenStandardChannel cfg d D₁ msg t p) := by
  have hd (D' : Downstream C) : s₁.downstream.insert d D' = s.downstream.insert d D' := by
    obtain ⟨rfl, _⟩ | rfl := hs
    · rfl
    · rw [setDownstream, AList.insert_insert]
  have hv : s₁.vardiff = s.vardiff := by
    obtain ⟨rfl, _⟩ | rfl := hs <;> rfl
  have hf : s₁.downstreamIdFactory = s.downstreamIdFactory := by
    obtain ⟨rfl, _⟩ | rfl := hs <;> rfl
  refine Exit.after_rule (fun _ _ => .inr ?_) fun pre _ => ?_
  · obtain ⟨rfl, _⟩ | rfl := hs
    · exact .same hD rfl rfl rfl
    · exact .set hD rfl (fun _ _ => Iff.rfl) rfl rfl (.group hg)
  · have hr : s.Alters d (.openStandardMiningChannel msg) (({ s₁ with
        extranoncePrefixFactoryStandard :=
          (C.extranonce.nextPrefixStandard s₁.extranoncePrefixFactoryStandard).2 } :
            ChannelManager C).setDownstream d
              { D₁ with channelIdFactory := D₁.channelIdFactory + 1 }) := by
      have hV : s₁.vardiffIds d = s.vardiffIds d := by rw [vardiffIds, vardiffIds, hv]
      exact .set hD (hd _) (fun _ _ => by rw [setDownstream, hv]) hf hV (.refuseStandard hg)
    dsimp only
    split
    case h_1 => exact exitStandardChannel_leaving hC hD (hd _) hv hf hg hw
    case h_2 => split <;> exact .inr hr

theorem exitOpenStandardMiningChannel_leaving (hC : C.Lawful) (msg : OpenStandardMiningChannel) :
    s.Leaving d (.openStandardMiningChannel msg) (s.exitOpenStandardMiningChannel cfg d msg) := by
  refine leaving_lookup fun D hD => ?_
  split
  case isTrue  => exact .inl rfl
  case isFalse =>
    refine Exit.after_rule (fun _ _ => .inl rfl) fun t _ => ?_
    refine Exit.after_rule (fun _ _ => .inl rfl) fun p _ => ?_
    split
    case isTrue hc =>
      simp only [Bool.and_eq_true, Bool.not_eq_true', Option.isNone_iff_eq_none] at hc
      refine Exit.after_rule (fun _ _ => .inr ?_) fun g hg => ?_
      · exact .set hD rfl (fun _ _ => Iff.rfl) rfl rfl (.refuseStandard (.inl rfl))
      · refine exitOpenStandardChannel_leaving hC hD (.inr setDownstream_setDownstream) (.inr ?_)
          fun hn => nomatch hn
        refine ⟨hc.left, by simp [Downstream.ids, hc.right], ?_⟩
        simp only [Downstream.ids, Ids.openGroup, Option.map_some, newGroupChannel_ids hC hg]
    case isFalse hc =>
      refine exitOpenStandardChannel_leaving hC hD (.inl ⟨rfl, rfl⟩) (.inl rfl) fun hn => ?_
      simp only [Downstream.ids, Option.map_eq_none_iff] at hn
      simpa [hn] using hc

theorem exitExtendedChannel_leaving {channel : C.Extended} {msg : OpenExtendedMiningChannel}
    (hD : s.downstream.lookup d = some D)
    (hd : s₁.downstream = s.downstream.insert d { D with channelIdFactory := D.channelIdFactory + 1 })
    (hv : s₁.vardiff = s.vardiff) (hf : s₁.downstreamIdFactory = s.downstreamIdFactory) :
    s.Leaving d (.openExtendedMiningChannel msg) (s₁.exitExtendedChannel cfg d
      { D with channelIdFactory := D.channelIdFactory + 1 } channel D.channelIdFactory msg) := by
  have hV : s₁.vardiffIds d = s.vardiffIds d := by rw [vardiffIds, vardiffIds, hv]
  have hr : s.Alters d (.openExtendedMiningChannel msg) s₁ :=
    .set hD hd (fun _ _ => by rw [hv]) hf hV .refuseExtended
  refine Exit.after_rule (fun _ _ => .inr hr) fun pre _ => ?_
  refine Exit.after_rule (fun _ _ => .inr hr) fun p _ => ?_
  refine Exit.after_rule (fun _ _ => .inr hr) fun t _ => ?_
  refine Exit.after_rule (fun _ _ => .inr hr) fun r _ => ?_
  have hd' (D' : Downstream C) : (s₁.setDownstream d D').downstream = s.downstream.insert d D' := by
    rw [setDownstream, hd, AList.insert_insert]
  refine Exit.after_rule (fun e he => .inr ?_) fun vardiff _ => .inr ?_
  · refine .set hD (hd' _) (fun _ _ => by rw [setDownstream, hv]) hf hV (.loseExtended ?_)
    rintro ⟨v, hv⟩
    rw [hv] at he
    cases he
  · refine .set hD (hd' _) (fun k hk => ?_) hf
      ((vardiffIds_insert (s := s₁) rfl).trans (congrArg _ hV)) ?_
    · simpa only [setDownstream, hv] using mem_insert_vardiff hk
    · convert Ids.Handles.openExtended using 1
      simp only [Downstream.ids, Ids.openExtended, keys_insert]

theorem exitOpenExtendedMiningChannel_leaving (msg : OpenExtendedMiningChannel) :
    s.Leaving d (.openExtendedMiningChannel msg) (s.exitOpenExtendedMiningChannel cfg d msg) := by
  refine leaving_lookup fun D hD => ?_
  dsimp only
  split
  case h_1 => exact .inr <| .same hD rfl rfl rfl
  case h_2 =>
    split
    case h_1 => exact exitExtendedChannel_leaving hD rfl rfl rfl
    case h_2 => split <;> exact .inr <| .set hD rfl (fun _ _ => Iff.rfl) rfl rfl .refuseExtended

end Open

theorem exitMiningMessageFromClient_leaving (hC : C.Lawful) (m : Mining) :
    s.Leaving d m (s.exitMiningMessageFromClient cfg d m) := by
  cases m
  case openStandardMiningChannel msg => exact exitOpenStandardMiningChannel_leaving hC msg
  case openExtendedMiningChannel msg => exact exitOpenExtendedMiningChannel_leaving msg
  case closeChannel msg              => exact exitCloseChannel_leaving msg
  case updateChannel msg             => exact exitUpdateChannel_leaving msg
  case submitSharesStandard msg      => exact exitSubmitSharesStandard_leaving msg
  case submitSharesExtended msg      => exact exitSubmitSharesExtended_leaving msg
  case setCustomMiningJob msg        => exact exitSetCustomMiningJob_leaving msg
  all_goals exact .inl rfl

section Templates

variable {t : NewTemplate} {p : SetNewPrevHash} {outputs : List TxOut}

end Templates

end ChannelManager

end Pool
