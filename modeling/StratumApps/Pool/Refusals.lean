import StratumApps.Pool.System

open Sv2 Handler StratumCore

namespace Pool

variable {C : StratumCore} {cfg : Config} {d : DownstreamId}

namespace ChannelManager

section Refusals

variable {s s' s₁ : ChannelManager C} {D D' downstream : Downstream C} {g g' : Option C.Group}
variable {e : Exit C} {m : Mining}

def exitOpenMiningChannel (cfg : Config) (s : ChannelManager C) (d : DownstreamId) :
    Mining → Option (Exit C)
  | .openStandardMiningChannel msg => some (s.exitOpenStandardMiningChannel cfg d msg)
  | .openExtendedMiningChannel msg => some (s.exitOpenExtendedMiningChannel cfg d msg)
  | _                              => none

theorem exitOpenMiningChannel_returned (h : s.exitOpenMiningChannel cfg d m = some e) :
    s.handleMiningMessageFromClient cfg d m = e.returned := by
  cases m <;> cases h
  case openStandardMiningChannel => exact (exitOpenStandardMiningChannel_returned _).symm
  case openExtendedMiningChannel => exact (exitOpenExtendedMiningChannel_returned _).symm

-- The request is answered by an error, or ends the handler with one.
def Refuses (d : DownstreamId) (e : Exit C) : Prop :=
  (∃ requestId errorCode, e.result = .ok [openMiningChannelError d requestId errorCode]) ∨
    ∃ error, e.result = .error (.err error)

def VardiffFails (e : Exit C) : Prop :=
  ∃ error, e.result = .error (.err (.vardiff error))

def SameChannels (s s' : ChannelManager C) : Prop :=
  s'.vardiff = s.vardiff ∧ ∀ d,
    (s'.downstream.lookup d).map (fun D => (D.groupChannels, D.standardChannels, D.extendedChannels)) =
      (s.downstream.lookup d).map fun D => (D.groupChannels, D.standardChannels, D.extendedChannels)

-- The request is the first for a standard channel that gets as far as the group channel.
def Groups (cfg : Config) (s : ChannelManager C) (D : Downstream C) (m : Mining) (g : C.Group) : Prop :=
  ∃ msg t p, m = .openStandardMiningChannel msg ∧ D.requiresCustomWork = false ∧
    D.requiresStandardJobs = false ∧ D.groupChannels = none ∧ s.lastFutureTemplate = some t ∧
    s.lastNewPrevHash = some p ∧ newGroupChannel cfg D.channelIdFactory t p = .ok g

-- The data but for the counters, with that group channel.
structure Counts (s : ChannelManager C) (d : DownstreamId) (D : Downstream C) (g : Option C.Group)
    (s' : ChannelManager C) : Prop where
  rest   : s' = { s with
    downstream                      := s'.downstream
    extranoncePrefixFactoryExtended := s'.extranoncePrefixFactoryExtended
    extranoncePrefixFactoryStandard := s'.extranoncePrefixFactoryStandard }
  others : ∀ d', d' ≠ d → s'.downstream.lookup d' = s.downstream.lookup d'
  own    : ∃ n, s'.downstream.lookup d = some { D with channelIdFactory := n, groupChannels := g }

namespace Counts

theorem refl (hD : s.downstream.lookup d = some D) : s.Counts d D D.groupChannels s where
  rest       := rfl
  others _ _ := rfl
  own        := ⟨D.channelIdFactory, hD⟩

theorem set (h : s.Counts d D g s₁) (n : ChannelId) (g' : Option C.Group) :
    s.Counts d D g' (s₁.setDownstream d { D with channelIdFactory := n, groupChannels := g' }) where
  rest          := by
    rw [h.rest]
    rfl
  others d' hd' := (AList.lookup_insert_ne hd').trans (h.others d' hd')
  own           := ⟨n, AList.lookup_insert _⟩

theorem standard (h : s.Counts d D g s₁) (x : C.Extranonce) :
    s.Counts d D g { s₁ with extranoncePrefixFactoryStandard := x } where
  rest   := by
    rw [h.rest]
  others := h.others
  own    := h.own

theorem extended (h : s.Counts d D g s₁) (x : C.Extranonce) :
    s.Counts d D g { s₁ with extranoncePrefixFactoryExtended := x } where
  rest   := by
    rw [h.rest]
  others := h.others
  own    := h.own

end Counts

-- What a refusal leaves behind, but for one at the last step.
def Refused (P : ChannelManager C → Prop) (d : DownstreamId) (e : Exit C) : Prop :=
  Refuses d e → ¬VardiffFails e → P e.state

namespace Refused

variable {P : ChannelManager C → Prop}

theorem of_state (h : P e.state) : Refused P d e :=
  fun _ _ => h

theorem of_vardiff {v : Except VardiffError C.VardiffState} {k : C.VardiffState → Exit C}
    (hk : ∀ v, ¬Refuses d (k v)) : Refused P d (.after s (ofExcept .vardiff v) k) := by
  cases v with
  | ok v        => exact fun h => absurd h (hk v)
  | error error => exact fun _ h => absurd ⟨error, rfl⟩ h

theorem after {α : Type} {x : Except (Fault PoolError) α} {k : α → Exit C} (h : P s)
    (hk : ∀ a, x = .ok a → Refused P d (k a)) : Refused P d (.after s x k) :=
  Exit.after_rule (fun _ _ => of_state h) hk

end Refused

theorem exitStandardChannel_refused {channel : C.Standard} {channelId : ChannelId}
    {msg : OpenStandardMiningChannel} {template : NewTemplate} {prevHash : SetNewPrevHash}
    {P : ChannelManager C → Prop} (h : P s) :
    Refused P d (s.exitStandardChannel cfg d downstream channel channelId msg template prevHash) := by
  apply Refused.after h
  intro extranoncePrefix _
  apply Refused.after h
  intro r _
  apply Refused.after h
  intro j _
  apply Refused.after h
  intro r _
  apply Refused.of_vardiff
  rintro vardiff (⟨_, _, h⟩ | ⟨_, h⟩)
  · cases h
  · cases h

theorem exitExtendedChannel_refused {channel : C.Extended} {channelId : ChannelId}
    {msg : OpenExtendedMiningChannel} {P : ChannelManager C → Prop} (h : P s) :
    Refused P d (s.exitExtendedChannel cfg d downstream channel channelId msg) := by
  apply Refused.after h
  intro extranoncePrefix _
  apply Refused.after h
  intro prevHash _
  apply Refused.after h
  intro template _
  apply Refused.after h
  intro r _
  apply Refused.of_vardiff
  rintro vardiff (⟨_, _, h⟩ | ⟨_, h⟩)
  · cases h
  · cases h

theorem exitOpenStandardChannel_refused {msg : OpenStandardMiningChannel} {template : NewTemplate}
    {prevHash : SetNewPrevHash} {n : ChannelId} (h : s.Counts d D g s₁) :
    Refused (s.Counts d D g) d (s₁.exitOpenStandardChannel cfg d
      { D with channelIdFactory := n, groupChannels := g } msg template prevHash) := by
  apply Refused.after (h.standard _)
  intro extranoncePrefix _
  dsimp only
  split
  case h_1 => exact exitStandardChannel_refused ((h.standard _).set (n + 1) g)
  case h_2 => split <;> exact .of_state ((h.standard _).set (n + 1) g)

-- The group channel is the one that the request makes, or the one from before.
def LeavesGroup (cfg : Config) (s : ChannelManager C) (D : Downstream C) (m : Mining)
    (g : Option C.Group) : Prop :=
  (∃ g', s.Groups cfg D m g' ∧ g = some g') ∨ (∀ g', ¬s.Groups cfg D m g') ∧ g = D.groupChannels

def Leaves (cfg : Config) (s : ChannelManager C) (d : DownstreamId) (D : Downstream C) (m : Mining)
    (s' : ChannelManager C) : Prop :=
  ∃ g, s.Counts d D g s' ∧ s.LeavesGroup cfg D m g

theorem Leaves.same (hD : s.downstream.lookup d = some D) (hm : ∀ g, ¬s.Groups cfg D m g) :
    s.Leaves cfg d D m s :=
  ⟨D.groupChannels, .refl hD, .inr ⟨hm, rfl⟩⟩

theorem Refused.leaves (h : Refused (s.Counts d D g) d e) (hg : s.LeavesGroup cfg D m g) :
    Refused (s.Leaves cfg d D m) d e :=
  fun hr hv => ⟨g, h hr hv, hg⟩

theorem exitOpenStandardMiningChannel_refused (msg : OpenStandardMiningChannel)
    (hD : s.downstream.lookup d = some D) :
    Refused (s.Leaves cfg d D (.openStandardMiningChannel msg)) d
      (s.exitOpenStandardMiningChannel cfg d msg) := by
  rw [exitOpenStandardMiningChannel, hD]
  change Refused _ d (ite _ _ _)
  split
  case isTrue hw =>
    refine .of_state (.same hD ?_)
    rintro g ⟨_, _, _, _, hw', _⟩
    cases hw.symm.trans hw'
  case isFalse hw =>
    cases ht : s.lastFutureTemplate with
    | none =>
      refine .of_state (.same hD ?_)
      rintro g ⟨_, _, _, _, _, _, _, ht', _⟩
      cases ht.symm.trans ht'
    | some t =>
    cases hp : s.lastNewPrevHash with
    | none =>
      refine .of_state (.same hD ?_)
      rintro g ⟨_, _, _, _, _, _, _, _, hp', _⟩
      cases hp.symm.trans hp'
    | some p =>
    change Refused _ d (ite _ _ _)
    split
    case isFalse hg =>
      have hn (g) : ¬s.Groups cfg D (.openStandardMiningChannel msg) g := by
        rintro ⟨_, _, _, _, _, hs, hn, _⟩
        exact hg (by rw [hs, hn]; rfl)
      exact (exitOpenStandardChannel_refused (.refl hD)).leaves (.inr ⟨hn, rfl⟩)
    case isTrue hg =>
      simp only [Bool.and_eq_true, Bool.not_eq_true', Option.isNone_iff_eq_none] at hg
      have hc := (Counts.refl hD).set (D.channelIdFactory + 1) D.groupChannels
      dsimp only
      cases hn : newGroupChannel cfg D.channelIdFactory t p with
      | error =>
        have hm (g) : ¬s.Groups cfg D (.openStandardMiningChannel msg) g := by
          rintro ⟨_, _, _, _, _, _, _, ht', hp', hn'⟩
          cases ht.symm.trans ht'
          cases hp.symm.trans hp'
          cases hn.symm.trans hn'
        exact .of_state ⟨_, hc, .inr ⟨hm, rfl⟩⟩
      | ok g =>
        have hm : s.Groups cfg D (.openStandardMiningChannel msg) g :=
          ⟨msg, t, p, rfl, by simpa using hw, hg.left, hg.right, ht, hp, hn⟩
        have hc := hc.set (D.channelIdFactory + 1) (some g)
        exact (exitOpenStandardChannel_refused hc).leaves (.inl ⟨g, hm, rfl⟩)

theorem exitOpenExtendedMiningChannel_refused (msg : OpenExtendedMiningChannel)
    (hD : s.downstream.lookup d = some D) :
    Refused (s.Leaves cfg d D (.openExtendedMiningChannel msg)) d
      (s.exitOpenExtendedMiningChannel cfg d msg) := by
  have hn (g) : ¬s.Groups cfg D (.openExtendedMiningChannel msg) g := by
    rintro ⟨_, _, _, hm, _⟩
    cases hm
  have hc := (Counts.refl hD).extended (C.extranonce.nextPrefixExtended
    s.extranoncePrefixFactoryExtended msg.minExtranonceSize.toNat).2
  refine Refused.leaves (g := D.groupChannels) ?_ (.inr ⟨hn, rfl⟩)
  rw [exitOpenExtendedMiningChannel, hD]
  change Refused _ d (Exit.after s (.ok D) _)
  rw [Exit.after_ok]
  dsimp only
  split
  case h_1 => exact .of_state hc
  case h_2 =>
    have hc := hc.set (D.channelIdFactory + 1) D.groupChannels
    split
    case h_1 => exact exitExtendedChannel_refused hc
    case h_2 => split <;> exact .of_state hc

-- A request that is refused leaves the channels of all downstreams and the vardiff states as they were,
-- but for the group channel, which stays if it has been made. A failure at the last step is not
-- spoken of.
theorem refused_leaves (h : s.exitOpenMiningChannel cfg d m = some e) (hr : Refuses d e)
    (hv : ¬VardiffFails e) : (s.downstream.lookup d = none → e.state = s) ∧
      ∀ D, s.downstream.lookup d = some D → s.Leaves cfg d D m e.state := by
  constructor
  case left =>
    intro hD
    cases m <;> cases h
    case openStandardMiningChannel => rw [exitOpenStandardMiningChannel, hD]; rfl
    case openExtendedMiningChannel => rw [exitOpenExtendedMiningChannel, hD]; rfl
  case right =>
    intro D hD
    cases m <;> cases h
    case openStandardMiningChannel msg =>
      exact exitOpenStandardMiningChannel_refused msg hD hr hv
    case openExtendedMiningChannel msg =>
      exact exitOpenExtendedMiningChannel_refused msg hD hr hv

end Refusals

end ChannelManager

-- A core that makes no standard channel for a negative hashrate, one with the sign bit.
namespace NegativeHashrate

def newForPool (params : ChannelParams) (tag : String) :
    Except StandardChannelError reference.Standard :=
  if 0x80000000 ≤ params.nominalHashrate then
    .error .invalidNominalHashrate
  else
    reference.standard.newForPool params tag

def core : StratumCore where
  __       := reference
  standard := { reference.standard with newForPool := newForPool }

open Sample

def start : System core :=
  System.start config (⟨[0, 1], 2, 0⟩ : Reference.Factory)

theorem start_init : (machine core config).Init start where
  downstream      := rfl
  idFactory       := rfl
  extended        := rfl
  standard        := rfl
  vardiff         := rfl
  coinbaseOutputs := rfl
  lastNewPrevHash := rfl
  lastTemplate    := rfl
  persisted       := rfl
  running         := rfl
  connections     := rfl
  receiver        := rfl
  shutdowns       := rfl
  sent            := rfl

-- The request gives a rate of minus one.
def openNegative : Mining :=
  .openStandardMiningChannel ⟨1, "miner", 0xbf800000, .allOnes 256⟩

theorem refused_exec :
    ((machine core config).exec start (connected ++ [future 1, prevHash 1])).any fun s =>
      ((s.manager.downstream.lookup 1).any (·.groupChannels.isNone)) &&
        (s.manager.exitOpenMiningChannel config 1 openNegative).any fun e =>
          e.result = .ok [ChannelManager.openMiningChannelError 1 1 "invalid-nominal-hashrate"] &&
            (e.state.downstream.lookup 1).any (·.groupChannels.isSome) := by
  decide +kernel

theorem refused : ∃ (s : System core) (D D' : Downstream core) (e : ChannelManager.Exit core),
    (machine core config).Reachable s ∧ s.manager.downstream.lookup 1 = some D ∧
      D.groupChannels = none ∧ s.manager.exitOpenMiningChannel config 1 openNegative = some e ∧
      e.result = .ok [ChannelManager.openMiningChannelError 1 1 "invalid-nominal-hashrate"] ∧
      e.state.downstream.lookup 1 = some D' ∧ D'.groupChannels.isSome := by
  obtain ⟨s, hs, h⟩ := Option.any_eq_true _ _ |>.mp refused_exec
  simp only [Bool.and_eq_true, decide_eq_true_eq, Option.any_eq_true, Option.isNone_iff_eq_none] at h
  obtain ⟨⟨D, hD, hg⟩, e, he, hr, D', hD', hg'⟩ := h
  exact ⟨s, D, D', e, ⟨_, .of_exec start_init hs⟩, hD, hg, he, hr, hD', hg'⟩

end NegativeHashrate

open NegativeHashrate in
theorem not_sameChannels : ¬∀ (s : System core) d m e, (machine core Sample.config).Reachable s →
    s.manager.exitOpenMiningChannel Sample.config d m = some e → ChannelManager.Refuses d e →
      s.manager.SameChannels e.state := by
  intro h
  obtain ⟨s, D, D', e, hs, hD, hg, he, hr, hD', hg'⟩ := refused
  have hc := (h s 1 openNegative e hs he (.inl ⟨_, _, hr⟩)).right 1
  rw [hD, hD', Option.map_some, Option.map_some, Option.some_inj, Prod.mk.injEq] at hc
  rw [hc.left, hg] at hg'
  cases hg'

open NegativeHashrate in
theorem refused_leaves_sample : ∃ (s : System core) (D : Downstream core)
    (e : ChannelManager.Exit core), (machine core Sample.config).Reachable s ∧
      s.manager.downstream.lookup 1 = some D ∧
      s.manager.Leaves Sample.config 1 D openNegative e.state := by
  obtain ⟨s, D, _, e, hs, hD, _, he, hr, _⟩ := refused
  have hv : ¬ChannelManager.VardiffFails e := by
    rintro ⟨_, hv⟩
    cases hr.symm.trans hv
  exact ⟨s, D, e, hs, hD, (ChannelManager.refused_leaves he (.inl ⟨_, _, hr⟩) hv).right D hD⟩

end Pool
