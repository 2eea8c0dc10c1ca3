import StratumApps.StratumCore.Extranonces
import StratumApps.JobDeclaratorClient.Works

open Sv2 Handler StratumCore

namespace Jdc

variable {C : StratumCore}

def Downstream.prefixes (downstream : Downstream C) : List (ChannelId × Bytes) :=
  downstream.standardChannels.entries.map (fun e => (e.1, C.standard.getExtranoncePrefix e.2)) ++
    downstream.extendedChannels.entries.map (fun e => (e.1, C.extended.getExtranoncePrefix e.2))

-- The prefix that a message gives to a channel.
def renewal : RouteMessageTo → Option (DownstreamId × ChannelId × Bytes)
  | .downstream d (.setExtranoncePrefix m) => some (d, m.channelId, m.extranoncePrefix.1)
  | _                                      => none

namespace ChannelManager

section Atomicity

variable (s : ChannelManager C) (msg : SetExtranoncePrefix)

def prefixes : List (DownstreamId × ChannelId × Bytes) :=
  s.downstream.entries.flatMap fun e => e.2.prefixes.map (e.1, ·)

def upstreamPrefix : Option Bytes :=
  s.upstreamChannel.map C.upstream.getExtranoncePrefix

def fullExtranonceSize (upstream : C.Upstream) : ℕ :=
  msg.extranoncePrefix.1.length + (C.upstream.getRollableExtranonceSize upstream).toNat

-- The data that the handler leaves behind, at whichever of its exits. A loop that panics takes the
-- data with it.
def afterSetExtranoncePrefix : ChannelManager C :=
  match s.upstreamChannel with
  | none          => s
  | some upstream =>
    let r := C.upstream.setExtranoncePrefix upstream msg.extranoncePrefix.1
    let s := { s with upstreamChannel := some r.2 }
    match r.1 with
    | .error _ => s
    | .ok _    =>
      if fullExtranonceSize msg r.2 > maxExtranonceLen then
        s
      else
        match newExtranonces msg.extranoncePrefix.1 (fullExtranonceSize msg r.2) with
        | .error _        => s
        | .ok extranonces =>
          match s.downstream.forEach renewDownstream ⟨extranonces, extranonces, []⟩ with
          | .error _         => s
          | .ok (downstream, r) => { s with
            downstream                      := downstream
            extranoncePrefixFactoryExtended := r.extended
            extranoncePrefixFactoryStandard := r.standard }

-- Every channel gets a prefix from the factory, and takes it. The factory is the one after that.
def renewsChannels {κ μ ω ε : Type} (S : ShareChannels κ μ ω ε)
    (next : C.Extranonce → κ → Except ExtendedExtranonceError Bytes × C.Extranonce) :
    List (Σ _ : ChannelId, κ) → C.Extranonce → Option C.Extranonce
  | [], x      => some x
  | e :: es, x =>
    match next x e.2 with
    | (.error _, _) => none
    | (.ok p, x)    =>
      match (S.setExtranoncePrefix e.2 p).1 with
      | .error _ => none
      | .ok _    => renewsChannels S next es x

def nextStandard (x : C.Extranonce) (_ : C.Standard) :
    Except ExtendedExtranonceError Bytes × C.Extranonce :=
  C.extranonce.nextPrefixStandard x

def nextExtended (x : C.Extranonce) (channel : C.Extended) :
    Except ExtendedExtranonceError Bytes × C.Extranonce :=
  C.extranonce.nextPrefixExtended x (C.extended.getRollableExtranonceSize channel).toNat

def renewsDownstreams : List (Σ _ : DownstreamId, Downstream C) → C.Extranonce → C.Extranonce → Bool
  | [], _, _      => true
  | e :: es, x, y =>
    match renewsChannels C.standard.toShareChannels nextStandard e.2.standardChannels.entries x,
        renewsChannels C.extended.toShareChannels nextExtended e.2.extendedChannels.entries y with
    | some x, some y => renewsDownstreams es x y
    | _, _           => false

-- The upstream channel takes the prefix, it leaves room for a factory, and all channels get theirs.
def Succeeds : Prop :=
  ∃ upstream upstream' extranonces, s.upstreamChannel = some upstream ∧
    C.upstream.setExtranoncePrefix upstream msg.extranoncePrefix.1 = (.ok (), upstream') ∧
    fullExtranonceSize msg upstream' ≤ maxExtranonceLen ∧
    newExtranonces msg.extranoncePrefix.1 (fullExtranonceSize msg upstream') = .ok extranonces ∧
    renewsDownstreams s.downstream.entries extranonces extranonces

structure SamePrefixes (s s' : ChannelManager C) : Prop where
  upstream : s'.upstreamPrefix = s.upstreamPrefix
  extended : s'.extranoncePrefixFactoryExtended = s.extranoncePrefixFactoryExtended
  standard : s'.extranoncePrefixFactoryStandard = s.extranoncePrefixFactoryStandard
  channels : s'.prefixes.Perm s.prefixes

-- The channels are those from before, each has a prefix of its own behind the new one, and is told so
-- by one message.
structure Renewed (o : Outcome C) : Prop where
  upstream : o.manager.upstreamPrefix = some msg.extranoncePrefix.1
  channels : (o.manager.prefixes.map fun e => (e.1, e.2.1)).Perm (s.prefixes.map fun e => (e.1, e.2.1))
  behind   : ∀ e ∈ o.manager.prefixes, msg.extranoncePrefix.1 <+: e.2.2
  apart    : (o.manager.prefixes.map (·.2.2)).Pairwise Apart
  sent     : (o.messages.map renewal).Perm (o.manager.prefixes.map some)

-- Once the upstream channel has taken the prefix, nothing fails any more.
def Whole : Prop :=
  ∀ upstream upstream', s.upstreamChannel = some upstream →
    C.upstream.setExtranoncePrefix upstream msg.extranoncePrefix.1 = (.ok (), upstream') →
      s.Succeeds msg

end Atomicity

variable {s : ChannelManager C} {msg : SetExtranoncePrefix} {o : Outcome C}

-- A handler that returns leaves its data behind.
theorem handleSetExtranoncePrefix_after (h : s.handleSetExtranoncePrefix msg = .ok o) :
    o.manager = s.afterSetExtranoncePrefix msg := by
  rw [handleSetExtranoncePrefix] at h
  rw [afterSetExtranoncePrefix]
  cases hu : s.upstreamChannel with
  | none =>
    rw [hu] at h
    cases pure_eq_ok.mp h
    rfl
  | some upstream =>
    rw [hu] at h
    obtain ⟨⟨_, upstream'⟩, hp, h⟩ := bind_eq_ok.mp h
    rw [attempt_eq_ok] at hp
    dsimp only at h hp ⊢
    rw [hp]
    dsimp only
    split at h
    case isTrue  => cases h
    case isFalse hl =>
      simp only [bind_eq_ok, ofExcept_eq_ok, pure_eq_ok, Prod.exists] at h
      obtain ⟨extranonces, hx, downstream, r, hr, rfl⟩ := h
      have hl : ¬fullExtranonceSize msg upstream' > maxExtranonceLen := hl
      have hx : newExtranonces msg.extranoncePrefix.1 (fullExtranonceSize msg upstream') =
        .ok extranonces := hx
      rw [if_neg hl, hx]
      dsimp only
      rw [hr]
      rfl

section Renew

variable {κ μ ω ε ι : Type} {S : ShareChannels κ μ ω ε} {d : DownstreamId}
  {next : C.Extranonce → κ → Except ExtendedExtranonceError Bytes × C.Extranonce}
  {N : ι → C.Extranonce → Except ExtendedExtranonceError Bytes × C.Extranonce}

end Renew

-- What has been given to some channels: all the prefixes that the two copies of the factory have
-- handed out, and one message for each.
structure Given (r r' : Renewal C) (given : List (DownstreamId × ChannelId × Bytes)) : Prop where
  hands : ∃ ps qs, C.extranonce.HandsStandard r.standard ps r'.standard ∧
    C.extranonce.HandsExtended r.extended qs r'.extended ∧ (given.map (·.2.2)).Perm (ps ++ qs)
  sent  : ∃ new, r'.messages = r.messages ++ new ∧ (new.map renewal).Perm (given.map some)

namespace Given

variable {r r₁ r' : Renewal C} {given given' : List (DownstreamId × ChannelId × Bytes)}

theorem nil : Given r r [] where
  hands := ⟨[], [], .nil, .nil, .nil⟩
  sent  := ⟨[], (List.append_nil _).symm, .nil⟩

theorem append (h : Given r r₁ given) (h' : Given r₁ r' given') : Given r r' (given ++ given') where
  hands := by
    obtain ⟨ps, qs, hs, he, hp⟩ := h.hands
    obtain ⟨ps', qs', hs', he', hp'⟩ := h'.hands
    refine ⟨ps ++ ps', qs ++ qs', hs.append hs', he.append he', ?_⟩
    rw [List.map_append]
    refine (hp.append hp').trans ?_
    rw [List.append_assoc, List.append_assoc]
    refine List.Perm.append_left ps ?_
    rw [← List.append_assoc, ← List.append_assoc]
    exact List.Perm.append_right qs' List.perm_append_comm
  sent := by
    obtain ⟨new, hn, hp⟩ := h.sent
    obtain ⟨new', hn', hp'⟩ := h'.sent
    refine ⟨new ++ new', by rw [hn', hn, List.append_assoc], ?_⟩
    rw [List.map_append, List.map_append]
    exact hp.append hp'

theorem perm (h : Given r r' given) (hp : given'.Perm given) : Given r r' given' where
  hands := by
    obtain ⟨ps, qs, hs, he, hg⟩ := h.hands
    exact ⟨ps, qs, hs, he, (hp.map _).trans hg⟩
  sent := by
    obtain ⟨new, hn, hg⟩ := h.sent
    exact ⟨new, hn, hg.trans (hp.map some).symm⟩

theorem factories {p : Bytes} (h : Given r r' given) (hs : C.extranonce.From p r.standard)
    (he : C.extranonce.From p r.extended) :
    C.extranonce.From p r'.standard ∧ C.extranonce.From p r'.extended := by
  obtain ⟨_, _, hs', he', _⟩ := h.hands
  exact ⟨hs'.keeps (fun _ _ => .nextStandard) hs, he'.keeps (fun _ _ => .nextExtended) he⟩

theorem startsWith {p : Bytes} (hC : C.Lawful) (h : Given r r' given)
    (hs : C.extranonce.From p r.standard) (he : C.extranonce.From p r.extended) :
    ∀ e ∈ given, p <+: e.2.2 := by
  intro e hme
  obtain ⟨_, _, hs', he', hm⟩ := h.hands
  have hme := hm.subset (List.mem_map_of_mem (f := (·.2.2)) hme)
  cases List.mem_append.mp hme with
  | inl hme => exact Extranonces.extends_of_standard hC.extranonce hs' hs _ hme
  | inr hme => exact Extranonces.extends_of_extended hC.extranonce he' he _ hme

end Given

section Downstreams

variable {d : DownstreamId} {D D' : Downstream C} {r r' : Renewal C} {x y : C.Extranonce}

end Downstreams

end ChannelManager

-- A client whose upstream gives prefixes of one byte.
namespace Renamed

open Sample

def core : StratumCore where
  __         := reference
  Extranonce := Ranges
  extranonce := ranges

theorem core_lawful : core.Lawful where
  __         := reference_lawful
  extranonce := ranges_lawful

def newPrefix (bytes : Bytes) : SetExtranoncePrefix :=
  ⟨7, fit bytes⟩

def params (channelId : ChannelId) (bytes : Bytes) : ChannelParams where
  channelId          := channelId
  userIdentity       := "miner"
  extranoncePrefix   := bytes
  requestedMaxTarget := 1
  nominalHashrate    := 1
  shareBatchSize     := 10
  sharesPerMinute    := 6

def standard (channelId : ChannelId) (bytes : Bytes) : Reference.Channel NewMiningJob :=
  .new (params channelId bytes) 0

def extended (channelId : ChannelId) (bytes : Bytes) : Reference.Channel NewExtendedMiningJob :=
  .new (params channelId bytes) 2

-- A standard and two extended channels of one downstream.
def downstream : Downstream core where
  __               := Downstream.new
  standardChannels := AList.insert 1 (standard 1 [9, 0, 0, 0, 0, 0, 1]) ∅
  extendedChannels := AList.insert 2 (extended 2 [9, 0, 0, 0, 1])
    (AList.insert 3 (extended 3 [9, 0, 0, 0, 2]) ∅)

def manager : ChannelManager core where
  __              := ChannelManager.new (C := core) ⟨[], 4, 28, Nat.le_refl 32, 0, 0⟩ coinbaseOutputs
  downstream      := AList.insert 0 downstream ∅
  upstreamChannel := some ⟨7, [9], 8⟩

-- A prefix of 25 bytes does not fit before the eight that the upstream has left to the client.
def joined : List Action :=
  [.setJdMode .coinbaseOnly, .setUpstreamState .noChannel, future 1, prevHash 1, .connect,
    openExtended 0, opened]

end Renamed

end Jdc
