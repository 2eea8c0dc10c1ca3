import StratumApps.Pool.Ids

open Sv2 Handler StratumCore

namespace Pool

variable {C : StratumCore} {cfg : Config} {d d' : DownstreamId} {c : ChannelId}

namespace System

variable {s s' : System C} {a : Action} {tr : List (Machine.Event (System C) Action)}

-- Every id and every queued message is of a downstream that the manager has numbered, and every
-- vardiff state of one that is still there.
structure Attributed (s : System C) : Prop where
  downstream  : ∀ d, d ∈ s.manager.downstream → d < s.manager.downstreamIdFactory
  connections : ∀ d, d ∈ s.connections → d < s.manager.downstreamIdFactory
  receiver    : ∀ d m, (d, m) ∈ s.downstreamReceiver →
    d < s.manager.downstreamIdFactory ∧ s.connections.lookup d ≠ some .settingUp
  vardiff     : ∀ k, k ∈ s.manager.vardiff → k.1 ∈ s.manager.downstream

theorem Attributed.of_same {s s' : System C} (h : s.Attributed)
    (hd : ∀ d, d ∈ s'.manager.downstream ↔ d ∈ s.manager.downstream)
    (hi : s'.manager.downstreamIdFactory = s.manager.downstreamIdFactory)
    (hc : s'.connections = s.connections) (hq : s'.downstreamReceiver ⊆ s.downstreamReceiver)
    (hv : ∀ k, k ∈ s'.manager.vardiff → k ∈ s.manager.vardiff ∨ k.1 ∈ s.manager.downstream) :
    s'.Attributed where
  downstream d hm  := hi ▸ h.downstream d ((hd d).mp hm)
  connections d hm := hi ▸ h.connections d (hc ▸ hm)
  receiver d m hm  := hi ▸ hc ▸ h.receiver d m (hq hm)
  vardiff k hk     := (hd k.1).mpr <| (hv k hk).elim (h.vardiff k) id

theorem runVardiff_mem {m : ChannelManager C} {messages : List RouteMessageTo}
    (h : s.manager.runVardiff = .ok (m, messages)) (k : VardiffKey) :
    k ∈ m.vardiff ↔ k ∈ s.manager.vardiff := by
  simp only [ChannelManager.runVardiff, bind_eq_ok, pure_eq_ok, Prod.mk.injEq, Prod.exists] at h
  obtain ⟨vardiff, _, _, hr, rfl, _⟩ := h
  exact Map.forEach_mem hr k

theorem Attributed.alters {m : ChannelManager C} {msg : Mining}
    {queue : List (DownstreamId × Mining)} (h : s.Attributed) (hA : s.manager.Alters d msg m)
    (hm : s'.manager = m) (hc : s'.connections = s.connections)
    (hq : s'.downstreamReceiver = queue) (hs : queue ⊆ s.downstreamReceiver) : s'.Attributed := by
  subst hm hq
  obtain ⟨x, x', hx, hx', _⟩ := hA.handled
  obtain ⟨D, hD, _⟩ := Option.map_eq_some_iff.mp hx
  obtain ⟨D', hD', _⟩ := Option.map_eq_some_iff.mp hx'
  have hd : d ∈ s.manager.downstream := Map.mem_iff_lookup.mpr ⟨D, hD⟩
  have hd' : d ∈ s'.manager.downstream := Map.mem_iff_lookup.mpr ⟨D', hD'⟩
  refine h.of_same (fun d₁ => ?_) hA.downstreamIdFactory hc hs fun k hk => ?_
  · by_cases he : d₁ = d
    case pos => exact iff_of_true (he ▸ hd') (he ▸ hd)
    case neg => rw [← AList.lookup_isSome, ← AList.lookup_isSome, hA.others d₁ he]
  · by_cases he : k.1 = d
    case pos => exact .inr (he ▸ hd)
    case neg => exact .inl ((hA.othersVardiff k he).mp hk)

theorem templates_vardiff {m : TemplateDistribution} {r : ChannelManager C × List RouteMessageTo}
    (h : s.manager.handleTemplateDistributionMessageFromServer m = .ok r) :
    r.1.vardiff = s.manager.vardiff := by
  cases m <;> try cases h
  case newTemplate =>
    obtain ⟨_, _, _, he⟩ := ChannelManager.handleNewTemplate_cases h
    rw [he]
  case setNewPrevHash =>
    obtain ⟨_, _, he⟩ := ChannelManager.handleSetNewPrevHash_cases h
    rw [he]
  all_goals rfl

theorem attributed_step (hC : C.Lawful) (h : s.Attributed) (hs : s.step cfg a = some s') :
    s'.Attributed := by
  replace hs := (step_running hs).right
  cases a <;> simp only [act] at hs
  case connect =>
    cases hs
    constructor
    case downstream =>
      intro d hd
      cases (AList.mem_insert _).mp hd
      case inl he => exact he ▸ Nat.lt_succ_self _
      case inr hd => exact Nat.lt_succ_of_lt (h.downstream d hd)
    case connections =>
      intro d hd
      cases (AList.mem_insert _).mp hd
      case inl he => exact he ▸ Nat.lt_succ_self _
      case inr hd => exact Nat.lt_succ_of_lt (h.connections d hd)
    case receiver =>
      intro d m hm
      obtain ⟨hd, hc⟩ := h.receiver d m hm
      refine ⟨Nat.lt_succ_of_lt hd, ?_⟩
      simpa only [connect, AList.lookup_insert_ne (Nat.ne_of_lt hd)] using hc
    case vardiff =>
      intro k hk
      exact (AList.mem_insert _).mpr (.inr (h.vardiff k hk))
  case setupConnection d _ _ =>
    split at hs <;> cases hs
    case isTrue hc =>
      have hm : d ∈ s.connections := Map.mem_iff_lookup.mpr ⟨_, hc⟩
      constructor
      case downstream =>
        intro d' hd'
        exact h.downstream d' (Map.mem_modify.mp hd')
      case connections =>
        intro d' hd'
        exact h.connections d' <| ((AList.mem_insert _).mp hd').elim (· ▸ hm) id
      case receiver =>
        intro d' m hm
        obtain ⟨hd, hc⟩ := h.receiver d' m hm
        refine ⟨hd, ?_⟩
        simp only [setDownstream, Map.lookup_insert_ite]
        split
        · simp
        · exact hc
      case vardiff =>
        intro k hk
        exact Map.mem_modify.mpr (h.vardiff k hk)
  case negotiate =>
    split at hs <;> cases hs
    exact h.of_same (fun _ => Map.mem_modify) rfl rfl (List.Subset.refl _) fun _ => .inl
  case receive d m =>
    split at hs <;> cases hs
    case isTrue hc =>
      refine ⟨h.downstream, h.connections, fun d' m' hm => ?_, h.vardiff⟩
      cases List.mem_append.mp hm
      case inl hm => exact h.receiver d' m' hm
      case inr hm =>
        cases List.mem_singleton.mp hm
        refine ⟨h.connections d (Map.mem_iff_lookup.mpr ⟨_, hc⟩), ?_⟩
        simp [hc]
  case shutdown =>
    split at hs <;> cases hs
    exact h.of_same (fun _ => Iff.rfl) rfl rfl (List.Subset.refl _) fun _ => .inl
  case hangUp d =>
    split at hs <;> cases hs
    refine ⟨h.downstream, fun d' hd' => h.connections d' (AList.mem_erase.mp hd').right,
      fun d' m hm => ?_, h.vardiff⟩
    obtain ⟨hd, hc⟩ := h.receiver d' m hm
    refine ⟨hd, ?_⟩
    simp only [Map.lookup_erase_ite]
    split
    · simp
    · exact hc
  case removeDownstream =>
    split at hs <;> cases hs
    refine ⟨fun d' hd' => h.downstream d' (AList.mem_erase.mp hd').right, h.connections, h.receiver,
      fun k hk => ?_⟩
    obtain ⟨v, hv⟩ := Map.mem_iff_lookup.mp hk
    simp only [ChannelManager.removeDownstream, Map.lookup_retain] at hv
    split at hv
    case isTrue hd =>
      refine AList.mem_erase.mpr ⟨by simpa using hd, h.vardiff k (Map.mem_iff_lookup.mpr ⟨v, hv⟩)⟩
    case isFalse => cases hv
  case downstreamMessage =>
    split at hs <;> cases hs
    case h_2 d m rest hq =>
      have hr : rest ⊆ s.downstreamReceiver := hq ▸ List.subset_cons_self _ _
      have hL : s.manager.Leaving d m (s.manager.exitMiningMessageFromClient cfg d m) :=
        ChannelManager.exitMiningMessageFromClient_leaving hC m
      cases hL
      case inl he =>
        refine h.of_same (fun _ => ?_) ?_ (deliver_connections _) ?_ fun k => ?_
        · rw [deliver_manager, he]
        · rw [deliver_manager, he]
        · rw [deliver_downstreamReceiver]
          exact hr
        · rw [deliver_manager, he]
          exact .inl
      case inr hA =>
        exact h.alters hA (deliver_manager _) (deliver_connections _) (deliver_downstreamReceiver _) hr
  case templateMessage m =>
    cases hs
    cases hm : s.manager.handleTemplateDistributionMessageFromServer m with
    | error => exact h.of_same (fun _ => Iff.rfl) rfl rfl (List.Subset.refl _) fun _ => .inl
    | ok r =>
      have hA := ChannelManager.handleTemplateDistributionMessageFromServer_advances hm
      refine h.of_same hA.mem hA.downstreamIdFactory rfl (List.Subset.refl _) fun k hk => .inl ?_
      rw [deliver_manager] at hk
      exact templates_vardiff hm ▸ hk
  case vardiff =>
    cases hs
    cases hm : s.manager.runVardiff with
    | error => exact h.of_same (fun _ => Iff.rfl) rfl rfl (List.Subset.refl _) fun _ => .inl
    | ok r =>
      have hA := ChannelManager.runVardiff_advances hm
      exact h.of_same hA.mem hA.downstreamIdFactory rfl (List.Subset.refl _) fun k hk =>
        .inl ((runVardiff_mem hm k).mp hk)

theorem attributed_of_run (hC : C.Lawful) (r : (machine C cfg).Run tr s) : s.Attributed := by
  refine r.reachable.invariant (fun s hi => ?_) fun _ _ _ => attributed_step hC
  constructor
  case downstream  => simp [hi.downstream]
  case connections => simp [hi.connections]
  case receiver    => simp [hi.receiver]
  case vardiff     => simp [hi.vardiff]

-- The manager starts a downstream with a number that no vardiff state has.
theorem Attributed.vardiffIds (h : s.Attributed) :
    s.manager.vardiffIds s.manager.downstreamIdFactory = ∅ := by
  ext c
  refine ⟨fun hc => ?_, fun hc => hc.elim⟩
  exact absurd (h.downstream _ (h.vardiff _ hc)) (Nat.lt_irrefl _)

-- The vardiff states are those of the open channels, the ids of a downstream are distinct, and its
-- group channel has recorded its standard channels.
structure Consistent (s : System C) : Prop where
  vardiff  : ∀ d c, (d, c) ∈ s.manager.vardiff ↔
    ∃ D, s.manager.downstream.lookup d = some D ∧ D.Has c
  distinct : ∀ d D, s.manager.downstream.lookup d = some D →
    (∀ c ∈ D.standardChannels, c ∉ D.extendedChannels) ∧
      ∀ g, D.groupChannels = some g → ¬D.Has (C.group.getChannelId g)
  group    : ∀ d D g, s.manager.downstream.lookup d = some D → D.groupChannels = some g →
    ∀ c, c ∈ C.group.getStandardChannelIds g ↔ c ∈ D.standardChannels

end System

namespace Sample

def opened : List Action :=
  [future 1, prevHash 1] ++ connected ++ [.receive 1 openStandard]

end Sample

end Pool
