import StratumApps.Pool.Fanout

open Sv2 Handler StratumCore

namespace Pool

variable {C : StratumCore} {cfg : Config} {d : DownstreamId} {c : ChannelId}

def Action.future? : Action → Option NewTemplate
  | .templateMessage (.newTemplate t) => if t.futureTemplate then some t else none
  | _                                 => none

def Action.prevHash? : Action → Option SetNewPrevHash
  | .templateMessage (.setNewPrevHash p) => some p
  | _                                    => none

namespace System

variable {s s' : System C} {a : Action} {tr : List (Machine.Event (System C) Action)}

theorem step_running (h : s.step cfg a = some s') : s.status = .running ∧ s.act cfg a = some s' := by
  rw [step] at h
  split at h
  case h_1 hr => exact ⟨hr, h⟩
  case h_2    => cases h

-- What holds as long as the pool runs. A handler that fails may leave its data half done.
theorem running_invariant {I : System C → Prop} (hi : ∀ s, (machine C cfg).Init s → I s)
    (hs : ∀ s a s', I s → s.step cfg a = some s' → s'.status = .running → I s')
    (h : (machine C cfg).Reachable s) (hr : s.status = .running) : I s :=
  h.invariant (I := fun s => s.status = .running → I s) (fun s h _ => hi s h)
    (fun s a s' h hst => hs s a s' (h (step_running hst).left) hst) hr

-- What a step may do to the downstreams: each of them is a new one without channels, or has evolved
-- from the one before.
structure Moves (s s' : System C) : Prop where
  downstream : ∀ d D', s'.manager.downstream.lookup d = some D' →
    D' = .new ∨ ∃ D, s.manager.downstream.lookup d = some D ∧
      (∀ c, (D.Has c → (d, c) ∈ s.manager.vardiff) → D'.Has c → (d, c) ∈ s'.manager.vardiff) ∧
      (C.Lawful → s.manager.FutureTemplate → D.Evolves s'.sent d D')
  sent       : s.sent ⊆ s'.sent

theorem Moves.of_same (hd : s'.manager.downstream = s.manager.downstream)
    (hv : s'.manager.vardiff = s.manager.vardiff) (hs : s'.sent = s.sent) : s.Moves s' where
  downstream _ D' h := .inr ⟨D', hd ▸ h, fun _ hc hh => hv ▸ hc hh, fun _ _ => .refl⟩
  sent              := hs ▸ List.Subset.refl _

theorem deliver_moves (queue : List (DownstreamId × Mining)) {e : ChannelManager.Exit C}
    (hr : ({ s with downstreamReceiver := queue }.deliver e).status = .running)
    (h : ∀ m ms, e.returned = .ok (m, ms) → s.manager.Advances ms m) :
    s.Moves ({ s with downstreamReceiver := queue }.deliver e) := by
  obtain ⟨m, ms, he, hd⟩ := deliver_running hr
  rw [hd]
  have hA := h m ms he
  refine ⟨fun d D' hD' => .inr ?_, List.subset_append_left _ _⟩
  have ⟨D, hD, hv, hE⟩ := hA.downstream d D' hD'
  exact ⟨D, hD, hv, fun hC hT => (hE hC hT).mono (List.subset_append_right _ _)⟩

-- The task of a downstream changes its flags and extensions only.
theorem setDownstream_moves (connections : Map DownstreamId Connection)
    {f : Downstream C → Downstream C} (hf : ∀ D, (f D).groupChannels = D.groupChannels ∧
      (f D).standardChannels = D.standardChannels ∧ (f D).extendedChannels = D.extendedChannels) :
    s.Moves ({ s with connections := connections }.setDownstream d f) := by
  refine ⟨fun d' D' hD' => .inr ?_, List.Subset.refl _⟩
  simp only [setDownstream] at hD'
  by_cases hd : d' = d
  case neg =>
    rw [Map.lookup_modify_ne hd] at hD'
    exact ⟨D', hD', fun _ => id, fun _ _ => .refl⟩
  case pos =>
    subst hd
    rw [Map.lookup_modify, Option.map_eq_some_iff] at hD'
    obtain ⟨D, hD, rfl⟩ := hD'
    have ⟨hg, hs, he⟩ := hf D
    refine ⟨D, hD, fun c hc hh => hc ?_, fun _ _ => ⟨fun h => hg ▸ h, fun _ g h => ?_, fun _ => ?_, ?_⟩⟩
    · simpa only [Downstream.Has, hs, he] using hh
    · rw [← hg, h]
      exact .refl
    · simpa only [hs] using JobStore.tells_lookup
    · simpa only [he] using JobStore.tells_lookup

theorem connect_moves : s.Moves s.connect := by
  refine ⟨fun d D' hD' => ?_, List.Subset.refl _⟩
  simp only [connect] at hD'
  rw [Map.lookup_insert_ite] at hD'
  split at hD'
  case isTrue  => exact .inl (Option.some_inj.mp hD').symm
  case isFalse => exact .inr ⟨D', hD', fun _ => id, fun _ _ => .refl⟩

theorem removeDownstream_moves {shutdowns : List DownstreamId} :
    s.Moves { s with manager := s.manager.removeDownstream d, shutdowns := shutdowns } := by
  refine ⟨fun d' D' hD' => .inr ?_, List.Subset.refl _⟩
  simp only [ChannelManager.removeDownstream, Map.lookup_erase_ite] at hD'
  split at hD'
  case isTrue => cases hD'
  case isFalse hd =>
    refine ⟨D', hD', fun c hc hh => ?_, fun _ _ => .refl⟩
    have ⟨v, hv⟩ := Map.mem_iff_lookup.mp (hc hh)
    refine Map.mem_iff_lookup.mpr ⟨v, ?_⟩
    simp [ChannelManager.removeDownstream, Map.lookup_retain, hd, hv]

theorem step_moves (h : s.step cfg a = some s') (hr : s'.status = .running) : s.Moves s' := by
  replace h := (step_running h).right
  cases a <;> simp only [act] at h
  case connect =>
    cases h
    exact connect_moves
  case setupConnection =>
    split at h <;> cases h
    exact setDownstream_moves _ fun _ => ⟨rfl, rfl, rfl⟩
  case negotiate =>
    split at h <;> cases h
    exact setDownstream_moves s.connections fun _ => ⟨rfl, rfl, rfl⟩
  case receive | shutdown | hangUp =>
    split at h <;> cases h
    exact .of_same rfl rfl rfl
  case removeDownstream =>
    split at h <;> cases h
    exact removeDownstream_moves
  case downstreamMessage =>
    split at h <;> cases h
    refine deliver_moves _ hr fun m ms h => ?_
    rw [ChannelManager.exitMiningMessageFromClient_returned] at h
    exact (ChannelManager.handleMiningMessageFromClient_handled h).advances
  case templateMessage =>
    cases h
    refine deliver_moves s.downstreamReceiver hr fun m ms h => ?_
    rw [Exit.returned_ofReturned] at h
    exact ChannelManager.handleTemplateDistributionMessageFromServer_advances h
  case vardiff =>
    cases h
    refine deliver_moves s.downstreamReceiver hr fun m ms h => ?_
    rw [Exit.returned_ofReturned] at h
    exact ChannelManager.runVardiff_advances h

-- Every open channel has its vardiff state.
def Tracked (s : System C) : Prop :=
  ∀ d D c, s.manager.downstream.lookup d = some D → D.Has c → (d, c) ∈ s.manager.vardiff

theorem new_not_has : ¬(Downstream.new : Downstream C).Has c := by
  simp [Downstream.new, Downstream.Has]

theorem tracked_step (h : s.Tracked) (hs : s.step cfg a = some s') (hr : s'.status = .running) :
    s'.Tracked := by
  intro d D' c hD' hh
  cases (step_moves hs hr).downstream d D' hD'
  case inl hn => exact absurd (hn ▸ hh) new_not_has
  case inr hm =>
    have ⟨D, hD, hv, _⟩ := hm
    exact hv c (h d D c hD) hh

theorem tracked_of_reachable (h : (machine C cfg).Reachable s) (hr : s.status = .running) :
    s.Tracked :=
  running_invariant (fun s hi d D c hD => by simp [hi.downstream] at hD)
    (fun _ _ _ => tracked_step) h hr

section Templates

-- The last future template and the last prev hash that the pool has received in a run.
def lastFuture (tr : List (Machine.Event (System C) Action)) : Option NewTemplate :=
  (tr.filterMap fun e => Action.future? e.act).getLast?

def lastPrevHash (tr : List (Machine.Event (System C) Action)) : Option SetNewPrevHash :=
  (tr.filterMap fun e => Action.prevHash? e.act).getLast?

-- The manager keeps the last future template and the last prev hash, as long as it runs.
theorem step_lastFutureTemplate (h : s.step cfg a = some s') (hr : s'.status = .running) :
    s'.manager.lastFutureTemplate = a.future?.or s.manager.lastFutureTemplate ∧
      s'.manager.lastNewPrevHash = a.prevHash?.or s.manager.lastNewPrevHash := by
  replace h := (step_running h).right
  cases a <;> simp only [act] at h
  case connect =>
    cases h
    exact ⟨rfl, rfl⟩
  case vardiff =>
    cases h
    obtain ⟨m, ms, he, hd⟩ := deliver_running hr
    rw [hd]
    rw [Exit.returned_ofReturned] at he
    exact ChannelManager.runVardiff_same he
  case setupConnection | negotiate | receive | shutdown | hangUp | removeDownstream =>
    split at h <;> cases h
    exact ⟨rfl, rfl⟩
  case downstreamMessage =>
    split at h <;> cases h
    obtain ⟨m, ms, he, hd⟩ := deliver_running hr
    rw [hd]
    rw [ChannelManager.exitMiningMessageFromClient_returned] at he
    have hh := ChannelManager.handleMiningMessageFromClient_handled he
    exact ⟨hh.lastFutureTemplate, hh.lastNewPrevHash⟩
  case templateMessage m =>
    cases h
    obtain ⟨_, _, hm, hd⟩ := deliver_running hr
    rw [hd]
    rw [Exit.returned_ofReturned] at hm
    cases m <;> try cases hm
    case newTemplate t =>
      obtain ⟨_, _, _, he⟩ := ChannelManager.handleNewTemplate_cases hm
      cases hf : t.futureTemplate <;> simp [he, Action.future?, Action.prevHash?, hf]
    case setNewPrevHash p =>
      obtain ⟨_, _, he⟩ := ChannelManager.handleSetNewPrevHash_cases hm
      simp [he, Action.future?, Action.prevHash?]
    all_goals exact ⟨rfl, rfl⟩

theorem templates_of_run (r : (machine C cfg).Run tr s) (hr : s.status = .running) :
    s.manager.lastFutureTemplate = lastFuture tr ∧ s.manager.lastNewPrevHash = lastPrevHash tr := by
  obtain ⟨s₀, hi, p⟩ := r
  induction p with
  | nil => exact ⟨hi.lastTemplate, hi.lastNewPrevHash⟩
  | snoc p hs ih =>
    have ⟨hf, hp⟩ := step_lastFutureTemplate hs hr
    have ⟨ihf, ihp⟩ := ih (step_running hs).left
    rw [hf, hp, ihf, ihp]
    simp only [lastFuture, lastPrevHash, List.filterMap_append, List.getLast?_append,
      List.filterMap_cons, List.filterMap_nil]
    constructor <;> split <;> simp_all

theorem future?_future {t : NewTemplate} (h : a.future? = some t) : t.futureTemplate = true := by
  cases a with
  | templateMessage m =>
    cases m <;> simp [Action.future?] at h
    exact h.right ▸ h.left
  | _ => cases h

theorem futureTemplate_of_run (r : (machine C cfg).Run tr s) (hr : s.status = .running) :
    s.manager.FutureTemplate := by
  intro t ht
  rw [(templates_of_run r hr).left, lastFuture, List.getLast?_eq_some_iff] at ht
  obtain ⟨ts, ht⟩ := ht
  have hm : t ∈ tr.filterMap fun e => Action.future? e.act := by simp [ht]
  have ⟨e, _, he⟩ := List.mem_filterMap.mp hm
  exact future?_future he

end Templates

end System

end Pool
