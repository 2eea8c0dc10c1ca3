import StratumApps.Translator.Sv1.Revisions

open Sv2 Handler StratumCore

namespace Translator.Sv1.System

variable {C : Core} {cfg : Config} {s s' : System} {a : Action} {op : ServerOp}

def Manned (s : System) : Prop :=
  ∃ d ∈ s.server.downstreams, (s.objects.lookup d).isSome

-- There is a miner when a round of vardiff has found something to change.
def RoundsManned (s : System) : Prop :=
  s.status = .running →
    ∀ us all immediate, .vardiff us all immediate ∈ s.todo → all ≠ [] → s.Manned

theorem minTarget_isSome (h : s.Manned) : (minTarget s.currentTargets).isSome := by
  obtain ⟨d, hd, ho⟩ := h
  obtain ⟨o, ho⟩ := Option.isSome_iff_exists.mp ho
  have ht : o.data.pendingTarget.getD o.data.target ∈ s.currentTargets :=
    List.mem_filterMap.mpr ⟨d, hd, by simp [ho]⟩
  cases hl : s.currentTargets with
  | nil      => simp [hl] at ht
  | cons _ _ => rfl

theorem exec_running (hs : s.status = .running) (hf : ∀ c, op ≠ .sendFirst c)
    (hv : ∀ us all immediate, op = .vardiff us all immediate → all ≠ [] →
      (minTarget s.currentTargets).isSome) :
    (s.exec C cfg op).status = .running := by
  cases op with
  | takeQueue d c =>
    rw [exec, takeQueue.eq_def]
    split <;> exact hs
  | handleQueued d c m =>
    rw [exec, handleQueued.eq_def]
    split
    case h_1 => exact hs
    case h_2 =>
      dsimp only
      split
      case h_1 hp => exact absurd hp DownstreamData.handleMessage_not_panicked
      case h_2    => exact hs
      case h_3    => exact hs
  | sendFirst c => exact absurd rfl (hf c)
  | setUpstreamTarget d t =>
    rw [exec]
    split <;> exact hs
  | sendPending u =>
    rw [exec]
    cases s.channelIdOf u.downstreamId <;> exact hs
  | forwardTarget d t =>
    rw [exec]
    cases s.channelIdOf d <;> exact hs
  | vardiff us all immediate =>
    cases us with
    | cons u us => exact vardiffRound_todo.right.trans hs
    | nil =>
      rw [exec, handleVardiff]
      split
      case isTrue => exact hs
      case isFalse he =>
        have ht := hv [] all immediate rfl fun h => he (by simp [h])
        obtain ⟨t, ht⟩ := Option.isSome_iff_exists.mp ht
        rw [next, sendUpdateChannelMessages.eq_def]
        split
        case isFalse => exact hs
        case isTrue =>
          split
          case h_1     => exact hs
          case h_2 hn  => cases hn.symm.trans ht
          case h_3     => exact hs
  | _ => exact hs

theorem vardiffRound_manned {h : Hashrate} {u : ChannelId × PendingTargetUpdate}
    (hu : (s.vardiffRound C cfg d h).2.1 = some u) : s.Manned := by
  rw [vardiffRound] at hu
  split at hu
  case h_2 => cases hu
  case h_1 hr _ =>
    obtain ⟨o, ho, _⟩ := Option.bind_eq_some_iff.mp hr
    obtain ⟨hd, ho⟩ := Option.ite_none_right_eq_some.mp ho
    exact ⟨d, hd, by simp [ho]⟩

variable {us : List (DownstreamId × Hashrate)} {immediate : List Envelope}
variable {all : List (ChannelId × PendingTargetUpdate)}

theorem follow_manned (h : .vardiff us all immediate ∈ s.follow C cfg op) (ha : all ≠ [])
    (hv : ∀ us all immediate, op = .vardiff us all immediate → all ≠ [] → s.Manned) : s.Manned := by
  cases spawns_of_mem h with
  | @round d hashrate us all' immediate' =>
    by_cases ha' : all' = []
    case neg => exact hv _ all' _ rfl ha'
    case pos =>
      subst ha'
      obtain ⟨x, hx⟩ := List.exists_mem_of_ne_nil _ ha
      exact vardiffRound_manned (Option.mem_toList.mp hx)

theorem begins_unfound (h : .vardiff us all immediate ∈ s.begins C cfg a) (ht : s.todo = []) :
    all = [] := by
  cases begun_of_mem ht h with
  | tick => rfl

theorem manned_of_step (hm : s.Manned) (h : s.step C cfg a = some s')
    (hs : s'.server.downstreams = s.server.downstreams) : s'.Manned := by
  obtain ⟨d, hd, ho⟩ := hm
  exact ⟨d, hs ▸ hd, lookup_isSome_of_step h ho⟩

theorem roundsManned_step (hm : s.RoundsManned) (h : s.step C cfg a = some s') :
    s'.RoundsManned := by
  intro hr us all immediate hmem ha
  have hr' := running_of_step h hr
  obtain hns | ⟨op, ops, rfl, ht, ht'⟩ | ⟨hne, ht'⟩ := todo_of_step h
  case inl => exact absurd hr hns
  case inr.inl =>
    have hs : s'.server.downstreams = s.server.downstreams := by
      cases server_of_step h with
      | inl hn => cases hn.symm.trans ht
      | inr hs =>
        obtain ⟨_, hs⟩ := hs
        rw [hs]
    rw [ht'] at hmem
    cases List.mem_append.mp hmem with
    | inr hmem => exact manned_of_step (hm hr' us all immediate (ht ▸ .tail op hmem) ha) h hs
    | inl hmem =>
      have hf : s.Manned := follow_manned (s := { s with todo := ops }) hmem ha
        fun us all immediate ho => hm hr' us all immediate (ht ▸ ho ▸ .head ops)
      exact manned_of_step hf h hs
  case inr.inr =>
    rw [ht'] at hmem
    cases List.mem_append.mp hmem with
    | inl hmem => exact absurd (begins_unfound hmem (idle_of_begins hmem h)) ha
    | inr hmem =>
      cases server_of_step h with
      | inl hn => simp [hn] at hmem
      | inr hs =>
        obtain ⟨_, hs⟩ := hs
        exact manned_of_step (hm hr' us all immediate hmem ha) h (by rw [hs])

end Translator.Sv1.System
