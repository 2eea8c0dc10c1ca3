import StratumApps.Pool.Answers

open Sv2 Handler StratumCore

namespace Pool

variable {C : StratumCore} {cfg : Config} {d : DownstreamId} {c : ChannelId} {m : Mining}

namespace ChannelManager

variable {s s' : ChannelManager C} {messages : List RouteMessageTo}

-- The one message that needs no downstream: a custom job without a payout to the pool.
def Tolerated (C : StratumCore) (cfg : Config) : Mining → Prop
  | .setCustomMiningJob msg =>
    ∃ outputs, C.consensusDecode msg.coinbaseTxOutputs.1 = .ok outputs ∧
      ∀ output ∈ outputs, output.scriptPubkey ≠ cfg.coinbaseRewardScript
  | _ => False

theorem handleSetCustomMiningJob_removed {msg : SetCustomMiningJob}
    {r : ChannelManager C × List RouteMessageTo} (hd : s.downstream.lookup d = none) :
    s.handleSetCustomMiningJob cfg d msg = .ok r ↔
      (∃ outputs, C.consensusDecode msg.coinbaseTxOutputs.1 = .ok outputs ∧
        ∀ output ∈ outputs, output.scriptPubkey ≠ cfg.coinbaseRewardScript) ∧
        r = (s, [setCustomMiningJobError d msg "pool-payout-script-missing"]) := by
  simp only [handleSetCustomMiningJob, bind_eq_ok, ofExcept_eq_ok, hd]
  constructor
  · rintro ⟨outputs, ho, h⟩
    split at h
    case isTrue hp => exact ⟨⟨outputs, ho, by simpa using hp⟩, (pure_eq_ok.mp h).symm⟩
    case isFalse   => simp [bind_eq_ok] at h
  · rintro ⟨⟨outputs, ho, hp⟩, rfl⟩
    refine ⟨outputs, ho, ?_⟩
    rw [if_pos (by simpa using hp)]
    rfl

theorem handle_of_removed {r : ChannelManager C × List RouteMessageTo}
    (hd : s.downstream.lookup d = none) (h : s.handleMiningMessageFromClient cfg d m = .ok r) :
    Tolerated C cfg m ∧ r.1 = s := by
  cases m
  case setCustomMiningJob =>
    have ⟨ht, hr⟩ := (handleSetCustomMiningJob_removed hd).mp h
    exact ⟨ht, by rw [hr]⟩
  -- Every other handler looks the downstream up before anything else.
  all_goals simp only [handleMiningMessageFromClient, handleOpenStandardMiningChannel,
    handleOpenExtendedMiningChannel, handleUpdateChannel, handleCloseChannel,
    handleSubmitSharesStandard, handleSubmitSharesExtended, getNegotiatedExtensionsWithClient,
    bind_eq_ok, orErr_eq_ok, expect_eq_ok, throw_eq_ok, hd, Option.map_none, reduceCtorEq,
    false_and, exists_false] at h

theorem handle_tolerated (hd : s.downstream.lookup d = none) (h : Tolerated C cfg m) :
    ∃ messages, s.handleMiningMessageFromClient cfg d m = .ok (s, messages) := by
  cases m
  case setCustomMiningJob => exact ⟨_, (handleSetCustomMiningJob_removed hd).mpr ⟨h, rfl⟩⟩
  all_goals exact h.elim

end ChannelManager

namespace System

variable {s s' : System C} {a : Action} {e : Machine.Event (System C) Action}
variable {tr : List (Machine.Event (System C) Action)}

-- The manager takes the message of a downstream that it has already removed.
def TakesStale (s : System C) (a : Action) (m : Mining) : Prop :=
  a = .downstreamMessage ∧ ∃ d rest, s.downstreamReceiver = (d, m) :: rest ∧
    d ∉ s.manager.downstream

-- The pool goes on, and serves every downstream as before.
def Serves (e : Machine.Event (System C) Action) : Prop :=
  e.post.status = .running ∧ e.post.manager.downstream = e.pre.manager.downstream

theorem serves_iff (hs : s.step cfg a = some s') (ht : s.TakesStale a m) :
    Serves ⟨s, a, s'⟩ ↔ ChannelManager.Tolerated C cfg m := by
  obtain ⟨rfl, d, rest, hq, hd⟩ := ht
  obtain ⟨hr, ha⟩ := step_running hs
  rw [← AList.lookup_eq_none] at hd
  simp only [act, hq, Option.some_inj] at ha
  subst ha
  constructor
  · rintro ⟨h, _⟩
    obtain ⟨manager, messages, hm, _⟩ := deliver_running h
    rw [ChannelManager.exitMiningMessageFromClient_returned] at hm
    exact (ChannelManager.handle_of_removed hd hm).left
  · intro h
    obtain ⟨messages, hm⟩ := ChannelManager.handle_tolerated hd h
    rw [← ChannelManager.exitMiningMessageFromClient_returned] at hm
    rw [deliver_ok hm]
    exact ⟨hr, rfl⟩

-- However the removals of downstreams and their queued messages fall, the pool goes on if and only
-- if each message of a removed downstream is one that needs no downstream.
theorem stale_served_iff (r : (machine C cfg).Run tr s) :
    (∀ e ∈ tr, ∀ m, e.pre.TakesStale e.act m → Serves e) ↔
      ∀ e ∈ tr, ∀ m, e.pre.TakesStale e.act m → ChannelManager.Tolerated C cfg m :=
  forall₂_congr fun _ he => forall₂_congr fun _ ht => serves_iff (r.step_of_mem he) ht

end System

namespace Sample

-- A downstream sends a message and is removed before the manager takes it.
def removed (m : Mining) : List Action :=
  connected ++ [.receive 1 m, .shutdown 1, .removeDownstream]

theorem exists_of_removed {m : Mining} {p : System reference → Bool}
    (h : (((machine reference config).exec start (removed m)).any fun s =>
      s.downstreamReceiver = [(1, m)] && (s.manager.downstream.lookup 1).isNone &&
        ((machine reference config).step s .downstreamMessage).any p) = true) :
    ∃ s s', (machine reference config).exec start (removed m) = some s ∧
      s.step config .downstreamMessage = some s' ∧ p s' = true ∧
        s.TakesStale .downstreamMessage m ∧ ∀ m', s.TakesStale .downstreamMessage m' → m' = m := by
  obtain ⟨s, hs, h⟩ := Option.any_eq_true _ _ |>.mp h
  simp only [Bool.and_eq_true, decide_eq_true_eq, Option.isNone_iff_eq_none] at h
  obtain ⟨⟨hq, hd⟩, h⟩ := h
  obtain ⟨s', hs', h⟩ := Option.any_eq_true _ _ |>.mp h
  refine ⟨s, s', hs, hs', h, ⟨rfl, 1, [], hq, AList.lookup_eq_none.mp hd⟩, fun m' ht => ?_⟩
  obtain ⟨_, d, rest, hq', _⟩ := ht
  cases hq.symm.trans hq'
  rfl

def goodbye : Mining :=
  .closeChannel ⟨1, "bye"⟩

theorem goodbye_exec : (((machine reference config).exec start (removed goodbye)).any fun s =>
    s.downstreamReceiver = [(1, goodbye)] && (s.manager.downstream.lookup 1).isNone &&
      ((machine reference config).step s .downstreamMessage).any fun s' =>
        s'.status ≠ .running) = true := by
  decide +kernel

-- A custom job that pays nobody.
def unpaid : SetCustomMiningJob :=
  { noOutputs with coinbaseTxOutputs := fit (reference.consensusEncode [⟨0, []⟩]) }

theorem unpaid_exec :
    (((machine reference config).exec start (removed (.setCustomMiningJob unpaid))).any fun s =>
      s.downstreamReceiver = [(1, .setCustomMiningJob unpaid)] &&
        (s.manager.downstream.lookup 1).isNone &&
          ((machine reference config).step s .downstreamMessage).any fun _ => true) = true := by
  decide +kernel

theorem unpaid_tolerated : ChannelManager.Tolerated reference config (.setCustomMiningJob unpaid) :=
  ⟨[⟨0, []⟩], by decide +kernel, by simp [config]⟩

theorem unpaid_quiet :
    ((machine reference config).trace start (removed (.setCustomMiningJob unpaid))).all
      (·.act ≠ .downstreamMessage) := by
  decide +kernel

theorem goodbye_stops : ∃ tr s, (machine reference config).Run tr s ∧ ∃ e ∈ tr, ∃ m,
    e.pre.TakesStale e.act m ∧ ¬System.Serves e := by
  obtain ⟨s, s', hs, hs', hn, ht, _⟩ := exists_of_removed goodbye_exec
  exact ⟨_, s', (Machine.Run.of_exec start_init hs).snoc hs', _, List.mem_concat_self, _, ht,
    fun hS => of_decide_eq_true hn hS.left⟩

end Sample

open Sample in
theorem not_stale_served : ¬∀ tr s, (machine reference config).Run tr s →
    ∀ e ∈ tr, ∀ m, e.pre.TakesStale e.act m → System.Serves e := by
  intro h
  have ⟨tr, s, r, e, he, m, ht, hS⟩ := goodbye_stops
  exact hS (h tr s r e he m ht)

open Sample in
theorem stale_served_iff_sample : (∃ tr s, (machine reference config).Run tr s ∧
    ¬∀ e ∈ tr, ∀ m, e.pre.TakesStale e.act m → ChannelManager.Tolerated reference config m) ∧
    ∃ tr s, (machine reference config).Run tr s ∧ (∃ e ∈ tr, ∃ m, e.pre.TakesStale e.act m) ∧
      ∀ e ∈ tr, ∀ m, e.pre.TakesStale e.act m → System.Serves e := by
  constructor
  case left =>
    have ⟨tr, s, r, e, he, m, ht, hS⟩ := goodbye_stops
    exact ⟨tr, s, r, fun h => hS <| (System.stale_served_iff r).mpr h e he m ht⟩
  case right =>
    obtain ⟨s, s', hs, hs', _, ht, hu⟩ := exists_of_removed unpaid_exec
    have r : (machine reference config).Run _ s' := (Machine.Run.of_exec start_init hs).snoc hs'
    refine ⟨_, s', r, ⟨_, List.mem_concat_self, _, ht⟩, (System.stale_served_iff r).mpr ?_⟩
    intro e he m htm
    obtain he | he := List.mem_append.mp he
    · exact absurd htm.left (by simpa using List.all_eq_true.mp unpaid_quiet e he)
    · cases List.mem_singleton.mp he
      exact hu m htm ▸ unpaid_tolerated

end Pool
