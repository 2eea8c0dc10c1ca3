import StratumApps.Translator.Sv1.Reference

open Sv2 Handler StratumCore

namespace Translator.Sv1

-- A downstream that takes a `mining.notify` or a `mining.set_difficulty` as its own has the channel
-- that the message is for.
def Routed (e : Machine.Event System Action) : Prop :=
  ∀ d o m ms, e.act = .receive d → e.pre.objects.lookup d = some o → o.received = m :: ms →
    m.message.isNotification → o.data.accepts m → o.data.channelId = some m.channelId

-- The upstream neither grants the channel 0 nor sends a job for it.
def avoidsZero : Action → Bool
  | .upstream (.openExtendedMiningChannelSuccess m) => m.channelId ≠ 0
  | .upstream (.newExtendedMiningJob m)             => m.channelId ≠ 0
  | _                                               => true

def ServerOp.Named : ServerOp → Prop
  | .setChannel _ m        => m.channelId ≠ 0
  | .takeQueue _ c         => c ≠ 0
  | .handleQueued _ c _    => c ≠ 0
  | .sendFirst c           => c ≠ 0
  | .broadcast e           => e.channelId ≠ 0
  | .vardiff _ _ immediate => ∀ e ∈ immediate, e.channelId ≠ 0
  | _                      => True

namespace System

variable {C : Core} {cfg : Config} {s s' : System} {d : DownstreamId} {o o' : Downstream}
variable {a : Action} {op : ServerOp}

-- The channel 0 is nowhere.
structure AllNamed (s : System) : Prop where
  channelId : ∀ d o, s.objects.lookup d = some o → o.data.channelId ≠ some 0
  received  : ∀ d o, s.objects.lookup d = some o → ∀ e ∈ o.received, e.channelId ≠ 0
  todo      : s.status = .running → ∀ op ∈ s.todo, op.Named

theorem setDifficulty_channelId {c : ChannelId} {d : Option DownstreamId} {t : Target}
    {e : Envelope} (h : e ∈ setDifficulty C c d t) : e.channelId = c := by
  rw [setDifficulty] at h
  split at h
  case isTrue =>
    cases List.mem_singleton.mp h
    rfl
  case isFalse => cases h

theorem AllNamed.channelIdOf (h : s.AllNamed) {c : ChannelId} (hc : s.channelIdOf d = some c) :
    c ≠ 0 := by
  obtain ⟨_, o, ho, hc⟩ := channelIdOf_eq_some.mp hc
  rintro rfl
  exact h.channelId d o ho hc

theorem vardiffRound_named (hn : s.AllNamed) {h : Hashrate} {e : Envelope}
    (he : e ∈ (s.vardiffRound C cfg d h).2.2) : e.channelId ≠ 0 := by
  rw [vardiffRound] at he
  split at he
  case h_2 => cases he
  case h_1 r t ho _ =>
    obtain ⟨o, hg, hc⟩ := Option.bind_eq_some_iff.mp ho
    obtain ⟨c, hoc, rfl⟩ := Option.map_eq_some_iff.mp hc
    have hc : s.channelIdOf d = some c := by simp [System.channelIdOf, hg, hoc]
    dsimp only at he
    rw [vardiffUpdate] at he
    split at he
    case isTrue =>
      rw [setDifficulty_channelId he]
      exact hn.channelIdOf hc
    case isFalse => cases he

theorem setDifficulty_named (hn : s.AllNamed) {c : ChannelId} (hc : s.channelIdOf d = some c)
    {t : Target} {e : Envelope} (he : e ∈ setDifficulty C c (some d) t) : e.channelId ≠ 0 := by
  rw [setDifficulty_channelId he]
  exact hn.channelIdOf hc

theorem follow_named (hn : s.AllNamed) (ho : op.Named) : ∀ op' ∈ s.follow C cfg op, op'.Named := by
  intro op' h
  cases spawns_of_mem h with
  | processing      => trivial
  | queued _        => exact ho
  | answered _ _    => exact ho
  | first           => exact ho
  | applied _       => trivial
  | pending hc he   => exact setDifficulty_named hn hc he
  | forwarded hc he => exact setDifficulty_named hn hc he
  | immediate he    => exact ho _ he
  | round =>
    intro e he
    cases List.mem_append.mp he with
    | inl he => exact ho e he
    | inr he => exact vardiffRound_named hn he

theorem begins_named (ha : avoidsZero a) (hs : s.step C cfg a = some s') :
    ∀ op ∈ s.begins C cfg a, op.Named := by
  intro op h
  cases begun_of_mem (idle_of_begins h hs) h with
  | @setChannel m | @takeQueue m | @sendFirst m | @notify m =>
    have hm : m.channelId ≠ 0 := of_decide_eq_true ha
    exact hm
  | setUpstreamTarget | takePending | forwardTarget => trivial
  | tick =>
    intro e he
    cases he

theorem allNamed_step (hn : s.AllNamed) (ha : avoidsZero a) (h : s.step C cfg a = some s') :
    s'.AllNamed where
  channelId d o' ho' := by
    obtain ⟨_, _, rfl⟩ | ⟨o, ho, he⟩ := evolves_of_step h ho'
    case inl => simp [Downstream.new, DownstreamData.new]
    case inr =>
      obtain hc | ⟨m, ops, rfl, ht, hc⟩ := evolves_channelId he
      case inl => exact hc ▸ hn.channelId d o ho
      case inr =>
        obtain ⟨_, _, _, hr, _⟩ := serve_eq_some h
        have hm : m.channelId ≠ 0 := hn.todo hr (.setChannel d m) (ht ▸ List.mem_cons_self)
        rw [hc]
        exact fun hz => hm (Option.some.inj hz)
  received d o' ho' := by
    intro e hr
    obtain ⟨_, _, rfl⟩ | ⟨o, ho, he⟩ := evolves_of_step h ho'
    case inl => cases hr
    case inr =>
      obtain hr | ⟨ops, rfl, ht⟩ := evolves_received he hr
      case inl => exact hn.received d o ho e hr
      case inr =>
        obtain ⟨_, _, _, hs, _⟩ := serve_eq_some h
        exact hn.todo hs (.broadcast e) (ht ▸ List.mem_cons_self)
  todo hs := by
    obtain hns | ⟨op, ops, rfl, ht, ht'⟩ | ⟨hne, ht'⟩ := todo_of_step h
    case inl => exact absurd hs hns
    case inr.inl =>
      obtain ⟨_, _, _, hr, _⟩ := serve_eq_some h
      have htodo := hn.todo hr
      rw [ht] at htodo
      obtain ⟨hop, hops⟩ := List.forall_mem_cons.mp htodo
      rw [ht']
      have hn' : AllNamed { s with todo := ops } := ⟨hn.channelId, hn.received, fun _ => hops⟩
      exact List.forall_mem_append.mpr ⟨follow_named hn' hop, hops⟩
    case inr.inr =>
      rw [ht']
      exact List.forall_mem_append.mpr ⟨begins_named ha h, hn.todo (running_of_step h hs)⟩

theorem allNamed_new {aggregateChannels : Bool} : (new aggregateChannels).AllNamed where
  channelId _ _ h := by cases h
  received _ _ h  := by cases h
  todo _ _ h      := by cases h

end System

variable {C : Core} {cfg : Config} {tr : List (Machine.Event System Action)} {s : System}

theorem routed_of_run (r : (machine C cfg).Run tr s)
    (hc : Machine.Along (fun _ a => avoidsZero a) tr) : ∀ e ∈ tr, Routed e := by
  intro e he d o m ms _ ho hr _ ha
  have init (s : System) (h : (machine C cfg).Init s) : s.AllNamed := by
    cases h
    exact System.allNamed_new
  have hn := (r.invariant_of_mem init (fun _ _ _ hi ha h => System.allNamed_step hi ha h) hc he).left
  have hm : m.channelId ≠ 0 := hn.received d o ho m (hr ▸ List.mem_cons_self)
  simpa [DownstreamData.accepts, hm] using (Bool.and_eq_true_iff.mp ha).left

namespace ChannelZero

open Reference Reference.Sample

-- The upstream grants the first of two miners a channel.
def granted (channelId : ChannelId) : List Action :=
  connect 1 ⟨1, .subscribe⟩ ++ connect 2 ⟨1, .subscribe⟩ ++ [success 1 channelId] ++ serve 7

-- The next message of the server is none for the channel of the miner, which takes it nevertheless.
def misroutes (d : DownstreamId) (s : System) : Bool :=
  (s.objects.lookup d).any (fun o => o.received.head?.any fun m => m.message.isNotification &&
    o.data.accepts m && o.data.channelId ≠ some m.channelId) &&
      (s.step core (config false true) (.receive d)).isSome

theorem misroutes_sound {d : DownstreamId} {s : System} (h : misroutes d s) :
    ∃ s', (machine core (config false true)).step s (.receive d) = some s' ∧
      ¬Routed ⟨s, .receive d, s'⟩ := by
  obtain ⟨h, hs⟩ := Bool.and_eq_true_iff.mp h
  obtain ⟨s', hs⟩ := Option.isSome_iff_exists.mp hs
  obtain ⟨o, ho, h⟩ := Option.any_eq_true _ _ |>.mp h
  obtain ⟨m, hm, h⟩ := Option.any_eq_true _ _ |>.mp h
  obtain ⟨h, hne⟩ := Bool.and_eq_true_iff.mp h
  obtain ⟨hn, ha⟩ := Bool.and_eq_true_iff.mp h
  obtain ⟨ms, hms⟩ := List.head?_eq_some_iff.mp hm
  exact ⟨s', hs, fun hr => of_decide_eq_true hne (hr d o m ms rfl ho hms hn ha)⟩

theorem granted_misroutes : ((machine core (config false true)).exec (.new false)
    (granted 0 ++ [.receive 2])).any (misroutes 2) := by
  decide +kernel

-- With another channel id the first miner takes its `mining.notify`, and the second one nothing.
def served : List Action :=
  granted 5 ++ [prevHash 5 7, job 5 1] ++ serve 1 ++
    [.receive 2, .receive 2, .receive 2, .receive 1] ++ goOn 1 1 ++ [.receive 1, .receive 1]

theorem served_exec : ((machine core (config false true)).exec (.new false) served).any fun s =>
    (s.objects.lookup 1).any (·.data.cachedNotify.isSome) ∧
      (s.objects.lookup 2).any (·.data.cachedNotify.isNone) := by
  decide +kernel

theorem served_avoidsZero : served.all avoidsZero := by
  decide +kernel

end ChannelZero

open Reference Reference.Sample ChannelZero in
theorem not_routed : ¬∀ tr s, (machine core (config false true)).Run tr s → ∀ e ∈ tr, Routed e := by
  intro h
  obtain ⟨s, hs, hm⟩ := Option.any_eq_true _ _ |>.mp granted_misroutes
  obtain ⟨s', hst, hr⟩ := misroutes_sound hm
  have r := (Machine.Run.of_exec (M := machine core (config false true)) rfl hs).snoc hst
  exact hr (h _ _ r _ List.mem_concat_self)

open Reference Reference.Sample ChannelZero in
theorem routed_sample : ∃ tr s, (machine core (config false true)).Run tr s ∧
    (s.objects.lookup 1).any (·.data.cachedNotify.isSome) ∧ ∀ e ∈ tr, Routed e := by
  obtain ⟨s, hs, hn⟩ := Option.any_eq_true _ _ |>.mp served_exec
  have r := Machine.Run.of_exec (M := machine core (config false true)) rfl hs
  refine ⟨_, s, r, (of_decide_eq_true hn).left, routed_of_run r fun e he => ?_⟩
  exact List.all_eq_true.mp served_avoidsZero _ (Machine.act_of_mem_trace he)

end Translator.Sv1
