import StratumApps.Translator.Sv1.Reference
import StratumApps.Translator.Sv1.Revisions

open Sv2 Handler StratumCore

namespace Translator.Sv1

-- What the upstream has said of the tip of a channel: the last prev hash, and whether there has been
-- no job since.
structure Tip where
  prevHash : Option SetNewPrevHashMp
  fresh    : Bool

-- In aggregated mode there is one channel, whatever the ids.
def isFor (aggregateChannels : Bool) (c c' : ChannelId) : Bool :=
  aggregateChannels || c = c'

def Tip.follow (aggregateChannels : Bool) (c : ChannelId) (t : Tip) : Mining → Tip
  | .setNewPrevHash p       => if isFor aggregateChannels c p.channelId then ⟨some p, true⟩ else t
  | .newExtendedMiningJob m =>
    if isFor aggregateChannels c m.channelId then { t with fresh := false } else t
  | _                       => t

def Action.mining? : Action → Option Mining
  | .upstream m => some m
  | _           => none

variable (C : Core) (cfg : Config)

abbrev Events := List (Machine.Event System Action)

def tip (aggregateChannels : Bool) (c : ChannelId) (tr : Events) : Tip :=
  (tr.filterMap (·.act.mining?)).foldl (.follow aggregateChannels c) ⟨none, false⟩

-- The same for all channels together.
def lastTip (tr : Events) : Tip :=
  tip true 0 tr

-- A `mining.notify` for a channel has the prev hash that the upstream gave last for the channel. The
-- first one since asks the miner to drop its jobs, and is the only valid job of the channel.
def Announces (tr : Events) (e : Machine.Event System Action) : Prop :=
  ∀ m n, e.act = .upstream (.newExtendedMiningJob m) →
    .broadcast ⟨m.channelId, none, .notify n⟩ ∈ e.post.todo →
    ∃ p, (tip cfg.aggregateChannels m.channelId tr).prevHash = some p ∧ n.prevHash = p.prevHash ∧
      ((tip cfg.aggregateChannels m.channelId tr).fresh →
        n.cleanJobs ∧ e.post.server.validJobs (some m.channelId) = [n])

-- The last prev hash for the channel of a job is that of the last prev hash for any, and a job that
-- is the first one since for its channel is the first one since for any.
def Leads (tr : Events) (e : Machine.Event System Action) : Prop :=
  ∀ m p n, e.act = .upstream (.newExtendedMiningJob m) → (lastTip tr).prevHash = some p →
    C.buildSv1NotifyFromSv2 p m (lastTip tr).fresh = some n →
    ∃ p', (tip cfg.aggregateChannels m.channelId tr).prevHash = some p' ∧
      p'.prevHash = p.prevHash ∧
      ((tip cfg.aggregateChannels m.channelId tr).fresh → (lastTip tr).fresh)

-- In aggregated mode that is always so.
theorem leads_aggregated (hc : cfg.aggregateChannels = true) (tr : Events)
    (e : Machine.Event System Action) : Leads C cfg tr e := by
  intro m p n _ hp _
  have ht : tip cfg.aggregateChannels m.channelId tr = lastTip tr := by
    rw [hc, lastTip, tip, tip]
    rfl
  rw [ht]
  exact ⟨p, hp, rfl, id⟩

namespace System

variable {C : Core} {cfg : Config} {s s' : System} {a : Action}

-- What the server keeps of prev hashes and jobs.
def work (s : Sv1Server) :
    Option SetNewPrevHashMp × Bool × Option (List Notify) × Option (Map ChannelId (List Notify)) :=
  (s.prevhash, s.cleanJob, s.aggregatedValidJobs, s.nonAggregatedValidJobs)

-- Prev hashes and jobs change by the two messages of the upstream only.
theorem work_of_step (h : s.step C cfg a = some s')
    (hp : ∀ p, a ≠ .upstream (.setNewPrevHash p)) (hj : ∀ m, a ≠ .upstream (.newExtendedMiningJob m)) :
    work s'.server = work s.server := by
  have hr := revises_of_step h
  generalize s'.server = server at hr
  cases hr with
  | job      => exact absurd rfl (hj _)
  | prevHash => exact absurd rfl (hp _)
  | _        => rfl

-- What the server keeps is what the upstream said last, of whatever channel.
structure Recorded (tr : Events) (s : System) : Prop where
  lists    : s.server.aggregatedValidJobs.isSome ∨ s.server.nonAggregatedValidJobs.isSome
  prevhash : s.status = .running → s.server.prevhash = (lastTip tr).prevHash
  cleanJob : s.status = .running → s.server.prevhash.isSome →
    s.server.cleanJob = (lastTip tr).fresh

theorem recorded_new {aggregateChannels : Bool} : Recorded [] (new aggregateChannels) where
  lists      := by cases aggregateChannels <;> simp [new, Sv1Server.new]
  prevhash _ := rfl
  cleanJob _ := by simp [new, Sv1Server.new]

theorem lastTip_concat {tr : Events} {e : Machine.Event System Action} :
    lastTip (tr ++ [e]) = e.act.mining?.elim (lastTip tr) ((lastTip tr).follow true 0) := by
  rw [lastTip, tip, List.filterMap_append, List.foldl_append]
  cases h : e.act.mining? <;> simp [h, lastTip, tip]

theorem storeJob_lists {c : ChannelId} {n : Notify} {clean : Bool} {s : Sv1Server}
    (h : s.aggregatedValidJobs.isSome ∨ s.nonAggregatedValidJobs.isSome) :
    (s.storeJob c n clean).aggregatedValidJobs.isSome ∨
      (s.storeJob c n clean).nonAggregatedValidJobs.isSome := by
  rw [Sv1Server.storeJob.eq_def]
  dsimp only
  split
  case h_1 => exact .inl rfl
  case h_2 => exact .inr rfl
  case h_3 => exact h

theorem storeJob_validJobs {c : ChannelId} {n : Notify} {s : Sv1Server}
    (h : s.aggregatedValidJobs.isSome ∨ s.nonAggregatedValidJobs.isSome) :
    (s.storeJob c n true).validJobs (some c) = [n] := by
  rw [Sv1Server.storeJob.eq_def]
  dsimp only
  split
  case h_1 => rfl
  case h_2 hn _ => simp [Sv1Server.validJobs, hn, Map.lookup_upsert]
  case h_3 ha hn => simp [ha, hn] at h

theorem recorded_of_work {tr : Events} (hr : Recorded tr s) (h : s.step C cfg a = some s')
    (hw : work s'.server = work s.server) (hm : lastTip (tr ++ [⟨s, a, s'⟩]) = lastTip tr) :
    Recorded (tr ++ [⟨s, a, s'⟩]) s' := by
  obtain ⟨hp, hc, ha, hn⟩ : s'.server.prevhash = s.server.prevhash ∧
      s'.server.cleanJob = s.server.cleanJob ∧
      s'.server.aggregatedValidJobs = s.server.aggregatedValidJobs ∧
      s'.server.nonAggregatedValidJobs = s.server.nonAggregatedValidJobs := by
    simpa [work] using hw
  constructor
  case lists    => simpa [ha, hn] using hr.lists
  case prevhash =>
    intro hs
    rw [hp, hm]
    exact hr.prevhash (running_of_step h hs)
  case cleanJob =>
    intro hs
    rw [hp, hc, hm]
    exact hr.cleanJob (running_of_step h hs)

theorem recorded_step {tr : Events} (hr : Recorded tr s) (h : s.step C cfg a = some s') :
    Recorded (tr ++ [⟨s, a, s'⟩]) s' := by
  by_cases hp : ∃ p, a = .upstream (.setNewPrevHash p)
  case pos =>
    obtain ⟨p, rfl⟩ := hp
    obtain ⟨_, _, rfl⟩ := idle_eq_some h
    exact ⟨hr.lists, fun _ => by rw [lastTip_concat]; rfl, fun _ _ => by rw [lastTip_concat]; rfl⟩
  case neg =>
    by_cases hj : ∃ m, a = .upstream (.newExtendedMiningJob m)
    case neg =>
      refine recorded_of_work hr h ?_ ?_
      case refine_1 => exact work_of_step h (not_exists.mp hp) (not_exists.mp hj)
      case refine_2 =>
        rw [lastTip_concat]
        cases a with
        | upstream m =>
          cases m with
          | newExtendedMiningJob m => exact absurd ⟨m, rfl⟩ hj
          | setNewPrevHash p       => exact absurd ⟨p, rfl⟩ hp
          | _                      => rfl
        | _ => rfl
    case pos =>
      obtain ⟨m, rfl⟩ := hj
      obtain ⟨hs, _, rfl⟩ := idle_eq_some h
      have htip (e : Machine.Event System Action) (he : e.act = .upstream (.newExtendedMiningJob m)) :
          lastTip (tr ++ [e]) = { lastTip tr with fresh := false } := by
        rw [lastTip_concat, he]
        rfl
      have hprev := hr.prevhash hs
      rw [handleUpstreamMessage, handleNewExtendedMiningJob.eq_def]
      split
      case h_1 hn =>
        refine ⟨hr.lists, fun _ => ?_, fun _ h => ?_⟩
        case refine_1 => rw [htip _ rfl, hprev]
        case refine_2 => simp [hn] at h
      case h_2 p hn =>
        split
        case h_1 => exact ⟨hr.lists, fun h => (by simp [fail] at h), fun h => (by simp [fail] at h)⟩
        case h_2 n _ =>
          refine ⟨storeJob_lists hr.lists, fun _ => ?_, fun _ _ => ?_⟩
          case refine_1 => rw [htip _ rfl, next, storeJob_kept.left, hprev]
          case refine_2 => rw [htip _ rfl, next, storeJob_kept.right.right.right.right.right]

theorem recorded_of_run {tr : Events} (r : (machine C cfg).Run tr s) : Recorded tr s := by
  obtain ⟨s₀, rfl, p⟩ := r
  induction p with
  | nil           => exact recorded_new
  | snoc _ hst ih => exact recorded_step ih hst

-- A job is announced right exactly when the upstream said last of its channel what it said last.
theorem announces_iff (hC : C.Lawful) {tr : Events} (hr : Recorded tr s)
    (h : s.step C cfg a = some s') :
    Announces cfg tr ⟨s, a, s'⟩ ↔ Leads C cfg tr ⟨s, a, s'⟩ := by
  by_cases hj : ∃ m, a = .upstream (.newExtendedMiningJob m)
  case neg =>
    exact iff_of_true (fun m _ h => absurd ⟨m, h⟩ hj) (fun m _ _ h => absurd ⟨m, h⟩ hj)
  case pos =>
    obtain ⟨m, rfl⟩ := hj
    obtain ⟨hs, ht, rfl⟩ := idle_eq_some h
    have hprev := hr.prevhash hs
    rw [handleUpstreamMessage, handleNewExtendedMiningJob.eq_def]
    split
    case h_1 hn =>
      rw [hn] at hprev
      refine iff_of_true (fun _ _ _ h => ?_) (fun _ _ _ _ h => ?_)
      case refine_1 => simp [ht] at h
      case refine_2 => cases hprev.trans h
    case h_2 p hn =>
      have hclean := hr.cleanJob hs (by simp [hn])
      rw [hn] at hprev
      split
      case h_1 hb =>
        refine iff_of_true (fun _ _ _ h => ?_) (fun m' p' n' ha hp hb' => ?_)
        case refine_1 => simp [fail] at h
        case refine_2 =>
          cases ha
          cases hprev.trans hp
          rw [hclean] at hb
          cases hb.symm.trans hb'
      case h_2 n hb =>
        obtain ⟨hnp, hnc⟩ := hC.notify _ _ _ _ hb
        rw [hclean] at hb hnc ⊢
        constructor
        case mp =>
          intro hA m' p' n' ha hp hb'
          cases ha
          cases hprev.trans hp
          obtain ⟨p', hp', heq, hf⟩ := hA m n rfl (by simp [next, ht])
          exact ⟨p', hp', heq.symm.trans hnp, fun h => hnc ▸ (hf h).left⟩
        case mpr =>
          intro hL m' n' ha hmem
          cases ha
          have hmem : n' = n := by simpa [next, ht] using hmem
          subst hmem
          obtain ⟨p', hp', heq, hf⟩ := hL m p n' rfl hprev.symm hb
          refine ⟨p', hp', hnp.trans heq.symm, fun h => ?_⟩
          have hf := hf h
          rw [hf] at hnc ⊢
          exact ⟨hnc, storeJob_validJobs hr.lists⟩

end System

theorem announces_iff_leads {C : Core} {cfg : Config} {tr : Events} {s : System} (hC : C.Lawful)
    (r : (machine C cfg).Run tr s) :
    Machine.History (Announces cfg) tr ↔ Machine.History (Leads C cfg) tr :=
  r.history_congr fun _ _ _ _ r h => System.announces_iff hC (System.recorded_of_run r) h

namespace TwoTips

open Reference Reference.Sample

-- The upstream gives each of two channels a prev hash and a job for it.
def tips : List Action :=
  [prevHash 1 7, job 1 1, .serve, prevHash 2 9, job 2 2, .serve]

-- The next job of the first channel goes out with the prev hash of the second.
theorem tips_mixed : ((machine core (config false true)).exec (.new false) tips).any fun s =>
    ((machine core (config false true)).step s (job 1 3)).any fun s' =>
      s'.todo.any fun op => decide (op = .broadcast ⟨1, none, .notify {
        jobId        := "3"
        prevHash     := 9
        coinBase1    := []
        coinBase2    := []
        merkleBranch := []
        version      := 0
        bits         := 0
        time         := 0
        cleanJobs    := false }⟩) := by
  decide +kernel

theorem tips_first : (tip false 1 ((machine core (config false true)).trace (.new false) tips)).prevHash =
    some { channelId := 1, jobId := 1, prevHash := 7, minNtime := 0, nbits := 0 } := by
  decide +kernel

-- The condition, as it can be computed.
def leads (tr : Events) (e : Machine.Event System Action) : Bool :=
  match e.act with
  | .upstream (.newExtendedMiningJob m) =>
    (tip false m.channelId tr).prevHash = (lastTip tr).prevHash &&
      (!(tip false m.channelId tr).fresh || (lastTip tr).fresh)
  | _ => true

theorem leads_of_all {tr : Events} (h : (List.range tr.length).all fun i =>
    tr[i]?.all (leads (tr.take i))) : Machine.History (Leads core (config false true)) tr := by
  rintro tr₁ e tr₂ rfl m p n ha hp _
  have hi := List.all_eq_true.mp h tr₁.length (by simp)
  have he : leads tr₁ e := by simpa using hi
  simp only [leads, ha, Bool.and_eq_true, Bool.or_eq_true, Bool.not_eq_true', decide_eq_true_eq]
    at he
  refine ⟨p, he.left.trans hp, rfl, fun hf => ?_⟩
  exact he.right.resolve_left (Bool.not_eq_false _ ▸ hf)

-- A second prev hash and job for the first channel.
def alternating : List Action :=
  tips ++ [prevHash 1 8, job 1 3, .serve]

theorem alternating_exec : ((machine core (config false true)).exec (.new false) alternating).any
    fun s => (s.server.validJobs (some 1)).map (·.prevHash) = [8] &&
      (s.server.validJobs (some 2)).map (·.prevHash) = [9] := by
  decide +kernel

theorem alternating_leads : (List.range alternating.length).all fun i =>
    ((machine core (config false true)).trace (.new false) alternating)[i]?.all
      (leads (((machine core (config false true)).trace (.new false) alternating).take i)) := by
  decide +kernel

end TwoTips

open Reference Reference.Sample TwoTips in
theorem not_announced : ¬∀ tr s, (machine core (config false true)).Run tr s →
    Machine.History (Announces (config false true)) tr := by
  intro h
  obtain ⟨s, hs, hm⟩ := Option.any_eq_true _ _ |>.mp tips_mixed
  obtain ⟨s', hs', hm⟩ := Option.any_eq_true _ _ |>.mp hm
  obtain ⟨op, hop, hm⟩ := List.any_eq_true.mp hm
  obtain rfl := of_decide_eq_true hm
  have r := (Machine.Run.of_exec (M := machine core (config false true)) rfl hs).snoc hs'
  obtain ⟨p, hp, heq, _⟩ := (Machine.History.snoc.mp (h _ s' r)).right _ _ rfl hop
  obtain rfl := Option.some.inj (tips_first.symm.trans hp)
  exact absurd heq (by decide)

open Reference Reference.Sample TwoTips in
theorem announces_sample : ∃ tr s, (machine core (config false true)).Run tr s ∧
    (s.server.validJobs (some 1)).map (·.prevHash) = [8] ∧
    (s.server.validJobs (some 2)).map (·.prevHash) = [9] ∧
    Machine.History (Announces (config false true)) tr := by
  obtain ⟨s, hs, h⟩ := Option.any_eq_true _ _ |>.mp alternating_exec
  simp only [Bool.and_eq_true, decide_eq_true_eq] at h
  have r : (machine core (config false true)).Run _ s := .of_exec rfl hs
  exact ⟨_, s, r, h.left, h.right,
    (announces_iff_leads core_lawful r).mpr (leads_of_all alternating_leads)⟩

end Translator.Sv1
