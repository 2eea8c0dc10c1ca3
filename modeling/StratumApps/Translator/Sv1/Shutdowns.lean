import StratumApps.Lib.Broadcast
import StratumApps.Translator.Sv1.Reference
import StratumApps.Translator.Sv1.Tasks

open Sv2 Handler StratumCore

namespace Translator.Sv1

-- The SV1 side with the way of the notice that a miner has disconnected: the tasks that have ended of
-- themselves report it, the main loop sends the notice on, and the server and the tasks of all miners
-- receive it. Of a receiver its position is kept.
structure Shutdowns where
  sv1      : System
  statuses : List DownstreamId
  notices  : Broadcast DownstreamId
  server   : ℕ
  tasks    : Map DownstreamId ℕ

namespace Shutdowns

inductive Action
  | sv1 (a : Sv1.Action)
  | main
  | server
  | task (d : DownstreamId)
  deriving DecidableEq

-- `broadcast::channel(1)` holds one notice.
def new (aggregateChannels : Bool) : Shutdowns where
  sv1      := .new aggregateChannels
  statuses := []
  notices  := ⟨1, []⟩
  server   := 0
  tasks    := ∅

section Defs

variable (C : Core) (cfg : Config) (s : Shutdowns)

def runs (s : System) (d : DownstreamId) : Bool :=
  (s.objects.lookup d).any (·.runs)

-- A task that ends by an error reports its miner.
def reported (t : System) : Sv1.Action → List DownstreamId
  | .task d | .receive d | .stop d => if runs s.sv1 d ∧ !runs t d then [d] else []
  | _                              => []

-- The task of a new miner subscribes.
def subscribed : Sv1.Action → Map DownstreamId ℕ
  | .accept => s.tasks.insert s.sv1.server.downstreamIdFactory s.notices.sent.length
  | _       => s.tasks

def isNotice : Sv1.Action → Bool
  | .downstreamShutdown _ | .fallback => true
  | _                                 => false

def withSv1 (t : Option System) : Option Shutdowns :=
  t.map fun t => { s with sv1 := t }

-- The server does not mind that it has lagged behind. A task ends at it as at its own notice, and
-- reports nothing then.
def step : Action → Option Shutdowns
  | .sv1 a  =>
    if isNotice a then none
    else (s.sv1.step C cfg a).map fun t => { s with
      sv1      := t
      statuses := s.statuses ++ s.reported t a
      tasks    := s.subscribed a }
  | .main   =>
    match s.statuses with
    | []      => none
    | d :: ds => some { s with statuses := ds, notices := s.notices.send d }
  | .server =>
    match s.notices.recv s.server with
    | (.empty, _)       => none
    | (.lagged, next)   => { s with server := next }.withSv1 (s.sv1.idle s.sv1)
    | (.value d, next)  => { s with server := next }.withSv1 (s.sv1.step C cfg (.downstreamShutdown d))
  | .task d => (s.tasks.lookup d).bind fun next =>
    match s.notices.recv next with
    | (.empty, _)       => none
    | (.lagged, next)   => { s with tasks := s.tasks.insert d next }.withSv1
      (s.sv1.step C cfg (.stop d))
    | (.value d', next) => { s with tasks := s.tasks.insert d next }.withSv1 <|
      (s.sv1.step C cfg (.stop d)).map fun t => if d' = d then t else s.sv1

end Defs

def machine (C : Core) (cfg : Config) : Machine Shutdowns Action where
  Init s := s = .new cfg.aggregateChannels
  step   := step C cfg

-- Exactly one miner has gone from the maps of the server.
structure Removed (d : DownstreamId) (server server' : Sv1Server) : Prop where
  downstreams : d ∉ server'.downstreams
  vardiff     : d ∉ server'.vardiff
  requests    : ∀ r, server'.requestIdToDownstreamId.lookup r ≠ some d
  others      : ∀ d', d' ≠ d → (d' ∈ server'.downstreams ↔ d' ∈ server.downstreams) ∧
    (d' ∈ server'.vardiff ↔ d' ∈ server.vardiff) ∧
    ∀ r, server'.requestIdToDownstreamId.lookup r = some d' ↔
      server.requestIdToDownstreamId.lookup r = some d'

-- The server misses no notice and removes the miner that it names, and a notice ends no task but that
-- of the miner that it names.
structure Prompt (e : Machine.Event Shutdowns Action) : Prop where
  heard   : e.act = .server → (e.pre.notices.recv e.pre.server).1 ≠ .lagged
  removed : ∀ d, e.act = .server → (e.pre.notices.recv e.pre.server).1 = .value d →
    Removed d e.pre.sv1.server e.post.sv1.server
  kept    : ∀ d next, e.act = .task d → e.pre.tasks.lookup d = some next → runs e.post.sv1 d = false →
    (e.pre.notices.recv next).1 = .value d

-- A notice is sent when all have received the last one, and the server removes a miner that has no
-- open request.
structure Spaced (s : Shutdowns) (a : Action) : Prop where
  server   : a = .main → s.server = s.notices.sent.length
  tasks    : ∀ d next, a = .main → s.tasks.lookup d = some next → runs s.sv1 d →
    next = s.notices.sent.length
  requests : ∀ d r, a = .server → (s.notices.recv s.server).1 = .value d →
    s.sv1.server.requestIdToDownstreamId.lookup r ≠ some d

variable {C : Core} {cfg : Config} {s s' : Shutdowns} {a : Action}

-- All have what they are to receive next.
structure CaughtUp (cfg : Config) (s : Shutdowns) : Prop where
  capacity : s.notices.capacity = 1
  fresh    : s.sv1.Staged
  server   : s.notices.oldest ≤ s.server
  tasks    : ∀ d next, s.tasks.lookup d = some next → runs s.sv1 d → s.notices.oldest ≤ next
  vardiff  : cfg.enableVardiff = false → s.sv1.server.vardiff = []

theorem caughtUp_new : (new cfg.aggregateChannels).CaughtUp cfg where
  capacity     := rfl
  fresh        := System.staged_new
  server       := Nat.le_refl 0
  tasks _ _ h  := by cases h
  vardiff _    := rfl

section Frames

variable {t t' : System} {d : DownstreamId} {b : Sv1.Action}

theorem runs_of_step (h : t.step C cfg b = some t') (hr : runs t' d) :
    (b = .accept ∧ d = t.server.downstreamIdFactory) ∨ runs t d := by
  obtain ⟨o', ho', hr⟩ := Option.any_eq_true _ _ |>.mp hr
  obtain ⟨hb, hd, _⟩ | ⟨o, ho, he⟩ := System.evolves_of_step h ho'
  case inl => exact .inl ⟨hb, hd⟩
  case inr => exact .inr (Option.any_eq_true _ _ |>.mpr ⟨o, ho, System.evolves_runs he hr⟩)

theorem storeJob_vardiff {server : Sv1Server} {c : ChannelId} {n : Notify} {clean : Bool} :
    (server.storeJob c n clean).vardiff = server.vardiff := by
  rw [Sv1Server.storeJob.eq_def]
  dsimp only
  split <;> rfl

-- Without vardiff there are no vardiff states.
theorem vardiff_of_step (hv : cfg.enableVardiff = false) (hn : t.server.vardiff = [])
    (h : t.step C cfg b = some t') : t'.server.vardiff = [] := by
  cases b with
  | accept =>
    obtain ⟨_, _, rfl⟩ := System.idle_eq_some h
    simp [System.accept, hv, hn]
  | downstreamShutdown d =>
    obtain ⟨_, _, rfl⟩ := System.idle_eq_some h
    simp [System.downstreamShutdown_server, hv, hn]
  | fallback =>
    obtain ⟨_, _, rfl⟩ := System.idle_eq_some h
    simp [System.fallback, hv, hn]
  | upstream m =>
    have hr := System.revises_of_step h
    generalize t'.server = server at hr
    cases hr with
    | job => exact storeJob_vardiff.trans hn
    | _   => exact hn
  | _ =>
    have hr := System.revises_of_step h
    generalize t'.server = server at hr
    cases hr <;> exact hn

end Frames

-- The receivers that a step leaves where they are.
theorem caughtUp_of_sv1 {t : System} {b : Sv1.Action} (hs : s.CaughtUp cfg)
    (h : s.sv1.step C cfg b = some t) (hn : b ≠ .accept) : { s with sv1 := t }.CaughtUp cfg where
  capacity := hs.capacity
  fresh    := System.staged_step hs.fresh h
  server   := hs.server
  tasks d next hd hr := by
    obtain ⟨hb, _⟩ | hr := runs_of_step h hr
    case inl => exact absurd hb hn
    case inr => exact hs.tasks d next hd hr
  vardiff hv := vardiff_of_step hv (hs.vardiff hv) h

theorem recv_oldest {b : Broadcast DownstreamId} {n : ℕ} (h : b.oldest ≤ n) :
    b.oldest ≤ (b.recv n).2 := by
  obtain ⟨hr, _⟩ | ⟨hr, _⟩ | ⟨a, hr, _⟩ := b.recv_cases n
  case inl     => rw [hr]
  case inr.inl =>
    rw [hr]
    exact h
  case inr.inr =>
    rw [hr]
    exact Nat.le_succ_of_le h

theorem recv_of_caughtUp {b : Broadcast DownstreamId} {n : ℕ} (h : b.oldest ≤ n) :
    (b.recv n).1 ≠ .lagged := by
  obtain ⟨_, hlt⟩ | ⟨hr, _⟩ | ⟨a, hr, _⟩ := b.recv_cases n
  case inl     => exact absurd h (Nat.not_le.mpr hlt)
  case inr.inl => simp [hr]
  case inr.inr => simp [hr]

-- The server has taken a notice, or found that it has lagged behind.
theorem server_eq_some (h : s.step C cfg .server = some s') : ∃ t,
    s' = { s with sv1 := t, server := (s.notices.recv s.server).2 } ∧
      ((s.notices.recv s.server).1 = .lagged ∧ t = s.sv1 ∨
        ∃ d, (s.notices.recv s.server).1 = .value d ∧
          s.sv1.step C cfg (.downstreamShutdown d) = some t) := by
  rw [step] at h
  split at h
  case h_1 => cases h
  case h_2 next hr =>
    obtain ⟨t, ht, rfl⟩ := Option.map_eq_some_iff.mp h
    obtain ⟨_, _, rfl⟩ := System.idle_eq_some ht
    exact ⟨s.sv1, by rw [hr], .inl ⟨by rw [hr], rfl⟩⟩
  case h_3 d next hr =>
    obtain ⟨t, ht, rfl⟩ := Option.map_eq_some_iff.mp h
    exact ⟨t, by rw [hr], .inr ⟨d, by rw [hr], ht⟩⟩

-- A task has taken a notice, or ended.
theorem task_eq_some {d : DownstreamId} (h : s.step C cfg (.task d) = some s') : ∃ next t,
    s.tasks.lookup d = some next ∧
    s' = { s with sv1 := t, tasks := s.tasks.insert d (s.notices.recv next).2 } ∧
      (s.sv1.step C cfg (.stop d) = some t ∧ ((s.notices.recv next).1 = .lagged ∨
        (s.notices.recv next).1 = .value d) ∨
      (s.sv1.step C cfg (.stop d)).isSome ∧ t = s.sv1 ∧
        ∃ d', (s.notices.recv next).1 = .value d' ∧ d' ≠ d) := by
  obtain ⟨next, hn, h⟩ := Option.bind_eq_some_iff.mp h
  refine ⟨next, ?_⟩
  split at h
  case h_1 => cases h
  case h_2 n hr =>
    obtain ⟨t, ht, rfl⟩ := Option.map_eq_some_iff.mp h
    exact ⟨t, hn, by rw [hr], .inl ⟨ht, .inl (by rw [hr])⟩⟩
  case h_3 d' n hr =>
    obtain ⟨t, ht, rfl⟩ := Option.map_eq_some_iff.mp h
    obtain ⟨t₀, ht₀, rfl⟩ := Option.map_eq_some_iff.mp ht
    refine ⟨_, hn, by rw [hr], ?_⟩
    by_cases hd : d' = d
    case pos =>
      subst hd
      rw [if_pos rfl]
      exact .inl ⟨ht₀, .inr (by rw [hr])⟩
    case neg =>
      rw [if_neg hd]
      exact .inr ⟨Option.isSome_iff_exists.mpr ⟨t₀, ht₀⟩, rfl, d', by rw [hr], hd⟩

theorem caughtUp_step (hs : s.CaughtUp cfg) (hp : Spaced s a) (h : s.step C cfg a = some s') :
    s'.CaughtUp cfg := by
  cases a with
  | sv1 b =>
    rw [step] at h
    split at h
    case isTrue  => cases h
    case isFalse =>
      obtain ⟨t, ht, rfl⟩ := Option.map_eq_some_iff.mp h
      by_cases hb : b = .accept
      case neg =>
        have hk := caughtUp_of_sv1 hs ht hb
        have htasks : s.subscribed b = s.tasks := by
          cases b <;> first | rfl | exact absurd rfl hb
        rw [htasks]
        exact ⟨hk.capacity, hk.fresh, hk.server, hk.tasks, hk.vardiff⟩
      case pos =>
        subst hb
        refine ⟨hs.capacity, System.staged_step hs.fresh ht, hs.server, fun d next hd hr => ?_,
          fun hv => vardiff_of_step hv (hs.vardiff hv) ht⟩
        rw [subscribed, Map.lookup_insert_ite] at hd
        split at hd
        case isTrue =>
          cases hd
          exact Broadcast.oldest_le
        case isFalse hne =>
          obtain ⟨_, hd'⟩ | hr := runs_of_step ht hr
          case inl => exact absurd hd' hne
          case inr => exact hs.tasks d next hd hr
  | main =>
    rw [step] at h
    split at h
    case h_1 => cases h
    case h_2 d ds _ =>
      cases h
      have hold : (s.notices.send d).oldest = s.notices.sent.length := by
        rw [Broadcast.oldest, Broadcast.send_sent, List.length_append]
        have hc : (s.notices.send d).capacity = 1 := hs.capacity
        rw [hc]
        rfl
      refine ⟨hs.capacity, hs.fresh, ?_, fun d' next hd hr => ?_, hs.vardiff⟩
      case refine_1 =>
        rw [hold]
        exact Nat.le_of_eq (hp.server rfl).symm
      case refine_2 =>
        rw [hold]
        exact Nat.le_of_eq (hp.tasks d' next rfl hd hr).symm
  | server =>
    obtain ⟨t, rfl, ⟨_, rfl⟩ | ⟨d, _, ht⟩⟩ := server_eq_some h
    case inl => exact ⟨hs.capacity, hs.fresh, recv_oldest hs.server, hs.tasks, hs.vardiff⟩
    case inr =>
      have hk := caughtUp_of_sv1 hs ht (by simp)
      exact ⟨hk.capacity, hk.fresh, recv_oldest hs.server, hk.tasks, hk.vardiff⟩
  | task d =>
    have moved {t : System} {next : ℕ} (hk : { s with sv1 := t }.CaughtUp cfg)
        (hr : runs t d → s.notices.oldest ≤ next) :
        { s with sv1 := t, tasks := s.tasks.insert d (s.notices.recv next).2 }.CaughtUp cfg := by
      refine ⟨hk.capacity, hk.fresh, hk.server, fun d' next' hd hr' => ?_, hk.vardiff⟩
      rw [Map.lookup_insert_ite] at hd
      split at hd
      case isTrue he =>
        subst he
        cases hd
        exact recv_oldest (hr hr')
      case isFalse => exact hk.tasks d' next' hd hr'
    obtain ⟨next, t, hn, rfl, ⟨ht, _⟩ | ⟨_, rfl, _⟩⟩ := task_eq_some h
    case inl =>
      refine moved (caughtUp_of_sv1 hs ht (by simp)) fun hr => ?_
      obtain ⟨hb, _⟩ | hr := runs_of_step ht hr
      case inl => cases hb
      case inr => exact hs.tasks d next hn hr
    case inr => exact moved hs fun hr => hs.tasks d next hn hr

theorem removed_of_step {t : System} {d : DownstreamId} (hv : cfg.enableVardiff = false →
    s.sv1.server.vardiff = []) (hr : ∀ r, s.sv1.server.requestIdToDownstreamId.lookup r ≠ some d)
    (h : s.sv1.step C cfg (.downstreamShutdown d) = some t) : Removed d s.sv1.server t.server := by
  obtain ⟨_, _, rfl⟩ := System.idle_eq_some h
  rw [System.downstreamShutdown_server]
  refine ⟨by simp, ?_, hr, fun d' hd => ⟨by simp [hd], ?_, fun _ => Iff.rfl⟩⟩
  case refine_1 =>
    dsimp only
    split
    case isTrue     => simp
    case isFalse hn => simp [hv (Bool.not_eq_true _ ▸ hn)]
  case refine_2 =>
    dsimp only
    split
    case isTrue  => simp [hd]
    case isFalse => exact Iff.rfl

theorem prompt_of_step (hs : s.CaughtUp cfg) (hp : Spaced s a) (h : s.step C cfg a = some s') :
    Prompt ⟨s, a, s'⟩ where
  heard _ := recv_of_caughtUp hs.server
  removed d ha hv := by
    have ha : a = .server := ha
    have hr := fun r => hp.requests d r ha hv
    subst ha
    obtain ⟨t, rfl, ⟨hl, _⟩ | ⟨d', hv', ht⟩⟩ := server_eq_some h
    case inl => cases hl.symm.trans hv
    case inr =>
      cases hv.symm.trans hv'
      exact removed_of_step hs.vardiff hr ht
  kept d next ha hn hr := by
    have ha : a = .task d := ha
    subst ha
    obtain ⟨next', t, hn', rfl, ⟨ht, hv | hv⟩ | ⟨hst, rfl, _⟩⟩ := task_eq_some h
    case inl.inl =>
      obtain ⟨o, o', ho, hstop, _⟩ := System.update_eq_some ht
      have hruns : runs s.sv1 d :=
        Option.any_eq_true _ _ |>.mpr ⟨o, ho, (Downstream.stop_eq_some hstop).left⟩
      exact absurd hv (recv_of_caughtUp (hs.tasks d next' hn' hruns))
    case inl.inr =>
      cases hn'.symm.trans hn
      exact hv
    case inr =>
      obtain ⟨t, ht⟩ := Option.isSome_iff_exists.mp hst
      obtain ⟨o, o', ho, hstop, _⟩ := System.update_eq_some ht
      have hruns : runs s.sv1 d :=
        Option.any_eq_true _ _ |>.mpr ⟨o, ho, (Downstream.stop_eq_some hstop).left⟩
      cases hruns.symm.trans hr

theorem prompt_of_run {tr : List (Machine.Event Shutdowns Action)}
    (r : (machine C cfg).Run tr s) (hp : Machine.Along Spaced tr) : ∀ e ∈ tr, Prompt e := by
  intro e he
  have init (s : Shutdowns) (h : (machine C cfg).Init s) : s.CaughtUp cfg := by
    cases h
    exact caughtUp_new
  have hs := (r.invariant_of_mem init (fun _ _ _ hs hp h => caughtUp_step hs hp h) hp he).left
  exact prompt_of_step hs (hp e he) (r.step_of_mem he)

namespace Leavers

open Reference Reference.Sample

def accepted (n : ℕ) : List Action :=
  List.replicate n (.sv1 .accept)

-- Two of three miners leave before the task of the third one has heard of the first.
def crowd : List Action :=
  accepted 3 ++ [.sv1 (.stop 1), .sv1 (.stop 2), .main, .main]

theorem crowd_exec : ((machine core (config false true)).exec (new false) crowd).any fun s =>
    s.tasks.lookup 3 = some 0 ∧ (s.notices.recv 0).1 = .lagged ∧
      ((machine core (config false true)).step s (.task 3)).any fun s' => runs s'.sv1 3 = false := by
  decide +kernel

-- One of two miners leaves.
def one : List Action :=
  accepted 2 ++ [.sv1 (.stop 1), .main, .server, .task 2]

theorem one_exec : ((machine core (config false true)).exec (new false) one).any fun s =>
    s.sv1.server.downstreams = [2] ∧ s.sv1.server.vardiff = [2] ∧ runs s.sv1 2 := by
  decide +kernel

def unasked (requests : Map RequestId DownstreamId) : Broadcast.Received DownstreamId → Bool
  | .value d => requests.entries.all (·.2 ≠ d)
  | _        => true

def spaced (e : Machine.Event Shutdowns Action) : Bool :=
  match e.act with
  | .main   => e.pre.server = e.pre.notices.sent.length &&
    e.pre.tasks.entries.all fun t => !runs e.pre.sv1 t.1 || t.2 = e.pre.notices.sent.length
  | .server =>
    unasked e.pre.sv1.server.requestIdToDownstreamId (e.pre.notices.recv e.pre.server).1
  | _       => true

theorem one_spaced :
    ((machine core (config false true)).trace (new false) one).all spaced := by
  decide +kernel

theorem spaced_sound {e : Machine.Event Shutdowns Action} (h : spaced e) : Spaced e.pre e.act where
  server ha := by
    rw [spaced, ha] at h
    exact of_decide_eq_true (Bool.and_eq_true_iff.mp h).left
  tasks d next ha hn hr := by
    rw [spaced, ha] at h
    have hm : Sigma.mk d next ∈ e.pre.tasks.entries := AList.mem_lookup_iff.mp hn
    have ht := List.all_eq_true.mp (Bool.and_eq_true_iff.mp h).right _ hm
    simpa [hr] using ht
  requests d r ha hv hl := by
    rw [spaced, ha] at h
    dsimp only at h
    rw [hv] at h
    have hm : Sigma.mk r d ∈ e.pre.sv1.server.requestIdToDownstreamId.entries :=
      AList.mem_lookup_iff.mp hl
    exact absurd rfl (of_decide_eq_true (List.all_eq_true.mp h _ hm))

end Leavers

open Reference Reference.Sample Leavers in
theorem not_prompt : ¬∀ tr s, (machine core (config false true)).Run tr s → ∀ e ∈ tr, Prompt e := by
  intro h
  obtain ⟨s, hs, hm⟩ := Option.any_eq_true _ _ |>.mp crowd_exec
  obtain ⟨hn, hl, hm⟩ := of_decide_eq_true hm
  obtain ⟨s', hst, hr⟩ := Option.any_eq_true _ _ |>.mp hm
  have r := (Machine.Run.of_exec (M := machine core (config false true)) rfl hs).snoc hst
  have hv := (h _ s' r _ List.mem_concat_self).kept 3 0 rfl hn (of_decide_eq_true hr)
  cases hl.symm.trans hv

open Reference Reference.Sample Leavers in
theorem prompt_sample : ∃ tr s, (machine core (config false true)).Run tr s ∧
    s.sv1.server.downstreams = [2] ∧ runs s.sv1 2 ∧ ∀ e ∈ tr, Prompt e := by
  obtain ⟨s, hs, hm⟩ := Option.any_eq_true _ _ |>.mp one_exec
  obtain ⟨hd, _, hr⟩ := of_decide_eq_true hm
  have r := Machine.Run.of_exec (M := machine core (config false true)) rfl hs
  refine ⟨_, s, r, hd, hr, prompt_of_run r fun e he => ?_⟩
  exact spaced_sound (List.all_eq_true.mp one_spaced e he)

end Shutdowns

end Translator.Sv1
