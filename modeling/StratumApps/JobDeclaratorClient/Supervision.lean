import StratumApps.JobDeclaratorClient.ChannelManager
import StratumApps.Tasks.ShutdownBus

open Tasks

namespace Jdc

-- Where the status loop stands. `closing` and `draining` know the position of the fallback notice:
-- first both loops of the session have to end, then everyone has to have received the notice.
inductive Phase
  | connecting
  | startingUpstream
  | startingJobDeclarator
  | listening
  | closing (notice : ℕ)
  | draining (notice : ℕ)
  deriving DecidableEq

-- The status loop is handling a fallback.
def Phase.falling : Phase → Bool
  | .closing _ | .draining _ => true
  | _                        => false

-- The status loop with the loops it supervises. A loop that runs is the position of its shutdown
-- receiver. The sessions are numbered as they are made; the numbers of the statuses and of the
-- fallbacks that were begun are those of the sessions they come from, which the code does not know.
structure Supervision where
  channel       : Broadcast ShutdownMessage
  upstreamState : UpstreamState
  phase         : Phase
  manager       : Option ℕ
  upstream      : Option ℕ
  jobDeclarator : Option ℕ
  session       : Option ℕ
  sessions      : ℕ
  statuses      : List ℕ
  fallbacks     : List ℕ

namespace Supervision

inductive Action
  | retry
  | connect (ok : Bool)
  | startUpstream (ok : Bool)
  | startJobDeclarator (ok : Bool)
  | downstreamShutdown (d : DownstreamId)
  | fallback
  | loopsEnded
  | drained
  | manager
  | managerOpens (state : UpstreamState)
  | managerReports (session : ℕ)
  | upstream
  | upstreamFails
  | jobDeclarator
  | jobDeclaratorFails
  deriving DecidableEq

section Defs

-- Which notices end the loop of the upstream, and which that of the job declarator.
def unifiedEnds : Notice → Bool
  | .value .shutdownAll | .value .jobDeclaratorShutdownFallback | .value .upstreamShutdownFallback
  | .value .upstreamShutdown | .value .jobDeclaratorShutdown | .lagged => true
  | _                                                                 => false

def receive (channel : Broadcast ShutdownMessage) (next : ℕ) : Option (Option ℕ) :=
  match channel.recv next with
  | (.empty, _) => none
  | (on, next)  => some (if unifiedEnds on then none else some next)

def falls : Notice → Bool
  | .value .jobDeclaratorShutdownFallback | .value .upstreamShutdownFallback => true
  | _                                                                       => false

variable (s : Supervision)

-- The fallback status of the current session is queued.
def report : Supervision :=
  { s with statuses := s.statuses ++ s.session.toList }

-- One step of the system. The attempts to connect, and the two set-ups, are awaited by the status
-- loop. A session whose pool refuses the set-up is started nevertheless, and nothing is reported.
def step : Action → Option Supervision
  | .retry =>
    if s.phase = .connecting then
      some { s with channel := s.channel.send .jobDeclaratorShutdown }
    else
      none
  | .connect ok =>
    if s.phase = .connecting then
      some <| if ok then
        { s with
          phase    := .startingUpstream
          session  := some (s.sessions + 1)
          sessions := s.sessions + 1 }
      else
        { s with phase := .listening, session := none, upstreamState := .soloMining }
    else
      none
  | .startUpstream ok =>
    if s.phase = .startingUpstream then
      some { s with
        phase    := .startingJobDeclarator
        upstream := if ok then some s.channel.sent.length else none }
    else
      none
  | .startJobDeclarator ok =>
    if s.phase = .startingJobDeclarator then
      some { (if ok then s else s.report) with
        phase         := .listening
        jobDeclarator := if ok then some s.channel.sent.length else none
        upstreamState := .noChannel }
    else
      none
  | .downstreamShutdown d =>
    if s.phase = .listening then
      some { s with channel := s.channel.send (.downstreamShutdown d) }
    else
      none
  | .fallback =>
    match s.phase, s.statuses with
    | .listening, k :: statuses => some { s with
        phase     := .closing s.channel.sent.length
        channel   := s.channel.send .upstreamShutdownFallback
        statuses  := statuses
        fallbacks := s.fallbacks ++ [k] }
    | _, _ => none
  | .loopsEnded =>
    match s.phase with
    | .closing notice =>
      if s.upstream = none ∧ s.jobDeclarator = none then
        some { s with phase := .draining notice }
      else
        none
    | _ => none
  | .drained =>
    match s.phase with
    | .draining notice =>
      if s.manager.all (notice < ·) then some { s with phase := .connecting } else none
    | _ => none
  | .manager => do
    let next ← s.manager
    match s.channel.recv next with
    | (.empty, _) => none
    | (on, next)  => some { s with
        manager       := if ShutdownBus.managerEnds on then none else some next
        upstreamState := if falls on then .soloMining else s.upstreamState }
  | .managerOpens state =>
    if s.manager.isSome ∧ state ≠ .soloMining then
      some { s with upstreamState := state }
    else
      none
  | .managerReports session =>
    if s.manager.isSome ∧ session ≤ s.sessions then
      some { s with statuses := s.statuses ++ [session] }
    else
      none
  | .upstream => do
    let next ← s.upstream
    let upstream ← receive s.channel next
    return { s with upstream := upstream }
  | .upstreamFails => do
    let _ ← s.upstream
    return { s.report with upstream := none }
  | .jobDeclarator => do
    let next ← s.jobDeclarator
    let jobDeclarator ← receive s.channel next
    return { s with jobDeclarator := jobDeclarator }
  | .jobDeclaratorFails => do
    let _ ← s.jobDeclarator
    return { s.report with jobDeclarator := none }

structure Init : Prop where
  capacity      : 100 ≤ s.channel.capacity
  sent          : s.channel.sent = []
  upstreamState : s.upstreamState = .soloMining
  phase         : s.phase = .connecting
  manager       : s.manager = some 0
  upstream      : s.upstream = none
  jobDeclarator : s.jobDeclarator = none
  session       : s.session = none
  sessions      : s.sessions = 0
  statuses      : s.statuses = []
  fallbacks     : s.fallbacks = []

def init (capacity : ℕ) : Supervision where
  channel       := ⟨capacity, []⟩
  upstreamState := .soloMining
  phase         := .connecting
  manager       := some 0
  upstream      := none
  jobDeclarator := none
  session       := none
  sessions      := 0
  statuses      := []
  fallbacks     := []

end Defs

def machine : Machine Supervision Action where
  Init := Init
  step := step

theorem init_init {n : ℕ} (h : 100 ≤ n) : machine.Init (init n) :=
  ⟨h, rfl, rfl, rfl, rfl, rfl, rfl, rfl, rfl, rfl, rfl⟩

-- When the client is not mining solo, both loops of the current session run, or a fallback of that
-- session is queued or being handled.
def Supervised (s : Supervision) : Prop :=
  s.upstreamState ≠ .soloMining → s.phase.falling = true ∨ ∃ k, s.session = some k ∧
    (k ∈ s.statuses ∨ s.upstream.isSome ∧ s.jobDeclarator.isSome)

-- A fallback that is begun is the first one of the current session.
def FallsOnce (e : Machine.Event Supervision Action) : Prop :=
  e.act = .fallback → ∃ k, e.pre.session = some k ∧ e.post.fallbacks = e.pre.fallbacks ++ [k] ∧
    k ∉ e.pre.fallbacks

-- No fallback of the session has been reported so far.
def Unreported (s : Supervision) (k : ℕ) : Prop :=
  k ∉ s.statuses ∧ k ∉ s.fallbacks

variable {s s' : Supervision} {a : Action} {k n : ℕ} {tr : List (Machine.Event Supervision Action)}

-- The pool answers the set-up, no loop lags behind its notices, no session is reported a second
-- time or after it was replaced, and no upstream channel is opened for a client that mines solo.
def Orderly (s : Supervision) : Action → Prop
  | .startUpstream ok       => ok = true
  | .startJobDeclarator ok  => ok = true ∨ ∀ k ∈ s.session, s.Unreported k
  | .manager                => ∀ n ∈ s.manager, s.channel.oldest ≤ n
  | .upstream               => ∀ n ∈ s.upstream, s.channel.oldest ≤ n
  | .jobDeclarator          => ∀ n ∈ s.jobDeclarator, s.channel.oldest ≤ n
  | .managerOpens _         => s.upstreamState ≠ .soloMining
  | .managerReports k       => s.session = some k ∧ s.Unreported k
  | .upstreamFails | .jobDeclaratorFails => ∀ k ∈ s.session, s.Unreported k
  | _                       => True

instance : Decidable (s.Unreported k) :=
  inferInstanceAs (Decidable (_ ∧ _))

instance : (a : Action) → Decidable (s.Orderly a)
  | .startUpstream ok => inferInstanceAs (Decidable (ok = true))
  | .startJobDeclarator ok =>
    inferInstanceAs (Decidable (ok = true ∨ ∀ k ∈ s.session, s.Unreported k))
  | .manager => inferInstanceAs (Decidable (∀ n ∈ s.manager, s.channel.oldest ≤ n))
  | .upstream => inferInstanceAs (Decidable (∀ n ∈ s.upstream, s.channel.oldest ≤ n))
  | .jobDeclarator => inferInstanceAs (Decidable (∀ n ∈ s.jobDeclarator, s.channel.oldest ≤ n))
  | .managerOpens _ => inferInstanceAs (Decidable (s.upstreamState ≠ .soloMining))
  | .managerReports k => inferInstanceAs (Decidable (s.session = some k ∧ s.Unreported k))
  | .upstreamFails | .jobDeclaratorFails =>
    inferInstanceAs (Decidable (∀ k ∈ s.session, s.Unreported k))
  | .retry | .connect _ | .downstreamShutdown _ | .fallback | .loopsEnded | .drained =>
    inferInstanceAs (Decidable True)

-- What the loops of a session have not received yet ends none of them.
def Quiet (s : Supervision) : Prop :=
  ∀ n, s.upstream = some n ∨ s.jobDeclarator = some n →
    ∀ m ∈ s.channel.sent.drop n, unifiedEnds (.value m) = false

-- The current session has been reported, and the manager mines solo once it has the notice.
structure Falling (s : Supervision) (notice : ℕ) : Prop where
  session  : ∃ k, s.session = some k ∧ k ∈ s.fallbacks
  statuses : s.statuses = []
  sent     : s.channel.sent[notice]? = some .upstreamShutdownFallback
  solo     : ∀ n, s.manager = some n → notice < n → s.upstreamState = .soloMining

structure Idle (s : Supervision) : Prop where
  upstream      : s.upstream = none
  jobDeclarator : s.jobDeclarator = none

def Stage (s : Supervision) : Prop :=
  match s.phase with
  | .connecting            => s.Idle ∧ s.upstreamState = .soloMining ∧ s.statuses = [] ∧
    ∀ k, s.session = some k → k ∈ s.fallbacks
  | .startingUpstream      => s.Idle ∧ s.upstreamState = .soloMining ∧ s.session.isSome
  | .startingJobDeclarator => s.jobDeclarator = none ∧ s.upstreamState = .soloMining ∧ s.Quiet ∧
    ∃ k, s.session = some k ∧ (k ∈ s.statuses ∨ s.upstream.isSome)
  | .listening             => s.Quiet ∧ (s.upstreamState ≠ .soloMining → ∃ k, s.session = some k ∧
    (k ∈ s.statuses ∨ s.upstream.isSome ∧ s.jobDeclarator.isSome))
  | .closing notice        => s.Falling notice
  | .draining notice       => s.Falling notice ∧ s.Idle

structure Inv (s : Supervision) : Prop where
  manager  : ∃ n, s.manager = some n ∧ n ≤ s.channel.sent.length
  sent     : .shutdownAll ∉ s.channel.sent
  session  : ∀ k, s.session = some k → k = s.sessions
  bound    : ∀ k ∈ s.fallbacks, k ≤ s.sessions
  statuses : s.statuses = [] ∨ ∃ k, s.statuses = [k] ∧ s.session = some k ∧ k ∉ s.fallbacks
  stage    : s.Stage

theorem Inv.supervised (h : s.Inv) : s.Supervised := by
  intro hs
  have hst := h.stage
  rw [Stage] at hst
  split at hst
  case h_1 => exact absurd hst.right.left hs
  case h_2 => exact absurd hst.right.left hs
  case h_3 => exact absurd hst.right.left hs
  case h_4 => exact .inr (hst.right hs)
  case h_5 hp => exact .inl (by rw [hp]; rfl)
  case h_6 hp => exact .inl (by rw [hp]; rfl)

theorem Inv.fallsOnce (h : s.Inv) (hs : s.step a = some s') : FallsOnce ⟨s, a, s'⟩ := by
  rintro rfl
  simp only [step] at hs
  split at hs <;> cases hs
  case h_1 k statuses _ hq =>
    obtain hn | ⟨k', hk, hse, hf⟩ := h.statuses
    · cases hn.symm.trans hq
    · cases hk.symm.trans hq
      exact ⟨_, hse, rfl, hf⟩

theorem receive_eq_some {channel : Broadcast ShutdownMessage} {r : Option ℕ}
    (h : receive channel n = some r) (ho : channel.oldest ≤ n) :
    ∃ m, channel.sent[n]? = some m ∧ r = if unifiedEnds (.value m) then none else some (n + 1) := by
  obtain ⟨_, hl⟩ | ⟨hr, _⟩ | ⟨m, hr, _, hm⟩ := channel.recv_cases n
  · exact absurd ho (Nat.not_le.mpr hl)
  · simp [receive, hr] at h
  · simp only [receive, hr, Option.some_inj] at h
    exact ⟨m, hm, h.symm⟩

-- A loop that has only quiet notices in front of it goes on.
theorem receive_quiet {channel : Broadcast ShutdownMessage} {r : Option ℕ}
    (hq : ∀ m ∈ channel.sent.drop n, unifiedEnds (.value m) = false)
    (h : receive channel n = some r) (ho : channel.oldest ≤ n) :
    r = some (n + 1) ∧ ∀ m ∈ channel.sent.drop (n + 1), unifiedEnds (.value m) = false := by
  obtain ⟨m, hm, rfl⟩ := receive_eq_some h ho
  have hd := Broadcast.drop_of_value hm
  rw [hd, List.forall_mem_cons] at hq
  rw [hq.left]
  exact ⟨rfl, hq.right⟩

theorem Quiet.send (h : s.Quiet) {m : ShutdownMessage} (hm : unifiedEnds (.value m) = false) :
    Quiet { s with channel := s.channel.send m } := by
  intro n hn m' hm'
  rw [Broadcast.send_sent, List.drop_append] at hm'
  cases List.mem_append.mp hm'
  case inl hm' => exact h n hn m' hm'
  case inr hm' => exact List.mem_singleton.mp (List.mem_of_mem_drop hm') ▸ hm

theorem Quiet.idle (h : s.Idle) : s.Quiet := by
  intro n hn
  rw [h.upstream, h.jobDeclarator] at hn
  cases hn <;> contradiction

-- The session that is reported has not been reported before.
theorem report_statuses (h : s.Inv) (hk : ∀ k, s.session = some k → s.Unreported k) :
    s.report.statuses = [] ∧ s.session = none ∨
      ∃ k, s.report.statuses = [k] ∧ s.session = some k ∧ k ∉ s.fallbacks := by
  cases hse : s.session with
  | none =>
    obtain hn | ⟨_, _, hs, _⟩ := h.statuses
    · exact .inl ⟨by simp [report, hn, hse], rfl⟩
    · cases hs.symm.trans hse
  | some k =>
    obtain ⟨hs, hf⟩ := hk k hse
    obtain hn | ⟨k', hk', hs', _⟩ := h.statuses
    · exact .inr ⟨k, by simp [report, hn, hse], rfl, hf⟩
    · cases hs'.symm.trans hse
      exact absurd (by simp [hk']) hs

theorem Inv.reports (h : s.Inv) (hk : ∀ k, s.session = some k → s.Unreported k) :
    s.report.statuses = [] ∨
      ∃ k, s.report.statuses = [k] ∧ s.session = some k ∧ k ∉ s.fallbacks :=
  (report_statuses h hk).imp_left And.left

-- While a fallback is handled its session is not reported again.
theorem Falling.not_unreported (h : s.Falling n) :
    ¬∀ k, s.session = some k → s.Unreported k := by
  obtain ⟨k, hk, hf⟩ := h.session
  exact fun hu => (hu k hk).right hf

theorem inv_retry (h : s.Inv) (hs : s.step .retry = some s') : s'.Inv := by
  simp only [step] at hs
  split at hs <;> cases hs
  case isTrue hp =>
    obtain ⟨⟨n, hm, hn⟩, hsent, hse, hb, hst, hstage⟩ := h
    simp only [Stage, hp] at hstage
    refine ⟨⟨n, hm, by simp; omega⟩, ?_, hse, hb, hst, ?_⟩
    · simpa using hsent
    · simp only [Stage, hp]
      exact ⟨⟨hstage.left.upstream, hstage.left.jobDeclarator⟩, hstage.right⟩

theorem inv_connect {ok : Bool} (h : s.Inv) (hs : s.step (.connect ok) = some s') : s'.Inv := by
  simp only [step] at hs
  split at hs <;> cases hs
  case isTrue hp =>
    obtain ⟨hm, hsent, hse, hb, hst, hstage⟩ := h
    simp only [Stage, hp] at hstage
    obtain ⟨hi, hsolo, hn, hf⟩ := hstage
    cases ok with
    | true =>
      refine ⟨hm, hsent, ?_, ?_, .inl hn, ⟨hi.upstream, hi.jobDeclarator⟩, hsolo, rfl⟩
      · intro k hk
        exact (Option.some_inj.mp hk).symm
      · intro k hk
        exact Nat.le_succ_of_le (hb k hk)
    | false =>
      refine ⟨hm, hsent, ?_, hb, .inl hn, .idle ⟨hi.upstream, hi.jobDeclarator⟩, ?_⟩
      · intro k hk
        cases hk
      · intro hs
        exact absurd rfl hs

theorem inv_startUpstream {ok : Bool} (h : s.Inv) (ho : s.Orderly (.startUpstream ok))
    (hs : s.step (.startUpstream ok) = some s') : s'.Inv := by
  simp only [Orderly] at ho
  subst ho
  simp only [step] at hs
  split at hs <;> cases hs
  case isTrue hp =>
    obtain ⟨hm, hsent, hse, hb, hst, hstage⟩ := h
    simp only [Stage, hp] at hstage
    obtain ⟨hi, hsolo, hk⟩ := hstage
    obtain ⟨k, hk⟩ := Option.isSome_iff_exists.mp hk
    refine ⟨hm, hsent, hse, hb, hst, hi.jobDeclarator, hsolo, ?_, k, hk, .inr rfl⟩
    rintro n (hn | hn)
    · cases hn
      simp
    · cases hi.jobDeclarator.symm.trans hn

theorem inv_startJobDeclarator {ok : Bool} (h : s.Inv) (ho : s.Orderly (.startJobDeclarator ok))
    (hs : s.step (.startJobDeclarator ok) = some s') : s'.Inv := by
  simp only [step] at hs
  split at hs <;> cases hs
  case isTrue hp =>
    have hstage := h.stage
    simp only [Stage, hp] at hstage
    obtain ⟨hj, _, hq, k, hk, hu⟩ := hstage
    cases ok with
    | true =>
      refine ⟨h.manager, h.sent, h.session, h.bound, h.statuses, ?_, fun _ => ⟨k, hk, ?_⟩⟩
      · rintro n (hn | hn)
        · exact hq n (.inl hn)
        · cases hn
          simp
      · exact hu.imp_right fun hu => ⟨hu, rfl⟩
    | false =>
      have hr := h.reports (ho.resolve_left (by simp))
      refine ⟨h.manager, h.sent, h.session, h.bound, hr, ?_, fun _ => ⟨k, hk, .inl ?_⟩⟩
      · rintro n (hn | hn)
        · exact hq n (.inl hn)
        · cases hn
      · simp [report, hk]

theorem inv_downstreamShutdown {d : DownstreamId} (h : s.Inv)
    (hs : s.step (.downstreamShutdown d) = some s') : s'.Inv := by
  simp only [step] at hs
  split at hs <;> cases hs
  case isTrue hp =>
    have hstage := h.stage
    simp only [Stage, hp] at hstage
    obtain ⟨n, hm, hn⟩ := h.manager
    refine ⟨⟨n, hm, by simp; omega⟩, ?_, h.session, h.bound, h.statuses, ?_⟩
    · simpa using h.sent
    · simp only [Stage, hp]
      exact ⟨hstage.left.send rfl, hstage.right⟩

theorem inv_fallback (h : s.Inv) (hs : s.step .fallback = some s') : s'.Inv := by
  simp only [step] at hs
  split at hs <;> cases hs
  case h_1 k statuses hp hq =>
    obtain hn | ⟨k', hk, hse, hf⟩ := h.statuses
    · cases hn.symm.trans hq
    · cases hk.symm.trans hq
      have hb : ∀ k' ∈ s.fallbacks ++ [k], k' ≤ s.sessions := by
        intro k' hk'
        cases List.mem_append.mp hk'
        case inl hk' => exact h.bound k' hk'
        case inr hk' =>
          rw [List.mem_singleton.mp hk', h.session k hse]
      have hsent : ShutdownMessage.shutdownAll ∉
          (s.channel.send .upstreamShutdownFallback).sent := by
        simpa using h.sent
      obtain ⟨n, hm, hn⟩ := h.manager
      refine ⟨⟨n, hm, by simp; omega⟩, hsent, h.session, hb, .inl rfl, ?_⟩
      refine ⟨⟨k, hse, by simp⟩, rfl, by simp, fun n' hm' hn' => ?_⟩
      cases hm.symm.trans hm'
      omega

theorem inv_loopsEnded (h : s.Inv) (hs : s.step .loopsEnded = some s') : s'.Inv := by
  simp only [step] at hs
  split at hs <;> try cases hs
  case h_1 notice hp =>
    split at hs <;> cases hs
    case isTrue hi =>
      have hstage := h.stage
      simp only [Stage, hp] at hstage
      obtain ⟨hse, hst, hn, hsolo⟩ := hstage
      exact ⟨h.manager, h.sent, h.session, h.bound, h.statuses, ⟨hse, hst, hn, hsolo⟩, hi.left, hi.right⟩

theorem inv_drained (h : s.Inv) (hs : s.step .drained = some s') : s'.Inv := by
  simp only [step] at hs
  split at hs <;> try cases hs
  case h_1 notice hp =>
    split at hs <;> cases hs
    case isTrue hd =>
      have hstage := h.stage
      simp only [Stage, hp] at hstage
      obtain ⟨⟨⟨k, hk, hf⟩, hst, _, hsolo⟩, hi⟩ := hstage
      obtain ⟨n, hm, _⟩ := h.manager
      rw [hm, Option.all_some, decide_eq_true_eq] at hd
      refine ⟨h.manager, h.sent, h.session, h.bound, h.statuses, ⟨hi.upstream, hi.jobDeclarator⟩,
        hsolo n hm hd, hst, fun k' hk' => ?_⟩
      cases hk.symm.trans hk'
      exact hf

-- What an unchanged session keeps when the manager moves on or changes the upstream state.
theorem Stage.of_manager (h : s.Stage) {m : Option ℕ} {st : UpstreamState}
    (hst : st = s.upstreamState ∨ st = .soloMining)
    (hf : ∀ notice, s.Falling notice → ∀ n, m = some n → notice < n → st = .soloMining) :
    Stage { s with manager := m, upstreamState := st } := by
  have hsolo (h : s.upstreamState = .soloMining) : st = .soloMining := hst.elim (· ▸ h) id
  rw [Stage] at h ⊢
  split at h
  case h_1 hp =>
    simp only [hp]
    exact ⟨⟨h.left.upstream, h.left.jobDeclarator⟩, hsolo h.right.left, h.right.right⟩
  case h_2 hp =>
    simp only [hp]
    exact ⟨⟨h.left.upstream, h.left.jobDeclarator⟩, hsolo h.right.left, h.right.right⟩
  case h_3 hp =>
    simp only [hp]
    exact ⟨h.left, hsolo h.right.left, h.right.right⟩
  case h_4 hp =>
    simp only [hp]
    exact ⟨h.left, fun hne => h.right fun he => hne (hsolo he)⟩
  case h_5 notice hp =>
    simp only [hp]
    exact ⟨h.session, h.statuses, h.sent, hf notice h⟩
  case h_6 notice hp =>
    simp only [hp]
    exact ⟨⟨h.left.session, h.left.statuses, h.left.sent, hf notice h.left⟩,
      h.right.upstream, h.right.jobDeclarator⟩

theorem inv_manager (h : s.Inv) (ho : s.Orderly .manager) (hs : s.step .manager = some s') :
    s'.Inv := by
  obtain ⟨n, hm, hn⟩ := h.manager
  simp only [step, Option.bind_eq_bind, hm, Option.bind_some] at hs
  obtain ⟨_, hl⟩ | ⟨hr, _⟩ | ⟨m, hr, _, hv⟩ := s.channel.recv_cases n
  · exact absurd (ho n hm) (Nat.not_le.mpr hl)
  · simp [hr] at hs
  · rw [hr] at hs
    cases hs
    have he : ShutdownBus.managerEnds (.value m) = false := by
      refine Bool.eq_false_iff.mpr fun he => h.sent ?_
      rw [← ShutdownBus.managerEnds_value he]
      exact List.mem_of_getElem? hv
    simp only [he, Bool.false_eq_true, if_false]
    have hlt := (List.getElem?_eq_some_iff.mp hv).1
    refine ⟨⟨n + 1, rfl, hlt⟩, h.sent, h.session, h.bound, h.statuses, h.stage.of_manager ?_ ?_⟩
    · split <;> simp
    · rintro notice hf _ ⟨⟩ hlt'
      by_cases hnn : n = notice
      case pos =>
        subst hnn
        cases hv.symm.trans hf.sent
        rfl
      case neg =>
        have := hf.solo n hm (by omega)
        split
        · rfl
        · exact this

theorem inv_managerOpens {st : UpstreamState} (h : s.Inv) (ho : s.Orderly (.managerOpens st))
    (hs : s.step (.managerOpens st) = some s') : s'.Inv := by
  simp only [step] at hs
  split at hs <;> cases hs
  refine ⟨h.manager, h.sent, h.session, h.bound, h.statuses, ?_⟩
  have hstage := h.stage
  rw [Stage] at hstage ⊢
  split at hstage
  case h_1 => exact absurd hstage.right.left ho
  case h_2 => exact absurd hstage.right.left ho
  case h_3 => exact absurd hstage.right.left ho
  case h_4 hp =>
    simp only [hp]
    exact ⟨hstage.left, fun _ => hstage.right ho⟩
  case h_5 hp =>
    simp only [hp]
    exact ⟨hstage.session, hstage.statuses, hstage.sent, fun n hm hn => absurd (hstage.solo n hm hn) ho⟩
  case h_6 hp =>
    simp only [hp]
    exact ⟨⟨hstage.left.session, hstage.left.statuses, hstage.left.sent,
      fun n hm hn => absurd (hstage.left.solo n hm hn) ho⟩, hstage.right.upstream,
      hstage.right.jobDeclarator⟩

theorem inv_managerReports (h : s.Inv) (ho : s.Orderly (.managerReports k))
    (hs : s.step (.managerReports k) = some s') : s'.Inv := by
  simp only [step] at hs
  split at hs <;> cases hs
  obtain ⟨hk, hu⟩ := ho
  have hn : s.statuses = [] := by
    obtain hn | ⟨_, hs, hse, _⟩ := h.statuses
    · exact hn
    · cases hk.symm.trans hse
      exact absurd (by simp [hs]) hu.left
  have hst : s.statuses ++ [k] = [] ∨
      ∃ k', s.statuses ++ [k] = [k'] ∧ s.session = some k' ∧ k' ∉ s.fallbacks :=
    .inr ⟨k, by simp [hn], hk, hu.right⟩
  refine ⟨h.manager, h.sent, h.session, h.bound, hst, ?_⟩
  have hstage := h.stage
  rw [Stage] at hstage ⊢
  split at hstage
  case h_1 => exact absurd (hstage.right.right.right k hk) hu.right
  case h_2 hp =>
    simp only [hp]
    exact ⟨⟨hstage.left.upstream, hstage.left.jobDeclarator⟩, hstage.right⟩
  case h_3 hp =>
    simp only [hp]
    exact ⟨hstage.left, hstage.right.left, hstage.right.right.left, k, hk, .inl (by simp)⟩
  case h_4 hp =>
    simp only [hp]
    exact ⟨hstage.left, fun _ => ⟨k, hk, .inl (by simp)⟩⟩
  case h_5 =>
    obtain ⟨k', hk', hf⟩ := hstage.session
    cases hk.symm.trans hk'
    exact absurd hf hu.right
  case h_6 =>
    obtain ⟨k', hk', hf⟩ := hstage.left.session
    cases hk.symm.trans hk'
    exact absurd hf hu.right

theorem inv_upstream (h : s.Inv) (ho : s.Orderly .upstream) (hs : s.step .upstream = some s') :
    s'.Inv := by
  simp only [step, Option.bind_eq_bind, Option.bind_eq_some_iff, Option.pure_def,
    Option.some_inj] at hs
  obtain ⟨n, hn, r, hr, rfl⟩ := hs
  have hold := ho n hn
  refine ⟨h.manager, h.sent, h.session, h.bound, h.statuses, ?_⟩
  have hstage := h.stage
  rw [Stage] at hstage ⊢
  split at hstage
  case h_1 => cases hstage.left.upstream.symm.trans hn
  case h_2 => cases hstage.left.upstream.symm.trans hn
  case h_3 hp =>
    obtain ⟨hj, hsolo, hq, k, hk, hu⟩ := hstage
    obtain ⟨rfl, hd⟩ := receive_quiet (hq n (.inl hn)) hr hold
    simp only [hp]
    refine ⟨hj, hsolo, ?_, k, hk, .inr rfl⟩
    rintro n' (hn' | hn')
    · cases hn'
      exact hd
    · cases hj.symm.trans hn'
  case h_4 hp =>
    obtain ⟨hq, hsup⟩ := hstage
    obtain ⟨rfl, hd⟩ := receive_quiet (hq n (.inl hn)) hr hold
    simp only [hp]
    refine ⟨?_, fun hne => ?_⟩
    · rintro n' (hn' | hn')
      · cases hn'
        exact hd
      · exact hq n' (.inr hn')
    · obtain ⟨k, hk, hu⟩ := hsup hne
      exact ⟨k, hk, hu.imp_right fun hu => ⟨rfl, hu.right⟩⟩
  case h_5 hp =>
    simp only [hp]
    exact ⟨hstage.session, hstage.statuses, hstage.sent, hstage.solo⟩
  case h_6 => cases hstage.right.upstream.symm.trans hn

theorem inv_jobDeclarator (h : s.Inv) (ho : s.Orderly .jobDeclarator)
    (hs : s.step .jobDeclarator = some s') : s'.Inv := by
  simp only [step, Option.bind_eq_bind, Option.bind_eq_some_iff, Option.pure_def,
    Option.some_inj] at hs
  obtain ⟨n, hn, r, hr, rfl⟩ := hs
  have hold := ho n hn
  refine ⟨h.manager, h.sent, h.session, h.bound, h.statuses, ?_⟩
  have hstage := h.stage
  rw [Stage] at hstage ⊢
  split at hstage
  case h_1 => cases hstage.left.jobDeclarator.symm.trans hn
  case h_2 => cases hstage.left.jobDeclarator.symm.trans hn
  case h_3 => cases hstage.left.symm.trans hn
  case h_4 hp =>
    obtain ⟨hq, hsup⟩ := hstage
    obtain ⟨rfl, hd⟩ := receive_quiet (hq n (.inr hn)) hr hold
    simp only [hp]
    refine ⟨?_, fun hne => ?_⟩
    · rintro n' (hn' | hn')
      · exact hq n' (.inl hn')
      · cases hn'
        exact hd
    · obtain ⟨k, hk, hu⟩ := hsup hne
      exact ⟨k, hk, hu.imp_right fun hu => ⟨hu.left, rfl⟩⟩
  case h_5 hp =>
    simp only [hp]
    exact ⟨hstage.session, hstage.statuses, hstage.sent, hstage.solo⟩
  case h_6 => cases hstage.right.jobDeclarator.symm.trans hn

theorem inv_upstreamFails (h : s.Inv) (ho : s.Orderly .upstreamFails)
    (hs : s.step .upstreamFails = some s') : s'.Inv := by
  simp only [step, Option.bind_eq_bind, Option.bind_eq_some_iff, Option.pure_def,
    Option.some_inj] at hs
  obtain ⟨n, hn, rfl⟩ := hs
  refine ⟨h.manager, h.sent, h.session, h.bound, h.reports ho, ?_⟩
  have hstage := h.stage
  simp only [report]
  rw [Stage] at hstage ⊢
  split at hstage
  case h_1 => cases hstage.left.upstream.symm.trans hn
  case h_2 => cases hstage.left.upstream.symm.trans hn
  case h_3 hp =>
    obtain ⟨hj, hsolo, hq, k, hk, _⟩ := hstage
    simp only [hp]
    refine ⟨hj, hsolo, .idle ⟨rfl, hj⟩, k, hk, .inl (by simp [hk])⟩
  case h_4 hp =>
    obtain ⟨hq, hsup⟩ := hstage
    simp only [hp]
    refine ⟨?_, fun hne => ?_⟩
    · rintro n' (hn' | hn')
      · cases hn'
      · exact hq n' (.inr hn')
    · obtain ⟨k, hk, _⟩ := hsup hne
      exact ⟨k, hk, .inl (by simp [hk])⟩
  case h_5 => exact absurd ho hstage.not_unreported
  case h_6 => cases hstage.right.upstream.symm.trans hn

theorem inv_jobDeclaratorFails (h : s.Inv) (ho : s.Orderly .jobDeclaratorFails)
    (hs : s.step .jobDeclaratorFails = some s') : s'.Inv := by
  simp only [step, Option.bind_eq_bind, Option.bind_eq_some_iff, Option.pure_def,
    Option.some_inj] at hs
  obtain ⟨n, hn, rfl⟩ := hs
  refine ⟨h.manager, h.sent, h.session, h.bound, h.reports ho, ?_⟩
  have hstage := h.stage
  simp only [report]
  rw [Stage] at hstage ⊢
  split at hstage
  case h_1 => cases hstage.left.jobDeclarator.symm.trans hn
  case h_2 => cases hstage.left.jobDeclarator.symm.trans hn
  case h_3 => cases hstage.left.symm.trans hn
  case h_4 hp =>
    obtain ⟨hq, hsup⟩ := hstage
    simp only [hp]
    refine ⟨?_, fun hne => ?_⟩
    · rintro n' (hn' | hn')
      · exact hq n' (.inl hn')
      · cases hn'
    · obtain ⟨k, hk, _⟩ := hsup hne
      exact ⟨k, hk, .inl (by simp [hk])⟩
  case h_5 => exact absurd ho hstage.not_unreported
  case h_6 => cases hstage.right.jobDeclarator.symm.trans hn

theorem inv_init (h : s.Init) : s.Inv := by
  refine ⟨⟨0, h.manager, Nat.zero_le _⟩, ?_, ?_, ?_, .inl h.statuses, ?_⟩
  · simp [h.sent]
  · simp [h.session]
  · simp [h.fallbacks]
  · rw [Stage, h.phase]
    exact ⟨⟨h.upstream, h.jobDeclarator⟩, h.upstreamState, h.statuses, by simp [h.session]⟩

theorem inv_step (h : s.Inv) (ho : s.Orderly a) (hs : s.step a = some s') : s'.Inv := by
  cases a with
  | retry              => exact inv_retry h hs
  | connect            => exact inv_connect h hs
  | startUpstream      => exact inv_startUpstream h ho hs
  | startJobDeclarator => exact inv_startJobDeclarator h ho hs
  | downstreamShutdown => exact inv_downstreamShutdown h hs
  | fallback           => exact inv_fallback h hs
  | loopsEnded         => exact inv_loopsEnded h hs
  | drained            => exact inv_drained h hs
  | manager            => exact inv_manager h ho hs
  | managerOpens       => exact inv_managerOpens h ho hs
  | managerReports     => exact inv_managerReports h ho hs
  | upstream           => exact inv_upstream h ho hs
  | upstreamFails      => exact inv_upstreamFails h ho hs
  | jobDeclarator      => exact inv_jobDeclarator h ho hs
  | jobDeclaratorFails => exact inv_jobDeclaratorFails h ho hs

-- Along an orderly run the client is supervised, and every session causes at most one fallback.
theorem supervised_of_run (r : machine.Run tr s) (ho : Machine.Along Orderly tr) :
    s.Supervised ∧ ∀ e ∈ tr, e.post.Supervised ∧ FallsOnce e := by
  have h₀ (s : Supervision) : machine.Init s → s.Inv := inv_init
  have hs (s : Supervision) (a : Action) (s' : Supervision) (hi : s.Inv) (ha : s.Orderly a)
      (hst : machine.step s a = some s') : s'.Inv := inv_step hi ha hst
  refine ⟨(r.invariant h₀ hs ho).supervised, fun e he => ?_⟩
  obtain ⟨hpre, hpost⟩ := r.invariant_of_mem h₀ hs ho he
  exact ⟨hpost.supervised, hpre.fallsOnce (r.step_of_mem he)⟩

namespace Sample

def session : List Action :=
  [.connect true, .startUpstream true, .startJobDeclarator true, .managerOpens .connected]

-- The fallback of the current session up to the next attempt to connect, once the status loop has
-- taken the status off its queue.
def fallback : List Action :=
  [.fallback, .upstream, .manager, .loopsEnded, .drained]

-- Both links of the first session fail. The second status is handled in the second session.
def bothFail : List Action :=
  session ++ [.upstreamFails, .jobDeclaratorFails, .fallback, .manager, .loopsEnded, .drained]
    ++ session

theorem bothFail_exec : (machine.exec (.init 128) bothFail).any fun s =>
    (machine.step s .fallback).any fun s' =>
      s.session = some 2 ∧ s.fallbacks = [1] ∧ s'.fallbacks = [1, 1] := by
  decide +kernel

def oneFails : List Action :=
  session ++ [.jobDeclaratorFails] ++ fallback ++ session

theorem oneFails_exec : (machine.exec (.init 128) oneFails).any fun s =>
    s.session = some 2 ∧ s.fallbacks = [1] ∧ s.upstreamState = .connected := by
  decide +kernel

theorem oneFails_orderly : (machine.trace (.init 128) oneFails).all
    fun e => e.pre.Orderly e.act := by
  decide +kernel

end Sample

end Supervision

open Supervision.Sample in
theorem not_supervised : ¬∀ tr s, Supervision.machine.Run tr s →
    s.Supervised ∧ ∀ e ∈ tr, e.post.Supervised ∧ Supervision.FallsOnce e := by
  intro h
  obtain ⟨s, hs, he⟩ := Option.any_eq_true _ _ |>.mp bothFail_exec
  obtain ⟨s', hs', he⟩ := Option.any_eq_true _ _ |>.mp he
  have r := (Machine.Run.of_exec (Supervision.init_init (by decide)) hs).snoc hs'
  obtain ⟨_, hf, hf'⟩ := of_decide_eq_true he
  obtain ⟨k, _, hpost, hn⟩ := ((h _ _ r).right _ List.mem_concat_self).right rfl
  rw [hf, hf'] at hpost
  cases hpost
  rw [hf] at hn
  exact hn (List.mem_singleton_self _)

open Supervision.Sample in
theorem supervised_of_run_sample : ∃ tr s, Supervision.machine.Run tr s ∧
    (s.session = some 2 ∧ s.fallbacks = [1] ∧ s.upstreamState = .connected) ∧
    s.Supervised ∧ ∀ e ∈ tr, e.post.Supervised ∧ Supervision.FallsOnce e := by
  obtain ⟨s, hs, he⟩ := Option.any_eq_true _ _ |>.mp oneFails_exec
  have r := Machine.Run.of_exec (Supervision.init_init (by decide)) hs
  refine ⟨_, s, r, of_decide_eq_true he, Supervision.supervised_of_run r fun e he => ?_⟩
  exact of_decide_eq_true (List.all_eq_true.mp oneFails_orderly e he)

end Jdc
