import StratumApps.Translator.Leaks

open Sv2 Handler StratumCore

namespace Translator

namespace TranslatorSv2

variable {C : TranslatorCore} {K : Sv1.Core} {cfg : TranslatorConfig} {s s' : TranslatorSv2 C}
variable {a : Action}

abbrev Events (C : TranslatorCore) := List (Machine.Event (TranslatorSv2 C) Action)

variable {tr : Events C} {e : Machine.Event (TranslatorSv2 C) Action}

-- The events since the server has processed the last fallback, and the first miner since then.
def since (tr : Events C) : Events C :=
  tr.foldl (fun es e => if e.act = .sv1Fallback then [] else es ++ [e]) []

def first (tr : Events C) : DownstreamId :=
  tr.foldl (fun d e => if e.act = .sv1Fallback then e.pre.sv1.server.downstreamIdFactory else d) 0

-- The events since the channel manager has processed its last fallback, and what it takes in one.
def managerSince (tr : Events C) : Events C :=
  tr.foldl (fun es e => if e.act = .managerFallback then [] else es ++ [e]) []

def taken (e : Machine.Event (TranslatorSv2 C) Action) : Option Translator.Action :=
  match e.act with
  | .downstream => e.pre.sv1ServerToChannelManager.head?.map (.downstream ·.message)
  | .upstream   => e.pre.upstreamToChannelManager.head?.map (·.message.action)
  | _           => none

-- The server takes a message of the channel manager.
def Takes (m : Mining) (e : Machine.Event (TranslatorSv2 C) Action) : Prop :=
  e.act = .sv1Server ∧ ∃ q qs, e.pre.channelManagerToSv1Server = q :: qs ∧ q.message = m

-- It makes a `mining.notify` of a job, asks for a channel, or finds that a hashrate has changed.
def Notifies (K : Sv1.Core) (n : Sv1.Notify) (e : Machine.Event (TranslatorSv2 C) Action) : Prop :=
  ∃ m p, Takes (.newExtendedMiningJob m) e ∧ e.pre.sv1.server.prevhash = some p ∧
    K.buildSv1NotifyFromSv2 p m e.pre.sv1.server.cleanJob = some n

def Asks (r : RequestId) (d : DownstreamId) (e : Machine.Event (TranslatorSv2 C) Action) : Prop :=
  e.act = .sv1 .downstream ∧ r = e.pre.sv1.server.requestIdFactory ∧
    ∃ ms, e.pre.sv1.inbox = .openChannel d :: ms

def Retargets (u : Sv1.PendingTargetUpdate) (e : Machine.Event (TranslatorSv2 C) Action) : Prop :=
  e.act = .sv1 .serve ∧ ∃ us all immediate ops,
    e.pre.sv1.todo = .vardiff ((u.downstreamId, u.newHashrate) :: us) all immediate :: ops

-- A share of a miner is judged, by its task or by the server.
def Judges (d : DownstreamId) (e : Machine.Event (TranslatorSv2 C) Action) : Prop :=
  (e.act = .sv1 (.task d) ∧ ∃ o m ops, e.pre.sv1.objects.lookup d = some o ∧
    o.todo = .handle m :: ops) ∨
  (e.act = .sv1 .serve ∧ ∃ c m ops, e.pre.sv1.todo = .handleQueued d c m :: ops)

-- What is taken from a queue, or sent to the upstream, is of the session of the one who does so.
structure Current (tr : Events C) (e : Machine.Event (TranslatorSv2 C) Action) : Prop where
  sv1Server  : e.act = .sv1Server → ∀ q qs, e.pre.channelManagerToSv1Server = q :: qs →
    e.pre.sv1Session ≤ q.session
  downstream : e.act = .downstream → ∀ q qs, e.pre.sv1ServerToChannelManager = q :: qs →
    e.pre.managerSession ≤ q.session
  upstream   : e.act = .upstream → ∀ q qs, e.pre.upstreamToChannelManager = q :: qs →
    e.pre.managerSession ≤ q.session
  send       : e.act = .send → ∀ q qs, e.pre.channelManagerToUpstream = q :: qs →
    e.pre.upstreamSession ≤ q.session
  miner      : e.act = .sv1 .downstream → ∀ m ms, e.pre.sv1.inbox = m :: ms →
    first tr ≤ Sv1.System.sender m

-- What the server uses of what it keeps is of its session. And so is all that the channel manager keeps,
-- its pending requests, its channels with their jobs and prev hashes, and the factories of prefixes: it
-- is as a new one would be that has only taken the messages of the session.
structure Uses (K : Sv1.Core) (cfg : TranslatorConfig) (tr : Events C)
    (e : Machine.Event (TranslatorSv2 C) Action) : Prop where
  prevHash : ∀ m p, Takes (.newExtendedMiningJob m) e → e.pre.sv1.server.prevhash = some p →
    ∃ e' ∈ since tr, Takes (.setNewPrevHash p) e'
  job      : ∀ d o n, Judges d e → e.pre.sv1.objects.lookup d = some o →
    n ∈ e.pre.sv1.server.validJobs o.data.channelId → ∃ e' ∈ since tr, Notifies K n e'
  request  : ∀ m d, Takes (.openExtendedMiningChannelSuccess m) e →
    e.pre.sv1.server.requestIdToDownstreamId.lookup m.requestId = some d →
      ∃ e' ∈ since tr, Asks m.requestId d e'
  target   : ∀ u ops, e.act = .sv1 .serve → e.pre.sv1.todo = .sendPending u :: ops →
    ∃ e' ∈ since tr, Retargets u e'
  manager  : (machine C cfg.manager cfg.mode).exec (.start cfg.mode)
    ((managerSince tr).filterMap taken) = some e.pre.manager

-- The server keeps nothing when it processes a fallback, and does nothing after the channel manager
-- has processed it. Then nothing comes from the old upstream, and no queue to the channel manager
-- holds anything. No other queue does when the next upstream is connected.
structure Drained (s : TranslatorSv2 C) (a : Action) : Prop where
  sv1Fallback     : a = .sv1Fallback → s.sv1.server.prevhash = none ∧
    (∀ c, s.sv1.server.validJobs c = []) ∧
    (∀ r, s.sv1.server.requestIdToDownstreamId.lookup r = none) ∧
    s.sv1.server.pendingTargetUpdates = []
  managerFallback : a = .managerFallback → s.upstreamToChannelManager = [] ∧
    s.sv1ServerToChannelManager = []
  frame           : ∀ f, a = .frame f → s.managerSession ≤ s.upstreamSession
  sv1             : ∀ b, a = .sv1 b → b.isServer → s.managerSession ≤ s.sv1Session
  connect         : a = .connect → s.channelManagerToSv1Server = [] ∧
    s.channelManagerToUpstream = [] ∧ s.sv1.inbox = []

-- The queues hold what is of the session.
structure Sorted (s : TranslatorSv2 C) : Prop where
  sv1      : s.upstreamSession ≤ s.sv1Session
  manager  : s.upstreamSession ≤ s.managerSession
  frames   : ∀ q ∈ s.upstreamToChannelManager, s.managerSession ≤ q.session
  requests : ∀ q ∈ s.sv1ServerToChannelManager, s.managerSession ≤ q.session
  answers  : s.connected → ∀ q ∈ s.channelManagerToSv1Server, s.sv1Session ≤ q.session
  outgoing : ∀ q ∈ s.channelManagerToUpstream, s.upstreamSession ≤ q.session

theorem sorted_withManager {t : System C} (h : s.Sorted) : (s.withManager t).Sorted where
  sv1      := h.sv1
  manager  := h.manager
  frames   := h.frames
  requests := h.requests
  answers hc q hq := by
    cases List.mem_append.mp hq with
    | inl hq => exact h.answers hc q hq
    | inr hq =>
      obtain ⟨m, _, rfl⟩ := List.mem_map.mp hq
      have hs : s.sv1Session = s.upstreamSession := of_decide_eq_true hc
      exact hs ▸ h.manager
  outgoing q hq := by
    cases List.mem_append.mp hq with
    | inl hq => exact h.outgoing q hq
    | inr hq =>
      obtain ⟨m, _, rfl⟩ := List.mem_map.mp hq
      exact h.manager

theorem sorted_withSv1 {t : Sv1.System} (h : s.Sorted)
    (ht : t.forwarded = s.sv1.forwarded ∨ s.managerSession ≤ s.sv1Session) :
    (s.withSv1 t).Sorted where
  sv1      := h.sv1
  manager  := h.manager
  frames   := h.frames
  answers  := h.answers
  outgoing := h.outgoing
  requests q hq := by
    cases List.mem_append.mp hq with
    | inl hq => exact h.requests q hq
    | inr hq =>
      obtain ⟨m, hm, rfl⟩ := List.mem_map.mp hq
      cases ht with
      | inl ht => simp [ht] at hm
      | inr ht => exact ht

theorem sorted_step (h : s.Sorted) (hd : Drained s a) (hst : s.step K cfg a = some s') :
    s'.Sorted := by
  cases moves_of_step hst with
  | @sv1 b t ho _ ht =>
    refine sorted_withSv1 h ?_
    cases hb : b.isServer with
    | false => exact .inl (Sv1.System.forwarded_of_step ht hb)
    | true  => exact .inr (hd.sv1 b rfl hb)
  | @sv1Server q qs t hq _ ht =>
    have hs : ({ s with channelManagerToSv1Server := qs } : TranslatorSv2 C).Sorted :=
      ⟨h.sv1, h.manager, h.frames, h.requests,
        fun hc q' hq' => h.answers hc q' (hq ▸ .tail q hq'), h.outgoing⟩
    exact sorted_withSv1 hs (.inl (Sv1.System.forwarded_of_step ht rfl))
  | @downstream q qs t hq _ =>
    have hs : ({ s with sv1ServerToChannelManager := qs } : TranslatorSv2 C).Sorted :=
      ⟨h.sv1, h.manager, h.frames, fun q' hq' => h.requests q' (hq ▸ .tail q hq'), h.answers,
        h.outgoing⟩
    exact sorted_withManager hs
  | @upstream q qs t hq _ =>
    have hs : ({ s with upstreamToChannelManager := qs } : TranslatorSv2 C).Sorted :=
      ⟨h.sv1, h.manager, fun q' hq' => h.frames q' (hq ▸ .tail q hq'), h.requests, h.answers,
        h.outgoing⟩
    exact sorted_withManager hs
  | @frame f =>
    refine ⟨h.sv1, h.manager, fun q hq => ?_, h.requests, h.answers, h.outgoing⟩
    cases List.mem_append.mp hq with
    | inl hq => exact h.frames q hq
    | inr hq =>
      cases List.mem_singleton.mp hq
      exact hd.frame f rfl
  | @send q qs hq =>
    exact ⟨h.sv1, h.manager, h.frames, h.requests, h.answers,
      fun q' hq' => h.outgoing q' (hq ▸ .tail q hq')⟩
  | managerFallback _ _ =>
    obtain ⟨hu, hm⟩ := hd.managerFallback rfl
    refine ⟨h.sv1, Nat.le_succ_of_le h.manager, ?_, ?_, h.answers, h.outgoing⟩
    case refine_1 => simp [hu]
    case refine_2 => simp [hm]
  | sv1Fallback he _ =>
    refine ⟨Nat.le_succ_of_le h.sv1, h.manager, h.frames, h.requests, fun hc => ?_, h.outgoing⟩
    have hs : s.sv1Session + 1 = s.upstreamSession := of_decide_eq_true hc
    exact absurd (he ▸ hs) (Nat.succ_ne_self _)
  | connect hs =>
    obtain ⟨ha, ho, _⟩ := hd.connect rfl
    simp only [settled, Bool.and_eq_true, decide_eq_true_eq] at hs
    refine ⟨Nat.le_of_eq hs.left.left.symm, Nat.le_of_eq hs.left.right.symm, h.frames, h.requests,
      fun _ => ?_, ?_⟩
    case refine_1 => simp [ha]
    case refine_2 => simp [ho]

theorem since_concat (h : e.act ≠ .sv1Fallback) : since (tr ++ [e]) = since tr ++ [e] := by
  simp [since, h]

theorem first_concat (h : e.act ≠ .sv1Fallback) : first (tr ++ [e]) = first tr := by
  simp [first, h]

theorem first_fallback (h : e.act = .sv1Fallback) :
    first (tr ++ [e]) = e.pre.sv1.server.downstreamIdFactory := by
  simp [first, h]

-- What the server keeps comes from what it has taken since the last fallback.
structure Fresh (K : Sv1.Core) (tr : Events C) (s : Sv1.System) : Prop where
  prevHash : ∀ p, s.server.prevhash = some p → ∃ e ∈ since tr, Takes (.setNewPrevHash p) e
  jobs     : ∀ c n, n ∈ s.server.validJobs c → ∃ e ∈ since tr, Notifies K n e
  requests : ∀ r d, s.server.requestIdToDownstreamId.lookup r = some d →
    ∃ e ∈ since tr, Asks r d e
  updates  : ∀ u ∈ s.server.pendingTargetUpdates, ∃ e ∈ since tr, Retargets u e
  sending  : s.status = .running → ∀ u, .sendPending u ∈ s.todo → ∃ e ∈ since tr, Retargets u e

theorem fresh_sv1 {b : Sv1.Action} {t : Sv1.System} (h : Fresh K tr s.sv1)
    (ht : s.sv1.step K cfg.sv1 b = some t) (hs : e.pre = s) (hne : e.act ≠ .sv1Fallback)
    (hu : ∀ m, b = .upstream m → Takes m e) (hd : b = .downstream → e.act = .sv1 .downstream)
    (hv : b = .serve → e.act = .sv1 .serve) : Fresh K (tr ++ [e]) t := by
  have old {P : Machine.Event (TranslatorSv2 C) Action → Prop} (h : ∃ e' ∈ since tr, P e') :
      ∃ e' ∈ since (tr ++ [e]), P e' := by
    obtain ⟨e', he, hp⟩ := h
    exact ⟨e', since_concat hne ▸ List.mem_append_left _ he, hp⟩
  have new {P : Machine.Event (TranslatorSv2 C) Action → Prop} (hp : P e) :
      ∃ e' ∈ since (tr ++ [e]), P e' :=
    ⟨e, since_concat hne ▸ List.mem_concat_self, hp⟩
  subst hs
  constructor
  case prevHash =>
    intro p hp
    cases Sv1.System.prevhash_of_step ht hp with
    | inl hp => exact old (h.prevHash p hp)
    | inr hb => exact new (hu _ hb)
  case jobs =>
    intro c n hn
    obtain hn | ⟨m, p, hb, hp, hm⟩ := Sv1.System.validJobs_of_step ht hn
    case inl => exact old (h.jobs c n hn)
    case inr => exact new ⟨m, p, hu _ hb, hp, hm⟩
  case requests =>
    intro r d hl
    obtain hl | ⟨hb, hr, hi⟩ := Sv1.System.requests_of_step ht hl
    case inl => exact old (h.requests r d hl)
    case inr => exact new ⟨hd hb, hr, hi⟩
  case updates =>
    intro u hu'
    obtain hu' | ⟨hb, hr⟩ := Sv1.System.updates_of_step ht hu'
    case inl => exact old (h.updates u hu')
    case inr => exact new ⟨hv hb, hr⟩
  case sending =>
    intro hr u hu'
    obtain hu' | hu' := Sv1.System.sendPending_of_step ht hr hu'
    case inl => exact old (h.sending (Sv1.System.running_of_step ht hr) u hu')
    case inr => exact old (h.updates u hu')

theorem fresh_same (h : Fresh K tr s.sv1) (hne : e.act ≠ .sv1Fallback) :
    Fresh K (tr ++ [e]) s.sv1 := by
  have old {P : Machine.Event (TranslatorSv2 C) Action → Prop} (h : ∃ e' ∈ since tr, P e') :
      ∃ e' ∈ since (tr ++ [e]), P e' := by
    obtain ⟨e', he, hp⟩ := h
    exact ⟨e', since_concat hne ▸ List.mem_append_left _ he, hp⟩
  exact ⟨fun p hp => old (h.prevHash p hp), fun c n hn => old (h.jobs c n hn),
    fun r d hl => old (h.requests r d hl), fun u hu => old (h.updates u hu),
    fun hr u hu => old (h.sending hr u hu)⟩

theorem fresh_step (h : Fresh K tr s.sv1) (hd : Drained s a) (hst : s.step K cfg a = some s') :
    Fresh K (tr ++ [⟨s, a, s'⟩]) s'.sv1 := by
  cases moves_of_step hst with
  | @sv1 b t ho _ ht =>
    refine fresh_sv1 h ht rfl (by simp) ?_ (congrArg Action.sv1) (congrArg Action.sv1)
    rintro m rfl
    cases ho
  | @sv1Server q qs t hq _ ht =>
    refine fresh_sv1 h ht rfl (by simp) ?_ (fun hb => by cases hb) (fun hb => by cases hb)
    intro m hm
    exact ⟨rfl, q, qs, hq, Sv1.Action.upstream.inj hm⟩
  | sv1Fallback _ ht =>
    obtain ⟨_, htodo, rfl⟩ := Sv1.System.idle_eq_some ht
    obtain ⟨hp, hj, hr, hu⟩ := hd.sv1Fallback rfl
    constructor
    case prevHash => exact fun p h => by cases hp.symm.trans h
    case requests => exact fun r d h => by cases (hr r).symm.trans h
    case updates =>
      intro u h
      have h : u ∈ s.sv1.server.pendingTargetUpdates := h
      simp [hu] at h
    case sending =>
      intro _ u h
      have h : .sendPending u ∈ s.sv1.todo := h
      simp [htodo] at h
    case jobs =>
      intro c n h
      have h : n ∈ s.sv1.server.validJobs c := h
      simp [hj c] at h
  | _ => exact fresh_same h (by simp)

-- The tasks that run are of miners that have come since the last fallback, and so are the messages
-- for the server.
structure Aged (tr : Events C) (s : TranslatorSv2 C) : Prop where
  signed  : s.sv1.Signed
  factory : first tr ≤ s.sv1.server.downstreamIdFactory
  objects : s.connected → ∀ d o, s.sv1.objects.lookup d = some o → o.runs → first tr ≤ d
  inbox   : s.connected → ∀ m ∈ s.sv1.inbox, first tr ≤ Sv1.System.sender m

theorem aged_sv1 {b : Sv1.Action} {t : Sv1.System} (h : Aged tr s)
    (ht : s.sv1.step K cfg.sv1 b = some t) (hne : e.act ≠ .sv1Fallback)
    (ho : s'.sv1 = t) (hc : s'.connected = s.connected) : Aged (tr ++ [e]) s' where
  signed  := ho ▸ Sv1.System.signed_step h.signed ht
  factory := by
    rw [first_concat hne, ho]
    exact Nat.le_trans h.factory (Sv1.System.downstreamIdFactory_of_step ht)
  objects hs d o' ho' hr := by
    rw [first_concat hne]
    rw [ho] at ho'
    obtain ⟨_, rfl, _⟩ | ⟨o, ho, he⟩ := Sv1.System.evolves_of_step ht ho'
    case inl => exact h.factory
    case inr => exact h.objects (hc ▸ hs) d o ho (Sv1.System.evolves_runs he hr)
  inbox hs m hm := by
    rw [first_concat hne]
    rw [ho] at hm
    obtain hm | ⟨o, _, ho, hr⟩ := Sv1.System.inbox_of_step h.signed ht hm
    case inl => exact h.inbox (hc ▸ hs) m hm
    case inr => exact h.objects (hc ▸ hs) _ o ho hr

theorem aged_same (h : Aged tr s) (hne : e.act ≠ .sv1Fallback) (ho : s'.sv1 = s.sv1)
    (hc : s'.connected → s.connected) : Aged (tr ++ [e]) s' where
  signed             := ho ▸ h.signed
  factory            := by
    rw [first_concat hne, ho]
    exact h.factory
  objects hs d o hl  := by
    rw [first_concat hne]
    exact h.objects (hc hs) d o (ho ▸ hl)
  inbox hs m hm      := by
    rw [first_concat hne]
    exact h.inbox (hc hs) m (ho ▸ hm)

theorem aged_step (h : Aged tr s) (hd : Drained s a) (hst : s.step K cfg a = some s') :
    Aged (tr ++ [⟨s, a, s'⟩]) s' := by
  cases moves_of_step hst with
  | sv1 _ _ ht          => exact aged_sv1 h ht (by simp) rfl rfl
  | sv1Server _ _ ht    => exact aged_sv1 h ht (by simp) rfl rfl
  | downstream          => exact aged_same h (by simp) rfl id
  | upstream            => exact aged_same h (by simp) rfl id
  | frame               => exact aged_same h (by simp) rfl id
  | send                => exact aged_same h (by simp) rfl id
  | managerFallback     => exact aged_same h (by simp) rfl id
  | sv1Fallback he ht   =>
    have hne : ¬({ s with sv1Session := s.sv1Session + 1 } : TranslatorSv2 C).connected := by
      intro hc
      have hs : s.sv1Session + 1 = s.upstreamSession := of_decide_eq_true hc
      exact absurd (he ▸ hs) (Nat.succ_ne_self _)
    refine ⟨Sv1.System.signed_step h.signed ht, ?_, fun hc => absurd hc hne, fun hc => absurd hc hne⟩
    rw [first_fallback rfl]
    exact Sv1.System.downstreamIdFactory_of_step ht
  | connect hs          =>
    obtain ⟨_, _, hi⟩ := hd.connect rfl
    obtain ⟨_, hs⟩ := Bool.and_eq_true_iff.mp hs
    refine ⟨h.signed, ?_, fun _ d o ho hr => ?_, fun _ m hm => ?_⟩
    case refine_1 =>
      rw [first_concat (by simp)]
      exact h.factory
    case refine_2 =>
      have hn := List.all_eq_true.mp hs ⟨d, o⟩ (AList.mem_lookup_iff.mp ho)
      simp [hr] at hn
    case refine_3 =>
      have hm : m ∈ s.sv1.inbox := hm
      simp [hi] at hm

-- The channel manager is what has become of a new one.
def Replays (cfg : TranslatorConfig) (tr : Events C) (s : TranslatorSv2 C) : Prop :=
  (machine C cfg.manager cfg.mode).exec (.start cfg.mode) ((managerSince tr).filterMap taken) =
    some s.manager

theorem replays_same (h : Replays cfg tr s) (hne : e.act ≠ .managerFallback) (ht : taken e = none)
    (hm : s'.manager = s.manager) : Replays cfg (tr ++ [e]) s' := by
  rw [Replays, managerSince, List.foldl_append, List.foldl_cons, List.foldl_nil, if_neg hne,
    List.filterMap_append, List.filterMap_cons_none ht, List.filterMap_nil, List.append_nil, hm]
  exact h

theorem replays_takes {b : Translator.Action} {t : System C} (h : Replays cfg tr s)
    (hne : e.act ≠ .managerFallback) (ht : taken e = some b)
    (hst : s.manager.step cfg.manager b = some t) (hm : s'.manager = t) :
    Replays cfg (tr ++ [e]) s' := by
  rw [Replays, managerSince, List.foldl_append, List.foldl_cons, List.foldl_nil, if_neg hne,
    List.filterMap_append, List.filterMap_cons_some ht, List.filterMap_nil, Machine.exec_append,
    ← managerSince, h, hm]
  simp [Machine.exec, machine, hst]

theorem mode_of_replays (h : Replays cfg tr s) : s.manager.manager.mode = cfg.mode :=
  (Machine.Run.of_exec (M := machine C cfg.manager cfg.mode) System.start_init h).reachable.invariant
    (I := fun s => s.manager.mode = cfg.mode) (fun _ hi => by rw [hi.manager]; rfl)
    fun _ _ _ hi hst => (System.mode_step hst).trans hi

theorem replays_step (h : Replays cfg tr s) (hst : s.step K cfg a = some s') :
    Replays cfg (tr ++ [⟨s, a, s'⟩]) s' := by
  cases moves_of_step hst with
  | downstream hq ht    => exact replays_takes h (by simp) (by simp [taken, hq]) ht rfl
  | upstream hq ht      => exact replays_takes h (by simp) (by simp [taken, hq]) ht rfl
  | managerFallback _ ht =>
    have hr : s.manager.status = .running := (System.moves_of_step ht).left
    have hm : s.manager.manager.mode = cfg.mode := mode_of_replays h
    rw [System.step, hr] at ht
    cases ht
    rw [Replays, managerSince, List.foldl_append, List.foldl_cons, List.foldl_nil, if_pos rfl]
    simp [Machine.exec, System.act, System.start, hr, ChannelManager.resetForUpstreamReconnection, hm]
  | _                   => exact replays_same h (by simp) rfl rfl

-- The invariant of a run.
structure Renewed (K : Sv1.Core) (cfg : TranslatorConfig) (tr : Events C) (s : TranslatorSv2 C) :
    Prop where
  sorted  : s.Sorted
  fresh   : Fresh K tr s.sv1
  aged    : Aged tr s
  replays : Replays cfg tr s

theorem renewed_start : Renewed K cfg [] (start C cfg) where
  replays := rfl
  sorted := ⟨Nat.le_refl _, Nat.le_refl _, fun _ h => (by cases h), fun _ h => (by cases h),
    fun _ _ h => (by cases h), fun _ h => (by cases h)⟩
  fresh  := by
    refine ⟨fun _ h => (by cases h), fun c n h => ?_, fun _ _ h => (by cases h),
      fun _ h => (by cases h), fun _ _ h => (by cases h)⟩
    cases hc : cfg.sv1.aggregateChannels <;> cases c <;>
      simp [start, Sv1.System.new, Sv1.Sv1Server.new, Sv1.Sv1Server.validJobs, hc] at h
  aged   := ⟨fun _ _ h => (by cases h), Nat.zero_le _, fun _ _ _ h => (by cases h),
    fun _ _ h => (by cases h)⟩

theorem Renewed.current (h : Renewed K cfg tr s) (hst : s.step K cfg a = some s') :
    Current tr ⟨s, a, s'⟩ where
  sv1Server ha q qs hq  := by
    cases moves_of_step hst with
    | sv1Server _ hc _ => exact h.sorted.answers hc q (hq ▸ List.mem_cons_self)
    | _                => cases ha
  downstream _ q qs hq  := h.sorted.requests q (hq ▸ List.mem_cons_self)
  upstream _ q qs hq    := h.sorted.frames q (hq ▸ List.mem_cons_self)
  send _ q qs hq        := h.sorted.outgoing q (hq ▸ List.mem_cons_self)
  miner ha m ms hm      := by
    cases ha
    cases moves_of_step hst with
    | sv1 _ hc _ => exact h.aged.inbox (hc rfl) m (hm ▸ List.mem_cons_self)

theorem Renewed.uses (h : Renewed K cfg tr s) (hst : s.step K cfg a = some s') :
    Uses K cfg tr ⟨s, a, s'⟩ where
  manager              := h.replays
  prevHash _ p _ hp    := h.fresh.prevHash p hp
  job _ _ n _ _ hn     := h.fresh.jobs _ n hn
  request _ d _ hl     := h.fresh.requests _ d hl
  target u ops ha hu   := by
    cases ha
    cases moves_of_step hst with
    | sv1 _ _ ht =>
      obtain ⟨_, _, _, hr, _⟩ := Sv1.System.serve_eq_some ht
      exact h.fresh.sending hr u (hu ▸ List.mem_cons_self)

theorem renewed_of_run (r : (translator C K cfg).Run tr s) (hd : Machine.Along Drained tr) :
    Machine.History (fun tr e => Current tr e ∧ Uses K cfg tr e) tr ∧ Renewed K cfg tr s := by
  obtain ⟨s₀, rfl, p⟩ := r
  induction p with
  | nil => exact ⟨.nil, renewed_start⟩
  | snoc p hst ih =>
    obtain ⟨hd, ha⟩ := Machine.Along.snoc.mp hd
    obtain ⟨hh, hr⟩ := ih hd
    exact ⟨Machine.History.snoc.mpr ⟨hh, hr.current hst, hr.uses hst⟩, sorted_step hr.sorted ha hst,
      fresh_step hr.fresh ha hst, aged_step hr.aged ha hst, replays_step hr.replays hst⟩

theorem current_of_run (r : (translator C K cfg).Run tr s) (hd : Machine.Along Drained tr) :
    Machine.History (fun tr e => Current tr e ∧ Uses K cfg tr e) tr :=
  (renewed_of_run r hd).left

namespace Fallback

open OneMiner

-- The answer to an open request waits when the channel manager starts over. It makes the manager fail.
def answered : List Action :=
  own (Sv1.Reference.Sample.connect 1 ⟨1, .subscribe⟩) ++ [.downstream] ++
    (pass (Sv1.Reference.Sample.success 1 5)).take 1 ++ [.managerFallback]

theorem answered_fatal : ((translator reference Sv1.Reference.core (config false false)).exec
    (.start reference (config false false)) answered).any fun s => s.managerSession = 1 ∧
      (s.upstreamToChannelManager.map (·.session)) = [0] ∧
      ((translator reference Sv1.Reference.core (config false false)).step s .upstream).any
        (·.manager.status ≠ .running) := by
  decide +kernel

-- All that the first upstream has asked for is done when the second one is connected.
def settledRun : List Action :=
  opened 1 1 5 ++ own [.stop 1] ++ [.send, .sv1Fallback, .managerFallback, .connect] ++
    own [.accept]

theorem settledRun_exec : ((translator reference Sv1.Reference.core (config false false)).exec
    (.start reference (config false false)) settledRun).any fun s =>
      s.upstreamSession = 1 ∧ s.sv1.server.downstreams = [2] := by
  decide +kernel

def isFrame : Action → Bool
  | .frame _ => true
  | _        => false

def isServerAction : Action → Bool
  | .sv1 b => b.isServer
  | _      => false

def drained (e : Machine.Event (TranslatorSv2 reference) Action) : Bool :=
  (e.act ≠ .sv1Fallback || e.pre.sv1.server.prevhash.isNone &&
    e.pre.sv1.server.aggregatedValidJobs.isNone &&
    e.pre.sv1.server.nonAggregatedValidJobs.all (·.keys = []) &&
    e.pre.sv1.server.requestIdToDownstreamId.keys = [] &&
    e.pre.sv1.server.pendingTargetUpdates = []) &&
  (e.act ≠ .managerFallback || e.pre.upstreamToChannelManager = [] &&
    e.pre.sv1ServerToChannelManager = []) &&
  (!isFrame e.act || decide (e.pre.managerSession ≤ e.pre.upstreamSession)) &&
  (!isServerAction e.act || decide (e.pre.managerSession ≤ e.pre.sv1Session)) &&
  (e.act ≠ .connect || e.pre.channelManagerToSv1Server = [] &&
    e.pre.channelManagerToUpstream = [] && e.pre.sv1.inbox = [])

theorem lookup_of_keys {κ α : Type} [DecidableEq κ] {m : Map κ α} (h : m.keys = []) (k : κ) :
    m.lookup k = none := by
  rw [AList.lookup_eq_none, AList.mem_keys, h]
  exact List.not_mem_nil

theorem drained_sound {e : Machine.Event (TranslatorSv2 reference) Action} (h : drained e) :
    Drained e.pre e.act := by
  obtain ⟨h, hc⟩ := Bool.and_eq_true_iff.mp h
  obtain ⟨h, hs⟩ := Bool.and_eq_true_iff.mp h
  obtain ⟨h, hf⟩ := Bool.and_eq_true_iff.mp h
  obtain ⟨hd, hm⟩ := Bool.and_eq_true_iff.mp h
  constructor
  case sv1Fallback =>
    intro ha
    simp only [ha, ne_eq, not_true_eq_false, decide_false, Bool.false_or, Bool.and_eq_true,
      Option.isNone_iff_eq_none, decide_eq_true_eq] at hd
    obtain ⟨⟨⟨⟨hp, hj⟩, hn⟩, hr⟩, hu⟩ := hd
    refine ⟨hp, fun c => ?_, lookup_of_keys hr, hu⟩
    rw [Sv1.Sv1Server.validJobs.eq_def, hj]
    cases hl : e.pre.sv1.server.nonAggregatedValidJobs with
    | none      => rfl
    | some jobs =>
      rw [hl, Option.all_some, decide_eq_true_eq] at hn
      cases c with
      | none   => rfl
      | some c => simp [lookup_of_keys hn c]
  case managerFallback =>
    intro ha
    simpa [ha] using hm
  case frame =>
    intro f ha
    simpa [ha, isFrame] using hf
  case sv1 =>
    intro b ha hb
    simpa [ha, isServerAction, hb] using hs
  case connect =>
    intro ha
    simpa [ha, and_assoc] using hc

theorem settledRun_drained : ((translator reference Sv1.Reference.core (config false false)).trace
    (.start reference (config false false)) settledRun).all drained := by
  decide +kernel

end Fallback

open OneMiner Fallback in
theorem not_all_current : ¬∀ tr s,
    (translator reference Sv1.Reference.core (config false false)).Run tr s →
      Machine.History
        (fun tr e => Current tr e ∧ Uses Sv1.Reference.core (config false false) tr e) tr := by
  intro h
  obtain ⟨s, hs, hf⟩ := Option.any_eq_true _ _ |>.mp answered_fatal
  obtain ⟨hm, hq, hf⟩ := of_decide_eq_true hf
  obtain ⟨s', hs', _⟩ := Option.any_eq_true _ _ |>.mp hf
  have r := (Machine.Run.of_exec (M := translator reference Sv1.Reference.core (config false false))
    rfl hs).snoc hs'
  obtain ⟨q, qs, hqs, hq, _⟩ := List.map_eq_cons_iff.mp hq
  have hc := (Machine.History.snoc.mp (h _ s' r)).right.left.upstream rfl q qs hqs
  rw [hm, hq] at hc
  exact absurd hc (by decide)

open OneMiner Fallback in
theorem current_sample : ∃ tr s,
    (translator reference Sv1.Reference.core (config false false)).Run tr s ∧
    s.upstreamSession = 1 ∧ s.sv1.server.downstreams = [2] ∧
    Machine.History
      (fun tr e => Current tr e ∧ Uses Sv1.Reference.core (config false false) tr e) tr := by
  obtain ⟨s, hs, hn⟩ := Option.any_eq_true _ _ |>.mp settledRun_exec
  obtain ⟨hn, hd⟩ := of_decide_eq_true hn
  have r := Machine.Run.of_exec (M := translator reference Sv1.Reference.core (config false false))
    rfl hs
  refine ⟨_, s, r, hn, hd, current_of_run r fun e he => ?_⟩
  exact drained_sound (List.all_eq_true.mp settledRun_drained e he)

end TranslatorSv2

end Translator
