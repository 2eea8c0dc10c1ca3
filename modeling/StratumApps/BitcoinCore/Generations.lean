import StratumApps.BitcoinCore.Monitors
import StratumApps.BitcoinCore.Transactions

open Sv2 Handler

-- The messages that tell of a template or of a chain tip.
def Sv2.TemplateDistribution.isAnnouncement : TemplateDistribution → Bool
  | .newTemplate _ | .setNewPrevHash _ => true
  | _                                  => false

namespace BitcoinCore

variable {L : Library}

namespace BitcoinCoreSv2

variable {s s' : BitcoinCoreSv2} {t : TemplateData} {ms : List TemplateDistribution}

-- What the tasks other than the monitors do to the cells.
structure Answers (s s' : BitcoinCoreSv2) : Prop where
  cancelled       : s.globalCancellationToken = true → s'.globalCancellationToken = true
  currentPrevHash : s'.currentPrevHash = s.currentPrevHash
  sent            : ∃ ms, s'.outgoingMessages = s.outgoingMessages ++ ms ∧
    ∀ m ∈ ms, m.isAnnouncement = false

namespace Answers

theorem silent (hc : s.globalCancellationToken = true → s'.globalCancellationToken = true)
    (hp : s'.currentPrevHash = s.currentPrevHash) (hs : s'.outgoingMessages = s.outgoingMessages) :
    s.Answers s' where
  cancelled       := hc
  currentPrevHash := hp
  sent            := ⟨[], by rw [hs, List.append_nil], by simp⟩

theorem send (h : ∀ m ∈ ms, m.isAnnouncement = false) : s.Answers (s.send ms) where
  cancelled       := id
  currentPrevHash := rfl
  sent            := ⟨ms, rfl, h⟩

theorem handleRequestTransactionData {msg : RequestTransactionData} :
    s.Answers (s.handleRequestTransactionData L msg) := by
  rw [BitcoinCoreSv2.handleRequestTransactionData]
  split
  case isTrue => exact send (by simp [TemplateDistribution.isAnnouncement])
  case isFalse =>
    split
    case h_2 => exact send (by simp [TemplateDistribution.isAnnouncement])
    case h_1 =>
      split
      case h_2 => exact send (by simp [TemplateDistribution.isAnnouncement])
      case h_1 e _ =>
        cases e with
        | err      => exact silent (fun _ => rfl) rfl rfl
        | panicked => exact silent id rfl rfl

theorem expire {i : ℕ} (h : s.step L (.expire i) = some s') : s.Answers s' := by
  obtain ⟨ids, _, rfl⟩ := Option.map_eq_some_iff.mp h
  exact silent id rfl rfl

end Answers

end BitcoinCoreSv2

namespace Phase

-- The monitor goes on when what it waits for comes about. In front of a pending `waitNext` it does so
-- only if nothing has been cancelled and the constraints are those from the time of the request.
def Survives (counter : UInt32) (cancelled : Bool) : Phase → Prop
  | .exited     => False
  | .waiting _ n => cancelled = false ∧ n = counter
  | _           => True

instance (counter : UInt32) (cancelled : Bool) :
    DecidablePred (Survives counter cancelled) := fun p =>
  match p with
  | .exited       => isFalse id
  | .waiting _ n  => inferInstanceAs (Decidable (cancelled = false ∧ n = counter))
  | .starting | .fetching .. | .announcing .. | .activating .. | .sleeping .. | .updating .. =>
    isTrue trivial

-- The template that the monitor waits with.
def template? : Phase → Option Template
  | .waiting template _ | .fetching template _ | .announcing template _ _ | .sleeping template _
  | .updating template _ _ => some template
  | _                      => none

variable {p : Phase} {counter : UInt32} {cancelled cancelled' : Bool}

theorem Survives.of_cancelled (h : p.Survives counter cancelled')
    (hc : cancelled = true → cancelled' = true) : p.Survives counter cancelled := by
  cases p with
  | waiting _ n =>
    refine ⟨?_, h.right⟩
    cases cancelled with
    | false => rfl
    | true  => exact absurd (hc rfl) (by simp [h.left])
  | exited => exact h
  | starting | fetching | announcing | activating | sleeping | updating => trivial

end Phase

namespace Instance

variable {s s' : Instance} {a : Action} {i : ℕ} {p p' : Phase} {T template base : Template}
variable {t : TemplateData} {message : NewTemplate} {n : UInt32}
variable {tr : List (Machine.Event Instance Action)}

def Survives (s : Instance) (p : Phase) : Prop :=
  p.Survives s.coinbaseOutputConstraintsCounter s.cancelled

-- Once the pending waits have returned, there is at most one monitor, and no template is sent that was
-- built under older constraints than those that a sender before was spawned for.
structure Exclusive (s : Instance) : Prop where
  alone : ∀ (i j : ℕ) (p q : Phase), s.monitors[i]? = some p → s.monitors[j]? = some q →
    s.Survives p → s.Survives q → i = j
  newer : s.announced.Pairwise fun a b => a.1 + 1 ≤ b.2

-- New constraints find every monitor in front of a `waitNext` that will end it.
def Settled (s : Instance) : Action → Prop
  | .coinbaseOutputConstraints _ =>
    ∀ p ∈ s.monitors, ¬p.Survives (s.coinbaseOutputConstraintsCounter + 1) s.cancelled
  | _                            => True

-- What becomes of a monitor when something it has waited for comes about.
structure Moves (s : Instance) (i : ℕ) (p p' : Phase) (s' : Instance) : Prop where
  monitors  : s'.monitors = s.monitors.set i p'
  counter   : s'.coinbaseOutputConstraintsCounter = s.coinbaseOutputConstraintsCounter
  cancelled : s.cancelled = true → s'.cancelled = true
  survives  : s'.Survives p' → s.Survives p
  current   : s'.currentTemplateIpcClient = s.currentTemplateIpcClient ∨ s.Survives p ∧ ∃ T T',
    p.template? = some T ∧ s'.currentTemplateIpcClient = some T' ∧ T'.constraints = T.constraints
  held      : ∀ T', p'.template? = some T' → s.Survives p ∧
    ((∃ T, p.template? = some T ∧ T'.constraints = T.constraints) ∨
      s.currentTemplateIpcClient = some T')
  announced : s'.announced = s.announced ∨ s.Survives p ∧ ∃ T, p.template? = some T ∧
    s'.announced = s.announced ++ [(i, T.constraints)]

namespace Moves

theorem exit (hm : s'.monitors = s.monitors.set i .exited)
    (hc : s'.coinbaseOutputConstraintsCounter = s.coinbaseOutputConstraintsCounter)
    (hx : s.cancelled = true → s'.cancelled = true)
    (ht : s'.currentTemplateIpcClient = s.currentTemplateIpcClient)
    (ha : s'.announced = s.announced) : s.Moves i p .exited s' where
  monitors  := hm
  counter   := hc
  cancelled := hx
  survives  := False.elim
  current   := .inl ht
  held _ h  := nomatch h
  announced := .inl ha

theorem fail : s.Moves i p .exited (s.fail i) :=
  .exit rfl rfl (fun _ => rfl) rfl rfl

theorem failWith {ε : Type} (e : Fault ε) : s.Moves i p .exited (s.failWith i e) := by
  cases e with
  | err e    => exact fail
  | panicked => exact .exit rfl rfl id rfl rfl

-- A monitor that goes on waits for what follows on the current template.
theorem newWaitNextRequest {s₁ : Instance} (hp : s.Survives p) (hm : s₁.monitors = s.monitors)
    (hc : s₁.coinbaseOutputConstraintsCounter = s.coinbaseOutputConstraintsCounter)
    (hx : s₁.cancelled = s.cancelled)
    (ht : s₁.currentTemplateIpcClient = s.currentTemplateIpcClient)
    (ha : s₁.announced = s.announced ∨ ∃ T, p.template? = some T ∧
      s₁.announced = s.announced ++ [(i, T.constraints)]) :
    ∃ p', s.Moves i p p' (s₁.newWaitNextRequest i) := by
  have ha' : s₁.announced = s.announced ∨ s.Survives p ∧ ∃ T, p.template? = some T ∧
      s₁.announced = s.announced ++ [(i, T.constraints)] := ha.imp_right fun h => ⟨hp, h⟩
  rw [Instance.newWaitNextRequest.eq_def]
  split
  case h_1 e _ =>
    cases e with
    | err      => exact ⟨.exited, congrArg (List.set · i _) hm, hc, fun _ => rfl, False.elim, .inl ht,
        fun _ h => (nomatch h), ha'⟩
    | panicked => exact ⟨.exited, congrArg (List.set · i _) hm, hc, fun h => hx.trans h, False.elim,
        .inl ht, fun _ h => (nomatch h), ha'⟩
  case h_2 base hb =>
    refine ⟨.waiting base s₁.coinbaseOutputConstraintsCounter, congrArg (List.set · i _) hm, hc,
      fun h => hx.trans h, fun _ => hp, .inl ht, fun T hT => ?_, ha'⟩
    cases hT
    exact ⟨hp, .inr (ht ▸ current_of_waitNextRequest hb)⟩

-- A monitor that goes on with the template it waits with.
theorem keeps {s₁ : Instance} (hp : s.Survives p) (hm : s₁.monitors = s.monitors)
    (hc : s₁.coinbaseOutputConstraintsCounter = s.coinbaseOutputConstraintsCounter)
    (hx : s₁.cancelled = s.cancelled)
    (ht : s₁.currentTemplateIpcClient = s.currentTemplateIpcClient)
    (ha : s₁.announced = s.announced ∨ ∃ T, p.template? = some T ∧
      s₁.announced = s.announced ++ [(i, T.constraints)])
    (hp' : p'.template? = none ∨ p'.template? = p.template?) :
    s.Moves i p p' (s₁.setMonitor i p') where
  monitors  := congrArg (List.set · i p') hm
  counter   := hc
  cancelled := hx.trans
  survives _ := hp
  current   := .inl ht
  held T hT := by
    obtain hn | he := hp'
    · cases hn.symm.trans hT
    · exact ⟨hp, .inl ⟨T, he ▸ hT, rfl⟩⟩
  announced := ha.imp_right fun h => ⟨hp, h⟩

theorem onWaitNext (reply : Reply) :
    ∃ p', s.Moves i (.waiting base n) p' (s.onWaitNext i base n reply) := by
  rw [Instance.onWaitNext.eq_def]
  split
  case h_1 => exact ⟨_, fail⟩
  case h_2 =>
    dsimp only
    split
    case isTrue => exact ⟨.exited, .exit rfl rfl id rfl rfl⟩
    case isFalse h =>
      rw [not_or, Bool.not_eq_true, ne_eq, not_not] at h
      have hp : s.Survives (.waiting base n) := ⟨h.left, h.right.symm⟩
      cases reply with
      | timeout          => exact newWaitNextRequest hp rfl rfl rfl rfl (.inl rfl)
      | invalid | failed => exact ⟨.exited, .exit rfl rfl (fun _ => rfl) rfl rfl⟩
      | template client  =>
        refine ⟨_, rfl, rfl, id, fun _ => hp, .inr ⟨hp, _, _, rfl, rfl, rfl⟩, ?_, .inl rfl⟩
        intro T hT
        cases hT
        exact ⟨hp, .inl ⟨_, rfl, rfl⟩⟩

theorem onTemplateData (hp : s.Survives p) (hT : p.template? = some template) :
    ∃ p', s.Moves i p p' (s.onTemplateData L i template t) := by
  rw [Instance.onTemplateData.eq_def]
  split
  case h_1 => exact ⟨_, fail⟩
  case h_2 =>
    split
    case isFalse => exact ⟨_, keeps hp rfl rfl rfl rfl (.inl rfl) (.inr hT.symm)⟩
    case isTrue =>
      dsimp only
      split
      case h_2 => exact ⟨_, keeps hp rfl rfl rfl rfl (.inl rfl) (.inr hT.symm)⟩
      case h_1 e _ =>
        cases e with
        | err      => exact ⟨_, .exit rfl rfl (fun _ => rfl) rfl rfl⟩
        | panicked => exact ⟨_, .exit rfl rfl id rfl rfl⟩

theorem onFetch {templateId : TemplateId} : ∃ p', s.Moves i (.fetching template templateId) p'
    (s.onFetch L i template templateId) := by
  rw [Instance.onFetch.eq_def]
  split
  case h_1 => exact ⟨_, failWith _⟩
  case h_2 => exact onTemplateData trivial rfl

theorem onWake : ∃ p', s.Moves i (.sleeping template t) p' (s.onWake L i template t) := by
  rw [Instance.onWake.eq_def]
  split
  case h_1 => exact ⟨_, failWith _⟩
  case h_2 => exact ⟨_, keeps trivial rfl rfl rfl rfl (.inl rfl) (.inr rfl)⟩

theorem onSend (h : s.onSend L i p = some s') : ∃ p', s.Moves i p p' s' := by
  cases p with
  | announcing =>
    cases h
    exact ⟨_, keeps trivial rfl rfl rfl rfl (.inr ⟨_, rfl, rfl⟩) (.inl rfl)⟩
  | activating =>
    cases h
    exact newWaitNextRequest trivial rfl rfl rfl rfl (.inl rfl)
  | updating   =>
    cases h
    exact newWaitNextRequest trivial rfl rfl rfl rfl (.inr ⟨_, rfl, rfl⟩)
  | starting | waiting | fetching | sleeping | exited => cases h

theorem onFail (h : s.onFail i p = some s') : ∃ p', s.Moves i p p' s' := by
  cases p with
  | starting | announcing | activating | updating =>
    cases h
    exact ⟨_, fail⟩
  | waiting | fetching | sleeping | exited => cases h

end Moves

-- Something comes about that a monitor has waited for.
inductive Progress (L : Library) (s : Instance) (i : ℕ) : Phase → Instance → Prop
  | start : Progress L s i .starting (s.newWaitNextRequest i)
  | waitNext (base : Template) (n : UInt32) (reply : Reply) :
    Progress L s i (.waiting base n) (s.onWaitNext i base n reply)
  | fetch (template : Template) (templateId : TemplateId) :
    Progress L s i (.fetching template templateId) (s.onFetch L i template templateId)
  | wake (template : Template) (t : TemplateData) :
    Progress L s i (.sleeping template t) (s.onWake L i template t)
  | send {p : Phase} {s' : Instance} (h : s.onSend L i p = some s') : Progress L s i p s'
  | fail {p : Phase} {s' : Instance} (h : s.onFail i p = some s') : Progress L s i p s'

theorem Progress.moves (h : s.Progress L i p s') : ∃ p', s.Moves i p p' s' := by
  cases h with
  | start                  => exact Moves.newWaitNextRequest trivial rfl rfl rfl rfl (.inl rfl)
  | waitNext base n reply  => exact Moves.onWaitNext reply
  | fetch template id      => exact Moves.onFetch
  | wake template t        => exact Moves.onWake
  | send h                 => exact Moves.onSend h
  | fail h                 => exact Moves.onFail h

-- The steps: the instance starts, a monitor goes on, another monitor is spawned for new constraints, or
-- nothing of that kind happens.
theorem step_cases (h : s.step L a = some s') :
    (∃ client, a = .run client ∧ s.cells.currentPrevHash = none ∧ s.cancelled = false ∧
      s' = s.run L client) ∨
    (∃ i p, s.monitors[i]? = some p ∧ s.Progress L i p s') ∨
    (∃ client, a = .coinbaseOutputConstraints client ∧ s.cells.monitorsMessages = true ∧
      s' = s.handleCoinbaseOutputConstraints client) ∨
    ∃ cells, s' = s.setCells cells ∧ s.cells.Answers cells := by
  cases a <;> simp only [step] at h
  case run client =>
    split at h <;> cases h
    case isTrue hr =>
      rw [Option.isNone_iff_eq_none, Bool.not_eq_true] at hr
      exact .inl ⟨client, rfl, hr.left, hr.right, rfl⟩
  case start i =>
    split at h <;> cases h
    case h_1 hp => exact .inr <| .inl ⟨i, _, hp, .start⟩
  case waitNext i reply =>
    split at h <;> cases h
    case h_1 base n hp => exact .inr <| .inl ⟨i, _, hp, .waitNext base n reply⟩
  case fetch i =>
    split at h <;> cases h
    case h_1 template id hp => exact .inr <| .inl ⟨i, _, hp, .fetch template id⟩
  case wake i =>
    split at h <;> cases h
    case h_1 template t hp => exact .inr <| .inl ⟨i, _, hp, .wake template t⟩
  case send i =>
    have ⟨p, hp, h⟩ := Option.bind_eq_some_iff.mp h
    exact .inr <| .inl ⟨i, p, hp, .send h⟩
  case fail i =>
    have ⟨p, hp, h⟩ := Option.bind_eq_some_iff.mp h
    exact .inr <| .inl ⟨i, p, hp, .fail h⟩
  case coinbaseOutputConstraints client =>
    split at h <;> cases h
    case isTrue hm => exact .inr <| .inr <| .inl ⟨client, rfl, hm, rfl⟩
  case constraintsFail =>
    split at h <;> cases h
    exact .inr <| .inr <| .inr ⟨_, rfl, .silent (fun _ => rfl) rfl rfl⟩
  case requestTransactionData msg =>
    split at h <;> cases h
    exact .inr <| .inr <| .inr ⟨_, rfl, .handleRequestTransactionData⟩
  case expire i =>
    obtain ⟨cells, hc, rfl⟩ := Option.map_eq_some_iff.mp h
    exact .inr <| .inr <| .inr ⟨cells, rfl, .expire hc⟩
  case cancel =>
    cases h
    exact .inr <| .inr <| .inr ⟨_, rfl, .silent (fun _ => rfl) rfl rfl⟩

theorem getElem?_spawned {ps : List Phase} {i : ℕ} (h : (ps ++ [.starting])[i]? = some p) :
    ps[i]? = some p ∨ i = ps.length ∧ p = .starting := by
  rw [List.getElem?_append] at h
  split at h
  case isTrue => exact .inl h
  case isFalse hi =>
    rw [List.getElem?_singleton] at h
    split at h <;> cases h
    exact .inr ⟨by omega, rfl⟩

-- All but the last monitor are about to end, and what the last one and the instance hold belongs to the
-- constraints that it was spawned for.
structure Single (s : Instance) : Prop where
  last    : ∀ i p, s.monitors[i]? = some p → s.Survives p → i + 1 = s.monitors.length
  current : ∀ T, s.currentTemplateIpcClient = some T → s.monitors ≠ [] →
    T.constraints = s.monitors.length
  held    : ∀ (i : ℕ) p T, s.monitors[i]? = some p → s.Survives p → p.template? = some T →
    T.constraints = s.monitors.length
  senders : ∀ a ∈ s.announced, a.1 + 1 ≤ s.monitors.length
  newer   : s.announced.Pairwise fun a b => a.1 + 1 ≤ b.2

namespace Single

theorem new : Single .new where
  last _ _ h _     := nomatch h
  current _ h      := nomatch h
  held _ _ _ h _ _ := nomatch h
  senders _ h      := nomatch h
  newer            := .nil

theorem exclusive (h : s.Single) : s.Exclusive where
  alone i j p q hp hq hsp hsq := Nat.succ_injective ((h.last i p hp hsp).trans (h.last j q hq hsq).symm)
  newer                       := h.newer

-- Nothing brings a monitor back that is about to end.
theorem moves (h : s.Single) (hp : s.monitors[i]? = some p) (hm : s.Moves i p p' s') : s'.Single := by
  have hl : s'.monitors.length = s.monitors.length := by rw [hm.monitors, List.length_set]
  have hi : i < s.monitors.length := (List.getElem?_eq_some_iff.mp hp).choose
  have hne : s.monitors ≠ [] := List.ne_nil_of_length_pos (Nat.zero_lt_of_lt hi)
  -- The monitors in the new state, and what is known of them from before.
  have hold (j : ℕ) (q) (hq : s'.monitors[j]? = some q) (hs : s'.Survives q) :
      j = i ∧ q = p' ∧ s.Survives p ∨ s.monitors[j]? = some q ∧ s.Survives q := by
    rw [hm.monitors, List.getElem?_set] at hq
    split at hq
    case isTrue he =>
      cases hq
      exact .inl ⟨he.symm, rfl, hm.survives hs⟩
    case isFalse =>
      rw [Survives, hm.counter] at hs
      exact .inr ⟨hq, hs.of_cancelled hm.cancelled⟩
  refine ⟨fun j q hq hs => ?_, fun T hT _ => ?_, fun j q T hq hs hT => ?_, fun a ha => ?_, ?_⟩
  · rw [hl]
    obtain ⟨rfl, _, hs⟩ | ⟨hq, hs⟩ := hold j q hq hs
    · exact h.last _ p hp hs
    · exact h.last j q hq hs
  · rw [hl]
    obtain hc | ⟨hs, T₀, T₁, hT₀, hT₁, he⟩ := hm.current
    · exact h.current T (hc ▸ hT) hne
    · cases hT₁.symm.trans hT
      exact he.trans (h.held i p T₀ hp hs hT₀)
  · rw [hl]
    obtain ⟨rfl, rfl, _⟩ | ⟨hq, hs⟩ := hold j q hq hs
    · obtain ⟨hs, ⟨T₀, hT₀, he⟩ | hc⟩ := hm.held T hT
      · exact he.trans (h.held _ p T₀ hp hs hT₀)
      · exact h.current T hc hne
    · exact h.held j q T hq hs hT
  · rw [hl]
    obtain he | ⟨_, T, _, he⟩ := hm.announced
    · exact h.senders a (he ▸ ha)
    · rw [he] at ha
      obtain ha | ha := List.mem_append.mp ha
      · exact h.senders a ha
      · rw [List.mem_singleton.mp ha]
        exact hi
  · obtain he | ⟨hs, T, hT, he⟩ := hm.announced
    · exact he ▸ h.newer
    · rw [he, List.pairwise_append]
      refine ⟨h.newer, List.pairwise_singleton _ _, fun a ha b hb => ?_⟩
      rw [List.mem_singleton.mp hb, h.held i p T hp hs hT]
      exact h.senders a ha

theorem setCells {cells : BitcoinCoreSv2} (h : s.Single)
    (hc : s.cancelled = true → cells.globalCancellationToken = true) : (s.setCells cells).Single where
  last i p hp hs      := h.last i p hp (hs.of_cancelled hc)
  current             := h.current
  held i p T hp hs hT := h.held i p T hp (hs.of_cancelled hc) hT
  senders             := h.senders
  newer               := h.newer

theorem handleCoinbaseOutputConstraints {client : BlockTemplateIpcClient} (h : s.Single)
    (hs : s.Settled (.coinbaseOutputConstraints client)) :
    (s.handleCoinbaseOutputConstraints client).Single := by
  have hl : (s.handleCoinbaseOutputConstraints client).monitors.length = s.monitors.length + 1 :=
    List.length_append
  -- Only the new monitor goes on.
  have hnew (i : ℕ) (p) (hp : (s.handleCoinbaseOutputConstraints client).monitors[i]? = some p)
      (hsp : (s.handleCoinbaseOutputConstraints client).Survives p) :
      i = s.monitors.length ∧ p = .starting := by
    obtain hp | hn := getElem?_spawned hp
    · exact absurd hsp (hs p (List.mem_of_getElem? hp))
    · exact hn
  refine ⟨fun i p hp hsp => ?_, fun T hT _ => ?_, fun i p T hp hsp hT => ?_, fun a ha => ?_, h.newer⟩
  · rw [hl, (hnew i p hp hsp).left]
  · cases hT
    exact hl.symm
  · rw [(hnew i p hp hsp).right] at hT
    cases hT
  · rw [hl]
    exact Nat.le_succ_of_le (h.senders a ha)

theorem run {client : BlockTemplateIpcClient} : (s.run L client).Single := by
  rw [Instance.run]
  cases (s.cells.run L client).monitorsTemplates with
  | false =>
    exact ⟨fun _ _ h => (nomatch h), fun _ _ h => absurd rfl h, fun _ _ _ h => (nomatch h),
      fun _ h => (nomatch h), .nil⟩
  | true  =>
    have hnew (i : ℕ) (p) (hp : ([] ++ [Phase.starting])[i]? = some p) : i = 0 ∧ p = Phase.starting :=
      (getElem?_spawned hp).resolve_left (fun h => nomatch h)
    refine ⟨fun i p hp _ => ?_, fun T hT _ => ?_, fun i p T hp _ hT => ?_, fun a ha => ?_,
      List.pairwise_singleton _ _⟩
    · rw [(hnew i p hp).left]
      rfl
    · cases hT
      rfl
    · rw [(hnew i p hp).right] at hT
      cases hT
    · rw [List.mem_singleton.mp ha]
      rfl

theorem step (h : s.Single) (ha : s.Settled a) (hs : s.step L a = some s') : s'.Single := by
  obtain ⟨client, _, _, _, rfl⟩ | ⟨i, p, hp, hg⟩ | ⟨client, rfl, _, rfl⟩ | ⟨cells, rfl, hc⟩ :=
    step_cases hs
  · exact run
  · have ⟨p', hm⟩ := hg.moves
    exact h.moves hp hm
  · exact h.handleCoinbaseOutputConstraints ha
  · exact h.setCells hc.cancelled

end Single

-- New constraints that find a monitor which goes on leave two of them.
theorem settled_of_exclusive (hs : s.step L a = some s') (h : s'.Exclusive) : s.Settled a := by
  cases a with
  | coinbaseOutputConstraints client =>
    rw [step] at hs
    split at hs <;> cases hs
    intro p hp hsp
    obtain ⟨i, hi⟩ := List.getElem?_of_mem hp
    have hl : i < s.monitors.length := (List.getElem?_eq_some_iff.mp hi).choose
    have hi' : (s.monitors ++ [.starting])[i]? = some p := by rw [List.getElem?_append_left hl, hi]
    have he := h.alone i s.monitors.length p .starting hi' List.getElem?_concat_length hsp trivial
    exact absurd he (Nat.ne_of_lt hl)
  | run | start | waitNext | fetch | send | wake | fail | constraintsFail | requestTransactionData
  | expire | cancel => trivial

theorem exclusive_iff (h : s.Single) (hs : s.step L a = some s') : s'.Exclusive ↔ s.Settled a :=
  ⟨settled_of_exclusive hs, fun ha => (h.step ha hs).exclusive⟩

-- A run keeps to one monitor, and to its constraints, as long as new constraints never find a monitor
-- at work.
theorem exclusive_of_run_iff (r : (tasks L).Run tr s) :
    (∀ e ∈ tr, e.post.Exclusive) ↔ Machine.Along Settled tr := by
  refine r.forall_iff_along (I := Single) (fun s hs => ?_) (fun _ _ _ => exclusive_iff)
    fun _ _ _ => Single.step
  rw [hs]
  exact .new

end Instance

-- The first monitor has a template in its hands while the second one is spawned. It sends that template
-- after one of the second, and goes on.
namespace Overlap

open Sample Instance

def overlap : List Instance.Action :=
  [.run client, .start 0, .waitNext 0 (.template client), .coinbaseOutputConstraints client, .start 1,
    .waitNext 1 (.template client), .fetch 1, .wake 1, .send 1, .fetch 0, .wake 0]

def handover : List Instance.Action :=
  [.run client, .start 0]

theorem overlap_exec : (((tasks library).exec .new overlap).any fun s =>
      ((tasks library).step s (.send 0)).any fun s' => s'.announced = [(0, 1), (1, 2), (0, 1)]) ∧
    ((tasks library).exec .new handover).any fun s => s.cells.monitorsMessages ∧
      ∀ p ∈ s.monitors, ¬p.Survives (s.coinbaseOutputConstraintsCounter + 1) s.cancelled := by
  decide +kernel

theorem handover_settled : Machine.Along Settled ((tasks library).trace .new handover) := by
  intro e he
  have ha := Machine.act_of_mem_trace he
  simp only [handover, List.mem_cons, List.not_mem_nil, or_false] at ha
  obtain ha | ha := ha <;> rw [ha] <;> trivial

end Overlap

open Overlap Sample Instance in
theorem not_exclusive : ¬∀ tr s, (tasks library).Run tr s → ∀ e ∈ tr, e.post.Exclusive := by
  intro h
  obtain ⟨s, hs, hn⟩ := Option.any_eq_true _ _ |>.mp overlap_exec.left
  obtain ⟨s', hs', ha⟩ := Option.any_eq_true _ _ |>.mp hn
  have r : (tasks library).Run _ s' := (Machine.Run.of_exec rfl hs).snoc hs'
  have hx : s'.Exclusive := h _ s' r _ List.mem_concat_self
  have hp := hx.newer
  rw [of_decide_eq_true ha] at hp
  exact absurd hp (by decide)

open Overlap Sample Instance in
theorem exclusive_of_run_iff_sample : ∃ tr s, (tasks library).Run tr s ∧ ∃ e ∈ tr,
    e.act = .coinbaseOutputConstraints client ∧ e.post.Exclusive := by
  obtain ⟨s, hs, h⟩ := Option.any_eq_true _ _ |>.mp overlap_exec.right
  obtain ⟨hm, hp⟩ := of_decide_eq_true h
  have hs' : (tasks library).step s (.coinbaseOutputConstraints client) =
      some (s.handleCoinbaseOutputConstraints client) := if_pos hm
  have r := (Machine.Run.of_exec (M := tasks library) rfl hs).snoc hs'
  have ha := Machine.Along.snoc (C := Settled)
    (e := ⟨s, Instance.Action.coinbaseOutputConstraints client, s.handleCoinbaseOutputConstraints client⟩)
    |>.mpr ⟨handover_settled, hp⟩
  exact ⟨_, _, r, _, List.mem_concat_self, rfl, (exclusive_of_run_iff r).mpr ha _ List.mem_concat_self⟩

end BitcoinCore
