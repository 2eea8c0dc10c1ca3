import StratumApps.BitcoinCore.Tips

open Sv2 Handler

namespace BitcoinCore

-- What the loop behind the cancellation, which looks at the counter once a second, finds there.
inductive ShutdownCheck
  | cleanExit
  | timeoutExit
  | wait
  deriving DecidableEq

-- The monitor goes on with a new request when the channel takes the message.
def Phase.endsRound : Phase → Bool
  | .activating _ | .updating _ _ _ => true
  | _                               => false

namespace Instance

variable {L : Library} {s s' s₁ : Instance} {a : Action} {i : ℕ} {p p' : Phase} {base : Template}
variable {n : UInt32} {tr : List (Machine.Event Instance Action)}

def shutdownCheck (s : Instance) (elapsed : ℕ) : ShutdownCheck :=
  if s.waitNextRequestCounter = 0 then .cleanExit
  else if 50 < elapsed then .timeoutExit
  else .wait

-- The requests that have been created and not been answered.
def outstanding (s : Instance) : ℕ :=
  s.monitors.countP (·.request?.isSome)

-- The shutdown does not end cleanly in front of a request, and waits for nothing but a request.
structure Accounted (s : Instance) : Prop where
  counter : s.waitNextRequestCounter.toNat = s.outstanding
  clean   : ∀ elapsed, s.shutdownCheck elapsed = .cleanExit → s.outstanding = 0
  waits   : ∀ elapsed, s.shutdownCheck elapsed = .wait → 0 < s.outstanding

theorem accounted_iff : s.Accounted ↔ s.waitNextRequestCounter.toNat = s.outstanding where
  mp h := h.counter
  mpr h := by
    have hz : s.waitNextRequestCounter = 0 ↔ s.outstanding = 0 := by
      rw [← h, ← UInt8.toNat_inj]
      rfl
    refine ⟨h, fun elapsed hc => ?_, fun elapsed hw => ?_⟩ <;> rw [shutdownCheck] at *
    · split at hc
      case isTrue h₀ => exact hz.mp h₀
      case isFalse   => split at hc <;> cases hc
    · split at hw
      case isTrue     => cases hw
      case isFalse h₀ => exact Nat.pos_of_ne_zero (hz.not.mp h₀)

def creates (s : Instance) : Action → Bool
  | .start _ => s.waitNextRequest.isOk
  | .send i  => s.waitNextRequest.isOk && s.monitors[i]?.any (·.endsRound)
  | _        => false

-- No request fails, and none is created that the counter has no room for.
def Records (s : Instance) : Action → Prop
  | .waitNext _ .failed => False
  | a                   => s.creates a → s.outstanding < 255

theorem records_of_not_creates (hc : s.creates a = false) (hf : ∀ i, a ≠ .waitNext i .failed) :
    s.Records a := by
  rw [Records.eq_def]
  split
  case h_1 i => exact hf i rfl
  case h_2   =>
    rw [hc]
    intro h
    cases h

-- What a step does to the counter and to the requests: nothing, or a request is created, answered, or
-- fails.
inductive Change (s : Instance) (a : Action) (s' : Instance) : Prop
  | none (hc : s'.waitNextRequestCounter = s.waitNextRequestCounter)
    (ho : s'.outstanding = s.outstanding) (hr : s.Records a)
  | created (hc : s'.waitNextRequestCounter = s.waitNextRequestCounter + 1)
    (ho : s'.outstanding = s.outstanding + 1) (hr : s.Records a ↔ s.outstanding < 255)
  | answered (hc : s'.waitNextRequestCounter = s.waitNextRequestCounter - 1)
    (ho : s'.outstanding + 1 = s.outstanding) (hr : s.Records a)
  | failed (hc : s'.waitNextRequestCounter = s.waitNextRequestCounter)
    (ho : s'.outstanding + 1 = s.outstanding) (hr : ¬s.Records a)

theorem Change.accounted_iff (h : s.Change a s') (hs : s.Accounted) : s'.Accounted ↔ s.Records a := by
  have hs := hs.counter
  have hl := s.waitNextRequestCounter.toNat_lt
  rw [Instance.accounted_iff]
  cases h with
  | none hc ho hr     => exact iff_of_true (by rw [hc, ho, hs]) hr
  | created hc ho hr  =>
    rw [hr, hc, ho, UInt8.toNat_add]
    simp only [UInt8.reduceToNat]
    omega
  | answered hc ho hr =>
    refine iff_of_true ?_ hr
    rw [hc, UInt8.toNat_sub]
    simp only [UInt8.reduceToNat]
    omega
  | failed hc ho hr   => exact iff_of_false (by rw [hc]; omega) hr

section Change

-- A phase that is set where there was another.
theorem outstanding_set (s' : Instance) (p' : Phase) (hm : s'.monitors = s.monitors.set i p')
    (hp : s.monitors[i]? = some p) :
    s'.outstanding + p.request?.isSome.toNat = s.outstanding + p'.request?.isSome.toNat := by
  obtain ⟨hi, hp⟩ := List.getElem?_eq_some_iff.mp hp
  have hle : p.request?.isSome.toNat ≤ s.outstanding := by
    cases hw : p.request?.isSome with
    | false => exact Nat.zero_le _
    | true  => exact List.countP_pos_iff.mpr ⟨p, hp ▸ List.getElem_mem hi, hw⟩
  rw [outstanding] at hle
  rw [outstanding, outstanding, hm, List.countP_set hi, hp]
  generalize p.request?.isSome = w at hle ⊢
  cases w <;> cases p'.request?.isSome <;> simp only [Bool.toNat_true, Bool.toNat_false, if_true,
    Bool.false_eq_true, if_false] at hle ⊢ <;> omega

variable (hp : s.monitors[i]? = some p)
include hp

theorem Change.none_of_set (p' : Phase) (hm : s'.monitors = s.monitors.set i p')
    (hc : s'.waitNextRequestCounter = s.waitNextRequestCounter) (hw : p.request? = .none)
    (hw' : p'.request? = .none) (hr : s.Records a) : s.Change a s' := by
  have ho := outstanding_set s' p' hm hp
  rw [hw, hw'] at ho
  exact .none hc ho hr

theorem Change.answered_of_set (p' : Phase) (hm : s'.monitors = s.monitors.set i p')
    (hc : s'.waitNextRequestCounter = s.waitNextRequestCounter - 1) (hw : p = .waiting base n)
    (hw' : p'.request? = .none) (hr : s.Records a) : s.Change a s' := by
  have ho := outstanding_set s' p' hm hp
  rw [hw, hw'] at ho
  exact .answered hc ho hr

theorem Change.failWith {ε : Type} (e : Fault ε) (hm : s₁.monitors = s.monitors)
    (hc : s₁.waitNextRequestCounter = s.waitNextRequestCounter) (hw : p.request? = .none)
    (hr : s.Records a) : s.Change a (s₁.failWith i e) := by
  have hm : (s₁.failWith i e).monitors = s.monitors.set i .exited := by
    cases e <;> exact congrArg (List.set · i _) hm
  have hc : (s₁.failWith i e).waitNextRequestCounter = s.waitNextRequestCounter := by
    cases e <;> exact hc
  exact .none_of_set hp .exited hm hc hw rfl hr

-- A round ends with the request of the next.
theorem Change.newWaitNextRequest (hm : s₁.monitors = s.monitors)
    (hc : s₁.waitNextRequestCounter = s.waitNextRequestCounter)
    (ht : s₁.currentTemplateIpcClient = s.currentTemplateIpcClient) (hw : p.request? = .none)
    (hr : s.Records a ↔ (s.waitNextRequest.isOk → s.outstanding < 255)) :
    s.Change a (s₁.newWaitNextRequest i) := by
  have hq : s₁.waitNextRequest = s.waitNextRequest := by
    rw [waitNextRequest, waitNextRequest, ht]
  rw [Instance.newWaitNextRequest.eq_def, hq]
  split
  case h_1 e hn =>
    refine .failWith hp e hm hc hw (hr.mpr fun h => ?_)
    rw [hn] at h
    cases h
  case h_2 base hb =>
    have ho := outstanding_set ({ s₁ with
      waitNextRequestCounter := s₁.waitNextRequestCounter + 1 }.setMonitor i
        (.waiting base s₁.coinbaseOutputConstraintsCounter)) _ (congrArg (List.set · i _) hm) hp
    rw [hw] at ho
    refine .created (congrArg (· + 1) hc) ho (hr.trans ?_)
    rw [hb]
    exact ⟨fun h => h rfl, fun h _ => h⟩

-- The request that has timed out makes room for the next.
theorem Change.timeout (hw : p = .waiting base n) (hr : s.Records a) :
    s.Change a ({ s with
      waitNextRequestCounter := s.waitNextRequestCounter - 1 }.newWaitNextRequest i) := by
  rw [Instance.newWaitNextRequest.eq_def]
  split
  case h_1 e _     =>
    cases e <;> exact .answered_of_set hp .exited rfl rfl hw rfl hr
  case h_2 base' _ =>
    have ho := outstanding_set (s.setMonitor i (.waiting base' s.coinbaseOutputConstraintsCounter)) _
      rfl hp
    rw [hw] at ho
    exact .none (UInt8.sub_add_cancel _ _) (Nat.add_right_cancel ho) hr

theorem Change.onWaitNext {reply : Reply} (hw : p = .waiting base n) :
    s.Change (.waitNext i reply) (s.onWaitNext i base n reply) := by
  rw [Instance.onWaitNext.eq_def]
  split
  case h_1 =>
    have ho := outstanding_set (s.fail i) .exited rfl hp
    rw [hw] at ho
    exact .failed rfl ho id
  case h_2 hf =>
    have hr : s.Records (.waitNext i reply) := by
      cases reply with
      | failed                       => exact absurd rfl hf
      | template | timeout | invalid => exact records_of_not_creates rfl (by simp)
    dsimp only
    split
    case isTrue  => exact .answered_of_set hp .exited rfl rfl hw rfl hr
    case isFalse =>
      cases reply with
      | failed   => exact absurd rfl hf
      | invalid  => exact .answered_of_set hp .exited rfl rfl hw rfl hr
      | template => exact .answered_of_set hp (.fetching _ _) rfl rfl hw rfl hr
      | timeout  => exact .timeout hp hw hr

theorem Change.onTemplateData {template : Template} {t : TemplateData} (hw : p.request? = .none)
    (hr : s.Records a) : s.Change a (s.onTemplateData L i template t) := by
  rw [Instance.onTemplateData.eq_def]
  split
  case h_1 => exact .none_of_set hp .exited rfl rfl hw rfl hr
  case h_2 =>
    split
    case isFalse => exact .none_of_set hp (.sleeping _ _) rfl rfl hw rfl hr
    case isTrue  =>
      dsimp only
      split
      case h_1 => exact .failWith hp _ rfl rfl hw hr
      case h_2 => exact .none_of_set hp (.announcing _ _ _) rfl rfl hw rfl hr

theorem Change.onSend (h : s.onSend L i p = some s') : s.Change (.send i) s' := by
  have hr : s.Records (.send i) ↔
      (s.waitNextRequest.isOk && p.endsRound → s.outstanding < 255) := by
    rw [Records, creates, hp, Option.any_some]
    intro i h
    cases h
  cases p with
  | announcing template t message =>
    cases h
    exact .none_of_set hp (.activating _) rfl rfl rfl rfl (hr.mpr (by simp [Phase.endsRound]))
  | activating | updating         =>
    cases h
    exact .newWaitNextRequest hp rfl rfl rfl rfl (by simp [hr, Phase.endsRound])
  | starting | waiting | fetching | sleeping | exited => cases h

theorem Change.onFail (h : s.onFail i p = some s') : s.Change (.fail i) s' := by
  cases p with
  | starting | announcing | activating | updating =>
    cases h
    exact .none_of_set hp .exited rfl rfl rfl rfl (records_of_not_creates rfl (by simp))
  | waiting | fetching | sleeping | exited        => cases h

end Change

-- The tasks are spawned once the instance knows a tip, which it does not forget.
def Spawned (s : Instance) : Prop :=
  s.cells.currentPrevHash = none → s.monitors = [] ∧ s.cells.monitorsMessages = false

theorem Spawned.known (h : s.step L a = some s') (hk : s.cells.currentPrevHash ≠ none) :
    s'.cells.currentPrevHash ≠ none := by
  obtain ⟨_, _, hn, _⟩ | ⟨i, p, _, hg⟩ | ⟨_, _, _, rfl⟩ | ⟨cells, rfl, ha⟩ := step_cases h
  · exact absurd hn hk
  · exact hg.known hk
  · exact hk
  · rwa [setCells, ha.currentPrevHash]

theorem Spawned.run {client : BlockTemplateIpcClient} (hm : s.cells.monitorsMessages = false) :
    (s.run L client).Spawned := by
  have hs : (s.cells.run L client).currentPrevHash = none →
      (s.cells.run L client).monitorsTemplates = false ∧
        (s.cells.run L client).monitorsMessages = false := by
    rw [BitcoinCoreSv2.run]
    split
    case h_1 => exact fun _ => ⟨rfl, hm⟩
    case h_2 =>
      split
      case h_1 => exact fun _ => ⟨rfl, hm⟩
      case h_2 => exact fun h => by cases h
  intro hn
  obtain ⟨ht, hm⟩ := hs hn
  refine ⟨?_, hm⟩
  rw [Instance.run, ht]
  rfl

theorem Spawned.step (hi : s.Spawned) (h : s.step L a = some s') : s'.Spawned := by
  by_cases hn : s.cells.currentPrevHash = none
  case neg => exact fun hn' => absurd hn' (Spawned.known h hn)
  case pos =>
    obtain ⟨hs, hm⟩ := hi hn
    cases a <;> simp [Instance.step, hs, hm] at h
    case run client =>
      rw [← h.right]
      exact .run hm
    case expire i =>
      obtain ⟨cells, hc, rfl⟩ := h
      obtain ⟨ids, _, rfl⟩ := Option.map_eq_some_iff.mp hc
      exact fun _ => ⟨hs, hm⟩
    case cancel =>
      cases h
      exact fun _ => ⟨hs, hm⟩

-- The requests belong to monitors, and there are none before the instance has started.
theorem change_of_step (hi : s.Spawned) (h : s.step L a = some s') : s.Change a s' := by
  cases a <;> simp only [step] at h
  case run client =>
    split at h <;> cases h
    case isTrue hr =>
      refine .none rfl ?_ (records_of_not_creates rfl (by simp))
      rw [outstanding, outstanding, (hi (Option.isNone_iff_eq_none.mp hr.left)).left, Instance.run]
      split <;> rfl
  case start i =>
    split at h <;> cases h
    case h_1 hp => exact .newWaitNextRequest hp rfl rfl rfl rfl Iff.rfl
  case waitNext i reply =>
    split at h <;> cases h
    case h_1 hp => exact .onWaitNext hp rfl
  case fetch i =>
    split at h <;> cases h
    case h_1 hp =>
      rw [onFetch.eq_def]
      split
      case h_1 => exact .failWith hp _ rfl rfl rfl (records_of_not_creates rfl (by simp))
      case h_2 => exact .onTemplateData hp rfl (records_of_not_creates rfl (by simp))
  case wake i =>
    split at h <;> cases h
    case h_1 hp =>
      rw [onWake.eq_def]
      split
      case h_1 => exact .failWith hp _ rfl rfl rfl (records_of_not_creates rfl (by simp))
      case h_2 =>
        exact .none_of_set hp (.updating _ _ _) rfl rfl rfl rfl (records_of_not_creates rfl (by simp))
  case send i =>
    obtain ⟨p, hp, h⟩ := Option.bind_eq_some_iff.mp h
    exact .onSend hp h
  case fail i =>
    obtain ⟨p, hp, h⟩ := Option.bind_eq_some_iff.mp h
    exact .onFail hp h
  case coinbaseOutputConstraints client =>
    split at h <;> cases h
    exact .none rfl (List.countP_append.trans rfl) (records_of_not_creates rfl (by simp))
  case constraintsFail | requestTransactionData =>
    split at h <;> cases h
    exact .none rfl rfl (records_of_not_creates rfl (by simp))
  case expire i =>
    obtain ⟨cells, _, rfl⟩ := Option.map_eq_some_iff.mp h
    exact .none rfl rfl (records_of_not_creates rfl (by simp))
  case cancel =>
    cases h
    exact .none rfl rfl (records_of_not_creates rfl (by simp))

theorem spawned_init (h : (tasks L).Init s) : s.Spawned := by
  cases h
  exact fun _ => ⟨rfl, rfl⟩

theorem accounted_init (h : (tasks L).Init s) : s.Accounted := by
  cases h
  exact accounted_iff.mpr rfl

end Instance

open Instance in
theorem requests_accounted_iff {L : Library} {tr : List (Machine.Event Instance Instance.Action)}
    {s : Instance} (r : (tasks L).Run tr s) :
    (∀ e ∈ tr, e.post.Accounted) ↔ Machine.Along Records tr :=
  r.forall_iff_along (I := fun s => s.Spawned ∧ s.Accounted)
    (fun _ h => ⟨spawned_init h, accounted_init h⟩)
    (fun _ _ _ hi h => (change_of_step hi.left h).accounted_iff hi.right)
    fun _ _ _ hi ha h => ⟨hi.left.step h, (change_of_step hi.left h).accounted_iff hi.right |>.mpr ha⟩

namespace Requests

open Sample

-- A monitor waits, and it goes on to the next request once the node has answered.
def requested : List Instance.Action :=
  [.run client, .start 0]

def answered : List Instance.Action :=
  requested ++ [.waitNext 0 .timeout]

theorem requests_exec :
    (((tasks library).exec .new requested).any fun s =>
      ((tasks library).step s (.waitNext 0 .failed)).any fun s' =>
        s'.shutdownCheck 50 = .wait ∧ s'.outstanding = 0) ∧
    (((tasks library).exec .new answered).any fun s => s.outstanding = 1) ∧
      ∀ e ∈ (tasks library).trace .new answered, e.pre.outstanding < 255 := by
  decide +kernel

theorem answered_records : Machine.Along Instance.Records ((tasks library).trace .new answered) := by
  intro e he
  have ha := Machine.act_of_mem_trace he
  simp only [answered, requested, List.cons_append, List.nil_append, List.mem_cons, List.not_mem_nil,
    or_false] at ha
  obtain ha | ha | ha := ha <;> rw [ha] <;> exact fun _ => requests_exec.right.right e he

end Requests

open Requests Sample in
theorem not_requests_accounted : ¬∀ tr s, (tasks library).Run tr s → ∀ e ∈ tr, e.post.Accounted := by
  intro h
  obtain ⟨s, hs, hf⟩ := Option.any_eq_true _ _ |>.mp requests_exec.left
  obtain ⟨s', hs', hw⟩ := Option.any_eq_true _ _ |>.mp hf
  obtain ⟨hw, ho⟩ := of_decide_eq_true hw
  have r := (Machine.Run.of_exec (M := tasks library) rfl hs).snoc hs'
  exact Nat.ne_of_gt ((h _ s' r _ List.mem_concat_self).waits 50 hw) ho

open Requests Sample in
theorem requests_accounted_sample : ∃ tr s, (tasks library).Run tr s ∧ s.outstanding = 1 ∧
    ∀ e ∈ tr, e.post.Accounted := by
  obtain ⟨s, hs, ho⟩ := Option.any_eq_true _ _ |>.mp requests_exec.right.left
  have r := Machine.Run.of_exec (M := tasks library) rfl hs
  exact ⟨_, s, r, of_decide_eq_true ho, (requests_accounted_iff r).mpr answered_records⟩

end BitcoinCore
