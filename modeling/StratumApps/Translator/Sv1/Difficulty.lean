import StratumApps.Translator.Sv1.Reference
import StratumApps.Translator.Sv1.Tasks

open Sv2 Handler StratumCore

namespace Translator.Sv1

open DownstreamOp

def ServerMessage.difficulty? : ServerMessage → Option Target
  | .setDifficulty t => some t
  | _                => none

def DownstreamOp.difficulty? : DownstreamOp → Option Target
  | write m => m.difficulty?
  | _       => none

def ClientMessage.isSubmit (m : ClientMessage) : Bool :=
  match m.request with
  | .submit _ => true
  | _         => false

namespace Downstream

-- The difficulty that the miner was told last.
def told (o : Downstream) : Option Target :=
  (o.written.filterMap (·.difficulty?)).getLast?

-- The one that it was told last once its task waits again.
def telling (o : Downstream) : Option Target :=
  (o.written.filterMap (·.difficulty?) ++ o.todo.filterMap (·.difficulty?)).getLast?

end Downstream

-- When a `mining.notify` has been written, and whenever a share is judged, the target that is in force
-- is the one that the miner was told last.
structure Fair (e : Machine.Event System Action) : Prop where
  notified : ∀ d o n ops o' t, e.act = .task d → e.pre.objects.lookup d = some o →
    o.todo = write (.notify n) :: ops → e.post.objects.lookup d = some o' → o'.told = some t →
    o'.data.target = t
  handled : ∀ d o m ops t, e.act = .task d → e.pre.objects.lookup d = some o →
    o.todo = handle m :: ops → m.isSubmit → o.told = some t → o.data.target = t
  queued : ∀ d o c m ops t, e.act = .serve → e.pre.todo = .handleQueued d c m :: ops →
    e.pre.objects.lookup d = some o → m.isSubmit → o.told = some t → o.data.target = t

-- The pending target is that of the `mining.set_difficulty` whenever the two leave together, and no
-- share comes out of the queue while they do.
structure InStep (s : System) (a : Action) : Prop where
  notify : ∀ d o n t, a = .receive d → s.objects.lookup d = some o → o.takes = some (.notify n) →
    o.data.sv1HandshakeComplete → o.data.cachedSetDifficulty = some t →
    o.data.pendingTarget.getD o.data.target = t
  handshake : ∀ d o ops t, a = .task d → s.objects.lookup d = some o → o.todo = applyPending :: ops →
    o.told = some t → o.data.pendingTarget.getD o.data.target = t
  queued : ∀ d o c m ops, a = .serve → s.todo = .handleQueued d c m :: ops →
    s.objects.lookup d = some o → m.isSubmit → applyPending ∉ o.todo ∧
      ∀ t, write (.setDifficulty t) ∉ o.todo

theorem Announcing.difficulties {ops : List DownstreamOp} (h : Announcing ops) :
    ops.filterMap (·.difficulty?) = [] ∧ applyPending ∉ ops := by
  induction h with
  | done          => simp
  | share         => simp [DownstreamOp.difficulty?]
  | notify n _ ih => simpa [DownstreamOp.difficulty?, ServerMessage.difficulty?] using ih

namespace Downstream

variable {C : Core} {o o' : Downstream} {op : DownstreamOp} {ops : List DownstreamOp}
variable {validJobs : List Notify}

-- Unless the pending target is still to be applied, the target is the one that the miner is told.
def Settled (o : Downstream) : Prop :=
  applyPending ∉ o.todo → ∀ t, o.telling = some t → o.data.target = t

theorem telling_eq_told (h : o.todo.filterMap (·.difficulty?) = []) : o.telling = o.told := by
  rw [telling, told, h, List.append_nil]

-- What is new among what is left to do has no difficulty in it.
theorem settled_of_todo (new : List DownstreamOp) (hs : { o with todo := op :: ops }.Settled)
    (hop : op.difficulty? = none) (ha : op ≠ applyPending)
    (hn : new.filterMap (·.difficulty?) = []) (hw : o'.written = o.written)
    (ht : o'.todo = new ++ ops) (hd : o'.data.target = o.data.target) : o'.Settled := by
  intro hni t h
  rw [ht] at hni
  have hni : applyPending ∉ op :: ops := by
    intro hm
    cases hm with
    | head _    => exact ha rfl
    | tail _ hm => exact hni (List.mem_append_right new hm)
  refine hd.trans (hs hni t ?_)
  simpa [telling, hw, ht, hop, hn] using h

theorem completion_settled (hs : { o with todo := completeHandshake :: ops }.Settled) :
    { o with todo := ops }.handleSv1HandshakeCompletion.Settled := by
  cases hc : o.data.cachedSetDifficulty with
  | some t =>
    intro hni
    refine absurd ?_ hni
    simp [handleSv1HandshakeCompletion, next, sendCached, hc]
  | none =>
    refine settled_of_todo (sendCached o.data) hs rfl (by simp) ?_ rfl rfl rfl
    rw [sendCached, hc]
    cases o.data.cachedNotify <;> rfl

theorem handle_settled {m : ClientMessage} (hs : { o with todo := [handle m] }.Settled) :
    ({ o with todo := [] }.handleMessage C validJobs m).Settled := by
  have hh : DownstreamData.Handled o.data (o.data.handleMessage C validJobs m).2 :=
    DownstreamData.handleMessage_handled
  have settled {o' : Downstream} (new : List DownstreamOp)
      (hn : new.filterMap (·.difficulty?) = []) (hw : o'.written = o.written)
      (ht : o'.todo = new ++ []) (hd : o'.data.target = o.data.target) : o'.Settled :=
    settled_of_todo new hs rfl (by simp) hn hw ht hd
  rw [handleMessage, onResponse.eq_def]
  split
  case h_1 r _ =>
    refine settled (respond m r) ?_ rfl rfl hh.target
    rw [respond]
    split <;> rfl
  case h_2 => exact settled [sendShare] rfl rfl rfl hh.target
  case h_3 => exact settled [] rfl rfl rfl hh.target

theorem exec_settled (hst : Stage (op :: ops)) (hs : { o with todo := op :: ops }.Settled)
    (hp : op = applyPending → ∀ t, o.told = some t → o.data.pendingTarget.getD o.data.target = t) :
    ({ o with todo := ops }.exec C validJobs op).1.Settled := by
  cases op with
  | checkEstablished m =>
    rw [exec]
    split
    case isTrue  => exact settled_of_todo [checkFirst m] hs rfl (by simp) rfl rfl rfl rfl
    case isFalse => exact settled_of_todo [handle m] hs rfl (by simp) rfl rfl rfl rfl
  | checkFirst m =>
    rw [exec]
    split
    case isTrue  => exact settled_of_todo [openChannel, queue m] hs rfl (by simp) rfl rfl rfl rfl
    case isFalse => exact settled_of_todo [queue m] hs rfl (by simp) rfl rfl rfl rfl
  | openChannel       => exact settled_of_todo [] hs rfl (by simp) rfl rfl rfl rfl
  | queue m           => exact settled_of_todo [] hs rfl (by simp) rfl rfl rfl rfl
  | sendShare         => exact settled_of_todo [] hs rfl (by simp) rfl rfl rfl rfl
  | completeHandshake => exact completion_settled hs
  | handle m =>
    cases hst with
    | handling _   => exact handle_settled hs
    | announcing h => cases h
  | write m =>
    intro hni t h
    refine hs (fun hm => ?_) t ?_
    case refine_1 =>
      cases hm with
      | tail _ hm => exact hni hm
    case refine_2 =>
      rw [← h, exec, telling, telling]
      cases hm : m.difficulty? <;> simp [DownstreamOp.difficulty?, hm]
  | applyPending =>
    have ha : Announcing ops := by
      cases hst with
      | applying h   => exact h
      | announcing h => cases h
    intro _ t h
    rw [telling_eq_told ha.difficulties.left] at h
    exact hp rfl t h

-- What the task takes from the server changes the target only along with what it then writes.
theorem onNotification_settled {e : Envelope} (hs : o.Settled) (ht : o.todo = [])
    (hp : ∀ n t, e.message = .notify n → o.data.sv1HandshakeComplete →
      o.data.cachedSetDifficulty = some t → o.data.pendingTarget.getD o.data.target = t) :
    (o.onNotification e).Settled := by
  have hnone : applyPending ∉ o.todo := by simp [ht]
  have settled {o' : Downstream} (hw : o'.written = o.written) (hd : o'.data.target = o.data.target)
      (hn : o'.todo.filterMap (·.difficulty?) = []) : o'.Settled := by
    intro _ t h
    refine hd.trans (hs hnone t ?_)
    simpa [telling, hw, ht, hn] using h
  rw [onNotification]
  split
  case h_1 => exact settled rfl rfl (by simp [ht])
  case h_2 n hn =>
    dsimp only
    split
    case isFalse => exact settled rfl rfl (by simp [ht])
    case isTrue hc =>
      split
      case h_1 => exact settled rfl rfl (by simp [next, ht, DownstreamOp.difficulty?,
        ServerMessage.difficulty?])
      case h_2 t htc =>
        intro _ t' h
        have h : t = t' := by
          simpa [telling, next, ht, DownstreamOp.difficulty?, ServerMessage.difficulty?] using h
        exact (hp n t hn hc htc).trans h
  case h_3 =>
    split
    case isFalse => exact settled rfl rfl (by simp [ht])
    case isTrue  => exact settled rfl rfl (by simp [next, ht, DownstreamOp.difficulty?,
      ServerMessage.difficulty?])

end Downstream

namespace System

variable {C : Core} {cfg : Config} {s s' : System} {d : DownstreamId} {a : Action} {op : ServerOp}
variable {o o' : Downstream}

theorem evolves_settled (hst : Stage o.todo) (hs : o.Settled) (ho : s.objects.lookup d = some o)
    (hi : InStep s a) (h : Evolves C cfg s d a o o') : o'.Settled := by
  cases h with
  | took h =>
    obtain ⟨_, ht, rfl⟩ := Downstream.take_eq_some h
    intro _ t h
    refine hs (by simp [ht]) t ?_
    simpa [Downstream.telling, ht, DownstreamOp.difficulty?] using h
  | wentOn h =>
    obtain ⟨op, ops, ht, _, rfl⟩ := Downstream.goOn_eq_some h
    rw [ht] at hst
    have hs : { o with todo := op :: ops }.Settled := by
      rw [← ht]
      exact hs
    refine Downstream.exec_settled hst hs fun hop t hto => ?_
    exact hi.handshake d o ops t rfl ho (hop ▸ ht) hto
  | received h =>
    obtain ⟨_, _, _, _, ht, _⟩ := Downstream.receive_cases h
    obtain ⟨_, rfl | ⟨_, _, _, _, rfl⟩⟩ | ⟨e, es, _, _, htk, rfl⟩ := Downstream.receive_takes h
    case inl.inl =>
      intro _ t h
      refine hs (by simp [ht]) t ?_
      simpa [Downstream.telling, Downstream.ends, ht] using h
    case inl.inr => exact hs
    case inr =>
      refine Downstream.onNotification_settled (o := { o with received := es }) hs ht
        fun n t he hc htc => ?_
      exact hi.notify d o n t rfl ho (he ▸ htk) hc htc
  | stopped h =>
    obtain ⟨_, ht, rfl⟩ := Downstream.stop_eq_some h
    intro _ t h
    refine hs (by simp [ht]) t ?_
    simpa [Downstream.telling, Downstream.ends, ht] using h
  | served _ =>
    rw [Downstream.Settled, Downstream.telling, served_spares.todo, served_spares.written,
      served_spares.target]
    exact hs
  | named => exact hs
  | kept  => exact hs

structure InForce (s : System) : Prop where
  staged  : s.Staged
  settled : ∀ d o, s.objects.lookup d = some o → o.Settled

theorem inForce_step (hs : s.InForce) (hi : InStep s a) (h : s.step C cfg a = some s') :
    s'.InForce where
  staged := staged_step hs.staged h
  settled d o' ho' := by
    obtain ⟨_, _, rfl⟩ | ⟨o, ho, he⟩ := evolves_of_step h ho'
    case inl =>
      intro _ t h
      cases h
    case inr => exact evolves_settled (hs.staged.stage d o ho) (hs.settled d o ho) ho hi he

theorem fair_of_step (hs : s.InForce) (hi : InStep s a) (h : s.step C cfg a = some s') :
    Fair ⟨s, a, s'⟩ where
  notified d o n ops o' t ha ho ht ho' hto := by
    have hst := hs.staged.stage d o ho
    rw [ht] at hst
    have hops : Announcing ops := by
      cases hst with
      | announcing h =>
        cases h with
        | notify _ h => exact h
    have heq : o'.todo = ops := by
      subst ha
      obtain ⟨o₁, r, ho₁, hg, rfl⟩ := task_eq_some h
      cases ho.symm.trans ho₁
      obtain ⟨op, ops', ht', _, rfl⟩ := Downstream.goOn_eq_some hg
      cases ht.symm.trans ht'
      have ho' : (s.replace d _).objects.lookup d = some o' := ho'
      rw [lookup_replace, if_pos rfl] at ho'
      cases ho'
      rfl
    have hd := hops.difficulties
    rw [← heq] at hd
    refine (inForce_step hs hi h).settled d o' ho' hd.right t ?_
    rw [Downstream.telling_eq_told hd.left]
    exact hto
  handled d o m ops t ha ho ht _ hto := by
    have hst := hs.staged.stage d o ho
    rw [ht] at hst
    cases hst with
    | announcing h => cases h
    | handling _   =>
      refine hs.settled d o ho (by simp [ht]) t ?_
      rw [Downstream.telling_eq_told (by simp [ht, DownstreamOp.difficulty?])]
      exact hto
  queued d o c m ops t ha ht ho hm hto := by
    obtain ⟨hp, hw⟩ := hi.queued d o c m ops ha ht ho hm
    refine hs.settled d o ho hp t ?_
    rw [Downstream.telling_eq_told, hto]
    refine List.filterMap_eq_nil_iff.mpr fun op hop => ?_
    cases op with
    | write m =>
      cases m with
      | setDifficulty t => exact absurd hop (hw t)
      | _               => rfl
    | _ => rfl

end System

theorem fair_of_run {C : Core} {cfg : Config} {tr : List (Machine.Event System Action)} {s : System}
    (r : (machine C cfg).Run tr s) (hi : Machine.Along InStep tr) : ∀ e ∈ tr, Fair e := by
  intro e he
  have init (s : System) (h : (machine C cfg).Init s) : s.InForce := by
    cases h
    exact ⟨System.staged_new, fun _ _ h => by cases h⟩
  have hs := (r.invariant_of_mem init (fun _ _ _ hs hi h => System.inForce_step hs hi h) hi he).left
  exact System.fair_of_step hs (hi e he) (r.step_of_mem he)

namespace Retargeted

open Reference Reference.Sample

-- A miner that has its first job is given another target, and the next job.
def retargeted : List Action :=
  connect 1 ⟨1, .subscribe⟩ ++ [success 1 5] ++ serve 7 ++ [.receive 1] ++ goOn 1 1 ++
    [.receive 1, .miner 1 ⟨2, .authorize "worker"⟩] ++ goOn 1 7 ++ [prevHash 5 7, job 5 1] ++ serve 1 ++
    [.receive 1] ++ goOn 1 1 ++ [setTarget 5 400] ++ serve 2 ++ [.receive 1, job 5 2] ++ serve 1

def isNotify : DownstreamOp → Bool
  | .write (.notify _) => true
  | _                  => false

def announces (s : System) : Bool :=
  (s.objects.lookup 1).any (·.todo.head?.any isNotify)

def astray (o : Downstream) : Bool :=
  o.told.any fun t => o.data.target ≠ t

-- Before the job is taken, the target changes once more.
theorem astray_exec : ((machine core (config false false)).exec (.new false)
    (retargeted ++ [setTarget 5 300] ++ serve 2 ++ [.receive 1] ++ goOn 1 1)).any fun s =>
      announces s ∧ ((machine core (config false false)).step s (.task 1)).any fun s' =>
        (s'.objects.lookup 1).any astray := by
  decide +kernel

theorem told_exec : ((machine core (config false false)).exec (.new false)
    (retargeted ++ [.receive 1] ++ goOn 1 2)).any fun s =>
      (s.objects.lookup 1).any fun o => o.written.getLast?.any (·.difficulty?.isNone) ∧
        o.told = some 400 ∧ o.data.target = 400 := by
  decide +kernel

theorem announces_sound {s : System} (h : announces s) : ∃ o n ops, s.objects.lookup 1 = some o ∧
    o.todo = .write (.notify n) :: ops := by
  obtain ⟨o, ho, h⟩ := Option.any_eq_true _ _ |>.mp h
  obtain ⟨op, hop, h⟩ := Option.any_eq_true _ _ |>.mp h
  obtain ⟨ops, ht⟩ := List.head?_eq_some_iff.mp hop
  cases op with
  | write m =>
    cases m with
    | notify n => exact ⟨o, n, ops, ho, ht⟩
    | _        => cases h
  | _ => cases h

def handlesSubmit : ServerOp → Bool
  | .handleQueued _ _ m => m.isSubmit
  | _                   => false

-- Enough for a step to be in step.
def inStep (e : Machine.Event System Action) : Bool :=
  match e.act with
  | .receive d => (e.pre.objects.lookup d).all fun o =>
    o.data.cachedSetDifficulty.all fun t => o.data.pendingTarget.getD o.data.target = t
  | .task d    => (e.pre.objects.lookup d).all fun o =>
    o.todo.head? ≠ some applyPending || o.told.all fun t => o.data.pendingTarget.getD o.data.target = t
  | .serve     => !(e.pre.todo.head?.any handlesSubmit)
  | _          => true

theorem told_inStep : ((machine core (config false false)).trace (.new false)
    (retargeted ++ [.receive 1] ++ goOn 1 2)).all inStep := by
  decide +kernel

theorem inStep_sound {e : Machine.Event System Action} (h : inStep e) : InStep e.pre e.act where
  notify d o n t ha ho _ _ ht := by
    rw [inStep, ha] at h
    have h := Option.all_eq_true _ _ |>.mp h o ho
    exact of_decide_eq_true (Option.all_eq_true _ _ |>.mp h t ht)
  handshake d o ops t ha ho ht hto := by
    rw [inStep, ha] at h
    have h := Option.all_eq_true _ _ |>.mp h o ho
    simpa [ht, hto] using h
  queued d o c m ops ha ht _ hm := by
    rw [inStep, ha] at h
    simp [ht, handlesSubmit, hm] at h

end Retargeted

open Reference Reference.Sample Retargeted in
theorem not_fair : ¬∀ tr s, (machine core (config false false)).Run tr s → ∀ e ∈ tr, Fair e := by
  intro h
  obtain ⟨s, hs, hm⟩ := Option.any_eq_true _ _ |>.mp astray_exec
  obtain ⟨ha, hm⟩ := of_decide_eq_true hm
  obtain ⟨s', hst, hm⟩ := Option.any_eq_true _ _ |>.mp hm
  obtain ⟨o', ho', hm⟩ := Option.any_eq_true _ _ |>.mp hm
  obtain ⟨t, ht, hne⟩ := Option.any_eq_true _ _ |>.mp hm
  obtain ⟨o, n, ops, ho, htodo⟩ := announces_sound ha
  have r := (Machine.Run.of_exec (M := machine core (config false false)) rfl hs).snoc hst
  have hf := h _ s' r _ List.mem_concat_self
  exact of_decide_eq_true hne (hf.notified 1 o n ops o' t rfl ho htodo ho' ht)

open Reference Reference.Sample Retargeted in
theorem fair_sample : ∃ tr s, (machine core (config false false)).Run tr s ∧
    (s.objects.lookup 1).any (fun o => o.written.getLast?.any (·.difficulty?.isNone) ∧
      o.told = some 400 ∧ o.data.target = 400) ∧ ∀ e ∈ tr, Fair e := by
  obtain ⟨s, hs, hm⟩ := Option.any_eq_true _ _ |>.mp told_exec
  have r := Machine.Run.of_exec (M := machine core (config false false)) rfl hs
  refine ⟨_, s, r, hm, fair_of_run r fun e he => ?_⟩
  exact inStep_sound (List.all_eq_true.mp told_inStep e he)

end Translator.Sv1
