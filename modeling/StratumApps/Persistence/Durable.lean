import StratumApps.Persistence.File

namespace Persistence

namespace WorkerLoop

-- Each step of the worker, and each command that it takes, brings it closer to its end.
def rank : WorkerLoop → ℕ
  | ended                                                           => 0
  | lastFlush                                                       => 1
  | receiving | draining                                            => 2
  | opening | writing _ | flushing | drainWriting _ | drainFlushing => 3

end WorkerLoop

namespace FileAction

variable {Share : Type}

def isWork : FileAction Share → Bool
  | work => true
  | _    => false

def isOpenFails : FileAction Share → Bool
  | openFails => true
  | _         => false

end FileAction

namespace FileBackend

variable {Share : Type} {debug : PersistenceEvent Share → String}
variable {s s' : FileBackend Share} {a : FileAction Share} {q : List FileCommand}

open Machine (Event Along Path)

def pending (s : FileBackend Share) : List String :=
  s.worker.writes s.queue

-- The events for which `persist_event` has returned `Ok`, in the order of their sends.
def lines (debug : PersistenceEvent Share → String) (s : FileBackend Share) : List String :=
  s.accepted.map fun event => debug event ++ "\n"

-- The file has no line twice and none out of order, and whatever the clones do from here on, all events
-- that have been accepted are in the file after some steps of the worker, or when it has none left.
structure Durable (debug : PersistenceEvent Share → String) (s : FileBackend Share) : Prop where
  once : s.file <+: s.lines debug
  all  : ∃ n, ∀ tr s', (machine debug).Path s tr s' → Along (fun _ a => a.isOpenFails = false) tr →
    (n ≤ tr.countP (·.act.isWork) ∨ s'.work = none) → s.lines debug <+: s'.file

-- No event is accepted that the worker does not come to, and none before the file fails to open.
def Sound (s : FileBackend Share) : FileAction Share → Prop
  | .persistEvent _ => s.accepts = true → s.worker.closes s.queue = false
  | .openFails      => s.accepted = []
  | _               => True

instance : DecidablePred s.Sound
  | .persistEvent _                             =>
    inferInstanceAs (Decidable (s.accepts = true → s.worker.closes s.queue = false))
  | .openFails                                  => inferInstanceAs (Decidable (s.accepted = []))
  | .flush | .shutdown | .clone | .drop | .work => inferInstanceAs (Decidable True)

-- A step of the worker takes a command off the queue, or writes what it has at hand, or moves on. What
-- it writes in the end of the first commands of the queue stays the same.
theorem work_cases (h : s.work = some s') :
    (∃ cmd queue worker, s.queue = cmd :: queue ∧
      s' = { s with queue := queue, worker := worker } ∧
      s.worker.writes [] = [] ∧ (∀ q, s.worker.writes (cmd :: q) = worker.writes q) ∧
      worker.rank ≤ s.worker.rank + 1) ∨
    (∃ lines worker, s' = { s with file := s.file ++ lines, worker := worker } ∧
      (∀ q, q <+: s.queue → s.worker.writes q = lines ++ worker.writes q) ∧
      worker.rank < s.worker.rank) := by
  rw [work] at h
  split at h
  case h_1 hw =>
    cases h
    rw [hw]
    exact .inr ⟨[], .receiving, by simp, fun _ _ => rfl, by decide⟩
  case h_2 hw =>
    rw [hw]
    split at h
    case h_1 cmd queue hq =>
      cases h
      refine .inl ⟨cmd, queue, _, hq, rfl, rfl, ?_⟩
      cases cmd <;> exact ⟨fun _ => rfl, by simp [WorkerLoop.receive, WorkerLoop.rank]⟩
    case h_2 hq =>
      split_ifs at h
      cases h
      refine .inr ⟨[], .lastFlush, by simp, fun q hp => ?_, by decide⟩
      rw [hq, List.prefix_nil] at hp
      rw [hp]
      rfl
  case h_3 line hw =>
    cases h
    rw [hw]
    exact .inr ⟨[line], .receiving, rfl, fun _ _ => rfl, by simp [WorkerLoop.rank]⟩
  case h_4 hw =>
    cases h
    rw [hw]
    exact .inr ⟨[], .receiving, by simp, fun _ _ => rfl, by decide⟩
  case h_5 hw =>
    rw [hw]
    split at h
    case h_1 cmd queue hq =>
      cases h
      refine .inl ⟨cmd, queue, _, hq, rfl, rfl, ?_⟩
      cases cmd <;> exact ⟨fun _ => rfl, by simp [WorkerLoop.drain, WorkerLoop.rank]⟩
    case h_2 hq =>
      cases h
      refine .inr ⟨[], .lastFlush, by simp, fun q hp => ?_, by decide⟩
      rw [hq, List.prefix_nil] at hp
      rw [hp]
      rfl
  case h_6 line hw =>
    cases h
    rw [hw]
    exact .inr ⟨[line], .draining, rfl, fun _ _ => rfl, by simp [WorkerLoop.rank]⟩
  case h_7 hw =>
    cases h
    rw [hw]
    exact .inr ⟨[], .draining, by simp, fun _ _ => rfl, by decide⟩
  case h_8 hw =>
    cases h
    rw [hw]
    exact .inr ⟨[], .ended, by simp, fun _ _ => rfl, by decide⟩
  case h_9 => cases h

theorem writes_of_work_none (h : s.work = none) (hq : q <+: s.queue) : s.worker.writes q = [] := by
  rw [work] at h
  split at h
  case h_2 hw =>
    split at h
    case h_1        => cases h
    case h_2 hqueue =>
      rw [hqueue, List.prefix_nil] at hq
      rw [hq, hw]
      rfl
  case h_5        => split at h <;> cases h
  case h_9 hw     => rw [hw]; rfl
  all_goals cases h

theorem work_keeps (h : s.work = some s') : s'.accepted = s.accepted ∧
    s'.file ++ s'.pending = s.file ++ s.pending ∧ s.file <+: s'.file ∧
    2 * s'.queue.length + s'.worker.rank < 2 * s.queue.length + s.worker.rank := by
  obtain ⟨cmd, queue, worker, hq, rfl, _, hw, hr⟩ | ⟨lines, worker, rfl, hw, hr⟩ := work_cases h
  · refine ⟨rfl, ?_, List.prefix_rfl, ?_⟩
    · rw [pending, pending, hq, hw]
    · rw [hq, List.length_cons]
      dsimp only
      omega
  · refine ⟨rfl, ?_, List.prefix_append _ _, ?_⟩
    · rw [pending, pending, hw _ List.prefix_rfl, List.append_assoc]
    · dsimp only
      omega

theorem not_opening_of_work (h : s.work = some s') : s'.worker ≠ .opening := by
  have hr (cmd : FileCommand) : WorkerLoop.receive cmd ≠ .opening := by cases cmd <;> nofun
  have hd (cmd : FileCommand) : WorkerLoop.drain cmd ≠ .opening := by cases cmd <;> nofun
  rw [work] at h
  split at h
  case h_2 =>
    split at h
    case h_1 => cases h; exact hr _
    case h_2 => split_ifs at h; cases h; nofun
  case h_5 =>
    split at h
    case h_1 => cases h; exact hd _
    case h_2 => cases h; nofun
  all_goals cases h <;> nofun

-- Left alone, the worker comes to its end, or to where it waits, and has then written what is pending.
theorem exists_rest (debug : PersistenceEvent Share → String) (s : FileBackend Share) :
    ∃ tr s', (machine debug).Path s tr s' ∧ Along (fun _ a => a.isOpenFails = false) tr ∧
      s'.work = none ∧ s'.file = s.file ++ s.pending := by
  induction hn : 2 * s.queue.length + s.worker.rank using Nat.strong_induction_on generalizing s with
  | _ n ih =>
    cases h : s.work with
    | none    =>
      refine ⟨[], s, .nil, by simp [Along], h, ?_⟩
      rw [pending, writes_of_work_none h List.prefix_rfl, List.append_nil]
    | some s₁ =>
      obtain ⟨_, hk, _, hr⟩ := work_keeps h
      obtain ⟨tr, s', p, hc, hs', hf⟩ := ih _ (hn ▸ hr) s₁ rfl
      have hst : (machine debug).step s .work = some s₁ := h
      exact ⟨_, s', (Path.nil.snoc hst).trans p,
        Along.append.mpr ⟨by simp [Along, FileAction.isOpenFails], hc⟩, hs', hf.trans hk⟩

theorem Durable.lines_prefix (h : s.Durable debug) : s.lines debug <+: s.file ++ s.pending := by
  obtain ⟨n, h⟩ := h.all
  obtain ⟨tr, s', p, hc, hs', hf⟩ := s.exists_rest debug
  exact hf ▸ h tr s' p hc (.inr hs')

theorem trySend_cases (s : FileBackend Share) (cmd : FileCommand) :
    (s.accepts = true ∧ s.trySend cmd = (.ok (), { s with queue := s.queue ++ [cmd] })) ∨
    (s.accepts = false ∧ s.trySend cmd = (.error .channelFull, s)) := by
  cases h : s.accepts with
  | true  => exact .inl ⟨rfl, if_pos h⟩
  | false => exact .inr ⟨rfl, if_neg (by simp [h])⟩

-- A command that writes nothing is queued, or nothing changes.
theorem trySend_quiet {cmd : FileCommand} (hc : cmd.lines = []) :
    (∃ cmd', cmd'.lines = [] ∧ (s.trySend cmd).2 = { s with queue := s.queue ++ [cmd'] }) ∨
    ∃ n, (s.trySend cmd).2 = { s with senders := n } := by
  obtain ⟨_, ht⟩ | ⟨_, ht⟩ := s.trySend_cases cmd
  · exact .inl ⟨cmd, hc, by rw [ht]⟩
  · exact .inr ⟨s.senders, by rw [ht]⟩

-- What a step does: the worker goes on, it cannot open the file, an event is accepted, or the channel
-- gets a command that writes nothing, or the number of clones changes, if anything does.
theorem step_cases (h : s.step debug a = some s') :
    (a = .work ∧ s.work = some s') ∨
    (a = .openFails ∧ s.worker = .opening ∧ s' = { s with worker := .ended }) ∨
    (∃ event, a = .persistEvent event ∧ s.accepts = true ∧ s' = { s with
      queue    := s.queue ++ [.write (debug event)]
      accepted := s.accepted ++ [event] }) ∨
    (s.Sound a ∧ a.isWork = false ∧ ∃ cmd, cmd.lines = [] ∧
      s' = { s with queue := s.queue ++ [cmd] }) ∨
    (s.Sound a ∧ a.isWork = false ∧ ∃ n, s' = { s with senders := n }) := by
  cases a with
  | work      => exact .inl ⟨rfl, h⟩
  | openFails =>
    simp only [step, Option.ite_none_right_eq_some, Option.some_inj] at h
    exact .inr <| .inl ⟨rfl, h.left, h.right.symm⟩
  | persistEvent event =>
    simp only [step, Option.ite_none_left_eq_some, Option.some_inj] at h
    obtain ⟨_, rfl⟩ := h
    rw [persistEvent]
    obtain ⟨ha, ht⟩ | ⟨ha, ht⟩ := s.trySend_cases (.write (debug event))
    · exact .inr <| .inr <| .inl ⟨event, rfl, ha, by rw [ht]⟩
    · refine .inr <| .inr <| .inr <| .inr ⟨fun h => ?_, rfl, s.senders, by rw [ht]⟩
      rw [ha] at h
      cases h
  | flush     =>
    simp only [step, Option.ite_none_left_eq_some, Option.some_inj] at h
    rw [← h.right, flush]
    exact .inr <| .inr <| .inr <|
      (trySend_quiet rfl).imp (⟨trivial, rfl, ·⟩) (⟨trivial, rfl, ·⟩)
  | shutdown  =>
    simp only [step, Option.ite_none_left_eq_some, Option.some_inj] at h
    rw [← h.right, shutdown]
    exact .inr <| .inr <| .inr <|
      (trySend_quiet rfl).imp (⟨trivial, rfl, ·⟩) (⟨trivial, rfl, ·⟩)
  | clone     =>
    simp only [step, Option.ite_none_left_eq_some, Option.some_inj] at h
    exact .inr <| .inr <| .inr <| .inr ⟨trivial, rfl, _, h.right.symm⟩
  | drop      =>
    simp only [step, Option.ite_none_left_eq_some, Option.some_inj] at h
    exact .inr <| .inr <| .inr <| .inr ⟨trivial, rfl, _, h.right.symm⟩

theorem step_file (h : s.step debug a = some s') : s.file <+: s'.file := by
  obtain ⟨_, h⟩ | ⟨_, _, rfl⟩ | ⟨_, _, _, rfl⟩ | ⟨_, _, _, _, rfl⟩ | ⟨_, _, _, rfl⟩ := step_cases h
  case inl => exact (work_keeps h).right.right.left
  all_goals exact List.prefix_rfl

theorem path_file {tr : List (Event (FileBackend Share) (FileAction Share))}
    (p : (machine debug).Path s tr s') : s.file <+: s'.file := by
  induction p with
  | nil         => exact List.prefix_rfl
  | snoc _ h ih => exact ih.trans (step_file h)

-- The lines are in the file, or the worker still has them to write, from the first commands of the
-- queue. The number bounds the steps that it takes until then.
def Ahead (lines : List String) (n : ℕ) (s : FileBackend Share) : Prop :=
  ∃ q, q <+: s.queue ∧ lines <+: s.file ++ s.worker.writes q ∧ 2 * q.length + s.worker.rank ≤ n

section Ahead

variable {lines : List String} {n : ℕ}

theorem Ahead.work (ha : Ahead lines n s) (h : s.work = some s') :
    lines <+: s'.file ∨ ∃ n', Ahead lines n' s' ∧ n' + 1 ≤ n := by
  obtain ⟨q, hq, hl, hn⟩ := ha
  obtain ⟨cmd, queue, worker, hqueue, rfl, h0, hw, hr⟩ | ⟨ls, worker, rfl, hw, hr⟩ := work_cases h
  · cases q with
    | nil        =>
      rw [h0, List.append_nil] at hl
      exact .inl hl
    | cons cmd' q =>
      obtain ⟨rfl, hq⟩ := List.cons_prefix_cons.mp (hqueue ▸ hq)
      rw [hw] at hl
      refine .inr ⟨_, ⟨q, hq, hl, Nat.le_refl _⟩, ?_⟩
      rw [List.length_cons] at hn
      dsimp only
      omega
  · rw [hw q hq, ← List.append_assoc] at hl
    refine .inr ⟨_, ⟨q, hq, hl, Nat.le_refl _⟩, ?_⟩
    dsimp only
    omega

theorem Ahead.step (ha : Ahead lines n s) (hf : a.isOpenFails = false)
    (h : s.step debug a = some s') :
    lines <+: s'.file ∨ ∃ n', Ahead lines n' s' ∧ n' + a.isWork.toNat ≤ n := by
  obtain ⟨rfl, h⟩ | ⟨rfl, _, rfl⟩ | ⟨_, rfl, _, rfl⟩ | ⟨_, hw, _, _, rfl⟩ | ⟨_, hw, _, rfl⟩ := step_cases h
  · exact ha.work h
  · cases hf
  · obtain ⟨q, hq, ha⟩ := ha
    exact .inr ⟨n, ⟨q, hq.trans (List.prefix_append _ _), ha⟩, Nat.le_refl _⟩
  · obtain ⟨q, hq, ha⟩ := ha
    exact .inr ⟨n, ⟨q, hq.trans (List.prefix_append _ _), ha⟩, by simp [hw]⟩
  · exact .inr ⟨n, ha, by simp [hw]⟩

theorem Ahead.written {tr : List (Event (FileBackend Share) (FileAction Share))}
    (ha : Ahead lines n s) (p : (machine debug).Path s tr s')
    (hc : Along (fun _ a => a.isOpenFails = false) tr)
    (hn : n < tr.countP (·.act.isWork) ∨ s'.work = none) : lines <+: s'.file := by
  have hs (s a s' n) (ha : Ahead lines n s) (hc : a.isOpenFails = false)
      (h : (machine debug).step s a = some s') :
      lines <+: s'.file ∨ ∃ n', Ahead lines n' s' ∧ n' + a.isWork.toNat ≤ n := ha.step hc h
  rcases p.ranked (G := fun e => lines <+: e.post.file) hs hc ha with ⟨e, he, hg⟩ | ⟨n', ha, hle⟩
  case inl =>
    obtain ⟨_, _, _, _, p⟩ := p.split he
    exact hg.trans (path_file p)
  case inr =>
    rcases hn with hn | hw
    case inl => omega
    case inr =>
      obtain ⟨q, hq, hl, _⟩ := ha
      rwa [writes_of_work_none hw hq, List.append_nil] at hl

end Ahead

-- Nothing that has been accepted is lost: what the worker has written and writes is all of it.
structure Lossless (debug : PersistenceEvent Share → String) (s : FileBackend Share) : Prop where
  kept     : s.file ++ s.pending = s.lines debug
  unopened : s.worker = .opening → s.file = []

theorem Lossless.durable (h : s.Lossless debug) : s.Durable debug where
  once := ⟨s.pending, h.kept⟩
  all  := by
    have ha : Ahead (s.lines debug) (2 * s.queue.length + s.worker.rank) s :=
      ⟨s.queue, List.prefix_rfl, h.kept ▸ List.prefix_rfl, Nat.le_refl _⟩
    exact ⟨_, fun tr s' p hc hn => ha.written p hc (hn.imp_left Nat.lt_of_succ_le)⟩

theorem start_lossless {channelSize : ℕ} : (start channelSize).Lossless debug where
  kept     := rfl
  unopened := fun _ => rfl

theorem Lossless.step (hl : s.Lossless debug) (hs : s.Sound a) (h : s.step debug a = some s') :
    s'.Lossless debug := by
  obtain ⟨rfl, h⟩ | ⟨rfl, hw, rfl⟩ | ⟨event, rfl, ha, rfl⟩ | ⟨_, _, cmd, hcmd, rfl⟩ | ⟨_, _, n, rfl⟩ :=
    step_cases h
  · obtain ⟨ha, hk, _, _⟩ := work_keeps h
    refine ⟨?_, fun ho => absurd ho (not_opening_of_work h)⟩
    rw [hk, hl.kept, lines, lines, ha]
  · have ha : s.accepted = [] := hs
    refine ⟨?_, nofun⟩
    rw [hl.unopened hw, lines, ha]
    rfl
  · refine ⟨?_, hl.unopened⟩
    have hc : s.worker.closes s.queue = false := hs ha
    rw [pending, WorkerLoop.writes_concat, hc, ← List.append_assoc]
    exact congrArg (· ++ _) hl.kept |>.trans (by simp [lines, FileCommand.lines])
  · refine ⟨?_, hl.unopened⟩
    rw [pending, WorkerLoop.writes_concat, hcmd, ite_self, List.append_nil]
    exact hl.kept
  · exact ⟨hl.kept, hl.unopened⟩

theorem Lossless.durable_step (hl : s.Lossless debug) (h : s.step debug a = some s') :
    s'.Durable debug ↔ s.Sound a := by
  refine ⟨fun hd => ?_, fun hs => (hl.step hs h).durable⟩
  have hp := hd.lines_prefix
  obtain ⟨rfl, h⟩ | ⟨rfl, hw, rfl⟩ | ⟨event, rfl, ha, rfl⟩ | ⟨hs, _⟩ | ⟨hs, _⟩ := step_cases h
  · trivial
  · have hp : s.lines debug <+: s.file ++ [] := hp
    rw [hl.unopened hw, List.append_nil, List.prefix_nil, lines, List.map_eq_nil_iff] at hp
    exact hp
  · intro _
    rw [← Bool.not_eq_true]
    intro hc
    rw [pending, WorkerLoop.writes_concat, hc, if_pos rfl, List.append_nil] at hp
    have hp : s.lines debug ++ [debug event ++ "\n"] <+: s.file ++ s.pending := by
      rw [lines, List.map_append] at hp
      exact hp
    rw [hl.kept] at hp
    simpa using hp.length_le
  · exact hs
  · exact hs

theorem durable_iff {tr : List (Event (FileBackend Share) (FileAction Share))}
    (r : (machine debug).Run tr s) : (∀ e ∈ tr, e.post.Durable debug) ↔ Along Sound tr := by
  refine r.forall_iff_along (I := Lossless debug) ?_ ?_ ?_
  · rintro _ ⟨_, _, rfl⟩
    exact start_lossless
  · exact fun _ _ _ hl h => hl.durable_step h
  · exact fun _ _ _ hl hs h => hl.step hs h

namespace Sample

def text : PersistenceEvent String → String
  | .share t => t

-- The worker stops at the second `Shutdown`.
def twice : List (FileAction String) :=
  [.shutdown, .shutdown]

theorem twice_exec : ((machine text).exec (start 8) twice).any fun s =>
    (s.step text (.persistEvent (.share "a"))).any fun s' =>
      s'.file ++ s'.pending = [] ∧ s'.accepted ≠ [] := by
  decide +kernel

-- Events before a `Shutdown` and after it, which the worker writes before it ends.
def around : List (FileAction String) := [
  .persistEvent (.share "a"), .clone, .work, .shutdown, .persistEvent (.share "b"), .work, .flush,
  .work, .work, .persistEvent (.share "c"), .drop, .work, .work, .work, .work, .work, .work, .work,
  .work]

theorem around_exec : ((machine text).exec (start 8) around).isSome ∧
    ∀ e ∈ (machine text).trace (start 8) around, Sound e.pre e.act := by
  decide +kernel

end Sample

open Sample in
theorem not_durable : ¬∀ tr s, (machine text).Run tr s → ∀ e ∈ tr, e.post.Durable text := by
  intro h
  obtain ⟨s, hs, hn⟩ := Option.any_eq_true _ _ |>.mp twice_exec
  obtain ⟨s', hs', hl⟩ := Option.any_eq_true _ _ |>.mp hn
  obtain ⟨hp, ha⟩ := of_decide_eq_true hl
  have r : (machine text).Run _ s := .of_exec ⟨8, by decide, rfl⟩ hs
  have hst : (machine text).step s (.persistEvent (.share "a")) = some s' := hs'
  have hd : s'.Durable text := h _ _ (r.snoc hst) _ List.mem_concat_self
  have hl := hd.lines_prefix
  rw [hp, List.prefix_nil, lines, List.map_eq_nil_iff] at hl
  exact ha hl

open Sample in
theorem durable_sample : ∃ tr s, (machine text).Run tr s ∧ tr.length = around.length ∧
    ∀ e ∈ tr, e.post.Durable text := by
  obtain ⟨hexec, ht⟩ := around_exec
  obtain ⟨s, hs⟩ := Option.isSome_iff_exists.mp hexec
  have r : (machine text).Run _ s := .of_exec ⟨8, by decide, rfl⟩ hs
  exact ⟨_, s, r, by decide +kernel, (durable_iff r).mpr ht⟩

end FileBackend

end Persistence
