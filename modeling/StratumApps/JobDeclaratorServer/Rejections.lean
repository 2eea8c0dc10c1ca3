import StratumApps.JobDeclaratorServer.Retention

open Sv2 Handler Machine

namespace Jds

variable {Tx : Type} {R : RolesLogic Tx} {s s₁ s₂ s₃ : Server R} {c : ClientId} {cfg : Config}
variable {x : Session Tx} {m : JdsMempool R} {message : DeclareMiningJob}
variable {tr tr' : List (Event (Server R) (Action Tx))}

namespace JobDeclaratorDownstream

variable {d d' : JobDeclaratorDownstream Tx}

-- The source's `declared_mining_job`.
def declaredState (d : JobDeclaratorDownstream Tx) :
    Option DeclareMiningJob × List TransactionState × List UInt16 :=
  (d.declaredMiningJob, d.transactionsWithState, d.missingTxs)

-- The declaration is answered with `DeclareMiningJobError`, or its handler fails.
def Rejects (d : JobDeclaratorDownstream Tx) (m : JdsMempool R) (message : DeclareMiningJob) : Prop :=
  (∃ error d', d.handleDeclareMiningJob m message = .ok (.respond (.declareMiningJobError error), d')) ∨
  ∃ e, d.handleDeclareMiningJob m message = .error e

-- The error is the answer to an unknown token, before the handler has written anything.
theorem eq_of_declareMiningJobError {error : DeclareMiningJobError}
    (h : d.handleDeclareMiningJob m message = .ok (.respond (.declareMiningJobError error), d')) :
    d' = d := by
  rw [handleDeclareMiningJob, bind_eq_ok] at h
  obtain ⟨verified, _, h⟩ := h
  split at h
  case isFalse =>
    cases h
    rfl
  case isTrue =>
    simp only [bind_eq_ok] at h
    obtain ⟨_, _, h⟩ := h
    split at h <;> cases h

theorem rejects_of_unknown (h : d.verifyJob message = .ok false) : d.Rejects m message := by
  refine .inl ⟨⟨message.requestId, [], []⟩, d, ?_⟩
  simp only [handleDeclareMiningJob, h, bind, Except.bind]
  rfl

theorem takeDeclaredMiningJob_declaredMiningJob :
    (d.takeDeclaredMiningJob m message).2.declaredMiningJob = none := by
  rw [takeDeclaredMiningJob]
  split
  case h_1 hd => exact hd
  case h_2    => rfl

theorem takeDeclaredMiningJob_of_none (h : d.declaredMiningJob = none) :
    d.takeDeclaredMiningJob m message = (m, d) := by
  rw [takeDeclaredMiningJob, h]

end JobDeclaratorDownstream

open JobDeclaratorDownstream

namespace Server

-- The session of a client that has sent a declaration, until its handler goes on behind its first lock.
def taken (s : Server R) (x : Session Tx) (message : DeclareMiningJob) : Session Tx :=
  { x with
    downstream := (x.downstream.takeDeclaredMiningJob s.mempool message).2
    task       := .declare message }

theorem declare_step (h : (machine R cfg).step s (.receive c (.declareMiningJob message)) = some s₁) :
    ∃ x, s.clients.lookup c = some x ∧ s₁.clients.lookup c = some (s.taken x message) ∧
      s₁.mempool = (x.downstream.takeDeclaredMiningJob s.mempool message).1 := by
  have ⟨x, hx, h⟩ := Option.bind_eq_some_iff.mp h
  split at h <;> cases h
  exact ⟨x, hx, setSession_lookup, rfl⟩

-- The session of a client stays as it is while the other tasks run.
theorem path_lookup (p : (machine R cfg).Path s tr s₁) (hl : c < s.nextClient)
    (hc : Along (fun _ a => a.client? ≠ some c) tr) : s₁.clients.lookup c = s.clients.lookup c := by
  have h : c < s₁.nextClient ∧ s₁.clients.lookup c = s.clients.lookup c := by
    refine p.invariant (I := fun s' => c < s'.nextClient ∧ s'.clients.lookup c = s.clients.lookup c)
      ?_ hc ⟨hl, rfl⟩
    intro s₁ a s₂ hi ha hs
    exact ⟨Nat.lt_of_lt_of_le hi.left (step_nextClient_le hs), (step_lookup hs hi.left ha).trans hi.right⟩
  exact h.right

theorem declare_run (hx : s.clients.lookup c = some x) (ht : x.task = .declare message)
    (h : (machine R cfg).step s (.run c) = some s₁) :
    s₁ = s.deliver c x (x.downstream.handleDeclareMiningJob s.mempool message) := by
  have ⟨y, hy, h⟩ := Option.bind_eq_some_iff.mp h
  cases hx.symm.trans hy
  rw [runSession, ht] at h
  exact (Option.some_inj.mp h).symm

end Server

open Server

-- A declaration from its frame to its rejection, with what the other tasks do in between.
structure Rejection (R : RolesLogic Tx) (cfg : Config) (c : ClientId) (message : DeclareMiningJob)
    (s s₁ s₂ s₃ : Server R) : Prop where
  received : (machine R cfg).step s (.receive c (.declareMiningJob message)) = some s₁
  others   : ∃ tr, (machine R cfg).Path s₁ tr s₂ ∧ Along (fun _ a => a.client? ≠ some c) tr
  handled  : (machine R cfg).step s₂ (.run c) = some s₃
  rejected : ∃ x, s₂.clients.lookup c = some x ∧ x.downstream.Rejects s₂.mempool message

-- Neither step of the handler has changed the mempool, and the client has the job of before.
structure Restores (c : ClientId) (s s₁ s₂ s₃ : Server R) : Prop where
  released : s₁.mempool = s.mempool
  answered : s₃.mempool = s₂.mempool
  job      : s₃.job? c = s.job? c
  declared : ∀ x x₃, s.clients.lookup c = some x → s₃.clients.lookup c = some x₃ →
    x₃.downstream.declaredState = x.downstream.declaredState

namespace Rejection

-- What a rejected declaration leaves behind: no job, for a client that may have had one.
theorem leaves (h : Rejection R cfg c message s s₁ s₂ s₃) (hs : s.Started) :
    ∃ x, s.clients.lookup c = some x ∧
      s₁.mempool = (x.downstream.takeDeclaredMiningJob s.mempool message).1 ∧
      s₃.mempool = s₂.mempool ∧
      ∀ x₃, s₃.clients.lookup c = some x₃ →
        x₃.downstream = (x.downstream.takeDeclaredMiningJob s.mempool message).2 := by
  have ⟨x, hx, hx₁, hm⟩ := declare_step h.received
  have ⟨tr, p, ho⟩ := h.others
  have h₁ : s.step cfg (.receive c (.declareMiningJob message)) = some s₁ := h.received
  have hl : c < s₁.nextClient := (hs.step h₁).issued c (Map.mem_iff_lookup.mpr ⟨_, hx₁⟩)
  have hx₂ : s₂.clients.lookup c = some (s.taken x message) := (path_lookup p hl ho).trans hx₁
  have h₃ := declare_run hx₂ rfl h.handled
  have ⟨y, hy, hr⟩ := h.rejected
  cases hx₂.symm.trans hy
  refine ⟨x, hx, hm, h₃ ▸ deliver_mempool, fun x₃ hx₃ => ?_⟩
  rcases hr with ⟨error, d, hr⟩ | ⟨e, hr⟩
  case inl =>
    rw [h₃, hr] at hx₃
    cases setSession_lookup.symm.trans hx₃
    exact eq_of_declareMiningJobError hr
  case inr =>
    rw [h₃, hr] at hx₃
    simp [deliver, endSession] at hx₃

theorem job?_eq_none (h : Rejection R cfg c message s s₁ s₂ s₃) (hs : s.Started) :
    s₃.job? c = none := by
  have ⟨x, _, _, _, hd⟩ := h.leaves hs
  rw [job?, Option.bind_eq_none_iff]
  intro x₃ hx₃
  rw [hd x₃ hx₃]
  exact takeDeclaredMiningJob_declaredMiningJob

theorem restores (h : Rejection R cfg c message s s₁ s₂ s₃) (hs : s.Started) (hj : s.job? c = none) :
    Restores c s s₁ s₂ s₃ := by
  have ⟨x, hx, hm, ha, hd⟩ := h.leaves hs
  have hn : x.downstream.declaredMiningJob = none := by simpa [job?, hx] using hj
  rw [takeDeclaredMiningJob_of_none hn] at hm hd
  refine ⟨hm, ha, (h.job?_eq_none hs).trans hj.symm, fun y x₃ hy hx₃ => ?_⟩
  cases hx.symm.trans hy
  rw [hd x₃ hx₃]

end Rejection

theorem rejected_declaration_restores_iff (r : (machine R cfg).Run tr s)
    (h : Rejection R cfg c message s s₁ s₂ s₃) : Restores c s s₁ s₂ s₃ ↔ s.job? c = none where
  mp k  := k.job.symm.trans (h.job?_eq_none (started_of_run r))
  mpr k := h.restores (started_of_run r) k

namespace Sample

-- A declaration with a token that was not given out.
def forged : DeclareMiningJob :=
  { job 4 txids with miningJobToken := ⟨[9, 0, 0, 0], by decide⟩ }

-- The client has no job yet, or one that was answered with success.
def allocated : List (Action Bytes) :=
  [.connect, .receive 0 (.allocateMiningJobToken ⟨[], 1⟩)]

def declared : List (Action Bytes) :=
  allocated ++ [replacement, .run 0]

-- The declaration is rejected behind a run of the sample, by a client that has or has no job there.
def rejects (as : List (Action Bytes)) (job : Bool) : Bool :=
  ((machine roles config).exec start as).any fun s =>
    ((machine roles config).step s (.receive 0 (.declareMiningJob forged))).any fun s₁ =>
      ((machine roles config).step s₁ (.run 0)).isSome && (s.job? 0).isSome == job &&
        (s₁.clients.lookup 0).any (·.downstream.verifyJob forged matches .ok false)

theorem rejection_of {as : List (Action Bytes)} {job : Bool} (h : rejects as job) :
    ∃ tr s s₁ s₃, (machine roles config).Run tr s ∧ (s.job? 0).isSome = job ∧
      Rejection roles config 0 forged s s₁ s₁ s₃ := by
  obtain ⟨s, he, h⟩ := Option.any_eq_true _ _ |>.mp h
  obtain ⟨s₁, h₁, h⟩ := Option.any_eq_true _ _ |>.mp h
  simp only [Bool.and_eq_true, beq_iff_eq] at h
  obtain ⟨⟨h₃, hj⟩, hv⟩ := h
  obtain ⟨s₃, h₃⟩ := Option.isSome_iff_exists.mp h₃
  obtain ⟨x, hx, hm⟩ := Option.any_eq_true _ _ |>.mp hv
  refine ⟨_, s, s₁, s₃, .of_exec start_init he, hj, h₁, ⟨[], .nil, nofun⟩, h₃, x, hx, ?_⟩
  split at hm
  case h_1 hv => exact rejects_of_unknown hv
  case h_2    => cases hm

theorem rejects_declared : rejects declared true := by
  decide +kernel

theorem rejects_allocated : rejects allocated false := by
  decide +kernel

end Sample

theorem not_rejected_declaration_restores :
    ¬∀ tr s s₁ s₂ s₃ c message, (machine Sample.roles Sample.config).Run tr s →
      Rejection Sample.roles Sample.config c message s s₁ s₂ s₃ → Restores c s s₁ s₂ s₃ := by
  intro h
  have ⟨_, s, s₁, s₃, r, hj, hr⟩ := Sample.rejection_of Sample.rejects_declared
  have hn := (h _ s s₁ s₁ s₃ 0 _ r hr).job.symm.trans (hr.job?_eq_none (started_of_run r))
  rw [hn] at hj
  cases hj

theorem rejected_declaration_restores_sample :
    ∃ s s₁ s₂ s₃, Rejection Sample.roles Sample.config 0 Sample.forged s s₁ s₂ s₃ ∧
      Restores 0 s s₁ s₂ s₃ := by
  have ⟨_, s, s₁, s₃, r, hj, hr⟩ := Sample.rejection_of Sample.rejects_allocated
  refine ⟨s, s₁, s₁, s₃, hr, (rejected_declaration_restores_iff r hr).mpr ?_⟩
  exact Option.not_isSome_iff_eq_none.mp (Bool.not_eq_true _ ▸ hj)

end Jds
