import StratumApps.JobDeclaratorServer.Steps

open Sv2 Handler

namespace Jds

variable {Tx : Type} {R : RolesLogic Tx} {s s' : Server R} {c c' : ClientId} {k : Txid}
variable {x : Session Tx} {cfg : Config} {a : Action Tx}

namespace Server

-- The current job of the client has `k` among the transactions that are present in the mempool.
def Marks (s : Server R) (c : ClientId) (k : Txid) : Prop :=
  ∃ x, s.clients.lookup c = some x ∧ x.downstream.declaredMiningJob.isSome ∧
    .presentInMempool k ∈ x.downstream.transactionsWithState

instance : Decidable (s.Marks c k) :=
  decidable_of_iff ((s.clients.lookup c).any fun x => x.downstream.declaredMiningJob.isSome &&
    decide (.presentInMempool k ∈ x.downstream.transactionsWithState)) <| by
      simp [Marks, Option.any_eq_true_iff_get, Option.eq_some_iff_get_eq]

theorem receive_declareMiningJob_job? {message : DeclareMiningJob} :
    (s.receive c x (.declareMiningJob message)).job? c = none := by
  simp only [receive, job?, setSession_lookup, Option.bind_some,
    JobDeclaratorDownstream.takeDeclaredMiningJob]
  split <;> simp_all

theorem Marks.job?_ne_none (h : s.Marks c k) : s.job? c ≠ none := by
  have ⟨x, hx, hj, _⟩ := h
  simpa [job?, hx, Option.isSome_iff_ne_none] using hj

-- Of the transactions that the job of `c` has present, the declaration of another client makes the
-- mempool forget none: each that it drops is thin, or counted for more than the job it replaces.
def SparesClient (s : Server R) (c : ClientId) (a : Action Tx) : Prop :=
  ∀ c' message, a = .receive c' (.declareMiningJob message) → c' ≠ c →
    ∀ k, s.Marks c k → ¬s.mempool.Drops (s.droppedBy c' message) k

def Spares (s : Server R) (a : Action Tx) : Prop :=
  ∀ c, s.SparesClient c a

-- What the client keeps in its job through one step stays in the mempool.
def Retains (s s' : Server R) : Prop :=
  ∀ c k, s.Marks c k → s'.job? c = s.job? c → k ∈ s.mempool → k ∈ s'.mempool

theorem Spares.retains (h : s.Spares a) (hs : s.step cfg a = some s') : s.Retains s' := by
  intro c k hm hj hk
  cases step_mempool hs
  case inl hg => exact hg.mem hk
  case inr hd =>
    have ⟨c', message, ha, hd⟩ := hd
    rw [hd, JdsMempool.mem_clearTxids]
    refine ⟨hk, fun hdrop => ?_⟩
    by_cases hc : c = c'
    case neg => exact h c c' message ha (Ne.symm hc) k hm hdrop
    case pos =>
      -- The client that declares anew has no job in the state after the step.
      subst ha hc
      have ⟨x, _, hs⟩ := Option.bind_eq_some_iff.mp hs
      split at hs <;> cases hs
      exact hm.job?_ne_none <| hj ▸ receive_declareMiningJob_job?

theorem Retains.spares (h : s.Retains s') (hs : s.step cfg a = some s') : s.Spares a := by
  intro c' c message ha hc k hm hdrop
  subst ha
  have ⟨x, hx, hs⟩ := Option.bind_eq_some_iff.mp hs
  split at hs <;> cases hs
  have hk : k ∈ s.mempool := by
    have ⟨_, _, hl, _⟩ := hdrop
    exact Map.mem_iff_lookup.mpr ⟨_, hl⟩
  have := h c' k hm (by rw [job?, job?, receive_lookup_ne hc.symm]) hk
  rw [receive_declareMiningJob_mempool hx, JdsMempool.mem_clearTxids] at this
  exact this.right hdrop

end Server

open Machine Server

-- While a client keeps a job that has `k` present, `k` stays in the mempool.
def Retained (R : RolesLogic Tx) (cfg : Config) (tr : List (Event (Server R) (Action Tx))) : Prop :=
  ∀ c k s₁ seg s₂, seg <:+: tr → (machine R cfg).Path s₁ seg s₂ →
    (∀ e ∈ seg, e.pre.Marks c k ∧ e.post.job? c = e.pre.job? c) →
    k ∈ s₁.mempool → k ∈ s₂.mempool

theorem mem_of_retains {seg : List (Event (Server R) (Action Tx))}
    (p : (machine R cfg).Path s seg s') (hr : ∀ e ∈ seg, e.pre.Retains e.post)
    (hm : ∀ e ∈ seg, e.pre.Marks c k ∧ e.post.job? c = e.pre.job? c) (hk : k ∈ s.mempool) :
    k ∈ s'.mempool := by
  induction p with
  | nil => exact hk
  | snoc p hs ih =>
    simp only [List.mem_append, List.mem_singleton, or_imp, forall_and, forall_eq] at hr hm
    exact hr.right c k hm.left.right hm.right.right <|
      ih hr.left fun e he => ⟨hm.left.left e he, hm.right.left e he⟩

-- The run lemma: marked transactions stay exactly in the runs in which every declaration spares
-- the jobs of the other clients.
theorem marked_txids_retained_iff {tr : List (Event (Server R) (Action Tx))}
    (r : (machine R cfg).Run tr s) : Retained R cfg tr ↔ Along Spares tr where
  mp h e he := by
    have hs := r.step_of_mem he
    have p : (machine R cfg).Path e.pre [e] e.post := Path.nil.snoc hs
    have hr : e.pre.Retains e.post := by
      intro c k hm hj hk
      apply h c k e.pre [e] e.post _ p _ hk
      · exact (List.singleton_infix_iff _ _).mpr he
      · simpa using ⟨hm, hj⟩
    exact hr.spares hs
  mpr h c k s₁ seg s₂ hseg p hm hk :=
    have hr (e) (he : e ∈ seg) : e.pre.Retains e.post :=
      (h e <| hseg.subset he).retains <| p.step_of_mem he
    mem_of_retains p hr hm hk

namespace Sample

-- Two clients declare the transaction, which the mempool knows by its id only. The first addition
-- fetches it and counts one; the second finds it there and does not count.
def twoDeclarations : List (Action Bytes) :=
  [ .connect, .connect,
    .receive 0 (.allocateMiningJobToken ⟨[], 1⟩), .receive 1 (.allocateMiningJobToken ⟨[], 1⟩),
    .updateMempool [txid],
    .receive 0 (.declareMiningJob (job 2 txids)), .run 0,
    .receive 1 (.declareMiningJob (job 2 txids)), .run 1,
    .spawnAdd, .spawnAdd, .runAdd 0, .rpcAdd 0 (.ok tx), .runAdd 1 ]

-- Then the first client replaces its job by one without transactions.
def replacement : Action Bytes :=
  .receive 0 (.declareMiningJob (job 3 ⟨[], by decide⟩))

theorem replacement_forgets :
    ∃ s₁ s₂, (machine roles config).exec start twoDeclarations = some s₁ ∧
      (machine roles config).step s₁ replacement = some s₂ ∧ s₁.Marks 1 txid ∧ s₂.job? 1 = s₁.job? 1 ∧
      txid ∈ s₁.mempool.mempool ∧ txid ∉ s₂.mempool.mempool := by
  have h : ((machine roles config).exec start twoDeclarations).any (fun s₁ =>
      ((machine roles config).step s₁ replacement).any fun s₂ => decide <| s₁.Marks 1 txid ∧
        s₂.job? 1 = s₁.job? 1 ∧ txid ∈ s₁.mempool.mempool ∧ txid ∉ s₂.mempool.mempool) := by
    decide +kernel
  simpa [Option.any_eq_true] using h

theorem replacement_not_retained :
    ∃ tr s, (machine roles config).Run tr s ∧ ¬Retained roles config tr := by
  have ⟨s₁, s₂, he, hs, hm, hj, hk₁, hk₂⟩ := replacement_forgets
  have r := (Run.of_exec start_init he).snoc hs
  refine ⟨_, s₂, r, fun h => hk₂ ?_⟩
  have p : (machine roles config).Path s₁ [⟨s₁, replacement, s₂⟩] s₂ := Path.nil.snoc hs
  refine h 1 txid s₁ _ s₂ (List.suffix_append _ _).isInfix p ?_ hk₁
  simpa using ⟨hm, hj⟩

-- Both additions find the transaction missing and count it, so that the first client can replace
-- its job.
def bothCounted : List (Action Bytes) :=
  [ .connect, .connect,
    .receive 0 (.allocateMiningJobToken ⟨[], 1⟩), .receive 1 (.allocateMiningJobToken ⟨[], 1⟩),
    .updateMempool [txid],
    .receive 0 (.declareMiningJob (job 2 txids)), .run 0,
    .receive 1 (.declareMiningJob (job 2 txids)), .run 1,
    .spawnAdd, .spawnAdd, .runAdd 0, .runAdd 1, .rpcAdd 0 (.ok tx), .rpcAdd 1 (.ok tx),
    replacement ]

-- The condition, as it can be computed.
def spares (e : Event (Server roles) (Action Bytes)) : Bool :=
  match e.act with
  | .receive c (.declareMiningJob message) => (e.pre.droppedBy c message).all fun k =>
    (e.pre.clients.entries.all fun x => x.1 = c || !decide (e.pre.Marks x.1 k)) ||
      (e.pre.mempool.mempool.lookup k).all fun entry => entry.all fun x =>
        (e.pre.droppedBy c message).count k < x.2.toNat
  | _ => true

theorem spares_of_all {tr : List (Event (Server roles) (Action Bytes))} (h : tr.all spares) :
    Along Spares tr := by
  intro e he c c' message ha hc k hm hdrop
  obtain ⟨tx, counter, hl, hk, hn⟩ := hdrop
  have h := List.all_eq_true.mp h e he
  simp only [spares, ha] at h
  have h := List.all_eq_true.mp h k hk
  obtain ⟨x, hx, _⟩ := id hm
  rw [Bool.or_eq_true] at h
  cases h with
  | inl h =>
    have h := List.all_eq_true.mp h ⟨c, x⟩ (AList.mem_lookup_iff.mp hx)
    simp [hc.symm, hm] at h
  | inr h =>
    simp only [hl, Option.all_some, decide_eq_true_eq] at h
    omega

theorem bothCounted_spares : ((machine roles config).trace start bothCounted).all spares := by
  decide +kernel

theorem bothCounted_exec : ((machine roles config).exec start bothCounted).any
    fun s => s.Marks 1 txid := by
  decide +kernel

end Sample

theorem not_always_retained :
    ¬∀ tr s, (machine Sample.roles Sample.config).Run tr s →
      Retained Sample.roles Sample.config tr := by
  intro h
  have ⟨tr, s, r, hr⟩ := Sample.replacement_not_retained
  exact hr <| h tr s r

open Sample in
theorem marked_txids_retained_iff_sample : (∃ s,
    (machine roles config).exec start bothCounted = some s ∧ s.Marks 1 txid ∧
      Retained roles config ((machine roles config).trace start bothCounted)) ∧
    ∃ tr s, (machine roles config).Run tr s ∧ ¬Along Spares tr := by
  constructor
  case left =>
    obtain ⟨s, hs, hm⟩ := Option.any_eq_true _ _ |>.mp bothCounted_exec
    have r := Run.of_exec start_init hs
    exact ⟨s, hs, of_decide_eq_true hm,
      (marked_txids_retained_iff r).mpr (spares_of_all bothCounted_spares)⟩
  case right =>
    have ⟨tr, s, r, hr⟩ := replacement_not_retained
    exact ⟨tr, s, r, fun h => hr <| (marked_txids_retained_iff r).mpr h⟩

end Jds
