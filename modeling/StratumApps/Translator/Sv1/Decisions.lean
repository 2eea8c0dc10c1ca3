import StratumApps.Translator.Sv1.Pending

open Sv2 Handler StratumCore Deferral

namespace Translator.Sv1

section Course

variable (C : Core) (cfg : Config) (d : DownstreamId)

def ledger (tr : List (Machine.Event System Action)) : Ledger Target :=
  .run admits (tr.filterMap (deferral C cfg d))

-- Whatever is queued for a miner, the upstream target that is stored for it allows. The miner is told
-- what has been decided at once, and what has been delayed once the upstream has admitted it; a delayed
-- decision ends with the first answer of the upstream; and no decision overtakes another.
structure Decided (tr : List (Machine.Event System Action)) (s : System) : Prop where
  allowed  : ∀ e ∈ tr, ∀ t, queues d e = some t → e.pre.Allows d t
  queued   : cfg.enableVardiff → tr.filterMap (queues d) <+: (ledger C cfg d tr).passed.map (·.2)
  settled  : cfg.enableVardiff → s.todo = [] →
    tr.filterMap (queues d) = (ledger C cfg d tr).passed.map (·.2)
  pending  : cfg.enableVardiff → s.todo = [] → d ∈ s.server.downstreams →
    s.server.pendingOf d = (ledger C cfg d tr).waiting.map (·.2)
  consumed : ∀ tr₁ e tr₂ e' tr₃ t t', tr = tr₁ ++ e :: (tr₂ ++ e' :: tr₃) →
    deferral C cfg d e = some (.later t) → deferral C cfg d e' = some (.answer t') →
    (∀ e ∈ tr₂, ∀ t, deferral C cfg d e ≠ some (.answer t)) →
    (ledger C cfg d tr).Keeps (ledger C cfg d tr₁).next []
      (if t' ≤ t then [((ledger C cfg d tr₁).next, t)] else [])
  ordered  : cfg.enableVardiff → (ledger C cfg d tr).passed.Pairwise (·.1 < ·.1)

-- While an update of a miner is pending, vardiff finds no target for the miner that it may be told at
-- once.
def Timely (s : System) (a : Action) : Prop :=
  ∀ d h us all immediate ops t, a = .serve → s.todo = .vardiff ((d, h) :: us) all immediate :: ops →
    s.atOnce C cfg d h = some t → ∀ u ∈ s.server.pendingTargetUpdates, u.downstreamId ≠ d

end Course

section Runs

variable {C : Core} {cfg : Config} {d : DownstreamId} {tr : List (Machine.Event System Action)}
variable {s : System}

theorem ledger_concat {e : Machine.Event System Action} : ledger C cfg d (tr ++ [e]) =
    (deferral C cfg d e).elim (ledger C cfg d tr) ((ledger C cfg d tr).follow admits) := by
  rw [ledger, List.filterMap_append, Ledger.run_append]
  cases h : deferral C cfg d e <;> simp [h, ledger]

theorem steered_of_run (hb : C.Builds cfg) (r : (machine C cfg).Run tr s) : s.Steered C cfg := by
  have init (s : System) (h : (machine C cfg).Init s) : s.Steered C cfg := by
    cases h
    exact System.steered_new
  exact r.reachable.invariant init fun _ _ _ hs h => System.steered_step hb hs h

theorem booked_of_run (hv : cfg.enableVardiff) (hb : C.Builds cfg) (r : (machine C cfg).Run tr s) :
    System.Booked d (ledger C cfg d tr) (tr.filterMap (queues d)) s := by
  obtain ⟨s₀, hi, p⟩ := r
  induction p with
  | nil =>
    cases hi
    exact System.booked_new
  | @snoc tr s₁ s₂ a p hst ih =>
    have hs : s₁.Steered C cfg := steered_of_run hb ⟨s₀, hi, p⟩
    rw [ledger_concat, List.filterMap_append]
    have hq : [⟨s₁, a, s₂⟩].filterMap (queues d) = (queues d ⟨s₁, a, s₂⟩).toList := by
      cases h : queues d ⟨s₁, a, s₂⟩ <;> simp [h]
    rw [hq]
    exact System.booked_step hv hb hs ih hst

theorem deferral_now {a : Action} {s' : System} {t : Target} (h : s.step C cfg a = some s')
    (hd : deferral C cfg d ⟨s, a, s'⟩ = some (.now t)) : ∃ hashrate us all immediate ops,
      a = .serve ∧ s.todo = .vardiff ((d, hashrate) :: us) all immediate :: ops ∧
        s.atOnce C cfg d hashrate = some t := by
  cases a with
  | upstream m =>
    cases m with
    | setTarget m => cases (Option.ite_none_right_eq_some.mp hd).right
    | _           => cases hd
  | serve =>
    obtain ⟨op, ops, ht, _, _⟩ := System.serve_eq_some h
    have hs : deferral C cfg d ⟨s, .serve, s'⟩ = s.decides C cfg d op ∧ _ :=
      System.deferral_of_serve ht
    rw [hs.left] at hd
    cases op with
    | vardiff us all immediate =>
      cases us with
      | nil       => cases hd
      | cons u us =>
        obtain ⟨d', hashrate⟩ := u
        obtain ⟨rfl, _⟩ := Option.ite_none_right_eq_some.mp hd
        rw [System.decides_eq] at hd
        refine ⟨hashrate, us, all, immediate, ops, rfl, ht, ?_⟩
        cases hn : s.atOnce C cfg d' hashrate with
        | none   => simp [hn] at hd
        | some _ => simpa [hn] using hd
    | _ => cases hd
  | _ => cases hd

theorem queues_eq_some {e : Machine.Event System Action} {t : Target} (h : queues d e = some t) :
    e.act = .serve ∧ ∃ env ops, e.pre.todo = .broadcast env :: ops ∧ env.difficultyFor d = some t := by
  obtain ⟨s, a, s'⟩ := e
  cases a with
  | serve =>
    obtain ⟨op, ho, ht⟩ := Option.bind_eq_some_iff.mp h
    obtain ⟨ops, ho⟩ := List.head?_eq_some_iff.mp ho
    cases op with
    | broadcast env => exact ⟨rfl, env, ops, ho, ht⟩
    | _             => cases ht
  | _ => cases h

-- When the miner is told at once, nothing waits for it.
theorem waiting_of_now {a : Action} {s' : System} {t : Target} (hv : cfg.enableVardiff)
    (hb : C.Builds cfg) (r : (machine C cfg).Run tr s) (ht : Timely C cfg s a)
    (h : s.step C cfg a = some s') (hd : deferral C cfg d ⟨s, a, s'⟩ = some (.now t)) :
    (ledger C cfg d tr).waiting = [] := by
  obtain ⟨u, us, all, immediate, ops, rfl, htodo, hn⟩ := deferral_now h hd
  obtain ⟨hd, _⟩ := System.decision_eq_some (System.atOnce_eq_some.mp hn)
  have hw := (booked_of_run hv hb r).waiting hd
  have hp : s.server.pendingOf d = [] := by
    rw [Sv1Server.pendingOf, List.map_eq_nil_iff, List.filter_eq_nil_iff]
    intro u' hu' hud
    exact ht d u us all immediate ops t rfl htodo hn u' hu' (of_decide_eq_true hud)
  rw [Sv1Server.held, hp, ite_self] at hw
  exact List.map_eq_nil_iff.mp hw

theorem inOrder_of_run (hv : cfg.enableVardiff) (hb : C.Builds cfg) (r : (machine C cfg).Run tr s)
    (ht : Machine.Along (Timely C cfg) tr) : (ledger C cfg d tr).InOrder := by
  obtain ⟨s₀, hi, p⟩ := r
  induction p with
  | nil => exact Ledger.empty_inOrder
  | @snoc tr s₁ s₂ a p hst ih =>
    obtain ⟨ht, ha⟩ := Machine.Along.snoc.mp ht
    rw [ledger_concat]
    cases hd : deferral C cfg d ⟨s₁, a, s₂⟩ with
    | none   => exact ih ht
    | some e =>
      refine (ih ht).follow fun t he => ?_
      exact waiting_of_now hv hb ⟨s₀, hi, p⟩ ha hst (he ▸ hd)

theorem ledger_settles {tr₁ tr₂ tr₃ : List (Machine.Event System Action)}
    {e e' : Machine.Event System Action} {t t' : Target}
    (he : deferral C cfg d e = some (.later t)) (he' : deferral C cfg d e' = some (.answer t'))
    (h : ∀ e ∈ tr₂, ∀ t, deferral C cfg d e ≠ some (.answer t)) :
    (ledger C cfg d (tr₁ ++ e :: (tr₂ ++ e' :: tr₃))).Keeps (ledger C cfg d tr₁).next []
      (if t' ≤ t then [((ledger C cfg d tr₁).next, t)] else []) := by
  have hn : ∀ ev ∈ tr₂.filterMap (deferral C cfg d), ev.isAnswer = false := by
    intro ev hev
    obtain ⟨e, hm, hev⟩ := List.mem_filterMap.mp hev
    cases ev with
    | answer t => exact absurd hev (h e hm t)
    | _        => rfl
  have heq : tr₁.filterMap (deferral C cfg d) ++ .later t ::
      (tr₂.filterMap (deferral C cfg d) ++ .answer t' :: tr₃.filterMap (deferral C cfg d)) =
      (tr₁ ++ e :: (tr₂ ++ e' :: tr₃)).filterMap (deferral C cfg d) := by
    simp [he, he']
  have hl : (Ledger.run admits (tr₁.filterMap (deferral C cfg d) ++ .later t ::
      (tr₂.filterMap (deferral C cfg d) ++ .answer t' :: tr₃.filterMap (deferral C cfg d)))).Keeps _ _ _ :=
    Ledger.run_settles t t' hn
  rw [heq] at hl
  simp only [admits, decide_eq_true_eq] at hl
  exact hl

end Runs

theorem decided_of_run {C : Core} {cfg : Config} {d : DownstreamId}
    {tr : List (Machine.Event System Action)} {s : System} (hb : C.Builds cfg)
    (r : (machine C cfg).Run tr s) (ht : Machine.Along (Timely C cfg) tr) : Decided C cfg d tr s where
  allowed e he t hq := by
    obtain ⟨tr₁, _, _, r₁, _⟩ := r.split he
    obtain ⟨ha, env, ops, ht, hf⟩ := queues_eq_some hq
    have hst := r.step_of_mem he
    rw [ha] at hst
    obtain ⟨_, _, _, hr, _⟩ := System.serve_eq_some hst
    exact (steered_of_run hb r₁).sound hr ht d t hf
  queued hv := by
    rw [(booked_of_run hv hb r).passed]
    exact List.prefix_append _ _
  settled hv hs := by
    rw [(booked_of_run hv hb r).passed, System.plan_of_idle hs]
    exact (List.append_nil _).symm
  pending hv hs hd := by
    rw [(booked_of_run hv hb r).waiting hd, System.plan_of_idle hs]
    rfl
  consumed := by
    rintro tr₁ e tr₂ e' tr₃ t t' rfl he he' h
    exact ledger_settles he he' h
  ordered hv := (List.pairwise_append.mp (inOrder_of_run hv hb r ht).sorted).left

namespace Deferred

open Reference Reference.Sample

-- A hashrate of zero has no target.
def core : Core :=
  { Reference.core with hashRateToTarget := fun hashrate _ =>
      if hashrate = 0 then none else some (BitVec.ofNat 256 hashrate.toNat) }

theorem core_builds (cfg : Config) : core.Builds cfg := by
  intro hashrate t ht
  obtain ⟨hn, ht⟩ := Option.ite_none_left_eq_some.mp ht
  obtain rfl := Option.some.inj ht
  refine decide_eq_true fun h => hn ?_
  have hlt : hashrate.toNat < 2 ^ 256 := Nat.lt_trans hashrate.isLt (by decide)
  have hz := congrArg BitVec.toNat h
  rw [BitVec.toNat_ofNat, Nat.mod_eq_of_lt hlt] at hz
  exact BitVec.eq_of_toNat_eq hz

-- A miner with a channel of its own, whose target is 500.
def opened : List Action :=
  connect 1 ⟨1, .subscribe⟩ ++ [success 1 5] ++ serve 7

-- Vardiff lowers the target of the miner and then raises it again, and the upstream agrees to the first
-- change after that, or before.
def late : List Action :=
  opened ++ [.tick [(1, 400)]] ++ serve 2 ++ [.tick [(1, 600)]] ++ serve 3 ++ [setTarget 5 300] ++
    serve 4

def early : List Action :=
  opened ++ [.tick [(1, 400)]] ++ serve 2 ++ [setTarget 5 300] ++ serve 4 ++ [.tick [(1, 600)]] ++
    serve 3

theorem late_exec : ((machine core (config false true)).exec (.new false) late).isSome ∧
    (ledger core (config false true) 1 ((machine core (config false true)).trace (.new false)
      late)).passed = [(1, 600), (0, 400)] := by
  decide +kernel

-- Enough for a step to be timely.
def timely (e : Machine.Event System Action) : Bool :=
  match e.act, e.pre.todo with
  | .serve, .vardiff ((d, h) :: _) _ _ :: _ =>
    (e.pre.atOnce core (config false true) d h).isNone ||
      e.pre.server.pendingTargetUpdates.all fun u => u.downstreamId ≠ d
  | _, _ => true

theorem timely_sound {e : Machine.Event System Action} (h : timely e) :
    Timely core (config false true) e.pre e.act := by
  intro d hashrate us all immediate ops t ha ht hn u hu
  rw [timely, ha, ht] at h
  simp only [hn, Option.isNone_some, Bool.false_or] at h
  exact of_decide_eq_true (List.all_eq_true.mp h u hu)

theorem early_exec : ((machine core (config false true)).exec (.new false) early).any (fun s =>
      s.todo = []) ∧
    ((machine core (config false true)).trace (.new false) early).filterMap (queues 1) = [400, 600] ∧
    ((machine core (config false true)).trace (.new false) early).all timely := by
  decide +kernel

end Deferred

open Deferred Reference.Sample in
theorem not_decided : ¬∀ tr s, (machine Deferred.core (config false true)).Run tr s →
    Decided Deferred.core (config false true) 1 tr s := by
  intro h
  obtain ⟨hs, hl⟩ := late_exec
  obtain ⟨s, hs⟩ := Option.isSome_iff_exists.mp hs
  have r : (machine Deferred.core (config false true)).Run
      ((machine Deferred.core (config false true)).trace (.new false) late) s := .of_exec rfl hs
  have ho := (h _ s r).ordered rfl
  rw [hl] at ho
  exact absurd ho (by decide)

open Deferred Reference.Sample in
theorem decided_sample : ∃ tr s, (machine Deferred.core (config false true)).Run tr s ∧
    s.todo = [] ∧ tr.filterMap (queues 1) = [400, 600] ∧
      Decided Deferred.core (config false true) 1 tr s := by
  obtain ⟨hs, hq, ht⟩ := early_exec
  obtain ⟨s, hs, hi⟩ := Option.any_eq_true _ _ |>.mp hs
  have r := Machine.Run.of_exec (M := machine Deferred.core (config false true)) rfl hs
  refine ⟨_, s, r, of_decide_eq_true hi, hq, decided_of_run (core_builds _) r fun e he => ?_⟩
  exact timely_sound (List.all_eq_true.mp ht e he)

end Translator.Sv1
