import StratumApps.Translator.Sv1.Reference
import StratumApps.Translator.Sv1.Tasks

open Sv2 Handler StratumCore

namespace Translator.Sv1

open DownstreamOp

def ServerMessage.grants : ServerMessage → Bool
  | .response r => r.answer = .authorized true
  | _           => false

def taken (d : DownstreamId) (e : Machine.Event System Action) : Option ServerMessage :=
  if e.act = .receive d then (e.pre.objects.lookup d).bind (·.takes) else none

-- A miner whose authorize has been answered positively.
def Authorized (s : System) (d : DownstreamId) : Prop :=
  ∃ o, s.objects.lookup d = some o ∧ ∃ m ∈ o.written, m.grants

-- A `mining.notify` that comes after that is written before the task waits again. With it goes the
-- `mining.set_difficulty` that came before it, or a later one in its place.
structure Delivered (d : DownstreamId) (tr : List (Machine.Event System Action)) (s : System) :
    Prop where
  notify : ∀ tr₁ e tr₂ n o, tr = tr₁ ++ e :: tr₂ → Authorized e.pre d →
    taken d e = some (.notify n) → s.objects.lookup d = some o → o.todo = [] →
    ∃ clean, .notify { n with cleanJobs := clean } ∈ o.written
  setDifficulty : ∀ tr₁ e tr₂ e' tr₃ t n o, tr = tr₁ ++ e :: tr₂ ++ e' :: tr₃ → Authorized e.pre d →
    taken d e = some (.setDifficulty t) → taken d e' = some (.notify n) →
    s.objects.lookup d = some o → o.todo = [] →
    ∃ t', (t' = t ∨ ∃ e ∈ tr₂, taken d e = some (.setDifficulty t')) ∧
      .setDifficulty t' ∈ o.written

-- An authorize comes out of the queue only for a miner that has completed its handshake otherwise.
def HandledDirectly (s : System) (a : Action) : Prop :=
  ∀ d c m ops o, a = .serve → s.todo = .handleQueued d c m :: ops → m.isAuthorize →
    s.objects.lookup d = some o → o.data.sv1HandshakeComplete

namespace Downstream

variable {C : Core} {o o' : Downstream} {op : DownstreamOp} {ops : List DownstreamOp}
variable {validJobs : List Notify}

theorem grants_isAuthorize {m : ClientMessage} {r : Response} {d : DownstreamData}
    (h : (d.handleMessage C validJobs m).1 = .ok (some r)) (hr : r.answer = .authorized true) :
    m.isAuthorize := by
  rw [DownstreamData.handleMessage] at h
  rw [ClientMessage.isAuthorize]
  cases hm : m.request with
  | authorize name => rfl
  | configure mask minBit =>
    rw [hm] at h
    dsimp only at h
    rw [DownstreamData.handleConfigure] at h
    generalize expect _ _ = params at h
    cases params with
    | error _ => cases h
    | ok p    =>
      cases h
      cases hr
  | submit share =>
    rw [hm] at h
    dsimp only at h
    split at h
    case isTrue =>
      cases h
      cases hr
    case isFalse => cases h
  | subscribe =>
    rw [hm] at h
    cases h
    cases hr
  | _ =>
    rw [hm] at h
    cases h

theorem exec_complete (h : o.data.sv1HandshakeComplete) :
    (o.exec C validJobs op).1.data.sv1HandshakeComplete := by
  cases op with
  | checkEstablished m | checkFirst m =>
    rw [exec]
    split <;> exact h
  | handle m =>
    have hm : DownstreamData.Handled o.data (o.data.handleMessage C validJobs m).2 :=
      DownstreamData.handleMessage_handled
    rw [exec, handleMessage, onResponse.eq_def]
    split <;> exact hm.complete.trans h
  | completeHandshake => rfl
  | _                 => exact h

theorem onNotification_complete {e : Envelope} :
    (o.onNotification e).data.sv1HandshakeComplete = o.data.sv1HandshakeComplete := by
  rw [onNotification]
  split
  case h_1 => rfl
  case h_2 =>
    dsimp only
    split
    case isTrue  => split <;> rfl
    case isFalse => rfl
  case h_3 => split <;> rfl

-- A positive answer to write comes with the completion of the handshake.
theorem exec_due {m : ServerMessage} (hg : m.grants)
    (h : ({ o with todo := ops }.exec C validJobs op).1.Due m) :
    { o with todo := op :: ops }.Due m ∨
      completeHandshake ∈ ({ o with todo := ops }.exec C validJobs op).1.todo := by
  have later (new : List DownstreamOp) (hn : ∀ m', write m' ∈ new → ¬m'.grants)
      (h : { o with todo := new ++ ops }.Due m) : { o with todo := op :: ops }.Due m := by
    cases h with
    | inl h => exact .inl h
    | inr h =>
      cases List.mem_append.mp h with
      | inl h => exact absurd hg (hn m h)
      | inr h => exact .inr (.tail op h)
  cases op with
  | write m' =>
    left
    cases h with
    | inr h => exact .inr (.tail _ h)
    | inl h =>
      cases List.mem_append.mp h with
      | inl h => exact .inl h
      | inr h =>
        cases List.mem_singleton.mp h
        exact .inr (.head ops)
  | checkEstablished m' | checkFirst m' =>
    rw [exec] at h
    left
    split at h <;> exact later _ (by simp) h
  | openChannel | queue m' | applyPending | sendShare => exact .inl (later [] (by simp) h)
  | completeHandshake =>
    left
    refine later (sendCached o.data) (fun m' hm => ?_) h
    cases List.mem_append.mp hm with
    | inl hm =>
      obtain ⟨t, _, hm⟩ := mem_elim.mp hm
      simp only [List.mem_cons, write.injEq, reduceCtorEq, List.not_mem_nil, or_false] at hm
      rw [hm]
      exact Bool.false_ne_true
    | inr hm =>
      obtain ⟨n, _, hm⟩ := mem_elim.mp hm
      cases List.mem_singleton.mp hm
      exact Bool.false_ne_true
  | handle m' =>
    rw [exec, handleMessage, onResponse.eq_def] at h ⊢
    split at h
    case h_3 =>
      cases h with
      | inl h => exact .inl (.inl h)
      | inr h => cases h
    case h_2 => exact .inl (later [sendShare] (by simp) h)
    case h_1 r hr =>
      by_cases hr' : r.answer = .authorized true
      case pos =>
        have hm : m'.isAuthorize := grants_isAuthorize hr hr'
        right
        simp [next, respond, hm]
      case neg =>
        refine .inl (later (respond m' r) (fun m'' hm => ?_) h)
        have hm : m'' = .response r := by
          rw [respond] at hm
          split at hm <;> simpa using hm
        rw [hm]
        exact fun h => hr' (of_decide_eq_true h)

theorem exec_completes (h : completeHandshake ∈ op :: ops) (hn : ∀ m, op ≠ handle m) :
    ({ o with todo := ops }.exec C validJobs op).1.data.sv1HandshakeComplete ∨
      completeHandshake ∈ ({ o with todo := ops }.exec C validJobs op).1.todo := by
  cases h with
  | head _   => exact .inl rfl
  | tail _ h => exact .inr (mem_exec_todo h hn)

-- What the task writes of a message that it takes.
theorem onNotification_due {e : Envelope} {m : ServerMessage} (ht : o.todo = [])
    (h : write m ∈ (o.onNotification e).todo) (hg : m.grants) : e.message = m := by
  rw [onNotification] at h
  split at h
  case h_1 => simp [ht] at h
  case h_2 =>
    dsimp only at h
    split at h
    case isFalse => simp [ht] at h
    case isTrue =>
      split at h
      case h_1 =>
        simp only [next, ht, List.append_nil, List.mem_singleton, write.injEq] at h
        cases h
        cases hg
      case h_2 =>
        simp only [next, ht, List.append_nil, List.mem_cons, write.injEq, List.not_mem_nil,
          or_false] at h
        rcases h with rfl | rfl <;> cases hg
  case h_3 r hr =>
    split at h
    case isFalse => simp [ht] at h
    case isTrue =>
      simp only [next, ht, List.append_nil, List.mem_singleton, write.injEq] at h
      rw [hr, h]

end Downstream

namespace System

variable {C : Core} {cfg : Config} {s s' : System} {d : DownstreamId} {a : Action} {op : ServerOp}
variable {o o' : Downstream}

-- A handshake that is complete stays complete.
theorem evolves_complete (h : Evolves C cfg s d a o o') (hc : o.data.sv1HandshakeComplete) :
    o'.data.sv1HandshakeComplete := by
  cases h with
  | took h =>
    obtain ⟨_, _, rfl⟩ := Downstream.take_eq_some h
    exact hc
  | wentOn h =>
    obtain ⟨op, ops, _, _, rfl⟩ := Downstream.goOn_eq_some h
    exact Downstream.exec_complete (o := { o with todo := ops }) hc
  | received h =>
    obtain ⟨e, es, _, _, _, rfl | rfl⟩ := Downstream.receive_cases h
    case inl => exact hc
    case inr =>
      rw [Downstream.handleSv1ServerMessage]
      split
      case isTrue  => exact Downstream.onNotification_complete.trans hc
      case isFalse => exact hc
  | stopped h =>
    obtain ⟨_, _, rfl⟩ := Downstream.stop_eq_some h
    exact hc
  | served _ => exact served_spares.complete.trans hc
  | named    => exact hc
  | kept     => exact hc

-- Whoever is sent a positive answer has completed the handshake.
def Completed (s : System) (e : Envelope) : Prop :=
  e.message.grants → ∃ d o, e.downstreamId = some d ∧ s.objects.lookup d = some o ∧
    o.data.sv1HandshakeComplete

-- Whoever is given a positive answer has completed the handshake, or does so before the task waits
-- again.
structure Answered (s : System) : Prop where
  staged    : s.Staged
  signed    : s.Signed
  envelopes : s.Envelopes (Completed s)
  complete  : ∀ d o m, s.objects.lookup d = some o → o.runs → m.grants → o.Due m →
    o.data.sv1HandshakeComplete ∨ completeHandshake ∈ o.todo

theorem answered_new {aggregateChannels : Bool} : (new aggregateChannels).Answered where
  staged             := staged_new
  signed _ _ h       := by cases h
  envelopes          := envelopes_new
  complete _ _ _ h _ := by cases h

theorem completed_of_step (hs : s.Staged) (h : s.step C cfg a = some s') {e : Envelope}
    (he : Completed s e) : Completed s' e := by
  intro hg
  obtain ⟨d, o, hd, ho, hc⟩ := he hg
  obtain ⟨o', ho', hev⟩ := hs.evolves h ho
  exact ⟨d, o', hd, ho', evolves_complete hev hc⟩

theorem answered_envelopes (hs : s.Answered) (hd : HandledDirectly s a)
    (h : s.step C cfg a = some s') : s'.Envelopes (Completed s') := by
  have he : s.Envelopes (Completed s') := hs.envelopes.mono fun e => completed_of_step hs.staged h
  refine envelopes_step (fun e hn hg => ?_) he h fun d c m ops r ha ht hb => ?_
  case refine_1 =>
    cases hm : e.message with
    | response r => simp [hm, ServerMessage.isNotification] at hn
    | _          => simp [hm, ServerMessage.grants] at hg
  case refine_2 =>
    apply completed_of_step hs.staged h
    intro hg
    obtain ⟨r', hr, hb⟩ := List.mem_map.mp hb
    obtain ⟨o, ho, hr⟩ := Option.bind_eq_some_iff.mp (Option.mem_toList.mp hr)
    cases hb
    have hr : (o.data.handleMessage C (s.server.validJobs o.data.channelId) m).1 = .ok (some r) := by
      cases hx : (o.data.handleMessage C (s.server.validJobs o.data.channelId) m).1 with
      | error e => simp [hx, Except.toOption] at hr
      | ok x    => simpa [hx, Except.toOption] using hr
    have hm : m.isAuthorize := Downstream.grants_isAuthorize hr (of_decide_eq_true hg)
    exact ⟨d, o, rfl, ho, hd d c m ops o ha ht hm ho⟩

theorem answered_evolves (hs : s.Answered) (ho : s.objects.lookup d = some o)
    (h : Evolves C cfg s d a o o') (hr : o'.runs) {m : ServerMessage} (hg : m.grants)
    (hd : o'.Due m) : o'.data.sv1HandshakeComplete ∨ completeHandshake ∈ o'.todo := by
  have complete (hd : o.Due m) : o.data.sv1HandshakeComplete ∨ completeHandshake ∈ o.todo :=
    hs.complete d o m ho (evolves_runs h hr) hg hd
  have waiting (ht : o.todo = []) (hm : m ∈ o.written) : o'.data.sv1HandshakeComplete := by
    cases complete (.inl hm) with
    | inl hc => exact evolves_complete h hc
    | inr hc =>
      rw [ht] at hc
      cases hc
  cases h with
  | took ht =>
    obtain ⟨_, hnil, rfl⟩ := Downstream.take_eq_some ht
    cases hd with
    | inl hm => exact .inl (waiting hnil hm)
    | inr hm => simp at hm
  | wentOn hgo =>
    obtain ⟨op, ops, ht, _, rfl⟩ := Downstream.goOn_eq_some hgo
    cases Downstream.exec_due hg hd with
    | inr hc => exact .inr hc
    | inl hd =>
      have hd : o.Due m := by
        rw [← ht] at hd
        exact hd
      cases complete hd with
      | inl hc => exact .inl (Downstream.exec_complete (o := { o with todo := ops }) hc)
      | inr hc =>
        have hst := hs.staged.stage d o ho
        rw [ht] at hc hst
        refine Downstream.exec_completes hc ?_
        rintro m' rfl
        cases hst with
        | handling _   => simp at hc
        | announcing h => cases h
  | received hrec =>
    left
    have hev := evolves_written (Evolves.received hrec : Evolves C cfg s d (.receive d) o o')
    obtain ⟨e, es, hrs, _, ht, rfl | rfl⟩ := Downstream.receive_cases hrec
    case inl => cases hr
    case inr =>
      obtain hw | ⟨_, _, ha, _⟩ := hev
      case inr => cases ha
      case inl =>
        cases hd with
        | inl hm => exact waiting ht (hw ▸ hm)
        | inr hm =>
          rw [Downstream.handleSv1ServerMessage] at hm ⊢
          split at hm
          case isFalse =>
            have hm : write m ∈ o.todo := hm
            rw [ht] at hm
            cases hm
          case isTrue hacc =>
            have hem : e.message = m := 
              Downstream.onNotification_due (o := { o with received := es }) ht hm hg
            obtain ⟨d', o₁, hd', ho₁, hc⟩ :=
              hs.envelopes.received d o ho e (hrs ▸ List.mem_cons_self) (hem ▸ hg)
            have hid : d' = d := by
              have hacc : e.downstreamId.isNone || e.downstreamId = some o.data.downstreamId :=
                (Bool.and_eq_true_iff.mp hacc).right
              simpa [hd', (hs.signed d o ho).left] using hacc
            subst hid
            cases ho.symm.trans ho₁
            rw [if_pos hacc]
            exact Downstream.onNotification_complete.trans hc
  | stopped ht =>
    obtain ⟨_, _, rfl⟩ := Downstream.stop_eq_some ht
    cases hr
  | served _ =>
    rw [Downstream.Due, served_spares.todo, served_spares.written] at hd
    rw [served_spares.todo]
    cases complete hd with
    | inl hc => exact .inl (served_spares.complete.trans hc)
    | inr hc => exact .inr hc
  | named => exact complete hd
  | kept  => exact complete hd

theorem answered_step (hs : s.Answered) (hd : HandledDirectly s a) (h : s.step C cfg a = some s') :
    s'.Answered where
  staged    := staged_step hs.staged h
  signed    := signed_step hs.signed h
  envelopes := answered_envelopes hs hd h
  complete d o' m ho' hr hg hdue := by
    obtain ⟨_, _, rfl⟩ | ⟨o, ho, he⟩ := evolves_of_step h ho'
    case inl =>
      cases hdue with
      | inl hm => cases hm
      | inr hm => cases hm
    case inr => exact answered_evolves hs ho he hr hg hdue

theorem taken_eq_some {m : ServerMessage} (h : taken d ⟨s, a, s'⟩ = some m) :
    a = .receive d ∧ ∃ o, s.objects.lookup d = some o ∧ o.takes = some m := by
  obtain ⟨ha, h⟩ := Option.ite_none_right_eq_some.mp h
  exact ⟨ha, Option.bind_eq_some_iff.mp h⟩

-- A `mining.notify` that the task takes after the handshake is written, and what is cached before it.
theorem takes_notify {n : Notify} (ht : o.takes = some (.notify n)) (h : o.receive = some o')
    (hc : o.data.sv1HandshakeComplete) : (∃ clean, o'.Due (.notify { n with cleanJobs := clean })) ∧
      ∀ t, o.data.cachedSetDifficulty = some t → o'.Due (.setDifficulty t) := by
  obtain ⟨e, es, he, _, rfl⟩ := Downstream.receive_of_takes ht h
  rw [Downstream.onNotification, he]
  dsimp only
  rw [if_pos hc]
  split
  case h_1 hn =>
    exact ⟨⟨n.cleanJobs, .inr List.mem_cons_self⟩, fun t ht => by cases hn.symm.trans ht⟩
  case h_2 t ht =>
    refine ⟨⟨true, .inr (.tail _ List.mem_cons_self)⟩, fun t' ht' => ?_⟩
    cases ht.symm.trans ht'
    exact .inr List.mem_cons_self

theorem takes_setDifficulty {t : Target} (ht : o.takes = some (.setDifficulty t))
    (h : o.receive = some o') : o'.data.cachedSetDifficulty = some t := by
  obtain ⟨e, es, he, _, rfl⟩ := Downstream.receive_of_takes ht h
  rw [Downstream.onNotification, he]

theorem exec_cached {ops : List DownstreamOp} {op : DownstreamOp} {validJobs : List Notify}
    {t : Target} (h : o.data.cachedSetDifficulty = some t) :
    ({ o with todo := ops }.exec C validJobs op).1.data.cachedSetDifficulty = some t ∨
      ({ o with todo := ops }.exec C validJobs op).1.Due (.setDifficulty t) := by
  cases op with
  | completeHandshake =>
    right
    rw [Downstream.exec, Downstream.handleSv1HandshakeCompletion, sendCached]
    dsimp only
    rw [h]
    exact .inr List.mem_cons_self
  | checkEstablished m | checkFirst m =>
    left
    rw [Downstream.exec]
    split <;> exact h
  | handle m =>
    left
    have hm : DownstreamData.Handled o.data (o.data.handleMessage C validJobs m).2 :=
      DownstreamData.handleMessage_handled
    rw [Downstream.exec, Downstream.handleMessage, Downstream.onResponse.eq_def]
    split <;> exact hm.cachedSetDifficulty.trans h
  | _ => exact .inl h

theorem onNotification_cached {e : Envelope} {t : Target}
    (h : o.data.cachedSetDifficulty = some t) :
    (o.onNotification e).data.cachedSetDifficulty = some t ∨ (o.onNotification e).Due (.setDifficulty t) ∨
      ∃ t', e.message = .setDifficulty t' ∧
        (o.onNotification e).data.cachedSetDifficulty = some t' := by
  rw [Downstream.onNotification]
  split
  case h_1 t' he => exact .inr (.inr ⟨t', he, rfl⟩)
  case h_2 n _ =>
    dsimp only
    split
    case isFalse => exact .inl h
    case isTrue =>
      split
      case h_1    => exact .inl h
      case h_2 ht =>
        cases ht.symm.trans h
        exact .inr (.inl (.inr List.mem_cons_self))
  case h_3 => split <;> exact .inl h

-- A `mining.set_difficulty` leaves the cache to be written, or for a later one.
theorem evolves_cached (h : Evolves C cfg s d a o o') {t : Target}
    (ht : o.data.cachedSetDifficulty = some t) : o'.data.cachedSetDifficulty = some t ∨
      o'.Due (.setDifficulty t) ∨ ∃ t', a = .receive d ∧ o.takes = some (.setDifficulty t') ∧
        o'.data.cachedSetDifficulty = some t' := by
  cases h with
  | took h =>
    obtain ⟨_, _, rfl⟩ := Downstream.take_eq_some h
    exact .inl ht
  | wentOn h =>
    obtain ⟨op, ops, _, _, rfl⟩ := Downstream.goOn_eq_some h
    cases exec_cached ht with
    | inl h => exact .inl h
    | inr h => exact .inr (.inl h)
  | received h =>
    obtain ⟨_, rfl | ⟨_, _, _, _, rfl⟩⟩ | ⟨e, es, _, _, htk, rfl⟩ := Downstream.receive_takes h
    case inl.inl => exact .inl ht
    case inl.inr => exact .inl ht
    case inr     =>
      obtain h | h | ⟨t', he, h⟩ :=
        onNotification_cached (o := { o with received := es }) (e := e) ht
      case inl     => exact .inl h
      case inr.inl => exact .inr (.inl h)
      case inr.inr => exact .inr (.inr ⟨t', rfl, he ▸ htk, h⟩)
  | stopped h =>
    obtain ⟨_, _, rfl⟩ := Downstream.stop_eq_some h
    exact .inl ht
  | served _ => exact .inl (served_spares.cachedSetDifficulty.trans ht)
  | named    => exact .inl ht
  | kept     => exact .inl ht

end System

variable {C : Core} {cfg : Config} {tr tr₁ tr₂ : List (Machine.Event System Action)}
variable {s s₁ : System} {d : DownstreamId}

theorem answered_of_run (r : (machine C cfg).Run tr s) (hc : Machine.Along HandledDirectly tr) :
    s.Answered := by
  have init (s : System) (h : (machine C cfg).Init s) : s.Answered := by
    cases h
    exact System.answered_new
  exact r.invariant init (fun _ _ _ hs ha h => System.answered_step hs ha h) hc

-- What is about to be written stays so, or is written.
theorem due_of_path (p : (machine C cfg).Path s₁ tr s) (hs : s₁.Staged) {o o₁ : Downstream}
    (ho₁ : s₁.objects.lookup d = some o₁) {m : ServerMessage} (hm : o₁.Due m)
    (ho : s.objects.lookup d = some o) : o.Due m := by
  have step (s : System) (a : Action) (s' : System)
      (hi : s.Staged ∧ ∃ o, s.objects.lookup d = some o ∧ o.Due m) (_ : True)
      (h : (machine C cfg).step s a = some s') :
      s'.Staged ∧ ∃ o, s'.objects.lookup d = some o ∧ o.Due m := by
    obtain ⟨hs, o, ho, hm⟩ := hi
    obtain ⟨o', ho', he⟩ := hs.evolves h ho
    exact ⟨System.staged_step hs h, o', ho', System.evolves_due (hs.stage d o ho) hm he⟩
  obtain ⟨_, o', ho', hm⟩ := p.invariant (C := fun _ _ => True) step (fun _ _ => trivial)
    ⟨hs, o₁, ho₁, hm⟩
  cases ho.symm.trans ho'
  exact hm

-- From the time that a `mining.set_difficulty` is cached, it or a later one is cached or written.
theorem cached_of_path (p : (machine C cfg).Path s₁ tr s) (hs : s₁.Staged) {o₁ : Downstream}
    (ho₁ : s₁.objects.lookup d = some o₁) {t : Target}
    (ht : o₁.data.cachedSetDifficulty = some t) : s.Staged ∧ ∃ o t', s.objects.lookup d = some o ∧
      (t' = t ∨ ∃ e ∈ tr, taken d e = some (.setDifficulty t')) ∧
      (o.data.cachedSetDifficulty = some t' ∨ o.Due (.setDifficulty t')) := by
  induction p with
  | nil => exact ⟨hs, o₁, t, ho₁, .inl rfl, .inl ht⟩
  | @snoc tr s s' a _ h ih =>
    obtain ⟨hs, o, t', ho, hl, hd⟩ := ih
    obtain ⟨o', ho', he⟩ := hs.evolves h ho
    have later (hd : o'.data.cachedSetDifficulty = some t' ∨ o'.Due (.setDifficulty t')) :
        s'.Staged ∧ ∃ o t', s'.objects.lookup d = some o ∧
          (t' = t ∨ ∃ e ∈ tr ++ [⟨s, a, s'⟩], taken d e = some (.setDifficulty t')) ∧
          (o.data.cachedSetDifficulty = some t' ∨ o.Due (.setDifficulty t')) :=
      ⟨System.staged_step hs h, o', t', ho',
        hl.imp_right fun h => h.imp fun _ he => And.imp_left (List.mem_append_left _) he, hd⟩
    cases hd with
    | inr hd => exact later (.inr (System.evolves_due (hs.stage d o ho) hd he))
    | inl hd =>
      obtain h' | h' | ⟨t'', ha, ht, h'⟩ := System.evolves_cached he hd
      case inl     => exact later (.inl h')
      case inr.inl => exact later (.inr h')
      case inr.inr =>
        refine ⟨System.staged_step hs h, o', t'', ho', .inr ⟨_, List.mem_concat_self, ?_⟩, .inl h'⟩
        subst ha
        simp [taken, ho, ht]

-- A miner that has been authorized has completed its handshake when its task takes the next message.
theorem complete_of_takes (hs : s.Answered) (ha : Authorized s d) {o o' : Downstream}
    (ho : s.objects.lookup d = some o) (hr : o.receive = some o') : o.data.sv1HandshakeComplete := by
  obtain ⟨o₁, ho₁, m, hm, hg⟩ := ha
  cases ho.symm.trans ho₁
  obtain ⟨_, _, _, hruns, ht, _⟩ := Downstream.receive_cases hr
  cases hs.complete d o m ho hruns hg (.inl hm) with
  | inl h => exact h
  | inr h =>
    rw [ht] at h
    cases h

theorem delivered_of_run (r : (machine C cfg).Run tr s) (hc : Machine.Along HandledDirectly tr)
    (d : DownstreamId) : Delivered d tr s := by
  have received {s₁ s₂ : System} {a : Action} (h : s₁.step C cfg a = some s₂) {m : ServerMessage}
      (hm : taken d ⟨s₁, a, s₂⟩ = some m) : ∃ o o', s₁.objects.lookup d = some o ∧
        o.takes = some m ∧ o.receive = some o' ∧ s₂.objects.lookup d = some o' := by
    obtain ⟨rfl, o, ho, ht⟩ := System.taken_eq_some hm
    obtain ⟨o₁, o', ho₁, hr, rfl⟩ := System.update_eq_some h
    cases ho.symm.trans ho₁
    exact ⟨o, o', ho, ht, hr, by simp [System.lookup_replace]⟩
  constructor
  case notify =>
    intro tr₁ e tr₂ n o htr ha hn ho ht
    subst htr
    obtain ⟨r₁, h, p⟩ := r.middle
    have hs := answered_of_run r₁ fun e he => hc e (List.mem_append_left _ he)
    obtain ⟨o₁, o₂, ho₁, htk, hr, ho₂⟩ := received h hn
    obtain ⟨⟨clean, hd⟩, _⟩ := System.takes_notify htk hr (complete_of_takes hs ha ho₁ hr)
    refine ⟨clean, ?_⟩
    exact (due_of_path p (System.staged_step hs.staged h) ho₂ hd ho).written ht
  case setDifficulty =>
    intro tr₁ e tr₂ e' tr₃ t n o₀ htr ha hd hn hof ht
    subst htr
    obtain ⟨r₂, h', p'⟩ := r.middle
    obtain ⟨r₁, h, p⟩ := r₂.middle
    have hs' := answered_of_run r₂ fun e he => hc e (List.mem_append_left _ he)
    have hs := answered_of_run r₁ fun e he =>
      hc e (List.mem_append_left _ (List.mem_append_left _ he))
    obtain ⟨o₁, o₂, ho₁, htk, hr, ho₂⟩ := received h hd
    obtain ⟨o₃, o₄, ho₃, htk', hr', ho₄⟩ := received h' hn
    have hst := System.staged_step hs.staged h
    obtain ⟨o, ho', m, hm, hg⟩ := ha
    cases ho₁.symm.trans ho'
    obtain ⟨_, _, _, hruns, hnil, _⟩ := Downstream.receive_cases hr'
    obtain ⟨_, ho'', he⟩ := hs.staged.evolves h ho₁
    cases ho₂.symm.trans ho''
    have hm : o₃.Due m :=
      due_of_path p hst ho₂ (System.evolves_due (hs.staged.stage d o₁ ho₁) (.inl hm) he) ho₃
    have hcomp := complete_of_takes hs' ⟨o₃, ho₃, m, hm.written hnil, hg⟩ ho₃ hr'
    obtain ⟨_, o₅, t', ho₅, hl, hcd⟩ := cached_of_path p hst ho₂
      (System.takes_setDifficulty htk hr)
    cases ho₃.symm.trans ho₅
    refine ⟨t', hl, ?_⟩
    obtain ⟨_, ho₄', he'⟩ := hs'.staged.evolves h' ho₃
    cases ho₄.symm.trans ho₄'
    have hdue : o₄.Due (.setDifficulty t') := by
      cases hcd with
      | inl hcd => exact (System.takes_notify htk' hr' hcomp).right t' hcd
      | inr hcd => exact System.evolves_due (hs'.staged.stage d o₃ ho₃) hcd he'
    exact (due_of_path p' (System.staged_step hs'.staged h') ho₄ hdue hof).written ht

namespace Handshakes

open Reference Reference.Sample

-- The miner sends nothing but its authorize before its channel is open, and is told that it is
-- authorized.
def authorized : List Action :=
  connect 1 ⟨1, .authorize "worker"⟩ ++ [success 1 5] ++ serve 7 ++ [.receive 1] ++ goOn 1 1 ++
    [.receive 1, prevHash 5 7, job 5 1] ++ serve 1

def announced (n : ℕ) : Notify where
  jobId        := toString n
  prevHash     := 7
  coinBase1    := []
  coinBase2    := []
  merkleBranch := []
  version      := 0
  bits         := 0
  time         := 0
  cleanJobs    := true

theorem authorized_exec : ((machine core (config false true)).exec (.new false) authorized).any
    fun s => (s.objects.lookup 1).any (fun o => o.written.any (·.grants) ∧
        o.takes = some (.notify (announced 1))) ∧
      ((machine core (config false true)).step s (.receive 1)).any fun s' =>
        (s'.objects.lookup 1).any fun o => o.todo = [] ∧ o.written.all (·.grants) := by
  decide +kernel

-- The authorize is sent when the channel is open.
def subscribed : List Action :=
  connect 1 ⟨1, .subscribe⟩ ++ [success 1 5] ++ serve 7 ++ [.receive 1] ++ goOn 1 1 ++
    [.receive 1, .miner 1 ⟨2, .authorize "worker"⟩] ++ goOn 1 7 ++ [prevHash 5 7, job 5 1] ++ serve 1

def handlesAuthorize : ServerOp → Bool
  | .handleQueued _ _ m => m.isAuthorize
  | _                   => false

def direct (e : Machine.Event System Action) : Bool :=
  e.act ≠ .serve || !(e.pre.todo.head?.any handlesAuthorize)

theorem direct_sound {e : Machine.Event System Action} (h : direct e) :
    HandledDirectly e.pre e.act := by
  intro d c m ops o ha ht hm
  simp [direct, ha, ht, handlesAuthorize, hm] at h

theorem subscribed_exec : ((machine core (config false true)).exec (.new false) subscribed).any
    fun s => (s.objects.lookup 1).any (fun o => o.written.any (·.grants) ∧
        o.takes = some (.notify (announced 1))) ∧
      ((machine core (config false true)).step s (.receive 1)).any fun s' =>
        ((machine core (config false true)).step s' (.task 1)).any fun s'' =>
          (s''.objects.lookup 1).any fun o => o.todo = [] := by
  decide +kernel

theorem subscribed_direct :
    ((machine core (config false true)).trace (.new false) subscribed).all direct := by
  decide +kernel

end Handshakes

open Reference Reference.Sample Handshakes in
theorem not_delivered : ¬∀ tr s d, (machine core (config false true)).Run tr s →
    Delivered d tr s := by
  intro h
  obtain ⟨s, hs, hm⟩ := Option.any_eq_true _ _ |>.mp authorized_exec
  obtain ⟨hm, hm'⟩ := of_decide_eq_true hm
  obtain ⟨o, ho, hm⟩ := Option.any_eq_true _ _ |>.mp hm
  obtain ⟨hw, ht⟩ := of_decide_eq_true hm
  obtain ⟨s', hst, hm'⟩ := Option.any_eq_true _ _ |>.mp hm'
  obtain ⟨o', ho', hm'⟩ := Option.any_eq_true _ _ |>.mp hm'
  obtain ⟨hnil, hall⟩ := of_decide_eq_true hm'
  obtain ⟨m, hm, hg⟩ := List.any_eq_true.mp hw
  have r := (Machine.Run.of_exec (M := machine core (config false true)) rfl hs).snoc hst
  have htk : taken 1 ⟨s, .receive 1, s'⟩ = some (.notify (announced 1)) := by
    simp [taken, ho, ht]
  obtain ⟨clean, hn⟩ := (h _ s' 1 r).notify _ ⟨s, .receive 1, s'⟩ [] _ o' rfl
    ⟨o, ho, m, hm, hg⟩ htk ho' hnil
  exact absurd (List.all_eq_true.mp hall _ hn) Bool.false_ne_true

open Reference Reference.Sample Handshakes in
theorem delivered_sample : ∃ tr e s, (machine core (config false true)).Run tr s ∧ e ∈ tr ∧
    Authorized e.pre 1 ∧ taken 1 e = some (.notify (announced 1)) ∧
    (s.objects.lookup 1).any (·.todo = []) ∧ Delivered 1 tr s := by
  obtain ⟨s, hs, hm⟩ := Option.any_eq_true _ _ |>.mp subscribed_exec
  obtain ⟨hm, hm'⟩ := of_decide_eq_true hm
  obtain ⟨o, ho, hm⟩ := Option.any_eq_true _ _ |>.mp hm
  obtain ⟨hw, ht⟩ := of_decide_eq_true hm
  obtain ⟨m, hm, hg⟩ := List.any_eq_true.mp hw
  obtain ⟨s', hst, hm'⟩ := Option.any_eq_true _ _ |>.mp hm'
  obtain ⟨s'', hst', hnil⟩ := Option.any_eq_true _ _ |>.mp hm'
  have r := (Machine.Run.of_exec (M := machine core (config false true)) rfl hs).snoc hst |>.snoc hst'
  refine ⟨_, ⟨s, .receive 1, s'⟩, s'', r, List.mem_append_left _ List.mem_concat_self,
    ⟨o, ho, m, hm, hg⟩, ?_, hnil, delivered_of_run r ?_ 1⟩
  case refine_1 => simp [taken, ho, ht]
  case refine_2 =>
    refine Machine.Along.snoc.mpr ⟨Machine.Along.snoc.mpr ⟨fun e he => ?_, ?_⟩, ?_⟩
    case refine_1 => exact direct_sound (List.all_eq_true.mp subscribed_direct e he)
    all_goals
      intro _ _ _ _ _ ha
      cases ha

end Translator.Sv1
