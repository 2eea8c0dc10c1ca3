import Mathlib

universe u v

-- A machine whose step function says, for a state and an action, what the state becomes, or that
-- the action is not possible there.
structure Machine (σ : Type u) (ℓ : Type v) where
  Init : σ → Prop
  step : σ → ℓ → Option σ

namespace Machine

structure Event (σ : Type u) (ℓ : Type v) where
  pre  : σ
  act  : ℓ
  post : σ

variable {σ : Type u} {ℓ : Type v}

inductive Path (M : Machine σ ℓ) (s : σ) : List (Event σ ℓ) → σ → Prop
  | nil : Path M s [] s
  | snoc {tr : List (Event σ ℓ)} {s₁ s₂ : σ} {a : ℓ} :
    Path M s tr s₁ → M.step s₁ a = some s₂ → Path M s (tr ++ [⟨s₁, a, s₂⟩]) s₂

def Run (M : Machine σ ℓ) (tr : List (Event σ ℓ)) (s : σ) : Prop :=
  ∃ s₀, M.Init s₀ ∧ M.Path s₀ tr s

def Reachable (M : Machine σ ℓ) (s : σ) : Prop :=
  ∃ tr, M.Run tr s

-- Every step of a run is taken in a state and by an action that meet `C`.
def Along (C : σ → ℓ → Prop) (tr : List (Event σ ℓ)) : Prop :=
  ∀ e ∈ tr, C e.pre e.act

-- Every event of a run relates to the events before it as `P` says.
def History (P : List (Event σ ℓ) → Event σ ℓ → Prop) (tr : List (Event σ ℓ)) : Prop :=
  ∀ tr₁ e tr₂, tr = tr₁ ++ e :: tr₂ → P tr₁ e

variable {M : Machine σ ℓ} {s s₁ s₂ s₃ : σ} {a : ℓ} {tr tr₁ tr₂ : List (Event σ ℓ)}
variable {I : σ → Prop} {C : σ → ℓ → Prop}

theorem Along.snoc {e : Event σ ℓ} : Along C (tr ++ [e]) ↔ Along C tr ∧ C e.pre e.act := by
  simp [Along, or_imp, forall_and]

theorem Along.append : Along C (tr₁ ++ tr₂) ↔ Along C tr₁ ∧ Along C tr₂ := by
  simp [Along, or_imp, forall_and]

theorem Along.mono {D : σ → ℓ → Prop} (h : ∀ s a, C s a → D s a) (hc : Along C tr) : Along D tr :=
  fun e he => h _ _ (hc e he)

theorem History.nil {P : List (Event σ ℓ) → Event σ ℓ → Prop} : History P [] := by
  intro tr₁ e tr₂ h
  simp at h

theorem History.snoc {P : List (Event σ ℓ) → Event σ ℓ → Prop} {e : Event σ ℓ} :
    History P (tr ++ [e]) ↔ History P tr ∧ P tr e := by
  constructor
  case mp =>
    intro h
    exact ⟨fun tr₁ e' tr₂ htr => h tr₁ e' (tr₂ ++ [e]) (by simp [htr]), h tr e [] rfl⟩
  case mpr =>
    rintro ⟨h, he⟩ tr₁ e' tr₂ htr
    rcases List.eq_nil_or_concat tr₂ with rfl | ⟨tr₂, e'', rfl⟩
    case inl =>
      obtain ⟨rfl, heq⟩ := List.append_inj' htr rfl
      cases heq
      exact he
    case inr =>
      have htr' : tr ++ [e] = (tr₁ ++ e' :: tr₂) ++ [e''] := by simpa using htr
      exact h tr₁ e' tr₂ (List.append_inj' htr' rfl).left

theorem History.singleton {P : List (Event σ ℓ) → Event σ ℓ → Prop} {e : Event σ ℓ} (h : P [] e) :
    History P [e] := by
  have hs : History P ([] ++ [e]) ↔ History P [] ∧ P [] e := snoc
  exact hs.mpr ⟨nil, h⟩

namespace Path

theorem trans (p : M.Path s₁ tr₁ s₂) (q : M.Path s₂ tr₂ s₃) : M.Path s₁ (tr₁ ++ tr₂) s₃ := by
  induction q with
  | nil => simpa using p
  | snoc _ hs hi => simpa using snoc hi hs

-- The invariant rule: what one step preserves, wherever the step meets `C`, a whole path does.
theorem invariant (hs : ∀ s a s', I s → C s a → M.step s a = some s' → I s')
    (p : M.Path s₁ tr s₂) (hc : Along C tr) (hi : I s₁) : I s₂ := by
  induction p with
  | nil => exact hi
  | snoc _ hst ih =>
    have ⟨hc, ha⟩ := Along.snoc.mp hc
    exact hs _ _ _ (ih hc) ha hst

theorem step_of_mem (p : M.Path s₁ tr s₂) {e : Event σ ℓ} (he : e ∈ tr) :
    M.step e.pre e.act = some e.post := by
  induction p with
  | nil => cases he
  | snoc _ hst ih =>
    rcases List.mem_append.mp he with he | he
    · exact ih he
    · cases List.mem_singleton.mp he
      exact hst

theorem split (p : M.Path s₁ tr s₂) {e : Event σ ℓ} (he : e ∈ tr) :
    ∃ tr₁ tr₂, tr = tr₁ ++ e :: tr₂ ∧ M.Path s₁ tr₁ e.pre ∧ M.Path e.post tr₂ s₂ := by
  induction p with
  | nil => cases he
  | @snoc tr _ _ _ p hs ih =>
    rcases List.mem_append.mp he with he | he
    · have ⟨tr₁, tr₂, h, p₁, p₂⟩ := ih he
      exact ⟨tr₁, _, by simp [h], p₁, p₂.snoc hs⟩
    · cases List.mem_singleton.mp he
      exact ⟨tr, [], rfl, p, .nil⟩

theorem middle {e : Event σ ℓ} (p : M.Path s₁ (tr₁ ++ e :: tr₂) s₂) :
    M.Path s₁ tr₁ e.pre ∧ M.step e.pre e.act = some e.post ∧ M.Path e.post tr₂ s₂ := by
  generalize h : tr₁ ++ e :: tr₂ = tr at p
  induction p generalizing tr₂ with
  | nil => simp at h
  | @snoc tr s₁ s₂ a p hs ih =>
    rcases List.eq_nil_or_concat tr₂ with rfl | ⟨tr₂, e', rfl⟩
    case inl =>
      obtain ⟨rfl, he⟩ := List.append_inj' h rfl
      cases he
      exact ⟨p, hs, .nil⟩
    case inr =>
      have h : (tr₁ ++ e :: tr₂) ++ [e'] = tr ++ [⟨s₁, a, s₂⟩] := by simpa using h
      obtain ⟨heq, he⟩ := List.append_inj' h rfl
      cases he
      obtain ⟨p, hs', q⟩ := ih heq
      rw [List.concat_eq_append]
      exact ⟨p, hs', q.snoc hs⟩

-- The ranking rule: when each step of interest lowers the rank until the goal is met, and no other
-- step raises it, as many steps of interest as the rank say meet the goal.
theorem ranked {P : ℕ → σ → Prop} {G : Event σ ℓ → Prop} {own : ℓ → Bool} {n : ℕ}
    (hs : ∀ s a s' n, P n s → C s a → M.step s a = some s' →
      G ⟨s, a, s'⟩ ∨ ∃ n', P n' s' ∧ n' + (own a).toNat ≤ n)
    (p : M.Path s₁ tr s₂) (hc : Along C tr) (h : P n s₁) :
    (∃ e ∈ tr, G e) ∨ ∃ n', P n' s₂ ∧ n' + tr.countP (own ·.act) ≤ n := by
  induction p with
  | nil => exact .inr ⟨n, h, Nat.le_refl n⟩
  | @snoc _ _ _ a _ hst ih =>
    have ⟨hc, ha⟩ := Along.snoc.mp hc
    cases ih hc
    case inl hg =>
      have ⟨e, he, hg⟩ := hg
      exact .inl ⟨e, List.mem_append_left _ he, hg⟩
    case inr hp =>
      have ⟨m, hp, hm⟩ := hp
      cases hs _ _ _ _ hp ha hst
      case inl hg => exact .inl ⟨_, List.mem_concat_self, hg⟩
      case inr hp =>
        have ⟨m', hp, hm'⟩ := hp
        refine .inr ⟨m', hp, ?_⟩
        rw [List.countP_append, List.countP_singleton]
        cases ho : own a <;> simp only [ho, Bool.toNat_true, Bool.toNat_false] at hm' <;> simp <;>
          omega

end Path

namespace Run

theorem init (h : M.Init s) : M.Run [] s :=
  ⟨s, h, .nil⟩

theorem snoc (r : M.Run tr s₁) (h : M.step s₁ a = some s₂) : M.Run (tr ++ [⟨s₁, a, s₂⟩]) s₂ :=
  have ⟨s₀, hi, p⟩ := r
  ⟨s₀, hi, p.snoc h⟩

theorem trans (r : M.Run tr₁ s₁) (p : M.Path s₁ tr₂ s₂) : M.Run (tr₁ ++ tr₂) s₂ :=
  have ⟨s₀, hi, q⟩ := r
  ⟨s₀, hi, q.trans p⟩

theorem reachable (r : M.Run tr s) : M.Reachable s :=
  ⟨tr, r⟩

theorem step_of_mem (r : M.Run tr s) {e : Event σ ℓ} (he : e ∈ tr) :
    M.step e.pre e.act = some e.post :=
  have ⟨_, _, p⟩ := r
  p.step_of_mem he

theorem invariant (h₀ : ∀ s, M.Init s → I s)
    (hs : ∀ s a s', I s → C s a → M.step s a = some s' → I s')
    (r : M.Run tr s) (hc : Along C tr) : I s :=
  have ⟨_, hi, p⟩ := r
  p.invariant hs hc (h₀ _ hi)

theorem split (r : M.Run tr s) {e : Event σ ℓ} (he : e ∈ tr) :
    ∃ tr₁ tr₂, tr = tr₁ ++ e :: tr₂ ∧ M.Run tr₁ e.pre ∧ M.Path e.post tr₂ s :=
  have ⟨s₀, hi, p⟩ := r
  have ⟨tr₁, tr₂, h, p₁, p₂⟩ := p.split he
  ⟨tr₁, tr₂, h, ⟨s₀, hi, p₁⟩, p₂⟩

theorem middle {e : Event σ ℓ} (r : M.Run (tr₁ ++ e :: tr₂) s) :
    M.Run tr₁ e.pre ∧ M.step e.pre e.act = some e.post ∧ M.Path e.post tr₂ s :=
  have ⟨s₀, hi, p⟩ := r
  have ⟨p, hs, q⟩ := p.middle
  ⟨⟨s₀, hi, p⟩, hs, q⟩

theorem reachable_of_mem (r : M.Run tr s) {e : Event σ ℓ} (he : e ∈ tr) : M.Reachable e.pre :=
  have ⟨tr₁, _, _, r₁, _⟩ := r.split he
  ⟨tr₁, r₁⟩

-- The invariant rule for every state of the run.
theorem invariant_of_mem (h₀ : ∀ s, M.Init s → I s)
    (hs : ∀ s a s', I s → C s a → M.step s a = some s' → I s')
    (r : M.Run tr s) (hc : Along C tr) {e : Event σ ℓ} (he : e ∈ tr) : I e.pre ∧ I e.post := by
  have ⟨tr₁, tr₂, h, r₁, _⟩ := r.split he
  have hi : I e.pre := r₁.invariant h₀ hs fun e' he' => hc e' (by simp [h, he'])
  exact ⟨hi, hs _ _ _ hi (hc e he) (r.step_of_mem he)⟩

-- A step is good exactly when it meets `C`, as long as all steps before it did.
theorem forall_iff_along {G : Event σ ℓ → Prop} (h₀ : ∀ s, M.Init s → I s)
    (hg : ∀ s a s', I s → M.step s a = some s' → (G ⟨s, a, s'⟩ ↔ C s a))
    (hs : ∀ s a s', I s → C s a → M.step s a = some s' → I s')
    (r : M.Run tr s) : (∀ e ∈ tr, G e) ↔ Along C tr := by
  have ⟨s₀, hi, p⟩ := r
  clear r
  induction p with
  | nil => simp [Along]
  | @snoc tr s₁ s₂ a p hst ih =>
    have h : Along C tr → (G ⟨s₁, a, s₂⟩ ↔ C s₁ a) := fun hc =>
      hg _ _ _ (p.invariant hs hc (h₀ _ hi)) hst
    rw [Along.snoc, List.forall_mem_append, List.forall_mem_singleton]
    exact (and_congr_left' ih).trans (and_congr_right h)

-- Two properties of a step with its history that are the same for every step of a run are the same
-- for the run.
theorem history_congr {P Q : List (Event σ ℓ) → Event σ ℓ → Prop}
    (h : ∀ tr s a s', M.Run tr s → M.step s a = some s' → (P tr ⟨s, a, s'⟩ ↔ Q tr ⟨s, a, s'⟩))
    (r : M.Run tr s) : History P tr ↔ History Q tr := by
  have ⟨s₀, hi, p⟩ := r
  clear r
  induction p with
  | nil => exact iff_of_true .nil .nil
  | snoc p hst ih =>
    rw [History.snoc, History.snoc]
    exact and_congr ih (h _ _ _ _ ⟨s₀, hi, p⟩ hst)

end Run

namespace Reachable

theorem init (h : M.Init s) : M.Reachable s :=
  ⟨[], .init h⟩

theorem step (h : M.Reachable s₁) (hs : M.step s₁ a = some s₂) : M.Reachable s₂ :=
  have ⟨_, r⟩ := h
  ⟨_, r.snoc hs⟩

theorem invariant (h₀ : ∀ s, M.Init s → I s)
    (hs : ∀ s a s', I s → M.step s a = some s' → I s') (h : M.Reachable s) : I s :=
  have ⟨_, r⟩ := h
  r.invariant (C := fun _ _ => True) h₀ (fun s a s' hi _ => hs s a s' hi) (fun _ _ => trivial)

end Reachable

section Exec

def exec (M : Machine σ ℓ) (s : σ) : List ℓ → Option σ
  | []      => some s
  | a :: as => (M.step s a).bind (M.exec · as)

def trace (M : Machine σ ℓ) (s : σ) : List ℓ → List (Event σ ℓ)
  | []      => []
  | a :: as =>
    match M.step s a with
    | none    => []
    | some s' => ⟨s, a, s'⟩ :: M.trace s' as

theorem exec_append {as bs : List ℓ} : M.exec s (as ++ bs) = (M.exec s as).bind (M.exec · bs) := by
  induction as generalizing s with
  | nil => rfl
  | cons a as ih =>
    rw [List.cons_append, exec, exec, Option.bind_assoc]
    exact congrArg _ (funext fun _ => ih)

theorem trace_concat {as : List ℓ} (h : M.exec s₁ as = some s₂) (hs : M.step s₂ a = some s₃) :
    M.trace s₁ (as ++ [a]) = M.trace s₁ as ++ [⟨s₂, a, s₃⟩] := by
  induction as generalizing s₁ with
  | nil =>
    cases h
    simp [trace, hs]
  | cons b as ih =>
    obtain ⟨s, hb, ht⟩ := Option.bind_eq_some_iff.mp h
    simp [trace, hb, ih ht]

theorem act_of_mem_trace {as : List ℓ} {e : Event σ ℓ} (h : e ∈ M.trace s as) : e.act ∈ as := by
  induction as generalizing s with
  | nil => cases h
  | cons b as ih =>
    rw [trace] at h
    split at h
    case h_1 => cases h
    case h_2 s' hs =>
      cases h with
      | head _    => exact List.mem_cons_self
      | tail _ h => exact List.mem_cons_of_mem b (ih h)

theorem Path.of_exec {as : List ℓ} (h : M.exec s₁ as = some s₂) :
    M.Path s₁ (M.trace s₁ as) s₂ := by
  induction as generalizing s₁ with
  | nil =>
    cases h
    exact .nil
  | cons a as ih =>
    have ⟨s, hs, ht⟩ := Option.bind_eq_some_iff.mp h
    have p := (Path.nil (M := M) (s := s₁)).snoc hs |>.trans (ih ht)
    simpa [trace, hs] using p

theorem Run.of_exec {as : List ℓ} (hi : M.Init s₁) (h : M.exec s₁ as = some s₂) :
    M.Run (M.trace s₁ as) s₂ :=
  ⟨s₁, hi, .of_exec h⟩

end Exec

end Machine
