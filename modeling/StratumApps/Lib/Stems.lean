import StratumApps.Lib.Map

namespace Map

universe u v x y

variable {κ : Type u} [DecidableEq κ] {α : Type v} {R Q : Option α → α → Prop}
variable {m m₁ m' : Map κ α} {k : κ} {v : α}

-- What each entry of a map may come from: the entry of its key in another map, if there was one.
def Stems (R : Option α → α → Prop) (m m' : Map κ α) : Prop :=
  ∀ k v', m'.lookup k = some v' → R (m.lookup k) v'

-- What entries may come from by several operations, one after the other.
structure Composes (R : Option α → α → Prop) : Prop where
  refl  : ∀ v, R (some v) v
  none  : ∀ o v, R none v → R o v
  trans : ∀ o v v', R o v → R (some v) v' → R o v'

-- An entry goes on from the one before, or has been made anew.
inductive Continues (K : α → α → Prop) (N : α → Prop) : Option α → α → Prop
  | kept {v v' : α} : K v v' → Continues K N (some v) v'
  | made {o : Option α} {v' : α} : N v' → Continues K N o v'

theorem Continues.composes {K : α → α → Prop} {N : α → Prop} (hr : ∀ v, K v v)
    (ht : ∀ v v₁ v', K v v₁ → K v₁ v' → K v v') (hn : ∀ v v', N v → K v v' → N v') :
    Composes (Continues K N) where
  refl v     := .kept (hr v)
  none o v h := by
    cases h with
    | made h => exact .made h
  trans o v v' h h' := by
    cases h' with
    | made h'       => exact .made h'
    | kept h'       =>
      cases h with
      | kept h => exact .kept (ht _ _ _ h h')
      | made h => exact .made (hn _ _ h h')

theorem Continues.imp {K K' : α → α → Prop} {N N' : α → Prop} {o : Option α}
    (h : Continues K N o v) (hk : ∀ v v', K v v' → K' v v') (hn : ∀ v, N v → N' v) :
    Continues K' N' o v := by
  cases h with
  | kept h => exact .kept (hk _ _ h)
  | made h => exact .made (hn _ h)

-- An entry keeps a property that the one before has, or is made with it.
def Preserves (P : α → Prop) : Option α → α → Prop :=
  Continues (fun v v' => P v → P v') P

theorem Preserves.composes {P : α → Prop} : Composes (Preserves P) :=
  Continues.composes (fun _ => id) (fun _ _ _ h h' => h' ∘ h) fun _ _ hn h => h hn

theorem Preserves.elim {P : α → Prop} {o : Option α} (h : Preserves P o v)
    (ho : ∀ v, o = some v → P v) : P v := by
  cases h with
  | kept h => exact h (ho _ rfl)
  | made h => exact h

namespace Stems

theorem empty : Stems R m ∅ := by
  intro _ _ h
  cases h

theorem refl (hR : Composes R) (m : Map κ α) : Stems R m m :=
  fun _ v' h => h ▸ hR.refl v'

theorem mono (h : Stems R m m') (hr : ∀ o v, R o v → Q o v) : Stems Q m m' :=
  fun k v' hv => hr _ _ (h k v' hv)

theorem trans (hR : Composes R) (h₁ : Stems R m m₁) (h₂ : Stems R m₁ m') : Stems R m m' := by
  intro k v' hv'
  have h' := h₂ k v' hv'
  cases hk : m₁.lookup k with
  | none   => exact hR.none _ _ (hk ▸ h')
  | some v => exact hR.trans _ v _ (h₁ k v hk) (hk ▸ h')

theorem insert (h : Stems R m m₁) (hv : R (m.lookup k) v) : Stems R m (m₁.insert k v) := by
  intro k' v' hv'
  rw [lookup_insert_ite] at hv'
  split at hv'
  case isTrue he =>
    cases hv'
    exact he ▸ hv
  case isFalse => exact h k' v' hv'

theorem erase (h : Stems R m m₁) : Stems R m (m₁.erase k) := by
  intro k' v' hv'
  rw [lookup_erase_ite] at hv'
  split at hv'
  case isTrue  => cases hv'
  case isFalse => exact h k' v' hv'

theorem modify {f : α → α} (h : Stems R m m₁) (hf : ∀ v, m₁.lookup k = some v → R (m.lookup k) (f v)) :
    Stems R m (m₁.modify k f) := by
  intro k' v' hv'
  by_cases he : k' = k
  case pos =>
    subst he
    rw [lookup_modify, Option.map_eq_some_iff] at hv'
    obtain ⟨v, hv, rfl⟩ := hv'
    exact hf v hv
  case neg =>
    rw [lookup_modify_ne he] at hv'
    exact h k' v' hv'

-- A loop, whose rounds keep an invariant of the state that it threads through.
theorem forEach {σ : Type x} {ε : Type y} {f : κ → α → σ → Except ε (α × σ)} {s s' : σ}
    {P : σ → Prop}
    (hf : ∀ k v s v' s', P s → f k v s = .ok (v', s') → P s' ∧ R (some v) v')
    (hP : P s) (h : m.forEach f s = .ok (m', s')) : P s' ∧ Stems R m m' := by
  have hr := forEach_rule (P := P) (T := fun _ _ => True) (fun _ => trivial)
    (fun _ _ _ _ _ => trivial) (fun k v s v' s' _ hP hv => ⟨(hf k v s v' s' hP hv).left, trivial⟩)
    hP h
  obtain ⟨hP', _, he, hn⟩ := hr
  refine ⟨hP', fun k v' hv' => ?_⟩
  cases hv : m.lookup k with
  | none => simp [hn k hv] at hv'
  | some v =>
    have ⟨s₁, v₁, s₂, hP₁, _, hr, hv₁, _⟩ := he k v hv
    cases hv₁.symm.trans hv'
    exact (hf k v s₁ _ s₂ hP₁ hr).right

-- An entry that is not made anew goes on from the one before.
theorem of_continues {K : α → α → Prop} (h : Stems (Continues K fun _ => False) m m')
    (hv : m'.lookup k = some v) : ∃ v₀, m.lookup k = some v₀ ∧ K v₀ v := by
  have hc := h k v hv
  generalize m.lookup k = o at hc
  cases hc with
  | kept hk => exact ⟨_, rfl, hk⟩
  | made hn => cases hn

end Stems

section Local

universe z

variable {σ : Type x} {ε : Type y} {γ : Type z} {f : κ → α → σ → Except ε (α × σ)} {g : σ → κ → γ}
variable {s s' : σ}

end Local

end Map
