import Mathlib

universe u v w

-- Finite maps, the association lists of Mathlib at a constant family of values.
abbrev Map (κ : Type u) (α : Type v) := AList fun _ : κ => α

namespace Map

variable {κ : Type u} {α : Type v} {β : Type w} [DecidableEq κ] {m : Map κ α} {k k' : κ} {v : α}

theorem lookup_insert_ite : (m.insert k v).lookup k' = if k' = k then some v else m.lookup k' := by
  by_cases h : k' = k
  case pos =>
    subst h
    simp
  case neg => simp [h, AList.lookup_insert_ne h]

theorem lookup_erase_ite : (m.erase k).lookup k' = if k' = k then none else m.lookup k' := by
  by_cases h : k' = k
  case pos =>
    subst h
    simp
  case neg => simp [h, AList.lookup_erase_ne h]

theorem mem_iff_lookup : k ∈ m ↔ ∃ v, m.lookup k = some v := by
  rw [← AList.lookup_isSome, Option.isSome_iff_exists]

-- The entry of `k`, present or not, is replaced by what `f` makes of it.
def upsert (m : Map κ α) (k : κ) (f : Option α → α) : Map κ α :=
  m.insert k (f (m.lookup k))

section Upsert

variable {f : Option α → α}

@[simp]
theorem lookup_upsert : (m.upsert k f).lookup k = some (f (m.lookup k)) := by
  simp [upsert]

theorem lookup_upsert_ne (h : k' ≠ k) : (m.upsert k f).lookup k' = m.lookup k' :=
  AList.lookup_insert_ne h

@[simp]
theorem mem_upsert : k' ∈ m.upsert k f ↔ k' = k ∨ k' ∈ m :=
  AList.mem_insert m

end Upsert

-- Keeps the entry of a present key under `f`, and changes nothing when the key is absent.
def modify (m : Map κ α) (k : κ) (f : α → α) : Map κ α :=
  (m.lookup k).elim m (m.insert k <| f ·)

section Modify

variable {f : α → α}

@[simp]
theorem lookup_modify : (m.modify k f).lookup k = (m.lookup k).map f := by
  cases h : m.lookup k <;> simp [modify, h]

theorem lookup_modify_ne (h : k' ≠ k) : (m.modify k f).lookup k' = m.lookup k' := by
  cases hk : m.lookup k
  case none => simp [modify, hk]
  case some => simp [modify, hk, AList.lookup_insert_ne h]

@[simp]
theorem mem_modify : k' ∈ m.modify k f ↔ k' ∈ m := by
  cases h : m.lookup k
  case none => simp [modify, h]
  case some =>
    have hm : k ∈ m := mem_iff_lookup.mpr ⟨_, h⟩
    simp only [modify, h, Option.elim_some, AList.mem_insert, or_iff_right_iff_imp]
    exact (· ▸ hm)

end Modify

section Retain

variable (p : κ → Bool)

def retain (m : Map κ α) : Map κ α where
  entries   := m.entries.filter (p ·.1)
  nodupKeys := m.nodupKeys.sublist List.filter_sublist

theorem lookup_retain : (m.retain p).lookup k = if p k then m.lookup k else none := by
  ext v
  have hm {m : Map κ α} : m.lookup k = some v ↔ ⟨k, v⟩ ∈ m.entries := AList.mem_lookup_iff
  rw [hm]
  split <;> simp_all [retain]

end Retain

section FilterValues

variable (p : α → Bool)

def filterValues (m : Map κ α) : Map κ α where
  entries   := m.entries.filter (p ·.2)
  nodupKeys := m.nodupKeys.sublist List.filter_sublist

theorem lookup_filterValues : (m.filterValues p).lookup k = (m.lookup k).filter p := by
  ext v
  have hm {m : Map κ α} : m.lookup k = some v ↔ ⟨k, v⟩ ∈ m.entries := AList.mem_lookup_iff
  rw [hm, Option.filter_eq_some_iff, hm]
  simp [filterValues]

-- Replaces every value.
def mapValues (f : α → α) (m : Map κ α) : Map κ α where
  entries   := m.entries.map fun e => ⟨e.1, f e.2⟩
  nodupKeys := by
    have h : (m.entries.map fun e => (⟨e.1, f e.2⟩ : Σ _ : κ, α)).keys = m.entries.keys := by
      simp [List.keys]
    rw [List.NodupKeys, h]
    exact m.nodupKeys

theorem lookup_mapValues {f : α → α} : (m.mapValues f).lookup k = (m.lookup k).map f := by
  ext v
  have hm {m : Map κ α} {v : α} : m.lookup k = some v ↔ ⟨k, v⟩ ∈ m.entries := AList.mem_lookup_iff
  rw [hm, Option.map_eq_some_iff]
  simp only [mapValues, List.mem_map, hm]
  constructor
  · rintro ⟨e, he, h⟩
    cases h
    exact ⟨e.2, he, rfl⟩
  · rintro ⟨v', hv, rfl⟩
    exact ⟨⟨k, v'⟩, hv, rfl⟩

theorem mem_mapValues {f : α → α} : k ∈ m.mapValues f ↔ k ∈ m := by
  simp [mem_iff_lookup, lookup_mapValues]

end FilterValues

section Total

variable {f g : κ → α → ℕ}

-- The sum of what a function makes of each entry.
def total (m : Map κ α) (f : κ → α → ℕ) : ℕ :=
  (m.entries.map fun e => f e.1 e.2).sum

omit [DecidableEq κ] in
@[simp]
theorem total_empty : total (∅ : Map κ α) f = 0 := rfl

theorem total_erase (m : Map κ α) (f : κ → α → ℕ) (k : κ) :
    total (m.erase k) f + (m.lookup k).elim 0 (f k) = total m f := by
  obtain ⟨es, hn⟩ := m
  simp only [total, AList.lookup, AList.erase]
  induction es with
  | nil => simp
  | cons e es ih =>
    obtain ⟨k', v⟩ := e
    have hes := (List.nodupKeys_cons.mp hn).right
    by_cases hk : k = k'
    case pos =>
      subst hk
      simp [Nat.add_comm]
    case neg =>
      rw [List.kerase_cons_ne hk, List.dlookup_cons_ne _ _ hk]
      simpa [Nat.add_assoc] using ih hes

theorem total_insert (m : Map κ α) (f : κ → α → ℕ) (k : κ) (v : α) :
    total (m.insert k v) f + (m.lookup k).elim 0 (f k) = total m f + f k v := by
  have h : total (m.insert k v) f = f k v + total (m.erase k) f := by
    simp [total, AList.entries_insert, AList.erase]
  rw [h, ← total_erase m f k]
  omega

theorem total_congr (h : ∀ k v, m.lookup k = some v → f k v = g k v) : total m f = total m g := by
  rw [total, total, List.map_congr_left]
  intro ⟨k, v⟩ he
  exact h k v <| AList.mem_lookup_iff.mpr he

theorem le_total (h : m.lookup k = some v) : f k v ≤ total m f := by
  have := total_erase m f k
  simp only [h, Option.elim_some] at this
  omega

theorem add_le_total {v' : α} (hk : k ≠ k') (h : m.lookup k = some v) (h' : m.lookup k' = some v') :
    f k v + f k' v' ≤ total m f := by
  have he := total_erase m f k
  have hl := le_total (f := f) ((AList.lookup_erase_ne hk.symm).trans h')
  simp only [h, Option.elim_some] at he
  omega

theorem total_of_forall_ne (h : m.lookup k = some v)
    (hf : ∀ k' v', k' ≠ k → m.lookup k' = some v' → f k' v' = 0) : total m f = f k v := by
  have he := total_erase m f k
  have hz : total (m.erase k) f = 0 := by
    rw [total, List.sum_eq_zero_iff]
    intro n hn
    have ⟨e, hm, hn⟩ := List.mem_map.mp hn
    have hl : (m.erase k).lookup e.1 = some e.2 := AList.mem_lookup_iff.mpr hm
    rw [lookup_erase_ite] at hl
    split at hl
    case isTrue => cases hl
    case isFalse hk => exact hn ▸ hf e.1 e.2 hk hl
  simp only [h, hz, Option.elim_some] at he
  omega

end Total

section ForEach

universe x y

variable {σ : Type x} {ε : Type y} (f : κ → α → σ → Except ε (α × σ))

def forEachEntry : List (Σ _ : κ, α) → Map κ α → σ → Except ε (Map κ α × σ)
  | [], m, s => .ok (m, s)
  | ⟨k, v⟩ :: es, m, s =>
    match f k v s with
    | .error e    => .error e
    | .ok (v, s) => forEachEntry es (m.insert k v) s

-- A loop over the entries that may change each value and threads a state through.
def forEach (m : Map κ α) (s : σ) : Except ε (Map κ α × σ) :=
  forEachEntry f m.entries m s

variable {f} {m' : Map κ α} {s s' : σ} {P : σ → Prop} {T : σ → σ → Prop}

-- What one round preserves, and how it moves the state, the whole loop does; and the value of each
-- entry is replaced by what its own round makes of it.
structure Rounds (f : κ → α → σ → Except ε (α × σ)) (P : σ → Prop) (T : σ → σ → Prop)
    (s : σ) (m' : Map κ α) (s' : σ) (k : κ) (v : α) : Prop where
  round : ∃ s₁ v' s₂, P s₁ ∧ T s s₁ ∧ f k v s₁ = .ok (v', s₂) ∧ m'.lookup k = some v' ∧ T s₂ s'

theorem forEachEntry_rule (hr : ∀ s, T s s) (ht : ∀ s₁ s₂ s₃, T s₁ s₂ → T s₂ s₃ → T s₁ s₃)
    {es : List (Σ _ : κ, α)}
    (hf : ∀ k v s v' s', ⟨k, v⟩ ∈ es → P s → f k v s = .ok (v', s') → P s' ∧ T s s')
    (hn : es.NodupKeys) (hP : P s) (h : forEachEntry f es m s = .ok (m', s')) :
    P s' ∧ T s s' ∧ (∀ k v, ⟨k, v⟩ ∈ es → Rounds f P T s m' s' k v) ∧
      ∀ k, k ∉ es.keys → m'.lookup k = m.lookup k := by
  induction es generalizing m s with
  | nil =>
    cases h
    exact ⟨hP, hr _, by simp, fun _ _ => rfl⟩
  | cons e es ih =>
    obtain ⟨k, v⟩ := e
    have ⟨hk, hn⟩ := List.nodupKeys_cons.mp hn
    simp only [forEachEntry] at h
    split at h
    case h_1 => cases h
    case h_2 v₁ s₁ hv =>
      have ⟨hP₁, hT₁⟩ := hf k v s v₁ s₁ List.mem_cons_self hP hv
      have ⟨hP', hT', he, hl⟩ :=
        ih (fun _ _ _ _ _ hm => hf _ _ _ _ _ <| List.mem_cons_of_mem _ hm) hn hP₁ h
      refine ⟨hP', ht _ _ _ hT₁ hT', fun k' v' hm => ?_, fun k' hk' => ?_⟩
      · cases hm with
        | head => exact ⟨_, v₁, s₁, hP, hr _, hv, by simp [hl k hk], hT'⟩
        | tail _ hm =>
          have ⟨s₂, v₂, s₃, h₁, h₂, h₃, h₄, h₅⟩ := he k' v' hm
          exact ⟨s₂, v₂, s₃, h₁, ht _ _ _ hT₁ h₂, h₃, h₄, h₅⟩
      · simp only [List.keys_cons, List.mem_cons, not_or] at hk'
        rw [hl k' hk'.right, AList.lookup_insert_ne hk'.left]

theorem forEach_rule (hr : ∀ s, T s s) (ht : ∀ s₁ s₂ s₃, T s₁ s₂ → T s₂ s₃ → T s₁ s₃)
    (hf : ∀ k v s v' s', m.lookup k = some v → P s → f k v s = .ok (v', s') → P s' ∧ T s s')
    (hP : P s) (h : m.forEach f s = .ok (m', s')) :
    P s' ∧ T s s' ∧ (∀ k v, m.lookup k = some v → Rounds f P T s m' s' k v) ∧
      ∀ k, m.lookup k = none → m'.lookup k = none := by
  have hf' (k v s v' s') (hm : ⟨k, v⟩ ∈ m.entries) :=
    hf k v s v' s' <| AList.mem_lookup_iff.mpr hm
  have ⟨hP', hT', he, hl⟩ := forEachEntry_rule hr ht hf' m.nodupKeys hP h
  refine ⟨hP', hT', fun k v hm => he k v <| AList.mem_lookup_iff.mp hm, fun k hk => ?_⟩
  rw [hl k (AList.lookup_eq_none.mp hk), hk]

theorem forEach_mem (h : m.forEach f s = .ok (m', s')) (k : κ) : k ∈ m' ↔ k ∈ m := by
  have ⟨_, _, he, hn⟩ := forEach_rule (P := fun _ => True) (T := fun _ _ => True) (fun _ => trivial)
    (fun _ _ _ _ _ => trivial) (fun _ _ _ _ _ _ _ _ => ⟨trivial, trivial⟩) trivial h
  refine ⟨fun hk => ?_, fun hk => ?_⟩
  · by_contra hk'
    have := hn k (by simpa [← AList.lookup_eq_none] using hk')
    simp [AList.lookup_eq_none, hk] at this
  · have ⟨v, hv⟩ := mem_iff_lookup.mp hk
    have ⟨_, v', _, _, _, _, hv', _⟩ := he k v hv
    exact mem_iff_lookup.mpr ⟨v', hv'⟩

theorem forEachEntry_counted {P : ℕ → σ → Prop} {es : List (Σ _ : κ, α)} {n : ℕ}
    (hf : ∀ k v s v' s' n, P n s → f k v s = .ok (v', s') → P (n + 1) s') (hP : P n s)
    (h : forEachEntry f es m s = .ok (m', s')) : P (n + es.length) s' := by
  induction es generalizing m s n with
  | nil =>
    cases h
    exact hP
  | cons e es ih =>
    simp only [forEachEntry] at h
    split at h
    case h_1 => cases h
    case h_2 hv =>
      rw [List.length_cons, Nat.add_comm es.length, ← Nat.add_assoc]
      exact ih (hf _ _ _ _ _ _ hP hv) h

-- A loop has as many rounds as there are entries.
theorem forEach_counted {P : ℕ → σ → Prop}
    (hf : ∀ k v s v' s' n, P n s → f k v s = .ok (v', s') → P (n + 1) s') (hP : P 0 s)
    (h : m.forEach f s = .ok (m', s')) : P m.entries.length s' := by
  have hc := forEachEntry_counted hf hP h
  rwa [Nat.zero_add] at hc

-- A loop that collects into a list: each entry of the result is what its round made of the entry
-- before, and all it has collected is in the final list.
theorem forEach_collects {β : Type x} {f : κ → α → List β → Except ε (α × List β)} {l l' : List β}
    (hf : ∀ k v l v' l', f k v l = .ok (v', l') → l ⊆ l') (h : m.forEach f l = .ok (m', l')) :
    l ⊆ l' ∧ (∀ k, k ∈ m' ↔ k ∈ m) ∧ ∀ k v', m'.lookup k = some v' →
      ∃ v l₁ l₂, m.lookup k = some v ∧ f k v l₁ = .ok (v', l₂) ∧ l ⊆ l₁ ∧ l₂ ⊆ l' := by
  have ⟨_, hs, he, hn⟩ := forEach_rule (P := fun _ => True) (T := (· ⊆ ·)) List.Subset.refl
    (fun _ _ _ => List.Subset.trans) (fun k v l v' l' _ _ h => ⟨trivial, hf k v l v' l' h⟩) trivial h
  refine ⟨hs, forEach_mem h, fun k v' hv' => ?_⟩
  cases hv : m.lookup k
  case none => simp [hn k hv] at hv'
  case some v =>
    have ⟨l₁, v₁, l₂, _, hl₁, hf', hv₁, hl₂⟩ := he k v hv
    cases hv₁.symm.trans hv'
    exact ⟨v, l₁, l₂, rfl, hf', hl₁, hl₂⟩

theorem forEachEntry_returns {es : List (Σ _ : κ, α)}
    (h : ∀ k v s, ⟨k, v⟩ ∈ es → ∃ r, f k v s = .ok r) : ∃ r, forEachEntry f es m s = .ok r := by
  induction es generalizing m s with
  | nil => exact ⟨_, rfl⟩
  | cons e es ih =>
    have ⟨⟨v, s₁⟩, hv⟩ := h e.1 e.2 s List.mem_cons_self
    simp only [forEachEntry, hv]
    exact ih fun _ _ _ hm => h _ _ _ <| List.mem_cons_of_mem _ hm

-- A fault of a loop is one of a round.
theorem forEachEntry_ne {e : ε} {es : List (Σ _ : κ, α)} (hf : ∀ k v s, f k v s ≠ .error e) :
    forEachEntry f es m s ≠ .error e := by
  induction es generalizing m s with
  | nil =>
    intro h
    cases h
  | cons e' es ih =>
    obtain ⟨k, v⟩ := e'
    simp only [forEachEntry]
    split
    case h_1 hv =>
      intro h
      cases h
      exact hf k v s hv
    case h_2 => exact ih

-- The rule for a loop that writes messages: when every round returns, writes only messages that
-- meet `Q`, and all that its entry is owed, `R`, so does the loop.
theorem forEach_writes {β : Type x} {f : κ → α → List β → Except ε (α × List β)} {Q : β → Prop}
    {R : κ → α → List β → Prop} (hR : ∀ k v l l', l ⊆ l' → R k v l → R k v l')
    (hf : ∀ k v l, m.lookup k = some v → ∃ v' l', f k v l = .ok (v', l') ∧ l ⊆ l' ∧
      (∀ b ∈ l', b ∈ l ∨ Q b) ∧ R k v l') (l : List β) :
    ∃ m' l', m.forEach f l = .ok (m', l') ∧ l ⊆ l' ∧ (∀ b ∈ l', b ∈ l ∨ Q b) ∧
      ∀ k v, m.lookup k = some v → R k v l' := by
  have ⟨⟨m', l'⟩, h⟩ : ∃ r, m.forEach f l = .ok r :=
    forEachEntry_returns fun k v l hm =>
      have ⟨v', l', h, _⟩ := hf k v l <| AList.mem_lookup_iff.mpr hm
      ⟨(v', l'), h⟩
  have hr (k v l₁ v' l₂) (hk : m.lookup k = some v) (hP : ∀ b ∈ l₁, b ∈ l ∨ Q b)
      (h : f k v l₁ = .ok (v', l₂)) : (∀ b ∈ l₂, b ∈ l ∨ Q b) ∧ l₁ ⊆ l₂ := by
    have ⟨_, _, h', hs, hQ, _⟩ := hf k v l₁ hk
    cases h.symm.trans h'
    exact ⟨fun b hb => (hQ b hb).elim (hP b) .inr, hs⟩
  have ⟨hP, hT, he, _⟩ := forEach_rule (P := fun l' => ∀ b ∈ l', b ∈ l ∨ Q b) (T := (· ⊆ ·))
    List.Subset.refl (fun _ _ _ => List.Subset.trans) hr (fun _ => .inl) h
  refine ⟨m', l', h, hT, hP, fun k v hk => ?_⟩
  have ⟨l₁, v', l₂, _, _, h₁, _, hs⟩ := he k v hk
  have ⟨_, _, h', _, _, hR'⟩ := hf k v l₁ hk
  cases h₁.symm.trans h'
  exact hR k v l₂ l' hs hR'

section Observes

universe z

variable {β : Type z} {g : σ → List β} {es es' : List (Σ _ : κ, α)}

end Observes

end ForEach

end Map
