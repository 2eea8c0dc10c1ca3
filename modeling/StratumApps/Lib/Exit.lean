import StratumApps.Lib.Handler

namespace Handler

universe u v

-- A handler changes its data in place. What it leaves behind where it ends, and how it ends there.
structure Exit (σ : Type u) (ε : Type v) (β : Type u) where
  state  : σ
  result : Except ε β

namespace Exit

variable {σ α β : Type u} {ε : Type v} {s s' : σ} {x : Except ε α} {k : α → Exit σ ε β}

-- A step that may fail. If it does, the handler ends there.
def after (s : σ) (x : Except ε α) (k : α → Exit σ ε β) : Exit σ ε β :=
  match x with
  | .ok a    => k a
  | .error e => ⟨s, .error e⟩

-- What is known of a handler that gives its data back only with a value.
def returned (e : Exit σ ε β) : Except ε (σ × β) :=
  e.result.map (e.state, ·)

@[simp]
theorem returned_ok {b : β} : (⟨s, .ok b⟩ : Exit σ ε β).returned = .ok (s, b) := rfl

@[simp]
theorem returned_error {e : ε} : (⟨s, .error e⟩ : Exit σ ε β).returned = .error e := rfl

theorem returned_eq_ok {e : Exit σ ε β} {b : β} :
    e.returned = .ok (s, b) ↔ e.state = s ∧ e.result = .ok b := by
  rcases e with ⟨s', r | r⟩ <;> simp [returned, Except.map]

theorem returned_eq_error {e : Exit σ ε β} {error : ε} :
    e.returned = .error error ↔ e.result = .error error := by
  rcases e with ⟨s', r | r⟩ <;> simp [returned, Except.map]

-- A handler that has not changed its data when it fails.
def ofReturned (s : σ) : Except ε (σ × β) → Exit σ ε β
  | .ok r    => ⟨r.1, .ok r.2⟩
  | .error e => ⟨s, .error e⟩

@[simp]
theorem returned_ofReturned {r : Except ε (σ × β)} : (ofReturned s r).returned = r := by
  cases r <;> rfl

@[simp]
theorem after_ok {a : α} : after s (.ok a) k = k a := rfl

-- The data is kept in front of the failures, and is lost with them.
theorem returned_after {g : α → Except ε (σ × β)} (h : ∀ a, x = .ok a → (k a).returned = g a) :
    (after s x k).returned = x >>= g := by
  cases x with
  | ok a    => exact h a rfl
  | error _ => rfl

-- What holds at every exit of the step and of what comes after it.
theorem after_rule {P : Exit σ ε β → Prop} (he : ∀ e, x = .error e → P ⟨s, .error e⟩)
    (hk : ∀ a, x = .ok a → P (k a)) : P (after s x k) := by
  cases x with
  | ok a    => exact hk a rfl
  | error e => exact he e rfl

end Exit

end Handler
