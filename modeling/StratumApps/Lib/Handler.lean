import Mathlib

namespace Handler

-- How a handler ends when it does not return a value: with an error, or by a panic.
inductive Fault (ε : Type)
  | err (e : ε)
  | panicked (message : String)
  deriving DecidableEq

variable {ε ε' α β σ : Type} {x : Except ε α} {f : α → Except ε β} {a a' : α} {b : β} {e : ε} {s : σ}

theorem bind_eq_ok : x >>= f = .ok b ↔ ∃ a, x = .ok a ∧ f a = .ok b := by
  cases x
  case error => simp [bind, Except.bind]
  case ok    => simp [bind, Except.bind]

theorem pure_eq_ok : (pure a : Except ε α) = .ok a' ↔ a = a' := by
  simp [pure, Except.pure]

theorem throw_eq_ok : (throw e : Except ε α) = .ok a ↔ False := by
  simp [throw, throwThe, MonadExceptOf.throw]

theorem forall₂_of_mapM {l : List α} {bs : List β} (h : l.mapM f = .ok bs) :
    List.Forall₂ (fun a b => f a = .ok b) l bs := by
  induction l generalizing bs with
  | nil =>
    cases pure_eq_ok.mp h
    exact .nil
  | cons a l ih =>
    simp only [List.mapM_cons, bind_eq_ok, pure_eq_ok] at h
    obtain ⟨b, ha, bs, hl, rfl⟩ := h
    exact .cons ha (ih hl)

-- The handler ends with a value.
def Returns (x : Except ε α) : Prop :=
  ∃ a, x = .ok a

theorem returns_bind : Returns (x >>= f) ↔ ∃ a, x = .ok a ∧ Returns (f a) := by
  simp only [Returns, bind_eq_ok]
  exact ⟨fun ⟨b, a, h⟩ => ⟨a, h.left, b, h.right⟩, fun ⟨a, h, b, h'⟩ => ⟨b, a, h, h'⟩⟩

@[simp]
theorem returns_pure : Returns (pure a : Except ε α) :=
  ⟨a, rfl⟩

@[simp]
theorem not_returns_throw : ¬Returns (throw e : Except ε α) :=
  fun ⟨_, h⟩ => throw_eq_ok.mp h

theorem returns_bind_pure {g : α → β} : Returns (x >>= fun a => pure (g a)) ↔ Returns x := by
  simp only [returns_bind, returns_pure, and_true]
  exact Iff.rfl

section Lift

variable {o : Option α} {msg : String} {g : ε' → ε} {y : Except ε' α} {z : Except ε' α × σ}

def orErr (o : Option α) (e : ε) : Except (Fault ε) α :=
  o.elim (.error (.err e)) .ok

def expect (o : Option α) (msg : String) : Except (Fault ε) α :=
  o.elim (.error (.panicked msg)) .ok

-- The `?` of the source, which converts an error on its way.
def ofExcept (g : ε' → ε) (y : Except ε' α) : Except (Fault ε) α :=
  y.mapError (.err <| g ·)

-- The `?` behind a call that changes its receiver.
def attempt (g : ε' → ε) (z : Except ε' α × σ) : Except (Fault ε) (α × σ) :=
  (ofExcept g z.1).map (·, z.2)

@[simp]
theorem orErr_eq_ok : orErr o e = .ok a ↔ o = some a := by
  cases o <;> simp [orErr]

@[simp]
theorem expect_eq_ok : (expect o msg : Except (Fault ε) α) = .ok a ↔ o = some a := by
  cases o <;> simp [expect]

@[simp]
theorem ofExcept_eq_ok : ofExcept g y = .ok a ↔ y = .ok a := by
  cases y <;> simp [ofExcept, Except.mapError]

@[simp]
theorem attempt_eq_ok {r : α × σ} : attempt g z = .ok r ↔ z = (.ok r.1, r.2) := by
  obtain ⟨y, s⟩ := z
  cases y <;> simp [attempt, ofExcept, Except.mapError, Except.map, Prod.ext_iff]

@[simp]
theorem toOption_eq_some : y.toOption = some a ↔ y = .ok a := by
  cases y <;> simp [Except.toOption]

@[simp]
theorem returns_orErr : Returns (orErr o e) ↔ o.isSome := by
  simp [Returns, Option.isSome_iff_exists]

@[simp]
theorem returns_ofExcept : Returns (ofExcept g y) ↔ Returns y := by
  simp [Returns]

end Lift

-- No fault of a kind comes out of the handler.
def Avoids (P : ε → Prop) (x : Except ε α) : Prop :=
  ∀ e, P e → x ≠ .error e

namespace Avoids

variable {P : ε → Prop} {Q : Fault ε → Prop}

theorem ok : Avoids P (.ok a) := by
  intro e _ h
  cases h

theorem of_pure : Avoids P (pure a : Except ε α) :=
  ok

theorem error (h : ¬P e) : Avoids P (.error e : Except ε α) := by
  intro e' he h'
  cases h'
  exact h he

theorem bind (hx : Avoids P x) (hf : ∀ a, x = .ok a → Avoids P (f a)) : Avoids P (x >>= f) := by
  cases x with
  | ok a     => exact hf a rfl
  | error e' =>
    intro e he h
    cases h
    exact hx _ he rfl

theorem map {g : α → β} (hx : Avoids P x) : Avoids P (x.map g) := by
  cases x with
  | error e' =>
    intro e he h
    cases h
    exact hx _ he rfl
  | ok a     => exact ok

theorem expect {o : Option α} {msg : String} (h : ¬Q (.panicked msg)) : Avoids Q (expect o msg) := by
  cases o with
  | none   => exact error h
  | some _ => exact ok

theorem orErr {o : Option α} (h : ¬Q (.err e)) : Avoids Q (orErr o e) := by
  cases o with
  | none   => exact error h
  | some _ => exact ok

theorem ofExcept {g : ε' → ε} {y : Except ε' α} (h : ∀ e, ¬Q (.err (g e))) :
    Avoids Q (ofExcept g y) := by
  cases y with
  | ok _    => exact ok
  | error e => exact error (h e)

theorem attempt {g : ε' → ε} {z : Except ε' α × σ} (h : ∀ e, ¬Q (.err (g e))) :
    Avoids Q (attempt g z) :=
  map (ofExcept h)

theorem mapM {l : List α} {g : α → Except ε β} (h : ∀ a ∈ l, Avoids P (g a)) :
    Avoids P (l.mapM g) := by
  induction l with
  | nil => exact of_pure
  | cons a l ih =>
    have ⟨ha, hl⟩ := List.forall_mem_cons.mp h
    rw [List.mapM_cons]
    exact bind ha fun _ _ => bind (ih hl) fun _ _ => of_pure

end Avoids

end Handler
