import StratumApps.Lib.Transition

universe u₁ u₂ v₁ v₂ w

-- A machine that puts messages into one channel and takes messages from another. `sent` is everything
-- that it has put in, and `reads` is for an action that takes a message which messages it takes.
structure Party (σ : Type u₁) (ℓ : Type v₁) (ι ο : Type w) where
  machine : Machine σ ℓ
  sent    : σ → List ο
  reads   : ℓ → Option (ι → Bool)

-- Two machines, with how many messages of the other each has taken.
structure Coupled (σ₁ : Type u₁) (σ₂ : Type u₂) where
  left       : σ₁
  right      : σ₂
  leftTaken  : ℕ
  rightTaken : ℕ

variable {σ₁ : Type u₁} {σ₂ : Type u₂} {ℓ₁ : Type v₁} {ℓ₂ : Type v₂} {μ ν : Type w}

-- The messages are taken in the order in which they have been put in, each of them once.
def Party.take (P : Party σ₁ ℓ₁ μ ν) (a : ℓ₁) (queue : List μ) (taken : ℕ) : Option ℕ :=
  match P.reads a with
  | none         => some taken
  | some accepts => if queue[taken]?.any accepts then some (taken + 1) else none

-- Nothing that has been put into the channel is taken back.
def Party.Grows (P : Party σ₁ ℓ₁ μ ν) : Prop :=
  ∀ s a s', P.machine.step s a = some s' → P.sent s <+: P.sent s'

theorem Party.Grows.path {P : Party σ₁ ℓ₁ μ ν} (h : P.Grows) {s s' : σ₁}
    {tr : List (Machine.Event σ₁ ℓ₁)} (p : P.machine.Path s tr s') : P.sent s <+: P.sent s' := by
  induction p with
  | nil          => exact List.prefix_rfl
  | snoc _ hs ih => exact ih.trans (h _ _ _ hs)

variable (P : Party σ₁ ℓ₁ μ ν) (Q : Party σ₂ ℓ₂ ν μ)

def coupling : Machine (Coupled σ₁ σ₂) (ℓ₁ ⊕ ℓ₂) where
  Init s := P.machine.Init s.left ∧ Q.machine.Init s.right ∧ s.leftTaken = 0 ∧ s.rightTaken = 0
  step s
    | .inl a => (P.take a (Q.sent s.right) s.leftTaken).bind fun taken =>
      (P.machine.step s.left a).map fun left => { s with left := left, leftTaken := taken }
    | .inr b => (Q.take b (P.sent s.left) s.rightTaken).bind fun taken =>
      (Q.machine.step s.right b).map fun right => { s with right := right, rightTaken := taken }

namespace Coupled

variable {P Q} {s s' : Coupled σ₁ σ₂} {a : ℓ₁} {b : ℓ₂}
variable {tr tr₁ tr₂ : List (Machine.Event (Coupled σ₁ σ₂) (ℓ₁ ⊕ ℓ₂))}
variable {e : Machine.Event (Coupled σ₁ σ₂) (ℓ₁ ⊕ ℓ₂)}

-- What an event is for each of the two machines.
def left? (e : Machine.Event (Coupled σ₁ σ₂) (ℓ₁ ⊕ ℓ₂)) : Option (Machine.Event σ₁ ℓ₁) :=
  match e.act with
  | .inl a => some ⟨e.pre.left, a, e.post.left⟩
  | .inr _ => none

def right? (e : Machine.Event (Coupled σ₁ σ₂) (ℓ₁ ⊕ ℓ₂)) : Option (Machine.Event σ₂ ℓ₂) :=
  match e.act with
  | .inl _ => none
  | .inr b => some ⟨e.pre.right, b, e.post.right⟩

def lefts (tr : List (Machine.Event (Coupled σ₁ σ₂) (ℓ₁ ⊕ ℓ₂))) : List (Machine.Event σ₁ ℓ₁) :=
  tr.filterMap left?

def rights (tr : List (Machine.Event (Coupled σ₁ σ₂) (ℓ₁ ⊕ ℓ₂))) : List (Machine.Event σ₂ ℓ₂) :=
  tr.filterMap right?

theorem coupling_inl : (coupling P Q).step s (.inl a) = some s' ↔
    ∃ taken, P.take a (Q.sent s.right) s.leftTaken = some taken ∧
      ∃ left, P.machine.step s.left a = some left ∧
        { s with left := left, leftTaken := taken } = s' := by
  simp only [coupling, Option.bind_eq_some_iff, Option.map_eq_some_iff]

theorem coupling_inr : (coupling P Q).step s (.inr b) = some s' ↔
    ∃ taken, Q.take b (P.sent s.left) s.rightTaken = some taken ∧
      ∃ right, Q.machine.step s.right b = some right ∧
        { s with right := right, rightTaken := taken } = s' := by
  simp only [coupling, Option.bind_eq_some_iff, Option.map_eq_some_iff]

theorem step_inl (h : (coupling P Q).step s (.inl a) = some s') :
    P.take a (Q.sent s.right) s.leftTaken = some s'.leftTaken ∧
      P.machine.step s.left a = some s'.left ∧ s'.right = s.right := by
  obtain ⟨taken, ht, left, hs, rfl⟩ := coupling_inl.mp h
  exact ⟨ht, hs, rfl⟩

theorem step_inr (h : (coupling P Q).step s (.inr b) = some s') :
    Q.take b (P.sent s.left) s.rightTaken = some s'.rightTaken ∧
      Q.machine.step s.right b = some s'.right ∧ s'.left = s.left := by
  obtain ⟨taken, ht, right, hs, rfl⟩ := coupling_inr.mp h
  exact ⟨ht, hs, rfl⟩

theorem path_right (p : (coupling P Q).Path s tr s') :
    Q.machine.Path s.right (rights tr) s'.right := by
  induction p with
  | nil => exact .nil
  | @snoc tr s s' a p hs ih =>
    rw [rights, List.filterMap_append]
    cases a with
    | inl a =>
      rw [(step_inl hs).right.right]
      exact (List.append_nil (rights tr)).symm ▸ ih
    | inr b => exact ih.snoc (step_inr hs).right.left

theorem run_right (r : (coupling P Q).Run tr s) : Q.machine.Run (rights tr) s.right :=
  have ⟨_, hi, p⟩ := r
  ⟨_, hi.right.left, path_right p⟩

-- What the machine on the right has taken.
def received (P : Party σ₁ ℓ₁ μ ν) (s : Coupled σ₁ σ₂) : List ν :=
  (P.sent s.left).take s.rightTaken

end Coupled

-- What a run is for a part of the state that moves with some of the actions.
def Machine.project {σ : Type u₁} {σ' : Type u₂} {ℓ : Type v₁} {ℓ' : Type v₂} (f : σ' → σ)
    (g : ℓ' → Option ℓ) (tr : List (Machine.Event σ' ℓ')) : List (Machine.Event σ ℓ) :=
  tr.filterMap fun e => (g e.act).map fun a => ⟨f e.pre, a, f e.post⟩

section Hosts

universe u₃ v₃

variable {σ₃ : Type u₃} {ℓ₃ : Type v₃} {f : σ₃ → σ₁} {g : ℓ₃ → Option ℓ₁}

namespace Coupled

def mapLeft (f : σ₃ → σ₁) (s : Coupled σ₃ σ₂) : Coupled σ₁ σ₂ :=
  ⟨f s.left, s.right, s.leftTaken, s.rightTaken⟩

def mapAct (g : ℓ₃ → Option ℓ₁) : ℓ₃ ⊕ ℓ₂ → Option (ℓ₁ ⊕ ℓ₂)
  | .inl a => (g a).map .inl
  | .inr b => some (.inr b)

variable {H : Party σ₃ ℓ₃ μ ν} {P : Party σ₁ ℓ₁ μ ν} {Q : Party σ₂ ℓ₂ ν μ}
variable {tr : List (Machine.Event (Coupled σ₃ σ₂) (ℓ₃ ⊕ ℓ₂))} {s s' : Coupled σ₃ σ₂} {a : ℓ₃ ⊕ ℓ₂}

end Coupled

end Hosts
