import Motus.Foundation.Machine

set_option autoImplicit false

/-!
# Machines that refine machines

A machine refines another under an abstraction of its states when each of its steps is
one step of the other or none.  Its runs are then runs of the other, with some of the
steps left out, and what the other machine guarantees in every state holds of it too.
-/

namespace Motus.Foundation

namespace Machine

variable {σ τ α β : Type}

/-- Each step of `m` is the step of `m'` that `image` names, or changes nothing there. -/
structure Refines (m : Machine σ α) (m' : Machine τ β) (abstract : σ → τ)
    (image : σ → α → Option β) : Prop where
  init : abstract m.init = m'.init
  step : ∀ s a, abstract (m.step s a) = (image s a).elim (abstract s) (m'.step (abstract s))

/-- The steps that a list of actions amounts to. -/
def images (m : Machine σ α) (image : σ → α → Option β) : σ → List α → List β
  | _, [] => []
  | s, a :: rest => (image s a).toList ++ m.images image (m.step s a) rest

variable {m : Machine σ α} {m' : Machine τ β} {abstract : σ → τ} {image : σ → α → Option β}

theorem Refines.runFrom (h : Refines m m' abstract image) (s : σ) (actions : List α) :
    abstract (m.runFrom s actions) = m'.runFrom (abstract s) (m.images image s actions) := by
  induction actions generalizing s with
  | nil => rfl
  | cons a rest ih =>
    rw [runFrom_cons, ih, h.step, images, runFrom_append]
    cases image s a <;> rfl

theorem Refines.run (h : Refines m m' abstract image) (actions : List α) :
    abstract (m.run actions) = m'.run (m.images image m.init actions) := by
  rw [Machine.run, h.runFrom, h.init]
  rfl

/-- What holds in every run of the refined machine holds in every run. -/
theorem Refines.always (h : Refines m m' abstract image) {P : τ → Prop}
    (hP : ∀ actions, m'.Always P actions) (actions : List α) :
    m.Always (fun s => P (abstract s)) actions := by
  have hstart : ∀ before : List α, P (abstract (m.run before)) := fun before => by
    rw [h.run]
    exact (hP _).last
  have hfrom : ∀ before rest : List α,
      m.AlwaysFrom (fun s => P (abstract s)) (m.run before) rest := by
    intro before rest
    induction rest generalizing before with
    | nil => exact hstart before
    | cons a rest ih =>
      refine ⟨hstart before, ?_⟩
      have hnext : m.run (before ++ [a]) = m.step (m.run before) a :=
        m.runFrom_append m.init before [a]
      rw [← hnext]
      exact ih (before ++ [a])
  exact hfrom [] actions

end Machine

end Motus.Foundation
