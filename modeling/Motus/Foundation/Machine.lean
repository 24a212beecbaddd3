import Mathlib

set_option autoImplicit false

/-!
# Machines and their runs

A machine is a start state and a step function on the actions of an environment.
A run is a list of actions.  `Always P` says that `P` holds of every state a run
passes through, `Guarded G` that every step of it is taken in a state and with an
action that `G` allows.

The two are compared by `always_iff_guarded`: when a guard is what each step
needs to keep `P`, and `P` cannot survive a step outside the guard, the runs
that keep `P` throughout are exactly the guarded ones.
-/

namespace Motus.Foundation

/-- A deterministic machine driven by the actions of its environment. -/
structure Machine (σ α : Type) where
  init : σ
  step : σ → α → σ

namespace Machine

variable {σ α : Type} (m : Machine σ α)

/-- The state after a list of actions. -/
def runFrom (s : σ) (actions : List α) : σ := actions.foldl m.step s

/-- The state after a run from the start. -/
def run (actions : List α) : σ := m.runFrom m.init actions

/-- `P` holds of every state that the actions pass through, the first included. -/
def AlwaysFrom (P : σ → Prop) : σ → List α → Prop
  | s, [] => P s
  | s, a :: rest => P s ∧ AlwaysFrom P (m.step s a) rest

/-- Every step is taken in a state and with an action that `G` allows. -/
def GuardedFrom (G : σ → α → Prop) : σ → List α → Prop
  | _, [] => True
  | s, a :: rest => G s a ∧ GuardedFrom G (m.step s a) rest

/-- `P` holds of every state of the run. -/
def Always (P : σ → Prop) (actions : List α) : Prop := m.AlwaysFrom P m.init actions

/-- Every step of the run is allowed by `G`. -/
def Guarded (G : σ → α → Prop) (actions : List α) : Prop := m.GuardedFrom G m.init actions

variable {m}

instance decidableGuardedFrom {G : σ → α → Prop} [∀ s a, Decidable (G s a)] :
    ∀ (s : σ) (actions : List α), Decidable (m.GuardedFrom G s actions)
  | _, [] => .isTrue trivial
  | s, a :: rest =>
      haveI := decidableGuardedFrom (G := G) (m.step s a) rest
      inferInstanceAs (Decidable (G s a ∧ m.GuardedFrom G (m.step s a) rest))

instance {G : σ → α → Prop} [∀ s a, Decidable (G s a)] (actions : List α) :
    Decidable (m.Guarded G actions) := decidableGuardedFrom m.init actions

instance decidableAlwaysFrom {P : σ → Prop} [DecidablePred P] :
    ∀ (s : σ) (actions : List α), Decidable (m.AlwaysFrom P s actions)
  | s, [] => inferInstanceAs (Decidable (P s))
  | s, a :: rest =>
      haveI := decidableAlwaysFrom (P := P) (m.step s a) rest
      inferInstanceAs (Decidable (P s ∧ m.AlwaysFrom P (m.step s a) rest))

instance {P : σ → Prop} [DecidablePred P] (actions : List α) :
    Decidable (m.Always P actions) := decidableAlwaysFrom m.init actions

@[simp] theorem runFrom_nil (s : σ) : m.runFrom s [] = s := rfl

@[simp] theorem runFrom_cons (s : σ) (a : α) (rest : List α) :
    m.runFrom s (a :: rest) = m.runFrom (m.step s a) rest := rfl

theorem runFrom_append (s : σ) (actions rest : List α) :
    m.runFrom s (actions ++ rest) = m.runFrom (m.runFrom s actions) rest :=
  List.foldl_append

theorem guardedFrom_true (s : σ) (actions : List α) :
    m.GuardedFrom (fun _ _ => True) s actions := by
  induction actions generalizing s with
  | nil => trivial
  | cons a rest ih => exact ⟨trivial, ih (m.step s a)⟩

theorem AlwaysFrom.head {P : σ → Prop} {s : σ} {actions : List α}
    (h : m.AlwaysFrom P s actions) : P s := by
  cases actions with
  | nil => exact h
  | cons a rest => exact h.1

theorem AlwaysFrom.last {P : σ → Prop} {s : σ} {actions : List α}
    (h : m.AlwaysFrom P s actions) : P (m.runFrom s actions) := by
  induction actions generalizing s with
  | nil => exact h
  | cons a rest ih => exact ih h.2

theorem AlwaysFrom.mono {P Q : σ → Prop} {s : σ} {actions : List α}
    (hPQ : ∀ s, P s → Q s) (h : m.AlwaysFrom P s actions) : m.AlwaysFrom Q s actions := by
  induction actions generalizing s with
  | nil => exact hPQ s h
  | cons a rest ih => exact ⟨hPQ s h.1, ih h.2⟩

/-- An invariant that holds at the start and that every allowed step keeps holds
throughout every guarded run. -/
theorem AlwaysFrom.of_guarded {I : σ → Prop} {G : σ → α → Prop} {s : σ} {actions : List α}
    (hstep : ∀ s a, I s → G s a → I (m.step s a)) (hinit : I s)
    (h : m.GuardedFrom G s actions) : m.AlwaysFrom I s actions := by
  induction actions generalizing s with
  | nil => exact hinit
  | cons a rest ih => exact ⟨hinit, ih (hstep s a hinit h.1) h.2⟩

/-- An invariant that every step of a kind keeps holds throughout a run of such steps. -/
theorem AlwaysFrom.of_kind {I : σ → Prop} {kind : α → Prop} {s : σ} {actions : List α}
    (hstep : ∀ s a, kind a → I s → I (m.step s a)) (hinit : I s)
    (h : ∀ a ∈ actions, kind a) : m.AlwaysFrom I s actions := by
  induction actions generalizing s with
  | nil => exact hinit
  | cons a rest ih =>
    refine ⟨hinit, ih (hstep s a (h a List.mem_cons_self) hinit) fun b hb => ?_⟩
    exact h b (List.mem_cons_of_mem a hb)

/-- An invariant that holds at the start and that every step keeps holds
throughout every run. -/
theorem AlwaysFrom.of_step {I : σ → Prop} {s : σ} (actions : List α)
    (hstep : ∀ s a, I s → I (m.step s a)) (hinit : I s) : m.AlwaysFrom I s actions := by
  induction actions generalizing s with
  | nil => exact hinit
  | cons a rest ih => exact ⟨hinit, ih (hstep s a hinit)⟩

/-- In a run whose states all satisfy `P`, an invariant only has to be kept by the
steps between such states. -/
theorem AlwaysFrom.of_always {P I : σ → Prop} {s : σ} {actions : List α}
    (hstep : ∀ s a, P s → P (m.step s a) → I s → I (m.step s a)) (hinit : I s)
    (h : m.AlwaysFrom P s actions) : m.AlwaysFrom I s actions := by
  induction actions generalizing s with
  | nil => exact hinit
  | cons a rest ih => exact ⟨hinit, ih (hstep s a h.1 h.2.head hinit) h.2⟩

/-- In a guarded run whose states all satisfy `P`, an invariant only has to be kept by
the allowed steps between such states. -/
theorem AlwaysFrom.of_always_guarded {P I : σ → Prop} {G : σ → α → Prop} {s : σ}
    {actions : List α} (hstep : ∀ s a, P s → G s a → I s → I (m.step s a)) (hinit : I s)
    (h : m.AlwaysFrom P s actions) (hguard : m.GuardedFrom G s actions) :
    m.AlwaysFrom I s actions := by
  induction actions generalizing s with
  | nil => exact hinit
  | cons a rest ih => exact ⟨hinit, ih (hstep s a h.1 hguard.1 hinit) h.2 hguard.2⟩

/-- Under an invariant that every allowed step keeps, what each allowed step satisfies
holds of every step of a guarded run. -/
theorem GuardedFrom.of_invariant {I : σ → Prop} {G T : σ → α → Prop} {s : σ} {actions : List α}
    (hstep : ∀ s a, I s → G s a → T s a ∧ I (m.step s a)) (hinit : I s)
    (h : m.GuardedFrom G s actions) : m.GuardedFrom T s actions := by
  induction actions generalizing s with
  | nil => trivial
  | cons a rest ih =>
    obtain ⟨hholds, hnext⟩ := hstep s a hinit h.1
    exact ⟨hholds, ih hnext h.2⟩

theorem guardedFrom_append {G : σ → α → Prop} {s : σ} {actions rest : List α} :
    m.GuardedFrom G s (actions ++ rest) ↔
      m.GuardedFrom G s actions ∧ m.GuardedFrom G (m.runFrom s actions) rest := by
  induction actions generalizing s with
  | nil => exact (iff_of_eq (true_and _)).symm
  | cons a actions ih =>
    have hrest := ih (s := m.step s a)
    exact (and_congr_right fun _ => hrest).trans and_assoc.symm

/-- When every allowed step goes along a preorder, so does a guarded run. -/
theorem GuardedFrom.related {R : σ → σ → Prop} [IsPreorder σ R] {I : σ → Prop}
    {G : σ → α → Prop} {s : σ} {actions : List α}
    (hstep : ∀ s a, I s → G s a → R s (m.step s a) ∧ I (m.step s a)) (hinit : I s)
    (h : m.GuardedFrom G s actions) : R s (m.runFrom s actions) := by
  induction actions generalizing s with
  | nil => exact Std.Refl.refl s
  | cons a rest ih =>
    obtain ⟨hfirst, hnext⟩ := hstep s a hinit h.1
    exact IsTrans.trans _ _ _ hfirst (ih hnext h.2)

/-- And any two states of the run are related, the earlier one first. -/
theorem Guarded.related {R : σ → σ → Prop} [IsPreorder σ R] {I : σ → Prop}
    {G : σ → α → Prop} {actions before after : List α}
    (hstep : ∀ s a, I s → G s a → R s (m.step s a) ∧ I (m.step s a)) (hinit : I m.init)
    (h : m.Guarded G actions) (hbefore : before <+: after) (hafter : after <+: actions) :
    R (m.run before) (m.run after) := by
  obtain ⟨between, rfl⟩ := hbefore
  obtain ⟨rest, rfl⟩ := hafter
  have hparts := guardedFrom_append.mp (guardedFrom_append.mp h).1
  have hthere : I (m.run before) :=
    (AlwaysFrom.of_guarded (fun s a hs ha => (hstep s a hs ha).2) hinit hparts.1).last
  have hrun : m.run (before ++ between) = m.runFrom (m.run before) between :=
    m.runFrom_append m.init before between
  rw [hrun]
  exact hparts.2.related hstep hthere

/-- Among the runs whose actions are all of a kind, and under an invariant `J` of
their steps from states with `P`, those that keep `P` throughout are exactly the
guarded ones, when the guard is sufficient for a step to keep `P` and necessary
for it. -/
theorem alwaysFrom_iff_guardedFrom_of_kind {J P : σ → Prop} {G : σ → α → Prop} {kind : α → Prop}
    (hJ : ∀ s a, kind a → J s → P s → J (m.step s a))
    (hkeep : ∀ s a, kind a → J s → P s → G s a → P (m.step s a))
    (hneed : ∀ s a, kind a → J s → P s → P (m.step s a) → G s a)
    {s : σ} (actions : List α) (hkind : ∀ a ∈ actions, kind a) (hJs : J s) (hPs : P s) :
    m.AlwaysFrom P s actions ↔ m.GuardedFrom G s actions := by
  induction actions generalizing s with
  | nil => exact ⟨fun _ => trivial, fun _ => hPs⟩
  | cons a rest ih =>
    have ha := hkind a List.mem_cons_self
    have hrestKind : ∀ b ∈ rest, kind b := fun b hb => hkind b (List.mem_cons_of_mem a hb)
    have hnextJ := hJ s a ha hJs hPs
    constructor
    · rintro ⟨_, hrest⟩
      exact ⟨hneed s a ha hJs hPs hrest.head, (ih hrestKind hnextJ hrest.head).mp hrest⟩
    · rintro ⟨hguard, hrest⟩
      have hnext : P (m.step s a) := hkeep s a ha hJs hPs hguard
      exact ⟨hPs, (ih hrestKind hnextJ hnext).mpr hrest⟩

/-- Under a standing invariant `J`, the runs that keep `P` throughout are exactly
the guarded ones, when the guard is sufficient for a step to keep `P` and
necessary for it. -/
theorem alwaysFrom_iff_guardedFrom {J P : σ → Prop} {G : σ → α → Prop}
    (hJ : ∀ s a, J s → J (m.step s a))
    (hkeep : ∀ s a, J s → P s → G s a → P (m.step s a))
    (hneed : ∀ s a, J s → P s → P (m.step s a) → G s a)
    {s : σ} (actions : List α) (hJs : J s) (hPs : P s) :
    m.AlwaysFrom P s actions ↔ m.GuardedFrom G s actions :=
  alwaysFrom_iff_guardedFrom_of_kind (fun s a (_ : True) hJs _ => hJ s a hJs)
    (fun s a _ => hkeep s a) (fun s a _ => hneed s a) actions (fun _ _ => trivial) hJs hPs

/-- A property of states and one of steps together amount to a guard, when at each
step they do; `J` is an invariant of the steps that `H` allows. -/
theorem alwaysFrom_and_guardedFrom_iff {J P : σ → Prop} {H T G : σ → α → Prop}
    (hJ : ∀ s a, J s → H s a → J (m.step s a))
    (hstep : ∀ s a, J s → H s a → P s → (P (m.step s a) ∧ T s a ↔ G s a))
    {s : σ} {actions : List α} (hallowed : m.GuardedFrom H s actions) (hJs : J s) (hPs : P s) :
    m.AlwaysFrom P s actions ∧ m.GuardedFrom T s actions ↔ m.GuardedFrom G s actions := by
  induction actions generalizing s with
  | nil => exact ⟨fun _ => trivial, fun _ => ⟨hPs, trivial⟩⟩
  | cons a rest ih =>
    have hiff := hstep s a hJs hallowed.1 hPs
    have hrest : P (m.step s a) → _ := ih hallowed.2 (hJ s a hJs hallowed.1)
    constructor
    · rintro ⟨⟨_, halways⟩, htold, hguarded⟩
      have hnext := halways.head
      exact ⟨hiff.mp ⟨hnext, htold⟩, (hrest hnext).mp ⟨halways, hguarded⟩⟩
    · rintro ⟨hguard, hguarded⟩
      obtain ⟨hnext, htold⟩ := hiff.mpr hguard
      obtain ⟨halways, htolds⟩ := (hrest hnext).mpr hguarded
      exact ⟨⟨hPs, halways⟩, htold, htolds⟩

end Machine

end Motus.Foundation
