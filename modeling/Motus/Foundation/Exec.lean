import Mathlib

set_option autoImplicit false

/-!
# Stateful computations that may throw

`Exec ε σ α` is a computation over a state `σ` that returns an `α` or throws an
`ε`.  Either way the state it reached is kept: nothing is rolled back when an
exception leaves a function half way through.  This is the reading of a method
of an imperative object, and the rules below are the ones needed to reason
about such methods without unfolding their callees.
-/

namespace Motus.Foundation

/-- A computation over a state `σ` which returns an `α` or throws an `ε`, and
keeps the state it reached in both cases. -/
def Exec (ε σ α : Type) : Type := σ → Except ε α × σ

namespace Exec

variable {ε σ τ α β : Type}

/-- Sequencing: a throw skips the continuation but not the writes before it. -/
protected def bind (x : Exec ε σ α) (f : α → Exec ε σ β) : Exec ε σ β := fun s =>
  match x s with
  | (.ok a, s') => f a s'
  | (.error e, s') => (.error e, s')

instance : Monad (Exec ε σ) where
  pure a := fun s => (.ok a, s)
  bind := Exec.bind

instance : MonadStateOf σ (Exec ε σ) where
  get := fun s => (.ok s, s)
  set s' := fun _ => (.ok (), s')
  modifyGet f := fun s => (.ok (f s).1, (f s).2)

instance : MonadExceptOf ε (Exec ε σ) where
  throw e := fun s => (.error e, s)
  tryCatch x handle := fun s =>
    match x s with
    | (.ok a, s') => (.ok a, s')
    | (.error e, s') => handle e s'

/-- Run a computation on one component of a larger state. -/
def zoom (view : σ → τ) (write : τ → σ → σ) (x : Exec ε τ α) : Exec ε σ α := fun s =>
  ((x (view s)).1, write (x (view s)).2 s)

/-! ## Evaluation -/

@[simp] theorem pure_apply (a : α) (s : σ) : (pure a : Exec ε σ α) s = (.ok a, s) := rfl

theorem bind_apply (x : Exec ε σ α) (f : α → Exec ε σ β) (s : σ) :
    (x >>= f) s =
      match x s with
      | (.ok a, s') => f a s'
      | (.error e, s') => (.error e, s') := rfl

@[simp] theorem get_apply (s : σ) : (get : Exec ε σ σ) s = (.ok s, s) := rfl

@[simp] theorem set_apply (s s' : σ) : (set s' : Exec ε σ PUnit) s = (.ok (), s') := rfl

@[simp] theorem modify_apply (f : σ → σ) (s : σ) :
    (modify f : Exec ε σ PUnit) s = (.ok (), f s) := rfl

@[simp] theorem throw_apply (e : ε) (s : σ) : (throw e : Exec ε σ α) s = (.error e, s) := rfl

theorem tryCatch_apply (x : Exec ε σ α) (handle : ε → Exec ε σ α) (s : σ) :
    (tryCatch x handle) s =
      match x s with
      | (.ok a, s') => (.ok a, s')
      | (.error e, s') => handle e s' := rfl

@[simp] theorem zoom_apply (view : σ → τ) (write : τ → σ → σ) (x : Exec ε τ α) (s : σ) :
    zoom view write x s = ((x (view s)).1, write (x (view s)).2 s) := rfl

theorem bind_ok {x : Exec ε σ α} {f : α → Exec ε σ β} {s s' : σ} {a : α}
    (h : x s = (.ok a, s')) : (x >>= f) s = f a s' := by
  rw [bind_apply, h]

theorem bind_error {x : Exec ε σ α} {f : α → Exec ε σ β} {s s' : σ} {e : ε}
    (h : x s = (.error e, s')) : (x >>= f) s = (.error e, s') := by
  rw [bind_apply, h]

/-- A sequence that returns has first returned from its first part. -/
theorem bind_eq_ok {x : Exec ε σ α} {f : α → Exec ε σ β} {s s' : σ} {b : β}
    (h : (x >>= f) s = (.ok b, s')) : ∃ a s₁, x s = (.ok a, s₁) ∧ f a s₁ = (.ok b, s') := by
  rw [bind_apply] at h
  rcases hrun : x s with ⟨r, s₁⟩
  rw [hrun] at h
  cases r with
  | error e => exact absurd (congrArg Prod.fst h) (by simp)
  | ok a => exact ⟨a, s₁, rfl, h⟩

@[simp] theorem get_bind (f : σ → Exec ε σ β) (s : σ) : (get >>= f) s = f s s := rfl

@[simp] theorem set_bind (s' : σ) (f : PUnit → Exec ε σ β) (s : σ) :
    (set s' >>= f) s = f ⟨⟩ s' := rfl

@[simp] theorem modify_bind (g : σ → σ) (f : PUnit → Exec ε σ β) (s : σ) :
    (modify g >>= f) s = f ⟨⟩ (g s) := rfl

@[simp] theorem throw_bind (e : ε) (f : α → Exec ε σ β) (s : σ) :
    ((throw e : Exec ε σ α) >>= f) s = (.error e, s) := rfl

@[simp] theorem pure_bind' (a : α) (f : α → Exec ε σ β) (s : σ) :
    ((pure a : Exec ε σ α) >>= f) s = f a s := rfl

theorem bind_pure_self (x : Exec ε σ α) : Exec.bind x pure = x := by
  funext s
  rcases h : x s with ⟨r, s'⟩
  cases r <;> simp [Exec.bind, h]

theorem bind_bind {γ : Type} (x : Exec ε σ α) (f : α → Exec ε σ β) (g : β → Exec ε σ γ) :
    (x >>= f) >>= g = x >>= fun a => f a >>= g := by
  funext s
  simp only [bind_apply]
  rcases x s with ⟨r, s'⟩
  cases r <;> rfl

instance : LawfulMonad (Exec ε σ) :=
  LawfulMonad.mk' (Exec ε σ) (fun x => bind_pure_self x) (fun _ _ => rfl)
    (fun x f g => bind_bind x f g)

@[simp] theorem map_apply (f : α → β) (x : Exec ε σ α) (s : σ) :
    (f <$> x) s = ((x s).1.map f, (x s).2) := by
  rw [map_eq_pure_bind, bind_apply]
  rcases x s with ⟨r, s'⟩
  cases r <;> rfl

/-- A mapped result is a return only if the result was one. -/
theorem ok_of_map_ok {f : α → β} {x : Except ε α} {b : β} (h : x.map f = .ok b) :
    ∃ a, x = .ok a := by
  cases x with
  | error e => exact absurd h (by simp [Except.map])
  | ok a => exact ⟨a, rfl⟩

/-- And a throw only if it was that one. -/
theorem map_ne_error {x : Except ε α} {e : ε} (f : α → β) (h : x ≠ .error e) :
    x.map f ≠ .error e := by
  cases x with
  | error e' => exact fun heq => h (congrArg Except.error (Except.error.inj heq))
  | ok a => simp [Except.map]

/-! ## Moving the state along a relation

Most facts about a method are of one shape: whatever it returns or throws, the
state afterwards is related to the state before.  For a reflexive and transitive
relation this only has to be checked on the writes. -/

/-- Whether `x` returns or throws, it moves the state along `R`. -/
def Along (R : σ → σ → Prop) (x : Exec ε σ α) : Prop := ∀ s, R s (x s).2

section Along

variable {R : σ → σ → Prop} [IsPreorder σ R]

theorem along_pure (a : α) : Along R (pure a : Exec ε σ α) := fun s => Std.Refl.refl s

theorem along_throw (e : ε) : Along R (throw e : Exec ε σ α) := fun s => Std.Refl.refl s

theorem along_bind {x : Exec ε σ α} {f : α → Exec ε σ β} (hx : Along R x)
    (hf : ∀ a, Along R (f a)) : Along R (x >>= f) := by
  intro s
  have hfirst := hx s
  rw [bind_apply]
  rcases hrun : x s with ⟨r, s'⟩
  rw [hrun] at hfirst
  cases r with
  | error e => exact hfirst
  | ok a => exact IsTrans.trans s s' _ hfirst (hf a s')

omit [IsPreorder σ R] in
theorem along_get_bind {f : σ → Exec ε σ β} (hf : ∀ s, Along R (f s)) :
    Along R (get >>= f) := fun s => hf s s

theorem along_tryCatch {x : Exec ε σ α} {handle : ε → Exec ε σ α} (hx : Along R x)
    (hhandle : ∀ e, Along R (handle e)) : Along R (tryCatch x handle) := by
  intro s
  have hfirst := hx s
  rw [tryCatch_apply]
  rcases hrun : x s with ⟨r, s'⟩
  rw [hrun] at hfirst
  cases r with
  | ok a => exact hfirst
  | error e => exact IsTrans.trans s s' _ hfirst (hhandle e s')

end Along

/-- What `view` reads is the same in both states. -/
def Same (view : σ → β) (s s' : σ) : Prop := view s' = view s

instance {view : σ → β} : IsPreorder σ (Same view) where
  refl _ := rfl
  trans _ _ _ hst htu := htu.trans hst

/-- What holds of the first state holds of the second. -/
def Keeps (P : σ → Prop) (s s' : σ) : Prop := P s → P s'

instance {P : σ → Prop} : IsPreorder σ (Keeps P) where
  refl _ := id
  trans _ _ _ hst htu := htu ∘ hst

/-! ## Pre- and postconditions -/

/-- From a state with `P`, `x` returns in a state with `Q`, or throws in one with `E`. -/
def Ensures (P : σ → Prop) (x : Exec ε σ α) (Q : α → σ → Prop) (E : ε → σ → Prop) : Prop :=
  ∀ s, P s →
    match x s with
    | (.ok a, s') => Q a s'
    | (.error e, s') => E e s'

section Ensures

variable {P : σ → Prop} {Q : α → σ → Prop} {E : ε → σ → Prop}

theorem ensures_pure {a : α} (h : ∀ s, P s → Q a s) :
    Ensures P (pure a : Exec ε σ α) Q E := h

theorem ensures_throw {e : ε} (h : ∀ s, P s → E e s) :
    Ensures P (throw e : Exec ε σ α) Q E := h

theorem ensures_modify {f : σ → σ} {Q : PUnit → σ → Prop} (h : ∀ s, P s → Q ⟨⟩ (f s)) :
    Ensures P (modify f : Exec ε σ PUnit) Q E := h

theorem ensures_bind {x : Exec ε σ α} {f : α → Exec ε σ β} {R : β → σ → Prop}
    (hx : Ensures P x Q E) (hf : ∀ a, Ensures (Q a) (f a) R E) : Ensures P (x >>= f) R E := by
  intro s hs
  have hfirst := hx s hs
  rw [bind_apply]
  rcases hrun : x s with ⟨r, s'⟩
  rw [hrun] at hfirst
  cases r with
  | error e => exact hfirst
  | ok a => exact hf a s' hfirst

theorem ensures_tryCatch {x : Exec ε σ α} {handle : ε → Exec ε σ α} {E' : ε → σ → Prop}
    (hx : Ensures P x Q E) (hhandle : ∀ e, Ensures (E e) (handle e) Q E') :
    Ensures P (tryCatch x handle) Q E' := by
  intro s hs
  have hfirst := hx s hs
  rw [tryCatch_apply]
  rcases hrun : x s with ⟨r, s'⟩
  rw [hrun] at hfirst
  cases r with
  | ok a => exact hfirst
  | error e => exact hhandle e s' hfirst

theorem Ensures.mono {x : Exec ε σ α} {P' : σ → Prop} {Q' : α → σ → Prop} {E' : ε → σ → Prop}
    (h : Ensures P x Q E) (hP : ∀ s, P' s → P s) (hQ : ∀ a s, Q a s → Q' a s)
    (hE : ∀ e s, E e s → E' e s) : Ensures P' x Q' E' := by
  intro s hs
  have hrun := h s (hP s hs)
  rcases hx : x s with ⟨r, s'⟩
  rw [hx] at hrun
  cases r with
  | ok a => exact hQ a s' hrun
  | error e => exact hE e s' hrun

end Ensures

/-! ## Throws that do not happen -/

/-- `x` never throws `e`. -/
def Never (e : ε) (x : Exec ε σ α) : Prop := ∀ s, (x s).1 ≠ .error e

section Never

variable {e : ε}

theorem never_pure (a : α) : Never e (pure a : Exec ε σ α) := fun _ h => absurd h (by simp)

theorem never_modify (f : σ → σ) : Never e (modify f : Exec ε σ PUnit) := fun _ h => absurd h (by simp)

theorem never_throw {e' : ε} (h : e' ≠ e) : Never e (throw e' : Exec ε σ α) :=
  fun _ heq => h (Except.error.inj heq)

theorem never_bind {x : Exec ε σ α} {f : α → Exec ε σ β} (hx : Never e x)
    (hf : ∀ a, Never e (f a)) : Never e (x >>= f) := by
  intro s
  have hfirst := hx s
  rw [bind_apply]
  rcases hrun : x s with ⟨r, s'⟩
  rw [hrun] at hfirst
  cases r with
  | error e' => exact fun h => hfirst (congrArg Except.error (Except.error.inj h))
  | ok a => exact hf a s'

theorem never_get_bind {f : σ → Exec ε σ β} (hf : ∀ s, Never e (f s)) : Never e (get >>= f) :=
  fun s => hf s s

theorem never_map {x : Exec ε σ α} (f : α → β) (hx : Never e x) : Never e (f <$> x) := by
  intro s
  rw [map_apply]
  exact map_ne_error f (hx s)

end Never

end Exec

end Motus.Foundation
