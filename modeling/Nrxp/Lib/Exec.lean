import Mathlib.Logic.Basic
import Mathlib.Tactic.TypeStar

/-!
# Stateful computations that may fail or panic

The shape of a method that borrows its receiver mutably: it ends with a value, with an error, or
with a panic, and **the state it had reached by then survives in all three cases**. The last point
is what separates `Exec` from the usual transformer stack with the error outside: after an error
the caller still holds the receiver, so what an early exit leaves behind is part of the behaviour.

`Outcome` is the state-free half. Both are plain monads with rewriting lemmas for each way the
first computation of a bind can end; `Exec.Triple` is the corresponding total-correctness triple,
with one postcondition for values and one for errors. A triple never holds of a run that panics, so
proving one rules panics out.
-/

/-- How a computation ends: with a value, with an error, or with a panic. -/
inductive Outcome (ε α : Type) where
  /-- A value was returned. -/
  | ok (value : α)
  /-- An error was returned. -/
  | err (error : ε)
  /-- The computation panicked. -/
  | panic
  deriving DecidableEq, Repr

namespace Outcome

variable {ε ε' α β : Type}

/-- Sequencing: the second computation runs only on a value. -/
protected def bind (o : Outcome ε α) (f : α → Outcome ε β) : Outcome ε β :=
  match o with
  | ok a => f a
  | err e => err e
  | panic => panic

instance : Monad (Outcome ε) where
  pure := ok
  bind := Outcome.bind

@[simp] theorem pure_eq (a : α) : (pure a : Outcome ε α) = ok a := rfl

@[simp] theorem ok_bind (a : α) (f : α → Outcome ε β) : (ok a >>= f) = f a := rfl

@[simp] theorem err_bind (e : ε) (f : α → Outcome ε β) : (err e >>= f) = err e := rfl

@[simp] theorem panic_bind (f : α → Outcome ε β) : ((panic : Outcome ε α) >>= f) = panic := rfl

/-- Translate the error, as `Result::map_err` does. -/
def mapErr (g : ε → ε') : Outcome ε α → Outcome ε' α
  | ok a => ok a
  | err e => err (g e)
  | panic => panic

@[simp] theorem mapErr_ok (g : ε → ε') (a : α) : (ok a).mapErr g = ok a := rfl

@[simp] theorem mapErr_err (g : ε → ε') (e : ε) : (err e : Outcome ε α).mapErr g = err (g e) := rfl

@[simp] theorem mapErr_panic (g : ε → ε') : (panic : Outcome ε α).mapErr g = panic := rfl

/-- A missing value is an error, as in `Option::ok_or_else`. -/
def ofOption (e : ε) : Option α → Outcome ε α
  | some a => ok a
  | none => err e

@[simp] theorem ofOption_some (e : ε) (a : α) : ofOption e (some a) = ok a := rfl

@[simp] theorem ofOption_none (e : ε) : ofOption e (none : Option α) = err e := rfl

theorem ofOption_eq_ok_iff {e : ε} {o : Option α} {a : α} : ofOption e o = ok a ↔ o = some a := by
  cases o <;> simp

/-- A missing value is a panic, as in `Option::unwrap`. -/
def expect : Option α → Outcome ε α
  | some a => ok a
  | none => panic

@[simp] theorem expect_some (a : α) : (expect (some a) : Outcome ε α) = ok a := rfl

@[simp] theorem expect_none : (expect (none : Option α) : Outcome ε α) = panic := rfl

/-- A `Result` without a panic in it. -/
def ofExcept : Except ε α → Outcome ε α
  | .ok a => ok a
  | .error e => err e

@[simp] theorem ofExcept_ok (a : α) : ofExcept (.ok a : Except ε α) = ok a := rfl

@[simp] theorem ofExcept_error (e : ε) : ofExcept (.error e : Except ε α) = err e := rfl

/-- Whether a value was returned. -/
def isOk : Outcome ε α → Bool
  | ok _ => true
  | _ => false

/-- A bind panics exactly when one of its two halves does. -/
theorem bind_ne_panic_iff {o : Outcome ε α} {f : α → Outcome ε β} :
    (o >>= f) ≠ panic ↔ o ≠ panic ∧ ∀ a, o = ok a → f a ≠ panic := by
  cases o with
  | ok a => simp
  | err e => simp
  | panic => simp

/-- Inversion of a bind that returned a value. -/
theorem bind_eq_ok_iff {o : Outcome ε α} {f : α → Outcome ε β} {b : β} :
    (o >>= f) = ok b ↔ ∃ a, o = ok a ∧ f a = ok b := by
  cases o with
  | ok a => simp
  | err e => simp
  | panic => simp

/-! ### Which errors may come -/

/-- If it ends with an error, then with one of this kind. -/
def Errs (P : ε → Prop) (o : Outcome ε α) : Prop := ∀ e, o = err e → P e

theorem errs_ok (P : ε → Prop) (a : α) : (ok a : Outcome ε α).Errs P := by
  rintro e ⟨⟩

theorem errs_panic (P : ε → Prop) : (panic : Outcome ε α).Errs P := by
  rintro e ⟨⟩

theorem errs_err {P : ε → Prop} {e : ε} (h : P e) : (err e : Outcome ε α).Errs P := by
  rintro e' ⟨⟩
  exact h

theorem errs_ofOption {P : ε → Prop} {e : ε} (h : P e) (o : Option α) : (ofOption e o).Errs P := by
  cases o with
  | some a => exact errs_ok P a
  | none => exact errs_err h

theorem errs_mapErr {P : ε' → Prop} {g : ε → ε'} (h : ∀ e, P (g e)) (o : Outcome ε α) :
    (o.mapErr g).Errs P := by
  cases o with
  | ok a => exact errs_ok P a
  | err e => exact errs_err (h e)
  | panic => exact errs_panic P

/-- The errors of a bind are those of its two halves. -/
theorem Errs.bind {P : ε → Prop} {o : Outcome ε α} {f : α → Outcome ε β} (ho : o.Errs P)
    (hf : ∀ a, (f a).Errs P) : (o >>= f).Errs P := by
  cases o with
  | ok a => exact hf a
  | err e => exact errs_err (ho e rfl)
  | panic => exact errs_panic P

end Outcome

/-- A computation over a state of type `σ`. The state survives errors and panics. -/
def Exec (σ ε α : Type) : Type :=
  σ → Outcome ε α × σ

namespace Exec

variable {σ ε ε' α β : Type}

/-- Sequencing: an error or a panic ends the run in the state reached by then. -/
protected def bind (m : Exec σ ε α) (f : α → Exec σ ε β) : Exec σ ε β := fun s ↦
  match m s with
  | (.ok a, s') => f a s'
  | (.err e, s') => (.err e, s')
  | (.panic, s') => (.panic, s')

instance : Monad (Exec σ ε) where
  pure a := fun s ↦ (.ok a, s)
  bind := Exec.bind

/-- Read the state. -/
def get : Exec σ ε σ := fun s ↦ (.ok s, s)

/-- Replace the state. -/
def set (s' : σ) : Exec σ ε Unit := fun _ ↦ (.ok (), s')

/-- Update the state. -/
def modify (f : σ → σ) : Exec σ ε Unit := fun s ↦ (.ok (), f s)

/-- Return early with an error. -/
def throw (e : ε) : Exec σ ε α := fun s ↦ (.err e, s)

/-- Run a state-free computation. -/
def lift (o : Outcome ε α) : Exec σ ε α := fun s ↦ (o, s)

/-- Translate the error of a computation. -/
def mapErr (g : ε → ε') (m : Exec σ ε α) : Exec σ ε' α := fun s ↦ ((m s).1.mapErr g, (m s).2)

/-- Run a computation on a part of the state, as calling a method of a field does. -/
def zoom {τ : Type} (part : σ → τ) (put : τ → σ → σ) (m : Exec τ ε α) : Exec σ ε α := fun s ↦
  ((m (part s)).1, put (m (part s)).2 s)

/-! ### Rewriting lemmas -/

@[simp] theorem pure_apply (a : α) (s : σ) : (pure a : Exec σ ε α) s = (.ok a, s) := rfl

@[simp] theorem get_apply (s : σ) : (get : Exec σ ε σ) s = (.ok s, s) := rfl

@[simp] theorem throw_apply (e : ε) (s : σ) : (throw e : Exec σ ε α) s = (.err e, s) := rfl

@[simp] theorem lift_apply (o : Outcome ε α) (s : σ) : (lift o : Exec σ ε α) s = (o, s) := rfl

@[simp] theorem mapErr_apply (g : ε → ε') (m : Exec σ ε α) (s : σ) :
    (m.mapErr g) s = ((m s).1.mapErr g, (m s).2) := rfl

theorem zoom_of_eq {τ : Type} {part : σ → τ} {put : τ → σ → σ} {m : Exec τ ε α} {s : σ} {t : τ}
    {r : Outcome ε α} (h : m (part s) = (r, t)) : m.zoom part put s = (r, put t s) := by
  rw [zoom, h]

theorem bind_ok {m : Exec σ ε α} {f : α → Exec σ ε β} {s s' : σ} {a : α}
    (h : m s = (.ok a, s')) : (m >>= f) s = f a s' := by
  show Exec.bind m f s = _
  rw [Exec.bind, h]

theorem bind_err {m : Exec σ ε α} {f : α → Exec σ ε β} {s s' : σ} {e : ε}
    (h : m s = (.err e, s')) : (m >>= f) s = (.err e, s') := by
  show Exec.bind m f s = _
  rw [Exec.bind, h]

theorem bind_panic {m : Exec σ ε α} {f : α → Exec σ ε β} {s s' : σ}
    (h : m s = (.panic, s')) : (m >>= f) s = (.panic, s') := by
  show Exec.bind m f s = _
  rw [Exec.bind, h]

@[simp] theorem get_bind (f : σ → Exec σ ε β) (s : σ) : (get >>= f) s = f s s := rfl

@[simp] theorem set_bind (s' s : σ) (f : Unit → Exec σ ε β) : (set s' >>= f) s = f () s' := rfl

@[simp] theorem modify_bind (g : σ → σ) (f : Unit → Exec σ ε β) (s : σ) :
    (modify g >>= f) s = f () (g s) := rfl

@[simp] theorem pure_bind_apply (a : α) (f : α → Exec σ ε β) (s : σ) :
    ((pure a : Exec σ ε α) >>= f) s = f a s := rfl

@[simp] theorem lift_ok_bind (a : α) (f : α → Exec σ ε β) (s : σ) :
    ((lift (.ok a) : Exec σ ε α) >>= f) s = f a s := rfl

@[simp] theorem lift_err_bind (e : ε) (f : α → Exec σ ε β) (s : σ) :
    ((lift (.err e) : Exec σ ε α) >>= f) s = (.err e, s) := rfl

@[simp] theorem lift_panic_bind (f : α → Exec σ ε β) (s : σ) :
    ((lift .panic : Exec σ ε α) >>= f) s = (.panic, s) := rfl

/-- What follows a state-free computation, apart from the state. -/
theorem fst_lift_bind (o : Outcome ε α) (f : α → Exec σ ε β) (s : σ) :
    ((lift o >>= f) s).1 = (o >>= fun a ↦ (f a s).1) := by
  cases o <;> rfl

/-- Inversion of a bind that returned a value. -/
theorem bind_eq_ok {m : Exec σ ε α} {f : α → Exec σ ε β} {s s' : σ} {b : β}
    (h : (m >>= f) s = (.ok b, s')) : ∃ a s₁, m s = (.ok a, s₁) ∧ f a s₁ = (.ok b, s') := by
  rcases hm : m s with ⟨a | e | _, s₁⟩
  · exact ⟨a, s₁, rfl, by rwa [bind_ok hm] at h⟩
  · simp [bind_err hm] at h
  · simp [bind_panic hm] at h

/-! ### Triples -/

/-- `Triple P m Q E`: from a state with `P`, the run of `m` does not panic; a value is returned in a
state with `Q`, an error in a state with `E`. -/
def Triple (P : σ → Prop) (m : Exec σ ε α) (Q : α → σ → Prop) (E : ε → σ → Prop) : Prop :=
  ∀ s, P s →
    match m s with
    | (.ok a, s') => Q a s'
    | (.err e, s') => E e s'
    | (.panic, _) => False

section Rules

variable {P P' : σ → Prop} {Q Q' : α → σ → Prop} {R : β → σ → Prop} {E E' : ε → σ → Prop}
  {m : Exec σ ε α}

theorem Triple.ne_panic (h : Triple P m Q E) {s : σ} (hs : P s) : (m s).1 ≠ .panic := by
  have hm := h s hs
  rcases hr : m s with ⟨a | e | _, s'⟩ <;> simp_all

theorem Triple.of_ok (h : Triple P m Q E) {s s' : σ} {a : α} (hs : P s)
    (hr : m s = (.ok a, s')) : Q a s' := by
  have hm := h s hs
  rwa [hr] at hm

theorem Triple.of_err (h : Triple P m Q E) {s s' : σ} {e : ε} (hs : P s)
    (hr : m s = (.err e, s')) : E e s' := by
  have hm := h s hs
  rwa [hr] at hm

theorem Triple.pure {a : α} (h : ∀ s, P s → Q a s) : Triple P (Pure.pure a : Exec σ ε α) Q E :=
  fun s hs ↦ h s hs

theorem Triple.throw {e : ε} (h : ∀ s, P s → E e s) : Triple P (Exec.throw e : Exec σ ε α) Q E :=
  fun s hs ↦ h s hs

/-- State-free computations that do not panic. -/
theorem Triple.lift {o : Outcome ε α} (hp : o ≠ .panic) (hQ : ∀ s a, P s → o = .ok a → Q a s)
    (hE : ∀ s e, P s → o = .err e → E e s) : Triple P (Exec.lift o) Q E := by
  intro s hs
  cases o with
  | ok a => exact hQ s a hs rfl
  | err e => exact hE s e hs rfl
  | panic => exact absurd rfl hp

/-- The rule for sequencing: the value postcondition of the first half is the precondition of the
second, and both halves share the error postcondition. -/
theorem Triple.bind {f : α → Exec σ ε β} (hm : Triple P m Q E)
    (hf : ∀ a, Triple (Q a) (f a) R E) : Triple P (m >>= f) R E := by
  intro s hs
  have h := hm s hs
  rcases hr : m s with ⟨a | e | _, s'⟩
  · rw [bind_ok hr]
    rw [hr] at h
    exact hf a s' h
  · rw [bind_err hr]
    rwa [hr] at h
  · rw [hr] at h
    exact h.elim

theorem Triple.conseq (h : Triple P m Q E) (hP : ∀ s, P' s → P s)
    (hQ : ∀ a s, Q a s → Q' a s) (hE : ∀ e s, E e s → E' e s) : Triple P' m Q' E' := by
  intro s hs
  have hm := h s (hP s hs)
  rcases hr : m s with ⟨a | e | _, s'⟩ <;> rw [hr] at hm
  · exact hQ a s' hm
  · exact hE e s' hm
  · exact hm

end Rules

end Exec
