import Mathlib.Logic.Basic

/-!
# Computations that throw and keep their state

`Act σ ε α` runs on a state `σ` and ends with a value or an exception; either way the state reached
so far is kept, as in a language with mutable objects and exceptions.  `onThrow` runs a destructor
while an exception passes through.  `Ends x s Q E` is total correctness with two postconditions, one
for the value and one for the exception.
-/

def Act (σ ε α : Type) : Type := σ → Except ε α × σ

namespace Act

variable {σ ε α β : Type}

/-- Runs `x`, then `f` on its value; an exception of `x` is passed on with the state `x` reached. -/
protected def bind (x : Act σ ε α) (f : α → Act σ ε β) : Act σ ε β := fun s =>
  match x s with
  | (.ok a, s') => f a s'
  | (.error e, s') => (.error e, s')

instance : Monad (Act σ ε) where
  pure a := fun s => (.ok a, s)
  bind := Act.bind

def throw (e : ε) : Act σ ε α := fun s => (.error e, s)

def read (f : σ → α) : Act σ ε α := fun s => (.ok (f s), s)

def modify (f : σ → σ) : Act σ ε Unit := fun s => (.ok (), f s)

def inspect (f : σ → Except ε α) : Act σ ε α := fun s => (f s, s)

def onThrow (x : Act σ ε α) (f : σ → σ) : Act σ ε α := fun s =>
  match x s with
  | (.ok a, s') => (.ok a, s')
  | (.error e, s') => (.error e, f s')

@[simp] theorem pure_apply (a : α) (s : σ) : (pure a : Act σ ε α) s = (.ok a, s) := rfl

@[simp] theorem throw_apply (e : ε) (s : σ) : (throw e : Act σ ε α) s = (.error e, s) := rfl

@[simp] theorem read_apply (f : σ → α) (s : σ) : (read f : Act σ ε α) s = (.ok (f s), s) := rfl

@[simp] theorem modify_apply (f : σ → σ) (s : σ) : (modify f : Act σ ε Unit) s = (.ok (), f s) := rfl

@[simp] theorem inspect_apply (f : σ → Except ε α) (s : σ) : inspect f s = (f s, s) := rfl

theorem bind_apply (x : Act σ ε α) (f : α → Act σ ε β) (s : σ) :
    (x >>= f) s = match x s with
      | (.ok a, s') => f a s'
      | (.error e, s') => (.error e, s') := rfl

theorem bind_of_ok {x : Act σ ε α} {f : α → Act σ ε β} {s s' : σ} {a : α}
    (h : x s = (.ok a, s')) : (x >>= f) s = f a s' := by rw [bind_apply, h]

theorem bind_of_error {x : Act σ ε α} {f : α → Act σ ε β} {s s' : σ} {e : ε}
    (h : x s = (.error e, s')) : (x >>= f) s = (.error e, s') := by rw [bind_apply, h]

theorem inspect_ok_bind {a : α} {f : α → Act σ ε β} {s : σ} :
    ((inspect fun _ => .ok a) >>= f) s = f a s := rfl

theorem inspect_error_bind {e : ε} {f : α → Act σ ε β} {s : σ} :
    ((inspect fun _ => .error e) >>= f) s = (.error e, s) := rfl

theorem onThrow_of_ok {x : Act σ ε α} {f : σ → σ} {s s' : σ} {a : α} (h : x s = (.ok a, s')) :
    onThrow x f s = (.ok a, s') := by rw [onThrow, h]

theorem onThrow_of_error {x : Act σ ε α} {f : σ → σ} {s s' : σ} {e : ε}
    (h : x s = (.error e, s')) : onThrow x f s = (.error e, f s') := by rw [onThrow, h]

/-! ## Exceptions of pure computations -/

def Raises (x : Except ε α) (P : ε → Prop) : Prop := ∀ e, x = .error e → P e

theorem raises_ok (a : α) (P : ε → Prop) : Raises (.ok a : Except ε α) P := by
  intro e h
  cases h

theorem raises_error {e : ε} {P : ε → Prop} (h : P e) : Raises (.error e : Except ε α) P := by
  intro e' he
  cases he
  exact h

theorem Raises.bind {x : Except ε α} {f : α → Except ε β} {P : ε → Prop} (hx : Raises x P)
    (hf : ∀ a, x = .ok a → Raises (f a) P) : Raises (x >>= f) P := by
  intro e he
  cases h : x with
  | error e' =>
    rw [h] at he
    cases he
    exact hx e h
  | ok a =>
    rw [h] at he
    exact hf a h e he

theorem bind_eq_ok {x : Except ε α} {f : α → Except ε β} {b : β} :
    (x >>= f) = .ok b ↔ ∃ a, x = .ok a ∧ f a = .ok b := by
  cases x with
  | error e =>
    refine ⟨fun h => ?_, fun ⟨a, ha, _⟩ => ?_⟩
    · cases h
    · cases ha
  | ok a =>
    refine ⟨fun h => ⟨a, rfl, h⟩, fun ⟨a', ha, hf⟩ => ?_⟩
    cases ha
    exact hf

/-! ## Postconditions -/

/-- From `s`, the computation returns a value with `Q`, or throws an exception with `E`; both see the
state reached. -/
def Ends (x : Act σ ε α) (s : σ) (Q : α → σ → Prop) (E : ε → σ → Prop) : Prop :=
  match x s with
  | (.ok a, s') => Q a s'
  | (.error e, s') => E e s'

namespace Ends

variable {x : Act σ ε α} {f : α → Act σ ε β} {s : σ} {Q Q' : α → σ → Prop} {R : β → σ → Prop}
  {E E' : ε → σ → Prop}

theorem of_ok (h : Ends x s Q E) {a : α} {s' : σ} (hx : x s = (.ok a, s')) : Q a s' := by
  rw [Ends, hx] at h; exact h

theorem of_error (h : Ends x s Q E) {e : ε} {s' : σ} (hx : x s = (.error e, s')) : E e s' := by
  rw [Ends, hx] at h; exact h

theorem mono (h : Ends x s Q E) (hQ : ∀ a s', Q a s' → Q' a s') (hE : ∀ e s', E e s' → E' e s') :
    Ends x s Q' E' := by
  unfold Ends at h ⊢
  grind

theorem pure {a : α} (h : Q a s) : Ends (pure a : Act σ ε α) s Q E := h

theorem read {g : σ → α} (h : Q (g s) s) : Ends (Act.read g : Act σ ε α) s Q E := h

theorem modify {g : σ → σ} {Q : Unit → σ → Prop} (h : Q () (g s)) :
    Ends (Act.modify g : Act σ ε Unit) s Q E := h

theorem inspect {g : σ → Except ε α} (hQ : ∀ a, g s = .ok a → Q a s)
    (hE : ∀ e, g s = .error e → E e s) : Ends (Act.inspect g) s Q E := by
  rw [Ends, inspect_apply]
  cases h : g s with
  | ok a => exact hQ a h
  | error e => exact hE e h

theorem bind (hx : Ends x s Q E) (hf : ∀ a s', Q a s' → Ends (f a) s' R E) :
    Ends (x >>= f) s R E := by
  unfold Ends at hx
  rw [Ends, bind_apply]
  rcases hr : x s with ⟨r, s'⟩
  rw [hr] at hx
  cases r with
  | ok a => exact hf a s' hx
  | error e => exact hx

theorem read_bind {γ : Type} {g : σ → γ} {f : γ → Act σ ε β} (h : Ends (f (g s)) s R E) :
    Ends (Act.read g >>= f) s R E := h

theorem modify_bind {g : σ → σ} {f : Unit → Act σ ε β} (h : Ends (f ()) (g s) R E) :
    Ends (Act.modify g >>= f) s R E := h

theorem inspect_bind {g : σ → Except ε α} (hE : Raises (g s) (E · s))
    (h : ∀ a, g s = .ok a → Ends (f a) s R E) : Ends (Act.inspect g >>= f) s R E := by
  refine bind (inspect (Q := fun a s' => s = s' ∧ g s = .ok a) (fun _ ha => ⟨rfl, ha⟩) hE) ?_
  rintro a _ ⟨rfl, ha⟩
  exact h a ha

theorem onThrow {g : σ → σ} (h : Ends x s Q fun e s' => E e (g s')) :
    Ends (Act.onThrow x g) s Q E := by
  unfold Ends at h
  rw [Ends, Act.onThrow]
  grind

end Ends

/-! ## Two computations side by side -/

/-- From `s` and `t`, both computations return with `R`, or both throw the same exception with `E`. -/
def Agree (x : Act σ ε α) (y : Act σ ε β) (s t : σ) (R : α → σ → β → σ → Prop)
    (E : σ → σ → Prop) : Prop :=
  match x s, y t with
  | (.ok a, s'), (.ok b, t') => R a s' b t'
  | (.error e, s'), (.error e', t') => e = e' ∧ E s' t'
  | _, _ => False

namespace Agree

variable {γ δ : Type} {x : Act σ ε α} {y : Act σ ε β} {f : α → Act σ ε γ} {g : β → Act σ ε δ}
  {s t : σ} {Q : α → σ → β → σ → Prop} {R : γ → σ → δ → σ → Prop} {E : σ → σ → Prop}

theorem cases (h : Agree x y s t Q E) :
    (∃ a s' b t', x s = (.ok a, s') ∧ y t = (.ok b, t') ∧ Q a s' b t') ∨
      ∃ e s' t', x s = (.error e, s') ∧ y t = (.error e, t') ∧ E s' t' := by
  unfold Agree at h
  rcases hx : x s with ⟨rx, s'⟩
  rcases hy : y t with ⟨ry, t'⟩
  rw [hx, hy] at h
  cases rx with
  | ok a =>
    cases ry with
    | ok b => exact .inl ⟨a, s', b, t', rfl, rfl, h⟩
    | error e => exact h.elim
  | error e =>
    cases ry with
    | ok b => exact h.elim
    | error e' =>
      obtain ⟨rfl, h⟩ := h
      exact .inr ⟨e, s', t', rfl, rfl, h⟩

theorem mono_error {E' : σ → σ → Prop} (h : Agree x y s t Q E) (hE : ∀ s' t', E s' t' → E' s' t') :
    Agree x y s t Q E' := by
  rcases h.cases with ⟨a, s', b, t', hx, hy, hq⟩ | ⟨e, s', t', hx, hy, he⟩
  · rw [Agree, hx, hy]
    exact hq
  · rw [Agree, hx, hy]
    exact ⟨rfl, hE s' t' he⟩

theorem bind (h : Agree x y s t Q E) (hfg : ∀ a s' b t', Q a s' b t' → Agree (f a) (g b) s' t' R E) :
    Agree (x >>= f) (y >>= g) s t R E := by
  rcases h.cases with ⟨a, s', b, t', hx, hy, hq⟩ | ⟨e, s', t', hx, hy, he⟩
  · rw [Agree, bind_of_ok hx, bind_of_ok hy]
    exact hfg a s' b t' hq
  · rw [Agree, bind_of_error hx, bind_of_error hy]
    exact ⟨rfl, he⟩

theorem bind_left {a : α} {s' : σ} {z : Act σ ε δ} (hx : x s = (.ok a, s'))
    (h : Agree (f a) z s' t R E) : Agree (x >>= f) z s t R E := by
  rw [Agree, bind_of_ok hx]
  exact h

theorem bind_right {b : β} {t' : σ} {z : Act σ ε γ} (hy : y t = (.ok b, t'))
    (h : Agree z (g b) s t' R E) : Agree z (y >>= g) s t R E := by
  rw [Agree, bind_of_ok hy]
  exact h

theorem pure {a : α} {b : β} (h : Q a s b t) :
    Agree (pure a : Act σ ε α) (Pure.pure b : Act σ ε β) s t Q E := h

theorem inspect_bind {p : σ → Except ε α} {q : σ → Except ε α} {g : α → Act σ ε δ}
    (hpq : p s = q t) (hE : E s t) (h : ∀ a, p s = .ok a → Agree (f a) (g a) s t R E) :
    Agree (inspect p >>= f) (inspect q >>= g) s t R E := by
  unfold Agree
  cases hp : p s with
  | ok a =>
    have hx : inspect p s = (.ok a, s) := by rw [inspect_apply, hp]
    have hy : inspect q t = (.ok a, t) := by rw [inspect_apply, ← hpq, hp]
    rw [bind_of_ok hx, bind_of_ok hy]
    exact h a hp
  | error e =>
    have hx : inspect p s = (.error e, s) := by rw [inspect_apply, hp]
    have hy : inspect q t = (.error e, t) := by rw [inspect_apply, ← hpq, hp]
    rw [bind_of_error hx, bind_of_error hy]
    exact ⟨rfl, hE⟩

theorem read_bind {p : σ → α} {q : σ → β} (h : Agree (f (p s)) (g (q t)) s t R E) :
    Agree (read p >>= f) (read q >>= g) s t R E := h

theorem modify_bind {p q : σ → σ} {f : Unit → Act σ ε γ} {g : Unit → Act σ ε δ}
    (h : Agree (f ()) (g ()) (p s) (q t) R E) : Agree (modify p >>= f) (modify q >>= g) s t R E := h

theorem onThrow {p q : σ → σ} (h : Agree x y s t Q fun s' t' => E (p s') (q t')) :
    Agree (Act.onThrow x p) (Act.onThrow y q) s t Q E := by
  rcases h.cases with ⟨a, s', b, t', hx, hy, hq⟩ | ⟨e, s', t', hx, hy, he⟩
  · rw [Agree, onThrow_of_ok hx, onThrow_of_ok hy]
    exact hq
  · rw [Agree, onThrow_of_error hx, onThrow_of_error hy]
    exact ⟨rfl, he⟩

end Agree

end Act
