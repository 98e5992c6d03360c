import Mathlib.Tactic.Common

/-!
Computations that check as they go.

A program that validates its input before every effect is a chain of `Except` steps. The
lemmas read a successful chain backwards: every guard held, every step returned. Loops
over a list of inputs carry an accumulator and stop at the first failure.
-/

namespace Utxopia.Check

variable {ε α β σ : Type}

/-- Go on if the condition holds, fail with `e` otherwise. -/
def require (c : Prop) [Decidable c] (e : ε) : Except ε Unit :=
  if c then .ok () else .error e

/-- The value of an option, or the error. -/
def orElse (o : Option α) (e : ε) : Except ε α :=
  match o with
  | some a => .ok a
  | none => .error e

lemma bind_eq_ok {x : Except ε α} {f : α → Except ε β} {b : β} :
    x >>= f = .ok b ↔ ∃ a, x = .ok a ∧ f a = .ok b := by
  cases x <;> simp [bind, Except.bind]

lemma pure_eq_ok {a b : α} : (pure a : Except ε α) = .ok b ↔ a = b := by
  simp [pure, Except.pure]

lemma throw_ne_ok {e : ε} {a : α} : (throw e : Except ε α) = .ok a ↔ False := by
  simp [throw, throwThe, MonadExceptOf.throw]

lemma require_eq_ok {c : Prop} [Decidable c] {e : ε} {u : Unit} :
    require c e = .ok u ↔ c := by
  by_cases h : c <;> simp [require, h]

lemma orElse_eq_ok {o : Option α} {e : ε} {a : α} : orElse o e = .ok a ↔ o = some a := by
  cases o <;> simp [orElse]

lemma exists_unit {p : Unit → Prop} : (∃ u, p u) ↔ p () :=
  ⟨fun ⟨_, h⟩ => h, fun h => ⟨_, h⟩⟩

/-- A guard in front of a computation. -/
lemma require_bind_eq_ok {c : Prop} [Decidable c] {e : ε} {f : Unit → Except ε β} {b : β} :
    require c e >>= f = .ok b ↔ c ∧ f () = .ok b := by
  by_cases h : c <;> simp [require, h, bind, Except.bind]

lemma ite_eq_ok {c : Prop} [Decidable c] {x y : Except ε α} {a : α} :
    (if c then x else y) = .ok a ↔ (c ∧ x = .ok a) ∨ (¬ c ∧ y = .ok a) := by
  by_cases h : c <;> simp [h]

/-- What comes after a step matters only if the step succeeds. -/
lemma bind_congr_ok {x : Except ε α} {f g : α → Except ε β} (h : ∀ a, x = .ok a → f a = g a) :
    x >>= f = x >>= g := by
  cases x with
  | error e => rfl
  | ok a => exact h a rfl

lemma toOption_eq_some {x : Except ε α} {a : α} : x.toOption = some a ↔ x = .ok a := by
  cases x <;> simp [Except.toOption]

lemma exists_of_toBool {x : Except ε α} (h : x.toBool = true) : ∃ a, x = .ok a := by
  cases x with
  | error e => exact absurd h (by simp [Except.toBool])
  | ok a => exact ⟨a, rfl⟩

/-! ### Where a chain fails -/

lemma bind_eq_error {x : Except ε α} {f : α → Except ε β} {e : ε} :
    x >>= f = .error e ↔ x = .error e ∨ ∃ a, x = .ok a ∧ f a = .error e := by
  cases x <;> simp [bind, Except.bind]

/-- A step that does not fail so leaves the failure to the rest. -/
lemma error_bind {x : Except ε α} {f : α → Except ε β} {e : ε} (h : x >>= f = .error e)
    (hx : x ≠ .error e) : ∃ a, x = .ok a ∧ f a = .error e :=
  (bind_eq_error.mp h).resolve_left hx

lemma require_eq_error {c : Prop} [Decidable c] {e e' : ε} :
    require c e = .error e' ↔ ¬ c ∧ e = e' := by
  by_cases h : c <;> simp [require, h]

lemma orElse_eq_error {o : Option α} {e e' : ε} : orElse o e = .error e' ↔ o = none ∧ e = e' := by
  cases o <;> simp [orElse]

lemma pure_ne_error {a : α} {e : ε} : (pure a : Except ε α) = .error e ↔ False := by
  simp [pure, Except.pure]

/-- What no step fails with, the chain does not fail with. -/
lemma ok_ne_error {a : α} {e : ε} : (.ok a : Except ε α) ≠ .error e := by simp

lemma bind_ne_error {x : Except ε α} {f : α → Except ε β} {e : ε} (hx : x ≠ .error e)
    (hf : ∀ a, f a ≠ .error e) : x >>= f ≠ .error e := fun h =>
  (bind_eq_error.mp h).elim hx fun ⟨a, _, ha⟩ => hf a ha

lemma require_ne_error {c : Prop} [Decidable c] {e e' : ε} (he : e ≠ e') :
    require c e ≠ .error e' := fun h => he (require_eq_error.mp h).2

lemma orElse_ne_error {o : Option α} {e e' : ε} (he : e ≠ e') : orElse o e ≠ .error e' := fun h =>
  he (orElse_eq_error.mp h).2

/-! ### Loops -/

/-- Run a step on every input in turn, stopping at the first failure. -/
def loop (f : σ → α → Except ε σ) : σ → List α → Except ε σ
  | s, [] => .ok s
  | s, a :: as => f s a >>= fun s' => loop f s' as

@[simp] lemma loop_nil (f : σ → α → Except ε σ) (s : σ) : loop f s [] = .ok s := rfl

lemma loop_cons_eq_ok {f : σ → α → Except ε σ} {s s' : σ} {a : α} {as : List α} :
    loop f s (a :: as) = .ok s' ↔ ∃ m, f s a = .ok m ∧ loop f m as = .ok s' := by
  simp only [loop, bind_eq_ok]

lemma loop_append_eq_ok {f : σ → α → Except ε σ} {s s' : σ} {as bs : List α} :
    loop f s (as ++ bs) = .ok s' ↔ ∃ m, loop f s as = .ok m ∧ loop f m bs = .ok s' := by
  induction as generalizing s with
  | nil => simp
  | cons a as ih =>
    simp only [List.cons_append, loop_cons_eq_ok, ih]
    constructor
    · rintro ⟨m, hm, k, hk, h⟩
      exact ⟨k, ⟨m, hm, hk⟩, h⟩
    · rintro ⟨k, ⟨m, hm, hk⟩, h⟩
      exact ⟨m, hm, k, hk, h⟩

/-- **Loop rule**: what every iteration keeps holds after the loop, and what it finds of its input
holds of all of them. -/
theorem loop_each {f : σ → α → Except ε σ} {I : σ → Prop} {P : α → Prop} {as : List α}
    (hstep : ∀ s a s', a ∈ as → I s → f s a = .ok s' → P a ∧ I s') {s s' : σ} (h0 : I s)
    (h : loop f s as = .ok s') : (∀ a ∈ as, P a) ∧ I s' := by
  induction as generalizing s with
  | nil =>
    simp only [loop_nil, Except.ok.injEq] at h
    exact ⟨by simp, h ▸ h0⟩
  | cons a as ih =>
    obtain ⟨m, hm, hr⟩ := loop_cons_eq_ok.mp h
    obtain ⟨ha, h1⟩ := hstep s a m (by simp) h0 hm
    obtain ⟨has, h2⟩ := ih (fun s a s' ha => hstep s a s' (by simp [ha])) h1 hr
    exact ⟨List.forall_mem_cons.mpr ⟨ha, has⟩, h2⟩

/-- **Loop invariant**: what every iteration keeps holds after the loop. -/
theorem loop_inv {f : σ → α → Except ε σ} {I : σ → Prop} {as : List α}
    (hstep : ∀ s a s', a ∈ as → I s → f s a = .ok s' → I s') {s s' : σ} (h0 : I s)
    (h : loop f s as = .ok s') : I s' :=
  (loop_each (P := fun _ => True) (fun s a s' ha hI hs => ⟨trivial, hstep s a s' ha hI hs⟩) h0 h).2

/-- **Prefix invariant**: the invariant may speak of the inputs already consumed. -/
theorem loop_prefix_inv {f : σ → α → Except ε σ} {I : List α → σ → Prop}
    (hstep : ∀ p s a s', I p s → f s a = .ok s' → I (p ++ [a]) s') {s s' : σ} {p as : List α}
    (h0 : I p s) (h : loop f s as = .ok s') : I (p ++ as) s' := by
  induction as generalizing s p with
  | nil =>
    simp only [loop_nil, Except.ok.injEq] at h
    simpa [← h] using h0
  | cons a as ih =>
    obtain ⟨m, hm, hr⟩ := loop_cons_eq_ok.mp h
    have := ih (hstep p s a m h0 hm) hr
    simpa using this

/-- A loop that only checks. -/
lemma loop_forall {f : Unit → α → Except ε Unit} {P : α → Prop} {as : List α}
    (hf : ∀ u a u', f u a = .ok u' → P a) {u u' : Unit} (h : loop f u as = .ok u') :
    ∀ a ∈ as, P a :=
  (loop_each (I := fun _ => True) (fun u a u' _ _ ha => ⟨hf u a u' ha, trivial⟩) trivial h).1

lemma loop_ne_error {f : σ → α → Except ε σ} {e : ε} (hf : ∀ s a, f s a ≠ .error e) (s : σ)
    (as : List α) : loop f s as ≠ .error e := by
  induction as generalizing s with
  | nil => simp
  | cons a as ih =>
    intro h
    obtain ⟨s', -, h⟩ := error_bind h (hf s a)
    exact ih s' h

/-- A loop whose steps commute with a view of the state. -/
lemma loop_map {τ : Type} {f : σ → α → Except ε σ} {g : τ → α → Except ε τ} {view : σ → τ}
    (h : ∀ s a, g (view s) a = view <$> f s a) (s : σ) (as : List α) :
    loop g (view s) as = view <$> loop f s as := by
  induction as generalizing s with
  | nil => rfl
  | cons a as ih =>
    change g (view s) a >>= (loop g · as) = view <$> (f s a >>= (loop f · as))
    rw [h, bind_map_left, map_bind]
    exact bind_congr fun s' => ih s'

end Utxopia.Check
