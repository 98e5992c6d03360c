import Utxopia.Lib.Check

/-!
What a computation ensures of its result.

A chain is followed step by step: a step is passed over, or it leaves a fact for the steps after it.
-/

namespace Utxopia.Check

variable {ε α β σ : Type} {P : α → Prop} {Q : β → Prop}

/-- The result, if there is one, has the property. -/
def Ensures (P : α → Prop) (x : Except ε α) : Prop := ∀ a, x = .ok a → P a

namespace Ensures

lemma ok {a : α} (h : P a) : Ensures P (.ok a : Except ε α) := by
  intro b hb
  obtain rfl := Except.ok.inj hb
  exact h

lemma pure {a : α} (h : P a) : Ensures P (Pure.pure a : Except ε α) := ok h

lemma throw (e : ε) : Ensures P (MonadExcept.throw e : Except ε α) :=
  fun _ h => (throw_ne_ok.mp h).elim

/-- Pass over a step. -/
lemma bind {x : Except ε α} {f : α → Except ε β} (h : ∀ a, x = .ok a → Ensures Q (f a)) :
    Ensures Q (x >>= f) := by
  intro b hb
  obtain ⟨a, ha, hfa⟩ := bind_eq_ok.mp hb
  exact h a ha b hfa

/-- **Sequence**: what a step ensures is there for the rest. -/
theorem seq {x : Except ε α} {f : α → Except ε β} (hx : Ensures P x)
    (h : ∀ a, P a → Ensures Q (f a)) : Ensures Q (x >>= f) :=
  bind fun a ha => h a (hx a ha)

lemma ite {p : Prop} [Decidable p] {x y : Except ε α} (hx : p → Ensures P x)
    (hy : ¬ p → Ensures P y) : Ensures P (if p then x else y) := by
  by_cases h : p
  · rw [if_pos h]
    exact hx h
  · rw [if_neg h]
    exact hy h

/-- What every pass of a loop ensures again, the loop does. -/
lemma loop {f : σ → α → Except ε σ} {I : σ → Prop} (hstep : ∀ s a, I s → Ensures I (f s a)) {s : σ}
    {as : List α} (h : I s) : Ensures I (loop f s as) :=
  fun _ hs => loop_inv (fun s a s' _ hI ha => hstep s a hI s' ha) h hs

end Ensures

end Utxopia.Check
