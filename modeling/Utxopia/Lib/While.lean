import Mathlib.Tactic.Common

/-!
Loops that end when one of their passes says so.

A pass ends the loop with a result or goes on from another state. What a loop returns is read off the
passes alone, without a bound on their number; that it returns is a matter of a measure.
-/

namespace Utxopia.While

variable {σ ρ : Type} {pass : σ → ρ ⊕ σ} {s s' : σ} {r r' : ρ}

/-- The loop, started in the state, returns the result. -/
inductive Returns (pass : σ → ρ ⊕ σ) : σ → ρ → Prop
  | done {s : σ} {r : ρ} (h : pass s = .inl r) : Returns pass s r
  | next {s s' : σ} {r : ρ} (h : pass s = .inr s') (rest : Returns pass s' r) : Returns pass s r

namespace Returns

/-- A loop has at most one result. -/
theorem unique (h : Returns pass s r) (h' : Returns pass s r') : r' = r := by
  induction h with
  | done hpass =>
    cases h' with
    | done hpass' => exact Sum.inl.inj (hpass'.symm.trans hpass)
    | next hpass' => exact absurd (hpass.symm.trans hpass') (by simp)
  | next hpass _ ih =>
    cases h' with
    | done hpass' => exact absurd (hpass.symm.trans hpass') (by simp)
    | next hpass' rest' =>
      obtain rfl := Sum.inr.inj (hpass'.symm.trans hpass)
      exact ih rest'

/-- **Partial correctness**: what every pass keeps, and what it gives at the end. -/
theorem ensures {I : σ → Prop} {P : ρ → Prop} (h : Returns pass s r) (hs : I s)
    (hnext : ∀ s s', I s → pass s = .inr s' → I s') (hdone : ∀ s r, I s → pass s = .inl r → P r) :
    P r := by
  induction h with
  | done hpass => exact hdone _ _ hs hpass
  | next hpass _ ih => exact ih (hnext _ _ hs hpass)

end Returns

/-- **Termination**: a function that makes at most `n` passes is the loop, if each pass makes a measure
smaller that is less than `n` at the start. -/
theorem returns_of_measure {run : ℕ → σ → ρ} (hrun : ∀ n s, run (n + 1) s = (pass s).elim id (run n))
    (μ : σ → ℕ) (hlt : ∀ s s', pass s = .inr s' → μ s' < μ s) {n : ℕ} (h : μ s < n) :
    Returns pass s (run n s) := by
  induction n generalizing s with
  | zero => exact absurd h (Nat.not_lt_zero _)
  | succ n ih =>
    rw [hrun]
    cases hpass : pass s with
    | inl r => exact .done hpass
    | inr s' => exact .next hpass (ih (Nat.lt_of_lt_of_le (hlt s s' hpass) (Nat.le_of_lt_succ h)))

end Utxopia.While
