import Mathlib.Data.List.GetD
import Mathlib.Data.Nat.ModEq
import Mathlib.Tactic.Common

/-!
A ring of the last values.

A counter that goes round names the place of the next value, which takes the place of the oldest
one. After any number of pushes the ring holds the last of them, and in the places not yet
reached still what was there at first.
-/

namespace Utxopia.RingBuffer

variable {α : Type} {n m i j index : ℕ} {ring : Vector α n} {past : List α} {x first : α}

def push (ring : Vector α n) (index : ℕ) (x : α) : Vector α n := ring.setIfInBounds (index % n) x

/-- Going back from the next place one finds the values pushed, latest first. -/
def Remembers (first : α) (ring : Vector α n) (index : ℕ) (past : List α) : Prop :=
  ∀ j (hj : j < n) i, i < n → (j + i + 1) % n = index % n → ring[j] = past.getD i first

lemma remembers_replicate : Remembers first (Vector.replicate n first) index [] := by
  intro j hj i hi h
  simp

/-- The counter may itself go round, at a multiple of the size. -/
lemma Remembers.wrap (h : Remembers first ring index past) (hm : n ∣ m) :
    Remembers first ring (index % m) past := by
  intro j hj i hi heq
  rw [Nat.mod_mod_of_dvd _ hm] at heq
  exact h j hj i hi heq

/-- **A push** is remembered first. -/
theorem Remembers.push (h : Remembers first ring index past) :
    Remembers first (push ring index x) (index + 1) (x :: past) := by
  intro j hj i hi heq
  have hback : (j + i) % n = index % n := Nat.ModEq.add_right_cancel' 1 heq
  rw [RingBuffer.push, Vector.getElem_setIfInBounds]
  cases i with
  | zero =>
    rw [Nat.add_zero, Nat.mod_eq_of_lt hj] at hback
    rw [if_pos hback.symm, List.getD_cons_zero]
  | succ i =>
    -- a step back of fewer than `n` places does not come round
    have hne : index % n ≠ j := by
      rintro rfl
      have hround : index % n + (i + 1) ≡ index % n + 0 [MOD n] := by
        rw [Nat.ModEq, hback, Nat.add_zero, Nat.mod_mod]
      have hzero := Nat.ModEq.add_left_cancel' _ hround
      rw [Nat.ModEq, Nat.mod_eq_of_lt hi, Nat.zero_mod] at hzero
      exact absurd hzero i.succ_ne_zero
    rw [if_neg hne, List.getD_cons_succ]
    exact h j hj i (by omega) hback

/-- Every place lies some way back from the next one. -/
lemma back_mod (hj : j < n) : (j + (index + (n - 1 - j)) % n + 1) % n = index % n := by
  have hsum : j + (index + (n - 1 - j)) + 1 = index + n := by omega
  rw [Nat.add_right_comm, Nat.add_mod_mod, Nat.add_right_comm, hsum, Nat.add_mod_right]

lemma mem_take_iff : (∃ i < n, past.getD i first = x) ↔
    x ∈ past.take n ∨ (past.length < n ∧ x = first) := by
  constructor
  · rintro ⟨i, hi, rfl⟩
    rcases Nat.lt_or_ge i past.length with hlt | hge
    · rw [List.getD_eq_getElem _ _ hlt]
      exact .inl (List.mem_take_iff_getElem.mpr ⟨i, by omega, rfl⟩)
    · exact .inr ⟨by omega, List.getD_eq_default _ _ hge⟩
  · rintro (hmem | ⟨hlt, rfl⟩)
    · obtain ⟨i, hi, rfl⟩ := List.mem_take_iff_getElem.mp hmem
      exact ⟨i, by omega, List.getD_eq_getElem _ _ (by omega)⟩
    · exact ⟨past.length, hlt, List.getD_eq_default _ _ le_rfl⟩

/-- **What is in the ring**: the last values, and the first one while there are places left. -/
theorem Remembers.mem_iff (h : Remembers first ring index past) :
    x ∈ ring.toList ↔ x ∈ past.take n ∨ (past.length < n ∧ x = first) := by
  rw [Vector.mem_toList_iff, Vector.mem_iff_getElem, ← mem_take_iff]
  constructor
  · rintro ⟨j, hj, rfl⟩
    have hlt : (index + (n - 1 - j)) % n < n := Nat.mod_lt _ (by omega)
    exact ⟨_, hlt, (h j hj _ hlt (back_mod hj)).symm⟩
  · rintro ⟨i, hi, rfl⟩
    have hlt : (index + (n - 1 - i)) % n < n := Nat.mod_lt _ (by omega)
    have hback : (i + (index + (n - 1 - i)) % n + 1) % n = index % n := back_mod hi
    rw [Nat.add_comm i] at hback
    exact ⟨_, hlt, h _ hlt i hi hback⟩

end Utxopia.RingBuffer
