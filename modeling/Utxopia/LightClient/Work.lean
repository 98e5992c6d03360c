import Mathlib.Data.Nat.Bits
import Utxopia.Lib.Positional
import Utxopia.LightClient.Pow

/-!
The 256-bit arithmetic as arithmetic of numbers.

Every operation on limbs or bytes computes what its name says, modulo `2^256`; the work of a
header comes out as the quotient that the network counts.
-/

namespace Utxopia.LightClient.Work

open Utxopia.ByteString Utxopia.Encoding Utxopia.Positional
open Utxopia.LightClient.U256 Utxopia.LightClient.Pow

/-- The number of four limbs. -/
def val (v : Limbs) : ℕ := value (2 ^ 64) (fun i => (limb v i).toNat) 4

lemma limb_lt (v : Limbs) (i : ℕ) : (limb v i).toNat < 2 ^ 64 := UInt64.toNat_lt _

lemma val_lt (v : Limbs) : val v < 2 ^ 256 := by
  have h := value_lt (n := 4) fun i _ => limb_lt v i
  rwa [← Nat.pow_mul] at h

lemma testBit_val (v : Limbs) (j : ℕ) :
    (val v).testBit j = (decide (j < 256) && (limb v (j / 64)).toNat.testBit (j % 64)) :=
  testBit_value (by omega) (fun i _ => limb_lt v i) j

/-- Four limbs, written out. -/
lemma exists_limbs (v : Limbs) : ∃ a b c d, v = #v[a, b, c, d] :=
  ⟨v[0], v[1], v[2], v[3], by ext i hi; interval_cases i <;> rfl⟩

lemma val_mk (a b c d : UInt64) :
    val #v[a, b, c, d] =
      a.toNat + b.toNat * 2 ^ 64 + c.toNat * 2 ^ 128 + d.toNat * 2 ^ 192 := by
  simp [val, value, limb]

lemma val_eq (v : Limbs) :
    val v = v[(0 : Fin 4)].toNat + v[(1 : Fin 4)].toNat * 2 ^ 64 + v[(2 : Fin 4)].toNat * 2 ^ 128 +
      v[(3 : Fin 4)].toNat * 2 ^ 192 := by
  obtain ⟨a, b, c, d, rfl⟩ := exists_limbs v
  exact val_mk a b c d

@[simp] lemma val_zero : val (Vector.replicate 4 0) = 0 := by decide

lemma val_eq_zero_iff {v : Limbs} : val v = 0 ↔ v = Vector.replicate 4 0 := by
  refine ⟨fun h => ?_, fun h => h ▸ val_zero⟩
  obtain ⟨a, b, c, d, rfl⟩ := exists_limbs v
  rw [val_mk] at h
  have ha : a = 0 := UInt64.toNat_inj.mp (by simp only [UInt64.toNat_zero]; omega)
  have hb : b = 0 := UInt64.toNat_inj.mp (by simp only [UInt64.toNat_zero]; omega)
  have hc : c = 0 := UInt64.toNat_inj.mp (by simp only [UInt64.toNat_zero]; omega)
  have hd : d = 0 := UInt64.toNat_inj.mp (by simp only [UInt64.toNat_zero]; omega)
  rw [ha, hb, hc, hd]
  rfl

/-! ### Comparison -/

lemma gtRev_limbs (tie : Bool) (a b : Limbs) :
    gtRev tie (limb a) (limb b) 4 = true ↔ val b < val a ∨ (tie = true ∧ val a = val b) :=
  gtRev_iff (fun _ _ => UInt64.lt_iff_toNat_lt) (fun x => UInt64.toNat_lt x) tie (limb a) (limb b) 4

lemma u256GtLimbs_iff {a b : Limbs} : u256GtLimbs a b = true ↔ val b < val a := by
  rw [u256GtLimbs, gtRev_limbs]
  simp

lemma u256Gte_iff {a b : Limbs} : u256Gte a b = true ↔ val b ≤ val a := by
  rw [u256Gte, gtRev_limbs, eq_self, true_and, le_iff_lt_or_eq, eq_comm (a := val a)]

/-! ### Addition and subtraction -/

/-- One limb of an addition: the sum and the carry out. -/
def addLimb (a b c : UInt64) : UInt64 × UInt64 :=
  ((overflowingAdd (overflowingAdd a b).1 c).1,
    (overflowingAdd a b).2 + (overflowingAdd (overflowingAdd a b).1 c).2)

/-- One limb of a subtraction: the difference and the borrow out. -/
def subLimb (a b c : UInt64) : UInt64 × UInt64 :=
  ((overflowingSub (overflowingSub a b).1 c).1,
    (overflowingSub a b).2 + (overflowingSub (overflowingSub a b).1 c).2)

lemma addLimb_spec (a b : UInt64) {c : UInt64} (hc : c.toNat ≤ 1) :
    (addLimb a b c).1.toNat + (addLimb a b c).2.toNat * 2 ^ 64 = a.toNat + b.toNat + c.toNat ∧
      (addLimb a b c).2.toNat ≤ 1 := by
  have ha := UInt64.toNat_lt a
  have hb := UInt64.toNat_lt b
  simp only [addLimb, overflowingAdd, UInt64.toNat_add]
  split <;> split <;> simp <;> omega

lemma subLimb_spec (a b : UInt64) {c : UInt64} (hc : c.toNat ≤ 1) :
    (subLimb a b c).1.toNat + b.toNat + c.toNat = a.toNat + (subLimb a b c).2.toNat * 2 ^ 64 ∧
      (subLimb a b c).2.toNat ≤ 1 := by
  have ha := UInt64.toNat_lt a
  have hb := UInt64.toNat_lt b
  simp only [subLimb, overflowingSub, UInt64.toNat_sub, UInt64.lt_iff_toNat_lt]
  split <;> split <;> simp <;> omega

lemma foldl_four {α : Type} (f : α → Fin 4 → α) (x : α) :
    Fin.foldl 4 f x = f (f (f (f x 0) 1) 2) 3 := by
  simp only [Fin.foldl_succ, Fin.foldl_zero]
  rfl

lemma u256Add_eq (a b : Limbs) : ∃ x0 x1 x2 x3,
    x0 = addLimb a[(0 : Fin 4)] b[(0 : Fin 4)] 0 ∧ x1 = addLimb a[(1 : Fin 4)] b[(1 : Fin 4)] x0.2 ∧
      x2 = addLimb a[(2 : Fin 4)] b[(2 : Fin 4)] x1.2 ∧
      x3 = addLimb a[(3 : Fin 4)] b[(3 : Fin 4)] x2.2 ∧
      u256Add a b = #v[x0.1, x1.1, x2.1, x3.1] :=
  ⟨_, _, _, _, rfl, rfl, rfl, rfl, by rw [u256Add, foldl_four]; rfl⟩

lemma u256Sub_eq (a b : Limbs) : ∃ x0 x1 x2 x3,
    x0 = subLimb a[(0 : Fin 4)] b[(0 : Fin 4)] 0 ∧ x1 = subLimb a[(1 : Fin 4)] b[(1 : Fin 4)] x0.2 ∧
      x2 = subLimb a[(2 : Fin 4)] b[(2 : Fin 4)] x1.2 ∧
      x3 = subLimb a[(3 : Fin 4)] b[(3 : Fin 4)] x2.2 ∧
      u256Sub a b = #v[x0.1, x1.1, x2.1, x3.1] :=
  ⟨_, _, _, _, rfl, rfl, rfl, rfl, by rw [u256Sub, foldl_four]; rfl⟩

theorem val_u256Add (a b : Limbs) : val (u256Add a b) = (val a + val b) % 2 ^ 256 := by
  obtain ⟨x0, x1, x2, x3, hx0, hx1, hx2, hx3, heq⟩ := u256Add_eq a b
  obtain ⟨h0, hc0⟩ := addLimb_spec a[(0 : Fin 4)] b[(0 : Fin 4)] (c := 0) (by simp)
  rw [← hx0] at h0 hc0
  obtain ⟨h1, hc1⟩ := addLimb_spec a[(1 : Fin 4)] b[(1 : Fin 4)] hc0
  rw [← hx1] at h1 hc1
  obtain ⟨h2, hc2⟩ := addLimb_spec a[(2 : Fin 4)] b[(2 : Fin 4)] hc1
  rw [← hx2] at h2 hc2
  obtain ⟨h3, hc3⟩ := addLimb_spec a[(3 : Fin 4)] b[(3 : Fin 4)] hc2
  rw [← hx3] at h3 hc3
  have hlt := val_lt (u256Add a b)
  rw [heq, val_mk] at *
  rw [val_eq a, val_eq b]
  rw [UInt64.toNat_zero] at h0
  omega

/-- What is taken away can be added again, up to the wrap. -/
lemma val_u256Sub_add (a b : Limbs) : (val (u256Sub a b) + val b) % 2 ^ 256 = val a := by
  obtain ⟨x0, x1, x2, x3, hx0, hx1, hx2, hx3, heq⟩ := u256Sub_eq a b
  obtain ⟨h0, hc0⟩ := subLimb_spec a[(0 : Fin 4)] b[(0 : Fin 4)] (c := 0) (by simp)
  rw [← hx0] at h0 hc0
  obtain ⟨h1, hc1⟩ := subLimb_spec a[(1 : Fin 4)] b[(1 : Fin 4)] hc0
  rw [← hx1] at h1 hc1
  obtain ⟨h2, hc2⟩ := subLimb_spec a[(2 : Fin 4)] b[(2 : Fin 4)] hc1
  rw [← hx2] at h2 hc2
  obtain ⟨h3, hc3⟩ := subLimb_spec a[(3 : Fin 4)] b[(3 : Fin 4)] hc2
  rw [← hx3] at h3 hc3
  have hlt := val_lt (u256Sub a b)
  have hlta := val_lt a
  rw [heq, val_mk] at *
  rw [val_eq a, val_eq b] at *
  rw [UInt64.toNat_zero] at h0
  omega

theorem val_u256Sub {a b : Limbs} (h : val b ≤ val a) : val (u256Sub a b) = val a - val b := by
  have hadd := val_u256Sub_add a b
  have hlt := val_lt (u256Sub a b)
  have hb := val_lt b
  omega

/-! ### Shifts and bits -/

lemma limb_ofFn {f : Fin 4 → UInt64} {i : ℕ} (h : i < 4) :
    limb (Vector.ofFn f) i = f ⟨i, h⟩ := by
  simp [limb, h]

lemma testBit_limb {x : UInt64} {j : ℕ} (h : 64 ≤ j) : x.toNat.testBit j = false :=
  Nat.testBit_lt_two_pow ((UInt64.toNat_lt x).trans_le (Nat.pow_le_pow_right (by omega) h))

lemma testBit_shiftLeft (x : UInt64) {b k : ℕ} (hb : b < 64) (hk : k < 64) :
    (x <<< UInt64.ofNat b).toNat.testBit k = (decide (b ≤ k) && x.toNat.testBit (k - b)) := by
  have hb' : (UInt64.ofNat b).toNat % 64 = b := by
    rw [UInt64.toNat_ofNat']
    omega
  rw [UInt64.toNat_shiftLeft, hb', Nat.testBit_mod_two_pow, Nat.testBit_shiftLeft]
  simp [hk]

lemma testBit_shiftRight (x : UInt64) {b : ℕ} (hb : b < 64) (k : ℕ) :
    (x >>> UInt64.ofNat b).toNat.testBit k = x.toNat.testBit (b + k) := by
  have hb' : (UInt64.ofNat b).toNat % 64 = b := by
    rw [UInt64.toNat_ofNat']
    omega
  rw [UInt64.toNat_shiftRight, hb', Nat.testBit_shiftRight]

theorem val_u256Shl (v : Limbs) {s : ℕ} (hs : s < 256) :
    val (u256Shl v s) = val v * 2 ^ s % 2 ^ 256 := by
  refine Nat.eq_of_testBit_eq fun j => ?_
  rw [testBit_val, Nat.testBit_mod_two_pow, Nat.testBit_mul_two_pow, testBit_val]
  by_cases hj : j < 256
  swap
  · simp [hj]
  have hbit : j % 64 < 64 := Nat.mod_lt _ (by omega)
  rw [u256Shl, if_neg (by omega), limb_ofFn (by omega)]
  simp only [hj, decide_true, Bool.true_and]
  split
  · rename_i hlow
    have hsj : ¬ s ≤ j := by omega
    simp [hsj]
  · rename_i hlow
    by_cases hk : s % 64 ≤ j % 64
    · -- the bit comes from the limb `s / 64` below
      have hsj : s ≤ j := by omega
      have hdiv : (j - s) / 64 = j / 64 - s / 64 := by omega
      have hmod : (j - s) % 64 = j % 64 - s % 64 := by omega
      have hlt : j - s < 256 := by omega
      split
      · have hhigh : (limb v (j / 64 - s / 64 - 1)).toNat.testBit (64 - s % 64 + j % 64) = false :=
          testBit_limb (by omega)
        rw [UInt64.toNat_or, Nat.testBit_or, testBit_shiftLeft _ (by omega) hbit,
          testBit_shiftRight _ (by omega), hhigh]
        simp [hsj, hdiv, hmod, hlt, hk]
      · rw [testBit_shiftLeft _ (by omega) hbit]
        simp [hsj, hdiv, hmod, hlt, hk]
    · split
      · -- the bit comes from the limb below that one
        have hsj : s ≤ j := by omega
        have hdiv : (j - s) / 64 = j / 64 - s / 64 - 1 := by omega
        have hmod : (j - s) % 64 = 64 - s % 64 + j % 64 := by omega
        have hlt : j - s < 256 := by omega
        rw [UInt64.toNat_or, Nat.testBit_or, testBit_shiftLeft _ (by omega) hbit,
          testBit_shiftRight _ (by omega)]
        simp [hsj, hdiv, hmod, hlt, hk]
      · have hsj : ¬ s ≤ j := by omega
        rw [testBit_shiftLeft _ (by omega) hbit]
        simp [hsj, hk]

/-- Setting a bit adds it, where it and the bits below are clear. -/
theorem val_setBit {q : Limbs} {s : ℕ} (hs : s < 256) (hq : 2 ^ (s + 1) ∣ val q) :
    val (setBit q s) = val q + 2 ^ s := by
  obtain ⟨c, hc⟩ := hq
  have hor : val q + 2 ^ s = val q ||| 2 ^ s := by
    rw [hc]
    exact Nat.two_pow_add_eq_or_of_lt (Nat.pow_lt_pow_right (by omega) (by omega)) c
  refine Nat.eq_of_testBit_eq fun j => ?_
  rw [hor, Nat.testBit_or, Nat.testBit_two_pow, testBit_val, testBit_val]
  by_cases hj : j < 256
  swap
  · have hsj : s ≠ j := by omega
    simp [hj, hsj]
  have hone : (1 <<< UInt64.ofNat (s % 64) : UInt64).toNat.testBit (j % 64) =
      decide (s % 64 = j % 64) := by
    rw [testBit_shiftLeft _ (by omega) (by omega), UInt64.toNat_one]
    rcases Nat.lt_trichotomy (s % 64) (j % 64) with h | h | h
    · obtain ⟨k, hk⟩ : ∃ k, j % 64 - s % 64 = k + 1 := ⟨j % 64 - s % 64 - 1, by omega⟩
      have hzero : Nat.testBit 1 (k + 1) = false := by simp [Nat.testBit_succ]
      simp [hk, h.ne, hzero]
    · simp [h]
    · simp [h.not_ge, h.ne']
  have hlimb : ∀ h : j / 64 < 4, q[(⟨j / 64, h⟩ : Fin 4)] = limb q (j / 64) := fun h => by
    simp [limb, h]
  rw [setBit, limb_ofFn (by omega), hlimb]
  simp only [hj, decide_true, Bool.true_and]
  split
  · rename_i hdiv
    rw [UInt64.toNat_or, Nat.testBit_or, hone]
    congr 1
    simp only [decide_eq_decide]
    omega
  · rename_i hdiv
    have hsj : s ≠ j := by omega
    simp [hsj]

/-! ### Division -/

lemma leadingZeros_le (x : UInt64) (hx : x ≠ 0) :
    leadingZeros x ≤ 63 ∧ 2 ^ (63 - leadingZeros x) ≤ x.toNat ∧
      x.toNat < 2 ^ (64 - leadingZeros x) := by
  have hne : x.toNat ≠ 0 := fun h => hx (UInt64.toNat_inj.mp h)
  have hlog : x.toNat.log2 < 64 := (Nat.log2_lt hne).mpr (UInt64.toNat_lt x)
  rw [leadingZeros, if_neg hx]
  refine ⟨by omega, ?_, ?_⟩
  · rw [show 63 - (63 - x.toNat.log2) = x.toNat.log2 by omega]
    exact Nat.log2_self_le hne
  · rw [show 64 - (63 - x.toNat.log2) = x.toNat.log2 + 1 by omega]
    exact Nat.lt_log2_self

/-- The highest nonzero limb says how long the number is. -/
lemma top_limb {x : UInt64} (hx : x ≠ 0) {l k zeros : ℕ} (hl : l < 2 ^ k) (hk : k ≤ 192)
    (hz : zeros = 192 - k + leadingZeros x) :
    zeros ≤ 255 ∧ 2 ^ (255 - zeros) ≤ l + x.toNat * 2 ^ k ∧
      l + x.toNat * 2 ^ k < 2 ^ (256 - zeros) := by
  obtain ⟨hle63, hle, hlt⟩ := leadingZeros_le x hx
  refine ⟨by omega, ?_, ?_⟩
  · calc 2 ^ (255 - zeros) = 2 ^ (63 - leadingZeros x) * 2 ^ k := by
          rw [← Nat.pow_add]
          congr 1
          omega
      _ ≤ x.toNat * 2 ^ k := Nat.mul_le_mul_right _ hle
      _ ≤ l + x.toNat * 2 ^ k := Nat.le_add_left ..
  · calc l + x.toNat * 2 ^ k < (x.toNat + 1) * 2 ^ k := by
          rw [Nat.add_mul, Nat.one_mul]
          omega
      _ ≤ 2 ^ (64 - leadingZeros x) * 2 ^ k := Nat.mul_le_mul_right _ hlt
      _ = 2 ^ (256 - zeros) := by
          rw [← Nat.pow_add]
          congr 1
          omega

lemma val_limbs (v : Limbs) :
    val v = (limb v 0).toNat + (limb v 1).toNat * 2 ^ 64 + (limb v 2).toNat * 2 ^ 128 +
      (limb v 3).toNat * 2 ^ 192 := by
  simp [val, value]

/-- The leading zeros say how long the number is. -/
lemma u256Clz_bounds {v : Limbs} (hv : 0 < val v) :
    u256Clz v ≤ 255 ∧ 2 ^ (255 - u256Clz v) ≤ val v ∧ val v < 2 ^ (256 - u256Clz v) := by
  have h0 := limb_lt v 0
  have h1 := limb_lt v 1
  have h2 := limb_lt v 2
  have hzero : (0 : UInt64).toNat = 0 := rfl
  rw [val_limbs] at *
  rw [u256Clz]
  split
  · rename_i h
    exact top_limb h (by omega) (by omega) (by omega)
  rename_i h3
  rw [not_not.mp h3, hzero, Nat.zero_mul, Nat.add_zero] at hv ⊢
  split
  · rename_i h
    exact top_limb h (by omega) (by omega) (by omega)
  rename_i h2
  rw [not_not.mp h2, hzero, Nat.zero_mul, Nat.add_zero] at hv ⊢
  split
  · rename_i h
    exact top_limb h (by omega) (by omega) (by omega)
  rename_i h1
  rw [not_not.mp h1, hzero, Nat.zero_mul, Nat.add_zero] at hv ⊢
  split
  · rename_i h
    have := top_limb h (l := 0) (k := 0) (by omega) (by omega) rfl
    rwa [Nat.pow_zero, Nat.mul_one, Nat.zero_add, Nat.sub_zero] at this
  · rename_i h
    rw [not_not.mp h, hzero] at hv
    exact absurd hv (Nat.lt_irrefl 0)

/-- **The division loop** adds the quotient of what remains: every shift of the divisor that
fits is taken off and its bit is set. -/
theorem val_u256DivLoop {b : Limbs} (hb : 0 < val b) {n : ℕ} {r q : Limbs} (hn : n ≤ 256)
    (hfit : n ≠ 0 → val b * 2 ^ (n - 1) < 2 ^ 256) (hr : val r < val b * 2 ^ n)
    (hq : 2 ^ n ∣ val q) :
    val (u256DivLoop b n (r, q)).2 = val q + val r / val b := by
  induction n generalizing r q with
  | zero =>
    rw [Nat.pow_zero, Nat.mul_one] at hr
    rw [u256DivLoop, Nat.div_eq_of_lt hr, Nat.add_zero]
  | succ s ih =>
    have hfit' : val b * 2 ^ s < 2 ^ 256 := hfit (by omega)
    have hshift : val (u256Shl b s) = val b * 2 ^ s := by
      rw [val_u256Shl b (by omega), Nat.mod_eq_of_lt hfit']
    have hbelow : s ≠ 0 → val b * 2 ^ (s - 1) < 2 ^ 256 := fun _ =>
      (Nat.mul_le_mul_left _ (Nat.pow_le_pow_right (by omega) (by omega))).trans_lt hfit'
    have hdvd : 2 ^ s ∣ val q := (Nat.pow_dvd_pow 2 (by omega)).trans hq
    rw [Nat.pow_succ, ← Nat.mul_assoc] at hr
    rw [u256DivLoop]
    split
    · rename_i hge
      rw [u256Gte_iff, hshift] at hge
      have hsub : val (u256Sub r (u256Shl b s)) = val r - val b * 2 ^ s := by
        rw [val_u256Sub (hshift ▸ hge), hshift]
      have hset : val (setBit q s) = val q + 2 ^ s := val_setBit (by omega) hq
      have hquot : 2 ^ s ≤ val r / val b :=
        (Nat.le_div_iff_mul_le hb).mpr (by rwa [Nat.mul_comm])
      rw [ih (by omega) hbelow (by omega) (hset ▸ Nat.dvd_add hdvd dvd_rfl), hsub, hset,
        Nat.sub_mul_div]
      omega
    · rename_i hlt
      rw [u256Gte_iff, hshift] at hlt
      exact ih (by omega) hbelow (by omega) hdvd

theorem val_u256Div {a b : Limbs} (hb : 0 < val b) : val (u256Div a b) = val a / val b := by
  rw [u256Div, if_neg (fun h => hb.ne' (val_eq_zero_iff.mpr h))]
  split
  · rename_i hlt
    have hab : val a < val b := by
      rw [← Nat.not_le, ← u256Gte_iff, hlt]
      decide
    rw [val_zero, Nat.div_eq_of_lt hab]
  rename_i hge
  rw [Bool.not_eq_false, u256Gte_iff] at hge
  obtain ⟨hca, hale, halt⟩ := u256Clz_bounds (hb.trans_le hge)
  obtain ⟨hcb, hble, hblt⟩ := u256Clz_bounds hb
  split
  · -- a longer divisor is greater
    rename_i hlong
    have hab : val a < val b := halt.trans_le
      ((Nat.pow_le_pow_right (by omega) (by omega)).trans hble)
    rw [val_zero, Nat.div_eq_of_lt hab]
  · rename_i hshort
    have hfit : val b * 2 ^ (u256Clz b - u256Clz a) < 2 ^ 256 := calc
      _ < 2 ^ (256 - u256Clz b) * 2 ^ (u256Clz b - u256Clz a) :=
        Nat.mul_lt_mul_of_pos_right hblt (by positivity)
      _ = 2 ^ (256 - u256Clz a) := by
        rw [← Nat.pow_add]
        congr 1
        omega
      _ ≤ 2 ^ 256 := Nat.pow_le_pow_right (by omega) (by omega)
    have hrem : val a < val b * 2 ^ (u256Clz b - u256Clz a + 1) := calc
      _ < 2 ^ (256 - u256Clz a) := halt
      _ = 2 ^ (255 - u256Clz b) * 2 ^ (u256Clz b - u256Clz a + 1) := by
        rw [← Nat.pow_add]
        congr 1
        omega
      _ ≤ _ := Nat.mul_le_mul_right _ hble
    rw [val_u256DivLoop hb (by omega) (fun _ => hfit) hrem (by rw [val_zero]; exact dvd_zero _),
      val_zero, Nat.zero_add]

/-! ### Bytes -/

theorem val_u256FromLeBytes (b : Bytes 32) : val (u256FromLeBytes b) = leNat b.toList := by
  have hlen : b.toList.length = 32 := by simp
  have hlimb : ∀ i < 4, (limb (u256FromLeBytes b) i).toNat = leNat (slice 8 b.toList (8 * i)).toList := by
    intro i hi
    rw [u256FromLeBytes, limb_ofFn hi, UInt64.toNat_ofNat', Nat.mod_eq_of_lt (u64At_lt ..)]
    rfl
  rw [val, value_congr hlimb, show 2 ^ 64 = 256 ^ 8 by norm_num, value_words (by omega),
    List.take_of_length_le (by omega)]

theorem leNat_u256ToLeBytes (v : Limbs) : leNat (u256ToLeBytes v).toList = val v := by
  obtain ⟨a, b, c, d, rfl⟩ := exists_limbs v
  have hlen : (#v[a, b, c, d].toList.flatMap fun x : UInt64 => leBytes 8 x.toNat).length = 32 := by
    simp
  have hbytes : ∀ x : UInt64, leNat (leBytes 8 x.toNat) = x.toNat := fun x => by
    rw [leNat_leBytes, Nat.mod_eq_of_lt (lt_of_lt_of_eq (UInt64.toNat_lt x) (by norm_num))]
  rw [u256ToLeBytes, toList_ofList hlen, val_mk]
  simp only [Vector.toList_mk, List.flatMap_cons, List.flatMap_nil, leNat_append, hbytes,
    length_leBytes, leNat_nil]
  omega

/-! ### Work -/

lemma eq_zeros_iff {n : ℕ} {b : Bytes n} : b = zeros n ↔ leNat b.toList = 0 := by
  refine ⟨fun h => h ▸ leNat_zeros n, fun h => ?_⟩
  refine Vector.toList_inj.mp (leNat_inj (by simp) ?_)
  rw [h, leNat_zeros]

/-- No compact target is near `2^256`. -/
lemma targetFromBits_lt (bits : ℕ) : leNat (targetFromBits bits).toList < 2 ^ 255 := by
  have hm : bits &&& 0x007fffff < 2 ^ 23 := Nat.and_lt_two_pow _ (by norm_num)
  rw [targetFromBits]
  generalize (bits >>> 24) &&& 0xff = exponent
  generalize bits &&& 0x007fffff = mantissa at *
  simp only
  split
  · rw [leNat_ofList (by simp), leNat_leBytes]
    exact (Nat.mod_lt _ (by norm_num)).trans (by norm_num)
  split
  · rename_i hfit
    rw [leNat_ofList (by simp only [List.length_append, List.length_replicate, length_leBytes]; omega),
      leNat_append, leNat_replicate_zero, leNat_leBytes, List.length_replicate, Nat.zero_add]
    calc 256 ^ (exponent - 3) * (mantissa % 256 ^ 3) < 256 ^ (exponent - 3) * 2 ^ 23 :=
          Nat.mul_lt_mul_of_pos_left ((Nat.mod_le _ _).trans_lt hm) (by positivity)
      _ ≤ 256 ^ 29 * 2 ^ 23 :=
          Nat.mul_le_mul_right _ (Nat.pow_le_pow_right (by omega) (by omega))
      _ = 2 ^ 255 := by norm_num
  · rw [leNat_zeros]
    positivity

theorem leNat_addChainwork (a b : Bytes 32) :
    leNat (addChainwork a b).toList = (leNat a.toList + leNat b.toList) % 2 ^ 256 := by
  have hlen : a.toList.length = b.toList.length := by simp
  have hbytes : a.toList.length = 32 := by simp
  have hsum := leNat_addCarry 0 a.toList b.toList hlen
  have hlt := leNat_lt (addCarry 0 a.toList b.toList)
  rw [length_addCarry _ _ _ hlen] at hlt
  rw [addChainwork, leNat_ofList (by rw [length_addCarry _ _ _ hlen, hbytes])]
  rw [hbytes] at hsum hlt
  omega

/-- **The work of a header** is the number of hashes its target asks for. -/
theorem leNat_calculateChainwork (bits : ℕ) :
    leNat (calculateChainwork bits).toList =
      2 ^ 256 / (leNat (targetFromBits bits).toList + 1) % 2 ^ 256 := by
  have ht := targetFromBits_lt bits
  rw [calculateChainwork]
  generalize targetFromBits bits = target at *
  have hbytes : target.toList.length = 32 := by simp
  have hlen : target.toList.length = (zeros 32).toList.length := by simp
  have hplus : leNat (ofList 32 (addCarry 1 target.toList (zeros 32).toList)).toList =
      leNat target.toList + 1 := by
    have hsum := leNat_addCarry 1 target.toList (zeros 32).toList hlen
    rw [leNat_zeros, hbytes] at hsum
    rw [leNat_ofList (by rw [length_addCarry _ _ _ hlen, hbytes])]
    omega
  have hnot : leNat (target.map fun b => ~~~b).toList + leNat target.toList + 1 = 2 ^ 256 := by
    have := leNat_not target.toList
    rwa [hbytes, ← Vector.toList_map] at this
  simp only
  rw [if_neg (by rw [eq_zeros_iff, hplus]; omega), leNat_u256ToLeBytes, val_u256Add,
    val_u256Div (by rw [val_u256FromLeBytes, hplus]; omega), val_u256FromLeBytes,
    val_u256FromLeBytes, hplus]
  have hquot : 2 ^ 256 / (leNat target.toList + 1) =
      leNat (target.map fun b => ~~~b).toList / (leNat target.toList + 1) + 1 := by
    rw [← hnot, Nat.add_assoc, Nat.add_div_right _ (by omega)]
  rw [hquot]
  rfl

/-- A batch that outweighs has more work. -/
lemma outweighs_iff {a b : Bytes 32} :
    u256GtLimbs (u256FromLeBytes a) (u256FromLeBytes b) = true ↔ leNat b.toList < leNat a.toList := by
  rw [u256GtLimbs_iff, val_u256FromLeBytes, val_u256FromLeBytes]

end Utxopia.LightClient.Work
