import Mathlib.Data.Nat.Bitwise
import Mathlib.Data.Nat.Digits.Lemmas
import Utxopia.Lib.Encoding

/-!
Numbers written as digits, least significant digit first.

A comparison that runs from the top digit down and an addition that carries from the bottom
digit up compare and add the numbers.
-/

namespace Utxopia.Positional

open Utxopia.ByteString Utxopia.Encoding

/-- The number that the first `n` digits spell in base `B`. -/
def value (B : ℕ) (d : ℕ → ℕ) : ℕ → ℕ
  | 0 => 0
  | n + 1 => value B d n + d n * B ^ n

variable {B : ℕ} {d e : ℕ → ℕ} {n : ℕ}

lemma value_lt (hd : ∀ i < n, d i < B) : value B d n < B ^ n := by
  induction n with
  | zero => simp [value]
  | succ n ih =>
    have hlow := ih fun i hi => hd i (by omega)
    have htop : (d n + 1) * B ^ n ≤ B * B ^ n := Nat.mul_le_mul_right _ (hd n (by omega))
    rw [Nat.add_mul, Nat.one_mul] at htop
    rw [value, Nat.pow_succ', Nat.add_comm]
    omega

lemma value_congr (h : ∀ i < n, d i = e i) : value B d n = value B e n := by
  induction n with
  | zero => rfl
  | succ n ih => rw [value, value, ih fun i hi => h i (by omega), h n (by omega)]

/-- A digit is read back. -/
lemma value_digit (hd : ∀ i < n, d i < B) {i : ℕ} (hi : i < n) : value B d n / B ^ i % B = d i := by
  induction n with
  | zero => exact absurd hi (Nat.not_lt_zero i)
  | succ n ih =>
    have hB : 0 < B := (Nat.zero_le _).trans_lt (hd i hi)
    have hbelow : ∀ i < n, d i < B := fun i hlt => hd i (hlt.trans (Nat.lt_succ_self n))
    rw [value]
    rcases Nat.lt_succ_iff_lt_or_eq.mp hi with hlt | rfl
    · obtain ⟨k, hk⟩ : ∃ k, n = i + 1 + k := ⟨n - i - 1, by omega⟩
      have hpow : d n * B ^ n = B ^ i * (B * (d n * B ^ k)) := by
        rw [hk]
        ring
      rw [hpow, Nat.add_mul_div_left _ _ (Nat.pow_pos hB), Nat.add_mul_mod_self_left]
      exact ih hbelow hlt
    · rw [Nat.add_mul_div_right _ _ (Nat.pow_pos hB), Nat.div_eq_of_lt (value_lt hbelow),
        Nat.zero_add, Nat.mod_eq_of_lt (hd i hi)]

/-- A greater digit above makes a greater number. -/
lemma value_lt_value (hd : ∀ i < n, d i < B) (h : d n < e n) :
    value B d (n + 1) < value B e (n + 1) := by
  have hlow := value_lt hd
  have htop : (d n + 1) * B ^ n ≤ e n * B ^ n := Nat.mul_le_mul_right _ h
  rw [Nat.add_mul, Nat.one_mul] at htop
  rw [value, value]
  omega

/-- **Comparison from the top** decides which number is greater; `tie` answers for equal
ones. -/
theorem gtRev_iff {α : Type} [LT α] [DecidableLT α] {f : α → ℕ} (hf : ∀ x y, x < y ↔ f x < f y)
    (hB : ∀ x, f x < B) (tie : Bool) (a b : ℕ → α) (n : ℕ) :
    gtRev tie a b n = true ↔
      value B (f ∘ b) n < value B (f ∘ a) n ∨
        (tie = true ∧ value B (f ∘ a) n = value B (f ∘ b) n) := by
  induction n with
  | zero => simp [gtRev, value]
  | succ n ih =>
    rw [gtRev]
    split
    · rename_i hlt
      have := value_lt_value (d := f ∘ b) (e := f ∘ a) (n := n) (fun i _ => hB _)
        ((hf _ _).mp hlt)
      simp [this]
    · rename_i hge
      split
      · rename_i hlt
        have := value_lt_value (d := f ∘ a) (e := f ∘ b) (n := n) (fun i _ => hB _)
          ((hf _ _).mp hlt)
        simp only [Bool.false_eq_true, false_iff]
        omega
      · rename_i hle
        rw [hf] at hge hle
        have heq : f (a n) = f (b n) := by omega
        simp only [ih, value, Function.comp_apply, heq, Nat.add_lt_add_iff_right,
          Nat.add_right_cancel_iff]

/-- The bits of the digits are the bits of the number. -/
theorem testBit_value {w : ℕ} (hw : 0 < w) (hd : ∀ i < n, d i < 2 ^ w) (j : ℕ) :
    (value (2 ^ w) d n).testBit j = (decide (j < w * n) && (d (j / w)).testBit (j % w)) := by
  induction n with
  | zero => simp [value]
  | succ n ih =>
    have hlow : value (2 ^ w) d n < 2 ^ (w * n) := by
      rw [Nat.pow_mul]
      exact value_lt fun i hi => hd i (by omega)
    have hshape : value (2 ^ w) d (n + 1) = 2 ^ (w * n) * d n + value (2 ^ w) d n := by
      rw [value, ← Nat.pow_mul, Nat.mul_comm (d n), Nat.add_comm]
    rw [hshape, Nat.testBit_two_pow_mul_add _ hlow]
    have hmul : w * (n + 1) = w * n + w := Nat.mul_succ w n
    split
    · rename_i hj
      have hj' : j < w * (n + 1) := by omega
      rw [ih fun i hi => hd i (by omega)]
      simp [hj, hj']
    · rename_i hj
      by_cases hj' : j < w * (n + 1)
      · obtain ⟨k, rfl⟩ : ∃ k, j = w * n + k := ⟨j - w * n, by omega⟩
        have hk : k < w := by omega
        rw [Nat.mul_add_div hw, Nat.mul_add_mod, Nat.div_eq_of_lt hk, Nat.mod_eq_of_lt hk]
        simp [hj']
      · have htop : (d n).testBit (j - w * n) = false :=
          Nat.testBit_lt_two_pow ((hd n (by omega)).trans_le
            (Nat.pow_le_pow_right (by omega) (by omega)))
        simp [hj', htop]

/-! ### Bytes -/

@[simp] lemma leNat_nil : leNat [] = 0 := rfl

@[simp] lemma leNat_cons (b : UInt8) (l : List UInt8) :
    leNat (b :: l) = b.toNat + 256 * leNat l := Nat.ofDigits_cons ..

lemma leNat_append (a b : List UInt8) : leNat (a ++ b) = leNat a + 256 ^ a.length * leNat b := by
  rw [leNat, List.map_append, Nat.ofDigits_append, List.length_map]
  rfl

/-- The first byte of a number that is written big end first. -/
lemma leNat_reverse_cons (b : UInt8) (l : List UInt8) :
    leNat (b :: l).reverse = b.toNat * 256 ^ l.length + leNat l.reverse := by
  rw [List.reverse_cons, leNat_append, List.length_reverse, leNat_cons, leNat_nil]
  ring

@[simp] lemma leNat_replicate_zero (n : ℕ) : leNat (List.replicate n 0) = 0 := by
  induction n with
  | zero => rfl
  | succ n ih => simp [List.replicate_succ, ih]

lemma leNat_inj {a b : List UInt8} (hlen : a.length = b.length) (h : leNat a = leNat b) : a = b := by
  induction a generalizing b with
  | nil => exact (List.length_eq_zero_iff.mp hlen.symm).symm
  | cons x a ih =>
    obtain ⟨y, b, rfl⟩ := List.exists_cons_of_length_eq_add_one hlen.symm
    rw [leNat_cons, leNat_cons] at h
    have hx := UInt8.toNat_lt x
    have hy := UInt8.toNat_lt y
    rw [ih (by simpa using hlen) (by omega), UInt8.toNat_inj.mp (by omega : x.toNat = y.toNat)]

lemma leNat_eq_value (l : List UInt8) :
    leNat l = value 256 (fun i => (l.getD i 0).toNat) l.length := by
  induction l using List.reverseRecOn with
  | nil => rfl
  | append_singleton l b ih =>
    rw [leNat_append, List.length_append, List.length_singleton, value, ih]
    congr 1
    · exact value_congr fun i hi => by rw [List.getD_append _ _ _ _ hi]
    · simp [Nat.mul_comm]

/-- **Carrying adds.** -/
theorem leNat_addCarry (c : ℕ) (as bs : List UInt8) (hlen : as.length = bs.length) :
    leNat (addCarry c as bs) + (leNat as + leNat bs + c) / 256 ^ as.length * 256 ^ as.length =
      leNat as + leNat bs + c := by
  induction as generalizing c bs with
  | nil =>
    obtain rfl := List.length_eq_zero_iff.mp hlen.symm
    simp [addCarry]
  | cons a as ih =>
    obtain ⟨b, bs, rfl⟩ := List.exists_cons_of_length_eq_add_one hlen.symm
    have hrest := ih ((a.toNat + b.toNat + c) / 256) bs (by simpa using hlen)
    have hbyte : (UInt8.ofNat (a.toNat + b.toNat + c)).toNat = (a.toNat + b.toNat + c) % 256 :=
      UInt8.toNat_ofNat'
    have hdiv : (a.toNat + 256 * leNat as + (b.toNat + 256 * leNat bs) + c) / 256 =
        leNat as + leNat bs + (a.toNat + b.toNat + c) / 256 := by omega
    simp only [addCarry, leNat_cons, List.length_cons, hbyte, Nat.pow_succ',
      ← Nat.div_div_eq_div_mul, hdiv]
    generalize (leNat as + leNat bs + (a.toNat + b.toNat + c) / 256) / 256 ^ as.length = q at *
    have : q * (256 * 256 ^ as.length) = 256 * (q * 256 ^ as.length) := by ring
    omega

lemma length_addCarry (c : ℕ) (as bs : List UInt8) (hlen : as.length = bs.length) :
    (addCarry c as bs).length = as.length := by
  induction as generalizing c bs with
  | nil => simp [addCarry]
  | cons a as ih =>
    obtain ⟨b, bs, rfl⟩ := List.exists_cons_of_length_eq_add_one hlen.symm
    simp [addCarry, ih _ bs (by simpa using hlen)]

/-- A number and its complement make a string of ones. -/
lemma leNat_not (l : List UInt8) : leNat (l.map fun b => ~~~b) + leNat l + 1 = 256 ^ l.length := by
  induction l with
  | nil => rfl
  | cons b l ih =>
    have hb := UInt8.toNat_lt b
    have hnot : (~~~b).toNat = 255 - b.toNat := by
      rw [UInt8.toNat_not]
      rfl
    simp only [List.map_cons, leNat_cons, hnot, List.length_cons, Nat.pow_succ']
    omega

lemma toList_ofList {n : ℕ} {l : List UInt8} (h : l.length = n) : (ofList n l).toList = l := by
  subst h
  simp [ofList, Vector.toList]

/-- Padding with zeros above does not change the number. -/
lemma leNat_ofList {n : ℕ} {l : List UInt8} (h : l.length ≤ n) :
    leNat (ofList n l).toList = leNat l := by
  have hpad : (ofList n l).toList = l ++ List.replicate (n - l.length) 0 := by
    simp [ofList, Vector.toList, List.take_append, List.take_of_length_le h]
  rw [hpad, leNat_append, leNat_replicate_zero, Nat.mul_zero, Nat.add_zero]

lemma toList_slice {n off : ℕ} {d : List UInt8} (h : off + n ≤ d.length) :
    (slice n d off).toList = (d.drop off).take n := by
  rw [slice, ofList]
  simp only [Vector.toList_mk]
  rw [List.take_append_of_le_length (by rw [List.length_drop]; omega)]

@[simp] lemma leNat_zeros (n : ℕ) : leNat (zeros n).toList = 0 := by
  simp [zeros, Vector.toList, leNat_replicate_zero]

/-- Words of `w` bytes are the digits of the number in base `256 ^ w`. -/
lemma value_words {w n : ℕ} {d : List UInt8} (h : w * n ≤ d.length) :
    value (256 ^ w) (fun i => leNat (slice w d (w * i)).toList) n = leNat (d.take (w * n)) := by
  induction n with
  | zero => rfl
  | succ n ih =>
    rw [Nat.mul_succ] at h
    have hlen : (d.take (w * n)).length = w * n := by
      rw [List.length_take]
      omega
    rw [value, ih (by omega), toList_slice h, Nat.mul_succ, List.take_add, leNat_append, hlen,
      ← Nat.pow_mul, Nat.mul_comm (leNat _)]

end Utxopia.Positional
