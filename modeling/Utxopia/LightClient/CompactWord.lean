import Utxopia.LightClient.Retarget

/-!
A compact word as a number of three digits.

In base 256 a word keeps the size of a number and the digits at its top: three of them, or two where
the highest would read as a sign. Its mantissa has at least fifteen bits and at most twenty-three,
which is what fixes the size; so every number is written in one way, and larger numbers as larger
words.
-/

namespace Utxopia.LightClient.CompactWord

open Utxopia.ByteString Utxopia.Encoding Utxopia.Positional
open Utxopia.LightClient.U256 Utxopia.LightClient.Pow Utxopia.LightClient.Difficulty
open Utxopia.LightClient.Retarget

variable {n m k size mantissa s t bits : ℕ}

/-- A number as the size and the mantissa of a word. -/
structure Writes (n size mantissa : ℕ) : Prop where
  lt : mantissa < 2 ^ 23
  ge : n ≠ 0 → 2 ^ 15 ≤ mantissa
  zero : n = 0 → size = 0
  digits : n * 256 ^ 3 / 256 ^ size = mantissa

/-! ### Writing -/

lemma le_of_signed {m : ℕ} (h : m &&& 0x00800000 ≠ 0) : 2 ^ 23 ≤ m := by
  by_contra hlt
  rw [show 0x00800000 = 2 ^ 23 by rfl, Nat.and_two_pow, Nat.testBit_lt_two_pow (not_le.mp hlt)] at h
  exact h (by simp)

/-- The top digit is not zero. -/
lemma le_digits (hn : n ≠ 0) : 2 ^ 16 ≤ n * 256 ^ 3 / 256 ^ ((n.size + 7) / 8) := by
  have hsize : 0 < n.size := Nat.size_pos.mpr (Nat.pos_of_ne_zero hn)
  obtain ⟨k, hk⟩ : ∃ k, (n.size + 7) / 8 = k + 1 := ⟨(n.size + 7) / 8 - 1, by omega⟩
  have hge : 256 ^ k ≤ n := by
    rw [show (256 : ℕ) = 2 ^ 8 by rfl, ← Nat.pow_mul]
    exact Nat.lt_size.mp (by omega)
  rw [hk, Nat.le_div_iff_mul_le (by positivity)]
  calc 2 ^ 16 * 256 ^ (k + 1) = 256 ^ k * 256 ^ 3 := by ring
    _ ≤ n * 256 ^ 3 := Nat.mul_le_mul_right _ hge

theorem getCompact_writes (n : ℕ) :
    ∃ size mantissa, getCompact n = size <<< 24 ||| mantissa ∧ Writes n size mantissa := by
  have hlt : n < 256 ^ ((n.size + 7) / 8) := by
    rw [show (256 : ℕ) = 2 ^ 8 by rfl, ← Nat.pow_mul]
    exact Nat.size_le.mp (by omega)
  have hm := mantissa_lt hlt
  have hge := le_digits (n := n)
  have hzero : n = 0 → (n.size + 7) / 8 = 0 := by
    rintro rfl
    rfl
  unfold getCompact
  simp only [mantissa_eq] at hm ⊢
  generalize (n.size + 7) / 8 = size at *
  split_ifs with hsign
  · have htop := le_of_signed hsign
    refine ⟨size + 1, _, rfl, ?_, fun _ => ?_, fun h => ?_, ?_⟩
    · rw [Nat.shiftRight_eq_div_pow]
      omega
    · rw [Nat.shiftRight_eq_div_pow]
      omega
    · rw [h, Nat.zero_mul, Nat.zero_div] at htop
      omega
    · rw [Nat.shiftRight_eq_div_pow, Nat.div_div_eq_div_mul, Nat.pow_succ 256 size]
  · have hlow := lt_of_unsigned hm (not_not.mp hsign)
    exact ⟨size, _, rfl, hlow, fun hn => (by decide : 2 ^ 15 ≤ 2 ^ 16).trans (hge hn), hzero, rfl⟩

/-! ### Bounds -/

lemma Writes.lower (h : Writes n size mantissa) (hn : n ≠ 0) : 2 ^ 15 * 256 ^ size ≤ n * 256 ^ 3 := by
  rw [← Nat.le_div_iff_mul_le (by positivity), h.digits]
  exact h.ge hn

lemma Writes.upper (h : Writes n size mantissa) : n * 256 ^ 3 < 2 ^ 23 * 256 ^ size := by
  rw [← Nat.div_lt_iff_lt_mul (by positivity), h.digits]
  exact h.lt

/-- A smaller number has a bounded size. -/
lemma Writes.size_le_of_lt (h : Writes n size mantissa) (hlt : n < 2 ^ 15 * 256 ^ k) :
    size ≤ k + 2 := by
  by_contra hgt
  have hne : n ≠ 0 := fun hn => by
    have := h.zero hn
    omega
  have hlow := h.lower hne
  have hpow : 256 ^ (k + 3) ≤ 256 ^ size := Nat.pow_le_pow_right (by decide) (by omega)
  rw [Nat.pow_add] at hpow
  omega

lemma or_shiftRight {a b : ℕ} (hb : b < 2 ^ 24) : (a <<< 24 ||| b) >>> 24 = a := by
  rw [← Nat.shiftLeft_add_eq_or_of_lt hb, Nat.shiftLeft_eq, Nat.shiftRight_eq_div_pow]
  omega

lemma getCompact_shift_le (h : n < 2 ^ 15 * 256 ^ k) : getCompact n >>> 24 ≤ k + 2 := by
  obtain ⟨size, mantissa, hword, hw⟩ := getCompact_writes n
  rw [hword, or_shiftRight (hw.lt.trans (by decide))]
  exact hw.size_le_of_lt h

/-- A compact word of the network counts at most 29 bytes. -/
lemma calculateNextWorkRequired_shift (bits first last : ℕ) :
    calculateNextWorkRequired bits first last >>> 24 ≤ 29 :=
  getCompact_shift_le (k := 27) ((min_le_left ..).trans_lt (by decide))

/-! ### Order -/

/-- A larger number has no smaller size. -/
lemma Writes.size_le (hn : Writes n size mantissa) (hm : Writes m s t) (hle : n ≤ m) : size ≤ s := by
  by_contra hlt
  have hne : n ≠ 0 := fun h => hlt ((hn.zero h).trans_le (Nat.zero_le s))
  have hlow := hn.lower hne
  have hhigh := hm.upper
  have hpow : 256 ^ (s + 1) ≤ 256 ^ size := Nat.pow_le_pow_right (by decide) (by omega)
  rw [Nat.pow_succ] at hpow
  omega

lemma word_add (hm : mantissa < 2 ^ 23) : size <<< 24 ||| mantissa = size * 2 ^ 24 + mantissa := by
  rw [← Nat.shiftLeft_add_eq_or_of_lt (by omega), Nat.shiftLeft_eq]

/-- A larger number has no smaller word. -/
lemma Writes.word_le (hn : Writes n size mantissa) (hm : Writes m s t) (hle : n ≤ m) :
    size <<< 24 ||| mantissa ≤ s <<< 24 ||| t := by
  rw [word_add hn.lt, word_add hm.lt]
  have hmantissa := hn.lt
  rcases Nat.lt_or_eq_of_le (hn.size_le hm hle) with hlt | rfl
  · omega
  · have : mantissa ≤ t := by
      rw [← hn.digits, ← hm.digits]
      exact Nat.div_le_div_right (Nat.mul_le_mul_right _ hle)
    omega

/-- A number is written in one way. -/
lemma Writes.getCompact_eq (h : Writes n size mantissa) : getCompact n = size <<< 24 ||| mantissa := by
  obtain ⟨s, t, heq, hst⟩ := getCompact_writes n
  rw [heq]
  exact le_antisymm (hst.word_le h le_rfl) (h.word_le hst le_rfl)

theorem getCompact_mono (h : n ≤ m) : getCompact n ≤ getCompact m := by
  obtain ⟨_, _, hn, hwn⟩ := getCompact_writes n
  obtain ⟨_, _, hm, hwm⟩ := getCompact_writes m
  rw [hn, hm]
  exact hwn.word_le hwm h

/-! ### Reading -/

lemma and_word (hm : mantissa < 2 ^ 23) : (size <<< 24 ||| mantissa) &&& 0x007fffff = mantissa := by
  rw [and_mantissa, word_add hm]
  omega

lemma setCompact_word (hm : mantissa < 2 ^ 23) :
    setCompact (size <<< 24 ||| mantissa) = mantissa * 256 ^ size / 256 ^ 3 % 2 ^ 256 := by
  unfold setCompact
  rw [or_shiftRight (by omega), and_word hm]
  dsimp only
  split_ifs with hsmall
  · obtain ⟨d, hd⟩ : ∃ d, 3 = d + size := ⟨3 - size, by omega⟩
    have heq : mantissa >>> (8 * (3 - size)) = mantissa * 256 ^ size / 256 ^ 3 := by
      rw [Nat.shiftRight_eq_div_pow, Nat.pow_mul, show 3 - size = d by omega, hd, Nat.pow_add,
        Nat.mul_div_mul_right _ _ (by positivity)]
    rw [heq, Nat.mod_eq_of_lt]
    rw [← heq]
    exact (Nat.shiftRight_le ..).trans_lt (hm.trans (by decide))
  · obtain ⟨d, rfl⟩ : ∃ d, size = d + 3 := ⟨size - 3, by omega⟩
    rw [Nat.shiftLeft_eq, Nat.pow_mul, Nat.add_sub_cancel, Nat.pow_add, ← Nat.mul_assoc,
      Nat.mul_div_cancel _ (by positivity)]

/-- What is read back has the digits that were written, and zeros below. -/
lemma Writes.number (h : Writes n size mantissa) :
    mantissa * 256 ^ size / 256 ^ 3 = n / 256 ^ (size - 3) * 256 ^ (size - 3) := by
  rw [← h.digits]
  rcases le_or_gt size 3 with hsmall | hlarge
  · obtain ⟨d, hd⟩ : ∃ d, 3 = d + size := ⟨3 - size, by omega⟩
    rw [Nat.sub_eq_zero_of_le hsmall, Nat.pow_zero, Nat.div_one, Nat.mul_one]
    rw [Nat.div_mul_cancel, Nat.mul_div_cancel _ (by positivity)]
    exact (Nat.pow_dvd_pow 256 hsmall).mul_left n
  · obtain ⟨d, rfl⟩ : ∃ d, size = d + 3 := ⟨size - 3, by omega⟩
    rw [Nat.add_sub_cancel, Nat.pow_add, Nat.mul_div_mul_right _ _ (by positivity), ← Nat.mul_assoc,
      Nat.mul_div_cancel _ (by positivity)]

/-- Reading back clears the bytes below the digits. -/
theorem setCompact_getCompact (hlt : n < 2 ^ 256) : setCompact (getCompact n) =
    n / 256 ^ (getCompact n >>> 24 - 3) * 256 ^ (getCompact n >>> 24 - 3) := by
  obtain ⟨size, mantissa, hword, h⟩ := getCompact_writes n
  rw [hword, setCompact_word h.lt, h.number, or_shiftRight (h.lt.trans (by decide)), Nat.mod_eq_of_lt]
  exact (Nat.div_mul_le_self ..).trans_lt hlt

/-! ### Normal words -/

/-- What a word stands for, before it wraps. -/
def wordNumber (bits : ℕ) : ℕ := bits % 2 ^ 23 * 256 ^ (bits >>> 24) / 256 ^ 3

/-- A word that is not negative, keeps as many digits as it can and has none below the first byte. -/
structure Normal (bits : ℕ) : Prop where
  unsigned : bits &&& 0x00800000 = 0
  full : bits ≠ 0 → 0x00008000 ≤ bits &&& 0x007fffff
  whole : bits >>> 24 < 3 → 256 ^ (3 - bits >>> 24) ∣ bits &&& 0x007fffff

lemma unsigned_eq (h : bits &&& 0x00800000 = 0) : (bits >>> 24) <<< 24 ||| bits % 2 ^ 23 = bits := by
  have hlow : bits % 2 ^ 24 < 2 ^ 23 := by
    refine lt_of_unsigned (Nat.mod_lt _ (by decide)) ?_
    rw [← Nat.and_two_pow_sub_one_eq_mod, Nat.and_assoc]
    exact h
  rw [word_add (Nat.mod_lt _ (by decide)), Nat.shiftRight_eq_div_pow]
  omega

/-- A normal word is how its number is written. -/
theorem Normal.writes (h : Normal bits) :
    Writes (wordNumber bits) (bits >>> 24) (bits % 2 ^ 23) := by
  have hlt : bits % 2 ^ 23 < 2 ^ 23 := Nat.mod_lt _ (by decide)
  have hne : wordNumber bits ≠ 0 → bits ≠ 0 := fun hn hbits => hn (by rw [hbits]; rfl)
  have hsize : bits = 0 → bits >>> 24 = 0 := fun hbits => by rw [hbits]; rfl
  have hfull := h.full
  have hwhole := h.whole
  rw [and_mantissa] at hfull hwhole
  unfold wordNumber at *
  generalize bits >>> 24 = size at *
  generalize bits % 2 ^ 23 = mantissa at *
  have hdvd : 256 ^ 3 ∣ mantissa * 256 ^ size := by
    rcases Nat.lt_or_ge size 3 with hsmall | hlarge
    · have := Nat.mul_dvd_mul_right (hwhole hsmall) (256 ^ size)
      rwa [← Nat.pow_add, Nat.sub_add_cancel hsmall.le] at this
    · exact (Nat.pow_dvd_pow 256 hlarge).mul_left mantissa
  refine ⟨hlt, fun hn => hfull (hne hn), fun hzero => hsize ?_, ?_⟩
  · by_contra hbits
    have hmantissa := hfull hbits
    rw [Nat.div_eq_zero_iff_lt (by positivity)] at hzero
    have hpos : 0 < mantissa * 256 ^ size := Nat.mul_pos (by omega) (by positivity)
    exact absurd (Nat.le_of_dvd hpos hdvd) (not_le.mpr hzero)
  · rw [Nat.div_mul_cancel hdvd, Nat.mul_div_cancel _ (by positivity)]

/-- A normal word of a number that fits is read as that number. -/
lemma Normal.setCompact_eq (h : Normal bits) (hlt : wordNumber bits < 2 ^ 256) :
    setCompact bits = wordNumber bits := by
  conv_lhs => rw [← unsigned_eq h.unsigned]
  rw [setCompact_word h.writes.lt]
  exact Nat.mod_eq_of_lt hlt

/-- The words that numbers are written as are the normal ones. -/
theorem normal_getCompact (n : ℕ) : Normal (getCompact n) := by
  obtain ⟨size, mantissa, hword, h⟩ := getCompact_writes n
  have hshift : (size <<< 24 ||| mantissa) >>> 24 = size := or_shiftRight (h.lt.trans (by decide))
  rw [hword]
  refine ⟨?_, fun hne => ?_, fun hsmall => ?_⟩
  · have hbit : (size * 2 ^ 24 + mantissa) / 2 ^ 23 % 2 = 0 := by
      have := h.lt
      omega
    rw [show 0x00800000 = 2 ^ 23 by rfl, Nat.and_two_pow, Nat.testBit_eq_decide_div_mod_eq,
      word_add h.lt, hbit]
    rfl
  · rw [and_word h.lt]
    refine h.ge fun hn => hne ?_
    rw [h.zero hn, ← h.digits, hn, Nat.zero_mul, Nat.zero_div]
    rfl
  · rw [hshift] at hsmall ⊢
    rw [and_word h.lt, ← h.digits]
    obtain ⟨d, hd⟩ : ∃ d, 3 = d + size := ⟨3 - size, by omega⟩
    rw [show 3 - size = d by omega, hd, Nat.pow_add, ← Nat.mul_assoc,
      Nat.mul_div_cancel _ (by positivity)]
    exact Nat.dvd_mul_left ..

/-- A word stands for no more than the number it was written for. -/
lemma wordNumber_getCompact_le (n : ℕ) : wordNumber (getCompact n) ≤ n := by
  obtain ⟨size, mantissa, hword, h⟩ := getCompact_writes n
  rw [wordNumber, ← and_mantissa, hword, and_word h.lt, or_shiftRight (h.lt.trans (by decide)),
    h.number]
  exact Nat.div_mul_le_self ..

lemma setCompact_lt (bits : ℕ) : setCompact bits < 2 ^ 256 := by
  unfold setCompact
  dsimp only
  split_ifs
  · rw [and_mantissa]
    exact (Nat.shiftRight_le ..).trans_lt ((Nat.mod_lt _ (by decide)).trans (by decide))
  · exact Nat.mod_lt _ (by decide)

/-! ### Targets -/

/-- A byte of a target is a digit of its number. -/
lemma toNat_byteAt (target : Bytes 32) {i : ℕ} (hi : i < 32) :
    (byteAt target i).toNat = leNat target.toList / 256 ^ i % 256 := by
  rw [leNat_eq_bytes, value_digit (fun i _ => UInt8.toNat_lt _) hi]

lemma digit_cleared {i : ℕ} :
    n / 256 ^ k * 256 ^ k / 256 ^ i % 256 = if i < k then 0 else n / 256 ^ i % 256 := by
  split_ifs with hlt
  · obtain ⟨d, rfl⟩ : ∃ d, k = d + 1 + i := ⟨k - 1 - i, by omega⟩
    rw [Nat.pow_add _ _ i, ← Nat.mul_assoc, Nat.mul_div_cancel _ (by positivity), Nat.pow_succ,
      ← Nat.mul_assoc, Nat.mul_mod_left]
  · obtain ⟨d, rfl⟩ : ∃ d, i = k + d := ⟨i - k, by omega⟩
    rw [Nat.pow_add, ← Nat.div_div_eq_div_mul, Nat.mul_div_cancel _ (by positivity),
      Nat.div_div_eq_div_mul]

/-- A target that is written and read back. -/
theorem leNat_written (target : Bytes 32) (hlt : leNat target.toList < 2 ^ 255) :
    leNat (targetFromBits (bitsFromTarget target)).toList =
      leNat target.toList / 256 ^ (bitsFromTarget target >>> 24 - 3) *
        256 ^ (bitsFromTarget target >>> 24 - 3) := by
  have hsize : getCompact (leNat target.toList) >>> 24 ≤ 32 := getCompact_shift_le (k := 30) hlt
  rw [bitsFromTarget_eq, leNat_targetFromBits hsize, setCompact_getCompact (hlt.trans (by decide))]

/-- A normal word is written for the target read from it. -/
theorem Normal.written (h : Normal bits) (hlt : wordNumber bits < 2 ^ 255) :
    bitsFromTarget (targetFromBits bits) = bits := by
  have hsize : bits >>> 24 ≤ 32 := h.writes.size_le_of_lt (k := 30) hlt
  rw [bitsFromTarget_eq, leNat_targetFromBits hsize, h.setCompact_eq (hlt.trans (by decide)),
    h.writes.getCompact_eq, unsigned_eq h.unsigned]

/-- **The codec of targets**: a target below half of all numbers is read back with the bytes below
the digits of its word cleared, so as no larger target; a normal word of such a target is written
back; and a larger target has no smaller word. -/
theorem compact_codec :
    (∀ target : Bytes 32, leNat target.toList < 2 ^ 255 →
      leNat (targetFromBits (bitsFromTarget target)).toList ≤ leNat target.toList ∧
      ∀ i, byteAt (targetFromBits (bitsFromTarget target)) i =
        if i < bitsFromTarget target >>> 24 - 3 then 0 else byteAt target i) ∧
    (∀ bits, Normal bits → wordNumber bits < 2 ^ 255 →
      bitsFromTarget (targetFromBits bits) = bits) ∧
    ∀ t u : Bytes 32, leNat t.toList ≤ leNat u.toList → bitsFromTarget t ≤ bitsFromTarget u := by
  refine ⟨fun target hlt => ⟨?_, fun i => ?_⟩, fun bits h hlt => h.written hlt, fun t u hle => ?_⟩
  · rw [leNat_written target hlt]
    exact Nat.div_mul_le_self ..
  · by_cases hi : i < 32
    · rw [← UInt8.toNat_inj, toNat_byteAt _ hi, leNat_written target hlt, digit_cleared]
      split_ifs
      · rfl
      · exact (toNat_byteAt target hi).symm
    · simp [byteAt, hi]
  · rw [bitsFromTarget_eq, bitsFromTarget_eq]
    exact getCompact_mono hle

/-- The bits of the first block, a word of a small target with the top bit set, and the two targets. -/
theorem compact_codec_genesis :
    leNat (targetFromBits (bitsFromTarget (toLe 32 (2 ^ 224 - 1)))).toList ≤
      leNat (toLe 32 (2 ^ 224 - 1)).toList ∧
    byteAt (targetFromBits (bitsFromTarget (toLe 32 (2 ^ 224 - 1)))) 27 =
      byteAt (toLe 32 (2 ^ 224 - 1)) 27 ∧
    bitsFromTarget (targetFromBits 0x1d00ffff) = 0x1d00ffff ∧
    bitsFromTarget (targetFromBits 0x02008000) = 0x02008000 ∧
    bitsFromTarget (toLe 32 0x80) ≤ bitsFromTarget (toLe 32 (2 ^ 224 - 1)) := by
  obtain ⟨hread, hwrite, hmono⟩ := compact_codec
  have hlimit := hread (toLe 32 (2 ^ 224 - 1)) (by decide +kernel)
  have hkept : ¬ 27 < bitsFromTarget (toLe 32 (2 ^ 224 - 1)) >>> 24 - 3 := by decide +kernel
  have hnormal : Normal 0x1d00ffff := ⟨by decide, by decide, by decide⟩
  have hsmall : Normal 0x02008000 := ⟨by decide, by decide, by decide⟩
  refine ⟨hlimit.1, ?_, hwrite _ hnormal (by decide +kernel), hwrite _ hsmall (by decide +kernel),
    hmono _ _ (by decide +kernel)⟩
  rw [hlimit.2 27, if_neg hkept]

end Utxopia.LightClient.CompactWord
