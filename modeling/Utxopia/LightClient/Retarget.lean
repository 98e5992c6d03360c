import Mathlib.Data.Nat.Size
import Utxopia.LightClient.Difficulty
import Utxopia.LightClient.Work

/-!
The retarget as arithmetic of numbers.

A compact word is a small floating-point number: a byte that counts the bytes of the number, and
the top three of them. The network reads the old target from its word, scales it by the time the
epoch took, caps it and writes it back; the client does so on limbs and bytes.
-/

namespace Utxopia.LightClient.Retarget

open Utxopia.ByteString Utxopia.Encoding Utxopia.Positional
open Utxopia.LightClient.U256 Utxopia.LightClient.Pow Utxopia.LightClient.Work
open Utxopia.LightClient.Difficulty

/-! ### What the network computes -/

/-- The number of a compact word. -/
def setCompact (word : ℕ) : ℕ :=
  let size := word >>> 24
  let mantissa := word &&& 0x007fffff
  if size ≤ 3 then mantissa >>> (8 * (3 - size)) else (mantissa <<< (8 * (size - 3))) % 2 ^ 256

/-- The compact word of a number; a top byte that would read as a sign is moved down. -/
def getCompact (n : ℕ) : ℕ :=
  let size := (n.size + 7) / 8
  let mantissa := if size ≤ 3 then n <<< (8 * (3 - size)) else n >>> (8 * (size - 3))
  if mantissa &&& 0x00800000 ≠ 0 then (size + 1) <<< 24 ||| mantissa >>> 8
  else size <<< 24 ||| mantissa

def powLimit : ℕ := 2 ^ 224 - 1

/-- The time from the first block of an epoch to its last, in the limits of one adjustment. -/
def clampedTimespan (first last : ℕ) : ℤ :=
  max (targetTimespan / 4) (min ((last : ℤ) - first) (targetTimespan * 4))

def calculateNextWorkRequired (bits first last : ℕ) : ℕ :=
  getCompact (min powLimit
    (setCompact bits * (clampedTimespan first last).toNat % 2 ^ 256 / targetTimespan))

/-! ### Multiplication and division by a word -/

theorem val_u256MulU32 (a : Limbs) (b : ℕ) : val (u256MulU32 a b) = val a * b % 2 ^ 256 := by
  obtain ⟨a0, a1, a2, a3, rfl⟩ := exists_limbs a
  have hval : val (u256MulU32 #v[a0, a1, a2, a3] b) = val #v[
      UInt64.ofNat (a0.toNat * b + 0),
      UInt64.ofNat (a1.toNat * b + (a0.toNat * b + 0) / 2 ^ 64),
      UInt64.ofNat (a2.toNat * b + (a1.toNat * b + (a0.toNat * b + 0) / 2 ^ 64) / 2 ^ 64),
      UInt64.ofNat (a3.toNat * b + (a2.toNat * b + (a1.toNat * b + (a0.toNat * b + 0) / 2 ^ 64) /
        2 ^ 64) / 2 ^ 64)] := by
    rw [u256MulU32, foldl_four]
    rfl
  rw [hval, val_mk, val_mk]
  simp only [UInt64.toNat_ofNat', Nat.add_mul, Nat.mul_right_comm _ _ b, Nat.add_zero]
  generalize a0.toNat * b = p0
  generalize a1.toNat * b = p1
  generalize a2.toNat * b = p2
  generalize a3.toNat * b = p3
  omega

/-- The quotient of a remainder and a limb is a limb. -/
lemma quotient_lt {r b : ℕ} (h : r < b) (x : UInt64) : (r * 2 ^ 64 + x.toNat) / b < 2 ^ 64 := by
  have hx := UInt64.toNat_lt x
  rw [Nat.div_lt_iff_lt_mul (by omega)]
  calc r * 2 ^ 64 + x.toNat < (r + 1) * 2 ^ 64 := by omega
    _ ≤ b * 2 ^ 64 := Nat.mul_le_mul_right _ h
    _ = 2 ^ 64 * b := Nat.mul_comm ..

theorem val_u256DivU32 (a : Limbs) {b : ℕ} (hb : 0 < b) : val (u256DivU32 a b) = val a / b := by
  obtain ⟨a0, a1, a2, a3, rfl⟩ := exists_limbs a
  obtain ⟨d3, hd3⟩ : ∃ d, d = 0 * 2 ^ 64 + a3.toNat := ⟨_, rfl⟩
  obtain ⟨d2, hd2⟩ : ∃ d, d = d3 % b * 2 ^ 64 + a2.toNat := ⟨_, rfl⟩
  obtain ⟨d1, hd1⟩ : ∃ d, d = d2 % b * 2 ^ 64 + a1.toNat := ⟨_, rfl⟩
  obtain ⟨d0, hd0⟩ : ∃ d, d = d1 % b * 2 ^ 64 + a0.toNat := ⟨_, rfl⟩
  have hval : val (u256DivU32 #v[a0, a1, a2, a3] b) = val #v[UInt64.ofNat (d0 / b),
      UInt64.ofNat (d1 / b), UInt64.ofNat (d2 / b), UInt64.ofNat (d3 / b)] := by
    rw [u256DivU32, foldl_four, hd0, hd1, hd2, hd3]
    rfl
  have h3 : d3 / b < 2 ^ 64 := hd3 ▸ quotient_lt hb a3
  have h2 : d2 / b < 2 ^ 64 := hd2 ▸ quotient_lt (Nat.mod_lt _ hb) a2
  have h1 : d1 / b < 2 ^ 64 := hd1 ▸ quotient_lt (Nat.mod_lt _ hb) a1
  have h0 : d0 / b < 2 ^ 64 := hd0 ▸ quotient_lt (Nat.mod_lt _ hb) a0
  rw [hval, val_mk, val_mk, UInt64.toNat_ofNat', UInt64.toNat_ofNat', UInt64.toNat_ofNat',
    UInt64.toNat_ofNat', Nat.mod_eq_of_lt h0, Nat.mod_eq_of_lt h1, Nat.mod_eq_of_lt h2,
    Nat.mod_eq_of_lt h3]
  -- what is left after the last limb is the remainder
  refine (((Nat.div_mod_unique hb).mpr ⟨?_, Nat.mod_lt d0 hb⟩).1).symm
  have e3 := Nat.div_add_mod d3 b
  have e2 := Nat.div_add_mod d2 b
  have e1 := Nat.div_add_mod d1 b
  have e0 := Nat.div_add_mod d0 b
  simp only [Nat.mul_add, ← Nat.mul_assoc]
  omega

/-- **The arithmetic of the light client is exact**: sums and products wrap at `2 ^ 256`, quotients
are rounded down. The work of a block is the quotient of `2 ^ 256`, which is not itself a number of
four limbs. -/
theorem u256_exact :
    (∀ a b : Limbs, val (u256Add a b) = (val a + val b) % 2 ^ 256) ∧
    (∀ (a : Limbs) (b : ℕ), val (u256MulU32 a b) = val a * b % 2 ^ 256) ∧
    (∀ a b : Limbs, 0 < val b → val (u256Div a b) = val a / val b) ∧
    (∀ (a : Limbs) (b : ℕ), 0 < b → val (u256DivU32 a b) = val a / b) ∧
    ∀ bits, 0 < leNat (targetFromBits bits).toList →
      leNat (calculateChainwork bits).toList =
        2 ^ 256 / (leNat (targetFromBits bits).toList + 1) := by
  refine ⟨val_u256Add, val_u256MulU32, fun a b hb => val_u256Div hb,
    fun a b hb => val_u256DivU32 a hb, fun bits hpos => ?_⟩
  rw [leNat_calculateChainwork]
  apply Nat.mod_eq_of_lt
  calc 2 ^ 256 / (leNat (targetFromBits bits).toList + 1) ≤ 2 ^ 256 / 2 :=
        Nat.div_le_div_left (by omega) (by decide)
    _ < 2 ^ 256 := by decide

/-- The easiest bits, and a division by three limbs. -/
theorem u256_exact_regtest :
    leNat (calculateChainwork 0x207fffff).toList =
      2 ^ 256 / (leNat (targetFromBits 0x207fffff).toList + 1) ∧
    val (u256Div #v[1, 2, 3, 4] #v[5, 6, 7, 0]) = val #v[1, 2, 3, 4] / val #v[5, 6, 7, 0] ∧
    val (u256DivU32 #v[1, 2, 3, 4] 1209600) = val #v[1, 2, 3, 4] / 1209600 := by
  obtain ⟨-, -, hdiv, hword, hwork⟩ := u256_exact
  exact ⟨hwork _ (by decide +kernel), hdiv _ _ (by decide +kernel), hword _ _ (by decide)⟩

/-! ### Comparison -/

lemma leNat_eq_bytes {n : ℕ} (v : Bytes n) :
    leNat v.toList = value 256 (fun i => (byteAt v i).toNat) n := by
  rw [leNat_eq_value, Vector.length_toList]
  refine value_congr fun i hi => ?_
  simp [byteAt, hi]

lemma u256GtBytes_iff {a b : Bytes 32} :
    u256GtBytes a b = true ↔ leNat b.toList < leNat a.toList := by
  rw [u256GtBytes, gtRev_iff (fun _ _ => UInt8.lt_iff_toNat_lt) (fun x => UInt8.toNat_lt x), leNat_eq_bytes,
    leNat_eq_bytes]
  simp only [Bool.false_eq_true, false_and, or_false]
  rfl

lemma hashMeetsTarget_iff {hash target : Bytes 32} :
    hashMeetsTarget hash target = true ↔ leNat hash.toList ≤ leNat target.toList := by
  rw [hashMeetsTarget, gtRev_iff (fun _ _ => UInt8.lt_iff_toNat_lt) (fun x => UInt8.toNat_lt x),
    leNat_eq_bytes, leNat_eq_bytes, eq_self, true_and, le_iff_lt_or_eq,
    eq_comm (a := value 256 (fun i => (byteAt hash i).toNat) 32)]
  rfl

/-! ### Compact words -/

lemma and_mantissa (n : ℕ) : n &&& 0x007fffff = n % 2 ^ 23 := Nat.and_two_pow_sub_one_eq_mod n 23

lemma leNat_leBytes_lt {n v : ℕ} (h : v < 256 ^ n) : leNat (leBytes n v) = v := by
  rw [leNat_leBytes, Nat.mod_eq_of_lt h]

/-- The target of a word is its number. -/
theorem leNat_targetFromBits {bits : ℕ} (h : bits >>> 24 ≤ 32) :
    leNat (targetFromBits bits).toList = setCompact bits := by
  have hexp : (bits >>> 24) &&& 0xff = bits >>> 24 := by
    rw [Nat.and_two_pow_sub_one_eq_mod _ 8, Nat.mod_eq_of_lt (by omega)]
  unfold targetFromBits setCompact
  simp only [hexp, and_mantissa]
  generalize bits >>> 24 = size at h
  have hm : bits % 2 ^ 23 < 2 ^ 23 := Nat.mod_lt _ (by decide)
  generalize bits % 2 ^ 23 = mantissa at hm
  by_cases hsize : size ≤ 3
  · rw [if_pos hsize, if_pos hsize, leNat_ofList (by simp), leNat_leBytes_lt]
    have := Nat.shiftRight_le mantissa (8 * (3 - size))
    omega
  · rw [if_neg hsize, if_neg hsize, if_pos (by omega), leNat_ofList (by simp; omega), leNat_append,
      leNat_replicate_zero, leNat_leBytes_lt (by omega), List.length_replicate, Nat.zero_add,
      Nat.shiftLeft_eq, Nat.mod_eq_of_lt, Nat.mul_comm, Nat.pow_mul]
    calc mantissa * 2 ^ (8 * (size - 3)) < 2 ^ 23 * 2 ^ (8 * (size - 3)) :=
          Nat.mul_lt_mul_of_pos_right hm (by positivity)
      _ ≤ 2 ^ 23 * 2 ^ 232 := Nat.mul_le_mul_left _ (Nat.pow_le_pow_right (by decide) (by omega))
      _ < 2 ^ 256 := by decide

/-- The highest nonzero byte is at `significant`. -/
lemma significant_spec (target : Bytes 32) (n : ℕ) :
    significant target n ≤ n ∧
      value 256 (fun i => (byteAt target i).toNat) n < 256 ^ significant target n ∧
      (significant target n ≠ 0 →
        256 ^ (significant target n - 1) ≤ value 256 (fun i => (byteAt target i).toNat) n) := by
  induction n with
  | zero => exact ⟨le_rfl, by simp [value, significant], fun h => absurd rfl h⟩
  | succ n ih =>
    rw [significant, value]
    by_cases hzero : byteAt target n = 0
    · rw [if_pos hzero, hzero, UInt8.toNat_zero, Nat.zero_mul, Nat.add_zero]
      exact ⟨ih.1.trans (Nat.le_succ n), ih.2⟩
    · rw [if_neg hzero]
      have hpos : 0 < (byteAt target n).toNat :=
        Nat.pos_of_ne_zero fun h => hzero (UInt8.toNat_inj.mp h)
      refine ⟨le_rfl, value_lt (n := n + 1) fun i _ => UInt8.toNat_lt _, fun _ => ?_⟩
      rw [Nat.add_sub_cancel]
      exact (Nat.le_mul_of_pos_left _ hpos).trans (Nat.le_add_left ..)

/-- The bytes up to the highest nonzero one are the bytes of the number. -/
lemma significant_eq (target : Bytes 32) :
    significant target 32 = ((leNat target.toList).size + 7) / 8 := by
  obtain ⟨-, hlt, hle⟩ := significant_spec target 32
  rw [← leNat_eq_bytes] at hlt hle
  generalize significant target 32 = size at *
  generalize leNat target.toList = n at *
  have hsize : n.size ≤ 8 * size := Nat.size_le.mpr (by rwa [Nat.pow_mul])
  rcases Nat.eq_zero_or_pos size with rfl | hpos
  · omega
  · have hgt : 8 * (size - 1) < n.size := Nat.lt_size.mpr (by rw [Nat.pow_mul]; exact hle (by omega))
    omega

/-- Digits above a number that fits are zero. -/
lemma value_of_lt {d : ℕ → ℕ} {s m : ℕ} (hs : s ≤ m) (h : value 256 d m < 256 ^ s) :
    value 256 d m = value 256 d s := by
  induction m with
  | zero => rw [Nat.le_zero.mp hs]
  | succ m ih =>
    rcases Nat.lt_or_ge m s with hlt | hge
    · rw [show s = m + 1 by omega]
    · rw [value] at h ⊢
      have hzero : d m = 0 := by
        by_contra hne
        have hbig : 256 ^ s ≤ d m * 256 ^ m :=
          (Nat.pow_le_pow_right (by decide) hge).trans
            (Nat.le_mul_of_pos_left _ (Nat.pos_of_ne_zero hne))
        omega
      rw [hzero, Nat.zero_mul, Nat.add_zero] at h ⊢
      exact ih hge h

lemma or_bytes {a b c : ℕ} (hb : b < 256) (hc : c < 256) :
    a <<< 16 ||| b <<< 8 ||| c = a * 2 ^ 16 + b * 2 ^ 8 + c := by
  have hlow : b <<< 8 ||| c = b <<< 8 + c := (Nat.shiftLeft_add_eq_or_of_lt (by omega) b).symm
  have hbig : b <<< 8 + c < 2 ^ 16 := by
    rw [Nat.shiftLeft_eq]
    omega
  rw [Nat.or_assoc, hlow, ← Nat.shiftLeft_add_eq_or_of_lt hbig, Nat.shiftLeft_eq, Nat.shiftLeft_eq,
    Nat.add_assoc]

/-- The top three bytes are those of the number. -/
lemma topMantissa_eq (target : Bytes 32) {size n : ℕ} (hsize : size ≤ 32)
    (hn : leNat target.toList = n) (hlt : n < 256 ^ size) : topMantissa target size =
      if size ≤ 3 then n <<< (8 * (3 - size)) else n >>> (8 * (size - 3)) := by
  unfold topMantissa
  split_ifs with hsmall
  · have happend := leNat_append (target.toList.take size) (target.toList.drop size)
    rw [List.take_append_drop, hn, List.length_take, Vector.length_toList, min_eq_left hsize] at happend
    rcases Nat.eq_zero_or_pos (leNat (target.toList.drop size)) with hzero | hpos
    · rw [happend, hzero, Nat.mul_zero, Nat.add_zero]
    · have := Nat.le_mul_of_pos_right (256 ^ size) hpos
      omega
  · obtain ⟨k, rfl⟩ : ∃ k, size = k + 3 := ⟨size - 3, by omega⟩
    rw [leNat_eq_bytes] at hn
    have hvalue : n = value 256 (fun i => (byteAt target i).toNat) (k + 3) := by
      rw [← hn] at hlt ⊢
      exact value_of_lt hsize hlt
    simp only [value] at hvalue
    have hk : value 256 (fun i => (byteAt target i).toNat) k < 256 ^ k :=
      value_lt fun i _ => UInt8.toNat_lt _
    have h0 := UInt8.toNat_lt (byteAt target k)
    have h1 := UInt8.toNat_lt (byteAt target (k + 1))
    rw [show k + 3 - 1 = k + 2 by omega, show k + 3 - 2 = k + 1 by omega, show k + 3 - 3 = k by omega,
      or_bytes h1 h0, Nat.shiftRight_eq_div_pow, Nat.pow_mul]
    refine (Nat.div_eq_of_lt_le ?_ ?_).symm <;>
    · rw [hvalue, Nat.pow_add, Nat.pow_add]
      generalize 256 ^ k = p at *
      generalize value 256 (fun i => (byteAt target i).toNat) k = v at *
      generalize (byteAt target (k + 2)).toNat = x
      generalize (byteAt target (k + 1)).toNat = y at *
      generalize (byteAt target k).toNat = z at *
      ring_nf
      omega

/-- The three digits below the size, whatever the size. -/
lemma mantissa_eq (n size : ℕ) :
    (if size ≤ 3 then n <<< (8 * (3 - size)) else n >>> (8 * (size - 3))) =
      n * 256 ^ 3 / 256 ^ size := by
  split_ifs with hsmall
  · obtain ⟨d, hd⟩ : ∃ d, 3 = d + size := ⟨3 - size, by omega⟩
    rw [Nat.shiftLeft_eq, Nat.pow_mul, show 3 - size = d by omega, hd, Nat.pow_add, ← Nat.mul_assoc,
      Nat.mul_div_cancel _ (by positivity)]
  · obtain ⟨d, rfl⟩ : ∃ d, size = d + 3 := ⟨size - 3, by omega⟩
    rw [Nat.shiftRight_eq_div_pow, Nat.pow_mul, Nat.add_sub_cancel, Nat.pow_add,
      Nat.mul_div_mul_right _ _ (by positivity)]

/-- The three bytes below a size fit. -/
lemma mantissa_lt {size n : ℕ} (hlt : n < 256 ^ size) :
    (if size ≤ 3 then n <<< (8 * (3 - size)) else n >>> (8 * (size - 3))) < 2 ^ 24 := by
  rw [mantissa_eq, Nat.div_lt_iff_lt_mul (by positivity), Nat.mul_comm]
  exact Nat.mul_lt_mul_of_pos_left hlt (by decide)

/-- A mantissa whose top bit is not set has 23 bits. -/
lemma lt_of_unsigned {m : ℕ} (hm : m < 2 ^ 24) (h : m &&& 0x00800000 = 0) : m < 2 ^ 23 := by
  by_contra hge
  have hbit : m.testBit 23 = true := by
    rw [Nat.testBit_eq_decide_div_mod_eq, decide_eq_true_eq]
    omega
  have htop : (m &&& 0x00800000).testBit 23 = true := by
    rw [Nat.testBit_and, hbit]
    decide
  rw [h, Nat.zero_testBit] at htop
  exact absurd htop (by simp)

/-- **Writing a target** gives the compact word of its number. -/
theorem bitsFromTarget_eq (target : Bytes 32) :
    bitsFromTarget target = getCompact (leNat target.toList) := by
  obtain ⟨hle, hlt, -⟩ := significant_spec target 32
  rw [← leNat_eq_bytes] at hlt
  have hmantissa := topMantissa_eq target hle rfl hlt
  have hm := mantissa_lt hlt
  unfold bitsFromTarget getCompact
  simp only [hmantissa, ← significant_eq]
  generalize leNat target.toList = n at *
  generalize significant target 32 = size at *
  by_cases hzero : size = 0
  · subst hzero
    obtain rfl : n = 0 := by omega
    rfl
  · rw [if_neg hzero]
    generalize (if size ≤ 3 then n <<< (8 * (3 - size)) else n >>> (8 * (size - 3))) = m at hm
    rw [and_mantissa, and_mantissa]
    split_ifs with hsign
    · rw [Nat.mod_eq_of_lt]
      rw [Nat.shiftRight_eq_div_pow]
      omega
    · rw [Nat.mod_eq_of_lt (lt_of_unsigned hm (not_not.mp hsign))]

/-- Everything from the largest compact target up to the limit has the word of the limit. -/
lemma getCompact_top {n : ℕ} (hle : 0xffff * 2 ^ 208 ≤ n) (hlt : n < 2 ^ 224) :
    getCompact n = maxTargetBits := by
  have hsize : n.size = 224 :=
    le_antisymm (Nat.size_le.mpr hlt) (Nat.lt_size.mpr (by omega))
  have htop : n >>> 200 / 256 = 0xffff := by
    rw [Nat.shiftRight_eq_div_pow]
    omega
  have hsign : n >>> 200 &&& 0x00800000 ≠ 0 := fun h => by
    have := lt_of_unsigned (by rw [Nat.shiftRight_eq_div_pow]; omega) h
    omega
  unfold getCompact
  rw [hsize]
  change (if n >>> 200 &&& 0x00800000 ≠ 0 then (28 + 1) <<< 24 ||| n >>> 200 >>> 8
    else 28 <<< 24 ||| n >>> 200) = _
  rw [if_pos hsign, Nat.shiftRight_eq_div_pow _ 8, htop]
  rfl

/-- **The retarget** of the client is the network's. -/
theorem calculateNewBits_eq {bits first last : ℕ} (h : bits >>> 24 ≤ 29) :
    calculateNewBits bits (last - first) = calculateNextWorkRequired bits first last := by
  have htime : max (targetTimespan / 4) (min (last - first) (targetTimespan * 4)) =
      (clampedTimespan first last).toNat := by
    unfold clampedTimespan targetTimespan
    omega
  have hnew : leNat (u256ToLeBytes (u256DivU32 (u256MulU32 (u256FromLeBytes (targetFromBits bits))
      (clampedTimespan first last).toNat) targetTimespan)).toList =
      setCompact bits * (clampedTimespan first last).toNat % 2 ^ 256 / targetTimespan := by
    rw [leNat_u256ToLeBytes, val_u256DivU32 _ (by decide), val_u256MulU32, val_u256FromLeBytes,
      leNat_targetFromBits (h.trans (by decide))]
  have hmax : leNat (targetFromBits maxTargetBits).toList = 0xffff * 2 ^ 208 := by decide +kernel
  unfold calculateNewBits calculateNextWorkRequired
  simp only [htime]
  generalize u256ToLeBytes (u256DivU32 (u256MulU32 (u256FromLeBytes (targetFromBits bits))
    (clampedTimespan first last).toNat) targetTimespan) = target at *
  rw [← hnew, bitsFromTarget_eq]
  by_cases hgt : u256GtBytes target (targetFromBits maxTargetBits) = true
  · rw [if_pos hgt, hmax, getCompact_top le_rfl (by decide)]
    rw [u256GtBytes_iff, hmax] at hgt
    refine (getCompact_top (le_min (by decide) hgt.le) ?_).symm
    exact (min_le_left ..).trans_lt (by decide)
  · rw [if_neg hgt]
    rw [u256GtBytes_iff, hmax] at hgt
    rw [min_eq_right]
    exact (not_lt.mp hgt).trans (by decide)

end Utxopia.LightClient.Retarget
