import Mathlib.Tactic.NormNum.Prime
import Utxopia.Lib.Primality
import Utxopia.LightClient.Work
import Utxopia.Pool.Deposit

/-!
A taproot output key by way of a signature recovery.

The key of a signature `(r, s)` on a message is `r⁻¹ (s R - m G)`. With the internal key for `r` and
`s` and the message `- t r` it is the internal key plus `t G`, which is the output key.
-/

namespace Utxopia.Pool.Secp256k1

open Utxopia.ByteString Utxopia.Check Utxopia.Encoding Utxopia.Positional Utxopia.Primality
open Utxopia.LightClient.U256 Utxopia.LightClient.Work

/-! ### Arithmetic on limbs -/

def secp256k1N : Bytes 32 := ofList 32
  [0xFF, 0xFF, 0xFF, 0xFF, 0xFF, 0xFF, 0xFF, 0xFF, 0xFF, 0xFF, 0xFF, 0xFF, 0xFF, 0xFF, 0xFF, 0xFE,
   0xBA, 0xAE, 0xDC, 0xE6, 0xAF, 0x48, 0xA0, 0x3B, 0xBF, 0xD2, 0x5E, 0x8C, 0xD0, 0x36, 0x41, 0x41]

/-- A number of big-endian bytes. -/
def beNat (d : List UInt8) : ℕ := leNat d.reverse

def u256FromBe (bytes : Bytes 32) : Limbs :=
  Vector.ofFn fun i => UInt64.ofNat (beNat (slice 8 bytes.toList (24 - 8 * i)).toList)

def u256ToBe (a : Limbs) : Bytes 32 :=
  ofList 32 ([3, 2, 1, 0].flatMap fun i => (leBytes 8 (limb a i).toNat).reverse)

/-- The sum of the limbs and the last carry. -/
def addLoop (a b : Limbs) : Limbs × UInt64 :=
  Fin.foldl 4 (fun (acc : Limbs × UInt64) i =>
    let s1 := overflowingAdd (a.get i) (b.get i)
    let s2 := overflowingAdd s1.1 acc.2
    (acc.1.setIfInBounds i s2.1, s1.2 + s2.2)) (Vector.replicate 4 0, 0)

/-- `a + b` and whether it overflows. -/
def u256AddCarry (a b : Limbs) : Limbs × Bool := ((addLoop a b).1, decide ((addLoop a b).2 ≠ 0))

/-- `(a + b) mod n`. -/
def u256Addmod (a b n : Limbs) : Limbs :=
  let sum := u256AddCarry a b
  if sum.2 || u256Gte sum.1 n then u256Sub sum.1 n else sum.1

/-- Double, and add `b` where the bit of `a` is set. -/
def mulmodBit (a b n : Limbs) (limbIdx : ℕ) (result : Limbs) (bit : ℕ) : Limbs :=
  let doubled := u256Addmod result result n
  if (limb a limbIdx >>> UInt64.ofNat bit) &&& 1 = 1 then u256Addmod doubled b n else doubled

def mulmodLimb (a b n : Limbs) (result : Limbs) (limbIdx : ℕ) : Limbs :=
  (List.range 64).reverse.foldl (mulmodBit a b n limbIdx) result

/-- `(a * b) mod n`, from the highest bit of `a` down. -/
def u256Mulmod (a b n : Limbs) : Limbs :=
  (List.range 4).reverse.foldl (mulmodLimb a b n) (Vector.replicate 4 0)

/-- `n - a`, or zero. -/
def u256Negmod (a n : Limbs) : Limbs :=
  if a = Vector.replicate 4 0 then Vector.replicate 4 0 else u256Sub n a

/-! ### What the operations compute -/

section Arithmetic

variable {a b n r : Limbs}

lemma val_get (v : Limbs) : val v = (v.get 0).toNat + (v.get 1).toNat * 2 ^ 64 +
    (v.get 2).toNat * 2 ^ 128 + (v.get 3).toNat * 2 ^ 192 := val_eq v

lemma addLoop_eq (a b : Limbs) : ∃ x0 x1 x2 x3,
    x0 = addLimb (a.get 0) (b.get 0) 0 ∧ x1 = addLimb (a.get 1) (b.get 1) x0.2 ∧
      x2 = addLimb (a.get 2) (b.get 2) x1.2 ∧ x3 = addLimb (a.get 3) (b.get 3) x2.2 ∧
      addLoop a b = (#v[x0.1, x1.1, x2.1, x3.1], x3.2) := by
  refine ⟨_, _, _, _, rfl, rfl, rfl, rfl, ?_⟩
  have hstep : addLoop a b = Fin.foldl 4 (fun (acc : Limbs × UInt64) i =>
      (acc.1.setIfInBounds i (addLimb (a.get i) (b.get i) acc.2).1,
        (addLimb (a.get i) (b.get i) acc.2).2)) (Vector.replicate 4 0, 0) := rfl
  rw [hstep, foldl_four]
  refine Prod.ext ?_ rfl
  rfl

lemma val_addLoop (a b : Limbs) :
    val (addLoop a b).1 + (addLoop a b).2.toNat * 2 ^ 256 = val a + val b ∧
      (addLoop a b).2.toNat ≤ 1 := by
  obtain ⟨x0, x1, x2, x3, hx0, hx1, hx2, hx3, heq⟩ := addLoop_eq a b
  obtain ⟨h0, hc0⟩ := addLimb_spec (a.get 0) (b.get 0) (c := 0) (by simp)
  rw [← hx0] at h0 hc0
  obtain ⟨h1, hc1⟩ := addLimb_spec (a.get 1) (b.get 1) hc0
  rw [← hx1] at h1 hc1
  obtain ⟨h2, hc2⟩ := addLimb_spec (a.get 2) (b.get 2) hc1
  rw [← hx2] at h2 hc2
  obtain ⟨h3, hc3⟩ := addLimb_spec (a.get 3) (b.get 3) hc2
  rw [← hx3] at h3 hc3
  have hval := val_mk x0.1 x1.1 x2.1 x3.1
  have hcarry : (addLoop a b).2 = x3.2 := by rw [heq]
  have hsum : (addLoop a b).1 = #v[x0.1, x1.1, x2.1, x3.1] := by rw [heq]
  rw [hcarry, hsum, hval, val_get a, val_get b]
  rw [UInt64.toNat_zero] at h0
  omega

lemma carry_eq {c : UInt64} (h : c.toNat ≤ 1) :
    (if decide (c ≠ 0) then 2 ^ 256 else 0) = c.toNat * 2 ^ 256 := by
  by_cases hzero : c = 0
  · rw [hzero, if_neg (by simp), UInt64.toNat_zero, Nat.zero_mul]
  · have hne : c.toNat ≠ 0 := fun h => hzero (UInt64.toNat_inj.mp h)
    rw [if_pos (decide_eq_true hzero), show c.toNat = 1 by omega, Nat.one_mul]

lemma val_u256AddCarry (a b : Limbs) :
    val (u256AddCarry a b).1 + (if (u256AddCarry a b).2 then 2 ^ 256 else 0) = val a + val b := by
  obtain ⟨hsum, hcarry⟩ := val_addLoop a b
  rw [u256AddCarry, ← hsum, carry_eq hcarry]

/-- A difference below zero wraps. -/
lemma val_u256Sub_of_lt (h : val a < val b) : val (u256Sub a b) = val a + 2 ^ 256 - val b := by
  have hadd := val_u256Sub_add a b
  have hlt := val_lt (u256Sub a b)
  have hb := val_lt b
  omega

/-- The sum of two numbers below `n` is below `2 n`, so one subtraction is enough, also when the sum
overflows. -/
lemma val_u256Addmod (ha : val a < val n) (hb : val b < val n) :
    val (u256Addmod a b n) = (val a + val b) % val n := by
  have hsum := val_u256AddCarry a b
  have hn := val_lt n
  rw [u256Addmod]
  generalize u256AddCarry a b = sum at hsum ⊢
  have hlt := val_lt sum.1
  cases hoverflow : sum.2 with
  | true =>
    rw [hoverflow, if_pos rfl] at hsum
    rw [Bool.true_or, if_pos rfl, val_u256Sub_of_lt (by omega), Nat.mod_eq_sub_mod (by omega),
      Nat.mod_eq_of_lt (by omega)]
    omega
  | false =>
    rw [hoverflow, if_neg (by simp), Nat.add_zero] at hsum
    rw [Bool.false_or]
    split_ifs with hge
    · rw [u256Gte_iff] at hge
      rw [val_u256Sub hge, ← hsum, Nat.mod_eq_sub_mod hge, Nat.mod_eq_of_lt (by omega)]
    · rw [u256Gte_iff] at hge
      rw [← hsum, Nat.mod_eq_of_lt (by omega)]

lemma bit_iff (x : UInt64) {bit : ℕ} (h : bit < 64) :
    (x >>> UInt64.ofNat bit) &&& 1 = 1 ↔ x.toNat.testBit bit = true := by
  have hbit := testBit_shiftRight x h 0
  rw [Nat.add_zero, Nat.testBit_zero] at hbit
  rw [← UInt64.toNat_inj, UInt64.toNat_and, UInt64.toNat_one, Nat.and_one_is_mod, ← hbit,
    decide_eq_true_iff]

lemma val_mulmodBit {i bit q : ℕ} (hb : val b < val n) (hr : val r = q * val b % val n)
    (hbit : bit < 64) : val (mulmodBit a b n i r bit) =
      (2 * q + ((limb a i).toNat.testBit bit).toNat) * val b % val n := by
  have hrlt : val r < val n := by
    rw [hr]
    exact Nat.mod_lt _ (by omega)
  have hdouble : val (u256Addmod r r n) = 2 * q * val b % val n := by
    rw [val_u256Addmod hrlt hrlt, hr, ← Nat.add_mod, ← Nat.add_mul, ← Nat.two_mul]
  have hdlt : val (u256Addmod r r n) < val n := by
    rw [hdouble]
    exact Nat.mod_lt _ (by omega)
  simp only [mulmodBit, bit_iff _ hbit]
  cases (limb a i).toNat.testBit bit with
  | true =>
    rw [if_pos rfl, val_u256Addmod hdlt hb, hdouble, Nat.mod_add_mod, Bool.toNat_true, Nat.add_mul,
      Nat.one_mul]
  | false =>
    rw [if_neg (by simp), hdouble, Bool.toNat_false, Nat.add_zero]

/-- The top `k` bits of a limb, after the limbs above have been worked in as `q`. -/
lemma val_mulmodBits {i k q : ℕ} (hb : val b < val n) (hk : k ≤ 64)
    (hr : val r = q * val b % val n) :
    val ((List.range' (64 - k) k).reverse.foldl (mulmodBit a b n i) r) =
      (q * 2 ^ k + (limb a i).toNat / 2 ^ (64 - k)) * val b % val n := by
  induction k with
  | zero =>
    rw [Nat.div_eq_of_lt (limb_lt a i)]
    simpa using hr
  | succ k ih =>
    obtain ⟨j, hj⟩ : ∃ j, 64 - (k + 1) = j := ⟨_, rfl⟩
    have hrest : 64 - k = j + 1 := by omega
    rw [hrest] at ih
    have hbit := Nat.toNat_testBit (limb a i).toNat j
    rw [hj, List.range'_succ, List.reverse_cons, List.foldl_append, List.foldl_cons, List.foldl_nil,
      val_mulmodBit hb (ih (by omega)) (by omega), hbit, Nat.pow_succ, ← Nat.div_div_eq_div_mul,
      Nat.pow_succ]
    congr 2
    have hdiv := Nat.div_add_mod ((limb a i).toNat / 2 ^ j) 2
    rw [← Nat.mul_assoc]
    omega

/-- A whole limb. -/
lemma val_mulmodLimb {i q : ℕ} (hb : val b < val n) (hr : val r = q * val b % val n) :
    val (mulmodLimb a b n r i) = (q * 2 ^ 64 + (limb a i).toNat) * val b % val n := by
  have h := val_mulmodBits (a := a) (i := i) hb le_rfl hr
  rw [Nat.sub_self, Nat.pow_zero, Nat.div_one] at h
  rwa [mulmodLimb, List.range_eq_range']

lemma val_div_limb (a : Limbs) {i : ℕ} (hi : i < 4) : val a / (2 ^ 64) ^ i =
    val a / (2 ^ 64) ^ (i + 1) * 2 ^ 64 + (limb a i).toNat := by
  have hdigit : val a / (2 ^ 64) ^ i % 2 ^ 64 = (limb a i).toNat :=
    value_digit (fun i _ => limb_lt a i) hi
  rw [Nat.pow_succ (n := 2 ^ 64) (m := i), ← Nat.div_div_eq_div_mul, ← hdigit]
  exact (Nat.div_add_mod' ..).symm

/-- The top `k` limbs. -/
lemma val_mulmodLimbs {k : ℕ} (hb : val b < val n) (hk : k ≤ 4) :
    val ((List.range' (4 - k) k).reverse.foldl (mulmodLimb a b n) (Vector.replicate 4 0)) =
      val a / (2 ^ 64) ^ (4 - k) * val b % val n := by
  induction k with
  | zero =>
    rw [Nat.div_eq_of_lt ((val_lt a).trans_le (by decide))]
    simp
  | succ k ih =>
    obtain ⟨i, hi⟩ : ∃ i, 4 - (k + 1) = i := ⟨_, rfl⟩
    have hrest : 4 - k = i + 1 := by omega
    rw [hrest] at ih
    rw [hi, List.range'_succ, List.reverse_cons, List.foldl_append, List.foldl_cons, List.foldl_nil,
      val_mulmodLimb hb (ih (by omega)), val_div_limb a (i := i) (by omega)]

/-- The result before the bits of `a` below the place are worked in. -/
def mulmodTo (a b n : Limbs) (i bit : ℕ) : Limbs :=
  (List.range' bit (64 - bit)).reverse.foldl (mulmodBit a b n i)
    ((List.range' (i + 1) (3 - i)).reverse.foldl (mulmodLimb a b n) (Vector.replicate 4 0))

lemma mulmodTo_succ {i bit : ℕ} (hbit : bit < 64) :
    mulmodTo a b n i bit = mulmodBit a b n i (mulmodTo a b n i (bit + 1)) bit := by
  obtain ⟨k, hk⟩ : ∃ k, 64 - bit = k + 1 := ⟨64 - bit - 1, by omega⟩
  rw [mulmodTo, mulmodTo, hk, List.range'_succ, List.reverse_cons, List.foldl_append,
    List.foldl_cons, List.foldl_nil, show 64 - (bit + 1) = k by omega]

/-- **Double and add**: so far the result is the product of the bits above the place. -/
theorem val_mulmodTo {i bit : ℕ} (hb : val b < val n) (hi : i < 4) (hbit : bit ≤ 64) :
    val (mulmodTo a b n i bit) = val a / 2 ^ (64 * i + bit) * val b % val n := by
  have hlimbs := val_mulmodLimbs (a := a) (k := 3 - i) hb (by omega)
  rw [show 4 - (3 - i) = i + 1 by omega] at hlimbs
  have hbits := val_mulmodBits (a := a) (i := i) (k := 64 - bit) hb (by omega) hlimbs
  rw [show 64 - (64 - bit) = bit by omega] at hbits
  have hplace : val a / 2 ^ (64 * i + bit) =
      val a / (2 ^ 64) ^ (i + 1) * 2 ^ (64 - bit) + (limb a i).toNat / 2 ^ bit := by
    have hword : 2 ^ 64 = 2 ^ bit * 2 ^ (64 - bit) := by
      rw [← Nat.pow_add, Nat.add_sub_of_le hbit]
    rw [Nat.pow_add, Nat.pow_mul, ← Nat.div_div_eq_div_mul, val_div_limb a hi]
    generalize val a / (2 ^ 64) ^ (i + 1) = q
    rw [hword, Nat.mul_comm q, Nat.mul_assoc, Nat.mul_add_div (by positivity), Nat.mul_comm q]
  rw [mulmodTo, hbits, hplace]

lemma u256Mulmod_eq : u256Mulmod a b n = mulmodTo a b n 0 0 := by
  rw [u256Mulmod, mulmodTo, List.range_eq_range', List.range'_succ, List.reverse_cons,
    List.foldl_append, List.foldl_cons, List.foldl_nil, mulmodLimb, List.range_eq_range']

theorem val_u256Mulmod (hb : val b < val n) : val (u256Mulmod a b n) = val a * val b % val n := by
  rw [u256Mulmod_eq, val_mulmodTo hb (by decide) (by decide), Nat.pow_zero, Nat.div_one]

theorem val_u256Negmod (ha : val a < val n) : val (u256Negmod a n) = (val n - val a) % val n := by
  rw [u256Negmod]
  split_ifs with hzero
  · rw [hzero, val_zero, Nat.sub_zero, Nat.mod_self]
  · have hpos : 0 < val a := Nat.pos_of_ne_zero fun h => hzero (val_eq_zero_iff.mp h)
    rw [val_u256Sub ha.le, Nat.mod_eq_of_lt (by omega)]

lemma val_u256Negmod_add (ha : val a < val n) : (val (u256Negmod a n) + val a) % val n = 0 := by
  rw [val_u256Negmod ha, Nat.mod_add_mod, Nat.sub_add_cancel ha.le, Nat.mod_self]

/-- The terms of a sum are reduced, the carry of the limbs is all that they cannot hold, and the sum is
reduced with it. -/
structure ExactSum (n x y : Limbs) : Prop where
  left : val x < val n
  right : val y < val n
  carry : val (u256AddCarry x y).1 + (if (u256AddCarry x y).2 then 2 ^ 256 else 0) = val x + val y
  reduced : val (u256Addmod x y n) = (val x + val y) % val n

lemma exactSum {x y : Limbs} (hx : val x < val n) (hy : val y < val n) : ExactSum n x y :=
  ⟨hx, hy, val_u256AddCarry .., val_u256Addmod hx hy⟩

/-- The sums of every pass are exact. -/
lemma mulmodTo_sums {i bit : ℕ} (hb : val b < val n) (hi : i < 4) (hbit : bit ≤ 64) :
    ExactSum n (mulmodTo a b n i bit) (mulmodTo a b n i bit) ∧
      ExactSum n (u256Addmod (mulmodTo a b n i bit) (mulmodTo a b n i bit) n) b := by
  have hpos : 0 < val n := (Nat.zero_le _).trans_lt hb
  have hlt : val (mulmodTo a b n i bit) < val n := by
    rw [val_mulmodTo hb hi hbit]
    exact Nat.mod_lt _ hpos
  have hdouble := exactSum hlt hlt
  refine ⟨hdouble, exactSum ?_ hb⟩
  rw [hdouble.reduced]
  exact Nat.mod_lt _ hpos

/-! ### Bytes -/

/-- Eight bytes of a string from behind are eight of the reversed string. -/
lemma beNat_slice {d : List UInt8} (hlen : d.length = 32) {i : ℕ} (hi : i < 4) :
    beNat (slice 8 d (24 - 8 * i)).toList = leNat (slice 8 d.reverse (8 * i)).toList := by
  rw [beNat, toList_slice (by omega), toList_slice (by rw [List.length_reverse]; omega),
    List.drop_reverse, List.take_reverse, hlen, List.length_take, hlen, min_eq_left (by omega),
    List.drop_take, show 32 - 8 * i - 8 = 24 - 8 * i by omega,
    show 32 - 8 * i - (24 - 8 * i) = 8 by omega]

theorem val_u256FromBe (b : Bytes 32) : val (u256FromBe b) = beNat b.toList := by
  have hlen : b.toList.length = 32 := by simp
  have hlimb : ∀ i < 4, (limb (u256FromBe b) i).toNat =
      leNat (slice 8 b.toList.reverse (8 * i)).toList := by
    intro i hi
    rw [u256FromBe, limb_ofFn hi, UInt64.toNat_ofNat', beNat_slice hlen hi]
    exact Nat.mod_eq_of_lt (u64At_lt ..)
  rw [val, value_congr hlimb, show 2 ^ 64 = 256 ^ 8 by norm_num, value_words (by simp),
    List.take_of_length_le (by simp), beNat]

theorem beNat_u256ToBe (v : Limbs) : beNat (u256ToBe v).toList = val v := by
  obtain ⟨a, b, c, d, rfl⟩ := exists_limbs v
  have hbytes : ∀ x : UInt64, leNat (leBytes 8 x.toNat) = x.toNat := fun x => by
    rw [leNat_leBytes, Nat.mod_eq_of_lt (lt_of_lt_of_eq (UInt64.toNat_lt x) (by norm_num))]
  rw [beNat, u256ToBe, toList_ofList (by simp), val_mk]
  simp only [List.flatMap_cons, List.flatMap_nil, List.append_nil, List.reverse_append,
    List.reverse_reverse, leNat_append, hbytes, length_leBytes, List.append_assoc]
  simp only [limb, Vector.getElem?_mk, List.getElem?_toArray, List.getElem?_cons_zero,
    List.getElem?_cons_succ, Option.getD_some]
  omega

end Arithmetic

/-! ### The verification -/

def tapTweakTagHash : List UInt8 :=
  [0xe8, 0x0f, 0xe1, 0x63, 0x9c, 0x9c, 0xa0, 0x50, 0xe3, 0xaf, 0x1b, 0x39, 0xc1, 0x43, 0xc6, 0x3e,
   0x42, 0x9c, 0xbc, 0xeb, 0x15, 0xd9, 0x40, 0xfb, 0xb5, 0xc5, 0xa1, 0xf4, 0xaf, 0x57, 0xc5, 0xe9]

section Verify

-- the hash, and the recovery of a key from a message, a recovery id and a signature
variable (sha256 : List UInt8 → Hash) (recover : Hash → ℕ → Bytes 64 → Option (Bytes 64))

def computeTaptweakHash (internalKey commitment : Hash) : Hash :=
  sha256 (tapTweakTagHash ++ tapTweakTagHash ++ internalKey.toList ++ commitment.toList)

/-- `- t r`, as the message to recover from. -/
def recoverMessage (internalKey tweak : Hash) : Hash :=
  let n := u256FromBe secp256k1N
  u256ToBe (u256Negmod (u256Mulmod (u256FromBe tweak) (u256FromBe internalKey) n) n)

/-- The internal key as both halves of a signature. -/
def recoverSignature (internalKey : Hash) : Bytes 64 :=
  ofList 64 (internalKey.toList ++ internalKey.toList)

def deriveTaprootOutputKey (internalKey tweak : Hash) : Except ProgramError Hash := do
  let n := u256FromBe secp256k1N
  require (u256Gte (u256FromBe internalKey) n = false) UTXOpiaError.TaprootVerificationFailed
  require (u256Gte (u256FromBe tweak) n = false) UTXOpiaError.TaprootVerificationFailed
  -- recovery id 0: the internal key has an even y
  let recovered ← orElse
    (recover (recoverMessage internalKey tweak) 0 (recoverSignature internalKey))
    UTXOpiaError.TaprootVerificationFailed
  return slice 32 recovered.toList 0

def verifyTaprootTweak (internalKey tweak expectedOutputKey : Hash) : Except ProgramError Unit := do
  let derived ← deriveTaprootOutputKey recover internalKey tweak
  require (derived = expectedOutputKey) UTXOpiaError.TaprootVerificationFailed

def verifyTaprootOutputKey (internalKey npk expectedOutputKey : Hash) : Except ProgramError Unit :=
  verifyTaprootTweak recover internalKey (computeTaptweakHash sha256 internalKey npk) expectedOutputKey

end Verify

/-! ### The group -/

/-- The order of the group. -/
def order : ℕ := 115792089237316195423570985008687907852837564279074904382605163141518161494337

lemma beNat_secp256k1N : beNat secp256k1N.toList = order := by decide +kernel

lemma val_secp256k1N : val (u256FromBe secp256k1N) = order := by
  rw [val_u256FromBe, beNat_secp256k1N]

/-- **Scalars**: a product is reduced modulo the order whatever the first factor is, the result before
each bit is the product of the bits above it, none of the sums on the way loses a carry, and a negative
is the reduced one. -/
theorem scalars_exact (a b : Limbs) :
    (val b < order → val (u256Mulmod a b (u256FromBe secp256k1N)) = val a * val b % order ∧
      ∀ i < 4, ∀ bit < 64,
        mulmodTo a b (u256FromBe secp256k1N) i bit = mulmodBit a b (u256FromBe secp256k1N) i
          (mulmodTo a b (u256FromBe secp256k1N) i (bit + 1)) bit ∧
        val (mulmodTo a b (u256FromBe secp256k1N) i bit) =
          val a / 2 ^ (64 * i + bit) * val b % order ∧
        ExactSum (u256FromBe secp256k1N) (mulmodTo a b (u256FromBe secp256k1N) i (bit + 1))
          (mulmodTo a b (u256FromBe secp256k1N) i (bit + 1)) ∧
        ExactSum (u256FromBe secp256k1N) (u256Addmod (mulmodTo a b (u256FromBe secp256k1N) i (bit + 1))
          (mulmodTo a b (u256FromBe secp256k1N) i (bit + 1)) (u256FromBe secp256k1N)) b) ∧
    (val a < order → val (u256Negmod a (u256FromBe secp256k1N)) = (order - val a) % order ∧
      val (u256Negmod a (u256FromBe secp256k1N)) < order) := by
  have hn := val_secp256k1N
  generalize u256FromBe secp256k1N = n at hn ⊢
  rw [← hn]
  refine ⟨fun hb => ⟨val_u256Mulmod hb, fun i hi bit hbit => ?_⟩, fun ha => ?_⟩
  · exact ⟨mulmodTo_succ hbit, val_mulmodTo hb hi hbit.le, mulmodTo_sums hb hi hbit⟩
  · have hneg := val_u256Negmod ha
    refine ⟨hneg, ?_⟩
    rw [hneg]
    exact Nat.mod_lt _ ((Nat.zero_le _).trans_lt ha)

/-- The largest numbers: all bits set, and one below the order. -/
theorem scalars_exact_largest : val (u256Mulmod (Vector.replicate 4 (UInt64.ofNat (2 ^ 64 - 1)))
      (u256Sub (u256FromBe secp256k1N) #v[1, 0, 0, 0]) (u256FromBe secp256k1N)) =
        (2 ^ 256 - 1) * (order - 1) % order ∧
    val (u256Negmod (u256Sub (u256FromBe secp256k1N) #v[1, 0, 0, 0]) (u256FromBe secp256k1N)) = 1 := by
  have hall : val (Vector.replicate 4 (UInt64.ofNat (2 ^ 64 - 1))) = 2 ^ 256 - 1 := by decide +kernel
  have hlast : val (u256Sub (u256FromBe secp256k1N) #v[1, 0, 0, 0]) = order - 1 := by decide +kernel
  have hlt : order - 1 < order := by decide
  constructor
  · rw [((scalars_exact _ _).1 (hlast ▸ hlt)).1, hall, hlast]
  · rw [((scalars_exact _ (Vector.replicate 4 0)).2 (hlast ▸ hlt)).1, hlast]
    decide

/-- The prime factors of `order - 1` that are large, and theirs in turn. -/
lemma factors_prime : Nat.Prime 107361793816595537 ∧ Nat.Prime 174723607534414371449 ∧
    Nat.Prime 341948486974166000522343609283189 := by
  have h109 : Nat.Prime 109 := by norm_num
  have h293 : Nat.Prime 293 := by norm_num
  have h305873 : Nat.Prime 305873 := by norm_num
  have h9 : Nat.Prime 545358713 :=
    prime_of_root (a := 5) (k := 30) [2, 2, 2, 41, 59, 28181]
      (by norm_num) (by norm_num) (by norm_num) (by decide +kernel)
  have h12 : Nat.Prime 297159362677 :=
    prime_of_root (a := 2) (k := 40) [2, 2, 3, 3, 11, 461, 1627771]
      (by norm_num) (by norm_num) (by norm_num) (by decide +kernel)
  have h29 : Nat.Prime 29047611873442575647497758179 :=
    prime_of_root (a := 2) (k := 96) [2, 293, 305873, 545358713, 297159362677]
      (by simp only [List.forall_mem_cons, Nat.prime_two, h293, h305873, h9, h12, List.not_mem_nil,
        false_imp_iff, implies_true, and_self])
      (by norm_num) (by norm_num) (by decide +kernel)
  refine ⟨?_, ?_, ?_⟩
  · exact prime_of_root (a := 3) (k := 57) [2, 2, 2, 2, 16699, 85831, 4681609]
      (by norm_num) (by norm_num) (by norm_num) (by decide +kernel)
  · exact prime_of_root (a := 3) (k := 68) [2, 2, 2, 17, 59, 4051, 120233, 44706919]
      (by norm_num) (by norm_num) (by norm_num) (by decide +kernel)
  · exact prime_of_root (a := 2) (k := 109)
      [2, 2, 3, 3, 3, 109, 29047611873442575647497758179]
      (by simp only [List.forall_mem_cons, Nat.prime_two, Nat.prime_three, h109, h29,
        List.not_mem_nil, false_imp_iff, implies_true, and_self])
      (by norm_num) (by norm_num) (by decide +kernel)

theorem order_prime : order.Prime := by
  obtain ⟨h18, h21, h33⟩ := factors_prime
  exact prime_of_root (a := 7) (k := 256) [2, 2, 2, 2, 2, 2, 3, 149, 631,
    107361793816595537, 174723607534414371449, 341948486974166000522343609283189]
    (by
      have h149 : Nat.Prime 149 := by norm_num
      have h631 : Nat.Prime 631 := by norm_num
      simp only [List.forall_mem_cons, Nat.prime_two, Nat.prime_three, h149, h631, h18, h21, h33,
        List.not_mem_nil, false_imp_iff, implies_true, and_self])
    (by norm_num [order]) (by norm_num [order]) (by decide +kernel)

instance : Fact order.Prime := ⟨order_prime⟩

/-- The curve as a signature scheme sees it: a base point, the point with an x-coordinate and an even
or odd y, and the bytes of a point, which the zero of the group has not. -/
structure Curve (Point : Type) where
  base : Point
  lift : ℕ → Bool → Option Point
  encode : Point → Option (Bytes 64)

namespace Curve

variable {Point : Type} [AddCommGroup Point] [Module (ZMod order) Point] (C : Curve Point)

def xOnly (Q : Point) : Option Hash := (C.encode Q).map fun bytes => slice 32 bytes.toList 0

/-- The recovery equation: the key under which `(r, s)` signs the message, where the point `R` has
the x-coordinate `r` and the y that the recovery id says. -/
def recovered (message recoveryId r s : ℕ) : Option Point :=
  if 0 < r ∧ r < order ∧ 0 < s ∧ s < order then
    (C.lift r (recoveryId.testBit 0)).map fun R =>
      (r : ZMod order)⁻¹ • ((s : ZMod order) • R - (message : ZMod order) • C.base)
  else none

/-- The syscall recovers keys: it returns their bytes. -/
def Recovers (recover : Hash → ℕ → Bytes 64 → Option (Bytes 64)) : Prop :=
  ∀ message recoveryId signature, recoveryId < 2 → recover message recoveryId signature =
    (C.recovered (beNat message.toList) recoveryId (beNat (slice 32 signature.toList 0).toList)
      (beNat (slice 32 signature.toList 32).toList)).bind C.encode

/-- What a taproot output key commits to: the internal key with an even y, plus the tweak. -/
def Commits (internalKey tweak outputKey : Hash) : Prop :=
  beNat tweak.toList < order ∧ ∃ P, C.lift (beNat internalKey.toList) false = some P ∧
    C.xOnly (P + (beNat tweak.toList : ZMod order) • C.base) = some outputKey

end Curve

/-! ### The recovered key -/

section Recovery

variable {Point : Type} [AddCommGroup Point] [Module (ZMod order) Point] {C : Curve Point}
  {recover : Hash → ℕ → Bytes 64 → Option (Bytes 64)} {internalKey tweak outputKey : Hash} {P : Point}

lemma gte_order {b : Hash} : u256Gte (u256FromBe b) (u256FromBe secp256k1N) = false ↔
    beNat b.toList < order := by
  rw [← Bool.not_eq_true, u256Gte_iff, val_u256FromBe, val_u256FromBe, beNat_secp256k1N, not_le]

/-- **The message** is minus the tweak times the internal key. -/
lemma recoverMessage_cast (hr : beNat internalKey.toList < order) :
    (beNat (recoverMessage internalKey tweak).toList : ZMod order) =
      -((beNat tweak.toList : ZMod order) * beNat internalKey.toList) := by
  have hn := val_secp256k1N
  have hmul := val_u256Mulmod (a := u256FromBe tweak) (b := u256FromBe internalKey)
    (n := u256FromBe secp256k1N) (by rwa [hn, val_u256FromBe])
  rw [hn, val_u256FromBe, val_u256FromBe] at hmul
  have hneg := val_u256Negmod_add (a := u256Mulmod (u256FromBe tweak) (u256FromBe internalKey)
    (u256FromBe secp256k1N)) (n := u256FromBe secp256k1N) (by
      rw [hmul, hn]
      exact Nat.mod_lt _ order_prime.pos)
  rw [hn, hmul, ← Nat.dvd_iff_mod_eq_zero, ← ZMod.natCast_eq_zero_iff, Nat.cast_add,
    ZMod.natCast_mod, Nat.cast_mul] at hneg
  rw [recoverMessage, beNat_u256ToBe]
  exact eq_neg_of_add_eq_zero_left hneg

lemma slice_recoverSignature : slice 32 (recoverSignature internalKey).toList 0 = internalKey ∧
    slice 32 (recoverSignature internalKey).toList 32 = internalKey := by
  rw [recoverSignature, toList_ofList (by simp)]
  have hnil : slice 32 internalKey.toList 0 = internalKey := by
    simpa using slice_toList_append internalKey []
  have hsecond := slice_append 32 internalKey.toList internalKey.toList 0
  rw [Vector.length_toList, hnil] at hsecond
  exact ⟨slice_toList_append internalKey _, hsecond⟩

/-- **The recovered key** is the internal key plus the tweak. -/
theorem recovered_eq (hlow : 0 < beNat internalKey.toList) (hhigh : beNat internalKey.toList < order) :
    C.recovered (beNat (recoverMessage internalKey tweak).toList) 0 (beNat internalKey.toList)
      (beNat internalKey.toList) = (C.lift (beNat internalKey.toList) false).map fun P =>
        P + (beNat tweak.toList : ZMod order) • C.base := by
  have hne : (beNat internalKey.toList : ZMod order) ≠ 0 := fun h => by
    rw [ZMod.natCast_eq_zero_iff] at h
    exact absurd (Nat.le_of_dvd hlow h) (by omega)
  rw [Curve.recovered, if_pos ⟨hlow, hhigh, hlow, hhigh⟩, recoverMessage_cast hhigh]
  congr 1
  funext P
  rw [neg_smul, sub_neg_eq_add, smul_add, smul_smul, smul_smul, inv_mul_cancel₀ hne, one_smul,
    mul_comm (beNat tweak.toList : ZMod order), inv_mul_cancel_left₀ hne]

/-- What the syscall returns for the code's message, recovery id and signature. -/
lemma recover_eq (hrec : C.Recovers recover) (hlow : 0 < beNat internalKey.toList)
    (hhigh : beNat internalKey.toList < order) :
    recover (recoverMessage internalKey tweak) 0 (recoverSignature internalKey) =
      (C.lift (beNat internalKey.toList) false).bind fun P =>
        C.encode (P + (beNat tweak.toList : ZMod order) • C.base) := by
  rw [hrec _ _ _ (by decide), slice_recoverSignature.1, slice_recoverSignature.2,
    recovered_eq hlow hhigh, Option.bind_map]
  rfl

/-- A key is derived exactly if it is the one committed to. -/
lemma deriveTaprootOutputKey_iff (hrec : C.Recovers recover) (hlow : 0 < beNat internalKey.toList)
    (hhigh : beNat internalKey.toList < order) :
    deriveTaprootOutputKey recover internalKey tweak = .ok outputKey ↔
      C.Commits internalKey tweak outputKey := by
  simp only [deriveTaprootOutputKey, bind_eq_ok, require_eq_ok, exists_const, orElse_eq_ok,
    pure_eq_ok, gte_order, recover_eq hrec hlow hhigh, Option.bind_eq_some_iff]
  constructor
  · rintro ⟨-, htweak, bytes, ⟨P, hlift, hbytes⟩, rfl⟩
    exact ⟨htweak, P, hlift, by rw [Curve.xOnly, hbytes]; rfl⟩
  · rintro ⟨htweak, P, hlift, hkey⟩
    obtain ⟨bytes, hbytes, hslice⟩ := Option.map_eq_some_iff.mp hkey
    exact ⟨hhigh, htweak, bytes, ⟨P, hlift, hbytes⟩, hslice⟩

lemma verify_iff_derive : verifyTaprootTweak recover internalKey tweak outputKey = .ok () ↔
    deriveTaprootOutputKey recover internalKey tweak = .ok outputKey := by
  simp only [verifyTaprootTweak, bind_eq_ok, require_eq_ok]
  constructor
  · rintro ⟨_, hkey, rfl⟩
    exact hkey
  · exact fun hkey => ⟨_, hkey, rfl⟩

/-- There is one way to fail. -/
lemma verifyTaprootTweak_cases : verifyTaprootTweak recover internalKey tweak outputKey = .ok () ∨
    verifyTaprootTweak recover internalKey tweak outputKey =
      .error UTXOpiaError.TaprootVerificationFailed := by
  cases h : verifyTaprootTweak recover internalKey tweak outputKey with
  | ok _ => exact .inl rfl
  | error e =>
    refine .inr ?_
    simp only [verifyTaprootTweak, deriveTaprootOutputKey, bind_eq_error, require_eq_error,
      orElse_eq_error, pure_ne_error, and_false, exists_false, or_false] at h
    rcases h with (⟨-, rfl⟩ | ⟨_, -, ⟨-, rfl⟩ | ⟨_, -, -, rfl⟩⟩) | ⟨_, -, -, rfl⟩ <;> rfl

/-- **The recovery is the tweak**: the syscall returns the internal key plus the tweak, and a claimed
output key passes exactly if it commits to them; any other key is refused. -/
theorem verifyTaprootTweak_iff (hrec : C.Recovers recover) (hlow : 0 < beNat internalKey.toList)
    (hhigh : beNat internalKey.toList < order)
    (hlift : C.lift (beNat internalKey.toList) false = some P) (htweak : beNat tweak.toList < order) :
    recover (recoverMessage internalKey tweak) 0 (recoverSignature internalKey) =
        C.encode (P + (beNat tweak.toList : ZMod order) • C.base) ∧
      (C.Commits internalKey tweak outputKey ↔
        C.xOnly (P + (beNat tweak.toList : ZMod order) • C.base) = some outputKey) ∧
      (verifyTaprootTweak recover internalKey tweak outputKey = .ok () ↔
        C.Commits internalKey tweak outputKey) ∧
      (¬ C.Commits internalKey tweak outputKey →
        verifyTaprootTweak recover internalKey tweak outputKey =
          .error UTXOpiaError.TaprootVerificationFailed) := by
  have hiff : verifyTaprootTweak recover internalKey tweak outputKey = .ok () ↔
      C.Commits internalKey tweak outputKey :=
    verify_iff_derive.trans (deriveTaprootOutputKey_iff hrec hlow hhigh)
  refine ⟨by rw [recover_eq hrec hlow hhigh, hlift]; rfl, ?_, hiff, fun hne => ?_⟩
  · rw [Curve.Commits, hlift]
    simp [htweak]
  · exact verifyTaprootTweak_cases.resolve_left fun hok => hne (hiff.mp hok)

end Recovery

/-! ### The verification of a deposit -/

/-- A deposit's check is this one. -/
theorem deposit_check_iff {E : Env} {recover : Hash → ℕ → Bytes 64 → Option (Bytes 64)}
    {internalKey npk outputKey : Hash}
    (hE : E.taprootOutputKey internalKey npk = (deriveTaprootOutputKey recover internalKey
      (computeTaptweakHash E.sha256 internalKey npk)).toOption) :
    Pool.verifyTaprootOutputKey E internalKey npk outputKey = true ↔
      verifyTaprootOutputKey E.sha256 recover internalKey npk outputKey = .ok () := by
  rw [Pool.verifyTaprootOutputKey, hE, decide_eq_true_iff, toOption_eq_some,
    verifyTaprootOutputKey, verify_iff_derive]

/-! ### A key of the curve -/

namespace Regtest

/-- The x-coordinate of the base point. -/
def baseX : Hash := ofList 32
  [0x79, 0xbe, 0x66, 0x7e, 0xf9, 0xdc, 0xbb, 0xac, 0x55, 0xa0, 0x62, 0x95, 0xce, 0x87, 0x0b, 0x07,
   0x02, 0x9b, 0xfc, 0xdb, 0x2d, 0xce, 0x28, 0xd9, 0x59, 0xf2, 0x81, 0x5b, 0x16, 0xf8, 0x17, 0x98]

/-- The coordinates of its double. -/
def doubled : Bytes 64 := ofList 64
  [0xc6, 0x04, 0x7f, 0x94, 0x41, 0xed, 0x7d, 0x6d, 0x30, 0x45, 0x40, 0x6e, 0x95, 0xc0, 0x7c, 0xd8,
   0x5c, 0x77, 0x8e, 0x4b, 0x8c, 0xef, 0x3c, 0xa7, 0xab, 0xac, 0x09, 0xb9, 0x5c, 0x70, 0x9e, 0xe5,
   0x1a, 0xe1, 0x68, 0xfe, 0xa6, 0x3d, 0xc3, 0x39, 0xa3, 0xc5, 0x84, 0x19, 0x46, 0x6c, 0xea, 0xee,
   0xf7, 0xf6, 0x32, 0x65, 0x32, 0x66, 0xd0, 0xe1, 0x23, 0x64, 0x31, 0xa9, 0x50, 0xcf, 0xe5, 0x2a]

/-- The curve by the multiples of its base point, with the coordinates of two of them. -/
def curve : Curve (ZMod order) where
  base := 1
  lift x odd := if x = beNat baseX.toList then some (if odd then -1 else 1) else none
  encode Q := if Q = 2 then some doubled else none

/-- The recovery on that curve. -/
def recoverKey (message : Hash) (recoveryId : ℕ) (signature : Bytes 64) : Option (Bytes 64) :=
  (curve.recovered (beNat message.toList) recoveryId (beNat (slice 32 signature.toList 0).toList)
    (beNat (slice 32 signature.toList 32).toList)).bind curve.encode

/-- The tweak one. -/
def one : Hash := ofList 32 (List.replicate 31 0 ++ [1])

end Regtest

open Regtest in
/-- The base point, tweaked by one, is its double. -/
theorem verifyTaprootTweak_iff_double :
    verifyTaprootTweak recoverKey baseX one (slice 32 doubled.toList 0) = .ok () := by
  have hone : beNat one.toList = 1 := by decide +kernel
  have h := @verifyTaprootTweak_iff (ZMod order) _ _ curve recoverKey baseX one
    (slice 32 doubled.toList 0) 1 (fun _ _ _ _ => rfl) (by decide +kernel) (by decide +kernel) rfl (by decide +kernel)
  refine h.2.2.1.mpr (h.2.1.mpr ?_)
  rw [hone, Nat.cast_one, one_smul, Curve.xOnly]
  have hsum : (1 : ZMod order) + curve.base = 2 := by
    rw [show curve.base = 1 from rfl]
    norm_num
  rw [hsum]
  rfl

end Utxopia.Pool.Secp256k1
