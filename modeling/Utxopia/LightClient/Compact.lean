import Utxopia.LightClient.Chain
import Utxopia.LightClient.CompactWord

/-!
Compact words and the proof of work.

What a word keeps of a number is its top bits, so writing a number and reading it back rounds it
down. The network also refuses words that read as negative or too large, and a target of zero; the
client reads all of them.
-/

namespace Utxopia.LightClient.Compact

open Utxopia.ByteString Utxopia.Encoding Utxopia.Positional Utxopia.Run Utxopia.Runtime
open Utxopia.LightClient.Accounts Utxopia.LightClient.Initialize Utxopia.LightClient.Extend
open Utxopia.LightClient.U256 Utxopia.LightClient.Pow Utxopia.LightClient.Work
open Utxopia.LightClient.Difficulty Utxopia.LightClient.Retarget Utxopia.LightClient.CompactWord

/-! ### Rounding -/

section Rounding

variable {m n k : ℕ}

/-- A compact word keeps the number down to some byte, and at least fifteen bits of it. -/
structure RoundsAt (n k : ℕ) : Prop where
  value : setCompact (getCompact n) = n >>> (8 * k) <<< (8 * k)
  lt : n < 2 ^ (8 * k + 23)
  ge : k ≠ 0 → 2 ^ (8 * k + 15) ≤ n

lemma shiftRight_shiftLeft_le : n >>> k <<< k ≤ n := by
  rw [Nat.shiftRight_eq_div_pow, Nat.shiftLeft_eq]
  exact Nat.div_mul_le_self ..

/-- A number is rounded at the lowest byte that its word keeps. -/
lemma exists_roundsAt (h : n < 2 ^ 248) : ∃ k, RoundsAt n k := by
  obtain ⟨size, mantissa, hword, hwrites⟩ := getCompact_writes n
  have hshift : getCompact n >>> 24 = size := by
    rw [hword, or_shiftRight (hwrites.lt.trans (by decide))]
  have hpow : (256 : ℕ) ^ (size - 3) = 2 ^ (8 * (size - 3)) := by rw [Nat.pow_mul]
  refine ⟨size - 3, ?_, ?_, fun hk => ?_⟩
  · rw [setCompact_getCompact (h.trans (by decide)), hshift, hpow, Nat.shiftRight_eq_div_pow,
      Nat.shiftLeft_eq]
  · have hupper := hwrites.upper
    have hsize : 256 ^ size ≤ 256 ^ (size - 3) * 256 ^ 3 := by
      rw [← Nat.pow_add]
      exact Nat.pow_le_pow_right (by decide) (by omega)
    rw [Nat.pow_add, ← hpow]
    omega
  · have hlower := hwrites.lower fun hn => hk (by rw [hwrites.zero hn])
    rw [show size = size - 3 + 3 by omega, Nat.pow_add] at hlower
    rw [Nat.pow_add, ← hpow]
    omega

lemma RoundsAt.ge_rounded (h : RoundsAt n k) (hk : k ≠ 0) :
    2 ^ (8 * k + 15) ≤ setCompact (getCompact n) := by
  rw [h.value, Nat.shiftRight_eq_div_pow, Nat.shiftLeft_eq, Nat.add_comm, Nat.pow_add]
  refine Nat.mul_le_mul_right _ ((Nat.le_div_iff_mul_le (by positivity)).mpr ?_)
  rw [← Nat.pow_add, Nat.add_comm]
  exact h.ge hk

/-- Writing a number rounds it down. -/
theorem setCompact_getCompact_le (h : n < 2 ^ 248) : setCompact (getCompact n) ≤ n := by
  obtain ⟨k, hround⟩ := exists_roundsAt h
  rw [hround.value]
  exact shiftRight_shiftLeft_le

/-- Rounding keeps the order. -/
theorem setCompact_getCompact_mono (hle : m ≤ n) (h : n < 2 ^ 248) :
    setCompact (getCompact m) ≤ setCompact (getCompact n) := by
  obtain ⟨j, hm⟩ := exists_roundsAt (hle.trans_lt h)
  obtain ⟨k, hn⟩ := exists_roundsAt h
  rcases lt_trichotomy j k with hjk | rfl | hkj
  · calc setCompact (getCompact m) ≤ m := setCompact_getCompact_le (hle.trans_lt h)
      _ ≤ 2 ^ (8 * j + 23) := hm.lt.le
      _ ≤ 2 ^ (8 * k + 15) := Nat.pow_le_pow_right (by decide) (by omega)
      _ ≤ setCompact (getCompact n) := hn.ge_rounded (by omega)
  · rw [hm.value, hn.value]
    simp only [Nat.shiftRight_eq_div_pow, Nat.shiftLeft_eq]
    exact Nat.mul_le_mul_right _ (Nat.div_le_div_right hle)
  · have hlarge : n < m :=
      calc n < 2 ^ (8 * k + 23) := hn.lt
        _ ≤ 2 ^ (8 * j + 15) := Nat.pow_le_pow_right (by decide) (by omega)
        _ ≤ m := hm.ge (by omega)
    omega

end Rounding

/-! ### The size of a word -/

/-- The word is the one that its number is written as. -/
def Canonical (bits : ℕ) : Prop := getCompact (setCompact bits) = bits

instance (bits : ℕ) : Decidable (Canonical bits) := by unfold Canonical; infer_instance

/-- The canonical words are the normal ones of the numbers that fit. -/
theorem canonical_iff {bits : ℕ} : Canonical bits ↔ Normal bits ∧ wordNumber bits < 2 ^ 256 := by
  constructor
  · intro h
    have hnormal := normal_getCompact (setCompact bits)
    have hle := wordNumber_getCompact_le (setCompact bits)
    rw [h] at hnormal hle
    exact ⟨hnormal, hle.trans_lt (setCompact_lt bits)⟩
  · rintro ⟨hnormal, hlt⟩
    rw [Canonical, hnormal.setCompact_eq hlt, hnormal.writes.getCompact_eq,
      unsigned_eq hnormal.unsigned]

/-- What is less than half of all numbers is counted as at most 32 bytes. -/
lemma Canonical.shift_le {bits : ℕ} (h : Canonical bits) (hlt : setCompact bits < 2 ^ 255) :
    bits >>> 24 ≤ 32 := by
  have hshift : getCompact (setCompact bits) >>> 24 ≤ 32 := getCompact_shift_le (k := 30) hlt
  rwa [h] at hshift

/-! ### The retarget -/

/-- The product of the old target and the time an epoch took fits. -/
lemma product_lt {bits first last : ℕ} (h : setCompact bits ≤ powLimit) :
    setCompact bits * (clampedTimespan first last).toNat < 2 ^ 256 := by
  have htime : (clampedTimespan first last).toNat ≤ targetTimespan * 4 := by
    unfold clampedTimespan targetTimespan
    omega
  calc setCompact bits * (clampedTimespan first last).toNat
      ≤ powLimit * (targetTimespan * 4) := Nat.mul_le_mul h htime
    _ < 2 ^ 256 := by decide

/-- The bits of a new epoch stand for the scaled target, capped and rounded down. -/
lemma leNat_newTarget {bits t : ℕ} (hcanonical : Canonical bits) (h : setCompact bits ≤ powLimit) :
    leNat (targetFromBits (calculateNewBits bits t)).toList = setCompact (getCompact (min powLimit
      (setCompact bits * (clampedTimespan 0 t).toNat / targetTimespan))) := by
  have hshift : bits >>> 24 ≤ 29 := hcanonical ▸ getCompact_shift_le (k := 27) (h.trans_lt (by decide))
  have hnew : calculateNewBits bits (t - 0) = calculateNextWorkRequired bits 0 t :=
    calculateNewBits_eq hshift
  rw [Nat.sub_zero] at hnew
  rw [hnew, leNat_targetFromBits ((calculateNextWorkRequired_shift ..).trans (by decide)),
    calculateNextWorkRequired, Nat.mod_eq_of_lt (product_lt h)]

/-- **The retarget is exact**: from any canonical bits of the network and any two times the client
computes the network's new bits. The product does not overflow, the new target is within the limit,
and an epoch that took longer never makes it smaller. -/
theorem retarget_exact {bits : ℕ} (hcanonical : Canonical bits) (h : setCompact bits ≤ powLimit) :
    (∀ first last : ℕ,
      calculateNewBits bits (last - first) = calculateNextWorkRequired bits first last) ∧
    (∀ t, val (u256MulU32 (u256FromLeBytes (targetFromBits bits))
        (max (targetTimespan / 4) (min t (targetTimespan * 4)))) =
      setCompact bits * max (targetTimespan / 4) (min t (targetTimespan * 4))) ∧
    (∀ t, leNat (targetFromBits (calculateNewBits bits t)).toList ≤ powLimit) ∧
    ∀ t u, t ≤ u → leNat (targetFromBits (calculateNewBits bits t)).toList ≤
      leNat (targetFromBits (calculateNewBits bits u)).toList := by
  have hshift : bits >>> 24 ≤ 29 := hcanonical ▸ getCompact_shift_le (k := 27) (h.trans_lt (by decide))
  have hcapped : ∀ n, min powLimit n < 2 ^ 248 := fun n => (min_le_left ..).trans_lt (by decide)
  refine ⟨fun first last => calculateNewBits_eq hshift, fun t => ?_, fun t => ?_, fun t u htu => ?_⟩
  · have htime : max (targetTimespan / 4) (min t (targetTimespan * 4)) = (clampedTimespan 0 t).toNat := by
      unfold clampedTimespan targetTimespan
      omega
    rw [val_u256MulU32, val_u256FromLeBytes, leNat_targetFromBits (hshift.trans (by decide)), htime,
      Nat.mod_eq_of_lt (product_lt h)]
  · rw [leNat_newTarget hcanonical h]
    exact (setCompact_getCompact_le (hcapped _)).trans (min_le_left ..)
  · rw [leNat_newTarget hcanonical h, leNat_newTarget hcanonical h]
    have htime : (clampedTimespan 0 t).toNat ≤ (clampedTimespan 0 u).toNat := by
      unfold clampedTimespan
      omega
    exact setCompact_getCompact_mono
      (min_le_min_left _ (Nat.div_le_div_right (Nat.mul_le_mul_left _ htime))) (hcapped _)

/-- From the limit. -/
theorem retarget_exact_limit :
    (∀ first last : ℕ,
      calculateNewBits maxTargetBits (last - first) = calculateNextWorkRequired maxTargetBits first last) ∧
    (∀ t, val (u256MulU32 (u256FromLeBytes (targetFromBits maxTargetBits))
        (max (targetTimespan / 4) (min t (targetTimespan * 4)))) =
      setCompact maxTargetBits * max (targetTimespan / 4) (min t (targetTimespan * 4))) ∧
    (∀ t, leNat (targetFromBits (calculateNewBits maxTargetBits t)).toList ≤ powLimit) ∧
    ∀ t u, t ≤ u → leNat (targetFromBits (calculateNewBits maxTargetBits t)).toList ≤
      leNat (targetFromBits (calculateNewBits maxTargetBits u)).toList := by
  have hvalue : setCompact maxTargetBits = 0xffff * 2 ^ 208 := by decide +kernel
  refine retarget_exact ?_ (by rw [hvalue]; decide)
  rw [Canonical, hvalue]
  exact getCompact_top le_rfl (by decide)

/-! ### The proof of work -/

/-- The mantissa of a word, moved down where the size is below three. -/
def wordOf (bits : ℕ) : ℕ :=
  if bits >>> 24 ≤ 3 then (bits &&& 0x007fffff) >>> (8 * (3 - bits >>> 24)) else bits &&& 0x007fffff

def isNegative (bits : ℕ) : Prop := wordOf bits ≠ 0 ∧ bits &&& 0x00800000 ≠ 0

def overflows (bits : ℕ) : Prop :=
  wordOf bits ≠ 0 ∧ (34 < bits >>> 24 ∨ (0xff < wordOf bits ∧ 33 < bits >>> 24) ∨
    (0xffff < wordOf bits ∧ 32 < bits >>> 24))

instance (bits : ℕ) : Decidable (isNegative bits) := by unfold isNegative; infer_instance
instance (bits : ℕ) : Decidable (overflows bits) := by unfold overflows; infer_instance

/-- What the network asks of a hash and the bits of its block, the limit apart. -/
structure ProofOfWork (bits : ℕ) (hash : Bytes 32) : Prop where
  positive : ¬ isNegative bits ∧ setCompact bits ≠ 0
  fits : ¬ overflows bits
  meets : leNat hash.toList ≤ setCompact bits

/-- The client's check asks for a proof of work, and is content with one for canonical bits. -/
def ChecksWork (bits : ℕ) (hash : Bytes 32) : Prop :=
  (hashMeetsTarget hash (targetFromBits bits) = true → ProofOfWork bits hash) ∧
    (ProofOfWork bits hash → Canonical bits → setCompact bits < 2 ^ 255 →
      hashMeetsTarget hash (targetFromBits bits) = true)

section Work

variable {bits : ℕ} {hash : Bytes 32}

lemma accepts_iff (h : bits >>> 24 ≤ 32) :
    hashMeetsTarget hash (targetFromBits bits) = true ↔ leNat hash.toList ≤ setCompact bits := by
  rw [hashMeetsTarget_iff, leNat_targetFromBits h]

/-- Sizes that do not fit in a target give the target zero. -/
lemma accepts_large_iff (hbits : bits < 2 ^ 32) (h : 32 < bits >>> 24) :
    hashMeetsTarget hash (targetFromBits bits) = true ↔ leNat hash.toList = 0 := by
  have hexp : (bits >>> 24) &&& 0xff = bits >>> 24 := by
    rw [Nat.and_two_pow_sub_one_eq_mod _ 8, Nat.mod_eq_of_lt]
    rw [Nat.shiftRight_eq_div_pow]
    omega
  have hzero : leNat (zeros 32).toList = 0 := by decide
  have htarget : targetFromBits bits = zeros 32 := by
    unfold targetFromBits
    simp only [hexp]
    rw [if_neg (by omega), if_neg (by omega)]
  rw [hashMeetsTarget_iff, htarget, hzero, Nat.le_zero]

lemma not_overflows (h : bits >>> 24 ≤ 32) : ¬ overflows bits := by
  rintro ⟨-, h | ⟨-, h⟩ | ⟨-, h⟩⟩ <;> omega

/-- **The check and the sign**: the client's check of the work is right exactly if the hash is above
what the bits stand for whenever these read as negative, and the hash is not zero unless the bits
stand for a positive number that fits. -/
theorem checksWork_iff (hbits : bits < 2 ^ 32) : ChecksWork bits hash ↔
    (isNegative bits → bits >>> 24 ≤ 32 → setCompact bits < leNat hash.toList) ∧
      (leNat hash.toList = 0 → ¬ isNegative bits ∧ setCompact bits ≠ 0 ∧ ¬ overflows bits) := by
  constructor
  · rintro ⟨hsound, -⟩
    refine ⟨fun hneg hsize => ?_, fun hzero => ?_⟩
    · by_contra hle
      exact (hsound ((accepts_iff hsize).mpr (not_lt.mp hle))).positive.1 hneg
    · have haccepts : hashMeetsTarget hash (targetFromBits bits) = true := by
        rw [hashMeetsTarget_iff, hzero]
        exact Nat.zero_le _
      have hwork := hsound haccepts
      exact ⟨hwork.positive.1, hwork.positive.2, hwork.fits⟩
  · rintro ⟨hneg, hzero⟩
    refine ⟨fun haccepts => ?_, fun hwork hcanonical hlt =>
      (accepts_iff (hcanonical.shift_le hlt)).mpr hwork.meets⟩
    by_cases hhash : leNat hash.toList = 0
    · obtain ⟨hpos, hne, hfits⟩ := hzero hhash
      exact ⟨⟨hpos, hne⟩, hfits, hhash ▸ Nat.zero_le _⟩
    by_cases hsize : bits >>> 24 ≤ 32
    · rw [accepts_iff hsize] at haccepts
      refine ⟨⟨fun hn => ?_, by omega⟩, not_overflows hsize, haccepts⟩
      exact absurd (hneg hn hsize) (not_lt.mpr haccepts)
    · exact absurd ((accepts_large_iff hbits (not_le.mp hsize)).mp haccepts) hhash

end Work

/-- The easiest bits, and a hash below them. -/
theorem checksWork_iff_regtest : ChecksWork 0x207fffff (toLe 32 (2 ^ 254)) :=
  (checksWork_iff (by decide)).mpr ⟨fun h => absurd h (by decide +kernel), fun h =>
    absurd h (by decide +kernel)⟩

/-! ### A negative target -/

namespace Regtest

open Chain.Regtest

/-- A block whose bits have the sign set, below what they stand for without it. -/
def negative : RawHeader := header genesisHash 1005 0x20ffffff 2
def hashNegative : Hash := toLe 32 0x372d6d278f483915380a5cbdac564da243b285ece623e40e833b094469178832
def digestNegative : Hash := toLe 32 0x355822476951402eb3f2fd34f7ccaa7f7bd58ed0b36ae28abe73b49cb22f7340

def negativeEnv : Env where
  sha256 data := ([(negative.toList, digestNegative), (digestNegative.toList, hashNegative)].lookup
    data).getD (zeros 32)
  minimumBalance len := 6960 * (len + 128)
  mainnet := false

def negativeAccounts : List AccountInfo :=
  [info .lightClient, wallet, info (.other (zeros 32)), info (.block genesisHash),
    info (.block hashNegative), info (.heightIndex 101), info (.heightIndex 100)]

def extended : Option State :=
  (processInitialize negativeEnv emptyState initAccounts initData 0).toOption.bind fun s =>
    (processExtendBlockchain negativeEnv s negativeAccounts (1 :: negative.toList) 0).toOption

lemma extended_isSome : extended.isSome = true := by decide +kernel

end Regtest

open Chain.Regtest Regtest in
/-- **A negative target is accepted**: on regtest the chain is extended by a block whose bits the
network refuses. -/
theorem negative_accepted : ∃ s s',
    processInitialize negativeEnv emptyState initAccounts initData 0 = .ok s ∧
    processExtendBlockchain negativeEnv s negativeAccounts (1 :: negative.toList) 0 = .ok s' ∧
    negative ∈ rawHeaders (1 :: negative.toList) ∧ isNegative negative.bits ∧
    hashMeetsTarget (blockHashOf negativeEnv negative) (targetFromBits negative.bits) = true ∧
    ¬ ChecksWork negative.bits (blockHashOf negativeEnv negative) := by
  obtain ⟨s', hs'⟩ := Option.isSome_iff_exists.mp extended_isSome
  obtain ⟨s, hs, hextend⟩ := Option.bind_eq_some_iff.mp hs'
  have hneg : isNegative negative.bits := by decide +kernel
  have hmeets : hashMeetsTarget (blockHashOf negativeEnv negative) (targetFromBits negative.bits) =
      true := by decide +kernel
  exact ⟨s, s', Check.toOption_eq_some.mp hs, Check.toOption_eq_some.mp hextend, by decide +kernel,
    hneg, hmeets, fun h => (h.1 hmeets).positive.1 hneg⟩

end Utxopia.LightClient.Compact
