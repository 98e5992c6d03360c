import Utxopia.Lib.While
import Utxopia.Pool.Canonical
import Utxopia.Pool.Secp256k1

/-!
Reduction into the field.

The bytes of a field element are compared and subtracted one by one, the last one first with a borrow.
What the subtractions leave is the remainder, so two byte strings are one element exactly if their
numbers are congruent.
-/

namespace Utxopia.Pool

open Utxopia.ByteString Utxopia.Positional Utxopia.While
open Utxopia.Pool.Secp256k1 (beNat)

variable {v w : Hash} {as bs : List UInt8}

/-- The order of the scalar field of BN254. -/
def fieldOrder : ℕ := 21888242871839275222246405745257275088548364400416034343698204186575808495617

lemma beNat_frModulus : beNat frModulus.toList = fieldOrder := by decide +kernel

/-! ### Numbers, big end first -/

@[simp] lemma beNat_nil : beNat [] = 0 := rfl

@[simp] lemma beNat_cons (b : UInt8) (l : List UInt8) :
    beNat (b :: l) = b.toNat * 256 ^ l.length + beNat l := leNat_reverse_cons b l

lemma beNat_lt (l : List UInt8) : beNat l < 256 ^ l.length := by
  have h := leNat_lt l.reverse
  rwa [List.length_reverse] at h

lemma beNat_inj (hlen : as.length = bs.length) (h : beNat as = beNat bs) : as = bs := by
  refine List.reverse_injective (leNat_inj ?_ h)
  rw [List.length_reverse, List.length_reverse, hlen]

/-- **Borrowing subtracts**: what is missing is the borrow that is left. -/
theorem subBorrow_spec (hlen : as.length = bs.length) :
    (subBorrow as bs).1.length = as.length ∧ (subBorrow as bs).2 ≤ 1 ∧
      beNat as + (subBorrow as bs).2 * 256 ^ as.length = beNat bs + beNat (subBorrow as bs).1 := by
  induction as generalizing bs with
  | nil =>
    obtain rfl := List.length_eq_zero_iff.mp hlen.symm
    simp [subBorrow]
  | cons a as ih =>
    obtain ⟨b, bs, rfl⟩ := List.exists_cons_of_length_eq_add_one hlen.symm
    obtain ⟨hrest, hborrow, hsub⟩ := ih (Nat.succ.inj hlen)
    have hbytes : as.length = bs.length := Nat.succ.inj hlen
    simp only [subBorrow, List.length_cons, beNat_cons, UInt8.toNat_ofNat', hrest, ← hbytes]
    generalize (subBorrow as bs).2 = borrow at *
    have ha := UInt8.toNat_lt a
    have hb := UInt8.toNat_lt b
    -- a byte that is large enough leaves no borrow
    by_cases hge : b.toNat + borrow ≤ a.toNat
    · have hdiff : (a.toNat + 2 ^ 16 - b.toNat - borrow) % 2 ^ 16 = a.toNat - b.toNat - borrow := by omega
      rw [hdiff, if_neg (by omega), Nat.mod_eq_of_lt (by omega)]
      refine ⟨trivial, Nat.zero_le _, ?_⟩
      obtain ⟨c, hc⟩ : ∃ c, a.toNat = b.toNat + borrow + c := ⟨_, (Nat.add_sub_of_le hge).symm⟩
      rw [show a.toNat - b.toNat - borrow = c by omega, hc]
      linarith
    · have hdiff : (a.toNat + 2 ^ 16 - b.toNat - borrow) % 2 ^ 16 =
          a.toNat + 2 ^ 16 - b.toNat - borrow := by omega
      rw [hdiff, if_pos (by omega),
        show (a.toNat + 2 ^ 16 - b.toNat - borrow) % 2 ^ 8 = a.toNat + 256 - b.toNat - borrow by omega]
      refine ⟨trivial, le_rfl, ?_⟩
      obtain ⟨c, hc⟩ : ∃ c, a.toNat + 256 = b.toNat + borrow + c :=
        ⟨_, (Nat.add_sub_of_le (by omega)).symm⟩
      rw [show a.toNat + 256 - b.toNat - borrow = c by omega, Nat.pow_succ]
      have hscaled := congrArg (· * 256 ^ as.length) hc
      simp only [Nat.add_mul] at hscaled
      linarith

/-! ### The loop -/

lemma isGeModulus_iff : isGeModulus v = true ↔ fieldOrder ≤ beNat v.toList := by
  rw [isGeModulus, isGe_iff (by simp), ← beNat_frModulus]
  rfl

/-- The check of an input accepts the reduced numbers. -/
lemma isCanonicalFr_iff : isCanonicalFr v = true ↔ beNat v.toList < fieldOrder := by
  rw [isCanonicalFr, Bool.not_eq_true', ← Bool.not_eq_true, isGeModulus_iff, not_le]

lemma beNat_subtractModulus (h : fieldOrder ≤ beNat v.toList) :
    beNat (subtractModulus v).toList = beNat v.toList - fieldOrder := by
  have hbytes : v.toList.length = 32 := by simp
  have hmodulus : v.toList.length = frModulus.toList.length := by simp
  obtain ⟨hlen, hborrow, hsub⟩ := subBorrow_spec hmodulus
  have hlt := beNat_lt (subBorrow v.toList frModulus.toList).1
  rw [subtractModulus, toList_ofList (hlen.trans hbytes)]
  rw [beNat_frModulus] at hsub
  rw [hlen] at hlt
  obtain hzero | hone : (subBorrow v.toList frModulus.toList).2 = 0 ∨
      (subBorrow v.toList frModulus.toList).2 = 1 := by omega
  · rw [hzero] at hsub
    omega
  · rw [hone] at hsub
    omega

/-- One pass: subtract, if the number is not reduced. -/
def reducePass (v : Hash) : Hash ⊕ Hash :=
  if isGeModulus v then .inr (subtractModulus v) else .inl v

lemma reducePass_inr (h : reducePass v = .inr w) :
    fieldOrder ≤ beNat v.toList ∧ beNat w.toList = beNat v.toList - fieldOrder := by
  unfold reducePass at h
  split_ifs at h with hge
  obtain rfl := Sum.inr.inj h
  have hle := isGeModulus_iff.mp hge
  exact ⟨hle, beNat_subtractModulus hle⟩

lemma reducePass_inl (h : reducePass v = .inl w) : w = v ∧ beNat w.toList < fieldOrder := by
  unfold reducePass at h
  split_ifs at h with hge
  obtain rfl := Sum.inl.inj h
  exact ⟨rfl, not_le.mp fun hle => hge (isGeModulus_iff.mpr hle)⟩

lemma reduceLoop_succ (n : ℕ) (v : Hash) :
    reduceLoop (n + 1) v = (reducePass v).elim id (reduceLoop n) := by
  simp only [reduceLoop, reducePass, apply_ite (Sum.elim id (reduceLoop n)), Sum.elim_inl,
    Sum.elim_inr, id_eq]

/-- **The reduction ends** with the result of the program: there are as many passes as the number holds
the order, and one to see that it is reduced. -/
theorem reduce_returns (v : Hash) : Returns reducePass v (reduceToFieldExact v) := by
  refine returns_of_measure reduceLoop_succ (fun w => beNat w.toList / fieldOrder) ?_ ?_
  · intro w w' hpass
    obtain ⟨hle, hsub⟩ := reducePass_inr hpass
    have hdiv := Nat.div_eq_sub_div (show 0 < fieldOrder by decide) hle
    rw [← hsub] at hdiv
    exact Nat.lt_of_succ_le hdiv.ge
  · have hlt := beNat_lt v.toList
    rw [Vector.length_toList] at hlt
    exact Nat.div_lt_of_lt_mul (hlt.trans_le (by decide))

/-- **The result** is the remainder. -/
theorem beNat_reduceToFieldExact (v : Hash) :
    beNat (reduceToFieldExact v).toList = beNat v.toList % fieldOrder := by
  refine (reduce_returns v).ensures
    (I := fun w => beNat w.toList % fieldOrder = beNat v.toList % fieldOrder)
    (P := fun w => beNat w.toList = beNat v.toList % fieldOrder) rfl ?_ ?_
  · intro w w' hw hpass
    obtain ⟨hle, hsub⟩ := reducePass_inr hpass
    rw [hsub, ← Nat.mod_eq_sub_mod hle, hw]
  · intro w r hw hpass
    obtain ⟨rfl, hlt⟩ := reducePass_inl hpass
    rw [← hw, Nat.mod_eq_of_lt hlt]

/-- **Field elements**: for every byte string the loop ends, with the remainder of its number, and two
byte strings are reduced to one element exactly if their numbers are congruent. -/
theorem reduceToFieldExact_spec (v : Hash) : Returns reducePass v (reduceToFieldExact v) ∧
    beNat (reduceToFieldExact v).toList = beNat v.toList % fieldOrder ∧
    beNat (reduceToFieldExact v).toList < fieldOrder ∧ isCanonicalFr (reduceToFieldExact v) = true ∧
    ∀ w, reduceToFieldExact v = reduceToFieldExact w ↔
      beNat v.toList ≡ beNat w.toList [MOD fieldOrder] := by
  have hmod := beNat_reduceToFieldExact v
  have hlt : beNat (reduceToFieldExact v).toList < fieldOrder := by
    rw [hmod]
    exact Nat.mod_lt _ (by decide)
  refine ⟨reduce_returns v, hmod, hlt, isCanonicalFr_iff.mpr hlt, fun w => ?_⟩
  rw [Nat.ModEq, ← hmod, ← beNat_reduceToFieldExact w]
  constructor
  · rintro heq
    rw [heq]
  · exact fun heq => Vector.toList_inj.mp (beNat_inj (by simp) heq)

end Utxopia.Pool
