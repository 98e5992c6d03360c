import Utxopia.Lib.Groth16
import Utxopia.Pool.FieldElements
import Utxopia.Pool.Nullifiers
import Utxopia.Pool.VerifyingKeys

/-!
The verifier of proofs.

It negates the first point of a proof byte by byte, adds up the point that the public inputs select,
and asks for one sum of pairings. The curve is the runtime's: its three calls take points as bytes and
refuse bytes that are no points. They do not reduce scalars, so the verifier refuses inputs that are
not reduced.
-/

namespace Utxopia.Pool

open Utxopia.ByteString Utxopia.Check Utxopia.Groth16 Utxopia.Positional Utxopia.Run
open Utxopia.Pool.Secp256k1 (beNat)

/-- The calls into the curve. -/
structure AltBn128 where
  addition : List UInt8 → Option (Bytes 64)
  multiplication : List UInt8 → Option (Bytes 64)
  pairing : List UInt8 → Option (List UInt8)

inductive Groth16Error where
  | InvalidInstructionData
  | InvalidProofPoint
  | PublicInputNotInField
  deriving DecidableEq, Repr

/-- `BN254_FIELD_MODULUS`. -/
def bn254FieldModulus : Hash := ofList 32
  [0x30, 0x64, 0x4e, 0x72, 0xe1, 0x31, 0xa0, 0x29, 0xb8, 0x50, 0x45, 0xb6, 0x81, 0x81, 0x58, 0x5d,
   0x97, 0x81, 0x6a, 0x91, 0x68, 0x71, 0xca, 0x8d, 0x3c, 0x20, 0x8c, 0x16, 0xd8, 0x7c, 0xfd, 0x47]

/-- Subtraction with borrow, last byte first. -/
def borrowFrom : List UInt8 → List UInt8 → List UInt8 × ℕ
  | a :: as, b :: bs =>
    let (rest, borrow) := borrowFrom as bs
    let b := (b.toNat + borrow) % 2 ^ 16
    if b ≤ a.toNat then (UInt8.ofNat (a.toNat - b) :: rest, 0)
    else (UInt8.ofNat ((a.toNat + 256 + 2 ^ 16 - b) % 2 ^ 16) :: rest, 1)
  | _, _ => ([], 0)

/-- The same x, and y subtracted from the modulus. -/
def negateG1 (point : Bytes 64) : Bytes 64 :=
  ofList 64 (point.toList.take 32 ++ (borrowFrom bn254FieldModulus.toList (point.toList.drop 32)).1)

/-- 31 zero bytes and a one. -/
def validPairing : List UInt8 := List.replicate 31 0 ++ [1]

section Verifier

variable (S : AltBn128)

/-- Add an input's share: its point times the input. -/
def addInput (vkX : Bytes 64) (item : Hash × Bytes 64) : Except Groth16Error (Bytes 64) := do
  require (isCanonicalFr item.1) .PublicInputNotInField
  let term ← orElse (S.multiplication (item.2.toList ++ item.1.toList)) .InvalidInstructionData
  orElse (S.addition (vkX.toList ++ term.toList)) .InvalidInstructionData

def verifyGroth16Proof (proofBytes : List UInt8) (publicInputs : List Hash) (alpha : Bytes 64)
    (beta gamma delta : Bytes 128) (ic : List (Bytes 64)) : Except Groth16Error Unit := do
  require (proofBytes.length = 256) .InvalidInstructionData
  require (ic.length = publicInputs.length + 1) .InvalidInstructionData
  let piA : Bytes 64 := slice 64 proofBytes 0
  let piB : Bytes 128 := slice 128 proofBytes 64
  let piC : Bytes 64 := slice 64 proofBytes 192
  -- a zero here would take the second point out of the equation
  require (piA ≠ zeros 64) .InvalidProofPoint
  let vkX ← loop (addInput S) (ic.headD (zeros 64)) (publicInputs.zip ic.tail)
  let result ← orElse (S.pairing (
    (negateG1 piA).toList ++ piB.toList ++ (alpha.toList ++ beta.toList) ++
      (vkX.toList ++ gamma.toList) ++ (piC.toList ++ delta.toList))) .InvalidInstructionData
  require (result = validPairing) .InvalidInstructionData

/-- All circuits share three points of their keys. -/
def verifyGroth16JoinsplitProof (proofBytes : List UInt8) (publicInputs : List Hash)
    (deltaG2 : Bytes 128) (ic : List (Bytes 64)) : Except Groth16Error Unit :=
  verifyGroth16Proof S proofBytes publicInputs (ofList 64 alphaG1) (ofList 128 betaG2)
    (ofList 128 gammaG2) deltaG2 ic

end Verifier

/-! ### What the calls do -/

variable {G₁ G₂ T : Type} [AddCommGroup G₁] [AddCommGroup G₂] [AddCommGroup T]

/-- The bytes of a list of pairs of points. -/
def pairBytes (pairs : List (Bytes 64 × Bytes 128)) : List UInt8 :=
  pairs.flatMap fun p => p.1.toList ++ p.2.toList

/-- The first coordinate of a point, and the second. -/
def coordX (b : Bytes 64) : List UInt8 := b.toList.take 32
def coordY (b : Bytes 64) : List UInt8 := b.toList.drop 32

open Classical in
/-- The calls compute in two groups with a pairing, on the encodings of points. The zero is 64 zero
bytes. Other points are pairs of coordinates, and those of opposite points have the same x, and y that
add up to the modulus. -/
structure AltBn128.Computes (S : AltBn128) (e : G₁ →+ G₂ →+ T) (g₁ : Codec G₁ 64) (g₂ : Codec G₂ 128) :
    Prop where
  addition : ∀ a b : Bytes 64, S.addition (a.toList ++ b.toList) =
    (g₁.decode a).bind fun P => (g₁.decode b).map fun Q => g₁.encode (P + Q)
  multiplication : ∀ (a : Bytes 64) (s : Hash), S.multiplication (a.toList ++ s.toList) =
    (g₁.decode a).map fun P => g₁.encode (beNat s.toList • P)
  pairing : ∀ pairs : List (Bytes 64 × Bytes 128), S.pairing (pairBytes pairs) =
    (pairs.mapM fun p => (g₁.decode p.1).bind fun P => (g₂.decode p.2).map fun Q => (P, Q)).map
      fun ps => if pairingSum e ps = 0 then validPairing else List.replicate 32 0
  zero : g₁.encode 0 = zeros 64
  coordX_neg : ∀ P, P ≠ 0 → coordX (g₁.encode (-P)) = coordX (g₁.encode P)
  coordY_neg : ∀ P, P ≠ 0 → beNat (coordY (g₁.encode P)) + beNat (coordY (g₁.encode (-P))) =
    beNat bn254FieldModulus.toList

variable {S : AltBn128} {e : G₁ →+ G₂ →+ T} {g₁ : Codec G₁ 64} {g₂ : Codec G₂ 128}

/-! ### Negation -/

lemma subBorrow_borrow_le (as bs : List UInt8) : (subBorrow as bs).2 ≤ 1 := by
  cases as with
  | nil => exact Nat.zero_le 1
  | cons a as =>
    cases bs with
    | nil => exact Nat.zero_le 1
    | cons b bs =>
      simp only [subBorrow]
      split <;> omega

/-- Both subtractions of the program subtract. -/
lemma borrowFrom_eq (as bs : List UInt8) : borrowFrom as bs = subBorrow as bs := by
  induction as generalizing bs with
  | nil => cases bs <;> rfl
  | cons a as ih =>
    cases bs with
    | nil => rfl
    | cons b bs =>
      simp only [borrowFrom, subBorrow, ih]
      have ha := UInt8.toNat_lt a
      have hb := UInt8.toNat_lt b
      have hborrow := subBorrow_borrow_le as bs
      generalize (subBorrow as bs).2 = borrow at *
      rw [Nat.mod_eq_of_lt (by omega : b.toNat + borrow < 2 ^ 16)]
      by_cases hge : b.toNat + borrow ≤ a.toNat
      · have hdiff : (a.toNat + 2 ^ 16 - b.toNat - borrow) % 2 ^ 16 = a.toNat - (b.toNat + borrow) := by
          omega
        rw [if_pos hge, hdiff, if_neg (by omega)]
      · have hdiff : (a.toNat + 2 ^ 16 - b.toNat - borrow) % 2 ^ 16 =
            a.toNat + 2 ^ 16 - b.toNat - borrow := by omega
        have hbyte : (a.toNat + 256 + 2 ^ 16 - (b.toNat + borrow)) % 2 ^ 16 =
            a.toNat + 256 - b.toNat - borrow := by omega
        rw [if_neg hge, hdiff, if_pos (by omega), hbyte]
        refine congrArg (fun x => (x :: _, _)) (UInt8.toNat_inj.mp ?_)
        rw [UInt8.toNat_ofNat', UInt8.toNat_ofNat']
        omega

lemma toList_eq_coords (b : Bytes 64) : b.toList = coordX b ++ coordY b :=
  (List.take_append_drop 32 _).symm

lemma eq_of_coords {b b' : Bytes 64} (hx : coordX b = coordX b') (hy : coordY b = coordY b') :
    b = b' := by
  apply Vector.toList_inj.mp
  rw [toList_eq_coords, hx, hy, toList_eq_coords]

@[simp] lemma length_coordX (b : Bytes 64) : (coordX b).length = 32 := by simp [coordX]

@[simp] lemma length_coordY (b : Bytes 64) : (coordY b).length = 32 := by simp [coordY]

lemma beNat_coordY_lt (b : Bytes 64) : beNat (coordY b) < 256 ^ 32 := by
  have h := beNat_lt (coordY b)
  rwa [length_coordY] at h

lemma beNat_coordY_inj {b b' : Bytes 64} (h : beNat (coordY b) = beNat (coordY b')) :
    coordY b = coordY b' := beNat_inj (by rw [length_coordY, length_coordY]) h

/-- Negation leaves x and subtracts y from the modulus, up to the borrow that is left. -/
lemma negateG1_coords (b : Bytes 64) : coordX (negateG1 b) = coordX b ∧ ∃ borrow,
    beNat bn254FieldModulus.toList + borrow * 256 ^ 32 =
      beNat (coordY b) + beNat (coordY (negateG1 b)) := by
  have hlen : bn254FieldModulus.toList.length = (coordY b).length := by
    rw [length_coordY, Vector.length_toList]
  obtain ⟨hbytes, -, hsub⟩ := subBorrow_spec hlen
  rw [Vector.length_toList] at hbytes hsub
  have hneg : (negateG1 b).toList = coordX b ++ (subBorrow bn254FieldModulus.toList (coordY b)).1 := by
    rw [negateG1, toList_ofList, borrowFrom_eq]
    · rfl
    · rw [borrowFrom_eq, List.length_append, ← coordX, ← coordY, hbytes, length_coordX]
  have hx : coordX (negateG1 b) = coordX b := by
    rw [coordX, hneg, List.take_append_of_le_length (by simp), List.take_of_length_le (by simp)]
  have hy : coordY (negateG1 b) = (subBorrow bn254FieldModulus.toList (coordY b)).1 := by
    rw [coordY, hneg, List.drop_append_of_le_length (by simp), List.drop_eq_nil_of_le (by simp),
      List.nil_append]
  exact ⟨hx, _, hy ▸ hsub⟩

/-- The modulus in the place of y. It is no point, and negating it gives the zero. -/
def unreducedZero : Bytes 64 := ofList 64 ((zeros 32).toList ++ bn254FieldModulus.toList)

/-- The bytes that the verifier takes for the first point of a proof. -/
def EncodesFirst (g₁ : Codec G₁ 64) (b : Bytes 64) (A : G₁) : Prop :=
  (A ≠ 0 ∧ g₁.encode A = b) ∨ (A = 0 ∧ b = unreducedZero)

/-- **Negation**: what is no zero is negated to the opposite of a point exactly if it is that point
or the zero that is not reduced. -/
theorem negateG1_iff (hS : S.Computes e g₁ g₂) {b : Bytes 64} {A : G₁} (hb : b ≠ zeros 64) :
    g₁.encode (-A) = negateG1 b ↔ EncodesFirst g₁ b A := by
  obtain ⟨hx, borrow, hy⟩ := negateG1_coords b
  have hlt := beNat_coordY_lt b
  unfold EncodesFirst
  by_cases hA : A = 0
  · subst hA
    rw [neg_zero, hS.zero]
    simp only [ne_eq, not_true_eq_false, false_and, true_and, false_or]
    constructor
    · intro h
      rw [← h] at hx hy
      have hzero : beNat (coordY (zeros 64)) = 0 := by decide +kernel
      have hmod : beNat (coordY unreducedZero) = beNat bn254FieldModulus.toList := by decide +kernel
      refine eq_of_coords (hx.symm.trans (by decide +kernel)) (beNat_coordY_inj ?_)
      have hborrow : borrow = 0 := by
        by_contra hne
        have := Nat.mul_le_mul_right (256 ^ 32) (Nat.one_le_iff_ne_zero.mpr hne)
        omega
      rw [hborrow] at hy
      omega
    · rintro rfl
      decide +kernel
  · have hsum := hS.coordY_neg A hA
    have hneg := beNat_coordY_lt (g₁.encode (-A))
    simp only [hA, ne_eq, not_false_eq_true, true_and, false_and, or_false]
    constructor
    · intro h
      rw [← h] at hx hy
      refine eq_of_coords ((hS.coordX_neg A hA).symm.trans hx) (beNat_coordY_inj ?_)
      have hborrow : borrow = 0 := by
        by_contra hne
        have := Nat.mul_le_mul_right (256 ^ 32) (Nat.one_le_iff_ne_zero.mpr hne)
        omega
      rw [hborrow] at hy
      omega
    · rintro rfl
      refine eq_of_coords ((hS.coordX_neg A hA).trans hx.symm) (beNat_coordY_inj ?_)
      -- no borrow is left, since y is below the modulus
      have hres := beNat_coordY_lt (negateG1 (g₁.encode A))
      have hborrow : borrow = 0 := by
        by_contra hne
        have := Nat.mul_le_mul_right (256 ^ 32) (Nat.one_le_iff_ne_zero.mpr hne)
        omega
      rw [hborrow] at hy
      omega

/-! ### The point of the inputs -/

lemma addInput_eq_ok (hS : S.Computes e g₁ g₂) {vkX v b : Bytes 64} {x : Hash} :
    addInput S vkX (x, b) = .ok v ↔ beNat x.toList < fieldOrder ∧
      ∃ V P, g₁.encode V = vkX ∧ g₁.encode P = b ∧ v = g₁.encode (V + beNat x.toList • P) := by
  simp only [addInput, bind_eq_ok, require_eq_ok, exists_unit, orElse_eq_ok, isCanonicalFr_iff,
    hS.multiplication, hS.addition, Option.map_eq_some_iff, Option.bind_eq_some_iff,
    g₁.decode_eq_some]
  constructor
  · rintro ⟨hx, _, ⟨P, hP, rfl⟩, V, hV, Q, hQ, rfl⟩
    obtain rfl := g₁.encode_injective hQ
    exact ⟨hx, V, P, hV, hP, rfl⟩
  · rintro ⟨hx, V, P, hV, hP, rfl⟩
    exact ⟨hx, _, ⟨P, hP, rfl⟩, V, hV, _, rfl, rfl⟩

/-- **The loop** ends in a point exactly if it starts in one, all inputs are reduced and all their
points are points. -/
theorem addInputs_iff (hS : S.Computes e g₁ g₂) {xs : List Hash} {bs : List (Bytes 64)}
    (hlen : bs.length = xs.length) {vkX : Bytes 64} {X : G₁} :
    loop (addInput S) vkX (xs.zip bs) = .ok (g₁.encode X) ↔
      (∀ x ∈ xs, beNat x.toList < fieldOrder) ∧ ∃ V Ps, g₁.encode V = vkX ∧ Ps.map g₁.encode = bs ∧
        X = inputPoint V Ps (xs.map fun x => beNat x.toList) := by
  induction xs generalizing bs vkX with
  | nil =>
    obtain rfl := List.length_eq_zero_iff.mp hlen
    simp only [List.zip_nil_left, loop_nil, Except.ok.injEq, List.not_mem_nil, false_imp_iff,
      implies_true, List.map_eq_nil_iff, List.map_nil, inputPoint_nil, true_and]
    constructor
    · rintro rfl
      exact ⟨X, [], rfl, rfl, rfl⟩
    · rintro ⟨V, _, rfl, -, rfl⟩
      rfl
  | cons x xs ih =>
    obtain ⟨b, bs, rfl⟩ := List.exists_cons_of_length_eq_add_one hlen
    have hrest : bs.length = xs.length := Nat.succ.inj hlen
    rw [List.zip_cons_cons, loop_cons_eq_ok]
    simp only [addInput_eq_ok hS, List.forall_mem_cons]
    constructor
    · rintro ⟨_, ⟨hx, V, P, hV, hP, rfl⟩, h⟩
      obtain ⟨hxs, V', Ps, hV', hPs, rfl⟩ := (ih hrest).mp h
      obtain rfl := g₁.encode_injective hV'
      exact ⟨⟨hx, hxs⟩, V, P :: Ps, hV, by rw [List.map_cons, hP, hPs], by simp⟩
    · rintro ⟨⟨hx, hxs⟩, V, Ps, hV, hPs, rfl⟩
      cases Ps with
      | nil => simp at hPs
      | cons P Ps =>
        obtain ⟨hP, hPs⟩ := List.cons.inj hPs
        refine ⟨_, ⟨hx, V, P, hV, hP, rfl⟩, (ih hrest).mpr ⟨hxs, _, Ps, rfl, hPs, ?_⟩⟩
        rw [List.map_cons, inputPoint_cons]

/-! ### The verifier -/

/-- The bytes of a verifying key. -/
def EncodesKey (g₁ : Codec G₁ 64) (g₂ : Codec G₂ 128) (K : Key G₁ G₂) (alpha : Bytes 64)
    (beta gamma delta : Bytes 128) (ic : List (Bytes 64)) : Prop :=
  g₁.encode K.alpha = alpha ∧ g₂.encode K.beta = beta ∧ g₂.encode K.gamma = gamma ∧
    g₂.encode K.delta = delta ∧ (K.base :: K.points).map g₁.encode = ic

/-- A proof for a key and its inputs: the bytes of three points that satisfy the equation, for as
many inputs as the key has points, all of them reduced. -/
def Proves (e : G₁ →+ G₂ →+ T) (g₁ : Codec G₁ 64) (g₂ : Codec G₂ 128) (K : Key G₁ G₂)
    (proofBytes : List UInt8) (publicInputs : List Hash) : Prop :=
  K.points.length = publicInputs.length ∧ (∀ x ∈ publicInputs, beNat x.toList < fieldOrder) ∧
    ∃ a A B C, EncodesFirst g₁ a A ∧
      proofBytes = a.toList ++ (g₂.encode B).toList ++ (g₁.encode C).toList ∧
      K.Verifies e (publicInputs.map fun x => beNat x.toList) A B C

/-- The parts of a proof are its bytes. -/
lemma proof_parts {proofBytes : List UInt8} {a c : Bytes 64} {b : Bytes 128} :
    (proofBytes.length = 256 ∧ slice 64 proofBytes 0 = a ∧ slice 128 proofBytes 64 = b ∧
      slice 64 proofBytes 192 = c) ↔ proofBytes = a.toList ++ b.toList ++ c.toList := by
  constructor
  · rintro ⟨hlen, rfl, rfl, rfl⟩
    rw [toList_slice (by omega), toList_slice (by omega), toList_slice (by omega), List.drop_zero]
    rw [List.take_of_length_le (l := proofBytes.drop 192) (by simp [hlen])]
    have hmid : (proofBytes.drop 64).drop 128 = proofBytes.drop 192 := by rw [List.drop_drop]
    rw [← hmid, List.append_assoc, List.take_append_drop, List.take_append_drop]
  · rintro rfl
    refine ⟨by simp, ?_, ?_, ?_⟩
    · rw [List.append_assoc, slice_toList_append]
    · have h := slice_append 128 a.toList (b.toList ++ c.toList) 0
      rw [Vector.length_toList, slice_toList_append] at h
      rwa [List.append_assoc]
    · have h := slice_append 64 (a.toList ++ b.toList) (c.toList ++ []) 0
      rw [slice_toList_append, List.append_nil] at h
      simpa using h

/-- Sixty-four zero bytes are not taken for a first point. -/
lemma EncodesFirst.ne_zeros (hS : S.Computes e g₁ g₂) {b : Bytes 64} {A : G₁}
    (h : EncodesFirst g₁ b A) : b ≠ zeros 64 := by
  rcases h with ⟨hA, rfl⟩ | ⟨-, rfl⟩
  · exact fun h => hA (g₁.encode_injective (h.trans hS.zero.symm))
  · decide +kernel

omit [AddCommGroup G₁] [AddCommGroup G₂] in
/-- Decoding pairs, one after the other. -/
lemma decodePairs_eq_some {pairs : List (Bytes 64 × Bytes 128)} {ps : List (G₁ × G₂)} :
    (pairs.mapM fun p => (g₁.decode p.1).bind fun P => (g₂.decode p.2).map fun Q => (P, Q)) = some ps ↔
      ps.map (fun p => (g₁.encode p.1, g₂.encode p.2)) = pairs := by
  induction pairs generalizing ps with
  | nil =>
    simp only [List.mapM_nil, Option.pure_def, Option.some_inj, List.map_eq_nil_iff]
    exact eq_comm
  | cons p pairs ih =>
    simp only [List.mapM_cons, Option.bind_eq_bind, Option.bind_eq_some_iff, Option.map_eq_some_iff,
      g₁.decode_eq_some, g₂.decode_eq_some, ih, Option.pure_def, Option.some_inj,
      List.map_eq_cons_iff]
    constructor
    · rintro ⟨_, ⟨P, hP, Q, hQ, rfl⟩, rest, hrest, rfl⟩
      exact ⟨_, _, rfl, Prod.ext hP hQ, hrest⟩
    · rintro ⟨⟨P, Q⟩, rest, rfl, hp, hrest⟩
      exact ⟨_, ⟨P, congrArg Prod.fst hp, Q, congrArg Prod.snd hp, rfl⟩, _, hrest, rfl⟩

/-- What the pairing call answers. -/
lemma pairing_eq_valid (hS : S.Computes e g₁ g₂) {pairs : List (Bytes 64 × Bytes 128)} :
    S.pairing (pairBytes pairs) = some validPairing ↔ ∃ ps : List (G₁ × G₂),
      ps.map (fun p => (g₁.encode p.1, g₂.encode p.2)) = pairs ∧ pairingSum e ps = 0 := by
  rw [hS.pairing, Option.map_eq_some_iff]
  refine exists_congr fun ps => and_congr decodePairs_eq_some ?_
  have hne : List.replicate 32 0 ≠ validPairing := by decide
  by_cases hsum : pairingSum e ps = 0
  · rw [if_pos hsum]
    exact iff_of_true rfl hsum
  · rw [if_neg hsum]
    exact iff_of_false hne hsum

/-- The bytes of the pairing call are those of four pairs. -/
lemma pairBytes_four (a alpha x c : Bytes 64) (b beta gamma delta : Bytes 128) :
    a.toList ++ b.toList ++ (alpha.toList ++ beta.toList) ++ (x.toList ++ gamma.toList) ++
      (c.toList ++ delta.toList) = pairBytes [(a, b), (alpha, beta), (x, gamma), (c, delta)] := by
  simp [pairBytes, List.append_assoc]

/-- What the verifier accepts is a proof for the key that the bytes spell. -/
lemma proves_of_verifyGroth16Proof (hS : S.Computes e g₁ g₂) {proofBytes : List UInt8}
    {publicInputs : List Hash} {alpha : Bytes 64} {beta gamma delta : Bytes 128}
    {ic : List (Bytes 64)}
    (h : verifyGroth16Proof S proofBytes publicInputs alpha beta gamma delta ic = .ok ()) :
    ∃ K, EncodesKey g₁ g₂ K alpha beta gamma delta ic ∧ Proves e g₁ g₂ K proofBytes publicInputs := by
  simp only [verifyGroth16Proof, bind_eq_ok, require_eq_ok, exists_unit, orElse_eq_ok,
    pairBytes_four] at h
  obtain ⟨hlen, hic, hA, vkX, hloop, _, hpair, rfl⟩ := h
  obtain ⟨ps, hps, hsum⟩ := (pairing_eq_valid hS).mp hpair
  obtain ⟨⟨nA, B⟩, ps, rfl, hp₁, hps⟩ := List.map_eq_cons_iff.mp hps
  obtain ⟨⟨α, β⟩, ps, rfl, hp₂, hps⟩ := List.map_eq_cons_iff.mp hps
  obtain ⟨⟨X, γ⟩, ps, rfl, hp₃, hps⟩ := List.map_eq_cons_iff.mp hps
  obtain ⟨⟨C, δ⟩, ps, rfl, hp₄, hps⟩ := List.map_eq_cons_iff.mp hps
  obtain rfl := List.map_eq_nil_iff.mp hps
  simp only [Prod.mk.injEq] at hp₁ hp₂ hp₃ hp₄
  obtain ⟨b, bs, rfl⟩ := List.exists_cons_of_length_eq_add_one hic
  rw [List.headD_cons, List.tail_cons, ← hp₃.1, addInputs_iff hS (Nat.succ.inj hic)] at hloop
  obtain ⟨hxs, V, Ps, hV, hPs, rfl⟩ := hloop
  rw [← neg_neg nA] at hp₁ hsum
  have hfirst := (negateG1_iff hS hA).mp hp₁.1
  refine ⟨⟨α, β, γ, δ, V, Ps⟩, ⟨hp₂.1, hp₂.2, hp₃.2, hp₄.2, by rw [List.map_cons, hV, hPs]⟩, ?_, hxs,
    _, -nA, B, C, hfirst, proof_parts.mp ⟨hlen, rfl, hp₁.2.symm, hp₄.1.symm⟩,
    (Key.verifies_iff_pairingSum _ _ _ _ _ _).mpr hsum⟩
  rw [← Nat.succ.inj hic, ← hPs, List.length_map]

/-- **The verifier** accepts exactly the proofs for the keys that its bytes spell. -/
theorem verifyGroth16Proof_iff (hS : S.Computes e g₁ g₂) {proofBytes : List UInt8}
    {publicInputs : List Hash} {alpha : Bytes 64} {beta gamma delta : Bytes 128}
    {ic : List (Bytes 64)} :
    verifyGroth16Proof S proofBytes publicInputs alpha beta gamma delta ic = .ok () ↔
      ∃ K, EncodesKey g₁ g₂ K alpha beta gamma delta ic ∧ Proves e g₁ g₂ K proofBytes publicInputs := by
  refine ⟨proves_of_verifyGroth16Proof hS, ?_⟩
  rintro ⟨⟨α, β, γ, δ, V, Ps⟩, ⟨rfl, rfl, rfl, rfl, rfl⟩, hlen, hxs, a, A, B, C, hfirst, hproof, hver⟩
  simp only [verifyGroth16Proof, bind_eq_ok, require_eq_ok, exists_unit, orElse_eq_ok, pairBytes_four]
  obtain ⟨hsize, rfl, hB, hC⟩ := proof_parts.mpr hproof
  have hA := hfirst.ne_zeros hS
  refine ⟨hsize, by simpa using hlen, hA,
    g₁.encode (inputPoint V Ps (publicInputs.map fun x => beNat x.toList)), ?_,
    validPairing, ?_, rfl⟩
  · rw [List.map_cons, List.headD_cons, List.tail_cons, addInputs_iff hS (by simpa using hlen)]
    exact ⟨hxs, V, Ps, rfl, rfl, rfl⟩
  · rw [pairing_eq_valid hS, hB, hC, ← (negateG1_iff hS hA).mpr hfirst]
    exact ⟨_, rfl, (Key.verifies_iff_pairingSum _ _ _ _ _ _).mp hver⟩

/-! ### Spends -/

/-- The environment whose proofs are checked by the verifier. -/
def Env.verifying (E : Env) (S : AltBn128) : Env :=
  { E with groth16 := fun proofBytes publicInputs deltaG2 ic =>
      decide (verifyGroth16JoinsplitProof S proofBytes publicInputs deltaG2 ic = .ok ()) }

/-- The numbers of inputs and outputs and the proof of a spend. -/
abbrev SpendProof := JoinSplitHeader × JoinSplitPrefix

def Instruction.proof (E : Env) (s : State) (c : Call) : Instruction → Option SpendProof
  | .Transact => (planTransact E s c).toOption.map fun plan => (plan.header, plan.pre)
  | .Unshield => (planUnshield E s c).toOption.map fun plan => (plan.header, plan.pre)
  | .Redeem => (planRedeem E s c).toOption.map fun plan => (plan.header, plan.pre)
  | _ => none

/-- The proof of a call, if it spends. -/
def Label.proof (E : Env) (s : State) : Label → Option SpendProof
  | .call c => (c.decode E).bind fun (i, c) => i.proof E s c
  | _ => none

/-- The public inputs of a spend. -/
def JoinSplitPrefix.publicInputs (pre : JoinSplitPrefix) : List Hash :=
  pre.merkleRoot :: pre.boundParamsHash :: (pre.nullifiers ++ pre.commitmentsOut)

/-- The proof is one for the registered key of its numbers of inputs and outputs. -/
def Proven (e : G₁ →+ G₂ →+ T) (g₁ : Codec G₁ 64) (g₂ : Codec G₂ 128) (s : State)
    (proof : SpendProof) : Prop :=
  ∃ vk K, s.vkRegistryAt? (proof.1.nInputs, proof.1.nOutputs) = some vk ∧
    EncodesKey g₁ g₂ K (ofList 64 alphaG1) (ofList 128 betaG2) (ofList 128 gammaG2) vk.deltaG2 vk.ic ∧
    Proves e g₁ g₂ K proof.2.proofBytes proof.2.publicInputs

variable {E : Env} {s s' : State} {c : Call} {l : Label} {proof : SpendProof}

/-- Every proof that is checked is one for the registered key. -/
lemma verifyVkMerkleAndProof_proven (hS : S.Computes e g₁ g₂) {pool vkRegistry tree : AccountInfo}
    {activeIndex i : ℕ} {src : Option AccountInfo} {hd : JoinSplitHeader} {pre : JoinSplitPrefix}
    (h : verifyVkMerkleAndProof (E.verifying S) s c pool vkRegistry tree activeIndex src hd pre =
      .ok i) : Proven e g₁ g₂ s (hd, pre) := by
  simp only [verifyVkMerkleAndProof, bind_eq_ok, require_eq_ok, exists_unit, orElse_eq_ok] at h
  obtain ⟨_, -, hkey, vk, hvk, -, -, hproof, -⟩ := h
  rw [hkey] at hvk
  obtain ⟨K, hK, hproves⟩ := proves_of_verifyGroth16Proof hS (of_decide_eq_true hproof)
  exact ⟨vk, K, hvk, hK, hproves⟩

lemma planTransact_proven (hS : S.Computes e g₁ g₂) {plan : TransactPlan}
    (h : planTransact (E.verifying S) s c = .ok plan) : Proven e g₁ g₂ s (plan.header, plan.pre) := by
  simp only [planTransact, bind_eq_ok, exists_unit, require_eq_ok, pure_eq_ok] at h
  obtain ⟨hd, -, -, -, pre, -, -, pool, -, tree, -, vk, -, user, -, sys, -, -, -, p, h⟩ := h
  obtain ⟨-, pt, -, -, tail, -, _, -, _, -, _, -, _, -, _, -, _, -, src, hsrc, rfl⟩ := h
  exact verifyVkMerkleAndProof_proven hS hsrc

lemma planUnshield_proven (hS : S.Computes e g₁ g₂) {plan : UnshieldPlan}
    (h : planUnshield (E.verifying S) s c = .ok plan) : Proven e g₁ g₂ s (plan.header, plan.pre) := by
  simp only [planUnshield, bind_eq_ok, exists_unit, require_eq_ok, pure_eq_ok] at h
  obtain ⟨hd, -, -, -, pre, -, amounts, -, pool, -, tree, -, vk, -, user, -, sys, -, h⟩ := h
  obtain ⟨tokenConfig, -, vault, -, tokenProgram, -, -, -, -, -, program, -, -, -, -, h⟩ := h
  obtain ⟨-, -, -, v, -, -, p, -, -, owners, -, -, -, -, policyTail, -, tail, -, h⟩ := h
  obtain ⟨sourceTree, -, tc, -, -, -, _, -, _, -, -, src, hsrc, -, rfl⟩ := h
  exact verifyVkMerkleAndProof_proven hS hsrc

lemma planRedeem_proven (hS : S.Computes e g₁ g₂) {plan : RedeemPlan}
    (h : planRedeem (E.verifying S) s c = .ok plan) : Proven e g₁ g₂ s (plan.header, plan.pre) := by
  simp only [planRedeem, bind_eq_ok, exists_unit, require_eq_ok, pure_eq_ok, Prod.exists] at h
  obtain ⟨hd, -, -, -, pre, -, items, off, -, -, pool, -, tree, -, vk, -, user, -, h⟩ := h
  obtain ⟨sys, -, tokenConfig, -, -, -, -, -, -, -, -, -, -, p, -, tc, h⟩ := h
  obtain ⟨_, -, -, -, policyTail, -, tail, -, sourceTree, h⟩ := h
  obtain ⟨-, _, -, _, -, -, total, -, -, src, hsrc, -, rfl⟩ := h
  exact verifyVkMerkleAndProof_proven hS hsrc

lemma Label.proof_proven (hS : S.Computes e g₁ g₂) (h : l.proof (E.verifying S) s = some proof) :
    Proven e g₁ g₂ s proof := by
  cases l with
  | call c =>
    obtain ⟨⟨i, c'⟩, -, h⟩ := Option.bind_eq_some_iff.mp h
    cases i with
    | Transact =>
      obtain ⟨plan, hplan, rfl⟩ := Option.map_eq_some_iff.mp h
      exact planTransact_proven hS (toOption_eq_some.mp hplan)
    | Unshield =>
      obtain ⟨plan, hplan, rfl⟩ := Option.map_eq_some_iff.mp h
      exact planUnshield_proven hS (toOption_eq_some.mp hplan)
    | Redeem =>
      obtain ⟨plan, hplan, rfl⟩ := Option.map_eq_some_iff.mp h
      exact planRedeem_proven hS (toOption_eq_some.mp hplan)
    | _ => exact absurd h (by simp [Instruction.proof])
  | fund n a => exact absurd h (by simp [Label.proof])
  | reap a => exact absurd h (by simp [Label.proof])
  | tokenChange a t => exact absurd h (by simp [Label.proof])

/-- What a spend lists is in its proof. -/
lemma Label.spend_proof {sp : Spend} (h : l.spend E s = some sp) :
    ∃ proof, l.proof E s = some proof ∧ proof.2.nullifiers = sp.nullifiers ∧
      proof.2.merkleRoot = sp.merkleRoot := by
  cases l with
  | call c =>
    obtain ⟨⟨i, c'⟩, hd, h⟩ := Option.bind_eq_some_iff.mp h
    simp only [Label.proof, hd, Option.bind_some]
    cases i with
    | Transact | Unshield | Redeem =>
      obtain ⟨plan, hplan, rfl⟩ := Option.map_eq_some_iff.mp h
      exact ⟨_, Option.map_eq_some_iff.mpr ⟨plan, hplan, rfl⟩, rfl, rfl⟩
    | _ => exact absurd h (by simp [Instruction.spend])
  | fund n a => exact absurd h (by simp [Label.spend])
  | reap a => exact absurd h (by simp [Label.spend])
  | tokenChange a t => exact absurd h (by simp [Label.spend])

/-- **A step records the nullifiers of a proof that it verified.** -/
theorem step_proven (hS : S.Computes e g₁ g₂) {l : Label} (eq : step (E.verifying S) s l = .ok s')
    {k : Addr × Option ℕ × Hash} (h : s'.records.nullifiers k ≠ none) :
    s.records.nullifiers k ≠ none ∨ ∃ proof, l.proof (E.verifying S) s = some proof ∧
      k.2.2 ∈ proof.2.nullifiers ∧ Proven e g₁ g₂ s proof ∧
      ∃ i t, nullifierSeed i = k.2.1 ∧ s.records.trees (k.1, i) = some t ∧
        t.isValidRoot proof.2.merkleRoot := by
  rcases step_nullifiers eq k with ⟨hsame, -⟩ | ⟨-, -, hlisted⟩
  · exact .inl (hsame ▸ h)
  · obtain ⟨n, hn, rfl⟩ := List.mem_map.mp hlisted
    cases hsp : l.spend (E.verifying S) s with
    | none => simp [listed, hsp] at hn
    | some sp =>
      rw [listed, hsp, Option.elim_some] at hn
      obtain ⟨nf, hnf, rfl⟩ := List.mem_map.mp hn
      obtain ⟨proof, hproof, hnfs, hroot⟩ := Label.spend_proof hsp
      obtain ⟨t, ht, hvalid⟩ := (step_recorded hsp eq).source
      exact .inr ⟨proof, hproof, hnfs ▸ hnf, Label.proof_proven hS hproof, _, t, rfl, ht, hroot ▸ hvalid⟩

/-- **No nullifier without a proof**: the record of a nullifier was made by a spend whose proof
satisfies the equation of the key that was registered then. The nullifier is one of its public inputs,
and so is the root of a tree of the pool. -/
theorem nullifiers_proven (hS : S.Computes e g₁ g₂) {tr : List (Step State Label)}
    {guard : State → Label → Prop} (run : Reaches (step (E.verifying S)) guard .genesis tr s)
    {k : Addr × Option ℕ × Hash} (h : s.records.nullifiers k ≠ none) :
    ∃ st ∈ tr, ∃ proof, st.call.proof (E.verifying S) st.pre = some proof ∧ k.2.2 ∈ proof.2.nullifiers ∧
      Proven e g₁ g₂ st.pre proof ∧
      ∃ i t, nullifierSeed i = k.2.1 ∧ st.pre.records.trees (k.1, i) = some t ∧
        t.isValidRoot proof.2.merkleRoot := by
  induction run with
  | start => exact absurd rfl h
  | @call tr s s' l run ok eq ih =>
    rcases step_proven hS eq h with hbefore | hproof
    · obtain ⟨st, hst, hproof⟩ := ih hbefore
      exact ⟨st, List.mem_append_left _ hst, hproof⟩
    · exact ⟨_, List.mem_append_right _ (List.mem_singleton_self _), hproof⟩

/-- A recorded nullifier is a reduced element of the field, since it was a public input. -/
lemma nullifiers_reduced (hS : S.Computes e g₁ g₂) {tr : List (Step State Label)}
    {guard : State → Label → Prop} (run : Reaches (step (E.verifying S)) guard .genesis tr s)
    {k : Addr × Option ℕ × Hash} (h : s.records.nullifiers k ≠ none) :
    beNat k.2.2.toList < fieldOrder := by
  induction run with
  | start => exact absurd rfl h
  | @call tr s s' l run ok eq ih =>
    rcases step_proven hS eq h with hbefore | ⟨proof, -, hmem, ⟨vk, K, -, -, -, hinputs, -⟩, -⟩
    · exact ih hbefore
    · exact hinputs _ (by simp [JoinSplitPrefix.publicInputs, hmem])

/-- **One record for a field element**: the nullifiers recorded for a tree are different elements of the
field, not only different bytes. -/
theorem nullifiers_distinct (hS : S.Computes e g₁ g₂) {tr : List (Step State Label)}
    {guard : State → Label → Prop} (run : Reaches (step (E.verifying S)) guard .genesis tr s)
    (a : Addr) (seed : Option ℕ) :
    Set.InjOn (fun x : Hash => (beNat x.toList : ZMod fieldOrder))
      {x | s.records.nullifiers (a, seed, x) ≠ none} := by
  intro x hx y hy h
  have hmod := (ZMod.natCast_eq_natCast_iff _ _ _).mp h
  apply Vector.toList_inj.mp
  refine beNat_inj (by simp) ?_
  rwa [Nat.ModEq, Nat.mod_eq_of_lt (nullifiers_reduced hS run hx),
    Nat.mod_eq_of_lt (nullifiers_reduced hS run hy)] at hmod

/-! ### A curve to run the verifier on -/

/-- Pairs of points read from bytes. -/
def pairsOf : ℕ → List UInt8 → List (Bytes 64 × Bytes 128)
  | 0, _ => []
  | n + 1, d => (slice 64 d 0, slice 128 d 64) :: pairsOf n (d.drop 192)

lemma pairsOf_pairBytes (pairs : List (Bytes 64 × Bytes 128)) :
    pairsOf pairs.length (pairBytes pairs) = pairs := by
  induction pairs with
  | nil => rfl
  | cons p pairs ih =>
    have hbytes : pairBytes (p :: pairs) = p.1.toList ++ (p.2.toList ++ pairBytes pairs) := by
      simp [pairBytes]
    have hsnd := slice_append 128 p.1.toList (p.2.toList ++ pairBytes pairs) 0
    rw [Vector.length_toList, slice_toList_append] at hsnd
    have hrest : (pairBytes (p :: pairs)).drop 192 = pairBytes pairs := by
      rw [hbytes, ← List.append_assoc]
      exact List.drop_left' (by simp)
    rw [List.length_cons, pairsOf, hrest, ih, hbytes, slice_toList_append, hsnd]

lemma length_pairBytes (pairs : List (Bytes 64 × Bytes 128)) :
    (pairBytes pairs).length = 192 * pairs.length := by
  induction pairs with
  | nil => rfl
  | cons p pairs ih =>
    have hbytes : pairBytes (p :: pairs) = p.1.toList ++ (p.2.toList ++ pairBytes pairs) := by
      simp [pairBytes]
    rw [hbytes, List.length_append, List.length_append, ih, Vector.length_toList,
      Vector.length_toList, List.length_cons]
    ring

/-- The calls of two groups with a pairing, the multiples of points being computed by `mul`. -/
def AltBn128.ofGroups [DecidableEq T] (e : G₁ →+ G₂ →+ T) (g₁ : Codec G₁ 64) (g₂ : Codec G₂ 128)
    (mul : ℕ → G₁ → G₁) : AltBn128 where
  addition d := (g₁.decode (slice 64 d 0)).bind fun P =>
    (g₁.decode (slice 64 d 64)).map fun Q => g₁.encode (P + Q)
  multiplication d := (g₁.decode (slice 64 d 0)).map fun P =>
    g₁.encode (mul (beNat (slice 32 d 64 : Hash).toList) P)
  pairing d := ((pairsOf (d.length / 192) d).mapM fun p =>
      (g₁.decode p.1).bind fun P => (g₂.decode p.2).map fun Q => (P, Q)).map
    fun ps => if pairingSum e ps = 0 then validPairing else List.replicate 32 0

lemma AltBn128.ofGroups_computes [DecidableEq T] {mul : ℕ → G₁ → G₁} (hmul : ∀ n P, mul n P = n • P)
    (zero : g₁.encode 0 = zeros 64)
    (coordX_neg : ∀ P, P ≠ 0 → coordX (g₁.encode (-P)) = coordX (g₁.encode P))
    (coordY_neg : ∀ P, P ≠ 0 → beNat (coordY (g₁.encode P)) + beNat (coordY (g₁.encode (-P))) =
      beNat bn254FieldModulus.toList) : (AltBn128.ofGroups e g₁ g₂ mul).Computes e g₁ g₂ where
  addition a b := by
    have h := slice_append 64 a.toList (b.toList ++ []) 0
    rw [Vector.length_toList, slice_toList_append, List.append_nil] at h
    simp only [ofGroups, slice_toList_append, h]
  multiplication a x := by
    have h := slice_append 32 a.toList (x.toList ++ []) 0
    rw [Vector.length_toList, slice_toList_append, List.append_nil] at h
    simp only [ofGroups, slice_toList_append, h, hmul]
  pairing pairs := by
    have hcount : (pairBytes pairs).length / 192 = pairs.length := by
      rw [length_pairBytes]
      omega
    simp only [ofGroups, hcount, pairsOf_pairBytes]
    congr 2
    funext ps
    congr
  zero := zero
  coordX_neg := coordX_neg
  coordY_neg := coordY_neg

namespace Regtest

/-- The second coordinate of the opposite of the key's point. -/
def oppositeY : List UInt8 :=
  [0x1b, 0xa5, 0x71, 0x22, 0xa4, 0xf9, 0xd1, 0x79, 0x56, 0x77, 0x59, 0x56, 0x60, 0xe1, 0x75, 0x17,
   0xc8, 0xf7, 0xe7, 0x87, 0x4f, 0x4e, 0xc7, 0x8b, 0x4b, 0xa9, 0xc1, 0x17, 0xd8, 0x2f, 0xe4, 0x21]

/-- Three points: the zero, the key's own and the opposite of that. -/
def encodeG1 : ZMod 3 → Bytes 64
  | 0 => zeros 64
  | 1 => ofList 64 alphaG1
  | 2 => ofList 64 (alphaG1.take 32 ++ oppositeY)

/-- Three points: the zero and two of the key. -/
def encodeG2 : ZMod 3 → Bytes 128
  | 0 => zeros 128
  | 1 => ofList 128 betaG2
  | 2 => ofList 128 gammaG2

def points : List (ZMod 3) := List.finRange 3

lemma mem_points (P : ZMod 3) : P ∈ points := List.mem_finRange P

lemma encodeG1_injective : Function.Injective encodeG1 := by decide +kernel

lemma encodeG2_injective : Function.Injective encodeG2 := by decide +kernel

def codecG1 : Codec (ZMod 3) 64 := .ofList points encodeG1 mem_points encodeG1_injective

def codecG2 : Codec (ZMod 3) 128 := .ofList points encodeG2 mem_points encodeG2_injective

/-- Multiplication as a pairing. -/
def pair : ZMod 3 →+ ZMod 3 →+ ZMod 3 := AddMonoidHom.mul

def curve : AltBn128 := .ofGroups pair codecG1 codecG2 fun n P => n * P

lemma curve_computes : curve.Computes pair codecG1 codecG2 :=
  AltBn128.ofGroups_computes (fun n P => (nsmul_eq_mul n P).symm) rfl (by decide +kernel) (by decide +kernel)

/-- The input five, and a proof of it: the points 1, 1 and 2. -/
def five : Hash := ofList 32 (List.replicate 31 0 ++ [5])

def proofOfFive : List UInt8 :=
  alphaG1 ++ betaG2 ++ (alphaG1.take 32 ++ oppositeY)

theorem verifyGroth16Proof_curve : ∃ K, EncodesKey codecG1 codecG2 K (ofList 64 alphaG1)
    (ofList 128 betaG2) (ofList 128 gammaG2) (ofList 128 betaG2) [zeros 64, ofList 64 alphaG1] ∧
      Proves pair codecG1 codecG2 K proofOfFive [five] :=
  (verifyGroth16Proof_iff curve_computes).mp (by decide +kernel)

-- The zero that is not reduced passes for a first point.
example : verifyGroth16Proof curve (unreducedZero.toList ++ betaG2 ++
    (alphaG1.take 32 ++ oppositeY)) [] (ofList 64 alphaG1) (ofList 128 betaG2)
    (ofList 128 gammaG2) (ofList 128 betaG2) [zeros 64] = .ok () := by
  decide +kernel

/-- A call with an inline proof. -/
def withProof (proofBytes : List UInt8) : Label → Label
  | .call c => .call { c with data := c.data.take 5 ++ proofBytes ++ c.data.drop 261 }
  | l => l

/-- A transfer with a proof for the key all of whose own points are zero. -/
def provenTransfer : List Label :=
  [openPool, initVk 1 1, withProof (alphaG1 ++ betaG2 ++ (zeros 64).toList)
    (transact 0 (zeroHash treeDepth) [note 1] [note 2])]

lemma run_provenTransfer : (exec (step (env.verifying curve)) (fun _ _ => true) .genesis
    provenTransfer).any (fun s => (s.records.nullifiers (pool, none, note 1)).isSome) = true := by
  decide +kernel

/-- A transfer is proven. -/
theorem nullifiers_proven_transfer : ∃ tr s, tr.map Step.call = provenTransfer ∧
    Reaches (step (env.verifying curve)) (fun _ _ => True) .genesis tr s ∧
    ∃ st ∈ tr, ∃ proof, st.call.proof (env.verifying curve) st.pre = some proof ∧
      note 1 ∈ proof.2.nullifiers ∧ Proven pair codecG1 codecG2 st.pre proof ∧
      ∃ i t, nullifierSeed i = none ∧ st.pre.records.trees (pool, i) = some t ∧
        t.isValidRoot proof.2.merkleRoot := by
  obtain ⟨s, hs, hrec⟩ := (Option.any_eq_true _ _).mp run_provenTransfer
  obtain ⟨tr, hcalls, run⟩ := reaches_of_exec (fun _ _ _ => trivial) hs
  exact ⟨tr, s, hcalls, run,
    nullifiers_proven curve_computes run (k := (pool, none, note 1)) (Option.isSome_iff_ne_none.mp hrec)⟩

theorem nullifiers_distinct_transfer : ∃ s : State,
    (s.records.nullifiers (pool, none, note 1)).isSome = true ∧
    Set.InjOn (fun x : Hash => (beNat x.toList : ZMod fieldOrder))
      {x | s.records.nullifiers (pool, none, x) ≠ none} := by
  obtain ⟨s, hs, hrec⟩ := (Option.any_eq_true _ _).mp run_provenTransfer
  have hany : ∀ s l, (fun _ _ => true : State → Label → Bool) s l = true → True := fun _ _ _ => trivial
  obtain ⟨tr, -, run⟩ := reaches_of_exec hany hs
  exact ⟨s, hrec, nullifiers_distinct curve_computes run pool none⟩

end Regtest

end Utxopia.Pool
