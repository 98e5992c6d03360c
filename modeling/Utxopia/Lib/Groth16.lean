import Mathlib.Algebra.BigOperators.Group.List.Basic
import Mathlib.Algebra.Group.Hom.Instances
import Utxopia.Lib.ByteString

/-!
Groth16 over two groups with a pairing.

All groups are written additively, the target group too, so that a product of pairings is a sum. A
point has at most one encoding, and bytes may encode none.
-/

namespace Utxopia.Groth16

open Utxopia.ByteString

variable {G₁ G₂ T : Type} [AddCommGroup G₁] [AddCommGroup G₂] [AddCommGroup T]

/-- Points as byte strings: what decodes to a point is the encoding of it. -/
structure Codec (G : Type) (n : ℕ) where
  encode : G → Bytes n
  decode : Bytes n → Option G
  decode_eq_some : ∀ {b P}, decode b = some P ↔ encode P = b

namespace Codec

variable {G : Type} {n : ℕ} (C : Codec G n) {bs : List (Bytes n)} {Ps : List G}

@[simp] lemma decode_encode (P : G) : C.decode (C.encode P) = some P := C.decode_eq_some.mpr rfl

lemma encode_injective : Function.Injective C.encode := by
  intro P Q h
  have hP := C.decode_encode P
  rw [h, C.decode_encode] at hP
  exact (Option.some_inj.mp hP).symm

end Codec

/-- The points of a finite group, listed, with different encodings. -/
def Codec.ofList {G : Type} {n : ℕ} (points : List G) (encode : G → Bytes n)
    (complete : ∀ P, P ∈ points) (injective : Function.Injective encode) : Codec G n where
  encode := encode
  decode b := points.find? fun P => (encode P).toList = b.toList
  decode_eq_some := by
    intro b P
    simp only [Vector.toList_inj]
    constructor
    · intro h
      simpa using List.find?_some h
    · rintro rfl
      obtain ⟨Q, hQ⟩ := Option.isSome_iff_exists.mp
        (List.find?_isSome (p := fun Q => encode Q = encode P).mpr ⟨P, complete P, by simp⟩)
      have heq : encode Q = encode P := by simpa using List.find?_some hQ
      rw [hQ, injective heq]

/-- The point that the public inputs select. -/
def inputPoint (base : G₁) (points : List G₁) (inputs : List ℕ) : G₁ :=
  base + (List.zipWith (· • ·) inputs points).sum

@[simp] lemma inputPoint_nil (base : G₁) (points : List G₁) : inputPoint base points [] = base := by
  simp [inputPoint]

@[simp] lemma inputPoint_cons (base P : G₁) (points : List G₁) (x : ℕ) (inputs : List ℕ) :
    inputPoint base (P :: points) (x :: inputs) = inputPoint (base + x • P) points inputs := by
  simp [inputPoint, add_assoc]

/-- A verifying key. -/
structure Key (G₁ G₂ : Type) where
  alpha : G₁
  beta : G₂
  gamma : G₂
  delta : G₂
  base : G₁
  points : List G₁

/-- **The equation** that a proof satisfies for public inputs. -/
def Key.Verifies (K : Key G₁ G₂) (e : G₁ →+ G₂ →+ T) (inputs : List ℕ) (A : G₁) (B : G₂) (C : G₁) :
    Prop :=
  e A B = e K.alpha K.beta + e (inputPoint K.base K.points inputs) K.gamma + e C K.delta

/-- The sum of the pairings of a list of pairs. -/
def pairingSum (e : G₁ →+ G₂ →+ T) (pairs : List (G₁ × G₂)) : T := (pairs.map fun p => e p.1 p.2).sum

/-- The equation is one sum of pairings, with the first point negated. -/
lemma Key.verifies_iff_pairingSum (K : Key G₁ G₂) (e : G₁ →+ G₂ →+ T) (inputs : List ℕ) (A : G₁)
    (B : G₂) (C : G₁) : K.Verifies e inputs A B C ↔ pairingSum e [(-A, B), (K.alpha, K.beta),
      (inputPoint K.base K.points inputs, K.gamma), (C, K.delta)] = 0 := by
  simp only [Key.Verifies, pairingSum, List.map_cons, List.map_nil, List.sum_cons, List.sum_nil,
    map_neg, AddMonoidHom.neg_apply, add_zero]
  rw [neg_add_eq_zero, add_assoc]

end Utxopia.Groth16
