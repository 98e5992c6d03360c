import Utxopia.Lib.ByteString

/-!
256-bit arithmetic on four 64-bit limbs, least significant limb first.

The loops over the limbs are folds in the order of the source; comparisons run from the
top limb down and stop at the first difference.
-/

namespace Utxopia.LightClient.U256

open Utxopia.ByteString

abbrev Limbs := Vector UInt64 4

def limb (v : Limbs) (i : ℕ) : UInt64 := v[i]?.getD 0

def u256FromLeBytes (bytes : Bytes 32) : Limbs :=
  Vector.ofFn fun i => UInt64.ofNat (u64At bytes.toList (8 * i))

def u256ToLeBytes (v : Limbs) : Bytes 32 :=
  ofList 32 (v.toList.flatMap fun x => leBytes 8 x.toNat)

def overflowingAdd (a b : UInt64) : UInt64 × UInt64 :=
  (a + b, if 2 ^ 64 ≤ a.toNat + b.toNat then 1 else 0)

def overflowingSub (a b : UInt64) : UInt64 × UInt64 :=
  (a - b, if a < b then 1 else 0)

def u256Add (a b : Limbs) : Limbs :=
  (Fin.foldl 4 (fun (acc : Limbs × UInt64) i =>
    let (s1, c1) := overflowingAdd a[i] b[i]
    let (s2, c2) := overflowingAdd s1 acc.2
    (acc.1.set i s2, c1 + c2)) (Vector.replicate 4 0, 0)).1

/-- `a > b`. -/
def u256GtLimbs (a b : Limbs) : Bool := gtRev false (limb a) (limb b) 4

/-- `a >= b`. -/
def u256Gte (a b : Limbs) : Bool := gtRev true (limb a) (limb b) 4

def u256Sub (a b : Limbs) : Limbs :=
  (Fin.foldl 4 (fun (acc : Limbs × UInt64) i =>
    let (s1, c1) := overflowingSub a[i] b[i]
    let (s2, c2) := overflowingSub s1 acc.2
    (acc.1.set i s2, c1 + c2)) (Vector.replicate 4 0, 0)).1

def u256Shl (v : Limbs) (shift : ℕ) : Limbs :=
  if shift ≥ 256 then Vector.replicate 4 0
  else
    let limbShift := shift / 64
    let bitShift := shift % 64
    Vector.ofFn fun i =>
      if i.val < limbShift then 0
      else
        let low := limb v (i - limbShift) <<< UInt64.ofNat bitShift
        if bitShift > 0 ∧ i.val > limbShift then
          low ||| (limb v (i - limbShift - 1) >>> UInt64.ofNat (64 - bitShift))
        else low

def leadingZeros (x : UInt64) : ℕ := if x = 0 then 64 else 63 - x.toNat.log2

/-- The zeros above the highest set bit, scanning from the top limb. -/
def u256Clz (v : Limbs) : ℕ :=
  (if limb v 3 ≠ 0 then leadingZeros (limb v 3)
   else if limb v 2 ≠ 0 then 64 + leadingZeros (limb v 2)
   else if limb v 1 ≠ 0 then 128 + leadingZeros (limb v 1)
   else if limb v 0 ≠ 0 then 192 + leadingZeros (limb v 0)
   else 256)

def setBit (q : Limbs) (s : ℕ) : Limbs :=
  Vector.ofFn fun i => if i.val = s / 64 then q[i] ||| (1 <<< UInt64.ofNat (s % 64)) else q[i]

/-- The shifts still to try, highest first; remainder and quotient so far. -/
def u256DivLoop (b : Limbs) : ℕ → Limbs × Limbs → Limbs × Limbs
  | 0, acc => acc
  | s + 1, (remainder, quotient) =>
    let shifted := u256Shl b s
    if u256Gte remainder shifted then
      u256DivLoop b s (u256Sub remainder shifted, setBit quotient s)
    else u256DivLoop b s (remainder, quotient)

def u256Div (a b : Limbs) : Limbs :=
  if b = Vector.replicate 4 0 then Vector.replicate 4 0
  else if u256Gte a b = false then Vector.replicate 4 0
  else if u256Clz b < u256Clz a then Vector.replicate 4 0
  else (u256DivLoop b (u256Clz b - u256Clz a + 1) (a, Vector.replicate 4 0)).2

def u256MulU32 (a : Limbs) (b : ℕ) : Limbs :=
  (Fin.foldl 4 (fun (acc : Limbs × ℕ) i =>
    let product := a[i].toNat * b + acc.2
    (acc.1.set i (UInt64.ofNat product), product / 2 ^ 64)) (Vector.replicate 4 0, 0)).1

def u256DivU32 (a : Limbs) (b : ℕ) : Limbs :=
  (Fin.foldl 4 (fun (acc : Limbs × ℕ) j =>
    let i := 3 - j.val
    let dividend := acc.2 * 2 ^ 64 + (limb a i).toNat
    (acc.1.set i (UInt64.ofNat (dividend / b)) (by omega), dividend % b))
    (Vector.replicate 4 0, 0)).1

def byteAt {n : ℕ} (v : Bytes n) (i : ℕ) : UInt8 := v[i]?.getD 0

/-- `a > b` on the 32 bytes. -/
def u256GtBytes (a b : Bytes 32) : Bool := gtRev false (byteAt a) (byteAt b) 32

end Utxopia.LightClient.U256
