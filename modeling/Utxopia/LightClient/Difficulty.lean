import Utxopia.LightClient.Pow

/-!
The bits the next block must carry: retarget at epoch boundaries, the twenty-minute
exception of testnet4, the epoch's own bits otherwise.
-/

namespace Utxopia.LightClient.Difficulty

open Utxopia.ByteString Utxopia.LightClient.U256 Utxopia.LightClient.Pow

def maxTargetBits : ℕ := 0x1d00ffff
def targetTimespan : ℕ := 1209600
def blocksPerEpoch : ℕ := 2016

/-- The number of bytes up to the highest nonzero one among the first `size`. -/
def significant (target : Bytes 32) : ℕ → ℕ
  | 0 => 0
  | size + 1 => if byteAt target size = 0 then significant target size else size + 1

/-- The mantissa of the top three of `size` bytes, padded below when there are fewer. -/
def topMantissa (target : Bytes 32) (size : ℕ) : ℕ :=
  if size ≤ 3 then leNat (target.toList.take size) <<< (8 * (3 - size))
  else
    (byteAt target (size - 1)).toNat <<< 16 ||| (byteAt target (size - 2)).toNat <<< 8 |||
      (byteAt target (size - 3)).toNat

def bitsFromTarget (target : Bytes 32) : ℕ :=
  let size := significant target 32
  if size = 0 then 0
  else
    let mantissa := topMantissa target size
    -- a set sign bit moves the mantissa down one byte
    if mantissa &&& 0x00800000 ≠ 0 then
      (size + 1) <<< 24 ||| ((mantissa >>> 8) &&& 0x007fffff)
    else size <<< 24 ||| (mantissa &&& 0x007fffff)

def calculateNewBits (oldBits actualTimespan : ℕ) : ℕ :=
  let clamped := max (targetTimespan / 4) (min actualTimespan (targetTimespan * 4))
  let multiplied := u256MulU32 (u256FromLeBytes (targetFromBits oldBits)) clamped
  let newTarget := u256ToLeBytes (u256DivU32 multiplied targetTimespan)
  let maxTarget := targetFromBits maxTargetBits
  let capped := if u256GtBytes newTarget maxTarget then maxTarget else newTarget
  bitsFromTarget capped

def requiredBitsForNextBlock (testnet4 : Bool)
    (blockHeight timestamp parentTimestamp epochBits epochStartTime : ℕ) : ℕ :=
  if epochBits = 0 then 0
  else if blockHeight % blocksPerEpoch = 0 then
    calculateNewBits epochBits (parentTimestamp - epochStartTime)
  else if testnet4 ∧ timestamp > parentTimestamp ∧ timestamp - parentTimestamp > 20 * 60 then
    maxTargetBits
  else epochBits

example : calculateNewBits 0x1d00ffff targetTimespan = 0x1d00ffff := by decide +kernel

end Utxopia.LightClient.Difficulty
