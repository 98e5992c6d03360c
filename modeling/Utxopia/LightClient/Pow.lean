import Utxopia.LightClient.U256

/-!
Compact targets, the proof-of-work check and accumulated work.
-/

namespace Utxopia.LightClient.Pow

open Utxopia.ByteString Utxopia.LightClient.U256

/-- The hash, read as a little-endian number, is at most the target. -/
def hashMeetsTarget (hash target : Bytes 32) : Bool :=
  gtRev true (byteAt target) (byteAt hash) 32

def targetFromBits (bits : ℕ) : Bytes 32 :=
  let exponent := (bits >>> 24) &&& 0xff
  let mantissa := bits &&& 0x007fffff
  if exponent ≤ 3 then
    let value := mantissa >>> (8 * (3 - exponent))
    ofList 32 (leBytes 4 value)
  else
    let byteOffset := exponent - 3
    if byteOffset + 3 ≤ 32 then
      ofList 32 (List.replicate byteOffset 0 ++ leBytes 3 mantissa)
    else zeros 32

/-- `2^256 / (target + 1)`, computed as `!target / (target + 1) + 1`. -/
def calculateChainwork (bits : ℕ) : Bytes 32 :=
  let target := targetFromBits bits
  let targetPlusOne := ofList 32 (addCarry 1 target.toList (zeros 32).toList)
  if targetPlusOne = zeros 32 then zeros 32
  else
    let notTarget := target.map fun b => ~~~b
    let quotient := u256Div (u256FromLeBytes notTarget) (u256FromLeBytes targetPlusOne)
    u256ToLeBytes (u256Add quotient #v[1, 0, 0, 0])

def addChainwork (a b : Bytes 32) : Bytes 32 := ofList 32 (addCarry 0 a.toList b.toList)

example : calculateChainwork 0x207fffff = toLe 32 2 := by decide +kernel

end Utxopia.LightClient.Pow
