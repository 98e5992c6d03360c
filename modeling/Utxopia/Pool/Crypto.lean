import Utxopia.Pool.Validate

/-!
Field elements, Poseidon and the hashes built from them.

A field element is 32 bytes, big end first. The Poseidon calls reduce their inputs into the
field before the syscall, so the syscall never sees a value it refuses.
-/

namespace Utxopia.Pool

open Utxopia.ByteString Utxopia.Check Utxopia.Runtime

/-- `BN254_FR_MODULUS`. -/
def frModulus : Hash := ofList 32
  [0x30, 0x64, 0x4e, 0x72, 0xe1, 0x31, 0xa0, 0x29, 0xb8, 0x50, 0x45, 0xb6, 0x81, 0x81, 0x58, 0x5d,
   0x28, 0x33, 0xe8, 0x48, 0x79, 0xb9, 0x70, 0x91, 0x43, 0xe1, 0xf5, 0x93, 0xf0, 0x00, 0x00, 0x01]

/-- The first differing byte decides; equal strings count as greater or equal. -/
def isGe : List UInt8 → List UInt8 → Bool
  | a :: as, b :: bs => if a < b then false else if b < a then true else isGe as bs
  | _, _ => true

def isGeModulus (v : Hash) : Bool := isGe v.toList frModulus.toList

def isCanonicalFr (v : Hash) : Bool := !isGeModulus v

/-- Subtraction with borrow, last byte first; the borrow out of the first byte is dropped. -/
def subBorrow : List UInt8 → List UInt8 → List UInt8 × ℕ
  | a :: as, b :: bs =>
    let (rest, borrow) := subBorrow as bs
    let diff := (a.toNat + 2 ^ 16 - b.toNat - borrow) % 2 ^ 16
    (UInt8.ofNat diff :: rest, if diff > 0xFF then 1 else 0)
  | _, _ => ([], 0)

def subtractModulus (v : Hash) : Hash := ofList 32 (subBorrow v.toList frModulus.toList).1

/-- Subtract the modulus while it fits, at most `fuel` times. -/
def reduceLoop : ℕ → Hash → Hash
  | 0, v => v
  | fuel + 1, v => if isGeModulus v then reduceLoop fuel (subtractModulus v) else v

/-- `reduce_to_field_exact`: 2^256 is less than six times the modulus. -/
def reduceToFieldExact (v : Hash) : Hash := reduceLoop 6 v

variable (E : Env)

def poseidon2Hash (left right : Hash) : Except ProgramError Hash :=
  orElse (E.poseidon [reduceToFieldExact left, reduceToFieldExact right]) .InvalidArgument

def poseidon3Hash (a b c : Hash) : Except ProgramError Hash :=
  orElse (E.poseidon [reduceToFieldExact a, reduceToFieldExact b, reduceToFieldExact c])
    .InvalidArgument

/-- `n` bytes of a number, big end first. -/
def toBe (n v : ℕ) : List UInt8 := (leBytes n v).reverse

def computeCommitment (npk tokenId : Hash) (amountSats : ℕ) : Except ProgramError Hash :=
  poseidon3Hash E npk tokenId (ofList 32 (List.replicate 24 0 ++ toBe 8 amountSats))

def computeTokenId (mint : Addr) : Except ProgramError Hash :=
  poseidon2Hash E (reduceToFieldExact (E.bytesOf mint)) (zeros 32)

/-- Climb from a leaf to the root: an even index is a left child. -/
def computeMerkleRoot (leaf : Hash) (leafIndex : ℕ) : List Hash → Except ProgramError Hash
  | [] => .ok leaf
  | sibling :: rest => do
    let parent ← if leafIndex % 2 = 0 then poseidon2Hash E leaf sibling
      else poseidon2Hash E sibling leaf
    computeMerkleRoot parent (leafIndex / 2) rest

/-! ### Bound parameters -/

/-- `b"UTXOPIA_DOMAIN_V1"`. -/
def domainSeparatorTag : List UInt8 :=
  [0x55, 0x54, 0x58, 0x4f, 0x50, 0x49, 0x41, 0x5f, 0x44, 0x4f, 0x4d, 0x41, 0x49, 0x4e, 0x5f, 0x56,
   0x31]

def boolByte (b : Bool) : UInt8 := if b then 1 else 0

def computeDomainSeparator (pool : Addr) (permissioned : Bool) : Hash :=
  reduceToFieldExact (E.sha256 (domainSeparatorTag ++ leBytes 8 E.chainId ++ E.programId.toList ++
    (E.bytesOf pool).toList ++ [boolByte permissioned]))

def bindBoundParamsToDomain (operationHash : Hash) (pool : Addr) (permissioned : Bool) :
    Except ProgramError Hash :=
  poseidon2Hash E (computeDomainSeparator E pool permissioned) operationHash

/-- The common layout: four zero bytes, the kind of operation, the hash of where the value
goes, the chain and the hash of the stealth data. -/
def boundParamsPreimage (kind : UInt8) (destination stealth : Hash) : List UInt8 :=
  [0, 0, 0, 0, kind] ++ destination.toList ++ leBytes 8 E.chainId ++ stealth.toList

def computeBoundParamsHashPrivateTransfer (stealthDataHash : Hash) : Hash :=
  reduceToFieldExact (E.sha256 (boundParamsPreimage E 0 (zeros 32) stealthDataHash))

def computeBoundParamsHashUnshield (ownersConcat : List UInt8) (stealthDataHash : Hash) : Hash :=
  reduceToFieldExact (E.sha256 (boundParamsPreimage E 1 (E.sha256 ownersConcat) stealthDataHash))

/-- The items with their count and lengths in front. -/
def lengthPrefixedHash (items : List (List UInt8)) : Hash :=
  E.sha256 (leBytes 4 items.length ++ items.flatMap fun it => leBytes 4 it.length ++ it)

def computeBoundParamsHashRedeem (btcScripts : List (List UInt8)) (stealthDataHash requester : Hash) :
    Hash :=
  reduceToFieldExact (E.sha256
    (boundParamsPreimage E 2 (lengthPrefixedHash E btcScripts) stealthDataHash ++ requester.toList))

end Utxopia.Pool
