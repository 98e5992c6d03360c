import Utxopia.Pool.Crypto
import Mathlib.Data.List.Sort

/-!
The Bitcoin transaction of a redemption and the digests that have to be signed for it.

The inputs are the reserved outputs in a canonical order, the outputs are the recipient's
and, above the dust limit, the change. A signer signs one digest for every input.
-/

namespace Utxopia.Pool

open Utxopia.ByteString Utxopia.Check Utxopia.Runtime

structure SighashInput where
  txid : Hash
  vout : ℕ
  sequence : ℕ
  amountSats : ℕ
  scriptPubkey : List UInt8
  deriving DecidableEq

structure SighashOutput where
  amountSats : ℕ
  scriptPubkey : List UInt8
  deriving DecidableEq

structure ReservedInput where
  txid : Hash
  vout : ℕ
  amountSats : ℕ
  leafCommitment : Option Hash
  deriving DecidableEq

/-- Larger amounts first, then smaller ids, then smaller indices. -/
def ReservedInput.sortsBefore (a b : ReservedInput) : Prop :=
  b.amountSats < a.amountSats ∨
    (a.amountSats = b.amountSats ∧ ((a.txid ≠ b.txid ∧ isGe b.txid.toList a.txid.toList) ∨
      (a.txid = b.txid ∧ a.vout ≤ b.vout)))

instance : DecidableRel ReservedInput.sortsBefore := fun _ _ => inferInstanceAs (Decidable (_ ∨ _))

/-- Stable, as the standard library's sort is. -/
def canonicalSort (items : List ReservedInput) : List ReservedInput :=
  items.insertionSort ReservedInput.sortsBefore

variable (E : Env)

def inputsCommitment (ordered : List ReservedInput) : Hash :=
  E.sha256 (ordered.flatMap fun it => it.txid.toList ++ leBytes 4 it.vout ++ leBytes 8 it.amountSats)

def compactSize (n : ℕ) : List UInt8 :=
  if n < 0xFD then leBytes 1 n
  else if n ≤ 0xFFFF then 0xFD :: leBytes 2 n
  else if n ≤ 0xFFFFFFFF then 0xFE :: leBytes 4 n
  else 0xFF :: leBytes 8 n

def scriptBytes (script : List UInt8) : List UInt8 := compactSize script.length ++ script

/-- `b"TapSighash"`. -/
def tapSighashTag : List UInt8 := [0x54, 0x61, 0x70, 0x53, 0x69, 0x67, 0x68, 0x61, 0x73, 0x68]

/-- The tag twice, the hash type, and what the inputs and outputs hash to. -/
def sighashMidstate (version locktime : ℕ) (inputs : List SighashInput)
    (outputs : List SighashOutput) : List UInt8 :=
  let tag := (E.sha256 tapSighashTag).toList
  tag ++ tag ++ [0x00, 0x00] ++ leBytes 4 version ++ leBytes 4 locktime ++
    (E.sha256 (inputs.flatMap fun i => i.txid.toList ++ leBytes 4 i.vout)).toList ++
    (E.sha256 (inputs.flatMap fun i => leBytes 8 i.amountSats)).toList ++
    (E.sha256 (inputs.flatMap fun i => scriptBytes i.scriptPubkey)).toList ++
    (E.sha256 (inputs.flatMap fun i => leBytes 4 i.sequence)).toList ++
    (E.sha256 (outputs.flatMap fun o => leBytes 8 o.amountSats ++ scriptBytes o.scriptPubkey)).toList

def taprootKeyspendPreimage (version locktime : ℕ) (inputs : List SighashInput)
    (outputs : List SighashOutput) (inputIndex : ℕ) : List UInt8 :=
  sighashMidstate E version locktime inputs outputs ++ [0x00] ++ leBytes 4 inputIndex

def taprootScriptspendPreimage (version locktime : ℕ) (inputs : List SighashInput)
    (outputs : List SighashOutput) (inputIndex : ℕ) (leafHash : Hash) : List UInt8 :=
  sighashMidstate E version locktime inputs outputs ++ [0x02] ++ leBytes 4 inputIndex ++
    leafHash.toList ++ [0x00] ++ leBytes 4 0xFFFFFFFF

def taprootKeyspendSighash (preimage : List UInt8) : Hash := E.sha256 preimage

def ikaMessageDigest (preimage : List UInt8) : Hash := E.keccak256 preimage

/-! ### Deposits to a tweaked key -/

def depositNumsInternalKey : Hash := ofList 32
  [0x50, 0x92, 0x9b, 0x74, 0xc1, 0xa0, 0x49, 0x54, 0xb7, 0x8b, 0x4b, 0x60, 0x35, 0xe9, 0x7a, 0x5e,
   0x07, 0x8a, 0x5a, 0x0f, 0x28, 0xec, 0x96, 0xd5, 0x47, 0xbf, 0xee, 0x9a, 0xce, 0x80, 0x3a, 0xc0]

def tapleafTagHash : List UInt8 :=
  [0xae, 0xea, 0x8f, 0xdc, 0x42, 0x08, 0x98, 0x31, 0x05, 0x73, 0x4b, 0x58, 0x08, 0x1d, 0x1e, 0x26,
   0x38, 0xd3, 0x5f, 0x1c, 0xb5, 0x40, 0x08, 0xd4, 0xd3, 0x57, 0xca, 0x03, 0xbe, 0x78, 0xe9, 0xee]

/-- Push the commitment, drop it, and check a signature of the wallet. -/
def depositLeafScript (commitment ikaXonly : Hash) : List UInt8 :=
  0x20 :: commitment.toList ++ [0x75, 0x20] ++ ikaXonly.toList ++ [0xac]

def depositLeafHash (commitment ikaXonly : Hash) : Hash :=
  let script := depositLeafScript commitment ikaXonly
  E.sha256 (tapleafTagHash ++ tapleafTagHash ++ [0xc0, UInt8.ofNat script.length] ++ script)

/-- The script of a taproot output. -/
def taprootScript (outputKey : Hash) : List UInt8 := 0x51 :: 0x20 :: outputKey.toList

/-- `derive_taproot_output_key` under the key nobody knows. -/
def deriveTaprootOutputKey (leafHash : Hash) : Except ProgramError Hash :=
  orElse (E.taprootOutputKey depositNumsInternalKey leafHash) UTXOpiaError.TaprootVerificationFailed

/-! ### The transaction of a redemption -/

def btcTxVersion : ℕ := 2
def btcTxLocktime : ℕ := 0
def btcInputSequence : ℕ := 0xFFFFFFFD
def btcDustThresholdSats : ℕ := 330

structure RedemptionTx where
  inputs : List SighashInput
  outputs : List SighashOutput
  leafHashes : List (Option Hash)
  deriving DecidableEq

/-- The script an input spends and the hash of its leaf: a tweaked deposit's own, else the
pool's. -/
def inputScript (cfg : PoolConfig) (r : ReservedInput) :
    Except ProgramError (List UInt8 × Option Hash) :=
  match r.leafCommitment with
  | some commitment => do
    let leafHash := depositLeafHash E commitment cfg.ikaDwalletXonlyPubkey
    let key ← deriveTaprootOutputKey E leafHash
    return (taprootScript key, some leafHash)
  | none => do
    require (cfg.poolScript.length = 34) UTXOpiaError.InvalidUtxo
    return (cfg.poolScript, none)

def redemptionOutputs (cfg : PoolConfig) (recipient : List UInt8) (sendAmount change : ℕ) :
    List SighashOutput :=
  ⟨sendAmount, recipient⟩ ::
    if change > btcDustThresholdSats then [⟨change, cfg.poolScript⟩] else []

/-- The transaction that pays `sendAmount` from the inputs, already in their order. -/
def buildRedemptionTx (cfg : PoolConfig) (recipient : List UInt8) (sendAmount change : ℕ)
    (ordered : List ReservedInput) : Except ProgramError RedemptionTx := do
  let scripts ← ordered.mapM (inputScript E cfg)
  return {
    inputs := List.zipWith
      (fun r s => ⟨r.txid, r.vout, btcInputSequence, r.amountSats, s.1⟩) ordered scripts
    outputs := redemptionOutputs cfg recipient sendAmount change
    leafHashes := scripts.map Prod.snd }

/-- What is hashed for the signature of an input. -/
def RedemptionTx.preimage (tx : RedemptionTx) (inputIndex : ℕ) : List UInt8 :=
  match tx.leafHashes.getD inputIndex none with
  | some leafHash =>
    taprootScriptspendPreimage E btcTxVersion btcTxLocktime tx.inputs tx.outputs inputIndex leafHash
  | none => taprootKeyspendPreimage E btcTxVersion btcTxLocktime tx.inputs tx.outputs inputIndex

/-- The digest the Ika network is asked to sign for an input. -/
def RedemptionTx.digest (tx : RedemptionTx) (inputIndex : ℕ) : Hash :=
  ikaMessageDigest E (tx.preimage E inputIndex)

end Utxopia.Pool
