import Utxopia.Pool.Counters

/-!
Bitcoin transactions and what the light client says about them.

A transaction is read once, into its inputs and its outputs. Its id is the double hash of
its bytes without the witness. The light client's accounts are another program's: they are
read from the bytes the call brings, at addresses that program derives.
-/

namespace Utxopia.Pool

open Utxopia.ByteString Utxopia.Check Utxopia.Runtime

structure TxInput where
  prevTxid : Hash
  prevVout : ℕ
  deriving DecidableEq

structure TxOutput where
  value : ℕ
  scriptPubkey : List UInt8
  deriving DecidableEq

structure ParsedTransaction where
  inputs : List TxInput
  outputs : List TxOutput
  deriving DecidableEq

/-! ### Reading bytes -/

/-- The number and how many bytes it takes. -/
def readVarint (d : List UInt8) : Option (ℕ × ℕ) :=
  match d with
  | [] => none
  | b :: _ =>
    if b.toNat ≤ 0xfc then some (b.toNat, 1)
    else if b.toNat = 0xfd then if d.length < 3 then none else some (u16At d 1, 3)
    else if b.toNat = 0xfe then if d.length < 5 then none else some (u32At d 1, 5)
    else if d.length < 9 then none else some (u64At d 1, 9)

/-- An input and the offset after its script and sequence. -/
def readInput (d : List UInt8) (off : ℕ) : Option (TxInput × ℕ) := do
  guard (off + 36 ≤ d.length)
  let (scriptLen, size) ← readVarint (d.drop (off + 36))
  let next := off + 36 + size + scriptLen + 4
  guard (next ≤ d.length)
  return (⟨slice 32 d off, u32At d (off + 32)⟩, next)

def readOutput (d : List UInt8) (off : ℕ) : Option (TxOutput × ℕ) := do
  guard (off + 8 ≤ d.length)
  let (scriptLen, size) ← readVarint (d.drop (off + 8))
  let start := off + 8 + size
  guard (start + scriptLen ≤ d.length)
  return (⟨u64At d off, (d.drop start).take scriptLen⟩, start + scriptLen)

/-- Read `n` items one after the other. -/
def readMany {α : Type} (item : ℕ → Option (α × ℕ)) : ℕ → ℕ → Option (List α × ℕ)
  | 0, off => some ([], off)
  | n + 1, off => do
    let (a, off) ← item off
    let (as, off) ← readMany item n off
    return (a :: as, off)

def isSegwit (d : List UInt8) : Bool := d.getD 4 0 = 0x00 ∧ d.getD 5 0 = 0x01

/-- Inputs and outputs from `off` on, and the offset after them. -/
def readBody (d : List UInt8) (off : ℕ) : Option (ParsedTransaction × ℕ) := do
  let (inputCount, size) ← readVarint (d.drop off)
  guard (inputCount ≠ 0)
  let (inputs, off) ← readMany (readInput d) inputCount (off + size)
  let (outputCount, size) ← readVarint (d.drop off)
  let (outputs, off) ← readMany (readOutput d) outputCount (off + size)
  return (⟨inputs, outputs⟩, off)

def ParsedTransaction.parse (d : List UInt8) : Option ParsedTransaction := do
  guard (10 ≤ d.length)
  let (tx, _) ← readBody d (if isSegwit d then 6 else 4)
  return tx

/-- The end of the outputs of a transaction in the witness format. -/
def segwitBodyEnd (d : List UInt8) : Option ℕ := do
  guard (10 ≤ d.length ∧ isSegwit d)
  let (_, off) ← readBody d 6
  return off

section Hashing

variable (E : Env)

def doubleSha256 (d : List UInt8) : Hash := E.sha256 (E.sha256 d).toList

/-- Without marker, flag and witness. -/
def computeTxHash (d : List UInt8) : Hash :=
  match segwitBodyEnd d with
  | some bodyEnd =>
    if bodyEnd + 4 ≤ d.length then
      doubleSha256 E (d.take 4 ++ (d.take bodyEnd).drop 6 ++ d.drop (d.length - 4))
    else doubleSha256 E d
  | none => doubleSha256 E d

end Hashing

/-! ### Outputs and inputs -/

def TxOutput.isOpReturn (o : TxOutput) : Bool := o.scriptPubkey.head? = some 0x6a

structure DepositOpReturn where
  poolTag : List UInt8
  ephemeralPubkey : Hash
  notePublicKey : Hash

def depositOpReturnSize : ℕ := 73

/-- `DEPOSIT_HEADER_SOLANA_MAINNET`, `_TESTNET4` and `_REGTEST`. -/
def depositHeaders : List UInt8 := [0x50, 0x52, 0x53]

/-- The payload after a direct push or an `OP_PUSHDATA1`. -/
def TxOutput.depositPayload (o : TxOutput) : Option (List UInt8) :=
  match o.scriptPubkey with
  | 0x6a :: rest =>
    if rest.length = 1 + depositOpReturnSize ∧ rest.getD 0 0 = 73 then some (rest.drop 1)
    else if rest.length = 2 + depositOpReturnSize ∧ rest.getD 0 0 = 0x4c ∧ rest.getD 1 0 = 73 then
      some (rest.drop 2)
    else none
  | _ => none

def TxOutput.getDepositOpReturn (o : TxOutput) : Option DepositOpReturn := do
  let d ← o.depositPayload
  guard (d.getD 0 0 ∈ depositHeaders)
  return ⟨(d.drop 1).take 8, slice 32 d 9, slice 32 d 41⟩

namespace ParsedTransaction

variable (tx : ParsedTransaction)

def sumOutputs : ℕ := tx.outputs.foldl (fun total o => saturatingAdd 64 total o.value) 0

/-- The first output that satisfies the test, with its index. -/
def findOutput (p : TxOutput → Bool) : Option (TxOutput × ℕ) :=
  match tx.outputs.findIdx? p with
  | some i => tx.outputs[i]?.map fun o => (o, i)
  | none => none

def findDepositOutputWithVout : Option (TxOutput × ℕ) :=
  tx.findOutput fun o => !o.isOpReturn && decide (0 < o.value)

def findOutputByScript (script : List UInt8) : Option (TxOutput × ℕ) :=
  tx.findOutput fun o => o.scriptPubkey = script

def positiveOutputCountByScript (script : List UInt8) : ℕ :=
  tx.outputs.countP fun o => decide (0 < o.value) && decide (o.scriptPubkey = script)

def findDepositOpReturn : Option DepositOpReturn := tx.outputs.findSome? TxOutput.getDepositOpReturn

def findInputWithPrevOutpoint (o : Outpoint) : Bool :=
  tx.inputs.any fun i => i.prevTxid = o.1 ∧ i.prevVout = o.2

end ParsedTransaction

/-! ### The light client's accounts -/

structure VerifiedTransactionView where
  blockHeight : ℕ
  blockHash : Hash
  txid : Hash
  reinitEpoch : ℕ

def VerifiedTransactionView.fromBytes (d : List UInt8) :
    Except ProgramError VerifiedTransactionView := do
  require (120 ≤ d.length ∧ d.getD 0 0 = 0x08) .InvalidAccountData
  return ⟨u32At d 4, slice 32 d 8, slice 32 d 40, u32At d 84⟩

def isLightClient (d : List UInt8) (minLen : ℕ) : Except ProgramError Unit :=
  require (minLen ≤ d.length ∧ d.getD 0 0 = 0x06) .InvalidAccountData

def lightClientTipHeight (d : List UInt8) : Except ProgramError ℕ := do
  isLightClient d 144
  return u64At d 136

def lightClientReinitEpoch (d : List UInt8) : Except ProgramError ℕ := do
  isLightClient d 180
  return u32At d 176

section LightClient

variable (E : Env) (c : Call)

def assertLightClientNetwork (d : List UInt8) : Except ProgramError Unit := do
  isLightClient d 144
  match E.expectedNetwork with
  | some n => require ((d.getD 3 0).toNat = n) .InvalidAccountData
  | none => return ()

def assertCanonicalVerifiedTx (key : Addr) (blockHash txid : Hash) : Except ProgramError Unit :=
  require (key = .key (E.verifiedTxPda blockHash txid)) .InvalidSeeds

def assertCanonicalLightClient (key : Addr) : Except ProgramError Unit :=
  require (key = .key E.lightClientPda) .InvalidSeeds

/-- Among all accounts of the call, the height index of the block must name its hash. -/
def assertBlockStillCanonical (blockHeight : ℕ) (blockHash : Hash) : Except ProgramError Unit := do
  let hi ← orElse (c.accounts.find? fun a => a.key = .key (E.heightIndexPda blockHeight))
    .NotEnoughAccountKeys
  require (c.ownedBy hi.key E.btcLightClientId) .IllegalOwner
  let d := c.dataOf hi.key
  require (48 ≤ d.length ∧ d.getD 0 0 = 0x09) .InvalidAccountData
  require (u64At d 40 = blockHeight) .InvalidAccountData
  require ((slice 32 d 8 : Hash) = blockHash) .InvalidAccountData

def confirmationsOf (tip blockHeight : ℕ) : ℕ :=
  if blockHeight > tip then 0 else tip - blockHeight + 1

/-- Every failure of a check comes out as one error. -/
def mapError {α : Type} (x : Except ProgramError α) (e : ProgramError) : Except ProgramError α :=
  match x with
  | .ok a => .ok a
  | .error _ => .error e

/-- The transaction bytes behind the authority in a buffer. -/
def readTransactionFromBuffer (d : List UInt8) (size : ℕ) : Except ProgramError (List UInt8) := do
  require (33 ≤ d.length) .InvalidAccountData
  require (32 + size ≤ d.length) .InvalidAccountData
  return (d.take (32 + size)).drop 32

/-- The light client has the transaction in a canonical block that is deep enough. The caller
may name the height of the block. -/
def checkSpv (verifiedTx lightClient : AccountInfo) (txid : Hash) (height : Option ℕ)
    (required : ℕ) (spvError : UTXOpiaError) : Except ProgramError Unit := do
  let vt ← VerifiedTransactionView.fromBytes (c.dataOf verifiedTx.key)
  require (vt.txid = txid) spvError
  require (height.all (· = vt.blockHeight)) UTXOpiaError.InvalidBlockHeader
  assertCanonicalVerifiedTx E verifiedTx.key vt.blockHash vt.txid
  assertCanonicalLightClient E lightClient.key
  mapError (assertBlockStillCanonical E c vt.blockHeight vt.blockHash) spvError
  let lc := c.dataOf lightClient.key
  mapError (assertLightClientNetwork E lc) spvError
  let epoch ← lightClientReinitEpoch lc
  require (vt.reinitEpoch = epoch) spvError
  let tip ← lightClientTipHeight lc
  require (required ≤ confirmationsOf tip vt.blockHeight) UTXOpiaError.InsufficientConfirmations

/-- The transaction in a buffer, whose id is the expected one. -/
def readBufferedTx (buffer : AccountInfo) (txid : Hash) (size : ℕ) (spvError : UTXOpiaError) :
    Except ProgramError ParsedTransaction := do
  require (c.ownedBy buffer.key E.chadbufferId) .InvalidAccountOwner
  let raw ← readTransactionFromBuffer (c.dataOf buffer.key) size
  require (computeTxHash E raw = txid) spvError
  orElse (ParsedTransaction.parse raw) spvError

end LightClient

/-! ### Records of the pool's outputs -/

/-- The tail of the bytes that initialising a record does not touch. -/
def tailOf : Data UtxoRecord → Option Hash
  | .live u => u.leafCommitment
  | .closed u => u.leafCommitment.map fun _ => zeros 32
  | .empty | .blank => none

/-- `UtxoRecord::LEN` and `LEN_WITH_LEAF`. -/
def utxoRecordLen (leaf : Option Hash) : ℕ := if leaf.isSome then 88 else 56

/-- Bytes of a record with a leaf hold any record; others lack the tail. -/
def UtxoRecord.fits (leaf : Option Hash) (u : UtxoRecord) : Bool :=
  leaf.isNone || u.leafCommitment.isSome

/-- Record an output of the pool, with its leaf if it has one. -/
def createUtxo (E : Env) (s : State) (pool : Addr) (o : Outpoint) (amountSats : ℕ)
    (leaf : Option Hash) : Except ProgramError State := do
  let acc ← createOrClaimSized (UtxoRecord.fits leaf) (s.utxos.get (pool, o))
    (E.minimumBalance (utxoRecordLen leaf)) .Cpi
  let u : UtxoRecord :=
    { status := .Unspent
      txid := o.1
      vout := o.2
      amountSats := amountSats
      reservedForRequestId := 0
      leafCommitment := leaf <|> tailOf acc.data }
  return State.note { s with utxos := s.utxos.set (pool, o) (rewrite acc u) }
    [.credited pool o amountSats]

end Utxopia.Pool
