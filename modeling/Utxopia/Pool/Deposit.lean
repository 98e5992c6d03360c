import Utxopia.Pool.Bitcoin
import Utxopia.Pool.Joinsplit
import Utxopia.Pool.Sighash

/-!
Deposits: an output on Bitcoin becomes a note in the pool.

The note's key comes from the `OP_RETURN` of the deposit or from the tweak of the output it
pays. A deposit may pay the pool itself or an address of the pool's wallet that is swept
later. Each deposit leaves a receipt and a record of the output the pool holds from now on.
-/

namespace Utxopia.Pool

open Utxopia.ByteString Utxopia.Check Utxopia.Runtime

structure CompleteDepositData where
  sweepTxid : Hash
  blockHeight : ℕ
  sweepTxSize : ℕ
  depositTxSize : ℕ
  depositTxid : Hash

/-- Bytes after the header are the auditor's. -/
def CompleteDepositData.fromBytes (d : List UInt8) : Except ProgramError CompleteDepositData := do
  require (80 ≤ d.length) .InvalidInstructionData
  return ⟨slice 32 d 0, u64At d 32, u32At d 40, u32At d 44, slice 32 d 48⟩

/-- Where the note's key comes from. -/
inductive DepositBinding where
  | OpReturn
  | Tweak (ephemeralPubkey notePublicKey : Hash) (depositVout : ℕ)
  deriving DecidableEq

def DepositBinding.depositVout : DepositBinding → Option ℕ
  | .OpReturn => none
  | .Tweak _ _ vout => some vout

/-- The data of a tweaked deposit: it is never swept. -/
def verifyDepositData (d : List UInt8) :
    Except ProgramError (CompleteDepositData × DepositBinding) := do
  require (148 ≤ d.length) .InvalidInstructionData
  let base ← CompleteDepositData.fromBytes d
  require (base.depositTxSize = 0 ∧ base.depositTxid = base.sweepTxid) .InvalidInstructionData
  return (base, .Tweak (slice 32 d 80) (slice 32 d 112) (u32At d 144))

section Hashes

variable (E : Env)

def tweakCommitment (notePublicKey ephemeralPubkey : Hash) : Hash :=
  E.sha256 (notePublicKey.toList ++ ephemeralPubkey.toList)

/-- `b"UTXOPIA_SOL"`. -/
def poolTagDomain : List UInt8 :=
  [0x55, 0x54, 0x58, 0x4f, 0x50, 0x49, 0x41, 0x5f, 0x53, 0x4f, 0x4c]

def expectedPoolTag (pool zkbtcMint : Addr) : List UInt8 :=
  (E.sha256 (poolTagDomain ++ E.programId.toList ++ (E.bytesOf pool).toList ++
    (E.bytesOf zkbtcMint).toList)).toList.take 8

/-- The leaf a tweaked deposit's record remembers. -/
def DepositBinding.leaf : DepositBinding → Option Hash
  | .OpReturn => none
  | .Tweak ephemeralPubkey notePublicKey _ => some (tweakCommitment E notePublicKey ephemeralPubkey)

end Hashes

/-! ### The output that is credited -/

/-- The key of a taproot output that is worth something. -/
def taprootOutputKeyOf (o : TxOutput) : Option Hash :=
  if o.value ≠ 0 ∧ o.scriptPubkey.length = 34 ∧ o.scriptPubkey.take 2 = [0x51, 0x20] then
    some (slice 32 o.scriptPubkey 2)
  else none

section Credit

variable (E : Env)

def verifyTaprootOutputKey (internalKey tweak outputKey : Hash) : Bool :=
  E.taprootOutputKey internalKey tweak = some outputKey

/-- The output a tweaked deposit pays. -/
def tweakedOutput (cfg : PoolConfig) (sweep : ParsedTransaction)
    (ephemeralPubkey notePublicKey : Hash) (vout : ℕ) : Except ProgramError (ℕ × ℕ) := do
  require (cfg.ikaDwalletXonlyPubkey ≠ zeros 32) UTXOpiaError.IkaCpiAccountsMissing
  let o ← orElse sweep.outputs[vout]? UTXOpiaError.InvalidSpvProof
  let outputKey ← orElse (taprootOutputKeyOf o) UTXOpiaError.TaprootVerificationFailed
  let leafHash := depositLeafHash E (tweakCommitment E notePublicKey ephemeralPubkey)
    cfg.ikaDwalletXonlyPubkey
  require (verifyTaprootOutputKey E depositNumsInternalKey leafHash outputKey)
    UTXOpiaError.TaprootVerificationFailed
  return (o.value, vout)

/-- The one output that pays the pool's script. -/
def poolOutput (cfg : PoolConfig) (sweep : ParsedTransaction) : Except ProgramError (ℕ × ℕ) := do
  require (sweep.positiveOutputCountByScript cfg.poolScript = 1) UTXOpiaError.InvalidSpvProof
  let (o, vout) ← orElse (sweep.findOutputByScript cfg.poolScript) UTXOpiaError.InvalidSpvProof
  return (o.value, vout)

def paysWallet (cfg : PoolConfig) (notePublicKey : Hash) (o : TxOutput) : Bool :=
  match taprootOutputKeyOf o with
  | some outputKey => verifyTaprootOutputKey E cfg.ikaDwalletXonlyPubkey notePublicKey outputKey
  | none => false

/-- A sweep spends the one output of the deposit that pays the wallet, and nothing else. -/
def checkSweep (cfg : PoolConfig) (sweep deposit : ParsedTransaction) (depositTxid : Hash)
    (notePublicKey : Hash) : Except ProgramError Unit := do
  require (sweep.inputs.length = 1) UTXOpiaError.InvalidSpvProof
  require (cfg.ikaDwalletXonlyPubkey ≠ zeros 32) UTXOpiaError.IkaCpiAccountsMissing
  let pays := paysWallet E cfg notePublicKey
  require (deposit.outputs.countP pays ≤ 1) UTXOpiaError.InvalidSpvProof
  let vout ← orElse (deposit.outputs.findIdx? pays) UTXOpiaError.TaprootVerificationFailed
  require (sweep.findInputWithPrevOutpoint (depositTxid, vout)) UTXOpiaError.InvalidSpvProof

/-- The amount and the index of the output the pool now holds. -/
def creditedOutput (cfg : PoolConfig) (binding : DepositBinding) (direct : Bool)
    (sweep deposit : ParsedTransaction) (depositTxid notePublicKey : Hash) :
    Except ProgramError (ℕ × ℕ) :=
  match binding with
  | .Tweak ephemeralPubkey notePublicKey vout =>
    tweakedOutput E cfg sweep ephemeralPubkey notePublicKey vout
  | .OpReturn => do
    if direct then poolOutput cfg sweep
    else do
      checkSweep E cfg sweep deposit depositTxid notePublicKey
      poolOutput cfg sweep

def validateBtcDepositAmountAndFee (amountSats : ℕ) (p : PoolState) (tc : TokenConfig) :
    Except ProgramError (ℕ × ℕ) := do
  require (p.minDeposit ≤ amountSats) UTXOpiaError.AmountTooSmall
  require (amountSats ≤ p.maxDeposit) UTXOpiaError.AmountTooLarge
  require (tc.minDeposit ≤ amountSats ∧ amountSats ≤ tc.maxDeposit) UTXOpiaError.AmountOutOfRange
  let totalFee ← checkedAdd 64 (computeBpsFee amountSats p.depositFeeBps) tc.serviceFee
  let shieldedAmount ← checkedSub amountSats totalFee
  require (shieldedAmount ≠ 0) UTXOpiaError.ZeroAmount
  return (totalFee, shieldedAmount)

end Credit

/-! ### The instruction -/

section Deposit

variable (E : Env) (s : State) (c : Call)

/-- The accounts of a deposit. -/
structure DepositAccounts where
  pool : AccountInfo
  verifiedTx : AccountInfo
  lightClient : AccountInfo
  tree : AccountInfo
  txBuffer : AccountInfo
  zkbtcMint : AccountInfo
  poolVault : AccountInfo
  depositTxBuffer : AccountInfo
  depositReceipt : AccountInfo
  utxoRecord : AccountInfo
  tokenConfig : AccountInfo
  poolConfig : AccountInfo
  program : TokenProgram

def depositAccounts : Except ProgramError DepositAccounts := do
  let pool ← c.account 0
  let verifiedTx ← c.account 1
  let lightClient ← c.account 2
  let tree ← c.account 3
  let txBuffer ← c.account 4
  let systemProgram ← c.account 6
  let zkbtcMint ← c.account 7
  let poolVault ← c.account 8
  let tokenProgram ← c.account 9
  let depositTxBuffer ← c.account 10
  let depositReceipt ← c.account 11
  let utxoRecord ← c.account 12
  let tokenConfig ← c.account 13
  let poolConfig ← c.account 14
  require (c.ownedBy verifiedTx.key E.btcLightClientId) UTXOpiaError.InvalidAccountOwner
  require (c.ownedBy lightClient.key E.btcLightClientId) UTXOpiaError.InvalidAccountOwner
  validateProgramOwner E s c tree
  validateTokenOwner s c zkbtcMint
  validateTokenOwner s c poolVault
  let program ← validateAnyTokenProgramKey tokenProgram
  require (tokenProgramOf s c zkbtcMint.key = some program ∧
    tokenProgramOf s c poolVault.key = some program) .InvalidAccountOwner
  validateSystemProgram systemProgram
  validateAccountWritable pool
  validateAccountWritable tree
  validateAccountWritable zkbtcMint
  validateAccountWritable poolVault
  validateAccountWritable depositReceipt
  validateAccountWritable utxoRecord
  validateProgramOwner E s c tokenConfig
  validateAccountWritable tokenConfig
  require (tokenConfig.key = .tokenConfig pool.key zkbtcMint.key) UTXOpiaError.InvalidPDA
  return {
    pool := pool
    verifiedTx := verifiedTx
    lightClient := lightClient
    tree := tree
    txBuffer := txBuffer
    zkbtcMint := zkbtcMint
    poolVault := poolVault
    depositTxBuffer := depositTxBuffer
    depositReceipt := depositReceipt
    utxoRecord := utxoRecord
    tokenConfig := tokenConfig
    poolConfig := poolConfig
    program := program }

/-- The pool and the config of its token. -/
def depositRecords (a : DepositAccounts) : Except ProgramError (PoolState × TokenConfig) := do
  let p ← readPool s a.pool
  require (a.zkbtcMint.key = p.zkbtcMint ∧ a.poolVault.key = p.poolVault) UTXOpiaError.InvalidVault
  validateActiveTreePda E s c a.tree a.pool p.activeTreeIndex
  let tc ← readTokenConfig s a.tokenConfig
  require tc.enabled UTXOpiaError.TokenDisabled
  require (tc.mint = a.zkbtcMint.key ∧ tc.vault = a.poolVault.key) UTXOpiaError.InvalidTokenConfig
  return (p, tc)

/-- One receipt for every deposit: a tweaked one is named by its output, others by their
transaction. -/
def createDepositReceipt (s : State) (receipt : AccountInfo) (txid : Hash) (vout : Option ℕ) :
    Except ProgramError State := do
  require (receipt.key = .depositReceipt txid vout) .InvalidSeeds
  let acc := s.depositReceipts.get (txid, vout)
  require (acc.live? = none) UTXOpiaError.DuplicateDeposit
  let acc ← createOrClaim acc (E.minimumBalance 1) .Cpi
  return { s with depositReceipts := s.depositReceipts.set (txid, vout) (rewrite acc ⟨⟩) }

/-- The deposit transaction: the sweep itself, or one of its own. -/
def readDepositTx (a : DepositAccounts) (ix : CompleteDepositData) (sweep : ParsedTransaction) :
    Except ProgramError ParsedTransaction :=
  if ix.depositTxSize = 0 then do
    require (ix.depositTxid = ix.sweepTxid) UTXOpiaError.InvalidSpvProof
    return sweep
  else readBufferedTx E c a.depositTxBuffer ix.depositTxid ix.depositTxSize .InvalidSpvProof

/-- The key the note is made out to. -/
def depositNoteKey (a : DepositAccounts) (binding : DepositBinding) (deposit : ParsedTransaction) :
    Except ProgramError Hash :=
  match binding with
  | .OpReturn => do
    let op ← orElse deposit.findDepositOpReturn UTXOpiaError.InvalidStealthOpReturn
    require (op.poolTag = expectedPoolTag E a.pool.key a.zkbtcMint.key)
      UTXOpiaError.InvalidStealthOpReturn
    return op.notePublicKey
  | .Tweak _ notePublicKey _ => .ok notePublicKey

def readDepositConfig (a : DepositAccounts) : Except ProgramError PoolConfig := do
  validatePoolConfigPda E s c a.poolConfig a.pool
  let cfg ← orElse (s.poolConfigAt a.poolConfig.key) UTXOpiaError.IkaCpiAccountsMissing
  require (cfg.poolScript ≠ []) UTXOpiaError.IkaCpiAccountsMissing
  return cfg

/-- What was deposited: the outpoint, what it is worth, and the note's key. -/
structure Credit where
  outpoint : Outpoint
  amountSats : ℕ
  notePublicKey : Hash

/-- Everything the Bitcoin side has to say. -/
def verifyCredit (a : DepositAccounts) (ix : CompleteDepositData) (binding : DepositBinding) :
    Except ProgramError Credit := do
  checkSpv E c a.verifiedTx a.lightClient ix.sweepTxid (some ix.blockHeight)
    E.demoRequiredConfirmations .InvalidSpvProof
  let sweep ← readBufferedTx E c a.txBuffer ix.sweepTxid ix.sweepTxSize .InvalidSpvProof
  let deposit ← readDepositTx E c a ix sweep
  let notePublicKey ← depositNoteKey E a binding deposit
  let cfg ← readDepositConfig E s c a
  let (amountSats, vout) ← creditedOutput E cfg binding (ix.depositTxSize = 0) sweep deposit
    ix.depositTxid notePublicKey
  return ⟨(ix.sweepTxid, vout), amountSats, notePublicKey⟩

/-- The record of an output nobody has recorded. -/
def recordUtxo (s : State) (a : DepositAccounts) (binding : DepositBinding) (credit : Credit) :
    Except ProgramError State := do
  require (a.utxoRecord.key = .utxo a.pool.key credit.outpoint) .InvalidSeeds
  require (s.utxo? a.pool.key credit.outpoint = none) UTXOpiaError.DuplicateDeposit
  createUtxo E s a.pool.key credit.outpoint credit.amountSats (binding.leaf E)

def shieldDeposit (tc : TokenConfig) (shieldedAmount totalFee : ℕ) :
    Except ProgramError TokenConfig := do
  let after ← checkedAdd 64 tc.totalShielded shieldedAmount
  require (after ≤ tc.depositCap) UTXOpiaError.DepositCapExceeded
  let tc ← tc.addShielded shieldedAmount
  tc.addFees totalFee

def countDeposit (p : PoolState) (amountSats : ℕ) : Except ProgramError PoolState := do
  let p ← p.addUtxo amountSats
  let p ← p.incrementDepositCount
  p.addMinted amountSats

def completeDepositInner (ix : CompleteDepositData) (binding : DepositBinding) :
    Except ProgramError State := do
  let a ← depositAccounts E s c
  let (p, tc) ← depositRecords E s c a
  let s' ← createDepositReceipt E s a.depositReceipt ix.depositTxid binding.depositVout
  let credit ← verifyCredit E s c a ix binding
  let (totalFee, shieldedAmount) ← validateBtcDepositAmountAndFee credit.amountSats p tc
  let commitment ← computeCommitment E credit.notePublicKey tc.tokenId shieldedAmount
  let s ← insertOne E s' a.pool a.tree p.activeTreeIndex commitment
  let s ← recordUtxo E s a binding credit
  let s ← mintToken s a.program a.zkbtcMint.key a.poolVault.key credit.amountSats
  let tc ← shieldDeposit tc shieldedAmount totalFee
  let s := s.putTokenConfig tc a.tokenConfig.key
  let p ← countDeposit p credit.amountSats
  return s.putPool { p with totalShielded := tc.totalShielded, lastUpdate := c.unixTimestamp }
    a.pool.key

/-! ### The four entries -/

/-- The pool is open to everybody or to approved users only, as the entry wants it. -/
def checkDepositPool (permissioned : Bool) : Except ProgramError PoolState := do
  let pool ← c.account 0
  let authority ← c.account 5
  validateSigner authority
  validateProgramOwner E s c pool
  let p ← readPool s pool
  require (p.permissioned = permissioned) UTXOpiaError.NotPermissioned
  require (¬ p.paused) UTXOpiaError.PoolPaused
  require (authority.key = p.authority) UTXOpiaError.Unauthorized
  require (¬ (permissioned ∧ p.auditorFrozen)) UTXOpiaError.AuditorFrozen
  return p

/-- The approval of a permissioned deposit covers all its data. -/
def approveDeposit (p : PoolState) (action : ℕ) : Except ProgramError Consumption := do
  let pool ← c.account 0
  let authority ← c.account 5
  let approval ← c.account 15
  let policyProgram ← c.account 16
  consumePolicyApproval E s c approval policyProgram pool authority.key p.auditor action [c.data]

def processCompleteDeposit : Except ProgramError State := do
  c.atLeast 15
  let ix ← CompleteDepositData.fromBytes c.data
  let _ ← checkDepositPool E s c false
  completeDepositInner E s c ix .OpReturn

def processVerifyDeposit : Except ProgramError State := do
  c.atLeast 15
  require (c.data.length = 148) .InvalidInstructionData
  let (ix, binding) ← verifyDepositData c.data
  let _ ← checkDepositPool E s c false
  completeDepositInner E s c ix binding

def processCompleteDepositPermissioned : Except ProgramError State := do
  c.atLeast 17
  let ix ← CompleteDepositData.fromBytes c.data
  let p ← checkDepositPool E s c true
  let _ ← approveDeposit E s c p completeDepositPermissionedCode
  completeDepositInner E s c ix .OpReturn

def processVerifyDepositPermissioned : Except ProgramError State := do
  c.atLeast 17
  let (ix, binding) ← verifyDepositData c.data
  let p ← checkDepositPool E s c true
  let _ ← approveDeposit E s c p verifyDepositPermissionedCode
  completeDepositInner E s c ix binding

end Deposit

end Utxopia.Pool
