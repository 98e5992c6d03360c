import Utxopia.Pool.Redeem

/-!
Asking the Ika network to sign a redemption.

The transaction is rebuilt from the reserved outputs; what the caller wants signed has to be
the digest of one of its inputs. The first approval of a request pins the miner fee of all
others. An approval given by the network stays.
-/

namespace Utxopia.Pool

open Utxopia.ByteString Utxopia.Check Utxopia.Runtime

namespace RedemptionRequest

def isInputSigningApproved (r : RedemptionRequest) (inputIndex : ℕ) : Bool :=
  inputIndex < 32 ∧ r.approvedInputs.testBit inputIndex

def hasAnyInputApproved (r : RedemptionRequest) : Bool := r.approvedInputs ≠ 0

/-- The mask of the first `reservedCount` inputs. -/
def allInputsSigningApproved (r : RedemptionRequest) : Bool :=
  r.reservedCount ≠ 0 ∧ r.reservedCount ≤ 32 ∧
    r.approvedInputs &&& (2 ^ r.reservedCount - 1) = 2 ^ r.reservedCount - 1

def markInputSigningApproved (r : RedemptionRequest) (inputIndex : ℕ) :
    Except ProgramError RedemptionRequest := do
  require (inputIndex < 32 ∧ inputIndex < r.reservedCount) .InvalidArgument
  let r' := { r with approvedInputs := r.approvedInputs ||| 2 ^ inputIndex }
  return { r' with signingApproved := r'.signingApproved || r'.allInputsSigningApproved }

/-- The fee is kept in three bytes. -/
def setApprovalMinerFeeSats (r : RedemptionRequest) (fee : ℕ) :
    Except ProgramError RedemptionRequest := do
  require (fee ≤ 0x00ffffff) .InvalidArgument
  return { r with approvalMinerFee := fee }

/-- The first approval pins the fee. -/
def recordApproval (r : RedemptionRequest) (fee inputIndex : ℕ) :
    Except ProgramError RedemptionRequest := do
  let r ← if r.hasAnyInputApproved then .ok r else r.setApprovalMinerFeeSats fee
  r.markInputSigningApproved inputIndex

end RedemptionRequest

/-- What pays the recipient, what comes back to the pool. -/
def sendAndChange (amountSats serviceFee totalInputSats minerFeeSats : ℕ) :
    Except ProgramError (ℕ × ℕ) := do
  require (serviceFee ≤ amountSats) .InvalidArgument
  let sendAmount := amountSats - serviceFee
  require (sendAmount + minerFeeSats ≤ totalInputSats) .InvalidArgument
  return (sendAmount, totalInputSats - sendAmount - minerFeeSats)

/-- Change below the dust limit goes to the miner; the fee is the service fee's at most. -/
def checkEffectiveMinerFee (minerFeeSats change serviceFee : ℕ) : Except ProgramError Unit := do
  let effective ← if change ≤ btcDustThresholdSats then checkedAdd 64 minerFeeSats change
    else .ok minerFeeSats
  require (effective ≤ maxMinerFeeSats) UTXOpiaError.RedemptionFeeExceedsLimit
  require (effective ≤ serviceFee) UTXOpiaError.RedemptionFeeExceedsLimit

section Approve

variable (E : Env) (s : State) (c : Call)

/-- One reserved output of the request, with the sum so far. -/
def gatherReserved (reservationKey : ℕ) (acc : List ReservedInput × ℕ) (info : AccountInfo) :
    Except ProgramError (List ReservedInput × ℕ) := do
  validateProgramOwner E s c info
  let u ← orElse (s.utxoAt info.key) UTXOpiaError.InvalidUtxo
  require (u.status = .Reserved) UTXOpiaError.UtxoNotUnspent
  require (u.reservedForRequestId = reservationKey) UTXOpiaError.InvalidUtxo
  let total ← checkedAdd 64 acc.2 u.amountSats
  return (acc.1 ++ [⟨u.txid, u.vout, u.amountSats, u.leafCommitment⟩], total)

/-- The reserved outputs in their canonical order, if they are the ones reserved. -/
def reservedInOrder (r : RedemptionRequest) (reservationKey : ℕ) :
    Except ProgramError (List ReservedInput) := do
  c.atLeast (12 + r.reservedCount)
  let (reserved, sumInputs) ← loop (gatherReserved E s c reservationKey) ([], 0)
    ((c.accounts.drop 12).take r.reservedCount)
  require (sumInputs = r.totalInputSats) UTXOpiaError.InvalidUtxo
  let ordered := canonicalSort reserved
  require (inputsCommitment E ordered = r.inputsCommitment) UTXOpiaError.InvalidUtxo
  return ordered

/-- The transaction that settles a request at a miner fee. -/
def redemptionTx (cfg : PoolConfig) (r : RedemptionRequest) (ordered : List ReservedInput)
    (minerFeeSats : ℕ) : Except ProgramError RedemptionTx := do
  let (sendAmount, change) ←
    sendAndChange r.amountSats r.serviceFee r.totalInputSats minerFeeSats
  checkEffectiveMinerFee minerFeeSats change r.serviceFee
  buildRedemptionTx E cfg r.btcScript sendAmount change ordered

/-- The request may be signed: it is processing and the fee is the pinned one. -/
def checkSignable (p : PoolState) (r : RedemptionRequest) (signer : Addr)
    (minerFeeSats inputIndex : ℕ) : Except ProgramError Unit := do
  redemptionDriverIsAllowed signer p.authority r.requester
  require (r.status = .Processing) UTXOpiaError.InvalidRedemptionState
  require (r.totalInputSats ≠ 0) UTXOpiaError.InvalidUtxo
  require (r.reservedCount ≠ 0) UTXOpiaError.InvalidUtxo
  checkRedemptionSigning p r.amountSats minerFeeSats
  require (¬ (r.hasAnyInputApproved ∧ minerFeeSats ≠ r.approvalMinerFee))
    UTXOpiaError.RedemptionFeeMismatch
  require (inputIndex < r.reservedCount) .InvalidInstructionData
  require (¬ r.isInputSigningApproved inputIndex) UTXOpiaError.InvalidRedemptionState

/-- The pool's wallet is the one the accounts name. -/
def readSigningConfig (poolConfig ikaDwallet : AccountInfo) : Except ProgramError PoolConfig := do
  let cfg ← orElse (s.poolConfigAt poolConfig.key) UTXOpiaError.IkaCpiAccountsMissing
  require (cfg.ikaDwallet ≠ zeros 32) UTXOpiaError.IkaCpiAccountsMissing
  require (E.bytesOf ikaDwallet.key = cfg.ikaDwallet) UTXOpiaError.IkaCpiAccountsMissing
  require (cfg.poolScript ≠ []) UTXOpiaError.IkaCpiAccountsMissing
  return cfg

/-- The accounts of the call into the Ika program. -/
def checkIkaAccounts (cfg : PoolConfig)
    (ikaProgram ikaCoordinator ikaMessageApproval ikaDwallet callerProgram cpiAuthority :
      AccountInfo) : Except ProgramError Unit := do
  require (callerProgram.key = .key E.programId ∧ c.executable callerProgram.key) .IncorrectProgramId
  require (c.executable ikaProgram.key) .IncorrectProgramId
  let ika := E.bytesOf ikaProgram.key
  require (c.ownedBy ikaDwallet.key ika ∧ c.ownedBy ikaCoordinator.key ika) .IllegalOwner
  require (c.dataOf ikaMessageApproval.key ≠ [] → c.ownedBy ikaMessageApproval.key ika) .IllegalOwner
  require (cpiAuthority.key = .cpiAuthority ∧ cfg.cpiAuthorityBump = E.cpiAuthorityBump) .InvalidSeeds

/-- The approval's address belongs to the wallet's key, of either parity, and the digest. -/
def checkMessageApproval (cfg : PoolConfig) (ikaProgram ikaMessageApproval : AccountInfo)
    (digest : Hash) : Except ProgramError Unit :=
  require (ikaMessageApproval.key ∈ [2, 3].map fun parity => Addr.key (E.messageApprovalPda
    (E.bytesOf ikaProgram.key) parity cfg.ikaDwalletXonlyPubkey digest)) .InvalidSeeds

def processApproveRedemptionSigning : Except ProgramError State := do
  c.atLeast 12
  require (c.data.length = 76) .InvalidInstructionData
  let btcSighash := slice 32 c.data 0
  let digest := slice 32 c.data 32
  let minerFeeSats := u64At c.data 64
  let inputIndex := u32At c.data 72
  let pool ← c.account 0
  let redemption ← c.account 1
  let authority ← c.account 2
  let poolConfig ← c.account 3
  let ikaProgram ← c.account 4
  let ikaCoordinator ← c.account 5
  let ikaMessageApproval ← c.account 6
  let ikaDwallet ← c.account 7
  let callerProgram ← c.account 8
  let cpiAuthority ← c.account 9
  let ikaPayer ← c.account 10
  let systemProgram ← c.account 11
  require (authority.isSigner ∧ ikaPayer.isSigner) .MissingRequiredSignature
  validateProgramOwner E s c pool
  validateRedemptionPda E s c redemption pool
  validatePoolConfigPda E s c poolConfig pool
  validateSystemProgram systemProgram
  let p ← readPool s pool
  let r ← readRedemption s redemption
  checkSignable p r authority.key minerFeeSats inputIndex
  let cfg ← readSigningConfig E s poolConfig ikaDwallet
  checkIkaAccounts E c cfg ikaProgram ikaCoordinator ikaMessageApproval ikaDwallet callerProgram
    cpiAuthority
  let ordered ← reservedInOrder E s c r (redemptionReservationKey E redemption.key)
  let tx ← redemptionTx E cfg r ordered minerFeeSats
  require (taprootKeyspendSighash E (tx.preimage E inputIndex) = btcSighash ∧
    tx.digest E inputIndex = digest) UTXOpiaError.InvalidRedemptionState
  checkMessageApproval E cfg ikaProgram ikaMessageApproval digest
  require c.cpiSucceeds .Cpi
  let r ← r.recordApproval minerFeeSats inputIndex
  let s := s.putRedemption r redemption.key
  return { s with approvedDigests := s.approvedDigests ++ [digest] }

end Approve

end Utxopia.Pool
