import Utxopia.Pool.Bitcoin
import Utxopia.Pool.Redeem

/-!
Completing a redemption: the light client vouches for the Bitcoin transaction.

The transaction has to spend the reserved outputs, pay the recipient, and give back the rest
but for a bounded miner fee. What left the pool is burnt, what was not paid out is revenue,
the change becomes a new output of the pool.
-/

namespace Utxopia.Pool

open Utxopia.ByteString Utxopia.Check Utxopia.Runtime

def requiredConfirmations : ℕ := 6
def maxFeeSats : ℕ := 50000
def maxConsumedUtxos : ℕ := 20

structure CompleteRedemptionData where
  btcTxid : Hash
  txSize : ℕ
  /-- Empty when the transaction has no change. -/
  poolScript : List UInt8
  consumedUtxoCount : ℕ

def CompleteRedemptionData.fromBytes (d : List UInt8) :
    Except ProgramError CompleteRedemptionData := do
  require (38 ≤ d.length) .InvalidInstructionData
  let scriptLen := byteAt d 36
  require (37 + scriptLen ≤ d.length ∧ scriptLen ≤ 34) .InvalidInstructionData
  require (37 + scriptLen + 1 = d.length) .InvalidInstructionData
  return ⟨slice 32 d 0, u32At d 32, (d.drop 37).take scriptLen, byteAt d (37 + scriptLen)⟩

/-- Every output is data without value, the recipient's, or the one change output. The count
of change outputs is carried along. -/
def outputWithinPolicy (recipient poolScript : List UInt8) (changeOutputs : ℕ) (o : TxOutput) :
    Option ℕ :=
  if o.isOpReturn then if o.value ≠ 0 then none else some changeOutputs
  else if o.scriptPubkey = recipient then some changeOutputs
  else if poolScript ≠ [] ∧ o.scriptPubkey = poolScript then
    if changeOutputs + 1 > 1 then none else some (changeOutputs + 1)
  else none

def redemptionOutputsWithinPolicy (tx : ParsedTransaction) (recipient poolScript : List UInt8) :
    Bool :=
  (tx.outputs.foldlM (outputWithinPolicy recipient poolScript) 0).isSome

/-- What is burnt and what is revenue. -/
def redemptionAccounting (amountSats actualReceived minerFee : ℕ) :
    Except ProgramError (ℕ × ℕ) := do
  let burnAmount ← checkedAdd 64 actualReceived minerFee
  require (burnAmount ≤ amountSats) UTXOpiaError.RedemptionOutputMismatch
  return (burnAmount, amountSats - burnAmount)

/-- Add what an output pays to the recipient. -/
def addReceived (recipient : List UInt8) (total : ℕ) (o : TxOutput) : Except ProgramError ℕ :=
  if o.scriptPubkey = recipient then checkedAdd 64 total o.value else .ok total

/-- What the transaction pays the recipient, within the bounds of the request. -/
def checkPayment (tx : ParsedTransaction) (r : RedemptionRequest) (poolScript : List UInt8) :
    Except ProgramError ℕ := do
  require (r.serviceFee ≤ r.amountSats) .ArithmeticOverflow
  let expectedSend := r.amountSats - r.serviceFee
  let minAmount := max (expectedSend - maxFeeSats) (expectedSend - expectedSend / 100)
  let actualReceived ← loop (addReceived r.btcScript) 0 tx.outputs
  require (tx.outputs.any (fun o => o.scriptPubkey = r.btcScript) ∧ minAmount ≤ actualReceived ∧
    actualReceived ≤ expectedSend) UTXOpiaError.RedemptionOutputMismatch
  require (¬ (poolScript ≠ [] ∧ r.btcScript = poolScript)) UTXOpiaError.RedemptionOutputMismatch
  require (redemptionOutputsWithinPolicy tx r.btcScript poolScript)
    UTXOpiaError.RedemptionOutputMismatch
  return actualReceived

/-- What the inputs had and the outputs do not. -/
def checkMinerFee (tx : ParsedTransaction) (r : RedemptionRequest) : Except ProgramError ℕ := do
  require (r.totalInputSats ≠ 0) UTXOpiaError.AmountTooSmall
  require (tx.sumOutputs ≤ r.totalInputSats) UTXOpiaError.RedemptionOutputMismatch
  let minerFee := r.totalInputSats - tx.sumOutputs
  require (minerFee ≤ maxFeeSats) UTXOpiaError.RedemptionOutputMismatch
  return minerFee

section Complete

variable (E : Env) (c : Call)

/-- A named pool script is the configured one. -/
def checkPoolScript (s : State) (pool poolConfig : AccountInfo) (poolScript : List UInt8) :
    Except ProgramError Unit :=
  if poolScript = [] then .ok ()
  else do
    validatePoolConfigPda E s c poolConfig pool
    let cfg ← orElse (s.poolConfigAt poolConfig.key) UTXOpiaError.InvalidPDA
    require (cfg.poolScript ≠ []) UTXOpiaError.PoolScriptMismatch
    require (poolScript = cfg.poolScript) UTXOpiaError.PoolScriptMismatch

/-- One completion for every Bitcoin transaction. -/
def createCompletionReceipt (s : State) (receipt : AccountInfo) (txid : Hash) :
    Except ProgramError State := do
  require (receipt.key = .completionReceipt txid) .InvalidSeeds
  let acc := s.completionReceipts.get txid
  require (acc.live? = none) UTXOpiaError.DuplicateDeposit
  let acc ← createOrClaim acc (E.minimumBalance 1) .Cpi
  return { s with completionReceipts := s.completionReceipts.set txid (rewrite acc ⟨⟩) }

/-- The change, if the transaction has some, and what it is worth. -/
def createChange (s : State) (pool : AccountInfo) (tx : ParsedTransaction) (txid : Hash)
    (poolScript : List UInt8) : Except ProgramError (State × Option ℕ) :=
  if poolScript = [] ∨ ¬ 14 ≤ c.accounts.length then .ok (s, none)
  else match tx.findOutputByScript poolScript with
    | some (o, vout) => do
      let info ← c.account 13
      require (info.key = .utxo pool.key (txid, vout)) .InvalidSeeds
      validateAccountWritable info
      let s ← createUtxo E s pool.key (txid, vout) o.value none
      return (s, some o.value)
    | none => .ok (s, none)

/-- The config of the pool's token, at the vault that was burnt from. -/
def readRedemptionToken (s : State) (pool zkbtcMint poolVault tokenConfig : AccountInfo)
    (tokenId : Hash) : Except ProgramError TokenConfig := do
  validateProgramOwner E s c tokenConfig
  validateAccountWritable tokenConfig
  let tc ← readTokenConfig s tokenConfig
  require (tokenConfig.key = .tokenConfig pool.key zkbtcMint.key ∧ tc.mint = zkbtcMint.key ∧
    tc.vault = poolVault.key ∧ tc.tokenId = tokenId) UTXOpiaError.InvalidTokenConfig
  return tc

/-- Close the record of a reserved output; its rent goes to the recipient. -/
def closeUtxo (s : State) (utxo recipient : Addr) : State :=
  match utxo with
  | .utxo pool o =>
    let acc := s.utxos.get (pool, o)
    State.fund { s with utxos := s.utxos.set (pool, o) (close acc) } acc.lamports recipient
  | _ => s

/-- A reserved output of the request that the transaction spends. -/
def consumeUtxo (reservationKey : ℕ) (tx : ParsedTransaction) (rentRecipient : Addr) (s : State)
    (info : AccountInfo) : Except ProgramError State := do
  validateProgramOwner E s c info
  validateAccountWritable info
  let u ← orElse (s.utxoAt info.key) UTXOpiaError.InvalidUtxo
  require (u.status = .Reserved) UTXOpiaError.InvalidUtxo
  require (u.reservedForRequestId = reservationKey) UTXOpiaError.InvalidUtxo
  require (tx.findInputWithPrevOutpoint (u.txid, u.vout)) UTXOpiaError.InvalidUtxo
  return closeUtxo s info.key rentRecipient

/-- Revenue and change on the pool's books. -/
def settlePool (p : PoolState) (burnAmount protocolRevenue : ℕ) (change : Option ℕ) :
    Except ProgramError PoolState := do
  let p ← p.addBurned burnAmount
  let p ← if protocolRevenue > 0 then p.addFeePool protocolRevenue else .ok p
  match change with
  | some amount => p.addUtxo amount
  | none => return p

def addRevenue (tc : TokenConfig) (protocolRevenue : ℕ) : Except ProgramError TokenConfig :=
  if protocolRevenue > 0 then tc.addFees protocolRevenue else .ok tc

def processCompleteRedemption (s : State) : Except ProgramError State := do
  c.atLeast 13
  let pool ← c.account 0
  let redemption ← c.account 1
  let authority ← c.account 2
  let rentRecipient ← c.account 3
  let verifiedTx ← c.account 4
  let lightClient ← c.account 5
  let txBuffer ← c.account 6
  let zkbtcMint ← c.account 7
  let poolVault ← c.account 8
  let tokenProgram ← c.account 9
  let receipt ← c.account 10
  let poolConfig ← c.account 12
  let ix ← CompleteRedemptionData.fromBytes c.data
  validateSigner authority
  validateProgramOwner E s c pool
  validateRedemptionPda E s c redemption pool
  validateAccountWritable receipt
  require (c.ownedBy verifiedTx.key E.btcLightClientId) UTXOpiaError.InvalidAccountOwner
  require (c.ownedBy lightClient.key E.btcLightClientId) UTXOpiaError.InvalidAccountOwner
  validateTokenOwner s c zkbtcMint
  validateTokenOwner s c poolVault
  let program ← validateAnyTokenProgramKey tokenProgram
  validateAccountWritable pool
  validateAccountWritable redemption
  validateAccountWritable zkbtcMint
  validateAccountWritable poolVault
  let p ← readPool s pool
  let r ← readRedemption s redemption
  redemptionDriverIsAllowed authority.key p.authority r.requester
  checkPoolScript E c s pool poolConfig ix.poolScript
  let s ← createCompletionReceipt E s receipt ix.btcTxid
  require (r.status = .Processing) UTXOpiaError.InvalidRedemptionState
  checkSpv E c verifiedTx lightClient ix.btcTxid none requiredConfirmations .RedemptionSpvFailed
  let tx ← readBufferedTx E c txBuffer ix.btcTxid ix.txSize .RedemptionSpvFailed
  let actualReceived ← checkPayment tx r ix.poolScript
  let minerFee ← checkMinerFee tx r
  checkRedemptionSigning p r.amountSats minerFee
  let (burnAmount, protocolRevenue) ← redemptionAccounting r.amountSats actualReceived minerFee
  -- the pool signs for the mint its own address is derived from
  require (pool.key = .poolState zkbtcMint.key) .Cpi
  let s ← burnToken s program zkbtcMint.key poolVault.key pool.key burnAmount
  let (s, change) ← createChange E c s pool tx ix.btcTxid ix.poolScript
  require (ix.consumedUtxoCount ≤ maxConsumedUtxos) .InvalidInstructionData
  require (ix.consumedUtxoCount = r.reservedCount) UTXOpiaError.InvalidUtxo
  let consumedStart := if ix.poolScript = [] then 13 else 14
  let tokenConfig ← c.account (consumedStart + ix.consumedUtxoCount)
  let tc ← readRedemptionToken E c s pool zkbtcMint poolVault tokenConfig r.tokenId
  let s ← loop (consumeUtxo E c (redemptionReservationKey E redemption.key) tx rentRecipient.key) s
    ((c.accounts.drop consumedStart).take ix.consumedUtxoCount)
  require (tx.inputs.length = ix.consumedUtxoCount) UTXOpiaError.RedemptionOutputMismatch
  let p ← settlePool p burnAmount protocolRevenue change
  let s := s.putPool
    { p with
      pendingRedemptions := p.pendingRedemptions - 1
      lastUpdate := c.unixTimestamp }
    pool.key
  let tc ← addRevenue tc protocolRevenue
  let s := s.putTokenConfig tc tokenConfig.key
  return closeRedemption s redemption.key rentRecipient.key

end Complete

end Utxopia.Pool
