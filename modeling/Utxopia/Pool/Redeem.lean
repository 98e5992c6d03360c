import Utxopia.Pool.Sighash
import Utxopia.Pool.Tokens

/-!
Redemptions up to the signing: a note is given up for a request to be paid in Bitcoin.

A driver, the pool's authority or the requester, reserves outputs of the pool for a pending
request. Reserved outputs carry the request's reservation key, the request their number,
their sum and a commitment to them. A request can be taken back while it is pending, or once
it has been processing for too long.
-/

namespace Utxopia.Pool

open Utxopia.ByteString Utxopia.Check Utxopia.Runtime

/-! ### Redeeming -/

def maxBtcScriptLen : ℕ := 34

/-- One public output of a redemption: what to pay, where to, and the nonce of the request. -/
structure RedeemItem where
  amount : ℕ
  script : List UInt8
  nonce : ℕ
  deriving DecidableEq

def readRedeemItem (data : List UInt8) (off : ℕ) : Except ProgramError (RedeemItem × ℕ) := do
  require (off + 9 ≤ data.length) .InvalidInstructionData
  let scriptLen := byteAt data (off + 8)
  require (scriptLen ≠ 0 ∧ scriptLen ≤ maxBtcScriptLen) UTXOpiaError.InvalidBtcAddress
  let nonceAt := off + 9 + scriptLen
  require (nonceAt ≤ data.length) .InvalidInstructionData
  let script := (data.drop (off + 9)).take scriptLen
  require (script.head? ≠ some 0x6a) UTXOpiaError.InvalidBtcAddress
  require (nonceAt + 8 ≤ data.length) .InvalidInstructionData
  return (⟨u64At data off, script, u64At data nonceAt⟩, nonceAt + 8)

def readRedeemItems (data : List UInt8) : ℕ → ℕ → Except ProgramError (List RedeemItem × ℕ)
  | 0, off => .ok ([], off)
  | n + 1, off => do
    let (item, off) ← readRedeemItem data off
    let (items, off) ← readRedeemItems data n off
    return (item :: items, off)

/-- What a redemption has established before it writes anything. -/
structure RedeemPlan where
  header : JoinSplitHeader
  pre : JoinSplitPrefix
  items : List RedeemItem
  pool : AccountInfo
  tree : AccountInfo
  tokenConfig : AccountInfo
  user : AccountInfo
  tokenId : Hash
  totalRedeem : ℕ
  activeIndex : ℕ
  sourceTreeIndex : ℕ
  consumed : Option Consumption

def RedeemPlan.nTreeOutputs (plan : RedeemPlan) : ℕ :=
  plan.header.nOutputs - plan.header.nPublicOutputs

def addRedeemAmount (total : ℕ) (item : RedeemItem) : Except ProgramError ℕ := do
  require (item.amount ≠ 0) UTXOpiaError.ZeroAmount
  checkedAdd 64 total item.amount

section Redeem

variable (E : Env) (s : State) (c : Call)

/-- The token is the pool's own. -/
def readZkbtcConfig (pool tokenConfig : AccountInfo) (p : PoolState) :
    Except ProgramError TokenConfig := do
  let tc ← readTokenConfig s tokenConfig
  require tc.enabled UTXOpiaError.TokenDisabled
  require (tokenConfig.key = .tokenConfig pool.key tc.mint) .InvalidSeeds
  require (tc.mint = p.zkbtcMint) UTXOpiaError.InvalidTokenConfig
  return tc

def planRedeem : Except ProgramError RedeemPlan := do
  let h ← parseHeader c.data
  validatePublicOutputs h false
  let minAccounts := 6 + h.nInputs + h.nPublicOutputs
  validateAccountCount c minAccounts h
  let pre ← parsePrefix E c h (h.nOutputs - h.nPublicOutputs)
  let (items, off) ← readRedeemItems c.data h.nPublicOutputs pre.stealthDataEnd
  require (off = c.data.length) .InvalidInstructionData
  let pool ← c.account 0
  let tree ← c.account 1
  let vkRegistry ← c.account 2
  let user ← c.account 3
  let systemProgram ← c.account 4
  let tokenConfig ← c.account 5
  validateProgramOwner E s c pool
  validateProgramOwner E s c tree
  validateProgramOwner E s c vkRegistry
  validateProgramOwner E s c tokenConfig
  validateSystemProgram systemProgram
  validateAccountWritable pool
  validateAccountWritable tree
  validateAccountWritable tokenConfig
  validateSigner user
  let p ← readPool s pool
  let tc ← readZkbtcConfig s pool tokenConfig p
  require (¬ p.paused) UTXOpiaError.PoolPaused
  validateActiveTreePda E s c tree pool p.activeTreeIndex
  require (¬ (h.has Jsflags.RELAYER ∨ h.has Jsflags.QUEUED_LEAVES)) .InvalidInstructionData
  let policyTail ← PolicyTail.fromFlags h p.permissioned h.nPublicOutputs
  let tail ← resolveJoinsplitTail h minAccounts policyTail 0 c.accounts.length
  let sourceTree ← readSourceTree E s c tree tail.sourceTree
  let consumed ← authorizeSpend E s c p pool user tail policyTail redeemCode exitKindBtcScript
    [nullifiersConcat pre, c.data.drop pre.stealthDataEnd] (items.map fun i => E.sha256 i.script)
  let expected ← bindBoundParamsToDomain E (computeBoundParamsHashRedeem E
    (items.map RedeemItem.script) (stealthDataHash E c pre) (E.bytesOf user.key)) pool.key
    p.permissioned
  require (pre.boundParamsHash = expected) UTXOpiaError.InvalidBoundParams
  let totalRedeem ← loop addRedeemAmount 0 items
  require (totalRedeem ≤ p.totalShielded) UTXOpiaError.InsufficientFunds
  let sourceTreeIndex ←
    verifyVkMerkleAndProof E s c pool vkRegistry tree p.activeTreeIndex sourceTree h pre
  loop (checkPublicOutput E tc.tokenId) ()
    ((pre.commitmentsOut.drop (h.nOutputs - h.nPublicOutputs)).zip (items.map RedeemItem.amount))
  return {
    header := h
    pre := pre
    items := items
    pool := pool
    tree := tree
    tokenConfig := tokenConfig
    user := user
    tokenId := tc.tokenId
    totalRedeem := totalRedeem
    activeIndex := p.activeTreeIndex
    sourceTreeIndex := sourceTreeIndex
    consumed := consumed }

/-- The request of one public output. -/
def createRedemption (plan : RedeemPlan) (s : State) (entry : AccountInfo × RedeemItem) :
    Except ProgramError State := do
  let (info, item) := entry
  validateAccountWritable info
  let k := (plan.pool.key, plan.user.key, item.nonce)
  require (info.key = .redemption plan.pool.key plan.user.key item.nonce) .InvalidSeeds
  let acc := s.redemptions.get k
  require (acc.live? = none) UTXOpiaError.AlreadyInitialized
  let acc ← createOrClaim acc (E.minimumBalance 178) .Cpi
  let p ← readPool s plan.pool
  let serviceFee := p.computeServiceFee item.amount
  require (serviceFee < item.amount) UTXOpiaError.AmountTooSmall
  let r : RedemptionRequest :=
    { status := .Pending
      btcScript := item.script
      signingApproved := false
      processingSlot := 0
      requestId := item.nonce
      requester := plan.user.key
      amountSats := item.amount
      serviceFee := serviceFee
      totalInputSats := 0
      tokenId := plan.tokenId
      reservedCount := 0
      approvedInputs := 0
      approvalMinerFee := 0
      inputsCommitment := zeros 32 }
  return { s with redemptions := s.redemptions.set k (rewrite acc r) }

def processRedeem : Except ProgramError State := do
  let plan ← planRedeem E s c
  let s ← createNullifierRecords E s c 6 plan.pre.nullifiers plan.pool plan.sourceTreeIndex .ApplyNow
  let s ← insertOutputs E s plan.pool plan.tree plan.activeIndex
    (plan.pre.commitmentsOut.take plan.nTreeOutputs)
  let s ← loop (createRedemption E plan) s
    ((c.accounts.drop (6 + plan.header.nInputs)).zip plan.items)
  let tc ← readTokenConfig s plan.tokenConfig
  let tc ← tc.subShielded plan.totalRedeem
  let s := s.putTokenConfig tc plan.tokenConfig.key
  let p ← readPool s plan.pool
  return s.putPool
    { p with
      totalShielded := tc.totalShielded
      pendingRedemptions := saturatingAdd 64 p.pendingRedemptions plan.header.nPublicOutputs
      lastUpdate := c.unixTimestamp }
    plan.pool.key

end Redeem

/-! ### Reserving -/

def maxUtxosPerMark : ℕ := 20

/-- What a pass over UTXO accounts carries: the state, the inputs so far and their sum. -/
structure Reserving where
  state : State
  inputs : List ReservedInput
  total : ℕ

section Reserve

variable (E : Env) (c : Call)

/-- Reserve one unspent output of the pool. -/
def reserveUtxo (pool : Addr) (reservationKey : ℕ) (acc : Reserving) (info : AccountInfo) :
    Except ProgramError Reserving := do
  validateProgramOwner E acc.state c info
  validateAccountWritable info
  let u ← orElse (acc.state.utxoAt info.key) UTXOpiaError.InvalidUtxo
  require (u.status = .Unspent) UTXOpiaError.UtxoNotUnspent
  require (info.key = .utxo pool (u.txid, u.vout)) UTXOpiaError.InvalidUtxo
  let total ← checkedAdd 64 acc.total u.amountSats
  return ⟨acc.state.putUtxo { u with status := .Reserved, reservedForRequestId := reservationKey }
    info.key, acc.inputs ++ [⟨u.txid, u.vout, u.amountSats, none⟩], total⟩

/-- The inputs cover the payment and the largest fee, and none of them is superfluous. -/
def checkReservedTotal (r : RedemptionRequest) (inputs : List ReservedInput) (total : ℕ) :
    Except ProgramError Unit := do
  require (r.serviceFee ≤ r.amountSats) .InvalidArgument
  let required ← checkedAdd 64 (r.amountSats - r.serviceFee) (min maxMinerFeeSats r.serviceFee)
  require (required ≤ total) UTXOpiaError.InsufficientReservedInputs
  let smallest ← orElse (inputs.map ReservedInput.amountSats).min? .InvalidInstructionData
  require (total - smallest < required) UTXOpiaError.ExcessiveReservedInputs

def processMarkProcessing (s : State) : Except ProgramError State := do
  c.atLeast 3
  let pool ← c.account 0
  let redemption ← c.account 1
  let authority ← c.account 2
  validateSigner authority
  validateProgramOwner E s c pool
  validateRedemptionPda E s c redemption pool
  validateAccountWritable pool
  validateAccountWritable redemption
  let p ← readPool s pool
  require (¬ p.paused) UTXOpiaError.PoolPaused
  let r ← readRedemption s redemption
  redemptionDriverIsAllowed authority.key p.authority r.requester
  require (c.data ≠ []) .InvalidInstructionData
  let utxoCount := byteAt c.data 0
  require (utxoCount ≠ 0) .InvalidInstructionData
  c.atLeast (3 + utxoCount)
  require (utxoCount ≤ maxUtxosPerMark) .InvalidInstructionData
  require (r.status = .Pending) UTXOpiaError.InvalidRedemptionState
  let got ← loop (reserveUtxo E c pool.key (redemptionReservationKey E redemption.key)) ⟨s, [], 0⟩
    ((c.accounts.drop 3).take utxoCount)
  checkReservedTotal r got.inputs got.total
  let p ← loop (fun p (i : ReservedInput) => PoolState.removeUtxo p i.amountSats) p got.inputs
  let s := got.state.putPool p pool.key
  return s.putRedemption
    { r with
      status := .Processing
      processingSlot := c.slot % 2 ^ 32
      totalInputSats := got.total
      reservedCount := utxoCount
      inputsCommitment := inputsCommitment E (canonicalSort got.inputs) }
    redemption.key

end Reserve

/-! ### Cancelling -/

def redemptionTimeoutSlots : ℕ := 216000
def maxUtxosPerCancel : ℕ := 20

/-- Whether outputs are reserved for the request; refuse while it may still be signed. -/
def cancellable (r : RedemptionRequest) (slot : ℕ) : Except ProgramError Bool := do
  require (¬ r.signingApproved) UTXOpiaError.RedemptionCancelNotAllowed
  match r.status with
  | .Pending => return false
  | .Processing => do
    let elapsed := (slot % 2 ^ 32 + 2 ^ 32 - r.processingSlot) % 2 ^ 32
    require (redemptionTimeoutSlots ≤ elapsed) UTXOpiaError.RedemptionCancelNotAllowed
    return true
  | .Failed => throw (.Custom .RedemptionCancelNotAllowed)

section Cancel

variable (E : Env) (c : Call)

/-- Make one reserved output spendable again. -/
def releaseUtxo (reservationKey : ℕ) (acc : State × ℕ) (info : AccountInfo) :
    Except ProgramError (State × ℕ) := do
  validateProgramOwner E acc.1 c info
  validateAccountWritable info
  let u ← orElse (acc.1.utxoAt info.key) UTXOpiaError.InvalidUtxo
  require (u.status = .Reserved ∧ u.reservedForRequestId = reservationKey) UTXOpiaError.InvalidUtxo
  let total ← checkedAdd 64 acc.2 u.amountSats
  return (acc.1.putUtxo { u with status := .Unspent, reservedForRequestId := 0 } info.key, total)

/-- Release the whole reservation; a pending request has none. -/
def releaseReserved (s : State) (wasProcessing : Bool) (reservationKey utxoCount : ℕ) :
    Except ProgramError (State × ℕ) :=
  if wasProcessing then
    loop (releaseUtxo E c reservationKey) (s, 0) ((c.accounts.drop 6).take utxoCount)
  else do
    require (utxoCount = 0) .InvalidInstructionData
    return (s, 0)

/-- Close a request; its rent goes to the recipient. -/
def closeRedemption (s : State) (redemption recipient : Addr) : State :=
  match redemption with
  | .redemption pool requester nonce =>
    let acc := s.redemptions.get (pool, requester, nonce)
    State.fund { s with redemptions := s.redemptions.set (pool, requester, nonce) (close acc) }
      acc.lamports recipient
  | _ => s

/-- Put the outputs back on the pool's books. -/
def restoreUtxos (p : PoolState) (restoredTotal utxoCount : ℕ) : Except ProgramError PoolState :=
  if restoredTotal > 0 then p.addUtxos restoredTotal utxoCount else .ok p

def processCancelRedemption (s : State) : Except ProgramError State := do
  c.atLeast 6
  let user ← c.account 0
  let pool ← c.account 1
  let redemption ← c.account 2
  let tree ← c.account 3
  let tokenConfig ← c.account 5
  require (32 ≤ c.data.length) .InvalidInstructionData
  let npk := slice 32 c.data 0
  let utxoCount := byteAt c.data 32
  require (utxoCount ≤ maxUtxosPerCancel) .InvalidInstructionData
  validateSigner user
  validateProgramOwner E s c pool
  validateRedemptionPda E s c redemption pool
  validateProgramOwner E s c tree
  validateAccountWritable pool
  validateAccountWritable redemption
  validateAccountWritable tree
  let p ← readPool s pool
  require (¬ p.paused) UTXOpiaError.PoolPaused
  validateActiveTreePda E s c tree pool p.activeTreeIndex
  let r ← readRedemption s redemption
  require (user.key = r.requester) UTXOpiaError.Unauthorized
  let wasProcessing ← cancellable r c.slot
  validateProgramOwner E s c tokenConfig
  validateAccountWritable tokenConfig
  let tc ← readTokenConfig s tokenConfig
  require (tokenConfig.key = .tokenConfig pool.key tc.mint) .InvalidSeeds
  require (tc.tokenId = r.tokenId) UTXOpiaError.Unauthorized
  c.atLeast (6 + utxoCount)
  require (wasProcessing → utxoCount = r.reservedCount) UTXOpiaError.InvalidUtxo
  let (s, restoredTotal) ← releaseReserved E c s wasProcessing
    (redemptionReservationKey E redemption.key) utxoCount
  let commitment ← computeCommitment E npk r.tokenId r.amountSats
  let s ← insertOne E s pool tree p.activeTreeIndex commitment
  let tc ← tc.addShielded r.amountSats
  let s := s.putTokenConfig tc tokenConfig.key
  let p ← restoreUtxos { p with totalShielded := tc.totalShielded } restoredTotal utxoCount
  let s := s.putPool
    { p with
      pendingRedemptions := p.pendingRedemptions - 1
      lastUpdate := c.unixTimestamp }
    pool.key
  return closeRedemption s redemption.key user.key

end Cancel

end Utxopia.Pool
