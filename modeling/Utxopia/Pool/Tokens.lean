import Utxopia.Pool.Joinsplit

/-!
Tokens: registration, limits, shielding into the pool, unshielding out of it, and fees.

Every token of a pool has a config that names its vault and counts what the pool owes: the
shielded total and the fees not yet claimed.
-/

namespace Utxopia.Pool

open Utxopia.ByteString Utxopia.Check Utxopia.Runtime

/-! ### Mints -/

def extTransferFeeConfig : ℕ := 1
def extPermanentDelegate : ℕ := 12
def extTransferHook : ℕ := 14

/-- Walk the extensions of a mint; `fuel` bounds their number by the length of the data. -/
def scanExtensions (d : List UInt8) : ℕ → ℕ → Bool
  | 0, _ => false
  | fuel + 1, off =>
    if off + 4 ≤ d.length then
      let extType := u16At d off
      if extType = 0 then false
      else if extType ∈ [extTransferFeeConfig, extPermanentDelegate, extTransferHook] then true
      else
        let next := off + 4 + u16At d (off + 2)
        if next ≤ d.length then scanExtensions d fuel next else true
    else false

def mintHasUnsupportedPoolExtension (d : List UInt8) : Bool :=
  if d.length ≤ 165 ∨ byteAt d 165 ≠ 1 then false else scanExtensions d d.length 166

/-- An initialised mint with eight decimals whose authorities are the pool's. -/
def validatePoolControlledZkbtcMint (E : Env) (c : Call) (mint : AccountInfo) (pool : Addr) :
    Except ProgramError Unit := do
  require (c.ownedBy mint.key token2022ProgramId) UTXOpiaError.InvalidMint
  let d := c.dataOf mint.key
  require (82 ≤ d.length ∧ ¬ (82 < d.length ∧ d.length < 166) ∧ byteAt d 45 = 1 ∧ byteAt d 44 = 8)
    UTXOpiaError.InvalidMint
  require (u32At d 0 = 1 ∧ (slice 32 d 4 : Hash) = E.bytesOf pool) UTXOpiaError.InvalidMint
  require (u32At d 46 ≤ 1 ∧ (u32At d 46 = 1 → (slice 32 d 50 : Hash) = E.bytesOf pool) ∧
    ¬ mintHasUnsupportedPoolExtension d) UTXOpiaError.InvalidMint

/-! ### Registration and limits -/

def processRegisterToken (E : Env) (s : State) (c : Call) : Except ProgramError State := do
  c.atLeast 6
  require (32 ≤ c.data.length) .InvalidInstructionData
  let authority ← c.account 0
  let pool ← c.account 1
  let mint ← c.account 2
  let tokenConfig ← c.account 3
  let vault ← c.account 4
  let systemProgram ← c.account 5
  validateSigner authority
  validateProgramOwner E s c pool
  validateSystemProgram systemProgram
  validateAccountWritable tokenConfig
  let p ← readPool s pool
  require (authority.key = p.authority) UTXOpiaError.Unauthorized
  validateTokenOwner s c mint
  validateTokenOwner s c vault
  let v ← orElse (s.tokens vault.key) UTXOpiaError.InvalidAccountData
  require (v.owner = pool.key) UTXOpiaError.InvalidVault
  let mintData := c.dataOf mint.key
  require (82 ≤ mintData.length) .InvalidAccountData
  require (¬ mintHasUnsupportedPoolExtension mintData) UTXOpiaError.InvalidMint
  require (tokenConfig.key = .tokenConfig pool.key mint.key) UTXOpiaError.InvalidPDA
  let tokenId ← computeTokenId E mint.key
  let acc := s.tokenConfigs.get (pool.key, mint.key)
  require (acc.live? = none) UTXOpiaError.AlreadyInitialized
  let acc ← createOrClaim acc (E.minimumBalance 164) .Cpi
  let minDeposit := u64At c.data 8
  let maxDeposit := u64At c.data 16
  let depositCap := u64At c.data 24
  require (minDeposit ≠ 0 ∧ minDeposit ≤ maxDeposit ∧ maxDeposit ≤ depositCap)
    UTXOpiaError.InvalidTokenConfig
  let tc : TokenConfig :=
    { mint := mint.key
      tokenId := tokenId
      vault := vault.key
      decimals := byteAt mintData 44
      enabled := true
      serviceFee := u64At c.data 0
      minDeposit := minDeposit
      maxDeposit := maxDeposit
      depositCap := depositCap
      totalShielded := 0
      accumulatedFees := 0 }
  return { s with tokenConfigs := s.tokenConfigs.set (pool.key, mint.key) (rewrite acc tc) }

/-- Read the next optional `u64` of an update if its flag is set. -/
def optionalU64 (data : List UInt8) (flags bit off old : ℕ) : Except ProgramError (ℕ × ℕ) :=
  if flags.testBit bit then do
    require (off + 8 ≤ data.length) .InvalidInstructionData
    return (u64At data off, off + 8)
  else .ok (old, off)

def optionalBool (data : List UInt8) (flags bit off : ℕ) (old : Bool) :
    Except ProgramError (Bool × ℕ) :=
  if flags.testBit bit then do
    require (off + 1 ≤ data.length) .InvalidInstructionData
    return (byteAt data off ≠ 0, off + 1)
  else .ok (old, off)

/-- Bit 0 would change the service fee and is refused. -/
def processUpdateTokenConfig (E : Env) (s : State) (c : Call) : Except ProgramError State := do
  c.atLeast 3
  require (c.data ≠ []) .InvalidInstructionData
  let authority ← c.account 0
  let pool ← c.account 1
  let tokenConfig ← c.account 2
  validateSigner authority
  validateProgramOwner E s c pool
  validateTokenConfigPda E s c tokenConfig pool
  validateAccountWritable tokenConfig
  let p ← readPool s pool
  require (authority.key = p.authority) UTXOpiaError.Unauthorized
  let flags := byteAt c.data 0
  require (flags < 32 ∧ ¬ flags.testBit 0) .InvalidInstructionData
  let tc ← readTokenConfig s tokenConfig
  let (minDeposit, off) ← optionalU64 c.data flags 1 1 tc.minDeposit
  let (maxDeposit, off) ← optionalU64 c.data flags 2 off tc.maxDeposit
  let (depositCap, off) ← optionalU64 c.data flags 3 off tc.depositCap
  let (enabled, off) ← optionalBool c.data flags 4 off tc.enabled
  require (off = c.data.length) .InvalidInstructionData
  return s.putTokenConfig
    { tc with
      minDeposit := minDeposit, maxDeposit := maxDeposit, depositCap := depositCap
      enabled := enabled } tokenConfig.key

/-! ### Shielding -/

/-- What shielding writes after the tokens have arrived: the note and the totals. -/
def recordShield (E : Env) (s : State) (c : Call) (pool tree tokenConfig : AccountInfo)
    (npk : Hash) (depositCap received : ℕ) (isPoolZkbtc : Bool) : Except ProgramError State := do
  let p ← readPool s pool
  let protocolFee := computeBpsFee received p.depositFeeBps
  let shieldedAmount ← checkedSub received protocolFee
  require (shieldedAmount ≠ 0) UTXOpiaError.AmountTooSmall
  let tc ← readTokenConfig s tokenConfig
  let after ← checkedAdd 64 tc.totalShielded shieldedAmount
  require (after ≤ depositCap) UTXOpiaError.DepositCapExceeded
  let commitment ← computeCommitment E npk tc.tokenId shieldedAmount
  let s ← insertOne E s pool tree p.activeTreeIndex commitment
  let tc ← tc.addShielded shieldedAmount
  let tc ← tc.addFees protocolFee
  let s := s.putTokenConfig tc tokenConfig.key
  if isPoolZkbtc then
    return s.putPool { p with totalShielded := tc.totalShielded, lastUpdate := c.unixTimestamp }
      pool.key
  else return s

def shieldInner (E : Env) (s : State) (c : Call) : Except ProgramError State := do
  let user ← c.account 0
  let userTokenAccount ← c.account 1
  let pool ← c.account 2
  let tokenConfig ← c.account 3
  let vault ← c.account 4
  let tree ← c.account 5
  let tokenProgram ← c.account 6
  let amount := u64At c.data 0
  let npk := slice 32 c.data 8
  validateProgramOwner E s c tree
  validateTokenOwner s c userTokenAccount
  validateTokenOwner s c vault
  let program ← validateAnyTokenProgramKey tokenProgram
  validateAccountWritable userTokenAccount
  validateAccountWritable pool
  validateAccountWritable tokenConfig
  validateAccountWritable vault
  validateAccountWritable tree
  validateTokenConfigPda E s c tokenConfig pool
  let p ← readPool s pool
  require (¬ p.paused) UTXOpiaError.PoolPaused
  validateActiveTreePda E s c tree pool p.activeTreeIndex
  let tc ← readTokenConfig s tokenConfig
  require tc.enabled UTXOpiaError.TokenDisabled
  require (vault.key = tc.vault) UTXOpiaError.InvalidVault
  let uta ← orElse (s.tokens userTokenAccount.key) .InvalidAccountData
  require (uta.mint = tc.mint) UTXOpiaError.InvalidMint
  require (tc.minDeposit ≤ amount ∧ amount ≤ tc.maxDeposit) UTXOpiaError.AmountOutOfRange
  let s' ← transferToken s program userTokenAccount.key vault.key user.key amount
  let received ← checkedSub (s'.balance vault.key) (s.balance vault.key)
  recordShield E s' c pool tree tokenConfig npk tc.depositCap received (tc.mint = p.zkbtcMint)

def processShield (E : Env) (s : State) (c : Call) : Except ProgramError State := do
  c.atLeast 7
  require (72 ≤ c.data.length) .InvalidInstructionData
  let user ← c.account 0
  let pool ← c.account 2
  validateSigner user
  validateProgramOwner E s c pool
  let p ← readPool s pool
  require (¬ p.permissioned) UTXOpiaError.NotPermissioned
  shieldInner E s c

/-- What a permissioned shield has checked before it moves tokens. -/
def authorizeShield (E : Env) (s : State) (c : Call) : Except ProgramError Consumption := do
  c.atLeast 10
  require (72 ≤ c.data.length) .InvalidInstructionData
  let user ← c.account 0
  let pool ← c.account 2
  let approval ← c.account 7
  let policyProgram ← c.account 8
  let destination ← c.account 9
  validateSigner user
  validateProgramOwner E s c pool
  let p ← readPool s pool
  require p.permissioned UTXOpiaError.NotPermissioned
  require (¬ p.auditorFrozen) UTXOpiaError.AuditorFrozen
  assertExitDestinationRegistered E s c pool.key destination exitKindSolanaOwner
    (E.bytesOf user.key)
  consumePolicyApproval E s c approval policyProgram pool user.key p.auditor shieldPermissionedCode
    [c.data]

def processShieldPermissioned (E : Env) (s : State) (c : Call) : Except ProgramError State := do
  let _ ← authorizeShield E s c
  shieldInner E s c

/-! ### Unshielding -/

/-- What an unshield has established before it writes anything. -/
structure UnshieldPlan where
  header : JoinSplitHeader
  pre : JoinSplitPrefix
  amounts : List ℕ
  pool : AccountInfo
  tree : AccountInfo
  tokenConfig : AccountInfo
  vault : AccountInfo
  program : TokenProgram
  recipients : List AccountInfo
  nativeSol : Bool
  withdrawalFeeBps : ℕ
  activeIndex : ℕ
  sourceTreeIndex : ℕ
  isPoolZkbtc : Bool
  consumed : Option Consumption

def UnshieldPlan.nTreeOutputs (plan : UnshieldPlan) : ℕ :=
  plan.header.nOutputs - plan.header.nPublicOutputs

section Unshield

variable (E : Env) (s : State) (c : Call)

/-- A recipient of native SOL is not a token account; of tokens, it is one of the program. -/
def checkRecipient (vault : Addr) (program : TokenProgram) (nativeSol : Bool) (_ : Unit)
    (recipient : AccountInfo) : Except ProgramError Unit := do
  validateAccountWritable recipient
  require (recipient.key ≠ vault) .InvalidArgument
  if nativeSol then require (tokenProgramOf s c recipient.key = none) .InvalidAccountOwner
  else require (tokenProgramOf s c recipient.key = some program) .InvalidAccountOwner

/-- The key a payout goes to: the account itself for native SOL, else its owner. -/
def payoutOwner (nativeSol : Bool) (recipient : AccountInfo) : Except ProgramError Hash :=
  if nativeSol then .ok (E.bytesOf recipient.key)
  else do
    let t ← orElse (s.tokens recipient.key) .InvalidAccountData
    return E.bytesOf t.owner

/-- The `n` amounts after the stealth data, which end the data. -/
def readAmounts (pre : JoinSplitPrefix) (n : ℕ) : Except ProgramError (List ℕ) := do
  require (c.data.length = pre.stealthDataEnd + n * 8) .InvalidInstructionData
  return (List.range n).map fun i => u64At c.data (pre.stealthDataEnd + i * 8)

/-- How a spend with public outputs is allowed: freely, by an approval, or by leaving to
registered destinations. -/
def authorizeSpend (p : PoolState) (pool user : AccountInfo) (tail : JoinSplitTail)
    (policyTail : PolicyTail) (action kind : ℕ) (intentParts : List (List UInt8))
    (destinations : List Hash) : Except ProgramError (Option Consumption) := do
  let verified : Bool := policyTail = .Verified
  let path ← resolveSpendPath p.permissioned verified verified action
  match path with
  | .Open => return none
  | .Verified => do
    let (a, b) ← orElse tail.verifiedPair .NotEnoughAccountKeys
    let approval ← c.account a
    let policyProgram ← c.account b
    require (¬ (p.permissioned ∧ p.auditorFrozen)) UTXOpiaError.AuditorFrozen
    let consumed ←
      consumePolicyApproval E s c approval policyProgram pool user.key p.auditor action intentParts
    return some consumed
  | .Ragequit => do
    let base ← orElse tail.policyStart .NotEnoughAccountKeys
    loop (fun _ item => assertExitDestinationRegistered E s c pool.key item.1 kind item.2) ()
      ((c.accounts.drop base).zip destinations)
    return none

/-- The last outputs of the proof are the public ones: notes of nobody for the amounts. -/
def checkPublicOutput (tokenId : Hash) (_ : Unit) (item : Hash × ℕ) : Except ProgramError Unit := do
  let expected ← computeCommitment E (zeros 32) tokenId item.2
  require (item.1 = expected) UTXOpiaError.InvalidCommitment

def planUnshield : Except ProgramError UnshieldPlan := do
  let h ← parseHeader c.data
  validatePublicOutputs h false
  let minAccounts := 8 + h.nPublicOutputs + h.nInputs
  validateAccountCount c minAccounts h
  let pre ← parsePrefix E c h (h.nOutputs - h.nPublicOutputs)
  let amounts ← readAmounts c pre h.nPublicOutputs
  let pool ← c.account 0
  let tree ← c.account 1
  let vkRegistry ← c.account 2
  let user ← c.account 3
  let systemProgram ← c.account 4
  let tokenConfig ← c.account 5
  let vault ← c.account 6
  let tokenProgram ← c.account 7
  validateProgramOwner E s c tree
  validateProgramOwner E s c vkRegistry
  validateSystemProgram systemProgram
  validateTokenOwner s c vault
  let program ← validateAnyTokenProgramKey tokenProgram
  validateAccountWritable pool
  validateAccountWritable tree
  validateTokenConfigPda E s c tokenConfig pool
  validateAccountWritable tokenConfig
  validateAccountWritable vault
  validateSigner user
  let v ← orElse (s.tokens vault.key) .InvalidAccountData
  require (v.program = program) .InvalidAccountOwner
  let nativeSol := isNativeSolMint v.mint program
  let p ← readPool s pool
  let recipients := (c.accounts.drop 8).take h.nPublicOutputs
  loop (checkRecipient s c vault.key program nativeSol) () recipients
  let owners ← recipients.mapM (payoutOwner E s nativeSol)
  let ownersConcat := owners.flatMap Vector.toList
  require (¬ p.paused) UTXOpiaError.PoolPaused
  validateActiveTreePda E s c tree pool p.activeTreeIndex
  require (¬ (h.has Jsflags.RELAYER ∨ h.has Jsflags.QUEUED_LEAVES)) .InvalidInstructionData
  let policyTail ← PolicyTail.fromFlags h p.permissioned h.nPublicOutputs
  let tail ← resolveJoinsplitTail h minAccounts policyTail 0 c.accounts.length
  let sourceTree ← readSourceTree E s c tree tail.sourceTree
  let tc ← readTokenConfig s tokenConfig
  require tc.enabled UTXOpiaError.TokenDisabled
  require (vault.key = tc.vault) UTXOpiaError.InvalidVault
  let consumed ← authorizeSpend E s c p pool user tail policyTail unshieldCode exitKindSolanaOwner
    [nullifiersConcat pre, c.data.drop pre.stealthDataEnd, ownersConcat] owners
  let expected ← bindBoundParamsToDomain E
    (computeBoundParamsHashUnshield E ownersConcat (stealthDataHash E c pre)) pool.key p.permissioned
  require (pre.boundParamsHash = expected) UTXOpiaError.InvalidBoundParams
  let sourceTreeIndex ←
    verifyVkMerkleAndProof E s c pool vkRegistry tree p.activeTreeIndex sourceTree h pre
  loop (checkPublicOutput E tc.tokenId) ()
    ((pre.commitmentsOut.drop (h.nOutputs - h.nPublicOutputs)).zip amounts)
  return {
    header := h
    pre := pre
    amounts := amounts
    pool := pool
    tree := tree
    tokenConfig := tokenConfig
    vault := vault
    program := program
    recipients := recipients
    nativeSol := nativeSol
    withdrawalFeeBps := p.withdrawalFeeBps
    activeIndex := p.activeTreeIndex
    sourceTreeIndex := sourceTreeIndex
    isPoolZkbtc := tc.mint = p.zkbtcMint
    consumed := consumed }

/-- `UnwrapLamports`: native SOL leaves a vault as lamports. -/
def unwrapLamports (s : State) (program : TokenProgram) (src dst authority : Addr) (amount : ℕ) :
    Except ProgramError State := do
  let t ← orElse (s.tokens src) .Cpi
  require (t.program = program ∧ isNativeSolMint t.mint program) .Cpi
  require (t.allows authority) .Cpi
  require (amount ≤ t.amount) .Cpi
  return (setToken s src { t with amount := t.amount - amount }).fund amount dst

/-- What the payouts carry: the state and the totals. -/
structure Payouts where
  state : State
  totalAmount : ℕ
  totalProtocolFee : ℕ

def payout (plan : UnshieldPlan) (acc : Payouts) (item : AccountInfo × ℕ) :
    Except ProgramError Payouts := do
  let (recipient, amount) := item
  let protocolFee := computeBpsFee amount plan.withdrawalFeeBps
  let net ← checkedSub amount protocolFee
  let totalAmount ← checkedAdd 64 acc.totalAmount amount
  let totalProtocolFee ← checkedAdd 64 acc.totalProtocolFee protocolFee
  let s ← if plan.nativeSol then
      unwrapLamports acc.state plan.program plan.vault.key recipient.key plan.pool.key net
    else transferToken acc.state plan.program plan.vault.key recipient.key plan.pool.key net
  return ⟨s, totalAmount, totalProtocolFee⟩

def processUnshield : Except ProgramError State := do
  let plan ← planUnshield E s c
  let s ← createNullifierRecords E s c (8 + plan.header.nPublicOutputs) plan.pre.nullifiers
    plan.pool plan.sourceTreeIndex .ApplyNow
  let s ← insertOutputs E s plan.pool plan.tree plan.activeIndex
    (plan.pre.commitmentsOut.take plan.nTreeOutputs)
  let paid ← loop (payout plan) ⟨s, 0, 0⟩ (plan.recipients.zip plan.amounts)
  let tc ← readTokenConfig paid.state plan.tokenConfig
  let tc ← tc.subShielded paid.totalAmount
  let tc ← tc.addFees paid.totalProtocolFee
  let s := paid.state.putTokenConfig tc plan.tokenConfig.key
  if plan.isPoolZkbtc then do
    let p ← readPool s plan.pool
    return s.putPool { p with totalShielded := tc.totalShielded, lastUpdate := c.unixTimestamp }
      plan.pool.key
  else return s

end Unshield

/-! ### Claiming fees -/

def processClaimFees (E : Env) (s : State) (c : Call) : Except ProgramError State := do
  c.atLeast 6
  require (8 ≤ c.data.length) .InvalidInstructionData
  let authority ← c.account 0
  let pool ← c.account 1
  let tokenConfig ← c.account 2
  let vault ← c.account 3
  let adminTokenAccount ← c.account 4
  let tokenProgram ← c.account 5
  let amount := u64At c.data 0
  validateSigner authority
  validateProgramOwner E s c pool
  validateTokenOwner s c vault
  validateTokenOwner s c adminTokenAccount
  let program ← validateAnyTokenProgramKey tokenProgram
  validateAccountWritable tokenConfig
  validateAccountWritable vault
  validateAccountWritable adminTokenAccount
  validateTokenConfigPda E s c tokenConfig pool
  require (vault.key ≠ adminTokenAccount.key) .InvalidArgument
  let p ← readPool s pool
  require (authority.key = p.authority) UTXOpiaError.Unauthorized
  let tc ← readTokenConfig s tokenConfig
  require (vault.key = tc.vault) UTXOpiaError.InvalidVault
  require (amount ≤ tc.accumulatedFees) UTXOpiaError.InsufficientFees
  let s ← transferToken s program vault.key adminTokenAccount.key pool.key amount
  let tc ← tc.subFees amount
  return s.putTokenConfig tc tokenConfig.key

end Utxopia.Pool
