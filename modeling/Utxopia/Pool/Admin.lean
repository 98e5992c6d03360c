import Utxopia.Pool.Notes
import Utxopia.Pool.Sighash
import Utxopia.Pool.Tokens

/-!
Setting up a pool and running it.

Initialising makes the pool and its first tree. Most later changes are one signer rewriting
fields of the pool: the authority for limits and fees, the auditor for the freeze and the
viewing key. Limits change through a proposal that has to wait.
-/

namespace Utxopia.Pool

open Utxopia.ByteString Utxopia.Check Utxopia.Runtime

/-! ### Initialising -/

def maxFeeBps : ℕ := 10000
def minDepositSats : ℕ := 5000
def maxDepositSats : ℕ := 100000000000

/-- What the two entries set differently. -/
structure AuditorSetup where
  auditor : Hash
  viewingPubkey : Hash

def PoolState.init (authority zkbtcMint poolVault depositVault : Addr)
    (depositFeeBps withdrawalFeeBps : ℕ) (now : ℤ) (setup : Option AuditorSetup) : PoolState where
  paused := false
  permissioned := setup.isSome
  auditorFrozen := false
  authority := authority
  zkbtcMint := zkbtcMint
  poolVault := poolVault
  depositVault := depositVault
  depositCount := 0
  totalMinted := 0
  totalBurned := 0
  pendingRedemptions := 0
  lastUpdate := now
  minDeposit := minDepositSats
  maxDeposit := maxDepositSats
  totalShielded := 0
  serviceFeeBase := 2000
  feePool := 0
  pendingMinDeposit := 0
  pendingMaxDeposit := 0
  pendingServiceFee := 0
  pendingExecuteAfter := 0
  depositFeeBps := depositFeeBps
  withdrawalFeeBps := withdrawalFeeBps
  totalBtcHeld := 0
  utxoCount := 0
  activeTreeIndex := 0
  auditor := (setup.map AuditorSetup.auditor).getD (zeros 32)
  auditorViewingPubkey := (setup.map AuditorSetup.viewingPubkey).getD (zeros 32)
  nullifierCount := 0

/-- Create the account unless it has data; data can be written only where the program owns. -/
def createIfEmpty {α : Type} (acc : Account α) (lamports : ℕ) :
    Except ProgramError (Account α) :=
  if acc.data.isEmpty then createOrClaim acc lamports .Cpi
  else do
    require (acc.owner = .program) .IllegalOwner
    return acc

section Setup

variable (E : Env) (s : State) (c : Call)

/-- `setup` comes from the data of the permissioned entry. -/
def initializePool (setup : Option AuditorSetup) : Except ProgramError State := do
  let pool ← c.account 0
  let tree ← c.account 1
  let zkbtcMint ← c.account 2
  let poolVault ← c.account 3
  let depositVault ← c.account 4
  let authority ← c.account 5
  let systemProgram ← c.account 6
  validateSigner authority
  validateSystemProgram systemProgram
  require (pool.key = .poolState zkbtcMint.key) .InvalidSeeds
  validatePoolControlledZkbtcMint E c zkbtcMint pool.key
  require (tree.key = .commitmentTree pool.key 0) .InvalidSeeds
  require (s.pool? zkbtcMint.key = none) UTXOpiaError.AlreadyInitialized
  let poolAcc ← createIfEmpty (s.pools.get zkbtcMint.key) (E.minimumBalance 332)
  let treeAcc ← createIfEmpty (s.trees.get (pool.key, 0)) (E.minimumBalance 8816)
  let depositFeeBps := u16At c.data 2
  let withdrawalFeeBps := u16At c.data 4
  require (depositFeeBps < maxFeeBps ∧ withdrawalFeeBps < maxFeeBps) UTXOpiaError.InvalidTokenConfig
  let p := PoolState.init authority.key zkbtcMint.key poolVault.key depositVault.key depositFeeBps
    withdrawalFeeBps c.unixTimestamp setup
  return { s with
    pools := s.pools.set zkbtcMint.key (rewrite poolAcc p)
    trees := s.trees.set (pool.key, 0) (rewrite treeAcc (.init 0)) }

def processInitialize : Except ProgramError State := do
  c.atLeast 7
  require (6 ≤ c.data.length) .InvalidInstructionData
  initializePool E s c none

def processInitializePermissioned : Except ProgramError State := do
  c.atLeast 7
  require (70 ≤ c.data.length) .InvalidInstructionData
  let setup : AuditorSetup := ⟨slice 32 c.data 6, slice 32 c.data 38⟩
  require (setup.auditor ≠ zeros 32 ∧ setup.viewingPubkey ≠ zeros 32) .InvalidInstructionData
  initializePool E s c (some setup)

/-! ### The pool's wallet -/

/-- A wallet belongs to one pool for good. -/
def bindDwallet (s : State) (pool : Addr) (dwallet : Hash) : Except ProgramError State := do
  let acc := s.dwalletBindings.get dwallet
  if acc.data.isEmpty then do
    let acc ← createOrClaim acc (E.minimumBalance 33) .Cpi
    return { s with dwalletBindings := s.dwalletBindings.set dwallet (rewrite acc ⟨pool⟩) }
  else do
    require (acc.owner = .program) UTXOpiaError.InvalidAccountOwner
    let b ← orElse acc.live? .InvalidAccountData
    require (b.poolState = pool) UTXOpiaError.DwalletAlreadyBound
    return s

/-- The config is written once. -/
def createPoolConfig (s : State) (pool : Addr) (cfg : PoolConfig) : Except ProgramError State := do
  let acc := s.poolConfigs.get pool
  require (acc.live? = none) UTXOpiaError.AlreadyInitialized
  let acc ← createIfEmpty acc (E.minimumBalance 129)
  return { s with poolConfigs := s.poolConfigs.set pool (rewrite acc cfg) }

def processSetPoolConfig : Except ProgramError State := do
  c.atLeast 5
  let pool ← c.account 0
  let poolConfig ← c.account 1
  let authority ← c.account 2
  let systemProgram ← c.account 3
  let dwalletBinding ← c.account 4
  validateSigner authority
  validateProgramOwner E s c pool
  validateAccountWritable poolConfig
  validateAccountWritable dwalletBinding
  validateSystemProgram systemProgram
  let p ← readPool s pool
  require (authority.key = p.authority) UTXOpiaError.Unauthorized
  let scriptLen := byteAt c.data 0
  require (c.data ≠ [] ∧ scriptLen ≠ 0 ∧ scriptLen ≤ 34) .InvalidInstructionData
  require (c.data.length = 1 + scriptLen + 65) .InvalidInstructionData
  let poolScript := (c.data.drop 1).take scriptLen
  let dwallet := slice 32 c.data (1 + scriptLen)
  let xonly := slice 32 c.data (1 + scriptLen + 32)
  require (dwallet ≠ zeros 32 ∧ xonly ≠ zeros 32) .InvalidInstructionData
  require (poolScript = taprootScript xonly) .InvalidInstructionData
  require (poolConfig.key = .poolConfig pool.key) .InvalidSeeds
  require (dwalletBinding.key = .dwalletBinding dwallet) .InvalidSeeds
  let s ← bindDwallet E s pool.key dwallet
  createPoolConfig E s pool.key
    { poolScript := poolScript
      ikaDwallet := dwallet
      ikaDwalletXonlyPubkey := xonly
      cpiAuthorityBump := byteAt c.data (1 + scriptLen + 64) }

/-! ### One signer rewrites fields of the pool -/

/-- Who may make a change. -/
inductive PoolRole where
  | Authority
  | Auditor
  deriving DecidableEq, Repr

def PoolRole.holds (E : Env) (p : PoolState) (signer : Addr) : PoolRole → Bool
  | .Authority => signer = p.authority
  | .Auditor => E.bytesOf signer = p.auditor

/-- The runtime refuses the write if the pool's account is not writable. -/
def updatePool (role : PoolRole) (f : PoolState → Except ProgramError PoolState) :
    Except ProgramError State := do
  c.atLeast 2
  let pool ← c.account 0
  let signer ← c.account 1
  validateSigner signer
  validateProgramOwner E s c pool
  validateAccountWritable pool
  let p ← readPool s pool
  require (role.holds E p signer.key) UTXOpiaError.Unauthorized
  let p ← f p
  return s.putPool p pool.key

def processSetPaused : Except ProgramError State :=
  updatePool E s c .Authority fun p => do
    require (c.data ≠ []) .InvalidInstructionData
    return { p with paused := byteAt c.data 0 ≠ 0, lastUpdate := c.unixTimestamp }

def timelockDelaySecs : ℤ := 172800
def maxSupplySats : ℕ := 2100000000000000

def processProposePoolUpdate : Except ProgramError State :=
  updatePool E s c .Authority fun p => do
    require (c.data.length = 24) .InvalidInstructionData
    let minDeposit := u64At c.data 0
    let maxDeposit := u64At c.data 8
    require (minDeposit ≤ maxDeposit) .InvalidInstructionData
    require (maxDeposit ≤ maxSupplySats) .InvalidInstructionData
    let executeAfter := c.unixTimestamp + timelockDelaySecs
    require (executeAfter < 2 ^ 63) .ArithmeticOverflow
    return { p with
      pendingMinDeposit := minDeposit
      pendingMaxDeposit := maxDeposit
      pendingServiceFee := u64At c.data 16
      pendingExecuteAfter := executeAfter }

def processExecutePoolUpdate : Except ProgramError State :=
  updatePool E s c .Authority fun p => do
    require p.hasPendingProposal UTXOpiaError.NoPendingProposal
    require (p.pendingExecuteAfter ≤ c.unixTimestamp) UTXOpiaError.TimelockNotElapsed
    return PoolState.clearPendingProposal { p with
      minDeposit := p.pendingMinDeposit
      maxDeposit := p.pendingMaxDeposit
      serviceFeeBase := p.pendingServiceFee
      lastUpdate := c.unixTimestamp }

def processCancelPoolUpdate : Except ProgramError State :=
  updatePool E s c .Authority fun p => do
    require p.hasPendingProposal UTXOpiaError.NoPendingProposal
    return p.clearPendingProposal

/-- The fee can only go down. -/
def processSetDepositFeeBps : Except ProgramError State :=
  updatePool E s c .Authority fun p => do
    require (c.data.length = 2) .InvalidInstructionData
    require (u16At c.data 0 ≤ p.depositFeeBps) .InvalidInstructionData
    return { p with depositFeeBps := u16At c.data 0 }

def processSetAuditorFrozen : Except ProgramError State :=
  updatePool E s c .Auditor fun p => do
    require (c.data ≠ []) .InvalidInstructionData
    return { p with auditorFrozen := byteAt c.data 0 ≠ 0 }

def processSetAuditorViewingPubkey : Except ProgramError State :=
  updatePool E s c .Auditor fun p => do
    require (32 ≤ c.data.length) .InvalidInstructionData
    return { p with auditorViewingPubkey := slice 32 c.data 0 }

def processRotateAuditor : Except ProgramError State :=
  updatePool E s c .Authority fun p => do
    require (c.data.length = 64) .InvalidInstructionData
    let auditor := slice 32 c.data 0
    let viewingPubkey := slice 32 c.data 32
    require (auditor ≠ zeros 32 ∧ viewingPubkey ≠ zeros 32) .InvalidInstructionData
    require p.permissioned UTXOpiaError.NotPermissioned
    return { p with
      auditor := auditor, auditorViewingPubkey := viewingPubkey, auditorFrozen := false }

/-! ### Verifying keys -/

/-- The signer may upgrade the program. -/
def validateUpgradeAuthority (programData signer : AccountInfo) : Except ProgramError Unit := do
  validateSigner signer
  require (programData.key = .key E.programDataPda ∧
    c.ownedBy programData.key E.bpfLoaderUpgradeableId) .InvalidArgument
  let d := c.dataOf programData.key
  require (45 ≤ d.length ∧ d.take 4 = [3, 0, 0, 0] ∧ byteAt d 12 = 1) UTXOpiaError.Unauthorized
  require (slice 32 d 13 = E.bytesOf signer.key) UTXOpiaError.Unauthorized

structure InitVkRegistryData where
  nInputs : ℕ
  nOutputs : ℕ
  vkHash : Hash
  deltaG2 : Bytes 128
  ic : List (Bytes 64)

def InitVkRegistryData.fromBytes (d : List UInt8) : Except ProgramError InitVkRegistryData := do
  require (163 ≤ d.length) .InvalidInstructionData
  let nInputs := byteAt d 0
  let nOutputs := byteAt d 1
  require (nInputs ≠ 0 ∧ nOutputs ≠ 0 ∧ nInputs + nOutputs ≤ maxJoinsplitSize) .InvalidArgument
  let icLen := byteAt d 162
  require (icLen = 2 + nInputs + nOutputs + 1) .InvalidInstructionData
  require (d.length = 163 + icLen * 64) .InvalidInstructionData
  return ⟨nInputs, nOutputs, slice 32 d 2, slice 128 d 34,
    (List.range icLen).map fun i => slice 64 d (163 + i * 64)⟩

/-- The hash that comes with a key is the key's. -/
def VkRegistry.setVk (v : VkRegistry) (ix : InitVkRegistryData) : Except ProgramError VkRegistry := do
  require (ix.ic.length = 2 + v.nInputs + v.nOutputs + 1) .InvalidInstructionData
  require (ix.vkHash = E.vkHash ix.deltaG2 ix.ic) UTXOpiaError.VkHashMismatch
  return { v with vkHash := ix.vkHash, deltaG2 := ix.deltaG2, ic := ix.ic }

def processInitVkRegistry : Except ProgramError State := do
  c.atLeast 4
  let programData ← c.account 0
  let vkRegistry ← c.account 1
  let authority ← c.account 2
  let systemProgram ← c.account 3
  let ix ← InitVkRegistryData.fromBytes c.data
  validateSystemProgram systemProgram
  validateUpgradeAuthority E c programData authority
  let k := (ix.nInputs, ix.nOutputs)
  require (vkRegistry.key = .vkRegistry ix.nInputs ix.nOutputs) .InvalidSeeds
  let acc := s.vkRegistries.get k
  require (acc.live? = none) .AccountAlreadyInitialized
  let acc ← createIfEmpty acc (E.minimumBalance 1060)
  let v ← VkRegistry.setVk E
    { nInputs := ix.nInputs
      nOutputs := ix.nOutputs
      authority := authority.key
      vkHash := zeros 32
      deltaG2 := zeros 128
      ic := []
      frozen := false } ix
  return { s with vkRegistries := s.vkRegistries.set k (rewrite acc v) }

def processUpdateVkRegistry : Except ProgramError State := do
  c.atLeast 3
  let programData ← c.account 0
  let vkRegistry ← c.account 1
  let authority ← c.account 2
  let ix ← InitVkRegistryData.fromBytes c.data
  validateUpgradeAuthority E c programData authority
  validateProgramOwner E s c vkRegistry
  require (vkRegistry.key = .vkRegistry ix.nInputs ix.nOutputs) .InvalidSeeds
  let v ← orElse (s.vkRegistryAt vkRegistry.key) .InvalidAccountData
  require (v.authority = authority.key) UTXOpiaError.Unauthorized
  require (¬ v.frozen) UTXOpiaError.VkRegistryFrozen
  require (v.nInputs = ix.nInputs ∧ v.nOutputs = ix.nOutputs) .InvalidArgument
  let v ← v.setVk E ix
  return s.putVkRegistry v vkRegistry.key

def processFreezeVkRegistry : Except ProgramError State := do
  c.atLeast 3
  let programData ← c.account 0
  let vkRegistry ← c.account 1
  let authority ← c.account 2
  validateUpgradeAuthority E c programData authority
  validateProgramOwner E s c vkRegistry
  validateAccountWritable vkRegistry
  let v ← orElse (s.vkRegistryAt vkRegistry.key) .InvalidAccountData
  require (vkRegistry.key = .vkRegistry v.nInputs v.nOutputs) .InvalidSeeds
  require (v.authority = authority.key) UTXOpiaError.Unauthorized
  return s.putVkRegistry { v with frozen := true } vkRegistry.key

end Setup

end Utxopia.Pool
