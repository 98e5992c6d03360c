import Utxopia.Pool.Accounts

/-!
What every instruction starts from: the call, its errors and the checks on its accounts.

A call brings the accounts, the data, the clock, the accounts of other programs as they are
at that moment, and the outcome of the call the instruction may make into another program.
A failed check makes the call fail and leaves the state as it was.
-/

namespace Utxopia.Pool

open Utxopia.ByteString Utxopia.Check Utxopia.Runtime

inductive UTXOpiaError where
  | PoolPaused
  | AmountTooSmall
  | AmountTooLarge
  | InvalidMerkleProof
  | NullifierAlreadyUsed
  | InvalidCommitment
  | InvalidBtcAddress
  | InvalidRedemptionState
  | Unauthorized
  | ZeroAmount
  | InvalidBlockHeader
  | InsufficientConfirmations
  | InvalidSpvProof
  | TreeFull
  | InvalidZkProof
  | ZkVerificationFailed
  | NotInitialized
  | AlreadyInitialized
  | InvalidAccountOwner
  | InvalidAccountData
  | InvalidStealthOpReturn
  | InsufficientFunds
  | RedemptionCancelNotAllowed
  | RedemptionSpvFailed
  | AccountNotWritable
  | InvalidMint
  | InvalidVkRegistry
  | InvalidBoundParams
  | RedemptionOutputMismatch
  | TimelockNotElapsed
  | NoPendingProposal
  | DuplicateDeposit
  | InvalidUtxo
  | UtxoNotUnspent
  | PoolScriptMismatch
  | TaprootVerificationFailed
  | TokenDisabled
  | InvalidVault
  | AmountOutOfRange
  | DepositCapExceeded
  | InsufficientFees
  | InvalidPDA
  | RedemptionAmountExceedsLimit
  | RedemptionFeeExceedsLimit
  | IkaCpiAccountsMissing
  | InvalidTokenConfig
  | VkRegistryFrozen
  | NotPermissioned
  | AuditorFrozen
  | PolicyApprovalRequired
  | PolicyApprovalMismatch
  | PolicyApprovalExpired
  | PolicyApprovalAlreadyUsed
  | ExitDestinationNotRegistered
  | RagequitNotAvailable
  | DwalletAlreadyBound
  | InsufficientReservedInputs
  | ExcessiveReservedInputs
  | RedemptionFeeMismatch
  | VkHashMismatch
  | ValidatorNotPinned
  | EmptyCommitmentBatch
  deriving DecidableEq, Repr

/-- The runtime's errors, the program's own, and the failure of a call into another
program. -/
inductive ProgramError where
  | InvalidInstructionData
  | InvalidAccountData
  | InvalidAccountOwner
  | InvalidArgument
  | InvalidSeeds
  | IllegalOwner
  | IncorrectProgramId
  | MissingRequiredSignature
  | NotEnoughAccountKeys
  | AccountAlreadyInitialized
  | AccountDataTooSmall
  | ArithmeticOverflow
  | Cpi
  | Custom (e : UTXOpiaError)
  deriving DecidableEq, Repr

instance : Coe UTXOpiaError ProgramError := ⟨.Custom⟩

/-- The build, the runtime and the cryptography the program calls. -/
structure Env where
  programId : Hash
  btcLightClientId : Hash
  chadbufferId : Hash
  policyProgramId : Hash
  mainnet : Bool
  derive : Addr → Hash
  minimumBalance : ℕ → ℕ
  sha256 : List UInt8 → Hash
  keccak256 : List UInt8 → Hash
  /-- The Poseidon syscall, on inputs already reduced into the field. -/
  poseidon : List Hash → Option Hash
  groth16 : List UInt8 → List Hash → Bytes 128 → List (Bytes 64) → Bool
  /-- `tweak(internal key, leaf hash)`, the x-only output key if there is one. -/
  taprootOutputKey : Hash → Hash → Option Hash
  vkHash : Bytes 128 → List (Bytes 64) → Hash
  /-- The policy program's address of an approval, and its bump. -/
  policyApprovalPda : Addr → Hash → Hash → Hash × ℕ
  perPermissionRent : ℕ
  /-- The light client's addresses: of a verified transaction in a block, of the client, of a
  height's index. -/
  verifiedTxPda : Hash → Hash → Hash
  lightClientPda : Hash
  heightIndexPda : ℕ → Hash
  expectedNetwork : Option ℕ
  demoRequiredConfirmations : ℕ
  /-- The Ika program's address of an approval: program, parity and key of the wallet, digest. -/
  messageApprovalPda : Hash → ℕ → Hash → Hash → Hash
  cpiAuthorityBump : ℕ
  /-- The loader and the account where it keeps the program. -/
  bpfLoaderUpgradeableId : Hash
  programDataPda : Hash
  /-- The first bytes of the rollup's calls that return a lent account. -/
  externalUndelegateDiscriminator : Bytes 8

/-- `CHAIN_ID`. -/
def Env.chainId (E : Env) : ℕ := if E.mainnet then 101 else 103

/-- The 32 bytes of an address. -/
def Env.bytesOf (E : Env) : Addr → Hash
  | .key k => k
  | a => E.derive a

structure Call where
  accounts : List AccountInfo
  data : List UInt8
  slot : ℕ
  unixTimestamp : ℤ
  foreign : Hash → Foreign
  cpiSucceeds : Bool

/-- The accounts of the call whose first `n` there must be. -/
def Call.atLeast (c : Call) (n : ℕ) : Except ProgramError Unit :=
  require (n ≤ c.accounts.length) .NotEnoughAccountKeys

/-- `accounts[i]`; an index past the end aborts the call. -/
def Call.account (c : Call) (i : ℕ) : Except ProgramError AccountInfo :=
  orElse c.accounts[i]? .NotEnoughAccountKeys

/-! ### Constants -/

def token2022ProgramId : Hash := ofList 32
  [0x06, 0xdd, 0xf6, 0xe1, 0xee, 0x75, 0x8f, 0xde, 0x18, 0x42, 0x5d, 0xbc, 0xe4, 0x6c, 0xcd, 0xda,
   0xb6, 0x1a, 0xfc, 0x4d, 0x83, 0xb9, 0x0d, 0x27, 0xfe, 0xbd, 0xf9, 0x28, 0xd8, 0xa1, 0x8b, 0xfc]

def tokenProgramId : Hash := ofList 32
  [0x06, 0xdd, 0xf6, 0xe1, 0xd7, 0x65, 0xa1, 0x93, 0xd9, 0xcb, 0xe1, 0x46, 0xce, 0xeb, 0x79, 0xac,
   0x1c, 0xb4, 0x85, 0xed, 0x5f, 0x5b, 0x37, 0x91, 0x3a, 0x8c, 0xf5, 0x85, 0x7e, 0xff, 0x00, 0xa9]

def nativeSolMint : Hash := ofList 32
  [0x06, 0x9b, 0x88, 0x57, 0xfe, 0xab, 0x81, 0x84, 0xfb, 0x68, 0x7f, 0x63, 0x46, 0x18, 0xc0, 0x35,
   0xda, 0xc4, 0x39, 0xdc, 0x1a, 0xeb, 0x3b, 0x55, 0x98, 0xa0, 0xf0, 0x00, 0x00, 0x00, 0x00, 0x01]

def nativeSol2022Mint : Hash := ofList 32
  [0x83, 0x0d, 0xfc, 0x9f, 0xde, 0x5f, 0xe6, 0xb8, 0xaa, 0x7c, 0x04, 0xa4, 0x76, 0xe9, 0x1e, 0x8a,
   0xc6, 0xbb, 0x26, 0x4a, 0xad, 0x90, 0xfa, 0x19, 0xc9, 0xdf, 0x49, 0xd8, 0x5c, 0x3e, 0x5b, 0x5e]

def systemProgramId : Hash := zeros 32

def TokenProgram.ofId (id : Hash) : Option TokenProgram :=
  if id = tokenProgramId then some .Token
  else if id = token2022ProgramId then some .Token2022
  else none

/-! ### Owners -/

/-- The owner of an account. A plain key may have been handed to the program, but the program
never writes there. -/
def State.ownerOf (s : State) (E : Env) (c : Call) : Addr → Owner
  | .key k => if (c.foreign k).owner = E.programId then .program else .other
  | .poolState mint => (s.pools.get mint).owner
  | .commitmentTree pool i => (s.trees.get (pool, i)).owner
  | .tokenConfig pool mint => (s.tokenConfigs.get (pool, mint)).owner
  | .poolConfig pool => (s.poolConfigs.get pool).owner
  | .dwalletBinding d => (s.dwalletBindings.get d).owner
  | .utxo pool o => (s.utxos.get (pool, o)).owner
  | .redemption pool r n => (s.redemptions.get (pool, r, n)).owner
  | .queuedLeaf pool h => (s.queuedLeaves.get (pool, h)).owner
  | .nullifier pool t h => (s.nullifiers.get (pool, t, h)).owner
  | .depositReceipt t v => (s.depositReceipts.get (t, v)).owner
  | .completionReceipt t => (s.completionReceipts.get t).owner
  | .policyApproval pool h n => (s.policyApprovals.get (pool, h, n)).owner
  | .exitDestination pool k h => (s.exitDestinations.get (pool, k, h)).owner
  | .vkRegistry n m => (s.vkRegistries.get (n, m)).owner
  | .cpiAuthority => .system

/-- An account of another program: `owned_by(id)`. -/
def Call.ownedBy (c : Call) (a : Addr) (id : Hash) : Bool :=
  match a with
  | .key k => (c.foreign k).owner = id
  | _ => false

/-- The bytes of an account of another program. -/
def Call.dataOf (c : Call) : Addr → List UInt8
  | .key k => (c.foreign k).data
  | _ => []

def Call.executable (c : Call) : Addr → Bool
  | .key k => (c.foreign k).executable
  | _ => false

/-- The token program that owns an account. -/
def tokenProgramOf (s : State) (c : Call) (a : Addr) : Option TokenProgram :=
  match s.tokens a, a with
  | some t, _ => some t.program
  | none, .key k => TokenProgram.ofId (c.foreign k).owner
  | none, _ => none

section Checks

variable (E : Env) (s : State) (c : Call)

def validateProgramOwner (info : AccountInfo) : Except ProgramError Unit :=
  require (s.ownerOf E c info.key = .program) UTXOpiaError.InvalidAccountOwner

def validateAccountWritable (info : AccountInfo) : Except ProgramError Unit :=
  require info.isWritable UTXOpiaError.AccountNotWritable

def validateSigner (info : AccountInfo) : Except ProgramError Unit :=
  require info.isSigner .MissingRequiredSignature

def validateSystemProgram (info : AccountInfo) : Except ProgramError Unit :=
  require (info.key = .key systemProgramId) .IncorrectProgramId

def validateTokenOwner (info : AccountInfo) : Except ProgramError Unit :=
  require (tokenProgramOf s c info.key).isSome .InvalidAccountOwner

/-- The token program named by an account of the call. -/
def validateAnyTokenProgramKey (info : AccountInfo) : Except ProgramError TokenProgram :=
  match info.key with
  | .key k => orElse (TokenProgram.ofId k) .IncorrectProgramId
  | _ => throw .IncorrectProgramId

/-- The pool record of an account, which `from_bytes` refuses if the bytes are none. -/
def readPool (info : AccountInfo) : Except ProgramError PoolState :=
  orElse (s.poolAt info.key) .InvalidAccountData

def readTree (info : AccountInfo) : Except ProgramError CommitmentTree :=
  orElse (s.treeAt info.key) .InvalidAccountData

def readTokenConfig (info : AccountInfo) : Except ProgramError TokenConfig :=
  orElse (s.tokenConfigAt info.key) .InvalidAccountData

def readRedemption (info : AccountInfo) : Except ProgramError RedemptionRequest :=
  orElse (s.redemptionAt info.key) .InvalidAccountData

/-- `PoolState` sits at the address of its own mint. -/
def validatePoolStatePda (pool : AccountInfo) : Except ProgramError Unit := do
  validateProgramOwner E s c pool
  let p ← readPool s pool
  require (pool.key = .poolState p.zkbtcMint) .InvalidSeeds

def validateTokenConfigPda (tokenConfig pool : AccountInfo) : Except ProgramError Unit := do
  validateProgramOwner E s c tokenConfig
  validatePoolStatePda E s c pool
  let tc ← readTokenConfig s tokenConfig
  require (tokenConfig.key = .tokenConfig pool.key tc.mint) .InvalidSeeds

def validatePoolConfigPda (poolConfig pool : AccountInfo) : Except ProgramError Unit := do
  validateProgramOwner E s c poolConfig
  validatePoolStatePda E s c pool
  require (poolConfig.key = .poolConfig pool.key) .InvalidSeeds

def validateRedemptionPda (redemption pool : AccountInfo) : Except ProgramError Unit := do
  validateProgramOwner E s c redemption
  validatePoolStatePda E s c pool
  let r ← readRedemption s redemption
  require (redemption.key = .redemption pool.key r.requester r.requestId) .InvalidSeeds

def validateActiveTreePda (tree pool : AccountInfo) (activeIndex : ℕ) :
    Except ProgramError Unit := do
  validatePoolStatePda E s c pool
  require (tree.key = .commitmentTree pool.key activeIndex) .InvalidSeeds

/-- `redemption_reservation_key`: the first eight bytes of the hash of the address. -/
def redemptionReservationKey (redemption : Addr) : ℕ :=
  u64At (E.sha256 (E.bytesOf redemption).toList).toList 0

end Checks

/-! ### Writing records

A record is rewritten in the account that holds it; the account itself stays. -/

def rewrite {α : Type} (acc : Account α) (a : α) : Account α := { acc with data := .live a }

def State.putPool (s : State) (p : PoolState) : Addr → State
  | .poolState m => { s with pools := s.pools.set m (rewrite (s.pools.get m) p) }
  | _ => s

def State.putTree (s : State) (t : CommitmentTree) : Addr → State
  | .commitmentTree pool i =>
    { s with trees := s.trees.set (pool, i) (rewrite (s.trees.get (pool, i)) t) }
  | _ => s

def State.putTokenConfig (s : State) (tc : TokenConfig) : Addr → State
  | .tokenConfig pool m =>
    { s with tokenConfigs :=
        s.tokenConfigs.set (pool, m) (rewrite (s.tokenConfigs.get (pool, m)) tc) }
  | _ => s

def State.putUtxo (s : State) (u : UtxoRecord) : Addr → State
  | .utxo pool o => { s with utxos := s.utxos.set (pool, o) (rewrite (s.utxos.get (pool, o)) u) }
  | _ => s

def State.putRedemption (s : State) (r : RedemptionRequest) : Addr → State
  | .redemption pool q n =>
    { s with redemptions :=
        s.redemptions.set (pool, q, n) (rewrite (s.redemptions.get (pool, q, n)) r) }
  | _ => s

def State.putPolicyApproval (s : State) (a : PolicyApproval) : Addr → State
  | .policyApproval pool h n =>
    { s with policyApprovals :=
        s.policyApprovals.set (pool, h, n) (rewrite (s.policyApprovals.get (pool, h, n)) a) }
  | _ => s

def State.putVkRegistry (s : State) (v : VkRegistry) : Addr → State
  | .vkRegistry n m =>
    { s with vkRegistries := s.vkRegistries.set (n, m) (rewrite (s.vkRegistries.get (n, m)) v) }
  | _ => s

/-- Note in the journal what was done. -/
def State.note (s : State) (events : List Event) : State :=
  { s with journal := s.journal ++ events }

/-! ### Tokens

What the token program does when the pool program calls it. A refusal for a reason that is
not modelled (a frozen account) only makes fewer calls succeed. -/

/-- The owner of a token account or its delegate may move its tokens. -/
def TokenAccount.allows (t : TokenAccount) (authority : Addr) : Bool :=
  t.owner = authority ∨ t.delegate = some authority

def setToken (s : State) (a : Addr) (t : TokenAccount) : State :=
  { s with tokens := Function.update s.tokens a (some t) }

/-- `Transfer`: the same program and mint on both sides; to itself, nothing moves. -/
def transferToken (s : State) (program : TokenProgram) (src dst authority : Addr) (amount : ℕ) :
    Except ProgramError State := do
  let t ← orElse (s.tokens src) .Cpi
  let u ← orElse (s.tokens dst) .Cpi
  require (t.program = program ∧ u.program = program ∧ t.mint = u.mint) .Cpi
  require (t.allows authority) .Cpi
  require (amount ≤ t.amount) .Cpi
  if src = dst then return s
  else do
    require (u.amount + amount < 2 ^ 64) .Cpi
    return setToken (setToken s src { t with amount := t.amount - amount }) dst
      { u with amount := u.amount + amount }

/-- `MintTo`: the mint's supply, and so every balance, fits in 64 bits. -/
def mintToken (s : State) (program : TokenProgram) (mint dst : Addr) (amount : ℕ) :
    Except ProgramError State := do
  let u ← orElse (s.tokens dst) .Cpi
  require (u.program = program ∧ u.mint = mint) .Cpi
  require (u.amount + amount < 2 ^ 64) .Cpi
  return setToken s dst { u with amount := u.amount + amount }

def burnToken (s : State) (program : TokenProgram) (mint src authority : Addr) (amount : ℕ) :
    Except ProgramError State := do
  let t ← orElse (s.tokens src) .Cpi
  require (t.program = program ∧ t.mint = mint) .Cpi
  require (t.allows authority) .Cpi
  require (amount ≤ t.amount) .Cpi
  return setToken s src { t with amount := t.amount - amount }

/-- The balance of a token account. -/
def State.balance (s : State) (a : Addr) : ℕ := ((s.tokens a).map TokenAccount.amount).getD 0

def isNativeSolMint (mint : Addr) (program : TokenProgram) : Bool :=
  match program with
  | .Token => mint = .key nativeSolMint
  | .Token2022 => mint = .key nativeSol2022Mint

/-! ### Lamports -/

def addLamports {α : Type} (n : ℕ) (acc : Account α) : Account α :=
  { acc with lamports := acc.lamports + n }

/-- Lamports sent to an address. Plain keys belong to other programs. -/
def State.fund (s : State) (n : ℕ) : Addr → State
  | .key _ => s
  | .poolState m => { s with pools := s.pools.set m (addLamports n (s.pools.get m)) }
  | .commitmentTree p i =>
    { s with trees := s.trees.set (p, i) (addLamports n (s.trees.get (p, i))) }
  | .tokenConfig p m =>
    { s with tokenConfigs := s.tokenConfigs.set (p, m) (addLamports n (s.tokenConfigs.get (p, m))) }
  | .poolConfig p =>
    { s with poolConfigs := s.poolConfigs.set p (addLamports n (s.poolConfigs.get p)) }
  | .dwalletBinding d =>
    { s with dwalletBindings := s.dwalletBindings.set d (addLamports n (s.dwalletBindings.get d)) }
  | .utxo p o => { s with utxos := s.utxos.set (p, o) (addLamports n (s.utxos.get (p, o))) }
  | .redemption p r k =>
    { s with redemptions := s.redemptions.set (p, r, k) (addLamports n (s.redemptions.get (p, r, k))) }
  | .queuedLeaf p h =>
    { s with queuedLeaves := s.queuedLeaves.set (p, h) (addLamports n (s.queuedLeaves.get (p, h))) }
  | .nullifier p t h =>
    { s with nullifiers := s.nullifiers.set (p, t, h) (addLamports n (s.nullifiers.get (p, t, h))) }
  | .depositReceipt t v =>
    { s with depositReceipts :=
        s.depositReceipts.set (t, v) (addLamports n (s.depositReceipts.get (t, v))) }
  | .completionReceipt t =>
    { s with completionReceipts :=
        s.completionReceipts.set t (addLamports n (s.completionReceipts.get t)) }
  | .policyApproval p h k =>
    { s with policyApprovals :=
        s.policyApprovals.set (p, h, k) (addLamports n (s.policyApprovals.get (p, h, k))) }
  | .exitDestination p k h =>
    { s with exitDestinations :=
        s.exitDestinations.set (p, k, h) (addLamports n (s.exitDestinations.get (p, k, h))) }
  | .vkRegistry n' m =>
    { s with vkRegistries := s.vkRegistries.set (n', m) (addLamports n (s.vkRegistries.get (n', m))) }
  | .cpiAuthority => s

end Utxopia.Pool
