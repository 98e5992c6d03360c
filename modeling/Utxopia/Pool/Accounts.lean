import Utxopia.Lib.ByteString
import Utxopia.Lib.Runtime
import Utxopia.Lib.Store

/-!
The accounts of the pool program and the state of the chain around it.

An address is the derived address of one of the program's seed families or some other key;
different seeds give different addresses. The program writes a record of a family only at
an address of the family, so every family has a store of its own, keyed by its seeds.

Accounts of other programs are inputs of each call. Token accounts are the exception: the
program moves tokens between them, so their balances are part of the state. Two fields are
for reasoning only, no instruction reads them: the journal of what the instructions did and
the digests the Ika network has approved, which no call of this program can take back.
-/

namespace Utxopia.Pool

open Utxopia.ByteString Utxopia.Check Utxopia.Runtime

abbrev Hash := Bytes 32

/-- A Bitcoin outpoint: transaction id and output index. -/
abbrev Outpoint := Hash × ℕ

inductive Addr where
  | key (bytes : Hash)
  | poolState (zkbtcMint : Addr)
  | commitmentTree (pool : Addr) (index : ℕ)
  | tokenConfig (pool mint : Addr)
  | poolConfig (pool : Addr)
  | dwalletBinding (dwallet : Hash)
  | utxo (pool : Addr) (outpoint : Outpoint)
  | redemption (pool requester : Addr) (nonce : ℕ)
  | queuedLeaf (pool : Addr) (commitment : Hash)
  | nullifier (pool : Addr) (tree : Option ℕ) (hash : Hash)
  | depositReceipt (txid : Hash) (vout : Option ℕ)
  | completionReceipt (txid : Hash)
  | policyApproval (pool : Addr) (requestHash nonce : Hash)
  | exitDestination (pool : Addr) (kind : ℕ) (key : Hash)
  | vkRegistry (nInputs nOutputs : ℕ)
  | cpiAuthority
  deriving DecidableEq

structure AccountInfo where
  key : Addr
  isSigner : Bool
  isWritable : Bool
  deriving DecidableEq

/-! ### The records -/

structure PoolState where
  paused : Bool
  permissioned : Bool
  auditorFrozen : Bool
  authority : Addr
  zkbtcMint : Addr
  poolVault : Addr
  depositVault : Addr
  depositCount : ℕ
  totalMinted : ℕ
  totalBurned : ℕ
  pendingRedemptions : ℕ
  lastUpdate : ℤ
  minDeposit : ℕ
  maxDeposit : ℕ
  totalShielded : ℕ
  serviceFeeBase : ℕ
  feePool : ℕ
  pendingMinDeposit : ℕ
  pendingMaxDeposit : ℕ
  pendingServiceFee : ℕ
  pendingExecuteAfter : ℤ
  depositFeeBps : ℕ
  withdrawalFeeBps : ℕ
  totalBtcHeld : ℕ
  utxoCount : ℕ
  activeTreeIndex : ℕ
  auditor : Hash
  auditorViewingPubkey : Hash
  nullifierCount : ℕ
  deriving DecidableEq

def treeDepth : ℕ := 16
def rootHistorySize : ℕ := 256

structure CommitmentTree where
  currentRoot : Hash
  nextIndex : ℕ
  frontier : Vector Hash treeDepth
  rootHistory : Vector Hash rootHistorySize
  rootHistoryIndex : ℕ
  treeIndex : ℕ
  deriving DecidableEq

structure TokenConfig where
  mint : Addr
  tokenId : Hash
  vault : Addr
  decimals : ℕ
  enabled : Bool
  serviceFee : ℕ
  minDeposit : ℕ
  maxDeposit : ℕ
  depositCap : ℕ
  totalShielded : ℕ
  accumulatedFees : ℕ
  deriving DecidableEq

structure PoolConfig where
  poolScript : List UInt8
  ikaDwallet : Hash
  ikaDwalletXonlyPubkey : Hash
  cpiAuthorityBump : ℕ
  deriving DecidableEq

structure DwalletBinding where
  poolState : Addr
  deriving DecidableEq

inductive UtxoStatus where
  | Unspent
  | Reserved
  deriving DecidableEq, Repr

/-- The leaf commitment is the tail that records of tweaked deposits have and others lack. -/
structure UtxoRecord where
  status : UtxoStatus
  txid : Hash
  vout : ℕ
  amountSats : ℕ
  reservedForRequestId : ℕ
  leafCommitment : Option Hash
  deriving DecidableEq

inductive RedemptionStatus where
  | Pending
  | Processing
  | Failed
  deriving DecidableEq, Repr

structure RedemptionRequest where
  status : RedemptionStatus
  btcScript : List UInt8
  signingApproved : Bool
  processingSlot : ℕ
  requestId : ℕ
  requester : Addr
  amountSats : ℕ
  serviceFee : ℕ
  totalInputSats : ℕ
  tokenId : Hash
  reservedCount : ℕ
  approvedInputs : ℕ
  approvalMinerFee : ℕ
  inputsCommitment : Hash
  deriving DecidableEq

structure QueuedLeaf where
  treeIndex : ℕ
  commitment : Hash
  payer : Addr
  ephemeralPub : Hash
  encryptedAmount : Bytes 8
  encryptedTokenId : Hash
  nullifierDebt : ℕ
  deriving DecidableEq

/-- A record that is its discriminator only: nullifiers and receipts. -/
structure Marker where
  deriving DecidableEq

inductive PolicyStatus where
  | Pending
  | Approved
  | Rejected
  | Consumed
  deriving DecidableEq, Repr

structure PolicyApproval where
  status : PolicyStatus
  action : ℕ
  expiresAtSlot : ℕ
  pool : Addr
  actor : Hash
  policyAuthority : Hash
  requestHash : Hash
  nonce : Hash
  deriving DecidableEq

structure ExitDestination where
  kind : ℕ
  key : Hash
  deriving DecidableEq

structure VkRegistry where
  nInputs : ℕ
  nOutputs : ℕ
  authority : Addr
  vkHash : Hash
  deltaG2 : Bytes 128
  ic : List (Bytes 64)
  frozen : Bool
  deriving DecidableEq

/-! ### The chain around the program -/

inductive TokenProgram where
  | Token
  | Token2022
  deriving DecidableEq, Repr

/-- A token account. Only the token program writes it. -/
structure TokenAccount where
  program : TokenProgram
  mint : Addr
  owner : Addr
  delegate : Option Addr
  amount : ℕ
  deriving DecidableEq

/-- An account of another program, as a call finds it. -/
structure Foreign where
  owner : Hash
  executable : Bool
  data : List UInt8
  deriving DecidableEq

/-- What an instruction did. -/
inductive Event where
  | credited (pool : Addr) (outpoint : Outpoint) (amount : ℕ)
  | inserted (pool : Addr) (tree index : ℕ) (commitment : Hash)
  | queued (pool : Addr) (commitment : Hash)
  | merged (pool : Addr) (tree index : ℕ) (commitment : Hash)
  | spent (pool : Addr) (tree : ℕ) (nullifier : Hash)
  deriving DecidableEq

structure State where
  pools : Store Addr (Account PoolState)
  trees : Store (Addr × ℕ) (Account CommitmentTree)
  tokenConfigs : Store (Addr × Addr) (Account TokenConfig)
  poolConfigs : Store Addr (Account PoolConfig)
  dwalletBindings : Store Hash (Account DwalletBinding)
  utxos : Store (Addr × Outpoint) (Account UtxoRecord)
  redemptions : Store (Addr × Addr × ℕ) (Account RedemptionRequest)
  queuedLeaves : Store (Addr × Hash) (Account QueuedLeaf)
  nullifiers : Store (Addr × Option ℕ × Hash) (Account Marker)
  depositReceipts : Store (Hash × Option ℕ) (Account Marker)
  completionReceipts : Store Hash (Account Marker)
  policyApprovals : Store (Addr × Hash × Hash) (Account PolicyApproval)
  exitDestinations : Store (Addr × ℕ × Hash) (Account ExitDestination)
  vkRegistries : Store (ℕ × ℕ) (Account VkRegistry)
  tokens : Addr → Option TokenAccount
  approvedDigests : List Hash
  journal : List Event

/-- Before anything happened. -/
def State.genesis : State where
  pools := .empty
  trees := .empty
  tokenConfigs := .empty
  poolConfigs := .empty
  dwalletBindings := .empty
  utxos := .empty
  redemptions := .empty
  queuedLeaves := .empty
  nullifiers := .empty
  depositReceipts := .empty
  completionReceipts := .empty
  policyApprovals := .empty
  exitDestinations := .empty
  vkRegistries := .empty
  tokens := fun _ => none
  approvedDigests := []
  journal := []

/-! ### Reading records -/

def State.pool? (s : State) (mint : Addr) : Option PoolState := (s.pools.get mint).live?
def State.tree? (s : State) (pool : Addr) (index : ℕ) : Option CommitmentTree :=
  (s.trees.get (pool, index)).live?
def State.tokenConfig? (s : State) (pool mint : Addr) : Option TokenConfig :=
  (s.tokenConfigs.get (pool, mint)).live?
def State.poolConfig? (s : State) (pool : Addr) : Option PoolConfig := (s.poolConfigs.get pool).live?
def State.utxo? (s : State) (pool : Addr) (o : Outpoint) : Option UtxoRecord :=
  (s.utxos.get (pool, o)).live?
def State.redemption? (s : State) (pool requester : Addr) (nonce : ℕ) : Option RedemptionRequest :=
  (s.redemptions.get (pool, requester, nonce)).live?
def State.queuedLeaf? (s : State) (pool : Addr) (commitment : Hash) : Option QueuedLeaf :=
  (s.queuedLeaves.get (pool, commitment)).live?
def State.nullifier? (s : State) (pool : Addr) (tree : Option ℕ) (hash : Hash) : Option Marker :=
  (s.nullifiers.get (pool, tree, hash)).live?

/-- The pool record an account holds. -/
def State.poolAt (s : State) : Addr → Option PoolState
  | .poolState mint => s.pool? mint
  | _ => none

def State.treeAt (s : State) : Addr → Option CommitmentTree
  | .commitmentTree pool index => s.tree? pool index
  | _ => none

def State.tokenConfigAt (s : State) : Addr → Option TokenConfig
  | .tokenConfig pool mint => s.tokenConfig? pool mint
  | _ => none

def State.poolConfigAt (s : State) : Addr → Option PoolConfig
  | .poolConfig pool => s.poolConfig? pool
  | _ => none

def State.utxoAt (s : State) : Addr → Option UtxoRecord
  | .utxo pool o => s.utxo? pool o
  | _ => none

def State.redemptionAt (s : State) : Addr → Option RedemptionRequest
  | .redemption pool requester nonce => s.redemption? pool requester nonce
  | _ => none

def State.queuedLeafAt (s : State) : Addr → Option QueuedLeaf
  | .queuedLeaf pool commitment => s.queuedLeaf? pool commitment
  | _ => none

def State.policyApprovalAt (s : State) : Addr → Option PolicyApproval
  | .policyApproval pool requestHash nonce =>
    (s.policyApprovals.get (pool, requestHash, nonce)).live?
  | _ => none

def State.exitDestinationAt (s : State) : Addr → Option ExitDestination
  | .exitDestination pool kind key => (s.exitDestinations.get (pool, kind, key)).live?
  | _ => none

def State.vkRegistryAt (s : State) : Addr → Option VkRegistry
  | .vkRegistry n m => (s.vkRegistries.get (n, m)).live?
  | _ => none

end Utxopia.Pool
