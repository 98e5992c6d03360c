import Utxopia.Lib.Run
import Utxopia.Pool.Admin
import Utxopia.Pool.Approve
import Utxopia.Pool.Complete
import Utxopia.Pool.Deposit

/-!
The program as the chain runs it: one instruction after another.

Between two instructions anybody may send lamports to an address, the runtime removes
accounts that are out of lamports, and the token program serves others. A derived address
signs for its own program only, so nobody else moves the tokens such an address owns.

A build with `devnet-regtest` has one instruction more, which closes accounts; its steps
come last and are not part of the program's own.
-/

namespace Utxopia.Pool

open Utxopia.ByteString Utxopia.Check Utxopia.Runtime

inductive Instruction where
  | Initialize
  | SetPaused
  | SetPoolConfig
  | ProposePoolUpdate
  | ExecutePoolUpdate
  | CancelPoolUpdate
  | InitVkRegistry
  | UpdateVkRegistry
  | FreezeVkRegistry
  | RegisterToken
  | UpdateTokenConfig
  | ClaimFees
  | CompleteDeposit
  | Shield
  | Transact
  | Unshield
  | Redeem
  | CompleteRedemption
  | MarkProcessing
  | CancelRedemption
  | RotateTree
  | InitializePermissioned
  | CompleteDepositPermissioned
  | ShieldPermissioned
  | VerifyDeposit
  | VerifyDepositPermissioned
  | ApproveRedemptionSigning
  | SetAuditorFrozen
  | SetAuditorViewingPubkey
  | MagicblockDelegate
  | MagicblockCommit
  | MagicblockPerPermission
  | MagicblockUndelegateCallback
  | RotateAuditor
  | InitializePolicyApproval
  | PolicyApprovalDecision
  | PolicyApprovalCommit
  | RegisterExitDestination
  | MergeQueuedLeaves
  | SetDepositFeeBps
  deriving DecidableEq, Repr

/-- The instruction a discriminator byte selects. -/
def Instruction.ofByte (b : UInt8) : Option Instruction :=
  match b.toNat with
  | 0 => some .Initialize
  | 1 => some .SetPaused
  | 2 => some .SetPoolConfig
  | 3 => some .ProposePoolUpdate
  | 4 => some .ExecutePoolUpdate
  | 5 => some .CancelPoolUpdate
  | 6 => some .InitVkRegistry
  | 7 => some .UpdateVkRegistry
  | 8 => some .RegisterToken
  | 9 => some .UpdateTokenConfig
  | 10 => some .ClaimFees
  | 11 => some .CompleteDeposit
  | 12 => some .Shield
  | 13 => some .Transact
  | 14 => some .Unshield
  | 15 => some .Redeem
  | 16 => some .FreezeVkRegistry
  | 17 => some .CompleteRedemption
  | 18 => some .MarkProcessing
  | 19 => some .CancelRedemption
  | 20 => some .RotateTree
  | 21 => some .InitializePermissioned
  | 22 => some .CompleteDepositPermissioned
  | 23 => some .ShieldPermissioned
  | 25 => some .VerifyDeposit
  | 26 => some .VerifyDepositPermissioned
  | 27 => some .ApproveRedemptionSigning
  | 28 => some .SetAuditorFrozen
  | 29 => some .SetAuditorViewingPubkey
  | 32 => some .MagicblockDelegate
  | 33 => some .MagicblockCommit
  | 34 => some .MagicblockPerPermission
  | 35 => some .RotateAuditor
  | 36 => some .InitializePolicyApproval
  | 37 => some .PolicyApprovalDecision
  | 38 => some .PolicyApprovalCommit
  | 39 => some .RegisterExitDestination
  | 40 => some .MergeQueuedLeaves
  | 41 => some .SetDepositFeeBps
  | _ => none

section Program

variable (E : Env)

def Instruction.run (s : State) (c : Call) : Instruction → Except ProgramError State
  | .Initialize => processInitialize E s c
  | .SetPaused => processSetPaused E s c
  | .SetPoolConfig => processSetPoolConfig E s c
  | .ProposePoolUpdate => processProposePoolUpdate E s c
  | .ExecutePoolUpdate => processExecutePoolUpdate E s c
  | .CancelPoolUpdate => processCancelPoolUpdate E s c
  | .InitVkRegistry => processInitVkRegistry E s c
  | .UpdateVkRegistry => processUpdateVkRegistry E s c
  | .FreezeVkRegistry => processFreezeVkRegistry E s c
  | .RegisterToken => processRegisterToken E s c
  | .UpdateTokenConfig => processUpdateTokenConfig E s c
  | .ClaimFees => processClaimFees E s c
  | .CompleteDeposit => processCompleteDeposit E s c
  | .Shield => processShield E s c
  | .Transact => processTransact E s c
  | .Unshield => processUnshield E s c
  | .Redeem => processRedeem E s c
  | .CompleteRedemption => processCompleteRedemption E c s
  | .MarkProcessing => processMarkProcessing E c s
  | .CancelRedemption => processCancelRedemption E c s
  | .RotateTree => processRotateTree E s c
  | .InitializePermissioned => processInitializePermissioned E s c
  | .CompleteDepositPermissioned => processCompleteDepositPermissioned E s c
  | .ShieldPermissioned => processShieldPermissioned E s c
  | .VerifyDeposit => processVerifyDeposit E s c
  | .VerifyDepositPermissioned => processVerifyDepositPermissioned E s c
  | .ApproveRedemptionSigning => processApproveRedemptionSigning E s c
  | .SetAuditorFrozen => processSetAuditorFrozen E s c
  | .SetAuditorViewingPubkey => processSetAuditorViewingPubkey E s c
  | .MagicblockDelegate => processMagicblockDelegate E s c
  | .MagicblockCommit => processMagicblockCommit E s c
  | .MagicblockPerPermission => processMagicblockPerPermission E s c
  | .MagicblockUndelegateCallback => processMagicblockUndelegateCallback s c
  | .RotateAuditor => processRotateAuditor E s c
  | .InitializePolicyApproval => processInitializePolicyApproval E s c
  | .PolicyApprovalDecision => processPolicyApprovalDecision E s c
  | .PolicyApprovalCommit => processPolicyApprovalCommit E s c
  | .RegisterExitDestination => processRegisterExitDestination E s c
  | .MergeQueuedLeaves => processMergeQueuedLeaves E c s
  | .SetDepositFeeBps => processSetDepositFeeBps E s c

/-- The instruction of a call and the call as the instruction sees it: without the
discriminator byte, except for the rollup's callback. -/
def Call.decode (c : Call) : Option (Instruction × Call) :=
  if c.data.take 8 = E.externalUndelegateDiscriminator.toList then
    some (.MagicblockUndelegateCallback, c)
  else match c.data with
    | b :: rest => (Instruction.ofByte b).map fun i => (i, { c with data := rest })
    | [] => none

def processInstruction (s : State) (c : Call) : Except ProgramError State :=
  match c.decode E with
  | some (i, c) => i.run E s c
  | none => throw .InvalidInstructionData

/-! ### What happens between instructions -/

def Addr.isKey : Addr → Bool
  | .key _ => true
  | _ => false

/-- The signers of a call from outside are plain keys. -/
def Call.signedByKeys (c : Call) : Bool := c.accounts.all fun a => !a.isSigner || a.key.isKey

/-- An account without lamports is removed at the end of its transaction. -/
def reapAccount {α : Type} (acc : Account α) : Account α :=
  if acc.lamports = 0 ∧ acc.live?.isNone then .fresh else acc

def reapStore {K α : Type} [DecidableEq K] (l : Store K (Account α)) (k : K) : Store K (Account α) :=
  l.set k (reapAccount (l.get k))

def State.reap (s : State) : Addr → State
  | .key _ | .cpiAuthority => s
  | .poolState m => { s with pools := reapStore s.pools m }
  | .commitmentTree p i => { s with trees := reapStore s.trees (p, i) }
  | .tokenConfig p m => { s with tokenConfigs := reapStore s.tokenConfigs (p, m) }
  | .poolConfig p => { s with poolConfigs := reapStore s.poolConfigs p }
  | .dwalletBinding d => { s with dwalletBindings := reapStore s.dwalletBindings d }
  | .utxo p o => { s with utxos := reapStore s.utxos (p, o) }
  | .redemption p r k => { s with redemptions := reapStore s.redemptions (p, r, k) }
  | .queuedLeaf p h => { s with queuedLeaves := reapStore s.queuedLeaves (p, h) }
  | .nullifier p t h => { s with nullifiers := reapStore s.nullifiers (p, t, h) }
  | .depositReceipt t v => { s with depositReceipts := reapStore s.depositReceipts (t, v) }
  | .completionReceipt t => { s with completionReceipts := reapStore s.completionReceipts t }
  | .policyApproval p h k => { s with policyApprovals := reapStore s.policyApprovals (p, h, k) }
  | .exitDestination p k h => { s with exitDestinations := reapStore s.exitDestinations (p, k, h) }
  | .vkRegistry n m => { s with vkRegistries := reapStore s.vkRegistries (n, m) }

/-- What the token program may make of an account for others. Tokens of a derived address
stay, more may come; an account handed to one has no delegate any more. -/
def tokenChangeAllowed (old new : Option TokenAccount) : Bool :=
  (match old with
    | some t => t.owner.isKey || new.any fun t' => t'.program = t.program ∧ t'.mint = t.mint ∧
        t'.owner = t.owner ∧ t'.delegate = t.delegate ∧ t.amount ≤ t'.amount
    | none => true) &&
  new.all fun t' => decide (t'.amount < 2 ^ 64) && (t'.owner.isKey || t'.delegate.isNone)

inductive Label where
  | call (c : Call)
  | fund (lamports : ℕ) (a : Addr)
  | reap (a : Addr)
  | tokenChange (a : Addr) (t : Option TokenAccount)

def step (s : State) : Label → Except ProgramError State
  | .call c => do
    require c.signedByKeys .MissingRequiredSignature
    processInstruction E s c
  | .fund n a => .ok (s.fund n a)
  | .reap a => .ok (s.reap a)
  | .tokenChange a t => do
    require (tokenChangeAllowed (s.tokens a) t) .Cpi
    return { s with tokens := Function.update s.tokens a t }

/-! ### The build with `devnet-regtest` -/

def closeStore {K α : Type} [DecidableEq K] (l : Store K (Account α)) (k : K) : Store K (Account α) :=
  l.set k (close (l.get k))

/-- `close_account_securely`; the lamports go to a signer, a plain key. -/
def State.closeAt (s : State) : Addr → State
  | .key _ | .cpiAuthority => s
  | .poolState m => { s with pools := closeStore s.pools m }
  | .commitmentTree p i => { s with trees := closeStore s.trees (p, i) }
  | .tokenConfig p m => { s with tokenConfigs := closeStore s.tokenConfigs (p, m) }
  | .poolConfig p => { s with poolConfigs := closeStore s.poolConfigs p }
  | .dwalletBinding d => { s with dwalletBindings := closeStore s.dwalletBindings d }
  | .utxo p o => { s with utxos := closeStore s.utxos (p, o) }
  | .redemption p r k => { s with redemptions := closeStore s.redemptions (p, r, k) }
  | .queuedLeaf p h => { s with queuedLeaves := closeStore s.queuedLeaves (p, h) }
  | .nullifier p t h => { s with nullifiers := closeStore s.nullifiers (p, t, h) }
  | .depositReceipt t v => { s with depositReceipts := closeStore s.depositReceipts (t, v) }
  | .completionReceipt t => { s with completionReceipts := closeStore s.completionReceipts t }
  | .policyApproval p h k => { s with policyApprovals := closeStore s.policyApprovals (p, h, k) }
  | .exitDestination p k h => { s with exitDestinations := closeStore s.exitDestinations (p, k, h) }
  | .vkRegistry n m => { s with vkRegistries := closeStore s.vkRegistries (n, m) }

def devnetCloseTarget (c : Call) (s : State) (target : AccountInfo) : Except ProgramError State := do
  validateProgramOwner E s c target
  validateAccountWritable target
  return s.closeAt target.key

def processDevnetClose (s : State) (c : Call) : Except ProgramError State := do
  c.atLeast 2
  let authority ← c.account 0
  let programData ← c.account 1
  validateUpgradeAuthority E c programData authority
  loop (devnetCloseTarget E c) s (c.accounts.drop 2)

def processInstructionDevnetRegtest (s : State) (c : Call) : Except ProgramError State :=
  match c.decode E with
  | some (i, c) => i.run E s c
  | none =>
    if c.data.head? = some 31 then processDevnetClose E s { c with data := c.data.tail }
    else throw .InvalidInstructionData

def stepDevnetRegtest (s : State) : Label → Except ProgramError State
  | .call c => do
    require c.signedByKeys .MissingRequiredSignature
    processInstructionDevnetRegtest E s c
  | l => step E s l

end Program

/-! ### A chain to run the program on -/

namespace Regtest

/-- A stand-in for a hash function. -/
def mix (tag : ℕ) (d : List UInt8) : ℕ :=
  d.foldl (fun h b => (h * 65599 + b.toNat + 1) % 2 ^ 248) tag

def programData : Hash := toLe 32 31
def loader : Hash := toLe 32 30
def admin : Addr := .key (toLe 32 50)
def user : Addr := .key (toLe 32 51)
def zkbtc : Addr := .key (toLe 32 60)
def otherMint : Addr := .key (toLe 32 61)
def pool : Addr := .poolState zkbtc

def env : Env where
  programId := toLe 32 1
  btcLightClientId := toLe 32 2
  chadbufferId := toLe 32 3
  policyProgramId := toLe 32 4
  mainnet := false
  derive a := match a with
    | .poolState _ => toLe 32 100
    | .redemption _ _ n => toLe 32 (200 + n)
    | _ => zeros 32
  minimumBalance len := 6960 * (len + 128)
  sha256 d := toLe 32 (mix 7 d)
  keccak256 d := toLe 32 (mix 8 d)
  poseidon xs := some (hashOfNat (mix 9 (xs.flatMap Vector.toList)))
  groth16 _ _ _ _ := true
  taprootOutputKey internal tweak := some (toLe 32 (mix 10 (internal.toList ++ tweak.toList)))
  vkHash _ _ := zeros 32
  policyApprovalPda _ _ _ := (zeros 32, 0)
  perPermissionRent := 0
  verifiedTxPda txid block := toLe 32 (mix 11 (txid.toList ++ block.toList))
  lightClientPda := toLe 32 32
  heightIndexPda h := toLe 32 (1000 + h)
  expectedNetwork := none
  demoRequiredConfirmations := 1
  messageApprovalPda _ _ _ digest := digest
  cpiAuthorityBump := 255
  bpfLoaderUpgradeableId := loader
  programDataPda := programData
  externalUndelegateDiscriminator := ofList 8 [196, 28, 41, 206, 48, 37, 51, 167]

/-- A mint whose authority is its pool. -/
def mintAccount (mint : Addr) : Foreign where
  owner := token2022ProgramId
  executable := false
  data := leBytes 4 1 ++ (env.bytesOf (.poolState mint)).toList ++ (zeros 8).toList ++ [8, 1] ++
    (zeros 36).toList

/-- The program's upgrade authority is the admin. -/
def basicAccounts : List (Hash × Foreign) :=
  [(programData, ⟨loader, false, [3, 0, 0, 0] ++ (zeros 8).toList ++ [1] ++
      (env.bytesOf admin).toList⟩),
    (toLe 32 60, mintAccount zkbtc), (toLe 32 61, mintAccount otherMint)]

def call (b : UInt8) (accounts : List AccountInfo) (data : List UInt8)
    (foreign : List (Hash × Foreign)) (slot : ℕ) : Label :=
  .call {
    accounts := accounts
    data := b :: data
    slot := slot
    unixTimestamp := 0
    foreign := fun k => ((foreign ++ basicAccounts).lookup k).getD ⟨zeros 32, false, []⟩
    cpiSucceeds := true }

def signer (a : Addr) : AccountInfo := ⟨a, true, true⟩
def writable (a : Addr) : AccountInfo := ⟨a, false, true⟩
def readonly (a : Addr) : AccountInfo := ⟨a, false, false⟩
def system : AccountInfo := readonly (.key systemProgramId)

/-- A pool without fees. -/
def openPoolOf (mint : Addr) : Label :=
  call 0 [writable (.poolState mint), writable (.commitmentTree (.poolState mint) 0), readonly mint,
    readonly (.key (toLe 32 70)), readonly (.key (toLe 32 71)), signer admin, system]
    [0, 0, 0, 0, 0, 0] [] 0

def openPool : Label := openPoolOf zkbtc

/-- The pool of a mint takes a wallet and a key. -/
def setPoolConfig (mint : Addr) (dwallet xonly : Hash) : Label :=
  let script := taprootScript xonly
  call 2 [readonly (.poolState mint), writable (.poolConfig (.poolState mint)), signer admin, system,
    writable (.dwalletBinding dwallet)]
    (UInt8.ofNat script.length :: script ++ dwallet.toList ++ xonly.toList ++ [255]) [] 0

/-- The verifying key of spends with `n` inputs and `m` outputs. -/
def initVk (n m : ℕ) : Label :=
  call 6 [readonly (.key programData), writable (.vkRegistry n m), signer admin, system]
    ([UInt8.ofNat n, UInt8.ofNat m] ++ (zeros 32).toList ++ (zeros 128).toList ++
      [UInt8.ofNat (3 + n + m)] ++ (zeros ((3 + n + m) * 64)).toList) [] 0

/-- A spend's data up to the stealth data: flags, an inline proof, the root, the bound
parameters and the notes. -/
def spendData (nPublic flags : ℕ) (root bound : Hash) (nullifiers commitments : List Hash) :
    List UInt8 :=
  [UInt8.ofNat nullifiers.length, UInt8.ofNat commitments.length, UInt8.ofNat nPublic,
    UInt8.ofNat flags] ++ (zeros 256).toList ++ root.toList ++ bound.toList ++
    nullifiers.flatMap Vector.toList ++ commitments.flatMap Vector.toList

/-- What a proof for the pool binds. -/
def bound (operation : Hash) : Hash :=
  match bindBoundParamsToDomain env operation pool false with
  | .ok h => h
  | .error _ => zeros 32

def nullifierAccounts (tree : ℕ) (nullifiers : List Hash) : List AccountInfo :=
  nullifiers.map fun nf => writable (.nullifier pool (nullifierSeed tree) nf)

/-- A transfer whose outputs go into the active tree. -/
def transact (tree : ℕ) (root : Hash) (nullifiers commitments : List Hash) : Label :=
  let stealth := List.replicate (commitments.length * stealthDataPerOutput) 0
  call 13 ([writable pool, writable (.commitmentTree pool tree),
      readonly (.vkRegistry nullifiers.length commitments.length), signer user, system] ++
      nullifierAccounts tree nullifiers)
    (spendData 0 0 root (bound (computeBoundParamsHashPrivateTransfer env (env.sha256 stealth)))
      nullifiers commitments ++ stealth) [] 0

/-- The note of an example. -/
def note (n : ℕ) : Hash := toLe 32 n

/-- The admin closes accounts. -/
def devnetClose (targets : List Addr) : Label :=
  call 31 ([signer admin, readonly (.key programData)] ++ targets.map writable) [] [] 0

end Regtest

end Utxopia.Pool
