import Utxopia.Pool.Crypto

/-!
Permissioned pools: policy approvals, exit destinations and the accounts they live in.

A spend of a permissioned pool either consumes an approval, which the policy program keeps in
an account of its own, or leaves to destinations registered beforehand. The approvals this
program keeps itself are drafts that may be lent to an ephemeral rollup and come back.
-/

namespace Utxopia.Pool

open Utxopia.ByteString Utxopia.Check Utxopia.Runtime

/-! ### Instruction codes -/

def shieldPermissionedCode : ℕ := 23
def transactCode : ℕ := 13
def unshieldCode : ℕ := 14
def redeemCode : ℕ := 15
def completeDepositPermissionedCode : ℕ := 22
def verifyDepositPermissionedCode : ℕ := 26

def isPermissionedAction (action : ℕ) : Bool :=
  action ∈ [completeDepositPermissionedCode, shieldPermissionedCode, verifyDepositPermissionedCode,
    transactCode, unshieldCode, redeemCode]

/-! ### Spending -/

inductive SpendPath where
  | Open
  | Verified
  | Ragequit
  deriving DecidableEq, Repr

def allowsRagequit (action : ℕ) : Bool := action = unshieldCode ∨ action = redeemCode

def resolveSpendPath (permissioned approval policyProgram : Bool) (action : ℕ) :
    Except ProgramError SpendPath :=
  if ¬ permissioned then .ok .Open
  else match approval, policyProgram with
    | true, true => .ok .Verified
    | true, false | false, true => throw (.Custom .PolicyApprovalRequired)
    | false, false =>
      if allowsRagequit action then .ok .Ragequit else throw (.Custom .RagequitNotAvailable)

/-- An approval as its bytes spell it. -/
structure ApprovalBytes where
  status : ℕ
  bump : ℕ
  action : ℕ
  expiresAtSlot : ℕ
  pool : Hash
  actor : Hash
  policyAuthority : Hash
  requestHash : Hash
  nonce : Hash

def byteAt (d : List UInt8) (i : ℕ) : ℕ := (d.getD i 0).toNat

/-- `PolicyApproval::validate` and the getters. -/
def ApprovalBytes.parse (d : List UInt8) : Option ApprovalBytes :=
  if d.length = 176 ∧ byteAt d 0 = 0x0c ∧ byteAt d 1 = 1 then
    some {
      status := byteAt d 2
      bump := byteAt d 3
      action := byteAt d 4
      expiresAtSlot := u64At d 8
      pool := slice 32 d 16
      actor := slice 32 d 48
      policyAuthority := slice 32 d 80
      requestHash := slice 32 d 112
      nonce := slice 32 d 144 }
  else none

def policyStatusApproved : ℕ := 1

/-- `b"UTXOPIA_POLICY_APPROVAL_V1"`. -/
def requestDomain : List UInt8 :=
  [0x55, 0x54, 0x58, 0x4f, 0x50, 0x49, 0x41, 0x5f, 0x50, 0x4f, 0x4c, 0x49, 0x43, 0x59, 0x5f, 0x41,
   0x50, 0x50, 0x52, 0x4f, 0x56, 0x41, 0x4c, 0x5f, 0x56, 0x31]

def maxIntentParts : ℕ := 3

def computePolicyRequestHash (E : Env) (pool actor : Addr) (action : ℕ)
    (intentParts : List (List UInt8)) : Except ProgramError Hash := do
  require (intentParts.length ≤ maxIntentParts) .InvalidArgument
  return E.sha256 (requestDomain ++ E.programId.toList ++ (E.bytesOf pool).toList ++
    (E.bytesOf actor).toList ++ [UInt8.ofNat action, UInt8.ofNat intentParts.length] ++
    intentParts.flatMap fun part => (E.sha256 part).toList)

def spendIsAllowed (status slot expiresAt : ℕ) : Except ProgramError Unit := do
  require (status = policyStatusApproved) UTXOpiaError.PolicyApprovalRequired
  require (slot ≤ expiresAt) UTXOpiaError.PolicyApprovalExpired

/-- What the policy program is asked to consume: the account, and the pool, the action and the
request hash that go with the call. -/
structure Consumption where
  approval : Addr
  pool : Addr
  action : ℕ
  requestHash : Hash
  deriving DecidableEq

/-- Check an approval of the policy program and have it consumed there. -/
def consumePolicyApproval (E : Env) (s : State) (c : Call)
    (approval policyProgram pool : AccountInfo) (actor : Addr) (expectedPolicyAuthority : Hash)
    (action : ℕ) (intentParts : List (List UInt8)) : Except ProgramError Consumption := do
  require (policyProgram.key = .key E.policyProgramId ∧ c.executable policyProgram.key)
    .IncorrectProgramId
  require (c.ownedBy approval.key E.policyProgramId) UTXOpiaError.InvalidAccountOwner
  validateAccountWritable approval
  validateProgramOwner E s c pool
  validatePoolStatePda E s c pool
  let expectedHash ← computePolicyRequestHash E pool.key actor action intentParts
  let a ← orElse (ApprovalBytes.parse (c.dataOf approval.key)) .InvalidAccountData
  require (a.action = action ∧ a.pool = E.bytesOf pool.key ∧ a.actor = E.bytesOf actor ∧
    a.policyAuthority = expectedPolicyAuthority ∧ a.requestHash = expectedHash)
    UTXOpiaError.PolicyApprovalMismatch
  spendIsAllowed a.status c.slot a.expiresAtSlot
  require (approval.key = .key (E.policyApprovalPda pool.key a.requestHash a.nonce).1 ∧
    a.bump = (E.policyApprovalPda pool.key a.requestHash a.nonce).2) .InvalidSeeds
  require c.cpiSucceeds .Cpi
  return ⟨approval.key, pool.key, action, expectedHash⟩

/-- The bytes under the destination's kind and key say that it is registered. -/
def assertExitDestinationRegistered (E : Env) (s : State) (c : Call) (pool : Addr)
    (destination : AccountInfo) (kind : ℕ) (key : Hash) : Except ProgramError Unit := do
  require (destination.key = .exitDestination pool kind key ∧
    s.ownerOf E c destination.key = .program) UTXOpiaError.ExitDestinationNotRegistered
  let d ← orElse (s.exitDestinationAt destination.key) .InvalidAccountData
  require (d.kind = kind ∧ d.key = key) UTXOpiaError.ExitDestinationNotRegistered

def exitKindSolanaOwner : ℕ := 0
def exitKindBtcScript : ℕ := 1

/-! ### The instructions -/

def processRegisterExitDestination (E : Env) (s : State) (c : Call) :
    Except ProgramError State := do
  require (c.accounts.length = 4) .NotEnoughAccountKeys
  require (c.data.length = 33) .InvalidInstructionData
  let auditor ← c.account 0
  let pool ← c.account 1
  let destination ← c.account 2
  let systemProgram ← c.account 3
  validateSigner auditor
  validateProgramOwner E s c pool
  validatePoolStatePda E s c pool
  validateAccountWritable destination
  validateSystemProgram systemProgram
  let kind := byteAt c.data 0
  require (kind = exitKindSolanaOwner ∨ kind = exitKindBtcScript) .InvalidInstructionData
  let key := slice 32 c.data 1
  let p ← readPool s pool
  require p.permissioned UTXOpiaError.NotPermissioned
  require (E.bytesOf auditor.key = p.auditor) UTXOpiaError.Unauthorized
  require (destination.key = .exitDestination pool.key kind key) .InvalidSeeds
  let acc := s.exitDestinations.get (pool.key, kind, key)
  if acc.owner = .program ∧ acc.data.isEmpty = false then do
    let _ ← orElse acc.live? .InvalidAccountData
    return s
  else do
    let acc ← createOrClaim acc (E.minimumBalance 36) .Cpi
    return { s with exitDestinations :=
      s.exitDestinations.set (pool.key, kind, key) (rewrite acc ⟨kind, key⟩) }

/-- `MAGICBLOCK_PER_PERMISSION_RENT` comes on top of the rent of the approval. -/
def processInitializePolicyApproval (E : Env) (s : State) (c : Call) :
    Except ProgramError State := do
  require (c.accounts.length = 4) .NotEnoughAccountKeys
  require (c.data.length = 105) .InvalidInstructionData
  let payer ← c.account 0
  let pool ← c.account 1
  let approval ← c.account 2
  let systemProgram ← c.account 3
  validateSigner payer
  validateProgramOwner E s c pool
  validatePoolStatePda E s c pool
  validateAccountWritable approval
  validateSystemProgram systemProgram
  let action := byteAt c.data 0
  require (isPermissionedAction action) .InvalidInstructionData
  let expiresAtSlot := u64At c.data 1
  let actor := slice 32 c.data 9
  let requestHash := slice 32 c.data 41
  let nonce := slice 32 c.data 73
  require (c.slot < expiresAtSlot) UTXOpiaError.PolicyApprovalExpired
  let p ← readPool s pool
  require (p.permissioned ∧ ¬ p.auditorFrozen) UTXOpiaError.Unauthorized
  require (approval.key = .policyApproval pool.key requestHash nonce) .InvalidSeeds
  let acc := s.policyApprovals.get (pool.key, requestHash, nonce)
  require (¬ (acc.owner = .program ∧ acc.data.isEmpty = false)) UTXOpiaError.PolicyApprovalAlreadyUsed
  let acc ← createOrClaim acc (E.minimumBalance 176 + E.perPermissionRent) .Cpi
  let a : PolicyApproval :=
    { status := .Pending
      action := action
      expiresAtSlot := expiresAtSlot
      pool := pool.key
      actor := actor
      policyAuthority := p.auditor
      requestHash := requestHash
      nonce := nonce }
  return { s with policyApprovals :=
    s.policyApprovals.set (pool.key, requestHash, nonce) (rewrite acc a) }

def processPolicyApprovalDecision (E : Env) (s : State) (c : Call) :
    Except ProgramError State := do
  require (c.accounts.length = 2) .NotEnoughAccountKeys
  require (c.data = [1] ∨ c.data = [2]) .InvalidInstructionData
  let authority ← c.account 0
  let approval ← c.account 1
  validateSigner authority
  validateProgramOwner E s c approval
  validateAccountWritable approval
  let a ← orElse (s.policyApprovalAt approval.key) .InvalidAccountData
  require (a.status = .Pending) UTXOpiaError.PolicyApprovalAlreadyUsed
  require (E.bytesOf authority.key = a.policyAuthority) UTXOpiaError.Unauthorized
  require (c.slot ≤ a.expiresAtSlot) UTXOpiaError.PolicyApprovalExpired
  let status := if c.data = [1] then PolicyStatus.Approved else .Rejected
  return s.putPolicyApproval { a with status := status } approval.key

/-- A decided approval is sent back from the rollup; nothing changes here yet. -/
def processPolicyApprovalCommit (E : Env) (s : State) (c : Call) :
    Except ProgramError State := do
  require (c.accounts.length = 4) .NotEnoughAccountKeys
  require (c.data = []) .InvalidInstructionData
  let payer ← c.account 0
  let magicContext ← c.account 1
  let magicProgram ← c.account 2
  let approval ← c.account 3
  validateSigner payer
  require (c.executable magicProgram.key) .IncorrectProgramId
  validateAccountWritable magicContext
  validateProgramOwner E s c approval
  validateAccountWritable approval
  let a ← orElse (s.policyApprovalAt approval.key) .InvalidAccountData
  require (a.status = .Approved ∨ a.status = .Rejected) UTXOpiaError.PolicyApprovalRequired
  require c.cpiSucceeds .Cpi
  return s

/-! ### The ephemeral rollup

The addresses of the rollup's own accounts are checked there; the outcome of the call covers
them. -/

def validatePoolAuthority (E : Env) (s : State) (c : Call) (pool authority : AccountInfo) :
    Except ProgramError Unit := do
  validateProgramOwner E s c pool
  validatePoolStatePda E s c pool
  let p ← readPool s pool
  require (authority.key = p.authority) UTXOpiaError.Unauthorized

/-- Only an approval of a permissioned pool can be lent. -/
def delegatedApproval (s : State) (pool delegated : AccountInfo) :
    Except ProgramError PolicyApproval := do
  let p ← readPool s pool
  require p.permissioned UTXOpiaError.NotPermissioned
  let a ← orElse (s.policyApprovalAt delegated.key) .InvalidAccountData
  require (a.pool = pool.key) .InvalidSeeds
  require (delegated.key = .policyApproval pool.key a.requestHash a.nonce) .InvalidSeeds
  return a

def targetPolicyApproval : ℕ := 2

/-- The account goes to the delegation program. -/
def processMagicblockDelegate (E : Env) (s : State) (c : Call) : Except ProgramError State := do
  require (c.accounts.length = 10) .NotEnoughAccountKeys
  require (c.data.length = 37) .InvalidInstructionData
  let payer ← c.account 0
  let authority ← c.account 1
  let pool ← c.account 2
  let delegated ← c.account 3
  let ownerProgram ← c.account 4
  let systemProgram ← c.account 8
  require (payer.isSigner ∧ authority.isSigner) .MissingRequiredSignature
  validatePoolAuthority E s c pool authority
  require (ownerProgram.key = .key E.programId ∧ c.executable ownerProgram.key) .IncorrectProgramId
  validateProgramOwner E s c delegated
  validateAccountWritable delegated
  validateSystemProgram systemProgram
  require (byteAt c.data 0 = targetPolicyApproval) .InvalidInstructionData
  require (slice 32 c.data 5 ≠ zeros 32) UTXOpiaError.ValidatorNotPinned
  let a ← delegatedApproval s pool delegated
  require c.cpiSucceeds .Cpi
  let k := (pool.key, a.requestHash, a.nonce)
  return { s with policyApprovals :=
    s.policyApprovals.set k { s.policyApprovals.get k with owner := .other } }

/-- What the rollup sends back: the record its buffer spells. -/
def PolicyApproval.ofBytes (pool : Addr) (a : ApprovalBytes) : PolicyApproval where
  status := match a.status with
    | 0 => .Pending
    | 1 => .Approved
    | 2 => .Rejected
    | _ => .Consumed
  action := a.action
  expiresAtSlot := a.expiresAtSlot
  pool := pool
  actor := a.actor
  policyAuthority := a.policyAuthority
  requestHash := a.requestHash
  nonce := a.nonce

/-- The rollup's signed buffer brings a lent approval back. -/
def processMagicblockUndelegateCallback (s : State) (c : Call) : Except ProgramError State := do
  c.atLeast 3
  let delegated ← c.account 0
  let buffer ← c.account 1
  require buffer.isSigner .MissingRequiredSignature
  require c.cpiSucceeds .Cpi
  match delegated.key with
  | .policyApproval pool h n => do
    let acc := s.policyApprovals.get (pool, h, n)
    require (acc.owner = .other) .Cpi
    let data := match ApprovalBytes.parse (c.dataOf buffer.key) with
      | some a => Data.live (PolicyApproval.ofBytes pool a)
      | none => .blank
    return { s with policyApprovals :=
      s.policyApprovals.set (pool, h, n) { acc with owner := .program, data := data } }
  | _ => throw .Cpi

/-- The nullifier accounts a commit names are those of the first tree. -/
def checkCommittedNullifier (E : Env) (s : State) (c : Call) (pool : Addr)
    (item : AccountInfo × Hash) : Except ProgramError Unit := do
  validateProgramOwner E s c item.1
  validateAccountWritable item.1
  require (item.1.key = .nullifier pool none item.2) .InvalidSeeds
  require (s.nullifiers.get (pool, none, item.2)).live?.isSome .InvalidAccountData

/-- Accounts are copied to the base layer by the rollup; nothing changes here. -/
def processMagicblockCommit (E : Env) (s : State) (c : Call) : Except ProgramError State := do
  require (3 ≤ c.data.length ∧ byteAt c.data 0 = 1) .InvalidInstructionData
  require (byteAt c.data 1 < 2) .InvalidInstructionData
  let n := byteAt c.data 2
  require (n ≠ 0 ∧ n ≤ 10) .InvalidInstructionData
  require (c.data.length = 3 + n * 32) .InvalidInstructionData
  require (c.accounts.length = 6 + n) .NotEnoughAccountKeys
  let payer ← c.account 0
  let authority ← c.account 1
  let magicContext ← c.account 2
  let magicProgram ← c.account 3
  let pool ← c.account 4
  let tree ← c.account 5
  validateSigner payer
  require (c.executable magicProgram.key) .IncorrectProgramId
  validateAccountWritable magicContext
  validateProgramOwner E s c pool
  validatePoolStatePda E s c pool
  require (byteAt c.data 1 = 1 → authority.isSigner) .MissingRequiredSignature
  let p ← readPool s pool
  require (byteAt c.data 1 = 1 → authority.key = p.authority) UTXOpiaError.Unauthorized
  validateAccountWritable pool
  validateProgramOwner E s c tree
  validateAccountWritable tree
  validateActiveTreePda E s c tree pool p.activeTreeIndex
  let t ← readTree s tree
  require (t.treeIndex = p.activeTreeIndex) .InvalidSeeds
  let hashes := (List.range n).map fun i => (slice 32 c.data (3 + i * 32) : Hash)
  loop (fun _ item => checkCommittedNullifier E s c pool.key item) ()
    ((c.accounts.drop 6).zip hashes)
  require c.cpiSucceeds .Cpi
  return s

/-- Permissions live in the rollup; nothing changes here. -/
def processMagicblockPerPermission (E : Env) (s : State) (c : Call) :
    Except ProgramError State := do
  require (c.accounts.length = 7) .NotEnoughAccountKeys
  let authority ← c.account 0
  let pool ← c.account 1
  let permissioned ← c.account 2
  validateSigner authority
  validatePoolAuthority E s c pool authority
  let p ← readPool s pool
  require p.permissioned UTXOpiaError.Unauthorized
  validateAccountWritable permissioned
  require (3 ≤ c.data.length ∧ byteAt c.data 1 = targetPolicyApproval) .InvalidInstructionData
  let _ ← delegatedApproval s pool permissioned
  require c.cpiSucceeds .Cpi
  return s

end Utxopia.Pool
