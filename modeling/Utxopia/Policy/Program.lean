import Utxopia.Pool.Policy

/-!
The policy program: approvals of single spends, kept as bytes.

An approval is asked for by anybody, decided by the pool's auditor and consumed by the pool
itself, in the middle of the spend it allows. It may be lent to an ephemeral rollup, where the
same program decides it.
-/

namespace Utxopia.Policy

open Utxopia.ByteString Utxopia.Check Utxopia.Runtime Utxopia.Pool

/-- An account at an address of the policy program; `other` owns it while it is lent. -/
structure PolicyAccount where
  lamports : ℕ
  owner : Owner
  data : List UInt8
  deriving DecidableEq

abbrev Approvals := Hash → PolicyAccount

def noApprovals : Approvals := fun _ => ⟨0, .system, []⟩

/-- `ASSET_PROGRAM_ID`. -/
def assetProgramId : Hash := ofList 32
  [177, 47, 207, 226, 231, 90, 174, 9, 81, 157, 213, 140, 10, 174, 82, 49, 241, 201, 245, 199, 35,
   77, 222, 44, 97, 82, 155, 76, 251, 198, 64, 233]

def policyLen : ℕ := 176
def statusPending : UInt8 := 0
def statusApproved : UInt8 := 1
def statusRejected : UInt8 := 2
def statusConsumed : UInt8 := 3

/-- `spend_is_allowed`, as the policy program has it. -/
def spendIsAllowed (status : UInt8) (slot expiresAt : ℕ) : Bool :=
  status = statusApproved ∧ slot ≤ expiresAt

section Program

variable (E : Env) (s : State) (A : Approvals) (c : Call)

/-- A permissioned pool that is not frozen: its authority and its auditor. -/
def validatePool (pool : AccountInfo) : Except ProgramError (Addr × Hash) := do
  require (s.ownerOf E c pool.key = .program ∧ E.programId = assetProgramId) .InvalidAccountOwner
  let p ← orElse (s.poolAt pool.key) .InvalidAccountData
  require (p.permissioned ∧ ¬ p.auditorFrozen) .InvalidAccountData
  require (pool.key = .poolState p.zkbtcMint) .InvalidSeeds
  return (p.authority, p.auditor)

/-- The policy account of an address. -/
def approvalAccount (approval : AccountInfo) : Except ProgramError (Hash × PolicyAccount) :=
  match approval.key with
  | .key k => .ok (k, A k)
  | _ => throw .InvalidAccountData

/-- `approval_seeds`: the address is the one of the pool, the hash and the nonce inside. -/
def approvalSeeds (pool : AccountInfo) (address : Hash) (d : List UInt8) :
    Except ProgramError Unit := do
  require (d.length = policyLen ∧ byteAt d 0 = 0x0c ∧ byteAt d 1 = 1 ∧
    slice 32 d 16 = E.bytesOf pool.key) .InvalidAccountData
  let (expected, bump) := E.policyApprovalPda pool.key (slice 32 d 112) (slice 32 d 144)
  require (address = expected ∧ byteAt d 3 = bump) .InvalidSeeds

/-- The bytes of a new approval. -/
def approvalBytes (bump : ℕ) (action : UInt8) (expires : Bytes 8)
    (pool actor auditor hash nonce : Hash) : List UInt8 :=
  [0x0c, 1, statusPending, UInt8.ofNat bump, action, 0, 0, 0] ++ (expires.toList ++ (pool.toList ++
    (actor.toList ++ (auditor.toList ++ (hash.toList ++ nonce.toList)))))

/-- `initialize`: the account is created, so nothing may be at the address. -/
def openApproval : Except ProgramError Approvals := do
  require (c.accounts.length = 4 ∧ c.data.length = 105) .InvalidInstructionData
  let payer ← c.account 0
  let pool ← c.account 1
  let approval ← c.account 2
  let system ← c.account 3
  require (payer.isSigner ∧ approval.isWritable ∧ system.key = .key systemProgramId)
    .InvalidAccountData
  let (_, auditor) ← validatePool E s c pool
  require (byteAt c.data 0 ∈ [13, 14, 15, 22, 23, 26]) .InvalidInstructionData
  require (c.slot < u64At c.data 1) .InvalidArgument
  let hash : Hash := slice 32 c.data 41
  let nonce : Hash := slice 32 c.data 73
  let (expected, bump) := E.policyApprovalPda pool.key hash nonce
  let (address, acc) ← approvalAccount A approval
  require (address = expected ∧ acc.lamports = 0) .InvalidSeeds
  -- `CreateAccount`
  require (acc.owner = .system ∧ acc.data = []) .Cpi
  return Function.update A address ⟨E.minimumBalance policyLen + E.perPermissionRent, .program,
    approvalBytes bump (c.data.getD 0 0) (slice 8 c.data 1) (E.bytesOf pool.key) (slice 32 c.data 9)
      auditor hash nonce⟩

/-- The bytes with another status. -/
def setStatus (d : List UInt8) (status : UInt8) : List UInt8 := d.set 2 status

/-- The auditor's decision; in the rollup the account is under its borrower. -/
def decision (owner : Owner) : Except ProgramError Approvals := do
  require (c.accounts.length = 2 ∧ (c.data = [1] ∨ c.data = [2])) .InvalidInstructionData
  let authority ← c.account 0
  let approval ← c.account 1
  let (address, acc) ← approvalAccount A approval
  require (authority.isSigner ∧ acc.owner = owner ∧ approval.isWritable) .InvalidAccountData
  let d := acc.data
  require (d.length = policyLen ∧ byteAt d 0 = 0x0c ∧ byteAt d 2 = statusPending.toNat ∧
    E.bytesOf authority.key = slice 32 d 80 ∧ c.slot ≤ u64At d 8) .InvalidAccountData
  let status := if c.data = [1] then statusApproved else statusRejected
  return Function.update A address { acc with data := setStatus d status }

/-- `consume`: the pool signs, which it does for calls of its own program only. -/
def consume : Except ProgramError Approvals := do
  require (c.accounts.length = 2 ∧ c.data.length = 33) .InvalidInstructionData
  let pool ← c.account 0
  let approval ← c.account 1
  let (address, acc) ← approvalAccount A approval
  require (pool.isSigner ∧ acc.owner = .program ∧ approval.isWritable) .InvalidAccountData
  let (_, auditor) ← validatePool E s c pool
  let d := acc.data
  approvalSeeds E pool address d
  require (spendIsAllowed (d.getD 2 0) c.slot (u64At d 8) ∧ byteAt d 4 = byteAt c.data 0 ∧
    slice 32 d 80 = auditor ∧ slice 32 d 112 = (slice 32 c.data 1 : Hash)) .InvalidAccountData
  return Function.update A address { acc with data := setStatus d statusConsumed }

/-- The account goes to the delegation program with its bytes. -/
def delegate : Except ProgramError Approvals := do
  require (c.accounts.length = 10 ∧ c.data.length = 37 ∧ byteAt c.data 0 = 2) .InvalidInstructionData
  let payer ← c.account 0
  let authority ← c.account 1
  let pool ← c.account 2
  let approval ← c.account 3
  require (payer.isSigner ∧ authority.isSigner) .MissingRequiredSignature
  let (poolAuthority, _) ← validatePool E s c pool
  require (authority.key = poolAuthority) .InvalidArgument
  let (address, acc) ← approvalAccount A approval
  approvalSeeds E pool address acc.data
  require (acc.owner = .program ∧ c.cpiSucceeds) .Cpi
  return Function.update A address { acc with owner := .other }

/-- Permissions and commits are calls into other programs and leave the approval as it is. -/
def permission : Except ProgramError Approvals := do
  require (c.accounts.length = 7 ∧ 3 ≤ c.data.length) .InvalidInstructionData
  let authority ← c.account 0
  let pool ← c.account 1
  let approval ← c.account 2
  require authority.isSigner .MissingRequiredSignature
  let (poolAuthority, _) ← validatePool E s c pool
  require (authority.key = poolAuthority) .InvalidArgument
  let (address, acc) ← approvalAccount A approval
  approvalSeeds E pool address acc.data
  require c.cpiSucceeds .Cpi
  return A

def commit : Except ProgramError Approvals := do
  require (c.accounts.length = 4 ∧ c.data = []) .InvalidInstructionData
  let payer ← c.account 0
  let approval ← c.account 3
  let (_, acc) ← approvalAccount A approval
  require (payer.isSigner ∧ acc.owner = .program) .InvalidAccountData
  require (acc.data.length = policyLen ∧ byteAt acc.data 2 ∈ [1, 2]) .InvalidAccountData
  require c.cpiSucceeds .Cpi
  return A

/-- The instructions by their discriminator. -/
def processInstruction : Except ProgramError Approvals :=
  match c.data with
  | [] => throw .InvalidInstructionData
  | b :: rest =>
    let c := { c with data := rest }
    match b.toNat with
    | 32 => delegate E s A c
    | 34 => permission E s A c
    | 36 => openApproval E s A c
    | 37 => decision E A c .program
    | 38 => commit A c
    | 39 => consume E s A c
    | _ => throw .InvalidInstructionData

end Program

/-! ### Reading the bytes -/

lemma parse_eq_some {d : List UInt8} (hlen : d.length = policyLen) (h0 : byteAt d 0 = 0x0c)
    (h1 : byteAt d 1 = 1) : ApprovalBytes.parse d = some {
      status := byteAt d 2
      bump := byteAt d 3
      action := byteAt d 4
      expiresAtSlot := u64At d 8
      pool := slice 32 d 16
      actor := slice 32 d 48
      policyAuthority := slice 32 d 80
      requestHash := slice 32 d 112
      nonce := slice 32 d 144 } := by
  unfold policyLen at hlen
  simp [ApprovalBytes.parse, hlen, h0, h1]

/-- Writing the status changes the status only. -/
lemma parse_setStatus {d : List UInt8} {a : ApprovalBytes} (status : UInt8)
    (h : ApprovalBytes.parse d = some a) :
    ApprovalBytes.parse (setStatus d status) = some { a with status := status.toNat } := by
  unfold ApprovalBytes.parse at h
  split_ifs at h with hd
  obtain ⟨hlen, h0, h1⟩ := hd
  obtain rfl := Option.some_inj.mp h
  have hbyte : ∀ i, i ≠ 2 → byteAt (setStatus d status) i = byteAt d i := fun i hi => by
    rw [byteAt, byteAt, setStatus, List.getD_eq_getElem?_getD, List.getElem?_set_ne (Ne.symm hi),
      ← List.getD_eq_getElem?_getD]
  have hstatus : byteAt (setStatus d status) 2 = status.toNat := by
    rw [byteAt, setStatus, List.getD_eq_getElem?_getD, List.getElem?_set_self (by omega)]
    rfl
  have hslice : ∀ n off, 2 < off → slice n (setStatus d status) off = slice n d off :=
    fun n off hoff => slice_set d status hoff
  rw [parse_eq_some (by rw [setStatus, List.length_set, hlen]; rfl) (by rw [hbyte 0 (by decide), h0])
    (by rw [hbyte 1 (by decide), h1]), hstatus, hbyte 3 (by decide), hbyte 4 (by decide), u64At,
    hslice 8 8 (by decide), hslice 32 16 (by decide), hslice 32 48 (by decide),
    hslice 32 80 (by decide), hslice 32 112 (by decide), hslice 32 144 (by decide)]
  rfl

/-- **A new approval reads back** as what was asked for, pending. -/
theorem parse_approvalBytes (bump : ℕ) (action : UInt8) (expires : Bytes 8)
    (pool actor auditor hash nonce : Hash) :
    ApprovalBytes.parse (approvalBytes bump action expires pool actor auditor hash nonce) = some {
      status := 0
      bump := (UInt8.ofNat bump).toNat
      action := action.toNat
      expiresAtSlot := leNat expires.toList
      pool := pool
      actor := actor
      policyAuthority := auditor
      requestHash := hash
      nonce := nonce } := by
  have hat : ∀ {n m k : ℕ} (p : Bytes n) (d : List UInt8) (off : ℕ), k = n + off →
      slice m (p.toList ++ d) k = slice m d off := fun {n m k} p d off hk => by
    have h := slice_append m p.toList d off
    rwa [Vector.length_toList, ← hk] at h
  have hhead : ∀ {m k : ℕ} (d : List UInt8) (off : ℕ), k = 8 + off →
      slice m ([0x0c, 1, statusPending, UInt8.ofNat bump, action, 0, 0, 0] ++ d) k = slice m d off :=
    fun d off hk => by
      rw [hk]
      exact slice_append _ [0x0c, 1, statusPending, UInt8.ofNat bump, action, 0, 0, 0] d off
  rw [parse_eq_some (by simp [approvalBytes, policyLen]) rfl rfl]
  unfold u64At approvalBytes
  rw [hhead _ 0 rfl, slice_toList_append, hhead _ 8 rfl, hat expires _ 0 rfl, slice_toList_append,
    hhead _ 40 rfl, hat expires _ 32 rfl, hat pool _ 0 rfl, slice_toList_append,
    hhead _ 72 rfl, hat expires _ 64 rfl, hat pool _ 32 rfl, hat actor _ 0 rfl, slice_toList_append,
    hhead _ 104 rfl, hat expires _ 96 rfl, hat pool _ 64 rfl, hat actor _ 32 rfl,
    hat auditor _ 0 rfl, slice_toList_append,
    hhead _ 136 rfl, hat expires _ 128 rfl, hat pool _ 96 rfl, hat actor _ 64 rfl,
    hat auditor _ 32 rfl, hat hash _ 0 rfl]
  have hnonce : slice 32 nonce.toList 0 = nonce := by simpa using slice_toList_append nonce []
  rw [hnonce]
  rfl

end Utxopia.Policy
