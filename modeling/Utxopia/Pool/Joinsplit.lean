import Utxopia.Pool.Counters
import Utxopia.Pool.Policy
import Utxopia.Pool.Tree

/-!
What every spend does: parse the proof, find the tree it spends from, check it, and burn the
nullifiers.

A nullifier is burnt by creating the account at its address. The first tree's nullifiers have
addresses without the tree's index, those of later trees have it in their seeds.
-/

namespace Utxopia.Pool

open Utxopia.ByteString Utxopia.Check Utxopia.Runtime

def maxJoinsplitSize : ℕ := 10
def maxPublicOutputs : ℕ := 3
def stealthDataPerOutput : ℕ := 72
def groth16ProofSize : ℕ := 256
def chadbufferAuthoritySize : ℕ := 32

namespace Jsflags

def PROOF_IN_BUFFER : ℕ := 1
def RELAYER : ℕ := 2
def FROZEN_SOURCE_TREE : ℕ := 4
def POLICY : ℕ := 8
def QUEUED_LEAVES : ℕ := 16
def RAGEQUIT : ℕ := 32

end Jsflags

structure JoinSplitHeader where
  nInputs : ℕ
  nOutputs : ℕ
  nPublicOutputs : ℕ
  flags : ℕ

namespace JoinSplitHeader

def has (h : JoinSplitHeader) (flag : ℕ) : Bool := h.flags &&& flag ≠ 0

def proofInBuffer (h : JoinSplitHeader) : Bool := h.has Jsflags.PROOF_IN_BUFFER

end JoinSplitHeader

/-- A header has at least one input and one output and no unknown flag. -/
def parseHeader (data : List UInt8) : Except ProgramError JoinSplitHeader := do
  require (4 ≤ data.length) .InvalidInstructionData
  let h : JoinSplitHeader := ⟨byteAt data 0, byteAt data 1, byteAt data 2, byteAt data 3⟩
  require (h.flags < 64 ∧ h.nInputs ≠ 0 ∧ h.nOutputs ≠ 0 ∧
    h.nInputs + h.nOutputs ≤ maxJoinsplitSize) .InvalidInstructionData
  return h

def validatePublicOutputs (h : JoinSplitHeader) (requireNone : Bool) : Except ProgramError Unit :=
  if requireNone then require (h.nPublicOutputs = 0) .InvalidInstructionData
  else require (h.nPublicOutputs ≠ 0 ∧ h.nPublicOutputs ≤ maxPublicOutputs ∧
    h.nPublicOutputs ≤ h.nOutputs) .InvalidInstructionData

def validateAccountCount (c : Call) (minAccounts : ℕ) (h : JoinSplitHeader) :
    Except ProgramError Unit :=
  require (minAccounts + (if h.proofInBuffer then 1 else 0) ≤ c.accounts.length)
    .NotEnoughAccountKeys

structure JoinSplitPrefix where
  proofBytes : List UInt8
  merkleRoot : Hash
  boundParamsHash : Hash
  nullifiers : List Hash
  commitmentsOut : List Hash
  stealthDataStart : ℕ
  stealthDataEnd : ℕ

/-- `n` field elements from `off` on, each canonical. -/
def readFields (data : List UInt8) (off n : ℕ) : Except ProgramError (List Hash) := do
  let fields := (List.range n).map fun i => (slice 32 data (off + i * 32) : Hash)
  require (fields.all isCanonicalFr) UTXOpiaError.InvalidZkProof
  return fields

/-- The proof comes inline or from a buffer, the last account. -/
def readProof (E : Env) (c : Call) (h : JoinSplitHeader) : Except ProgramError (List UInt8) :=
  if h.proofInBuffer then do
    let buf ← c.account (c.accounts.length - 1)
    require (c.ownedBy buf.key E.chadbufferId) .InvalidAccountOwner
    require (chadbufferAuthoritySize + groth16ProofSize ≤ (c.dataOf buf.key).length)
      .InvalidAccountData
    return ((c.dataOf buf.key).drop chadbufferAuthoritySize).take groth16ProofSize
  else .ok ((c.data.drop 4).take groth16ProofSize)

def parsePrefix (E : Env) (c : Call) (h : JoinSplitHeader) (nTreeOutputs : ℕ) :
    Except ProgramError JoinSplitPrefix := do
  let start := 4 + if h.proofInBuffer then 0 else groth16ProofSize
  let stealthDataStart := start + 64 + h.nInputs * 32 + h.nOutputs * 32
  let stealthDataEnd := stealthDataStart + nTreeOutputs * stealthDataPerOutput
  require (stealthDataEnd ≤ c.data.length) .InvalidInstructionData
  let proofBytes ← readProof E c h
  let nullifiers ← readFields c.data (start + 64) h.nInputs
  let commitmentsOut ← readFields c.data (start + 64 + h.nInputs * 32) h.nOutputs
  return {
    proofBytes := proofBytes
    merkleRoot := slice 32 c.data start
    boundParamsHash := slice 32 c.data (start + 32)
    nullifiers := nullifiers
    commitmentsOut := commitmentsOut
    stealthDataStart := stealthDataStart
    stealthDataEnd := stealthDataEnd }

def nullifiersConcat (pre : JoinSplitPrefix) : List UInt8 := pre.nullifiers.flatMap Vector.toList

/-- The hash of the stealth data, which the bound parameters cover. -/
def stealthDataHash (E : Env) (c : Call) (pre : JoinSplitPrefix) : Hash :=
  E.sha256 ((c.data.drop pre.stealthDataStart).take (pre.stealthDataEnd - pre.stealthDataStart))

/-! ### The accounts after the fixed ones -/

inductive PolicyTail where
  | None
  | Verified
  | Ragequit (n : ℕ)
  deriving DecidableEq, Repr

def PolicyTail.accountCount : PolicyTail → ℕ
  | .None => 0
  | .Verified => 2
  | .Ragequit n => n

def PolicyTail.fromFlags (h : JoinSplitHeader) (permissioned : Bool) (nPublicOutputs : ℕ) :
    Except ProgramError PolicyTail :=
  match permissioned, h.has Jsflags.POLICY, h.has Jsflags.RAGEQUIT with
  | false, false, false => .ok .None
  | true, true, false => .ok .Verified
  | true, false, true => .ok (.Ragequit nPublicOutputs)
  | _, _, _ => throw .InvalidInstructionData

structure JoinSplitTail where
  relayer : Option ℕ
  sourceTree : Option ℕ
  policyStart : Option ℕ
  queuedLeavesStart : Option ℕ
  proofBuffer : Option ℕ

/-- Take `n` slots at the cursor. -/
def takeN (accountCount cursor n : ℕ) : Except ProgramError (Option ℕ × ℕ) :=
  if n = 0 then .ok (none, cursor)
  else do
    require (cursor + n ≤ accountCount) .NotEnoughAccountKeys
    return (some cursor, cursor + n)

def flagCount (h : JoinSplitHeader) (flag n : ℕ) : ℕ := if h.has flag then n else 0

def resolveJoinsplitTail (h : JoinSplitHeader) (tailStart : ℕ) (policy : PolicyTail)
    (nOutputs accountCount : ℕ) : Except ProgramError JoinSplitTail := do
  let (relayer, cursor) ← takeN accountCount tailStart (flagCount h Jsflags.RELAYER 1)
  let (sourceTree, cursor) ← takeN accountCount cursor (flagCount h Jsflags.FROZEN_SOURCE_TREE 1)
  let (policyStart, cursor) ← takeN accountCount cursor policy.accountCount
  let (queuedLeavesStart, cursor) ←
    takeN accountCount cursor (flagCount h Jsflags.QUEUED_LEAVES nOutputs)
  let (proofBuffer, cursor) ← takeN accountCount cursor (flagCount h Jsflags.PROOF_IN_BUFFER 1)
  require (cursor = accountCount) .NotEnoughAccountKeys
  return ⟨relayer, sourceTree, policyStart, queuedLeavesStart, proofBuffer⟩

/-- The approval and the policy program follow each other. -/
def JoinSplitTail.verifiedPair (t : JoinSplitTail) : Option (ℕ × ℕ) :=
  t.policyStart.map fun i => (i, i + 1)

/-- An optional account of the tail. -/
def Call.account? (c : Call) (i : Option ℕ) : Except ProgramError (Option AccountInfo) :=
  match i with
  | some i => do
    let info ← c.account i
    return some info
  | none => .ok none

section Spend

variable (E : Env) (s : State) (c : Call)

def looksLikeCommitmentTree (info : AccountInfo) : Bool :=
  s.ownerOf E c info.key = .program ∧ (s.treeAt info.key).isSome

/-- A source tree is another tree than the active one. -/
def readSourceTree (tree : AccountInfo) (i : Option ℕ) :
    Except ProgramError (Option AccountInfo) := do
  let info ← c.account? i
  match info with
  | some a => do
    require (a.key ≠ tree.key ∧ looksLikeCommitmentTree E s c a) UTXOpiaError.InvalidPDA
    return some a
  | none => return none

/-- Whether the root was ever a root of the frozen tree. -/
def validateFrozenTree (tree pool : AccountInfo) (activeIndex : ℕ) (expectedRoot : Hash) :
    Except ProgramError Bool := do
  validateProgramOwner E s c tree
  let t ← readTree s tree
  require (t.treeIndex < activeIndex) .InvalidSeeds
  validatePoolStatePda E s c pool
  require (tree.key = .commitmentTree pool.key t.treeIndex) .InvalidSeeds
  return t.isValidRoot expectedRoot

/-- The index of the tree that has the proof's root. -/
def resolveSourceTree (pool tree : AccountInfo) (activeIndex : ℕ)
    (sourceTree : Option AccountInfo) (root : Hash) : Except ProgramError ℕ := do
  let t ← readTree s tree
  if t.isValidRoot root then return activeIndex
  else match sourceTree with
    | some src => do
      let frozenOk ← validateFrozenTree E s c src pool activeIndex root
      require frozenOk UTXOpiaError.InvalidMerkleProof
      let t ← readTree s src
      return t.treeIndex
    | none => throw (.Custom .InvalidMerkleProof)

def verifyVkMerkleAndProof (pool vkRegistry tree : AccountInfo) (activeIndex : ℕ)
    (sourceTree : Option AccountInfo) (h : JoinSplitHeader) (pre : JoinSplitPrefix) :
    Except ProgramError ℕ := do
  let sourceTreeIndex ← resolveSourceTree E s c pool tree activeIndex sourceTree pre.merkleRoot
  let publicInputs := pre.merkleRoot :: pre.boundParamsHash :: (pre.nullifiers ++ pre.commitmentsOut)
  require (vkRegistry.key = .vkRegistry h.nInputs h.nOutputs) UTXOpiaError.InvalidVkRegistry
  let vk ← orElse (s.vkRegistryAt vkRegistry.key) .InvalidAccountData
  require (vk.nInputs = h.nInputs ∧ vk.nOutputs = h.nOutputs) UTXOpiaError.InvalidVkRegistry
  require (vk.ic.length = 2 + vk.nInputs + vk.nOutputs + 1) .InvalidAccountData
  require (E.groth16 pre.proofBytes publicInputs vk.deltaG2 vk.ic) UTXOpiaError.ZkVerificationFailed
  return sourceTreeIndex

end Spend

/-! ### Burning nullifiers -/

/-- The index in the seeds of a nullifier. -/
def nullifierSeed (sourceTreeIndex : ℕ) : Option ℕ :=
  if sourceTreeIndex = 0 then none else some sourceTreeIndex

def createNullifier (E : Env) (pool : Addr) (sourceTreeIndex : ℕ) (s : State)
    (item : AccountInfo × Hash) : Except ProgramError State := do
  let (info, nullifier) := item
  validateAccountWritable info
  let seed := nullifierSeed sourceTreeIndex
  require (info.key = .nullifier pool seed nullifier) .InvalidSeeds
  let acc := s.nullifiers.get (pool, seed, nullifier)
  require (acc.live? = none) UTXOpiaError.NullifierAlreadyUsed
  let acc ← createOrClaim acc (E.minimumBalance 1) .Cpi
  return State.note
    { s with nullifiers := s.nullifiers.set (pool, seed, nullifier) (rewrite acc ⟨⟩) }
    [.spent pool sourceTreeIndex nullifier]

inductive NullifierAccounting where
  | ApplyNow
  | DeferToQueue
  deriving DecidableEq, Repr

def createNullifierRecords (E : Env) (s : State) (c : Call) (startIndex : ℕ)
    (nullifiers : List Hash) (pool : AccountInfo) (sourceTreeIndex : ℕ)
    (accounting : NullifierAccounting) : Except ProgramError State := do
  require (startIndex + nullifiers.length ≤ c.accounts.length) .NotEnoughAccountKeys
  let s ← loop (createNullifier E pool.key sourceTreeIndex) s
    ((c.accounts.drop startIndex).zip nullifiers)
  match accounting with
  | .ApplyNow => do
    let p ← readPool s pool
    return s.putPool (p.addNullifiers nullifiers.length) pool.key
  | .DeferToQueue => return s

/-! ### Leaves -/

/-- The journal entries of leaves placed one after the other. -/
def insertedEvents (pool : Addr) (tree first : ℕ) (commitments : List Hash) : List Event :=
  commitments.mapIdx fun i h => .inserted pool tree (first + i) h

/-- Append a batch, possibly empty, to the active tree. -/
def insertOutputs (E : Env) (s : State) (pool tree : AccountInfo) (activeIndex : ℕ)
    (commitments : List Hash) : Except ProgramError State := do
  let t ← readTree s tree
  if commitments = [] then return s
  else do
    let (t', first) ← t.insertLeavesBatch E commitments
    return (s.putTree t' tree.key).note (insertedEvents pool.key activeIndex first commitments)

/-- Append one leaf to the active tree. -/
def insertOne (E : Env) (s : State) (pool tree : AccountInfo) (activeIndex : ℕ)
    (commitment : Hash) : Except ProgramError State := do
  let t ← readTree s tree
  let (t', first) ← t.insertLeaf E commitment
  return (s.putTree t' tree.key).note [.inserted pool.key activeIndex first commitment]

end Utxopia.Pool
