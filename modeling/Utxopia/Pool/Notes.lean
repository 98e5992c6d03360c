import Utxopia.Pool.Joinsplit

/-!
Private transfers and the trees their notes go to.

A transfer burns its inputs and either appends its outputs to the active tree at once or
leaves each in a queued leaf. Anyone may later merge queued leaves into the active tree, and
anyone may open the next tree when the active one is full.
-/

namespace Utxopia.Pool

open Utxopia.ByteString Utxopia.Check Utxopia.Runtime

section Transact

variable (E : Env) (s : State) (c : Call)

/-- What a transfer has established before it writes anything. -/
structure TransactPlan where
  header : JoinSplitHeader
  pre : JoinSplitPrefix
  pool : AccountInfo
  tree : AccountInfo
  payer : AccountInfo
  activeIndex : ℕ
  sourceTreeIndex : ℕ
  queuedLeavesStart : Option ℕ
  consumed : Option Consumption

def TransactPlan.queued (plan : TransactPlan) : Bool := plan.header.has Jsflags.QUEUED_LEAVES

/-- A queued transfer must not lock the pool and the tree, an inline one writes them. -/
def checkTransactWritable (h : JoinSplitHeader) (pool tree : AccountInfo) :
    Except ProgramError Unit :=
  if h.has Jsflags.QUEUED_LEAVES then
    require (¬ (pool.isWritable ∨ tree.isWritable)) UTXOpiaError.InvalidPDA
  else do
    validateAccountWritable pool
    validateAccountWritable tree

/-- The pool may spend, the tree is its active one, and the proof binds this call. -/
def checkTransactPool (h : JoinSplitHeader) (pre : JoinSplitPrefix) (pool tree : AccountInfo) :
    Except ProgramError PoolState := do
  validateProgramOwner E s c pool
  validateProgramOwner E s c tree
  checkTransactWritable h pool tree
  let p ← readPool s pool
  require (¬ p.paused) UTXOpiaError.PoolPaused
  require (¬ (p.permissioned ∧ p.auditorFrozen)) UTXOpiaError.AuditorFrozen
  validateActiveTreePda E s c tree pool p.activeTreeIndex
  let expected ← bindBoundParamsToDomain E
    (computeBoundParamsHashPrivateTransfer E (stealthDataHash E c pre)) pool.key p.permissioned
  require (pre.boundParamsHash = expected) UTXOpiaError.InvalidBoundParams
  return p

/-- The relayer pays if there is one, else the user. -/
def transactPayer (relayer : Option AccountInfo) (user : AccountInfo) :
    Except ProgramError AccountInfo := do
  let payer := relayer.getD user
  validateSigner payer
  return payer

/-- A permissioned pool wants the approval consumed. -/
def authorizeTransact (p : PoolState) (pre : JoinSplitPrefix) (pool user : AccountInfo)
    (approval policyProgram : Option AccountInfo) : Except ProgramError (Option Consumption) := do
  let _ ← resolveSpendPath p.permissioned approval.isSome policyProgram.isSome transactCode
  match approval, policyProgram with
  | some a, some b => do
    let consumed ←
      consumePolicyApproval E s c a b pool user.key p.auditor transactCode [nullifiersConcat pre]
    return some consumed
  | _, _ => return none

def notRagequit : PolicyTail → Bool
  | .Ragequit _ => false
  | _ => true

def planTransact : Except ProgramError TransactPlan := do
  let h ← parseHeader c.data
  validatePublicOutputs h true
  validateAccountCount c (5 + h.nInputs) h
  let pre ← parsePrefix E c h h.nOutputs
  require (c.data.length = pre.stealthDataEnd) .InvalidInstructionData
  let pool ← c.account 0
  let tree ← c.account 1
  let vkRegistry ← c.account 2
  let user ← c.account 3
  let systemProgram ← c.account 4
  validateProgramOwner E s c vkRegistry
  validateSystemProgram systemProgram
  let p ← checkTransactPool E s c h pre pool tree
  let policyTail ← PolicyTail.fromFlags h p.permissioned 0
  require (notRagequit policyTail) .InvalidInstructionData
  let tail ← resolveJoinsplitTail h (5 + h.nInputs) policyTail h.nOutputs c.accounts.length
  let approval ← c.account? (tail.verifiedPair.map Prod.fst)
  let policyProgram ← c.account? (tail.verifiedPair.map Prod.snd)
  let sourceTree ← readSourceTree E s c tree tail.sourceTree
  let relayer ← c.account? tail.relayer
  let payer ← transactPayer relayer user
  let consumed ← authorizeTransact E s c p pre pool user approval policyProgram
  let sourceTreeIndex ←
    verifyVkMerkleAndProof E s c pool vkRegistry tree p.activeTreeIndex sourceTree h pre
  return ⟨h, pre, pool, tree, payer, p.activeTreeIndex, sourceTreeIndex, tail.queuedLeavesStart,
    consumed⟩

/-- The leaf of output `i`; the first carries the nullifiers to be counted. -/
def TransactPlan.leaf (plan : TransactPlan) (i : ℕ) (commitment : Hash) : QueuedLeaf :=
  let off := plan.pre.stealthDataStart + i * stealthDataPerOutput
  { treeIndex := plan.activeIndex
    commitment := commitment
    payer := plan.payer.key
    ephemeralPub := slice 32 c.data off
    encryptedAmount := slice 8 c.data (off + 32)
    encryptedTokenId := slice 32 c.data (off + 40)
    nullifierDebt := if i = 0 then plan.header.nInputs else 0 }

/-- Leave one output in its queued leaf. -/
def queueOutput (plan : TransactPlan) (s : State) (item : ℕ × AccountInfo × Hash) :
    Except ProgramError State := do
  let (i, info, commitment) := item
  validateAccountWritable info
  require (info.key = .queuedLeaf plan.pool.key commitment) .InvalidSeeds
  let acc ← createOrClaim (s.queuedLeaves.get (plan.pool.key, commitment))
    (E.minimumBalance 144) .Cpi
  return State.note
    { s with queuedLeaves :=
        s.queuedLeaves.set (plan.pool.key, commitment) (rewrite acc (plan.leaf c i commitment)) }
    [.queued plan.pool.key commitment]

/-- The outputs with their places and the accounts they are to be queued in. -/
def queueItems (accounts : List AccountInfo) (start : ℕ) (commitments : List Hash) :
    List (ℕ × AccountInfo × Hash) :=
  (List.range commitments.length).zip ((accounts.drop start).zip commitments)

def processTransact : Except ProgramError State := do
  let plan ← planTransact E s c
  let accounting := if plan.queued then NullifierAccounting.DeferToQueue else .ApplyNow
  let s ← createNullifierRecords E s c 5 plan.pre.nullifiers plan.pool plan.sourceTreeIndex
    accounting
  if plan.queued then do
    let start ← orElse plan.queuedLeavesStart .NotEnoughAccountKeys
    loop (queueOutput E c plan) s (queueItems c.accounts start plan.pre.commitmentsOut)
  else insertOutputs E s plan.pool plan.tree plan.activeIndex plan.pre.commitmentsOut

end Transact

/-! ### Merging queued leaves -/

section Merge

variable (E : Env) (c : Call)

def maxMergeLeaves : ℕ := 24

/-- The accounts after the fixed three: a leaf and its rent recipient in turn. -/
def leafPairs : List AccountInfo → List (AccountInfo × AccountInfo)
  | leaf :: recipient :: rest => (leaf, recipient) :: leafPairs rest
  | _ => []

/-- What the first pass over the leaves carries: their addresses, their commitments and the
nullifiers they still owe. -/
structure Gathered where
  seen : List Addr
  commitments : List Hash
  nullifierDebt : ℕ

def gatherLeaf (s : State) (pool : Addr) (activeTreeIndex : ℕ) (acc : Gathered)
    (item : AccountInfo × AccountInfo) : Except ProgramError Gathered := do
  let (info, recipient) := item
  validateProgramOwner E s c info
  validateAccountWritable info
  validateAccountWritable recipient
  let leaf ← orElse (s.queuedLeafAt info.key) .InvalidAccountData
  require (leaf.treeIndex = activeTreeIndex) UTXOpiaError.InvalidPDA
  require (info.key = .queuedLeaf pool leaf.commitment) .InvalidSeeds
  require (recipient.key = leaf.payer) UTXOpiaError.InvalidPDA
  require (info.key ∉ acc.seen) UTXOpiaError.NullifierAlreadyUsed
  return ⟨acc.seen ++ [info.key], acc.commitments ++ [leaf.commitment],
    acc.nullifierDebt + leaf.nullifierDebt⟩

/-- Close a leaf and return its rent. -/
def closeLeaf (s : State) (item : AccountInfo × AccountInfo) : State :=
  match item.1.key with
  | .queuedLeaf pool h =>
    let acc := s.queuedLeaves.get (pool, h)
    State.fund { s with queuedLeaves := s.queuedLeaves.set (pool, h) (close acc) }
      acc.lamports item.2.key
  | _ => s

/-- The journal entries of a merged batch. -/
def mergedEvents (pool : Addr) (tree first : ℕ) (commitments : List Hash) : List Event :=
  commitments.mapIdx fun i h => .merged pool tree (first + i) h

def processMergeQueuedLeaves (s : State) : Except ProgramError State := do
  c.atLeast 5
  require ((c.accounts.length - 3) % 2 = 0) .NotEnoughAccountKeys
  require ((c.accounts.length - 3) / 2 ≤ maxMergeLeaves) UTXOpiaError.ExcessiveReservedInputs
  let caller ← c.account 0
  let pool ← c.account 1
  let tree ← c.account 2
  validateSigner caller
  validateProgramOwner E s c pool
  validateProgramOwner E s c tree
  validateAccountWritable pool
  validateAccountWritable tree
  let p ← readPool s pool
  require (¬ p.paused) UTXOpiaError.PoolPaused
  validateActiveTreePda E s c tree pool p.activeTreeIndex
  let pairs := leafPairs (c.accounts.drop 3)
  let got ← loop (gatherLeaf E c s pool.key p.activeTreeIndex) ⟨[], [], 0⟩ pairs
  let t ← readTree s tree
  let (t', first) ← t.insertLeavesBatch E got.commitments
  let s := (s.putTree t' tree.key).note
    (insertedEvents pool.key p.activeTreeIndex first got.commitments ++
      mergedEvents pool.key p.activeTreeIndex first got.commitments)
  let s := if got.nullifierDebt > 0 then s.putPool (p.addNullifiers got.nullifierDebt) pool.key
    else s
  return pairs.foldl closeLeaf s

end Merge

/-! ### The next tree -/

/-- `create_pda_account` and `CommitmentTree::init` at an index. -/
def createTree (E : Env) (s : State) (pool : Addr) (index : ℕ) : Except ProgramError State := do
  let acc ← createOrClaim (s.trees.get (pool, index)) (E.minimumBalance 8816) .Cpi
  return { s with trees := s.trees.set (pool, index) (rewrite acc (.init index)) }

def processRotateTree (E : Env) (s : State) (c : Call) : Except ProgramError State := do
  c.atLeast 5
  let pool ← c.account 0
  let currentTree ← c.account 1
  let newTree ← c.account 2
  let payer ← c.account 3
  let systemProgram ← c.account 4
  validateSigner payer
  validateProgramOwner E s c pool
  validateProgramOwner E s c currentTree
  validateAccountWritable pool
  validateAccountWritable newTree
  validateSystemProgram systemProgram
  validatePoolStatePda E s c pool
  let p ← readPool s pool
  require (currentTree.key = .commitmentTree pool.key p.activeTreeIndex) .InvalidSeeds
  let t ← readTree s currentTree
  require (¬ t.nextIndex < maxLeaves) .InvalidInstructionData
  -- `wrapping_add`
  let newIndex := (p.activeTreeIndex + 1) % 2 ^ 32
  require (newTree.key = .commitmentTree pool.key newIndex) .InvalidSeeds
  let s ← createTree E s pool.key newIndex
  return s.putPool { p with activeTreeIndex := newIndex } pool.key

end Utxopia.Pool
