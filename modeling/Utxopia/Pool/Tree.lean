import Utxopia.Pool.Crypto

/-!
The commitment tree: an append-only Merkle tree of depth 16.

Only the right edge is stored: for every level the last left child, and the root. An append
climbs once from the new leaf. The last 256 roots are kept in a ring.
-/

namespace Utxopia.Pool

open Utxopia.ByteString Utxopia.Check

/-- A hash written as its digits, most significant first. -/
def hashOfNat (v : ℕ) : Hash := ofList 32 (toBe 32 v)

/-- `ZERO_HASHES`. -/
def zeroHashes : Vector Hash (treeDepth + 1) := #v[
  zeros 32,
  hashOfNat 0x2098f5fb9e239eab3ceac3f27b81e481dc3124d55ffed523a839ee8446b64864,
  hashOfNat 0x1069673dcdb12263df301a6ff584a7ec261a44cb9dc68df067a4774460b1f1e1,
  hashOfNat 0x18f43331537ee2af2e3d758d50f72106467c6eea50371dd528d57eb2b856d238,
  hashOfNat 0x07f9d837cb17b0d36320ffe93ba52345f1b728571a568265caac97559dbc952a,
  hashOfNat 0x2b94cf5e8746b3f5c9631f4c5df32907a699c58c94b2ad4d7b5cec1639183f55,
  hashOfNat 0x2dee93c5a666459646ea7d22cca9e1bcfed71e6951b953611d11dda32ea09d78,
  hashOfNat 0x078295e5a22b84e982cf601eb639597b8b0515a88cb5ac7fa8a4aabe3c87349d,
  hashOfNat 0x2fa5e5f18f6027a6501bec864564472a616b2e274a41211a444cbe3a99f3cc61,
  hashOfNat 0x0e884376d0d8fd21ecb780389e941f66e45e7acce3e228ab3e2156a614fcd747,
  hashOfNat 0x1b7201da72494f1e28717ad1a52eb469f95892f957713533de6175e5da190af2,
  hashOfNat 0x1f8d8822725e36385200c0b201249819a6e6e1e4650808b5bebc6bface7d7636,
  hashOfNat 0x2c5d82f66c914bafb9701589ba8cfcfb6162b0a12acf88a8d0879a0471b5f85a,
  hashOfNat 0x14c54148a0940bb820957f5adf3fa1134ef5c4aaa113f4646458f270e0bfbfd0,
  hashOfNat 0x190d33b12f986f961e10c0ee44d8b9af11be25588cad89d416118e4bf4ebe80c,
  hashOfNat 0x22f98aa9ce704152ac17354914ad73ed1167ae6596af510aa5b3649325e06c92,
  hashOfNat 0x2a7c7c9b6ce5880b9f6f228d72bf6a575a526f29c66ecceef8b753d38bba7323]

/-- `ZERO_HASHES[level]`. -/
def zeroHash (level : ℕ) : Hash := zeroHashes.toList.getD level (zeros 32)

def maxLeaves : ℕ := 2 ^ treeDepth

namespace CommitmentTree

/-- `init` followed by `set_tree_index`. -/
def init (treeIndex : ℕ) : CommitmentTree where
  currentRoot := zeroHash treeDepth
  nextIndex := 0
  frontier := Vector.replicate treeDepth (zeros 32)
  rootHistory := Vector.replicate rootHistorySize (zeros 32)
  rootHistoryIndex := 0
  treeIndex := treeIndex

def isValidRoot (t : CommitmentTree) (root : Hash) : Bool :=
  root ≠ zeros 32 ∧ (t.currentRoot = root ∨ root ∈ t.rootHistory.toList)

/-- The old root goes into the ring. -/
def updateRoot (t : CommitmentTree) (newRoot : Hash) : CommitmentTree :=
  { t with
    rootHistory := t.rootHistory.setIfInBounds (t.rootHistoryIndex % rootHistorySize) t.currentRoot
    rootHistoryIndex := (t.rootHistoryIndex + 1) % 2 ^ 32
    currentRoot := newRoot }

def hasCapacity (t : CommitmentTree) : Bool := t.nextIndex < maxLeaves

/-- What the climb carries: the frontier, the hash so far and its index at the level. -/
abbrev Climb := Vector Hash treeDepth × Hash × ℕ

/-- One level up: a left child waits in the frontier and is paired with the empty subtree, a
right child is paired with the left one that waits there. -/
def climbLevel (E : Env) (acc : Climb) (level : ℕ) : Except ProgramError Climb :=
  if acc.2.2 % 2 = 0 then do
    let parent ← poseidon2Hash E acc.2.1 (zeroHash level)
    return (acc.1.setIfInBounds level acc.2.1, parent, acc.2.2 / 2)
  else do
    let parent ← poseidon2Hash E (acc.1.toList.getD level (zeros 32)) acc.2.1
    return (acc.1, parent, acc.2.2 / 2)

/-- The new tree without its new root, the root and the index of the leaf. -/
def appendLeaf (E : Env) (t : CommitmentTree) (commitment : Hash) :
    Except ProgramError (CommitmentTree × Hash × ℕ) := do
  require (t.nextIndex < maxLeaves) UTXOpiaError.TreeFull
  let acc ← loop (climbLevel E) (t.frontier, commitment, t.nextIndex) (List.range treeDepth)
  return ({ t with frontier := acc.1, nextIndex := t.nextIndex + 1 }, acc.2.1, t.nextIndex)

def insertLeaf (E : Env) (t : CommitmentTree) (commitment : Hash) :
    Except ProgramError (CommitmentTree × ℕ) := do
  let (t, root, leafIndex) ← t.appendLeaf E commitment
  return (t.updateRoot root, leafIndex)

/-- Append and remember the root. -/
def appendNext (E : Env) (acc : CommitmentTree × Hash) (commitment : Hash) :
    Except ProgramError (CommitmentTree × Hash) := do
  let (t, root, _) ← acc.1.appendLeaf E commitment
  return (t, root)

/-- Only the last root of a batch becomes current. -/
def insertLeavesBatch (E : Env) (t : CommitmentTree) (commitments : List Hash) :
    Except ProgramError (CommitmentTree × ℕ) := do
  require (commitments ≠ []) UTXOpiaError.EmptyCommitmentBatch
  let acc ← loop (appendNext E) (t, t.currentRoot) commitments
  return (acc.1.updateRoot acc.2, t.nextIndex)

end CommitmentTree

end Utxopia.Pool
