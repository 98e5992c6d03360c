import Utxopia.LightClient.Accounts
import Utxopia.LightClient.Difficulty

/-!
Extending the chain by a batch of headers.

Every header of the batch is checked against the one before it and stored. Only when the
batch ends with more work than the tip is the height index rewritten and the tip moved.
-/

namespace Utxopia.LightClient.Extend

open Utxopia.ByteString Utxopia.Check Utxopia.Runtime Utxopia.LightClient.Accounts
open Utxopia.LightClient.U256 Utxopia.LightClient.Pow Utxopia.LightClient.Difficulty

abbrev RawHeader := Bytes 80

def RawHeader.prevBlockHash (raw : RawHeader) : Hash := slice 32 raw.toList 4
def RawHeader.timestamp (raw : RawHeader) : ℕ := u32At raw.toList 68
def RawHeader.bits (raw : RawHeader) : ℕ := u32At raw.toList 72

def blockHashOf (E : Env) (raw : RawHeader) : Hash := E.doubleSha256 raw.toList

/-- `num_headers`, the first byte. -/
def numHeaders (data : List UInt8) : ℕ := (data.getD 0 0).toNat

/-- The headers of the batch, 80 bytes each after the count. -/
def rawHeaders (data : List UInt8) : List RawHeader :=
  (List.range (numHeaders data)).map fun i => slice 80 data (1 + i * 80)

/-- The optional byte after the headers. -/
def numAncestors (data : List UInt8) : ℕ := (data.getD (1 + numHeaders data * 80) 0).toNat

/-- The position of the least element from `i` on. -/
def leastIndex (s : List ℕ) (i : ℕ) : ℕ :=
  (List.range' (i + 1) (s.length - (i + 1))).foldl
    (fun m j => if s.getD j 0 < s.getD m 0 then j else m) i

def swap (s : List ℕ) (i m : ℕ) : List ℕ := (s.set i (s.getD m 0)).set m (s.getD i 0)

def medianTimestamp (window : List ℕ) : ℕ :=
  let sorted := (List.range window.length).foldl (fun s i => swap s i (leastIndex s i)) window
  sorted.getD (window.length / 2) 0

example : medianTimestamp [10, 1, 9, 2, 8, 3, 7, 4, 6, 5, 11] = 6 := by decide

/-- The last eleven timestamps, oldest first. -/
def slide (window : List ℕ) (timestamp : ℕ) : List ℕ :=
  if window.length < 11 then window ++ [timestamp] else window.drop 1 ++ [timestamp]

def maxFutureDriftSecs : ℤ := 2 * 60 * 60

/-- What the batch carries from one header to the next. -/
structure Running where
  prevHash : Hash
  chainwork : Bytes 32
  height : ℕ
  expectedBits : ℕ
  epochStart : ℕ
  parentTimestamp : ℕ
  window : List ℕ

/-- Follow the parent's predecessors: the hash expected next, the last one seen and the
timestamps, oldest first. -/
def readAncestor (s : State) (acc : Hash × Hash × List ℕ) (info : AccountInfo) :
    Except ProgramError (Hash × Hash × List ℕ) := do
  require (s.ownerOf info.key = .program) .IllegalOwner
  let hdr ← orElse (s.headerAt info.key) .InvalidAccountData
  require (hdr.blockHash = acc.1) .InvalidArgument
  require (info.key = .block hdr.blockHash) .InvalidSeeds
  return (hdr.prevBlockHash, hdr.blockHash, hdr.timestamp :: acc.2.2)

/-- The median-time-past window of the parent; empty where timestamps are not checked. -/
def mtpWindow (s : State) (lc : BitcoinLightClient) (parent : BlockHeader)
    (ancestors : List AccountInfo) : Except ProgramError (List ℕ) :=
  if enforced lc.network then do
    let acc ← loop (readAncestor s) (parent.prevBlockHash, parent.blockHash, []) ancestors
    require (¬ (ancestors.length < 10 ∧ acc.2.1 ≠ lc.genesisHash)) .InvalidArgument
    return acc.2.2 ++ [parent.timestamp]
  else .ok []

def startRunning (lc : BitcoinLightClient) (parent : BlockHeader) (window : List ℕ) : Running where
  prevHash := parent.blockHash
  chainwork := parent.chainwork
  height := parent.height
  expectedBits := if parent.epochBits ≠ 0 then parent.epochBits else lc.expectedBits
  epochStart := if parent.epochStartTime ≠ 0 then parent.epochStartTime else lc.epochStartTime
  parentTimestamp := parent.timestamp
  window := window

/-- The header opens a new difficulty epoch. -/
def opensEpoch (network height : ℕ) : Prop := enforced network ∧ height % blocksPerEpoch = 0

instance (network height : ℕ) : Decidable (opensEpoch network height) := by
  unfold opensEpoch; infer_instance

def Running.next (E : Env) (lc : BitcoinLightClient) (r : Running) (raw : RawHeader) : Running where
  prevHash := blockHashOf E raw
  chainwork := addChainwork r.chainwork (calculateChainwork raw.bits)
  height := r.height + 1
  expectedBits := if opensEpoch lc.network (r.height + 1) then raw.bits else r.expectedBits
  epochStart := if opensEpoch lc.network (r.height + 1) then raw.timestamp else r.epochStart
  parentTimestamp := raw.timestamp
  window := if enforced lc.network then slide r.window raw.timestamp else r.window

/-- The header as it is stored, `r` being the batch's state after it. -/
def storedHeader (lc : BitcoinLightClient) (r : Running) (raw : RawHeader) (now : ℤ) :
    BlockHeader where
  version := slice 4 raw.toList 0
  prevBlockHash := raw.prevBlockHash
  merkleRoot := slice 32 raw.toList 36
  timestamp := raw.timestamp
  bits := raw.bits
  nonce := slice 4 raw.toList 76
  blockHash := r.prevHash
  chainwork := r.chainwork
  height := r.height
  submittedAt := now
  epochBits := r.expectedBits
  epochStartTime := r.epochStart
  reinitEpoch := lc.reinitEpoch

/-- The consensus checks on one header. -/
def checkHeader (E : Env) (lc : BitcoinLightClient) (now : ℤ) (r : Running) (raw : RawHeader) :
    Except ProgramError Unit := do
  require ((raw.timestamp : ℤ) ≤ now + maxFutureDriftSecs) .InvalidArgument
  require (raw.prevBlockHash = r.prevHash) .InvalidArgument
  require (enforced lc.network → medianTimestamp r.window < raw.timestamp) .InvalidArgument
  require (r.height + 1 < 2 ^ 64) .ArithmeticOverflow
  require (hashMeetsTarget (blockHashOf E raw) (targetFromBits raw.bits)) .InvalidArgument
  require (enforced lc.network → r.expectedBits ≠ 0) .InvalidArgument
  require (enforced lc.network → raw.bits = requiredBitsForNextBlock
    (lc.network = networkTestnet4) (r.height + 1) raw.timestamp r.parentTimestamp
    r.expectedBits r.epochStart) .InvalidArgument

/-- Write a record at a derived address, creating the account unless the record is there. -/
def claimFor {α : Type} (acc : Account α) (lamports : ℕ) : Except ProgramError (Account α) := do
  require (acc.data.isEmpty = false → acc.owner = .program) .IllegalOwner
  match acc.data with
  | .live _ => return acc
  | _ => createOrClaim acc lamports .SystemProgram

/-- Check one header and store it under its hash. -/
def acceptHeader (E : Env) (lc : BitcoinLightClient) (now : ℤ) (acc : State × Running)
    (item : RawHeader × AccountInfo) : Except ProgramError (State × Running) := do
  let (s, r) := acc
  let (raw, info) := item
  checkHeader E lc now r raw
  let blockHash := blockHashOf E raw
  require (info.key = .block blockHash) .InvalidSeeds
  let bh ← claimFor (s.block blockHash) (E.minimumBalance blockHeaderLen)
  let r' := r.next E lc raw
  return (s.setBlock blockHash { bh with data := .live (storedHeader lc r' raw now) }, r')

/-- Point the height after `acc.2` at the next header of the batch. -/
def indexHeader (E : Env) (acc : State × ℕ) (item : RawHeader × AccountInfo) :
    Except ProgramError (State × ℕ) := do
  let (s, height) := acc
  let (raw, info) := item
  require (height + 1 < 2 ^ 64) .ArithmeticOverflow
  require (info.key = .heightIndex (height + 1)) .InvalidSeeds
  let hi ← claimFor (s.heightIndex (height + 1)) (E.minimumBalance heightIndexLen)
  let entry : HeightIndex := ⟨blockHashOf E raw, height + 1⟩
  return (s.setHeightIndex (height + 1) { hi with data := .live entry }, height + 1)

/-- Count the headers of a batch that does not move the tip. -/
def countHeaders (lc : BitcoinLightClient) (n : ℕ) (now : ℤ) : BitcoinLightClient :=
  { lc with headerCount := lc.headerCount + n, lastUpdate := now }

/-- Move the tip to the end of the batch; the finalized height never goes back. -/
def promote (lc : BitcoinLightClient) (r : Running) (n : ℕ) (now : ℤ) : BitcoinLightClient :=
  { lc with
    tipHash := r.prevHash
    tipHeight := r.height
    headerCount := lc.headerCount + n
    totalChainwork := r.chainwork
    finalizedHeight := max lc.finalizedHeight (r.height - (requiredConfirmations - 1))
    expectedBits := if enforced lc.network then r.expectedBits else lc.expectedBits
    epochStartTime := if enforced lc.network then r.epochStart else lc.epochStartTime
    lastUpdate := now }

def outweighs (a b : Bytes 32) : Bool := u256GtLimbs (u256FromLeBytes a) (u256FromLeBytes b)

/-- The parent of the batch: a header of this chain instance that the index names at its
height, and that the first header links to. -/
def readParent (s : State) (lcInfo parentInfo parentIndexInfo : AccountInfo)
    (firstPrev : Hash) : Except ProgramError (BitcoinLightClient × BlockHeader) := do
  require (s.ownerOf lcInfo.key = .program) .IllegalOwner
  require (s.ownerOf parentInfo.key = .program) .IllegalOwner
  let parent ← orElse (s.headerAt parentInfo.key) .InvalidAccountData
  let lc ← orElse (s.lightClientAt lcInfo.key) .InvalidAccountData
  require (parent.reinitEpoch = lc.reinitEpoch ∨
    (lc.network = networkRegtest ∧ parent.reinitEpoch = 0)) .InvalidAccountData
  require (s.ownerOf parentIndexInfo.key = .program) .IllegalOwner
  require (parentIndexInfo.key = .heightIndex parent.height) .InvalidSeeds
  let parentHi ← orElse (s.heightIndexAt parentIndexInfo.key) .InvalidAccountData
  require (parentHi.blockHash = parent.blockHash) .InvalidAccountData
  require (parentInfo.key = .block parent.blockHash) .InvalidSeeds
  require (firstPrev = parent.blockHash) .InvalidArgument
  return (lc, parent)

/-- Rewrite the index from the parent up and move the tip. -/
def makeCanonical (E : Env) (s : State) (lc : BitcoinLightClient) (parent : BlockHeader)
    (r : Running) (items : List (RawHeader × AccountInfo)) (now : ℤ) :
    Except ProgramError State := do
  require (lc.finalizedHeight ≤ parent.height) .InvalidArgument
  let acc ← loop (indexHeader E) (s, parent.height) items
  require (lc.headerCount + items.length < 2 ^ 64) .ArithmeticOverflow
  let s := acc.1
  return s.setLightClient
    { s.lightClient with data := .live (promote lc r items.length now) }

def processExtendBlockchain (E : Env) (s : State) (accounts : List AccountInfo)
    (data : List UInt8) (now : ℤ) : Except ProgramError State := do
  require (data ≠ []) .InvalidInstructionData
  let n := numHeaders data
  require (n ≠ 0 ∧ n ≤ maxBatchSize) .InvalidInstructionData
  require (data.length ≥ 1 + n * 80) .InvalidInstructionData
  require (numAncestors data ≤ 10) .InvalidInstructionData
  require (accounts.length ≥ 4 + 2 * n + numAncestors data + 1) .NotEnoughAccountKeys
  match accounts with
  | lcInfo :: submitter :: _systemProgram :: parentInfo :: rest => do
    require submitter.isSigner .MissingRequiredSignature
    let raws := rawHeaders data
    let headerInfos := rest.take n
    let indexInfos := (rest.drop n).take n
    let ancestors := (rest.drop (2 * n)).take (numAncestors data)
    let parentIndexInfo ← orElse rest[2 * n + numAncestors data]? .NotEnoughAccountKeys
    let (lc, parent) ← readParent s lcInfo parentInfo parentIndexInfo (slice 32 data (1 + 4))
    let window ← mtpWindow s lc parent ancestors
    let (s, r) ← loop (acceptHeader E lc now) (s, startRunning lc parent window)
      (raws.zip headerInfos)
    if outweighs r.chainwork lc.totalChainwork then
      makeCanonical E s lc parent r (raws.zip indexInfos) now
    else do
      require (lc.headerCount + n < 2 ^ 64) .ArithmeticOverflow
      return s.setLightClient { s.lightClient with data := .live (countHeaders lc n now) }
  | _ => throw .NotEnoughAccountKeys

/-! ### What the steps leave -/

section Spec

variable {E : Env} {s s' : State} {lc : BitcoinLightClient} {r r' : Running} {now : ℤ}

@[simp] lemma next_prevHash (raw : RawHeader) : (r.next E lc raw).prevHash = blockHashOf E raw := rfl
@[simp] lemma next_height (raw : RawHeader) : (r.next E lc raw).height = r.height + 1 := rfl
@[simp] lemma next_chainwork (raw : RawHeader) :
    (r.next E lc raw).chainwork = addChainwork r.chainwork (calculateChainwork raw.bits) := rfl
@[simp] lemma storedHeader_blockHash (raw : RawHeader) :
    (storedHeader lc r raw now).blockHash = r.prevHash := rfl
@[simp] lemma storedHeader_height (raw : RawHeader) :
    (storedHeader lc r raw now).height = r.height := rfl
@[simp] lemma storedHeader_prevBlockHash (raw : RawHeader) :
    (storedHeader lc r raw now).prevBlockHash = raw.prevBlockHash := rfl

lemma checkHeader_ok {raw : RawHeader} {u : Unit} (h : checkHeader E lc now r raw = .ok u) :
    raw.prevBlockHash = r.prevHash ∧
      hashMeetsTarget (blockHashOf E raw) (targetFromBits raw.bits) = true ∧
      (enforced lc.network → medianTimestamp r.window < raw.timestamp ∧ r.expectedBits ≠ 0 ∧
        raw.bits = requiredBitsForNextBlock (lc.network = networkTestnet4) (r.height + 1)
          raw.timestamp r.parentTimestamp r.expectedBits r.epochStart) ∧
      (raw.timestamp : ℤ) ≤ now + maxFutureDriftSecs ∧ r.height + 1 < 2 ^ 64 := by
  simp only [checkHeader, bind_eq_ok, require_eq_ok, exists_const] at h
  obtain ⟨hdrift, hprev, hmtp, hheight, htarget, hseeded, hbits⟩ := h
  exact ⟨hprev, htarget, fun he => ⟨hmtp he, hseeded he, hbits he⟩, hdrift, hheight⟩

/-- One header: checked, and stored under its hash; nothing else changes. -/
lemma acceptHeader_ok {item : RawHeader × AccountInfo}
    (h : acceptHeader E lc now (s, r) item = .ok (s', r')) :
    checkHeader E lc now r item.1 = .ok () ∧ r' = r.next E lc item.1 ∧
      s'.header? = Function.update s.header? (blockHashOf E item.1)
        (some (storedHeader lc r' item.1 now)) ∧
      s'.index? = s.index? ∧ s'.lc? = s.lc? ∧ s'.verified? = s.verified? := by
  obtain ⟨raw, info⟩ := item
  simp only [acceptHeader, bind_eq_ok, require_eq_ok, exists_const, pure_eq_ok,
    Prod.mk.injEq] at h
  obtain ⟨_, hcheck, -, bh, -, rfl, rfl⟩ := h
  exact ⟨hcheck, rfl, State.header?_setBlock .., rfl, rfl, rfl⟩

/-- One index entry: written for the next height; nothing else changes. -/
lemma indexHeader_ok {height height' : ℕ} {item : RawHeader × AccountInfo}
    (h : indexHeader E (s, height) item = .ok (s', height')) :
    height' = height + 1 ∧
      s'.index? = Function.update s.index? (height + 1)
        (some ⟨blockHashOf E item.1, height + 1⟩) ∧
      s'.header? = s.header? ∧ s'.lc? = s.lc? ∧ s'.verified? = s.verified? := by
  obtain ⟨raw, info⟩ := item
  simp only [indexHeader, bind_eq_ok, require_eq_ok, exists_const, pure_eq_ok,
    Prod.mk.injEq] at h
  obtain ⟨-, -, hi, -, rfl, rfl⟩ := h
  exact ⟨rfl, State.index?_setHeightIndex .., rfl, rfl, rfl⟩

lemma readParent_ok {lcInfo parentInfo parentIndexInfo : AccountInfo} {firstPrev : Hash}
    {parent : BlockHeader}
    (h : readParent s lcInfo parentInfo parentIndexInfo firstPrev = .ok (lc, parent)) :
    s.lc? = some lc ∧ s.header? parent.blockHash = some parent ∧
      (∃ hi, s.index? parent.height = some hi ∧ hi.blockHash = parent.blockHash) ∧
      (parent.reinitEpoch = lc.reinitEpoch ∨
        (lc.network = networkRegtest ∧ parent.reinitEpoch = 0)) ∧
      firstPrev = parent.blockHash ∧ parentInfo.key = .block parent.blockHash := by
  simp only [readParent, bind_eq_ok, require_eq_ok, orElse_eq_ok, exists_const, pure_eq_ok,
    Prod.mk.injEq] at h
  obtain ⟨-, -, p, hp, l, hl, hepoch, -, hikey, hi, hhi, hhash, hpkey, hfirst, rfl, rfl⟩ := h
  rw [hpkey] at hp
  rw [hikey] at hhi
  exact ⟨s.lightClientAt_eq_some hl, hp, ⟨hi, hhi, hhash⟩, hepoch, hfirst, hpkey⟩

/-- **Extend, taken apart**: a parent the index names, every header accepted in turn, and
then either the index rewritten and the tip moved, or the headers only counted. -/
theorem processExtendBlockchain_ok {accounts : List AccountInfo} {data : List UInt8}
    (h : processExtendBlockchain E s accounts data now = .ok s') :
    ∃ (lc : BitcoinLightClient) (parent : BlockHeader) (window : List ℕ)
      (items indexItems : List (RawHeader × AccountInfo)) (s₁ : State) (r : Running),
      s.lc? = some lc ∧ s.header? parent.blockHash = some parent ∧
      (∃ hi, s.index? parent.height = some hi ∧ hi.blockHash = parent.blockHash) ∧
      (parent.reinitEpoch = lc.reinitEpoch ∨
        (lc.network = networkRegtest ∧ parent.reinitEpoch = 0)) ∧
      (∃ info, accounts[3]? = some info ∧ info.key = .block parent.blockHash) ∧
      items.map Prod.fst = rawHeaders data ∧ indexItems.map Prod.fst = rawHeaders data ∧
      rawHeaders data ≠ [] ∧
      loop (acceptHeader E lc now) (s, startRunning lc parent window) items = .ok (s₁, r) ∧
      ((outweighs r.chainwork lc.totalChainwork = true ∧
          makeCanonical E s₁ lc parent r indexItems now = .ok s') ∨
        (outweighs r.chainwork lc.totalChainwork = false ∧
          s' = s₁.setLightClient { s₁.lightClient with
            data := .live (countHeaders lc (numHeaders data) now) })) := by
  simp only [processExtendBlockchain, bind_eq_ok, require_eq_ok, exists_const] at h
  obtain ⟨-, hn, -, -, hlen, h⟩ := h
  split at h
  · rename_i lcInfo submitter sys parentInfo rest
    simp only [bind_eq_ok, require_eq_ok, orElse_eq_ok, exists_const, Prod.exists] at h
    obtain ⟨-, hiInfo, -, lc, parent, hpar, window, -, s₁, r, hloop, h⟩ := h
    obtain ⟨hlc, hparent, hindex, hepoch, -, hkey⟩ := readParent_ok hpar
    have hrest : 2 * numHeaders data ≤ rest.length := by
      simp only [List.length_cons] at hlen
      omega
    have hraws : (rawHeaders data).length = numHeaders data := by simp [rawHeaders]
    refine ⟨lc, parent, window, (rawHeaders data).zip (rest.take (numHeaders data)),
      (rawHeaders data).zip ((rest.drop (numHeaders data)).take (numHeaders data)), s₁, r,
      hlc, hparent, hindex, hepoch, ⟨parentInfo, rfl, hkey⟩, ?_, ?_, ?_, hloop, ?_⟩
    · rw [List.map_fst_zip]
      simp only [List.length_take, hraws]
      omega
    · rw [List.map_fst_zip]
      simp only [List.length_take, List.length_drop, hraws]
      omega
    · intro h0
      rw [h0] at hraws
      exact hn.1 hraws.symm
    · split at h <;> rename_i hw
      · exact Or.inl ⟨hw, h⟩
      · simp only [bind_eq_ok, require_eq_ok, exists_const, pure_eq_ok] at h
        exact Or.inr ⟨by simpa using hw, h.2.symm⟩
  · simp [throw_ne_ok] at h

end Spec

end Utxopia.LightClient.Extend
