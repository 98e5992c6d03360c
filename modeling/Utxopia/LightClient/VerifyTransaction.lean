import Utxopia.LightClient.Accounts

/-!
Recording that a final block contains a transaction.

The transaction's bytes hash to its id, and the id hashes up to the block's Merkle root along a
path that the caller supplies. The record carries the client's epoch.
-/

namespace Utxopia.LightClient.VerifyTransaction

open Utxopia.ByteString Utxopia.Check Utxopia.Runtime Utxopia.LightClient.Accounts

def maxPathLen : ℕ := 20

/-- The fixed part of the data and the proof behind it. -/
structure VerifyData where
  txid : Hash
  blockHash : Hash
  txSize : ℕ
  proofTxid : Hash
  pathBits : ℕ
  txIndex : ℕ
  siblings : List Hash

def parseProof (data : List UInt8) : Except ProgramError VerifyData := do
  require (68 ≤ data.length) .InvalidInstructionData
  let proof := data.drop 68
  require (41 ≤ proof.length) .InvalidInstructionData
  let pathLen := (proof.getD 36 0).toNat
  require (pathLen ≤ maxPathLen) .InvalidInstructionData
  require (41 + pathLen * 32 ≤ proof.length) .InvalidInstructionData
  return {
    txid := slice 32 data 0
    blockHash := slice 32 data 32
    txSize := u32At data 64
    proofTxid := slice 32 proof 0
    pathBits := u32At proof 32
    txIndex := u32At proof 37
    siblings := (List.range pathLen).map fun i => slice 32 proof (41 + i * 32) }

section Merkle

variable (E : Env)

/-- `double_sha256_pair`. -/
def doubleSha256Pair (left right : Hash) : Hash := E.doubleSha256 (left.toList ++ right.toList)

/-- One level up: bit `i` of the path says that the node is on the right. -/
def climb (pathBits : ℕ) (acc : Hash × ℕ) (sibling : Hash) : Hash × ℕ :=
  let (current, i) := acc
  (if pathBits.testBit i then doubleSha256Pair E sibling current
    else doubleSha256Pair E current sibling, i + 1)

/-- Where the path from `txid` ends. -/
def merkleRootFrom (txid : Hash) (pathBits : ℕ) (siblings : List Hash) : Hash :=
  (siblings.foldl (climb E pathBits) (txid, 0)).1

/-- The raw transaction in a buffer, behind the buffer's own header. -/
def rawTransaction (txSize : ℕ) (buffer : List UInt8) : List UInt8 := (buffer.drop 32).take txSize

/-- What is checked of the transaction against a Merkle root. -/
def checkInclusion (d : VerifyData) (buffer : List UInt8) (merkleRoot : Hash) :
    Except ProgramError Unit := do
  require (32 + d.txSize ≤ buffer.length) .InvalidAccountData
  -- a leaf of 64 bytes could be an inner node
  require (d.txSize ≠ 64) .InvalidArgument
  require (E.doubleSha256 (rawTransaction d.txSize buffer) = d.txid) .InvalidArgument
  require (d.proofTxid = d.txid) .InvalidArgument
  require (merkleRootFrom E d.txid d.pathBits d.siblings = merkleRoot) .InvalidArgument

end Merkle

/-- The header of the block, which the index names at its height. -/
def readBlock (s : State) (headerInfo indexInfo : AccountInfo) (blockHash : Hash) :
    Except ProgramError BlockHeader := do
  let header ← orElse (s.headerAt headerInfo.key) .InvalidAccountData
  require (header.blockHash = blockHash) .InvalidArgument
  require (indexInfo.key = .heightIndex header.height) .InvalidSeeds
  let hi ← orElse (s.heightIndexAt indexInfo.key) .InvalidAccountData
  require (hi.height = header.height ∧ hi.blockHash = blockHash) .InvalidArgument
  return header

/-- `buffer` is the data of the account that holds the transaction, whatever program owns it. -/
def processVerifyTransaction (E : Env) (s : State) (accounts : List AccountInfo)
    (data buffer : List UInt8) (now : ℤ) : Except ProgramError State := do
  require (68 ≤ data.length) .InvalidInstructionData
  match accounts with
  | verifiedTxInfo :: lcInfo :: headerInfo :: indexInfo :: _txBuffer :: payer :: _system :: _ => do
    require payer.isSigner .MissingRequiredSignature
    require (s.ownerOf lcInfo.key = .program) .IllegalOwner
    require (s.ownerOf headerInfo.key = .program) .IllegalOwner
    require (s.ownerOf indexInfo.key = .program) .IllegalOwner
    require (headerInfo.key = .block (slice 32 data 32)) .InvalidSeeds
    let d ← parseProof data
    let header ← readBlock s headerInfo indexInfo d.blockHash
    let lc ← orElse (s.lightClientAt lcInfo.key) .InvalidAccountData
    require (header.height ≤ lc.finalizedHeight) .InvalidArgument
    checkInclusion E d buffer header.merkleRoot
    require (verifiedTxInfo.key = .verifiedTx d.blockHash d.txid) .InvalidSeeds
    let acc := s.verified (d.blockHash, d.txid)
    require (acc.data.isEmpty = false → acc.owner = .program) .IllegalOwner
    match acc.data with
    | .live _ => return s
    | _ => do
      let vt ← createOrClaim acc (E.minimumBalance verifiedTransactionLen) .SystemProgram
      return s.setVerified (d.blockHash, d.txid) { vt with data := .live {
        blockHeight := header.height % 2 ^ 32
        blockHash := d.blockHash
        txid := d.txid
        verifiedAt := now
        txIndex := d.txIndex
        reinitEpoch := lc.reinitEpoch } }
  | _ => throw .NotEnoughAccountKeys

/-! ### What the instruction leaves -/

section Spec

variable {E : Env} {s s' : State} {d : VerifyData} {data buffer : List UInt8} {now : ℤ}

lemma parseProof_ok (h : parseProof data = .ok d) :
    d.blockHash = slice 32 data 32 ∧ d.siblings.length ≤ maxPathLen := by
  simp only [parseProof, bind_eq_ok, require_eq_ok, exists_const, pure_eq_ok] at h
  obtain ⟨-, -, hlen, -, rfl⟩ := h
  exact ⟨rfl, by simpa using hlen⟩

/-- The bytes in the buffer stand for the transaction, and its id hashes up to the root. -/
structure Included (E : Env) (d : VerifyData) (raw : List UInt8) (merkleRoot : Hash) : Prop where
  size : raw.length ≠ 64
  txid : E.doubleSha256 raw = d.txid
  path : merkleRootFrom E d.txid d.pathBits d.siblings = merkleRoot
  short : d.siblings.length ≤ maxPathLen

lemma checkInclusion_ok {merkleRoot : Hash} {u : Unit} (hd : d.siblings.length ≤ maxPathLen)
    (h : checkInclusion E d buffer merkleRoot = .ok u) :
    Included E d (rawTransaction d.txSize buffer) merkleRoot := by
  simp only [checkInclusion, bind_eq_ok, require_eq_ok, exists_const] at h
  obtain ⟨hlen, hsize, htxid, -, hpath⟩ := h
  refine ⟨?_, htxid, hpath, hd⟩
  have hraw : (rawTransaction d.txSize buffer).length = d.txSize := by
    rw [rawTransaction, List.length_take, List.length_drop]
    omega
  rwa [hraw]

/-- What a verified transaction was checked against. -/
structure Attested (E : Env) (s : State) (d : VerifyData) (raw : List UInt8)
    (lc : BitcoinLightClient) (header : BlockHeader) : Prop where
  client : s.lc? = some lc
  stored : s.header? d.blockHash = some header
  named : header.blockHash = d.blockHash
  indexed : s.index? header.height = some ⟨d.blockHash, header.height⟩
  final : header.height ≤ lc.finalizedHeight
  included : Included E d raw header.merkleRoot

/-- The record of a verified transaction. -/
def VerifyData.record (d : VerifyData) (lc : BitcoinLightClient) (header : BlockHeader) (now : ℤ) :
    VerifiedTransaction where
  blockHeight := header.height % 2 ^ 32
  blockHash := d.blockHash
  txid := d.txid
  verifiedAt := now
  txIndex := d.txIndex
  reinitEpoch := lc.reinitEpoch

/-- **Verify, taken apart**: a final block that the index names, a transaction that hashes up to
its root, and a record of it unless there is one; nothing else changes. -/
theorem processVerifyTransaction_ok {accounts : List AccountInfo}
    (h : processVerifyTransaction E s accounts data buffer now = .ok s') :
    ∃ d lc header, parseProof data = .ok d ∧
      Attested E s d (rawTransaction d.txSize buffer) lc header ∧
      s'.lc? = s.lc? ∧ s'.header? = s.header? ∧ s'.index? = s.index? ∧
      ((∃ vt, s.verified? (d.blockHash, d.txid) = some vt ∧ s' = s) ∨
        s.verified? (d.blockHash, d.txid) = none ∧
          s'.verified? = Function.update s.verified? (d.blockHash, d.txid)
            (some (d.record lc header now))) := by
  simp only [processVerifyTransaction, bind_eq_ok, require_eq_ok, exists_const] at h
  obtain ⟨-, h⟩ := h
  split at h
  · rename_i vtInfo lcInfo headerInfo indexInfo txBuffer payer sys rest
    simp only [readBlock, bind_eq_ok, require_eq_ok, orElse_eq_ok, exists_const, pure_eq_ok] at h
    obtain ⟨-, -, -, -, hkey, d, hd, header, ⟨hdr, hhdr, hhash, hikey, hi, hhi, ⟨hh, hb⟩, rfl⟩, lc, hlc,
      hfin, u, hinc, -, -, h⟩ := h
    obtain ⟨hblock, hshort⟩ := parseProof_ok hd
    rw [hkey, ← hblock] at hhdr
    rw [hikey] at hhi
    have hlc' : s.lc? = some lc := s.lightClientAt_eq_some hlc
    have hatt : Attested E s d (rawTransaction d.txSize buffer) lc hdr := by
      refine ⟨hlc', hhdr, hhash, ?_, hfin, checkInclusion_ok hshort hinc⟩
      cases hi
      simp only at hh hb
      subst hh hb
      exact hhi
    refine ⟨d, lc, hdr, hd, hatt, ?_⟩
    split at h
    · rename_i vt hvt
      obtain rfl := pure_eq_ok.mp h
      exact ⟨rfl, rfl, rfl, .inl ⟨vt, by rw [State.verified?, hvt]; rfl, rfl⟩⟩
    · rename_i hdead
      simp only [bind_eq_ok, pure_eq_ok] at h
      obtain ⟨vt, -, rfl⟩ := h
      have hnone : s.verified? (d.blockHash, d.txid) = none := by
        cases hdata : (s.verified (d.blockHash, d.txid)).data with
        | live old => exact absurd hdata (hdead old)
        | _ => rw [State.verified?, hdata]; rfl
      refine ⟨rfl, rfl, rfl, .inr ⟨hnone, ?_⟩⟩
      funext k
      by_cases hk : k = (d.blockHash, d.txid)
      · subst hk
        simp [State.verified?, State.setVerified, VerifyData.record]
      · simp [State.verified?, State.setVerified, hk]
  · simp [throw_ne_ok] at h

end Spec

end Utxopia.LightClient.VerifyTransaction
