import Utxopia.LightClient.Accounts

/-!
Starting the light client: the client account, the genesis header and its index entry.
-/

namespace Utxopia.LightClient.Initialize

open Utxopia.ByteString Utxopia.Check Utxopia.Runtime Utxopia.LightClient.Accounts

/-- The instruction data; the last four numbers are optional and read as zero. -/
structure InitializeData where
  startHeight : ℕ
  startBlockHash : Hash
  network : ℕ
  initialBits : ℕ
  epochStart : ℕ
  startTimestamp : ℕ
  startBits : ℕ

def parseData (data : List UInt8) : InitializeData where
  startHeight := u64At data 0
  startBlockHash := slice 32 data 8
  network := (data.getD 40 0).toNat
  initialBits := if data.length ≥ 49 then u32At data 41 else 0
  epochStart := if data.length ≥ 49 then u32At data 45 else 0
  startTimestamp := if data.length ≥ 53 then u32At data 49 else 0
  startBits := if data.length ≥ 57 then u32At data 53 else 0

def initialClient (d : InitializeData) (payer : Addr) (now : ℤ) : BitcoinLightClient where
  network := d.network
  authority := payer
  genesisHash := d.startBlockHash
  tipHash := d.startBlockHash
  totalChainwork := zeros 32
  tipHeight := d.startHeight
  finalizedHeight := d.startHeight - (requiredConfirmations - 1)
  headerCount := 0
  lastUpdate := now
  expectedBits := d.initialBits
  epochStartTime := d.epochStart
  reinitEpoch := 0

/-- Only the hash, the height and the difficulty parameters of the start block are known. -/
def genesisHeader (d : InitializeData) (now : ℤ) : BlockHeader where
  version := zeros 4
  prevBlockHash := zeros 32
  merkleRoot := zeros 32
  timestamp := d.startTimestamp
  bits := if d.startBits = 0 then d.initialBits else d.startBits
  nonce := zeros 4
  blockHash := d.startBlockHash
  chainwork := zeros 32
  height := d.startHeight
  submittedAt := now
  epochBits := d.initialBits
  epochStartTime := d.epochStart
  reinitEpoch := 0

def processInitialize (E : Env) (s : State) (accounts : List AccountInfo) (data : List UInt8)
    (now : ℤ) : Except ProgramError State := do
  require (data.length ≥ 41) .InvalidInstructionData
  match accounts with
  | lightClientInfo :: payer :: _systemProgram :: heightIndexInfo :: blockHeaderInfo :: _ => do
    require payer.isSigner .MissingRequiredSignature
    let d := parseData data
    require (networkAllowedInBuild E d.network) .InvalidInstructionData
    require (lightClientInfo.key = .lightClient) .InvalidSeeds
    require (s.lc? = none) .AccountAlreadyInitialized
    let lc ← createOrClaim s.lightClient (E.minimumBalance bitcoinLightClientLen) .SystemProgram
    let s := s.setLightClient { lc with data := .live (initialClient d payer.key now) }
    require (enforced d.network → d.initialBits ≠ 0 ∧ d.epochStart ≠ 0) .InvalidInstructionData
    require (blockHeaderInfo.key = .block d.startBlockHash) .InvalidSeeds
    let bh ← createOrClaim (s.block d.startBlockHash) (E.minimumBalance blockHeaderLen)
      .SystemProgram
    let s := s.setBlock d.startBlockHash { bh with data := .live (genesisHeader d now) }
    require (heightIndexInfo.key = .heightIndex d.startHeight) .InvalidSeeds
    let hi ← createOrClaim (s.heightIndex d.startHeight) (E.minimumBalance heightIndexLen)
      .SystemProgram
    return s.setHeightIndex d.startHeight
      { hi with data := .live ⟨d.startBlockHash, d.startHeight⟩ }
  | _ => throw .NotEnoughAccountKeys

/-- **What initialize leaves**: the client at its start block, the genesis header and the
genesis index entry; every other record is as before. -/
theorem processInitialize_ok {E : Env} {s s' : State} {accounts : List AccountInfo}
    {data : List UInt8} {now : ℤ} (h : processInitialize E s accounts data now = .ok s') :
    let d := parseData data
    (∃ payer, s'.lc? = some (initialClient d payer now)) ∧
      s'.header? = Function.update s.header? d.startBlockHash (some (genesisHeader d now)) ∧
      s'.index? = Function.update s.index? d.startHeight
        (some ⟨d.startBlockHash, d.startHeight⟩) := by
  intro d
  unfold processInitialize at h
  simp only [bind_eq_ok, require_eq_ok, exists_const] at h
  obtain ⟨-, h⟩ := h
  split at h
  · rename_i lci payer sys hii bhi rest
    simp only [bind_eq_ok, require_eq_ok, exists_const, pure_eq_ok] at h
    obtain ⟨-, -, -, -, lc, -, -, -, bh, -, -, hi, -, rfl⟩ := h
    exact ⟨⟨payer.key, rfl⟩, State.header?_setBlock .., State.index?_setHeightIndex ..⟩
  · simp [throw_ne_ok] at h

end Utxopia.LightClient.Initialize
