import Utxopia.LightClient.Initialize

/-!
Starting over: the client's record is reset to another start block and the epoch goes up.

The headers and index entries of the chain before stay where they are. The instruction is not in
mainnet builds.
-/

namespace Utxopia.LightClient.Reinitialize

open Utxopia.ByteString Utxopia.Check Utxopia.Runtime Utxopia.LightClient.Accounts
open Utxopia.LightClient.Initialize

/-- The epoch is a `u32` and wraps around. -/
def nextEpoch (lc : BitcoinLightClient) : ℕ := (lc.reinitEpoch + 1) % 2 ^ 32

def restartedClient (lc : BitcoinLightClient) (d : InitializeData) (now : ℤ) :
    BitcoinLightClient :=
  { initialClient d lc.authority now with reinitEpoch := nextEpoch lc }

/-- The start block's header; its predecessor's hash is optional. -/
def restartHeader (lc : BitcoinLightClient) (d : InitializeData) (prev : Hash) (now : ℤ) :
    BlockHeader :=
  { genesisHeader d now with prevBlockHash := prev, reinitEpoch := nextEpoch lc }

def parsePrev (data : List UInt8) : Hash := if 89 ≤ data.length then slice 32 data 57 else zeros 32

def processReinitialize (E : Env) (s : State) (accounts : List AccountInfo) (data : List UInt8)
    (now : ℤ) : Except ProgramError State := do
  require (data.length ≥ 41) .InvalidInstructionData
  match accounts with
  | lcInfo :: authority :: _systemProgram :: heightIndexInfo :: blockHeaderInfo :: _ => do
    require authority.isSigner .MissingRequiredSignature
    require (s.ownerOf lcInfo.key = .program) .IllegalOwner
    let lc ← orElse (s.lightClientAt lcInfo.key) .InvalidAccountData
    require (lc.authority = authority.key) .InvalidArgument
    let d := parseData data
    require (networkAllowedInBuild E d.network) .InvalidInstructionData
    let s := s.setLightClient { s.lightClient with data := .live (restartedClient lc d now) }
    require (blockHeaderInfo.key = .block d.startBlockHash) .InvalidSeeds
    let bh ← createOrClaim (s.block d.startBlockHash) (E.minimumBalance blockHeaderLen)
      .SystemProgram
    let s := s.setBlock d.startBlockHash
      { bh with data := .live (restartHeader lc d (parsePrev data) now) }
    require (heightIndexInfo.key = .heightIndex d.startHeight) .InvalidSeeds
    let hi ← createOrClaim (s.heightIndex d.startHeight) (E.minimumBalance heightIndexLen)
      .SystemProgram
    return s.setHeightIndex d.startHeight
      { hi with data := .live ⟨d.startBlockHash, d.startHeight⟩ }
  | _ => throw .NotEnoughAccountKeys

/-- **What reinitialize leaves**: the client at the new start block in the next epoch, that
block's header and index entry; every other record is as before. -/
theorem processReinitialize_ok {E : Env} {s s' : State} {accounts : List AccountInfo}
    {data : List UInt8} {now : ℤ} (h : processReinitialize E s accounts data now = .ok s') :
    let d := parseData data
    ∃ lc, s.lc? = some lc ∧ s'.lc? = some (restartedClient lc d now) ∧
      s'.header? = Function.update s.header? d.startBlockHash
        (some (restartHeader lc d (parsePrev data) now)) ∧
      s'.index? = Function.update s.index? d.startHeight (some ⟨d.startBlockHash, d.startHeight⟩) ∧
      s'.verified? = s.verified? := by
  intro d
  simp only [ processReinitialize, bind_eq_ok, require_eq_ok, exists_const] at h
  obtain ⟨-, h⟩ := h
  split at h
  · rename_i lcInfo authority sys hiInfo bhInfo rest
    simp only [bind_eq_ok, require_eq_ok, orElse_eq_ok, exists_const, pure_eq_ok] at h
    obtain ⟨-, -, lc, hlc, -, -, -, bh, -, -, hi, -, rfl⟩ := h
    have hlc' : s.lc? = some lc := s.lightClientAt_eq_some hlc
    exact ⟨lc, hlc', rfl, State.header?_setBlock .., State.index?_setHeightIndex .., rfl⟩
  · simp [throw_ne_ok] at h

end Utxopia.LightClient.Reinitialize
