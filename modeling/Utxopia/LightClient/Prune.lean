import Utxopia.LightClient.Accounts

/-!
Closing the header of a block that the height index does not name.
-/

namespace Utxopia.LightClient.Prune

open Utxopia.ByteString Utxopia.Check Utxopia.Runtime Utxopia.LightClient.Accounts

/-- The account without its header: zeroed, drained and back with the system program. -/
def closedHeader : Account BlockHeader := ⟨0, .system, .blank⟩

def processPruneObsoleteBlocks (s : State) (accounts : List AccountInfo) (data : List UInt8) :
    Except ProgramError State := do
  require (data.length ≥ 32) .InvalidInstructionData
  match accounts with
  | lcInfo :: headerInfo :: indexInfo :: rentReceiver :: _ => do
    require (s.ownerOf lcInfo.key = .program) .IllegalOwner
    require (s.ownerOf headerInfo.key = .program) .IllegalOwner
    require (s.ownerOf indexInfo.key = .program) .IllegalOwner
    let blockHash : Hash := slice 32 data 0
    require (headerInfo.key = .block blockHash) .InvalidSeeds
    let header ← orElse (s.headerAt headerInfo.key) .InvalidAccountData
    require (header.blockHash = blockHash) .InvalidArgument
    require (indexInfo.key = .heightIndex header.height) .InvalidSeeds
    let hi ← orElse (s.heightIndexAt indexInfo.key) .InvalidAccountData
    require (hi.blockHash ≠ blockHash) .InvalidArgument
    let lc ← orElse (s.lightClientAt lcInfo.key) .InvalidAccountData
    require (header.height ≤ lc.finalizedHeight) .InvalidArgument
    require (rentReceiver.key ≠ headerInfo.key) .InvalidArgument
    let lamports := (s.block blockHash).lamports
    require (s.lamportsOf rentReceiver.key + lamports < 2 ^ 64) .ArithmeticOverflow
    return (s.setBlock blockHash closedHeader).credit lamports rentReceiver.key
  | _ => throw .NotEnoughAccountKeys

/-- **Prune, taken apart**: the header is stored, final, and not the one the index names at
its height; it alone goes. -/
theorem processPruneObsoleteBlocks_ok {s s' : State} {accounts : List AccountInfo}
    {data : List UInt8} (h : processPruneObsoleteBlocks s accounts data = .ok s') :
    ∃ (b : Hash) (hdr : BlockHeader) (hi : HeightIndex) (lc : BitcoinLightClient),
      s.header? b = some hdr ∧ hdr.blockHash = b ∧ s.index? hdr.height = some hi ∧
      hi.blockHash ≠ b ∧ s.lc? = some lc ∧ hdr.height ≤ lc.finalizedHeight ∧
      s'.header? = Function.update s.header? b none ∧ s'.index? = s.index? ∧
      s'.lc? = s.lc? := by
  simp only [processPruneObsoleteBlocks, bind_eq_ok, require_eq_ok, exists_const] at h
  obtain ⟨-, h⟩ := h
  split at h
  · rename_i lcInfo headerInfo indexInfo rentReceiver rest
    simp only [bind_eq_ok, require_eq_ok, orElse_eq_ok, exists_const, pure_eq_ok] at h
    obtain ⟨-, -, -, hkey, hdr, hhdr, hhash, hikey, hi, hhi, hne, lc, hlc, hfin, -, -, rfl⟩ := h
    rw [hkey] at hhdr
    rw [hikey] at hhi
    have hlc' : s.lc? = some lc := s.lightClientAt_eq_some hlc
    refine ⟨slice 32 data 0, hdr, hi, lc, hhdr, hhash, hhi, hne, hlc', hfin, ?_, ?_, ?_⟩
    · rw [credit_header?]
      exact State.header?_setBlock ..
    · rw [credit_index?]
      rfl
    · rw [credit_lc?]
      rfl
  · simp [throw_ne_ok] at h

end Utxopia.LightClient.Prune
