import Utxopia.Lib.Encoding
import Utxopia.Pool.Joinsplit

/-!
The seeds of the program's addresses.

The address hash sees the seeds of an account one after the other, without separators. Whether
two records can share an address is therefore a question about the bytes: every family begins
with a tag that begins no other family's, and every field after it has a fixed length, up to
the two families that have a short and a long form.
-/

namespace Utxopia.Pool

open Utxopia.ByteString Utxopia.Encoding

/-- The families of accounts. -/
inductive Family where
  | PoolState
  | CommitmentTree
  | TokenConfig
  | PoolConfig
  | DwalletBinding
  | UtxoRecord
  | RedemptionRequest
  | QueuedLeaf
  | NullifierRecord
  | DepositReceipt
  | CompletionReceipt
  | PolicyApproval
  | ExitDestination
  | VkRegistry
  | CpiAuthority
  deriving DecidableEq, Repr

/-- `SEED` of a family. -/
def Family.seed : Family → List UInt8
  -- b"pool_state"
  | .PoolState => [112, 111, 111, 108, 95, 115, 116, 97, 116, 101]
  -- b"commitment_tree"
  | .CommitmentTree => [99, 111, 109, 109, 105, 116, 109, 101, 110, 116, 95, 116, 114, 101, 101]
  -- b"token_config"
  | .TokenConfig => [116, 111, 107, 101, 110, 95, 99, 111, 110, 102, 105, 103]
  -- b"pool_config"
  | .PoolConfig => [112, 111, 111, 108, 95, 99, 111, 110, 102, 105, 103]
  -- b"dwallet_binding"
  | .DwalletBinding => [100, 119, 97, 108, 108, 101, 116, 95, 98, 105, 110, 100, 105, 110, 103]
  -- b"utxo"
  | .UtxoRecord => [117, 116, 120, 111]
  -- b"redemption"
  | .RedemptionRequest => [114, 101, 100, 101, 109, 112, 116, 105, 111, 110]
  -- b"queued_leaf"
  | .QueuedLeaf => [113, 117, 101, 117, 101, 100, 95, 108, 101, 97, 102]
  -- b"nullifier"
  | .NullifierRecord => [110, 117, 108, 108, 105, 102, 105, 101, 114]
  -- b"deposit_receipt"
  | .DepositReceipt => [100, 101, 112, 111, 115, 105, 116, 95, 114, 101, 99, 101, 105, 112, 116]
  -- b"completion_receipt"
  | .CompletionReceipt =>
    [99, 111, 109, 112, 108, 101, 116, 105, 111, 110, 95, 114, 101, 99, 101, 105, 112, 116]
  -- b"policy_approval"
  | .PolicyApproval => [112, 111, 108, 105, 99, 121, 95, 97, 112, 112, 114, 111, 118, 97, 108]
  -- b"exit_destination"
  | .ExitDestination =>
    [101, 120, 105, 116, 95, 100, 101, 115, 116, 105, 110, 97, 116, 105, 111, 110]
  -- b"vk_registry"
  | .VkRegistry => [118, 107, 95, 114, 101, 103, 105, 115, 116, 114, 121]
  -- b"__ika_cpi_authority"
  | .CpiAuthority =>
    [95, 95, 105, 107, 97, 95, 99, 112, 105, 95, 97, 117, 116, 104, 111, 114, 105, 116, 121]

/-- A record by its family and the fields of its seeds; addresses are 32 bytes. -/
inductive RecordSeeds where
  | poolState (zkbtcMint : Hash)
  | commitmentTree (pool : Hash) (index : UInt32)
  | tokenConfig (pool mint : Hash)
  | poolConfig (pool : Hash)
  | dwalletBinding (dwallet : Hash)
  | utxo (pool txid : Hash) (vout : UInt32)
  | redemption (pool requester : Hash) (nonce : UInt64)
  | queuedLeaf (pool commitment : Hash)
  | nullifier (pool : Hash) (sourceTreeIndex : UInt32) (nf : Hash)
  | depositReceipt (txid : Hash) (vout : Option UInt32)
  | completionReceipt (txid : Hash)
  | policyApproval (pool requestHash nonce : Hash)
  | exitDestination (pool : Hash) (kind : UInt8) (key : Hash)
  | vkRegistry (nInputs nOutputs : UInt8)
  | cpiAuthority
  deriving DecidableEq

namespace RecordSeeds

def family : RecordSeeds → Family
  | .poolState .. => .PoolState
  | .commitmentTree .. => .CommitmentTree
  | .tokenConfig .. => .TokenConfig
  | .poolConfig .. => .PoolConfig
  | .dwalletBinding .. => .DwalletBinding
  | .utxo .. => .UtxoRecord
  | .redemption .. => .RedemptionRequest
  | .queuedLeaf .. => .QueuedLeaf
  | .nullifier .. => .NullifierRecord
  | .depositReceipt .. => .DepositReceipt
  | .completionReceipt .. => .CompletionReceipt
  | .policyApproval .. => .PolicyApproval
  | .exitDestination .. => .ExitDestination
  | .vkRegistry .. => .VkRegistry
  | .cpiAuthority => .CpiAuthority

/-- `to_le_bytes` -/
def u32Le (n : UInt32) : Bytes 4 := toLe 4 n.toNat
def u64Le (n : UInt64) : Bytes 8 := toLe 8 n.toNat

/-- The seeds after the tag. Tree 0 keeps the seeds without an index, and a receipt names an output
only if the deposit does. -/
def fields : RecordSeeds → List UInt8
  | .poolState zkbtcMint => zkbtcMint.toList
  | .commitmentTree pool index => pool.toList ++ (u32Le index).toList
  | .tokenConfig pool mint => pool.toList ++ mint.toList
  | .poolConfig pool => pool.toList
  | .dwalletBinding dwallet => dwallet.toList
  | .utxo pool txid vout => pool.toList ++ (txid.toList ++ (u32Le vout).toList)
  | .redemption pool requester nonce =>
    pool.toList ++ (requester.toList ++ (u64Le nonce).toList)
  | .queuedLeaf pool commitment => pool.toList ++ commitment.toList
  | .nullifier pool sourceTreeIndex nf =>
    if sourceTreeIndex = 0 then pool.toList ++ nf.toList
    else pool.toList ++ ((u32Le sourceTreeIndex).toList ++ nf.toList)
  | .depositReceipt txid none => txid.toList
  | .depositReceipt txid (some vout) => txid.toList ++ (u32Le vout).toList
  | .completionReceipt txid => txid.toList
  | .policyApproval pool requestHash nonce =>
    pool.toList ++ (requestHash.toList ++ nonce.toList)
  | .exitDestination pool kind key => pool.toList ++ (kind :: key.toList)
  | .vkRegistry nInputs nOutputs => [nInputs, nOutputs]
  | .cpiAuthority => []

/-- The seeds as the address hash sees them. -/
def bytes (r : RecordSeeds) : List UInt8 := r.family.seed ++ r.fields

end RecordSeeds

/-- **No seed begins another.** -/
theorem seed_prefixFree : PrefixFree Family.seed := by
  intro f g h
  cases f <;> cases g <;> first | rfl | exact absurd h (by decide)

lemma u32Le_inj {a b : UInt32} (h : RecordSeeds.u32Le a = RecordSeeds.u32Le b) : a = b :=
  UInt32.toNat_inj.mp (toLe_inj (UInt32.toNat_lt a) (UInt32.toNat_lt b) h)

lemma u64Le_inj {a b : UInt64} (h : RecordSeeds.u64Le a = RecordSeeds.u64Le b) : a = b :=
  UInt64.toNat_inj.mp (toLe_inj (UInt64.toNat_lt a) (UInt64.toNat_lt b) h)

/-! ### One record for the bytes -/

lemma fields_nullifier_inj {pool pool' nf nf' : Hash} {i i' : UInt32}
    (h : (RecordSeeds.nullifier pool i nf).fields = (RecordSeeds.nullifier pool' i' nf').fields) :
    RecordSeeds.nullifier pool i nf = .nullifier pool' i' nf' := by
  have hlen := congrArg List.length h
  -- the two forms differ in length
  by_cases hi : i = 0 <;> by_cases hi' : i' = 0 <;> simp [RecordSeeds.fields, hi, hi'] at hlen
  · simp only [RecordSeeds.fields, hi, hi', if_true] at h
    obtain ⟨hpool, hnf⟩ := toList_append_inj h
    rw [hi, hi', hpool, Vector.toList_inj.mp hnf]
  · simp only [RecordSeeds.fields, hi, hi', if_false] at h
    obtain ⟨hpool, hrest⟩ := toList_append_inj h
    obtain ⟨hindex, hnf⟩ := toList_append_inj hrest
    rw [hpool, u32Le_inj hindex, Vector.toList_inj.mp hnf]

lemma fields_depositReceipt_inj {txid txid' : Hash} {vout vout' : Option UInt32}
    (h : (RecordSeeds.depositReceipt txid vout).fields =
      (RecordSeeds.depositReceipt txid' vout').fields) :
    RecordSeeds.depositReceipt txid vout = .depositReceipt txid' vout' := by
  have hlen := congrArg List.length h
  cases vout <;> cases vout' <;> simp [RecordSeeds.fields] at hlen
  · rw [Vector.toList_inj.mp h]
  · obtain ⟨htxid, hvout⟩ := toList_append_inj h
    rw [htxid, u32Le_inj (Vector.toList_inj.mp hvout)]

/-- Within a family the fields are read back. -/
lemma fields_inj {r r' : RecordSeeds} (hf : r.family = r'.family) (h : r.fields = r'.fields) :
    r = r' := by
  cases r <;> cases r' <;> simp only [RecordSeeds.family, reduceCtorEq] at hf
  case poolState.poolState => rw [Vector.toList_inj.mp h]
  case commitmentTree.commitmentTree =>
    obtain ⟨hpool, hindex⟩ := toList_append_inj h
    rw [hpool, u32Le_inj (Vector.toList_inj.mp hindex)]
  case tokenConfig.tokenConfig =>
    obtain ⟨hpool, hmint⟩ := toList_append_inj h
    rw [hpool, Vector.toList_inj.mp hmint]
  case poolConfig.poolConfig => rw [Vector.toList_inj.mp h]
  case dwalletBinding.dwalletBinding => rw [Vector.toList_inj.mp h]
  case utxo.utxo =>
    obtain ⟨hpool, hrest⟩ := toList_append_inj h
    obtain ⟨htxid, hvout⟩ := toList_append_inj hrest
    rw [hpool, htxid, u32Le_inj (Vector.toList_inj.mp hvout)]
  case redemption.redemption =>
    obtain ⟨hpool, hrest⟩ := toList_append_inj h
    obtain ⟨hrequester, hnonce⟩ := toList_append_inj hrest
    rw [hpool, hrequester, u64Le_inj (Vector.toList_inj.mp hnonce)]
  case queuedLeaf.queuedLeaf =>
    obtain ⟨hpool, hcommitment⟩ := toList_append_inj h
    rw [hpool, Vector.toList_inj.mp hcommitment]
  case nullifier.nullifier => exact fields_nullifier_inj h
  case depositReceipt.depositReceipt => exact fields_depositReceipt_inj h
  case completionReceipt.completionReceipt => rw [Vector.toList_inj.mp h]
  case policyApproval.policyApproval =>
    obtain ⟨hpool, hrest⟩ := toList_append_inj h
    obtain ⟨hrequest, hnonce⟩ := toList_append_inj hrest
    rw [hpool, hrequest, Vector.toList_inj.mp hnonce]
  case exitDestination.exitDestination =>
    obtain ⟨hpool, hrest⟩ := toList_append_inj h
    obtain ⟨hkind, hkey⟩ := List.cons.inj hrest
    rw [hpool, hkind, Vector.toList_inj.mp hkey]
  case vkRegistry.vkRegistry =>
    obtain ⟨hin, hrest⟩ := List.cons.inj h
    rw [hin, (List.cons.inj hrest).1]
  case cpiAuthority.cpiAuthority => rfl

/-- The bytes of the seeds are those of one record. -/
lemma bytes_injective : Function.Injective RecordSeeds.bytes := fun _ _ h =>
  let ⟨hf, hfields⟩ := seed_prefixFree.append_inj h
  fields_inj hf hfields

/-! ### Addresses -/

/-- b"ProgramDerivedAddress" -/
def pdaMarker : List UInt8 :=
  [80, 114, 111, 103, 114, 97, 109, 68, 101, 114, 105, 118, 101, 100, 65, 100, 100, 114, 101, 115, 115]

/-- What the runtime hashes for the address of a record at a bump. -/
def RecordSeeds.hashed (r : RecordSeeds) (bump : UInt8) (programId : Hash) : List UInt8 :=
  r.bytes ++ (bump :: (programId.toList ++ pdaMarker))

lemma hashed_injective {r r' : RecordSeeds} {bump bump' : UInt8} {programId : Hash}
    (h : r.hashed bump programId = r'.hashed bump' programId) : r = r' := by
  obtain ⟨hbytes, -⟩ := List.append_inj' h (by simp)
  exact bytes_injective hbytes

/-- The hash tells two inputs apart. -/
def TellsApart (hash : List UInt8 → Hash) (x y : List UInt8) : Prop := hash x = hash y → x = y

/-- **Address separation**: two different records never have the same seed bytes, and, unless the
hash collides on what is hashed for them, never the same address, whatever their bumps are. -/
theorem records_apart {r r' : RecordSeeds} (hne : r ≠ r') : r.bytes ≠ r'.bytes ∧
    ∀ (hash : List UInt8 → Hash) (programId : Hash) (bump bump' : UInt8),
      TellsApart hash (r.hashed bump programId) (r'.hashed bump' programId) →
        hash (r.hashed bump programId) ≠ hash (r'.hashed bump' programId) :=
  ⟨fun h => hne (bytes_injective h),
    fun _ _ _ _ hapart heq => hne (hashed_injective (hapart heq))⟩

/-- A nullifier of the first tree and one of the second. -/
theorem records_apart_nullifiers : (RecordSeeds.nullifier (zeros 32) 0 (zeros 32)).bytes ≠
    (RecordSeeds.nullifier (zeros 32) 1 (zeros 32)).bytes :=
  (records_apart (by decide)).1

end Utxopia.Pool
