import Utxopia.Lib.Positional
import Utxopia.LightClient.Accounts

/-!
The bytes of the client's accounts.

Other programs read them at fixed offsets. A record has its discriminator in front, then the bump
and padding. An account without a record is empty or zeroed.
-/

namespace Utxopia.LightClient.Layout

open Utxopia.ByteString Utxopia.Encoding Utxopia.Runtime Utxopia.LightClient.Accounts

/-! ### Fields at their offsets -/

variable {n off : ℕ} {p d : List UInt8}

/-- What is before a field does not matter. -/
lemma slice_past (h : p.length ≤ off) : slice n (p ++ d) off = slice n d (off - p.length) := by
  obtain ⟨k, rfl⟩ := Nat.exists_eq_add_of_le h
  rw [slice_append, Nat.add_sub_cancel_left]

lemma u32At_past (h : p.length ≤ off) : u32At (p ++ d) off = u32At d (off - p.length) := by
  rw [u32At, slice_past h, u32At]

lemma u64At_past (h : p.length ≤ off) : u64At (p ++ d) off = u64At d (off - p.length) := by
  rw [u64At, slice_past h, u64At]

lemma slice_leBytes (n v : ℕ) (d : List UInt8) : slice n (leBytes n v ++ d) 0 = toLe n v := by
  have h := slice_toList_append (toLe n v) d
  rwa [toLe, Vector.toList_mk, List.toList_toArray] at h

lemma leNat_toLe (n v : ℕ) : leNat (toLe n v).toList = v % 256 ^ n := by
  rw [toLe, Vector.toList_mk, List.toList_toArray, leNat_leBytes]

lemma u32At_leBytes (v : ℕ) (d : List UInt8) : u32At (leBytes 4 v ++ d) 0 = v % 2 ^ 32 := by
  rw [u32At, slice_leBytes, leNat_toLe]
  rfl

lemma u64At_leBytes (v : ℕ) (d : List UInt8) : u64At (leBytes 8 v ++ d) 0 = v % 2 ^ 64 := by
  rw [u64At, slice_leBytes, leNat_toLe]
  rfl

/-- A signed number of eight bytes. -/
def i64Bytes (v : ℤ) : List UInt8 := leBytes 8 (v % 2 ^ 64).toNat

@[simp] lemma length_i64Bytes (v : ℤ) : (i64Bytes v).length = 8 := length_leBytes ..

/-! ### Records -/

/-- `keyOf` gives the bytes of an address. Nothing sets the `paused` byte. -/
def lightClientBytes (keyOf : Addr → Hash) (bump : UInt8) (lc : BitcoinLightClient) : List UInt8 :=
  [0x06, bump, 0, UInt8.ofNat lc.network] ++ (zeros 4).toList ++ (keyOf lc.authority).toList ++
    lc.genesisHash.toList ++ lc.tipHash.toList ++ lc.totalChainwork.toList ++
    leBytes 8 lc.tipHeight ++ leBytes 8 lc.finalizedHeight ++ leBytes 8 lc.headerCount ++
    i64Bytes lc.lastUpdate ++ leBytes 4 lc.expectedBits ++ leBytes 4 lc.epochStartTime ++
    leBytes 4 lc.reinitEpoch ++ (zeros 52).toList

def heightIndexBytes (bump : UInt8) (hi : HeightIndex) : List UInt8 :=
  [0x09, bump] ++ (zeros 6).toList ++ hi.blockHash.toList ++ leBytes 8 hi.height

def verifiedTransactionBytes (bump : UInt8) (vt : VerifiedTransaction) : List UInt8 :=
  [0x08, bump] ++ (zeros 2).toList ++ leBytes 4 vt.blockHeight ++ vt.blockHash.toList ++
    vt.txid.toList ++ i64Bytes vt.verifiedAt ++ leBytes 4 vt.txIndex ++ leBytes 4 vt.reinitEpoch ++
    (zeros 32).toList

lemma length_lightClientBytes (keyOf : Addr → Hash) (bump : UInt8) (lc : BitcoinLightClient) :
    (lightClientBytes keyOf bump lc).length = bitcoinLightClientLen := by
  simp [lightClientBytes, bitcoinLightClientLen]

lemma length_heightIndexBytes (bump : UInt8) (hi : HeightIndex) :
    (heightIndexBytes bump hi).length = heightIndexLen := by
  simp [heightIndexBytes, heightIndexLen]

lemma length_verifiedTransactionBytes (bump : UInt8) (vt : VerifiedTransaction) :
    (verifiedTransactionBytes bump vt).length = verifiedTransactionLen := by
  simp [verifiedTransactionBytes, verifiedTransactionLen]

end Utxopia.LightClient.Layout
