import Utxopia.Lib.Encoding
import Utxopia.LightClient.Inclusion

/-!
What can be proved of a block.

The branch of a transaction has the sibling of its ancestor on every level, which at an odd end is
the ancestor itself. The bits of the transaction's index are the sides on the way up, so the branch
and the index are a proof, and it is accepted.
-/

namespace Utxopia.LightClient.Completeness

open Utxopia.ByteString Utxopia.Check Utxopia.Encoding Utxopia.MerkleTree
open Utxopia.LightClient.Accounts Utxopia.LightClient.VerifyTransaction
open Utxopia.LightClient.Inclusion

variable {E : Env} {block : List (List UInt8)} {tx : List UInt8} {i : ℕ}

/-- The siblings of a transaction's ancestors, from the leaf on. -/
def merkleBranch (E : Env) (block : List (List UInt8)) (i : ℕ) : List Hash :=
  (branch (nodeHash E) (height (txids E block)) (txids E block) i).map Prod.snd

/-- The data of the instruction for a transaction at an index, with the siblings of its branch. -/
def branchData (E : Env) (blockHash : Hash) (tx : List UInt8) (i : ℕ) (siblings : List Hash) :
    List UInt8 :=
  let txid := E.doubleSha256 tx
  txid.toList ++ (blockHash.toList ++ (leBytes 4 tx.length ++ (txid.toList ++ (leBytes 4 i ++
    (UInt8.ofNat siblings.length :: (leBytes 4 i ++ siblings.flatMap Vector.toList))))))

/-- What the instruction reads from it. -/
def branchProof (E : Env) (blockHash : Hash) (tx : List UInt8) (i : ℕ) (siblings : List Hash) :
    VerifyData where
  txid := E.doubleSha256 tx
  blockHash := blockHash
  txSize := tx.length % 2 ^ 32
  proofTxid := E.doubleSha256 tx
  pathBits := i
  txIndex := i
  siblings := siblings

/-! ### The index and the sides -/

/-- The sides from the second level on are those of half the index. -/
lemma pathFrom_succ (pathBits k : ℕ) (siblings : List Hash) :
    pathFrom pathBits (k + 1) siblings = pathFrom (pathBits / 2) k siblings := by
  induction siblings generalizing k with
  | nil => rfl
  | cons sibling rest ih => rw [pathFrom, pathFrom, ih, Nat.testBit_succ]

/-- The bits of the index are the sides of the branch. -/
lemma pathFrom_branch (n : ℕ) (l : List Hash) (i : ℕ) :
    pathFrom i 0 ((branch (nodeHash E) n l i).map Prod.snd) = branch (nodeHash E) n l i := by
  induction n generalizing l i with
  | zero => rfl
  | succ n ih =>
    rw [branch]
    cases siblingAt l i with
    | none => rfl
    | some sibling =>
      dsimp only
      rw [List.map_cons, pathFrom, pathFrom_succ, ih, Nat.testBit_zero]

/-! ### The data -/

/-- What is read behind a prefix is read from the rest. -/
lemma slice_behind {n off : ℕ} {p : List UInt8} (h : p.length = off) (d : List UInt8) :
    slice n (p ++ d) off = slice n d 0 := by
  subst h
  exact slice_append n p d 0

lemma u32At_behind {off : ℕ} {p : List UInt8} (h : p.length = off) (v : ℕ) (d : List UInt8) :
    u32At (p ++ (leBytes 4 v ++ d)) off = v % 2 ^ 32 := by
  have htoLe : leBytes 4 v = (toLe 4 v).toList := by simp [toLe, Vector.toList]
  rw [u32At, slice_behind h, htoLe, slice_toList_append, ← htoLe]
  exact leNat_leBytes 4 v

/-- The proof's part of the data. -/
def branchBytes (E : Env) (tx : List UInt8) (i : ℕ) (siblings : List Hash) : List UInt8 :=
  (E.doubleSha256 tx).toList ++ (leBytes 4 i ++
    (UInt8.ofNat siblings.length :: (leBytes 4 i ++ siblings.flatMap Vector.toList)))

lemma branchData_drop {blockHash : Hash} {siblings : List Hash} :
    (branchData E blockHash tx i siblings).drop 68 = branchBytes E tx i siblings := by
  have hsplit : branchData E blockHash tx i siblings =
      ((E.doubleSha256 tx).toList ++ (blockHash.toList ++ leBytes 4 tx.length)) ++
        branchBytes E tx i siblings := by
    simp only [branchData, branchBytes, List.append_assoc]
  rw [hsplit]
  exact List.drop_left' (by simp)

lemma length_branchBytes {siblings : List Hash} :
    (branchBytes E tx i siblings).length = 41 + siblings.length * 32 := by
  simp only [branchBytes, List.length_append, List.length_cons, Vector.length_toList, length_leBytes,
    length_flatMap]
  omega

lemma length_branchData {blockHash : Hash} {siblings : List Hash} :
    (branchData E blockHash tx i siblings).length = 109 + siblings.length * 32 := by
  simp only [branchData, List.length_append, List.length_cons, Vector.length_toList, length_leBytes,
    length_flatMap]
  omega

lemma pathLen_branchBytes {siblings : List Hash} (hlen : siblings.length ≤ maxPathLen) :
    ((branchBytes E tx i siblings).getD 36 0).toNat = siblings.length := by
  have hmax : siblings.length ≤ 20 := hlen
  have hsplit : branchBytes E tx i siblings = ((E.doubleSha256 tx).toList ++ leBytes 4 i) ++
      (UInt8.ofNat siblings.length :: (leBytes 4 i ++ siblings.flatMap Vector.toList)) := by
    simp only [branchBytes, List.append_assoc]
  rw [hsplit, List.getD_append_right _ _ _ _ (by simp)]
  simp only [List.length_append, Vector.length_toList, length_leBytes]
  rw [List.getD_cons_zero, UInt8.toNat_ofNat']
  omega

lemma siblings_branchBytes {siblings : List Hash} :
    ((List.range siblings.length).map fun k => (slice 32 (branchBytes E tx i siblings) (41 + k * 32) : Hash)) =
      siblings := by
  refine List.ext_getElem (by simp) fun k hk hk' => ?_
  have hsplit : branchBytes E tx i siblings = ((E.doubleSha256 tx).toList ++ (leBytes 4 i ++
      (UInt8.ofNat siblings.length :: leBytes 4 i))) ++ siblings.flatMap Vector.toList := by
    simp only [branchBytes, List.append_assoc, List.cons_append]
  have hread := slice_flatMap hk' []
  rw [List.append_nil] at hread
  rw [List.getElem_map, List.getElem_range, hsplit, ← hread]
  have hlen : ((E.doubleSha256 tx).toList ++ (leBytes 4 i ++
      (UInt8.ofNat siblings.length :: leBytes 4 i))).length = 41 := by simp
  rw [← hlen]
  exact slice_append 32 _ _ (k * 32)

/-- **The proof is read back** from its bytes. -/
lemma parseProof_branchData {blockHash : Hash} {siblings : List Hash}
    (hlen : siblings.length ≤ maxPathLen) (hi : i < 2 ^ 32) :
    parseProof (branchData E blockHash tx i siblings) = .ok (branchProof E blockHash tx i siblings) := by
  have hindex : i % 2 ^ 32 = i := Nat.mod_eq_of_lt hi
  have htxid : slice 32 (branchData E blockHash tx i siblings) 0 = E.doubleSha256 tx :=
    slice_toList_append ..
  have hblock : slice 32 (branchData E blockHash tx i siblings) 32 = blockHash :=
    (slice_behind (by simp) _).trans (slice_toList_append ..)
  have hsize : u32At (branchData E blockHash tx i siblings) 64 = tx.length % 2 ^ 32 := by
    rw [branchData, ← List.append_assoc]
    exact u32At_behind (by simp) _ _
  have hproof : slice 32 (branchBytes E tx i siblings) 0 = E.doubleSha256 tx :=
    slice_toList_append ..
  have hbits : u32At (branchBytes E tx i siblings) 32 = i :=
    (u32At_behind (by simp) _ _).trans hindex
  have hplace : u32At (branchBytes E tx i siblings) 37 = i := by
    have hsplit : branchBytes E tx i siblings = ((E.doubleSha256 tx).toList ++ (leBytes 4 i ++
        [UInt8.ofNat siblings.length])) ++ (leBytes 4 i ++ siblings.flatMap Vector.toList) := by
      simp only [branchBytes, List.append_assoc, List.singleton_append]
    rw [hsplit]
    exact (u32At_behind (by simp) _ _).trans hindex
  simp only [parseProof, bind_eq_ok, require_eq_ok, exists_const, pure_eq_ok, branchData_drop,
    length_branchData, length_branchBytes, pathLen_branchBytes hlen, htxid, hblock, hsize, hproof,
    hbits, hplace, siblings_branchBytes]
  exact ⟨by omega, by omega, hlen, le_rfl, rfl⟩

/-! ### Completeness -/

/-- The branch hashes up to the root. -/
lemma merkleRootFrom_branch (h : block[i]? = some tx) : merkleRoot E block =
    some (merkleRootFrom E (E.doubleSha256 tx) i (merkleBranch E block i)) := by
  have hleaf : (txids E block)[i]? = some (E.doubleSha256 tx) := by
    rw [txids, List.getElem?_map, h, Option.map_some]
  rw [merkleRoot, root_branch hleaf, ← pathFrom_branch]
  exact congrArg some (climb_eq_walk E i 0 _ _).symm

lemma length_merkleBranch (h : block[i]? = some tx) (hlen : block.length ≤ 2 ^ maxPathLen) :
    (merkleBranch E block i).length ≤ maxPathLen := by
  have hleaf : (txids E block)[i]? = some (E.doubleSha256 tx) := by
    rw [txids, List.getElem?_map, h, Option.map_some]
  rw [merkleBranch, List.length_map, (walk_branch (H := nodeHash E) hleaf).2, height, txids,
    List.length_map]
  exact Nat.clog_le_of_le_pow hlen

/-- **Completeness**: the branch of every transaction of a block, with the transaction's index, is a
proof, it hashes up to the block's root, and it is accepted for a buffer with the transaction. -/
theorem branch_accepted {blockHash : Hash} (h : block[i]? = some tx)
    (hlen : block.length ≤ 2 ^ maxPathLen) (h64 : ∀ t ∈ block, t.length ≠ 64) : ∃ root d,
    merkleRoot E block = some root ∧
      parseProof (branchData E blockHash tx i (merkleBranch E block i)) = .ok d ∧
      d.txid = E.doubleSha256 tx ∧ merkleRootFrom E d.txid d.pathBits d.siblings = root ∧
      (tx.length < 2 ^ 32 → ∀ (header : Hash) (rest : List UInt8),
        checkInclusion E d (header.toList ++ (tx ++ rest)) root = .ok ()) := by
  have hi : i < 2 ^ 32 := by
    obtain ⟨hlt, -⟩ := List.getElem?_eq_some_iff.mp h
    exact (hlt.trans_le hlen).trans (by decide)
  refine ⟨_, _, merkleRootFrom_branch h, parseProof_branchData (length_merkleBranch h hlen) hi, rfl, rfl,
    fun hfits header rest => ?_⟩
  have hsize : tx.length % 2 ^ 32 = tx.length := Nat.mod_eq_of_lt hfits
  have hraw : rawTransaction tx.length (header.toList ++ (tx ++ rest)) = tx := by
    rw [rawTransaction, List.drop_left' (by simp), List.take_left]
  simp only [checkInclusion, branchProof, bind_eq_ok, require_eq_ok, exists_const, hsize, hraw]
  refine ⟨?_, h64 tx (List.mem_of_getElem? h), trivial, trivial, trivial⟩
  simp only [List.length_append, Vector.length_toList]
  omega

open Regtest in
/-- The last of three transactions, which is its own sibling. -/
theorem branch_accepted_last : ∃ root d, merkleRoot env [payment, [4], [5, 6]] = some root ∧
    parseProof (branchData env (zeros 32) [5, 6] 2 (merkleBranch env [payment, [4], [5, 6]] 2)) = .ok d ∧
      checkInclusion env d ((zeros 32).toList ++ ([5, 6] ++ [])) root = .ok () := by
  have hlast : [payment, [4], [5, 6]][2]? = some [5, 6] := rfl
  obtain ⟨root, d, hroot, hd, -, -, haccepted⟩ :=
    branch_accepted (E := env) hlast (by decide) (by decide)
  exact ⟨root, d, hroot, hd, haccepted (by decide) (zeros 32) []⟩

end Utxopia.LightClient.Completeness
