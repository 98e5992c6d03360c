import Utxopia.LightClient.Inclusion

/-!
The index in the record of a transaction.

The sides of an accepted path and the siblings that are not copies say where in its block the
transaction is. The index of the record is another field of the data, which is not compared with
them.
-/

namespace Utxopia.LightClient.TxIndex

open Utxopia.ByteString Utxopia.Check Utxopia.MerkleTree Utxopia.Runtime
open Utxopia.LightClient.Accounts Utxopia.LightClient.VerifyTransaction
open Utxopia.LightClient.Inclusion

variable {E : Env} {S : Set (List UInt8)} {block : List (List UInt8)} {s s' : State}
  {d : VerifyData} {data buffer : List UInt8} {now : ℤ} {accounts : List AccountInfo}
  {header : BlockHeader} {raw : List UInt8}

/-! ### The index of a path -/

/-- The index among the block's transactions that a path of the tree's height leads up from. -/
def pathIndex (E : Env) (d : VerifyData) : ℕ := walkIndex (nodeHash E) d.txid (provenPath d)

lemma walk_eq_root (hroot : merkleRoot E block = some header.merkleRoot) (hne : block ≠ [])
    (hinc : Included E d raw header.merkleRoot) :
    level (nodeHash E) (txids E block) (height (txids E block)) =
      [walk (nodeHash E) d.txid (provenPath d)] := by
  rw [top_level (by simpa [txids] using hne) hroot, ← merkleRootFrom_eq_walk, hinc.path]

section Path

variable (hinj : Set.InjOn E.doubleSha256 S) (hblock : TreeIn E S block)
  (hroot : merkleRoot E block = some header.merkleRoot)
  (hpath : PathIn E S d.txid (provenPath d))
include hinj hblock hroot hpath

/-- An accepted path is as long as the tree is high, unless a transaction of the block reads as a
node. -/
lemma length_siblings (hinc : Included E d raw header.merkleRoot) (hmem : raw ∈ block) :
    d.siblings.length = height (txids E block) ∨ ∃ tx ∈ block, tx.length = 64 := by
  have htop := walk_eq_root hroot (List.ne_nil_of_mem hmem) hinc
  rw [← hinc.txid] at htop hpath
  have hwalk : walk (nodeHash E) (E.doubleSha256 raw) (provenPath d) ∈
      level (nodeHash E) (txids E block) (height (txids E block)) := by
    rw [htop]
    exact List.mem_singleton_self _
  have hlen : (provenPath d).length = d.siblings.length := length_pathFrom ..
  have hraw := hblock.transactions raw hmem
  rcases (height_le_length hinj hblock hpath hwalk hraw hinc.size).eq_or_lt with heq | hgt
  · exact .inl (hlen ▸ heq.symm)
  · obtain ⟨p, e, r, -, -, htx⟩ := transaction_on_way hinj hblock hpath hwalk hgt
    exact .inr ⟨_, htx, length_nodeBytes _⟩

/-- **A path of the tree's height has the index of its transaction**, whichever sides it gives where
a node is its own sibling. -/
theorem getElem_pathIndex (hinc : Included E d raw header.merkleRoot) (hmem : raw ∈ block)
    (hlen : d.siblings.length = height (txids E block)) : block[pathIndex E d]? = some raw := by
  have htop := walk_eq_root hroot (List.ne_nil_of_mem hmem) hinc
  have hlen' : (provenPath d).length = height (txids E block) := (length_pathFrom ..).trans hlen
  have hat := getElem_walkIndex (nodeHash_injOn hinj) (fun q hq => hblock.nodes q hq) (m := 0)
    (j := 0) (by omega) hpath (by rw [htop]; rfl)
  rw [Nat.mul_zero, Nat.zero_add, level_zero, txids, List.getElem?_map,
    Option.map_eq_some_iff] at hat
  obtain ⟨tx, htx, heq⟩ := hat
  have hsame : tx = raw := hinj (hblock.transactions tx (List.mem_of_getElem? htx))
    (hblock.transactions raw hmem) (heq.trans hinc.txid.symm)
  rw [pathIndex, htx, hsame]

end Path

/-- A transaction is in one place. -/
lemma index_unique {i j : ℕ} (hnodup : (txids E block).Nodup) (hi : block[i]? = some raw)
    (hj : block[j]? = some raw) : i = j := by
  obtain ⟨hlt, -⟩ := List.getElem?_eq_some_iff.mp hi
  exact (List.getElem?_inj hlt (List.Nodup.of_map _ hnodup)).mp (hi.trans hj.symm)

/-! ### The index of the record -/

/-- The index of the record after an accepted call: that of the data, or of the record that was there
before. -/
def indexGiven (s : State) (d : VerifyData) : ℕ :=
  ((s.verified? (d.blockHash, d.txid)).map VerifiedTransaction.txIndex).getD d.txIndex

lemma recorded_index (h : processVerifyTransaction E s accounts data buffer now = .ok s')
    (hd : parseProof data = .ok d) : ∃ vt, s'.verified? (d.blockHash, d.txid) = some vt ∧
      vt.txIndex = indexGiven s d := by
  obtain ⟨d', lc, header, hd', -, -, -, -, hrec⟩ := processVerifyTransaction_ok h
  obtain rfl := Except.ok.inj (hd.symm.trans hd')
  rcases hrec with ⟨vt, hvt, rfl⟩ | ⟨hnone, hrec⟩
  · exact ⟨vt, hvt, by rw [indexGiven, hvt]; rfl⟩
  · exact ⟨d.record lc header now, by rw [hrec, Function.update_self], by rw [indexGiven, hnone]; rfl⟩

/-- The index given is the one of the path. A path that is longer than the tree is high goes below
some other transaction and does not say where its own is. -/
def IndexMatches (E : Env) (block : List (List UInt8)) (s : State) (d : VerifyData)
    (raw : List UInt8) : Prop :=
  if d.siblings.length = height (txids E block) then indexGiven s d = pathIndex E d
  else block[indexGiven s d]? = some raw

namespace Regtest

open Inclusion.Regtest

/-- A block of one short transaction, at the bottom of the chain. -/
def single : BlockHeader where
  version := zeros 4
  prevBlockHash := zeros 32
  merkleRoot := env.doubleSha256 payment
  timestamp := 0
  bits := 0
  nonce := zeros 4
  blockHash := zeros 32
  chainwork := zeros 32
  height := 0
  submittedAt := 0
  epochBits := 0
  epochStartTime := 0
  reinitEpoch := 0

def client : BitcoinLightClient where
  network := networkRegtest
  authority := .other (zeros 32)
  genesisHash := zeros 32
  tipHash := zeros 32
  totalChainwork := zeros 32
  tipHeight := requiredConfirmations
  finalizedHeight := 0
  headerCount := 1
  lastUpdate := 0
  expectedBits := 0
  epochStartTime := 0
  reinitEpoch := 0

/-- The block is final and nothing is verified. -/
def final : State where
  lightClient := ⟨1, .program, .live client⟩
  block := Function.update (fun _ => .fresh) (zeros 32) ⟨1, .program, .live single⟩
  heightIndex := Function.update (fun _ => .fresh) 0 ⟨1, .program, .live ⟨zeros 32, 0⟩⟩
  verified := fun _ => .fresh

def txid : Hash := env.doubleSha256 payment

def infos : List AccountInfo :=
  [⟨.verifiedTx (zeros 32) txid, false⟩, ⟨.lightClient, false⟩, ⟨.block (zeros 32), false⟩,
    ⟨.heightIndex 0, false⟩, ⟨.other (zeros 32), false⟩, ⟨.other (zeros 32), true⟩,
    ⟨.other (zeros 32), false⟩]

/-- The transaction, with an empty path and an index. -/
def proofOf (txIndex : ℕ) : VerifyData :=
  ⟨txid, zeros 32, 3, txid, 0, txIndex, []⟩

/-- The instruction's data for it. -/
def dataOf (txIndex : ℕ) : List UInt8 :=
  txid.toList ++ (zeros 32).toList ++ leBytes 4 3 ++ txid.toList ++ leBytes 4 0 ++ [0] ++
    leBytes 4 txIndex

/-- The buffer with the transaction. -/
def paymentBuffer : List UInt8 := (zeros 32).toList ++ payment

lemma parse_zero : parseProof (dataOf 0) = .ok (proofOf 0) := by rfl

lemma parse_seven : parseProof (dataOf 7) = .ok (proofOf 7) := by rfl

lemma accepted_zero :
    (processVerifyTransaction env final infos (dataOf 0) paymentBuffer 0).toOption.isSome = true := by
  decide +kernel

lemma accepted_seven :
    (processVerifyTransaction env final infos (dataOf 7) paymentBuffer 0).toOption.isSome = true := by
  decide +kernel

lemma payment_in_block (i : ℕ) :
    rawTransaction (proofOf i).txSize paymentBuffer ∈ [payment] :=
  List.mem_singleton.mpr rfl

lemma merkleRoot_single : merkleRoot env [payment] = some single.merkleRoot := by
  rw [merkleRoot, root, height_txids_singleton]
  rfl

lemma pathIn (i : ℕ) : PathIn env {payment} (proofOf i).txid (provenPath (proofOf i)) :=
  fun _ hq => absurd hq List.not_mem_nil

end Regtest

end Utxopia.LightClient.TxIndex
