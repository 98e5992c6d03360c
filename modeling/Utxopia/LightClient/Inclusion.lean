import Mathlib.Data.Nat.Bitwise
import Utxopia.Lib.MerkleTree
import Utxopia.LightClient.VerifyTransaction

/-!
What an accepted path says about a block.

A block's transactions hash to the leaves of its Merkle tree. A path of the tree's height ends
at a leaf, a shorter one at a node, whose bytes are 64 long and refused. A longer one goes below
a leaf, which takes a transaction of 64 bytes that reads as a node.
-/

namespace Utxopia.LightClient.Inclusion

open Utxopia.ByteString Utxopia.Check Utxopia.MerkleTree Utxopia.LightClient.Accounts
open Utxopia.LightClient.VerifyTransaction

/-! ### A block's tree -/

/-- The bytes of a node: its two children. -/
def nodeBytes (q : Hash × Hash) : List UInt8 := q.1.toList ++ q.2.toList

def nodeHash (E : Env) (q : Hash × Hash) : Hash := E.doubleSha256 (nodeBytes q)

def txids (E : Env) (block : List (List UInt8)) : List Hash := block.map E.doubleSha256

/-- The Merkle root of a block, given by its raw transactions. -/
def merkleRoot (E : Env) (block : List (List UInt8)) : Option Hash := root (nodeHash E) (txids E block)

lemma length_nodeBytes (q : Hash × Hash) : (nodeBytes q).length = 64 := by
  rw [nodeBytes, List.length_append, Vector.length_toList, Vector.length_toList]

lemma nodeBytes_injective : Function.Injective nodeBytes := by
  rintro ⟨a, b⟩ ⟨c, d⟩ h
  obtain ⟨h1, h2⟩ := List.append_inj h (by simp)
  exact Prod.ext (Vector.toList_inj.mp h1) (Vector.toList_inj.mp h2)

/-- The transactions and the nodes of a block's tree are among the strings. -/
structure TreeIn (E : Env) (S : Set (List UInt8)) (block : List (List UInt8)) : Prop where
  transactions : ∀ tx ∈ block, tx ∈ S
  nodes : ∀ q ∈ pairsBelow (nodeHash E) (txids E block) (height (txids E block)), nodeBytes q ∈ S

/-! ### A path of the instruction -/

/-- The sides and siblings from level `i` on. -/
def pathFrom (pathBits : ℕ) : ℕ → List Hash → List (Bool × Hash)
  | _, [] => []
  | i, sibling :: rest => (pathBits.testBit i, sibling) :: pathFrom pathBits (i + 1) rest

def provenPath (d : VerifyData) : List (Bool × Hash) := pathFrom d.pathBits 0 d.siblings

lemma length_pathFrom (pathBits i : ℕ) (siblings : List Hash) :
    (pathFrom pathBits i siblings).length = siblings.length := by
  induction siblings generalizing i with
  | nil => rfl
  | cons s rest ih => rw [pathFrom, List.length_cons, ih, List.length_cons]

lemma climb_eq_walk (E : Env) (pathBits i : ℕ) (x : Hash) (siblings : List Hash) :
    (siblings.foldl (climb E pathBits) (x, i)).1 = walk (nodeHash E) x (pathFrom pathBits i siblings) := by
  induction siblings generalizing i x with
  | nil => rfl
  | cons s rest ih =>
    rw [List.foldl_cons, pathFrom, climb, ih]
    cases pathBits.testBit i <;> rfl

lemma merkleRootFrom_eq_walk (E : Env) (d : VerifyData) (txid : Hash) :
    merkleRootFrom E txid d.pathBits d.siblings = walk (nodeHash E) txid (provenPath d) :=
  climb_eq_walk E d.pathBits 0 txid d.siblings

/-- Any sides are the bits of a number. -/
lemma exists_pathBits (path : List (Bool × Hash)) : ∃ pathBits, pathBits < 2 ^ path.length ∧
    ∀ i, pathFrom (pathBits <<< i) i (path.map Prod.snd) = path := by
  induction path with
  | nil => exact ⟨0, by simp, fun _ => rfl⟩
  | cons e path ih =>
    obtain ⟨n, hlt, hpath⟩ := ih
    refine ⟨Nat.bit e.1 n, ?_, fun i => ?_⟩
    · rw [List.length_cons, Nat.pow_succ, Nat.bit_val]
      cases e.1 <;> simp <;> omega
    · have hstep : ∀ (l : List Hash) (k : ℕ), i < k →
          pathFrom (Nat.bit e.1 n <<< i) k l = pathFrom (n <<< (i + 1)) k l := fun l => by
        induction l with
        | nil => exact fun _ _ => rfl
        | cons s rest ihl =>
          intro k hk
          rw [pathFrom, pathFrom, ihl (k + 1) (by omega)]
          obtain ⟨j, rfl⟩ : ∃ j, k = i + 1 + j := ⟨k - (i + 1), by omega⟩
          rw [Nat.testBit_shiftLeft, Nat.testBit_shiftLeft, show i + 1 + j - i = j + 1 by omega,
            show i + 1 + j - (i + 1) = j by omega, Nat.testBit_bit_succ]
          simp
          omega
      rw [List.map_cons, pathFrom, hstep _ (i + 1) (Nat.lt_succ_self i), hpath (i + 1),
        Nat.testBit_shiftLeft, Nat.sub_self, Nat.testBit_bit_zero]
      simp

/-- What the fields of the instruction's data can hold. -/
structure InRange (d : VerifyData) : Prop where
  siblings : d.siblings.length ≤ maxPathLen
  pathBits : d.pathBits < 2 ^ 32
  txSize : d.txSize < 2 ^ 32

/-! ### Below a leaf -/

/-- A string of 64 bytes that has a hash in one of its halves, at once or through other such
strings: `n` levels down. -/
inductive Spells (E : Env) (S : Set (List UInt8)) (h : Hash) : ℕ → List UInt8 → Prop
  | half (side : Bool) (sibling : Hash) : Spells E S h 1 (nodeBytes (ordered side h sibling))
  | deeper {n : ℕ} {t : List UInt8} (side : Bool) (sibling : Hash) (mem : t ∈ S)
      (spells : Spells E S h n t) :
      Spells E S h (n + 1) (nodeBytes (ordered side (E.doubleSha256 t) sibling))

variable {E : Env} {S : Set (List UInt8)} {block : List (List UInt8)} {x : Hash}

/-- The strings a path hashes are among the strings. -/
def PathIn (E : Env) (S : Set (List UInt8)) (x : Hash) (path : List (Bool × Hash)) : Prop :=
  ∀ q ∈ walkPairs (nodeHash E) x path, nodeBytes q ∈ S

lemma PathIn.left {p r : List (Bool × Hash)} (h : PathIn E S x (p ++ r)) : PathIn E S x p :=
  fun q hq => h q (by rw [walkPairs_append]; exact List.mem_append_left _ hq)

lemma PathIn.last {p : List (Bool × Hash)} {e : Bool × Hash} (h : PathIn E S x (p ++ [e])) :
    nodeBytes (ordered e.1 (walk (nodeHash E) x p) e.2) ∈ S :=
  h _ (by rw [walkPairs_append]; exact List.mem_append_right _ List.mem_cons_self)

/-- The last string a path hashes spells the hash it begins with. -/
lemma spells_of_path {p : List (Bool × Hash)} (h : PathIn E S x p) (side : Bool) (sibling : Hash) :
    Spells E S x (p.length + 1) (nodeBytes (ordered side (walk (nodeHash E) x p) sibling)) := by
  induction p using List.reverseRecOn generalizing side sibling with
  | nil => exact .half side sibling
  | append_singleton p e ih =>
    rw [List.length_append, List.length_singleton, walk_concat]
    exact .deeper side sibling h.last (ih h.left e.1 e.2)

lemma path_of_spells {n : ℕ} {t : List UInt8} (h : Spells E S x n t) :
    ∃ (p : List (Bool × Hash)) (e : Bool × Hash), n = p.length + 1 ∧
      t = nodeBytes (ordered e.1 (walk (nodeHash E) x p) e.2) ∧ PathIn E S x p := by
  induction h with
  | half side sibling => exact ⟨[], (side, sibling), rfl, rfl, fun q hq => absurd hq List.not_mem_nil⟩
  | @deeper n t side sibling mem _ ih =>
    obtain ⟨p, e, rfl, rfl, hp⟩ := ih
    refine ⟨p ++ [e], (side, sibling), by simp, by rw [walk_concat]; rfl, fun q hq => ?_⟩
    rw [walkPairs_append, List.mem_append] at hq
    rcases hq with hq | hq
    · exact hp q hq
    · obtain rfl : q = ordered e.1 (walk (nodeHash E) x p) e.2 := by simpa [walkPairs] using hq
      exact mem

/-! ### Accepted bytes -/

lemma nodeHash_injOn (hinj : Set.InjOn E.doubleSha256 S) :
    Set.InjOn (nodeHash E) {q | nodeBytes q ∈ S} :=
  fun _ hq _ hq' h => nodeBytes_injective (hinj hq hq' h)

section Accepted

variable (hinj : Set.InjOn E.doubleSha256 S) (hblock : TreeIn E S block)
include hinj hblock

/-- A leaf is the hash of a transaction. -/
lemma exists_transaction {t : List UInt8} (ht : t ∈ S) (h : E.doubleSha256 t ∈ txids E block) :
    t ∈ block := by
  obtain ⟨tx, htx, heq⟩ := List.mem_map.mp h
  rwa [← hinj (hblock.transactions tx htx) ht heq]

section Walk

variable {raw : List UInt8} {path : List (Bool × Hash)}
variable (hpath : PathIn E S (E.doubleSha256 raw) path)
  (h : walk (nodeHash E) (E.doubleSha256 raw) path ∈
    level (nodeHash E) (txids E block) (height (txids E block)))
include hpath h

/-- A walk from bytes that are not a node's begins at the leaves or below. -/
lemma height_le_length (hraw : raw ∈ S) (hsize : raw.length ≠ 64) :
    height (txids E block) ≤ path.length := by
  by_contra hlt
  have hmem := walk_mem_of_walk_append (p := []) (nodeHash_injOn hinj)
    (fun q hq => hblock.nodes q hq) (by omega) hpath h
  obtain ⟨k, hk⟩ : ∃ k, height (txids E block) - path.length = k + 1 :=
    ⟨height (txids E block) - path.length - 1, by omega⟩
  rw [hk, level_succ] at hmem
  obtain ⟨q, hq, heq⟩ := List.mem_map.mp hmem
  -- above the leaves the bytes would be those of a node
  have hnode := hinj (hblock.nodes q ⟨k, by omega, hq⟩) hraw heq
  exact hsize (hnode ▸ length_nodeBytes q)

/-- A longer walk than the tree is high comes through a transaction that reads as a node. -/
lemma transaction_on_way (hgt : height (txids E block) < path.length) :
    ∃ p e r, path = p ++ [e] ++ r ∧ r.length = height (txids E block) ∧
      nodeBytes (ordered e.1 (walk (nodeHash E) (E.doubleSha256 raw) p) e.2) ∈ block := by
  obtain ⟨p, r, rfl, hr⟩ : ∃ p r, path = p ++ r ∧ r.length = height (txids E block) :=
    ⟨_, _, (List.take_append_drop (path.length - height (txids E block)) path).symm, by
      rw [List.length_drop]; omega⟩
  have hmem := walk_mem_of_walk_append (nodeHash_injOn hinj) (fun q hq => hblock.nodes q hq) hr.le
    hpath h
  rw [hr, Nat.sub_self, level_zero] at hmem
  rw [List.length_append] at hgt
  obtain ⟨p', e, rfl⟩ : ∃ p' e, p = p' ++ [e] := by
    rcases List.eq_nil_or_concat p with rfl | ⟨p', e, rfl⟩
    · exact absurd hgt (by simp [hr])
    · exact ⟨p', e, List.concat_eq_append⟩
  rw [walk_concat] at hmem
  exact ⟨p', e, r, rfl, hr, exists_transaction hinj hblock hpath.left.last hmem⟩

/-- **Bytes that hash up to the root** are a transaction of the block, unless the path goes below
a transaction that spells their hash. -/
theorem mem_or_spells (hraw : raw ∈ S) (hsize : raw.length ≠ 64) :
    raw ∈ block ∨ ∃ tx ∈ block, ∃ n, height (txids E block) + n = path.length ∧
      Spells E S (E.doubleSha256 raw) n tx := by
  rcases (height_le_length hinj hblock hpath h hraw hsize).eq_or_lt with heq | hgt
  · have hmem := walk_mem_of_walk_append (p := []) (nodeHash_injOn hinj)
      (fun q hq => hblock.nodes q hq) heq.ge hpath h
    rw [heq, Nat.sub_self] at hmem
    exact .inl (exists_transaction hinj hblock hraw hmem)
  · obtain ⟨p, e, r, rfl, hr, htx⟩ := transaction_on_way hinj hblock hpath h hgt
    refine .inr ⟨_, htx, p.length + 1, ?_, spells_of_path hpath.left.left e.1 e.2⟩
    rw [List.length_append, List.length_append, List.length_singleton, hr]
    omega

end Walk

/-- What the instruction's proof checks should establish: accepted bytes are in the block. -/
def Sound (E : Env) (S : Set (List UInt8)) (block : List (List UInt8)) : Prop :=
  ∀ d buffer r, InRange d → rawTransaction d.txSize buffer ∈ S → PathIn E S d.txid (provenPath d) →
    merkleRoot E block = some r → checkInclusion E d buffer r = .ok () →
    rawTransaction d.txSize buffer ∈ block

/-- No transaction of the block spells, in as many levels as a path has room for below a leaf,
the hash of bytes from outside the block. -/
def NoSpelling (E : Env) (S : Set (List UInt8)) (block : List (List UInt8)) : Prop :=
  ∀ raw ∈ S, raw.length ≠ 64 → raw.length < 2 ^ 32 → raw ∉ block → ∀ tx ∈ block, ∀ n,
    height (txids E block) + n ≤ maxPathLen → ¬ Spells E S (E.doubleSha256 raw) n tx

lemma sound_of_noSpelling (hne : block ≠ []) (h : NoSpelling E S block) : Sound E S block := by
  intro d buffer r hd hraw hpath hr hcheck
  have hinc := checkInclusion_ok hd.siblings hcheck
  have htop := top_level (l := txids E block) (by simpa [txids] using hne) hr
  by_contra hnot
  rw [← hinc.txid] at hpath
  have hwalk : walk (nodeHash E) (E.doubleSha256 (rawTransaction d.txSize buffer)) (provenPath d) ∈
      level (nodeHash E) (txids E block) (height (txids E block)) := by
    rw [htop, List.mem_singleton, ← merkleRootFrom_eq_walk, hinc.txid]
    exact hinc.path
  rcases mem_or_spells hinj hblock hpath hwalk hraw hinc.size with hmem | ⟨tx, htx, n, hn, hsp⟩
  · exact hnot hmem
  · have hlen : (provenPath d).length = d.siblings.length := length_pathFrom ..
    have hsmall : (rawTransaction d.txSize buffer).length < 2 ^ 32 :=
      (List.length_take_le ..).trans_lt hd.txSize
    exact h _ hraw hinc.size hsmall hnot tx htx n (by have := hd.siblings; omega) hsp

end Accepted

/-- A path of any kind can be presented. -/
lemma exists_proof {raw : List UInt8} {path : List (Bool × Hash)} (hsize : raw.length ≠ 64)
    (hsmall : raw.length < 2 ^ 32) (hlen : path.length ≤ maxPathLen) :
    ∃ d buffer, InRange d ∧ rawTransaction d.txSize buffer = raw ∧ d.txid = E.doubleSha256 raw ∧
      provenPath d = path ∧ checkInclusion E d buffer (walk (nodeHash E) (E.doubleSha256 raw) path) =
        .ok () := by
  obtain ⟨pathBits, hbits, hpath⟩ := exists_pathBits path
  let d : VerifyData := ⟨E.doubleSha256 raw, zeros 32, raw.length, E.doubleSha256 raw, pathBits, 0,
    path.map Prod.snd⟩
  have hraw : rawTransaction raw.length ((zeros 32).toList ++ raw) = raw := by
    rw [rawTransaction, List.drop_left' (by simp), List.take_length]
  have hd : provenPath d = path := by
    have := hpath 0
    rwa [Nat.shiftLeft_zero] at this
  have hle : path.length ≤ 20 := hlen
  refine ⟨d, (zeros 32).toList ++ raw, ⟨by simpa [d] using hlen, ?_, hsmall⟩, hraw, rfl, hd, ?_⟩
  · exact hbits.trans_le (Nat.pow_le_pow_right (by decide) (by omega))
  · simp only [checkInclusion, bind_eq_ok, require_eq_ok, exists_const]
    refine ⟨by simp [d], hsize, congrArg _ hraw, rfl, ?_⟩
    rw [merkleRootFrom_eq_walk, hd]

lemma noSpelling_of_sound (hne : block ≠ []) (hblock : TreeIn E S block) (h : Sound E S block) :
    NoSpelling E S block := by
  intro raw hraw hsize hsmall hnot tx htx n hn hsp
  obtain ⟨p, e, rfl, rfl, hp⟩ := path_of_spells hsp
  -- below the transaction, then up from it
  have hleaf : walk (nodeHash E) (E.doubleSha256 raw) (p ++ [e]) ∈ txids E block := by
    rw [walk_concat]
    exact List.mem_map_of_mem htx
  obtain ⟨q, hq, hmem, hall⟩ := exists_walk hleaf (height (txids E block))
  obtain ⟨r, hr⟩ : ∃ r, merkleRoot E block = some r := by
    have hlen := length_level (H := nodeHash E) (l := txids E block) (by simpa [txids] using hne)
      (Nat.le_pow_clog (by decide) _)
    obtain ⟨r, hr⟩ := List.length_eq_one_iff.mp hlen
    exact ⟨r, by rw [merkleRoot, root, height, hr]; rfl⟩
  have htop := top_level (l := txids E block) (by simpa [txids] using hne) hr
  have hwalk : walk (nodeHash E) (E.doubleSha256 raw) (p ++ [e] ++ q) = r := by
    rw [htop, List.mem_singleton] at hmem
    rw [walk_append, hmem]
  have hin : PathIn E S (E.doubleSha256 raw) (p ++ [e] ++ q) := fun a ha => by
    rw [walkPairs_append, walkPairs_append, List.mem_append, List.mem_append] at ha
    rcases ha with (ha | ha) | ha
    · exact hp a ha
    · obtain rfl : a = ordered e.1 (walk (nodeHash E) (E.doubleSha256 raw) p) e.2 := by
        simpa [walkPairs] using ha
      exact hblock.transactions _ htx
    · exact hblock.nodes a (hall a ha)
  obtain ⟨d, buffer, hd, heq, htxid, hpath, hcheck⟩ := @exists_proof E raw
    (p ++ [e] ++ q) hsize hsmall (by
      rw [List.length_append, List.length_append, List.length_singleton, hq]
      omega)
  rw [hwalk] at hcheck
  refine hnot (heq ▸ h d buffer r hd (heq ▸ hraw) ?_ hr hcheck)
  rw [htxid, hpath]
  exact hin

lemma height_txids_singleton (tx : List UInt8) : height (txids E [tx]) = 0 := Nat.clog_one_right 2

lemma treeIn_singleton {tx : List UInt8} (h : tx ∈ S) : TreeIn E S [tx] := by
  refine ⟨fun t ht => by rwa [List.mem_singleton.mp ht], fun q hq => ?_⟩
  obtain ⟨m, hm, -⟩ := hq
  rw [height_txids_singleton] at hm
  exact absurd hm (Nat.not_lt_zero m)

namespace Regtest

/-- A stand-in for the hash. -/
def mixed (d : List UInt8) : Hash :=
  toLe 32 (d.foldl (fun h b => (h * 257 + b.toNat + 1) % 2 ^ 248) 7)

def env : Env := ⟨mixed, fun _ => 0, false⟩

/-- Bytes that are in no block. -/
def payment : List UInt8 := [1, 2, 3]

/-- A transaction of 64 bytes that begins with the hash of those bytes. -/
def spelling : List UInt8 := nodeBytes (env.doubleSha256 payment, zeros 32)

lemma doubleSha256_ne : env.doubleSha256 payment ≠ env.doubleSha256 spelling := by decide +kernel

lemma injOn : Set.InjOn env.doubleSha256 {payment, spelling} := by
  rintro a (rfl | rfl) b (rfl | rfl) h
  · rfl
  · exact absurd h doubleSha256_ne
  · exact absurd h.symm doubleSha256_ne
  · rfl

end Regtest

end Utxopia.LightClient.Inclusion
