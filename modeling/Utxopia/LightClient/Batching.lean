import Utxopia.Lib.Encoding
import Utxopia.LightClient.Finality
import Utxopia.LightClient.Tip

/-!
Batches of headers on the tip.

A batch reads the state that the one before it left: the median-time window from the stored
ancestors, the difficulty parameters and the work from the stored parent. All of it is what a
longer batch would have carried along, so where a sequence of headers is cut makes no
difference.
-/

namespace Utxopia.LightClient.Batching

open Utxopia.ByteString Utxopia.Check Utxopia.Encoding Utxopia.Positional Utxopia.Run Utxopia.Runtime
open Utxopia.LightClient.Accounts Utxopia.LightClient.Initialize Utxopia.LightClient.Extend
open Utxopia.LightClient.VerifyTransaction Utxopia.LightClient.Pow Utxopia.LightClient.Chain
open Utxopia.LightClient.Work Utxopia.LightClient.Tip

/-- A batch and the account that submits it. -/
structure Batch where
  submitter : Addr
  raws : List RawHeader

/-- The stored headers before `hdr`, latest first, down to the start block. -/
def lineage (s : State) (genesis : Hash) : ℕ → BlockHeader → List BlockHeader
  | 0, _ => []
  | n + 1, hdr =>
    if hdr.blockHash = genesis then []
    else
      match s.header? hdr.prevBlockHash with
      | some p => p :: lineage s genesis n p
      | none => []

def blockInfo (h : Hash) : AccountInfo := ⟨.block h, false⟩
def indexInfo (n : ℕ) : AccountInfo := ⟨.heightIndex n, false⟩

/-- The ancestor accounts: ten of them, or all down to the start block. -/
def ancestorsOf (s : State) (lc : BitcoinLightClient) (parent : BlockHeader) : List AccountInfo :=
  (lineage s lc.genesisHash 10 parent).map fun hdr => blockInfo hdr.blockHash

def batchData (raws : List RawHeader) (ancestors : ℕ) : List UInt8 :=
  UInt8.ofNat raws.length :: (raws.flatMap Vector.toList ++ [UInt8.ofNat ancestors])

/-- The accounts after the parent. -/
def batchRest (E : Env) (raws : List RawHeader) (height : ℕ) (ancestors : List AccountInfo) :
    List AccountInfo :=
  raws.map (fun raw => blockInfo (blockHashOf E raw)) ++
    ((List.range raws.length).map (fun i => indexInfo (height + 1 + i)) ++
      (ancestors ++ [indexInfo height]))

/-- The batch on the tip, with the accounts it needs. -/
def extendTip (E : Env) (now : ℤ) (s : State) (b : Batch) : Except ProgramError State := do
  let lc ← orElse s.lc? .InvalidAccountData
  let parent ← orElse (s.header? lc.tipHash) .InvalidAccountData
  let ancestors := ancestorsOf s lc parent
  processExtendBlockchain E s
    (⟨.lightClient, false⟩ :: ⟨b.submitter, true⟩ :: ⟨.other (zeros 32), false⟩ ::
      blockInfo lc.tipHash :: batchRest E b.raws parent.height ancestors)
    (batchData b.raws ancestors.length) now

/-- The batches one after the other. -/
def extendAll (E : Env) (now : ℤ) (s : State) (bs : List Batch) : Except ProgramError State :=
  loop (extendTip E now) s bs

/-! ### The instruction data -/

section Data

variable {raws : List RawHeader} (k : ℕ)

lemma numHeaders_batchData (hlen : raws.length ≤ 10) : numHeaders (batchData raws k) = raws.length := by
  rw [numHeaders, batchData, List.getD_cons_zero, UInt8.toNat_ofNat']
  omega

lemma numAncestors_batchData (hlen : raws.length ≤ 10) (hk : k ≤ 10) :
    numAncestors (batchData raws k) = k := by
  rw [numAncestors, numHeaders_batchData k hlen, batchData, Nat.add_comm 1, List.getD_cons_succ,
    List.getD_append_right _ _ _ _ (length_flatMap raws).le, length_flatMap, Nat.sub_self,
    List.getD_cons_zero, UInt8.toNat_ofNat']
  omega

lemma rawHeaders_batchData (hlen : raws.length ≤ 10) : rawHeaders (batchData raws k) = raws := by
  rw [rawHeaders, numHeaders_batchData k hlen]
  refine List.ext_getElem (by simp) fun i hi hi' => ?_
  rw [List.getElem_map, List.getElem_range, batchData, ← List.singleton_append]
  exact (slice_append 80 [_] _ (i * 80)).trans (slice_flatMap hi' _)

lemma length_batchData : (batchData raws k).length = 1 + raws.length * 80 + 1 := by
  simp only [batchData, List.length_cons, List.length_append, length_flatMap, List.length_nil]
  omega

lemma firstPrev_batchData {raw : RawHeader} {rest : List RawHeader} :
    slice 32 (batchData (raw :: rest) k) (1 + 4) = raw.prevBlockHash := by
  rw [batchData, ← List.singleton_append, List.flatMap_cons, List.append_assoc]
  refine (slice_append 32 [_] _ 4).trans (Vector.toList_inj.mp ?_)
  rw [RawHeader.prevBlockHash, toList_slice (by simp; omega), toList_slice (by simp),
    List.drop_append_of_le_length (by simp), List.take_append_of_le_length (by simp)]

end Data

/-! ### The accounts -/

section Rest

variable (E : Env) (raws : List RawHeader) (height : ℕ) (ancestors : List AccountInfo)

lemma batchRest_headers :
    (batchRest E raws height ancestors).take raws.length =
      raws.map fun raw => blockInfo (blockHashOf E raw) := by
  rw [batchRest, List.take_append_of_le_length (by simp), List.take_of_length_le (by simp)]

lemma batchRest_drop :
    (batchRest E raws height ancestors).drop raws.length =
      (List.range raws.length).map (fun i => indexInfo (height + 1 + i)) ++
        (ancestors ++ [indexInfo height]) := by
  rw [batchRest, List.drop_append_of_le_length (by simp), List.drop_of_length_le (by simp),
    List.nil_append]

lemma batchRest_indexes :
    ((batchRest E raws height ancestors).drop raws.length).take raws.length =
      (List.range raws.length).map fun i => indexInfo (height + 1 + i) := by
  rw [batchRest_drop, List.take_append_of_le_length (by simp), List.take_of_length_le (by simp)]

lemma batchRest_tail :
    (batchRest E raws height ancestors).drop (2 * raws.length) = ancestors ++ [indexInfo height] := by
  rw [Nat.two_mul, ← List.drop_drop, batchRest_drop, List.drop_append_of_le_length (by simp),
    List.drop_of_length_le (by simp), List.nil_append]

lemma batchRest_ancestors :
    ((batchRest E raws height ancestors).drop (2 * raws.length)).take ancestors.length =
      ancestors := by
  rw [batchRest_tail, List.take_append_of_le_length le_rfl, List.take_length]

lemma batchRest_parentIndex :
    (batchRest E raws height ancestors)[2 * raws.length + ancestors.length]? =
      some (indexInfo height) := by
  rw [← List.getElem?_drop, batchRest_tail, List.getElem?_append_right le_rfl, Nat.sub_self]
  rfl

lemma length_batchRest :
    (batchRest E raws height ancestors).length = 2 * raws.length + ancestors.length + 1 := by
  simp only [batchRest, List.length_append, List.length_map, List.length_range, List.length_cons,
    List.length_nil]
  omega

end Rest

/-! ### The loops on their own accounts -/

/-- Check one header and store it, on the block accounts alone. -/
def storeHeader (E : Env) (lc : BitcoinLightClient) (now : ℤ)
    (acc : (Hash → Account BlockHeader) × Running) (raw : RawHeader) :
    Except ProgramError ((Hash → Account BlockHeader) × Running) := do
  checkHeader E lc now acc.2 raw
  let bh ← claimFor (acc.1 (blockHashOf E raw)) (E.minimumBalance blockHeaderLen)
  let r' := acc.2.next E lc raw
  return (Function.update acc.1 (blockHashOf E raw)
    { bh with data := .live (storedHeader lc r' raw now) }, r')

/-- Name one header, on the index accounts alone. -/
def nameHeader (E : Env) (acc : (ℕ → Account HeightIndex) × ℕ) (raw : RawHeader) :
    Except ProgramError ((ℕ → Account HeightIndex) × ℕ) := do
  require (acc.2 + 1 < 2 ^ 64) .ArithmeticOverflow
  let hi ← claimFor (acc.1 (acc.2 + 1)) (E.minimumBalance heightIndexLen)
  return (Function.update acc.1 (acc.2 + 1)
    { hi with data := .live ⟨blockHashOf E raw, acc.2 + 1⟩ }, acc.2 + 1)

section Loops

variable {E : Env} {lc : BitcoinLightClient} {now : ℤ}

lemma acceptLoop_iff {s s' : State} {r r' : Running} {raws : List RawHeader} :
    loop (acceptHeader E lc now) (s, r)
        (raws.map fun raw => (raw, blockInfo (blockHashOf E raw))) = .ok (s', r') ↔
      ∃ B, loop (storeHeader E lc now) (s.block, r) raws = .ok (B, r') ∧
        s' = { s with block := B } := by
  induction raws generalizing s r with
  | nil =>
    simp only [List.map_nil, loop_nil, Except.ok.injEq, Prod.mk.injEq]
    constructor
    · rintro ⟨rfl, rfl⟩
      exact ⟨_, ⟨rfl, rfl⟩, rfl⟩
    · rintro ⟨_, ⟨rfl, rfl⟩, rfl⟩
      exact ⟨rfl, rfl⟩
  | cons raw raws ih =>
    simp only [List.map_cons, loop_cons_eq_ok, acceptHeader, storeHeader, bind_eq_ok, require_eq_ok,
      exists_const, pure_eq_ok, blockInfo, true_and]
    constructor
    · rintro ⟨⟨m, rm⟩, ⟨u, hcheck, bh, hbh, heq⟩, hrest⟩
      obtain ⟨rfl, rfl⟩ := Prod.mk.inj heq
      obtain ⟨B, hB, rfl⟩ := ih.mp hrest
      exact ⟨B, ⟨_, ⟨u, hcheck, bh, hbh, rfl⟩, hB⟩, rfl⟩
    · rintro ⟨B, ⟨m, ⟨u, hcheck, bh, hbh, rfl⟩, hB⟩, rfl⟩
      exact ⟨_, ⟨u, hcheck, bh, hbh, rfl⟩, ih.mpr ⟨B, hB, rfl⟩⟩

/-- The index items of a batch that begins above `height`. -/
def indexItems (height : ℕ) (raws : List RawHeader) : List (RawHeader × AccountInfo) :=
  raws.zip ((List.range raws.length).map fun i => indexInfo (height + 1 + i))

lemma indexItems_cons (height : ℕ) (raw : RawHeader) (raws : List RawHeader) :
    indexItems height (raw :: raws) =
      (raw, indexInfo (height + 1)) :: indexItems (height + 1) raws := by
  rw [indexItems, indexItems, List.length_cons, List.range_succ_eq_map, List.map_cons,
    List.zip_cons_cons, List.map_map]
  congr 3
  funext i
  rw [Function.comp_apply]
  congr 1
  omega

lemma indexLoop_iff {s s' : State} {height top : ℕ} {raws : List RawHeader} :
    loop (indexHeader E) (s, height) (indexItems height raws) = .ok (s', top) ↔
      ∃ I, loop (nameHeader E) (s.heightIndex, height) raws = .ok (I, top) ∧
        s' = { s with heightIndex := I } := by
  induction raws generalizing s height with
  | nil => simp [indexItems, eq_comm, and_comm]
  | cons raw raws ih =>
    simp only [indexItems_cons, loop_cons_eq_ok, indexHeader, nameHeader, bind_eq_ok, require_eq_ok,
      exists_const, pure_eq_ok, indexInfo, true_and]
    constructor
    · rintro ⟨⟨m, hm⟩, ⟨hlt, hi, hhi, heq⟩, hrest⟩
      obtain ⟨rfl, rfl⟩ := Prod.mk.inj heq
      obtain ⟨I, hI, rfl⟩ := ih.mp hrest
      exact ⟨I, ⟨_, ⟨hlt, hi, hhi, rfl⟩, hI⟩, rfl⟩
    · rintro ⟨I, ⟨m, ⟨hlt, hi, hhi, rfl⟩, hI⟩, rfl⟩
      exact ⟨_, ⟨hlt, hi, hhi, rfl⟩, ih.mpr ⟨I, hI, rfl⟩⟩

/-- What the loop carries: heights and work go up with every header. -/
lemma storeLoop_ok {B B' : Hash → Account BlockHeader} {r r' : Running} {raws : List RawHeader}
    (h : loop (storeHeader E lc now) (B, r) raws = .ok (B', r')) :
    r'.height = r.height + raws.length ∧ r'.chainwork = batchWork r.chainwork raws := by
  induction raws generalizing B r with
  | nil =>
    simp only [loop_nil, Except.ok.injEq, Prod.mk.injEq] at h
    obtain ⟨rfl, rfl⟩ := h
    exact ⟨rfl, rfl⟩
  | cons raw raws ih =>
    obtain ⟨⟨Bm, rm⟩, hm, hrest⟩ := loop_cons_eq_ok.mp h
    simp only [storeHeader, bind_eq_ok, pure_eq_ok, Prod.mk.injEq] at hm
    obtain ⟨-, -, -, -, -, rfl⟩ := hm
    obtain ⟨hheight, hwork⟩ := ih hrest
    rw [hheight, hwork, next_height, next_chainwork, List.length_cons]
    exact ⟨by omega, rfl⟩

end Loops

/-! ### A batch on the tip -/

/-- The tip may be built on. -/
structure Gate (s : State) (lc : BitcoinLightClient) (parent : BlockHeader) : Prop where
  client_owner : s.ownerOf .lightClient = .program
  parent_owner : s.ownerOf (.block lc.tipHash) = .program
  epoch : parent.reinitEpoch = lc.reinitEpoch ∨
    (lc.network = networkRegtest ∧ parent.reinitEpoch = 0)
  index_owner : s.ownerOf (.heightIndex parent.height) = .program
  indexed : ∃ hi, s.index? parent.height = some hi ∧ hi.blockHash = parent.blockHash
  hash : parent.blockHash = lc.tipHash

/-- The batch is stored, named and made the tip. -/
structure Grown (E : Env) (now : ℤ) (s : State) (lc : BitcoinLightClient) (parent : BlockHeader)
    (raws : List RawHeader) (s' : State) (window : List ℕ) (B : Hash → Account BlockHeader)
    (r : Running) (I : ℕ → Account HeightIndex) : Prop where
  mtp : mtpWindow s lc parent (ancestorsOf s lc parent) = .ok window
  stored : loop (storeHeader E lc now) (s.block, startRunning lc parent window) raws = .ok (B, r)
  final : lc.finalizedHeight ≤ parent.height
  named : ∃ top, loop (nameHeader E) (s.heightIndex, parent.height) raws = .ok (I, top)
  counted : lc.headerCount + raws.length < 2 ^ 64
  state : s' = ⟨{ s.lightClient with data := .live (promote lc r raws.length now) }, B, I,
    s.verified⟩

lemma length_lineage (s : State) (genesis : Hash) (n : ℕ) (hdr : BlockHeader) :
    (lineage s genesis n hdr).length ≤ n := by
  induction n generalizing hdr with
  | zero => exact le_rfl
  | succ n ih =>
    rw [lineage]
    split
    · exact Nat.zero_le _
    split
    · rw [List.length_cons]
      exact Nat.succ_le_succ (ih _)
    · exact Nat.zero_le _

lemma storeLoop_head {E : Env} {lc : BitcoinLightClient} {now : ℤ} {B B' : Hash → Account BlockHeader}
    {r r' : Running} {raw : RawHeader} {rest : List RawHeader}
    (h : loop (storeHeader E lc now) (B, r) (raw :: rest) = .ok (B', r')) :
    raw.prevBlockHash = r.prevHash := by
  obtain ⟨m, hm, -⟩ := loop_cons_eq_ok.mp h
  simp only [storeHeader, bind_eq_ok] at hm
  obtain ⟨_, hcheck, -⟩ := hm
  exact (checkHeader_ok hcheck).1

lemma readParent_tip {s : State} {lc : BitcoinLightClient} {parent : BlockHeader} {first : Hash}
    {a : BitcoinLightClient × BlockHeader} (hlc : s.lc? = some lc)
    (hparent : s.header? lc.tipHash = some parent) :
    readParent s ⟨.lightClient, false⟩ (blockInfo lc.tipHash) (indexInfo parent.height) first =
        .ok a ↔
      Gate s lc parent ∧ first = parent.blockHash ∧ a = (lc, parent) := by
  simp only [readParent, bind_eq_ok, require_eq_ok, orElse_eq_ok, exists_const, pure_eq_ok]
  simp only [blockInfo, indexInfo, State.headerAt, State.lightClientAt, State.heightIndexAt, hlc,
    hparent, Option.some.injEq, exists_eq_left']
  constructor
  · rintro ⟨h1, h2, h3, h4, h5, hi, hhi, h6, h7, h8, rfl⟩
    exact ⟨⟨h1, h2, h3, h4, ⟨hi, hhi, h6⟩, (Addr.block.inj h7).symm⟩, h8, rfl⟩
  · rintro ⟨⟨h1, h2, h3, h4, ⟨hi, hhi, h5⟩, h6⟩, h7, rfl⟩
    exact ⟨h1, h2, h3, h4, trivial, hi, hhi, h5, by rw [h6], h7, rfl⟩

lemma makeCanonical_iff {E : Env} {now : ℤ} {s s' : State} {lc : BitcoinLightClient}
    {parent : BlockHeader} {r : Running} {raws : List RawHeader} :
    makeCanonical E s lc parent r (indexItems parent.height raws) now = .ok s' ↔
      lc.finalizedHeight ≤ parent.height ∧ lc.headerCount + raws.length < 2 ^ 64 ∧
        ∃ I top, loop (nameHeader E) (s.heightIndex, parent.height) raws = .ok (I, top) ∧
          s' = ⟨{ s.lightClient with data := .live (promote lc r raws.length now) }, s.block, I,
            s.verified⟩ := by
  have hlen : (indexItems parent.height raws).length = raws.length := by simp [indexItems]
  simp only [makeCanonical, bind_eq_ok, require_eq_ok, exists_const, pure_eq_ok, Prod.exists,
    indexLoop_iff, hlen]
  constructor
  · rintro ⟨hfinal, s₂, top, ⟨I, hI, rfl⟩, hcount, rfl⟩
    exact ⟨hfinal, hcount, I, top, hI, rfl⟩
  · rintro ⟨hfinal, hcount, I, top, hI, rfl⟩
    exact ⟨hfinal, _, top, ⟨I, hI, rfl⟩, hcount, rfl⟩

lemma zip_map_self {α β : Type} (f : α → β) (l : List α) :
    l.zip (l.map f) = l.map fun a => (a, f a) := by
  induction l with
  | nil => rfl
  | cons a l ih => rw [List.map_cons, List.zip_cons_cons, ih, List.map_cons]

/-- **A batch that outweighs the tip**, taken apart and put together. -/
theorem extendTip_iff {E : Env} {now : ℤ} {s s' : State} {lc : BitcoinLightClient}
    {parent : BlockHeader} {b : Batch} (hlc : s.lc? = some lc)
    (hparent : s.header? lc.tipHash = some parent) (hne : b.raws ≠ []) (hlen : b.raws.length ≤ 10)
    (hout : outweighs (batchWork parent.chainwork b.raws) lc.totalChainwork = true) :
    extendTip E now s b = .ok s' ↔
      Gate s lc parent ∧ ∃ window B r I, Grown E now s lc parent b.raws s' window B r I := by
  have hk : (ancestorsOf s lc parent).length ≤ 10 := by
    rw [ancestorsOf, List.length_map]
    exact length_lineage ..
  obtain ⟨raw, rest, hraws⟩ := List.exists_cons_of_ne_nil hne
  have hfirst : slice 32 (batchData b.raws (ancestorsOf s lc parent).length) (1 + 4) =
      raw.prevBlockHash := by
    rw [hraws]
    exact firstPrev_batchData _
  simp only [extendTip, processExtendBlockchain, bind_eq_ok, require_eq_ok, orElse_eq_ok, exists_const,
    numHeaders_batchData _ hlen, numAncestors_batchData _ hlen hk, rawHeaders_batchData _ hlen,
    hlc, hparent, Option.some.injEq, exists_eq_left', batchRest_headers, batchRest_indexes,
    batchRest_parentIndex, batchRest_ancestors, length_batchData, readParent_tip hlc hparent, hfirst,
    zip_map_self, Prod.exists, acceptLoop_iff]
  constructor
  · rintro ⟨-, -, -, -, -, -, lc', parent', ⟨hgate, -, heq⟩, window, hmtp, s₁, r, ⟨B, hB, rfl⟩, h⟩
    obtain ⟨rfl, rfl⟩ := Prod.mk.inj heq
    obtain ⟨-, hwork⟩ := storeLoop_ok hB
    rw [startRunning] at hwork
    rw [if_pos (hwork ▸ hout)] at h
    obtain ⟨hfinal, hcount, I, top, hI, rfl⟩ := makeCanonical_iff.mp h
    exact ⟨hgate, window, B, r, I, hmtp, hB, hfinal, ⟨top, hI⟩, hcount, rfl⟩
  · rintro ⟨hgate, window, B, r, I, hmtp, hB, hfinal, ⟨top, hI⟩, hcount, rfl⟩
    have hhead : raw.prevBlockHash = parent.blockHash :=
      storeLoop_head (r := startRunning lc parent window) (hraws ▸ hB)
    obtain ⟨-, hwork⟩ := storeLoop_ok hB
    rw [startRunning] at hwork
    refine ⟨by simp [batchData], ⟨by rw [hraws]; simp, hlen⟩, by omega, hk, ?_, trivial, lc, parent,
      ⟨hgate, hhead, rfl⟩, window, hmtp, _, r, ⟨B, hB, rfl⟩, ?_⟩
    · simp only [List.length_cons, length_batchRest]
      omega
    · rw [if_pos (hwork ▸ hout)]
      exact makeCanonical_iff.mpr ⟨hfinal, hcount, I, top, hI, rfl⟩

/-! ### The window -/

section Window

variable {s m : State} {lc : BitcoinLightClient} {parent : BlockHeader} {genesis : Hash}

/-- The ancestors read one after the other. -/
lemma readLoop_iff (hfiled : ∀ b hdr, s.header? b = some hdr → hdr.blockHash = b) {n : ℕ}
    {hdr : BlockHeader} {times : List ℕ} {res : Hash × Hash × List ℕ} :
    loop (readAncestor s) (hdr.prevBlockHash, hdr.blockHash, times)
        ((lineage s genesis n hdr).map fun a => blockInfo a.blockHash) = .ok res ↔
      (∀ a ∈ lineage s genesis n hdr, s.ownerOf (.block a.blockHash) = .program) ∧
        res = (((lineage s genesis n hdr).getLast?.getD hdr).prevBlockHash,
          ((lineage s genesis n hdr).getLast?.getD hdr).blockHash,
          ((lineage s genesis n hdr).map (·.timestamp)).reverse ++ times) := by
  induction n generalizing hdr times with
  | zero => simp [lineage, eq_comm]
  | succ n ih =>
    rw [lineage]
    split
    · simp [eq_comm]
    split
    · rename_i p hp
      have hhash := hfiled _ _ hp
      have hread : ∀ acc, readAncestor s (hdr.prevBlockHash, hdr.blockHash, times)
          (blockInfo p.blockHash) = .ok acc ↔
          s.ownerOf (.block p.blockHash) = .program ∧
            acc = (p.prevBlockHash, p.blockHash, p.timestamp :: times) := by
        intro acc
        simp only [readAncestor, bind_eq_ok, require_eq_ok, orElse_eq_ok, exists_const, pure_eq_ok]
        simp only [blockInfo, State.headerAt, hhash, hp, Option.some.injEq, exists_eq_left', true_and]
        rw [eq_comm (a := acc)]
      simp only [List.map_cons, loop_cons_eq_ok, hread, List.forall_mem_cons, List.getLast?_cons,
        Option.getD_some, List.reverse_cons, List.append_assoc, List.singleton_append]
      constructor
      · rintro ⟨acc, ⟨howner, rfl⟩, hrest⟩
        obtain ⟨howners, hres⟩ := ih.mp hrest
        exact ⟨⟨howner, howners⟩, hres⟩
      · rintro ⟨⟨howner, howners⟩, hres⟩
        exact ⟨_, ⟨howner, rfl⟩, ih.mpr ⟨howners, hres⟩⟩
    · simp [eq_comm]

/-- The window over the right ancestors. -/
lemma mtpWindow_iff (hfiled : ∀ b hdr, s.header? b = some hdr → hdr.blockHash = b)
    (he : enforced lc.network) {window : List ℕ} {L : List BlockHeader}
    (hL : lineage s lc.genesisHash 10 parent = L) :
    mtpWindow s lc parent (ancestorsOf s lc parent) = .ok window ↔
      (∀ a ∈ L, s.ownerOf (.block a.blockHash) = .program) ∧
        (L.length < 10 → (L.getLast?.getD parent).blockHash = lc.genesisHash) ∧
        window = (L.map (·.timestamp)).reverse ++ [parent.timestamp] := by
  subst hL
  simp only [mtpWindow, if_pos he, ancestorsOf, bind_eq_ok, require_eq_ok, exists_const, pure_eq_ok,
    readLoop_iff hfiled, List.length_map]
  constructor
  · rintro ⟨acc, ⟨howners, rfl⟩, hgen, rfl⟩
    exact ⟨howners, fun hlt => not_not.mp fun hne => hgen ⟨hlt, hne⟩, by simp⟩
  · rintro ⟨howners, hgen, rfl⟩
    exact ⟨_, ⟨howners, rfl⟩, fun h => h.2 (hgen h.1), by simp⟩

lemma lineage_take (s : State) (genesis : Hash) (n : ℕ) (hdr : BlockHeader) :
    (lineage s genesis (n + 1) hdr).take n = lineage s genesis n hdr := by
  induction n generalizing hdr with
  | zero => rfl
  | succ n ih =>
    rw [lineage]
    conv_rhs => rw [lineage]
    split
    · rfl
    split
    · rw [List.take_succ_cons, ih]
    · rfl

/-- A header stored above does not change the ancestors. -/
lemma lineage_update {rank : Hash → ℕ} {h : Hash} {v : Option BlockHeader}
    (hfiled : ∀ b hdr, s.header? b = some hdr → hdr.blockHash = b)
    (hrank : ∀ b hdr, s.header? b = some hdr → b ≠ genesis → rank hdr.prevBlockHash < rank b)
    (hm : m.header? = Function.update s.header? h v) {n : ℕ} {hdr : BlockHeader}
    (hhdr : s.header? hdr.blockHash = some hdr) (hlt : rank hdr.blockHash < rank h) :
    lineage m genesis n hdr = lineage s genesis n hdr := by
  induction n generalizing hdr with
  | zero => rfl
  | succ n ih =>
    rw [lineage, lineage]
    split
    · rfl
    · rename_i hg
      have hbelow := hrank _ _ hhdr hg
      have hne : hdr.prevBlockHash ≠ h := by
        intro heq
        rw [heq] at hbelow
        omega
      rw [hm, Function.update_of_ne hne]
      split
      · rename_i p hp
        have hhash := hfiled _ _ hp
        rw [ih (hhash ▸ hp) (by rw [hhash]; omega)]
      · rfl

/-- The ancestors are below. -/
lemma rank_lineage {rank : Hash → ℕ}
    (hfiled : ∀ b hdr, s.header? b = some hdr → hdr.blockHash = b)
    (hrank : ∀ b hdr, s.header? b = some hdr → b ≠ genesis → rank hdr.prevBlockHash < rank b)
    {n : ℕ} {hdr a : BlockHeader} (hhdr : s.header? hdr.blockHash = some hdr)
    (ha : a ∈ lineage s genesis n hdr) : rank a.blockHash < rank hdr.blockHash := by
  induction n generalizing hdr with
  | zero => exact absurd ha List.not_mem_nil
  | succ n ih =>
    rw [lineage] at ha
    split at ha
    · exact absurd ha List.not_mem_nil
    rename_i hg
    have hbelow := hrank _ _ hhdr hg
    split at ha
    · rename_i p hp
      have hhash := hfiled _ _ hp
      rcases List.mem_cons.mp ha with rfl | ha
      · rwa [hhash]
      · have := ih (hhash ▸ hp) ha
        rw [hhash] at this
        omega
    · exact absurd ha List.not_mem_nil

/-- Sliding the window is reading it again from the next header. -/
lemma slide_window {L : List BlockHeader} (hlen : L.length ≤ 10) (t u : ℕ) :
    slide ((L.map (·.timestamp)).reverse ++ [t]) u =
      ((L.take 9).map (·.timestamp)).reverse ++ [t] ++ [u] := by
  rw [slide]
  split
  · rename_i hlt
    have hshort : L.length ≤ 9 := by
      simp only [List.length_append, List.length_reverse, List.length_map, List.length_singleton] at hlt
      omega
    rw [List.take_of_length_le hshort]
  · rename_i hge
    have hfull : L.length = 9 + 1 := by
      simp only [List.length_append, List.length_reverse, List.length_map, List.length_singleton] at hge
      omega
    have hdrop : (L.map (·.timestamp)).reverse.drop 1 = ((L.take 9).map (·.timestamp)).reverse := by
      rw [List.drop_reverse, List.length_map, hfull, ← List.map_take]
    rw [List.drop_append_of_le_length (by simp [hfull]), hdrop]

end Window

/-! ### One header first -/

lemma claimFor_owner {α : Type} {acc acc' : Account α} {lamports : ℕ}
    (h : claimFor acc lamports = .ok acc') : acc'.owner = .program := by
  simp only [claimFor, bind_eq_ok, require_eq_ok, exists_const] at h
  obtain ⟨howner, h⟩ := h
  split at h
  · rename_i a hd
    rw [pure_eq_ok] at h
    rw [← h]
    exact howner (by rw [hd]; rfl)
  · rw [createOrClaim_ok h]

/-- Two promotions in a row are one. -/
lemma promote_promote {lc : BitcoinLightClient} {r r' : Running} {n n' : ℕ} {now : ℤ}
    (h : r.height ≤ r'.height) :
    promote (promote lc r n now) r' n' now = promote lc r' (n + n') now := by
  have hfinal : max (max lc.finalizedHeight (r.height - (requiredConfirmations - 1)))
      (r'.height - (requiredConfirmations - 1)) =
      max lc.finalizedHeight (r'.height - (requiredConfirmations - 1)) := by omega
  simp only [promote, hfinal, Nat.add_assoc]
  split <;> rfl

/-- The difficulty parameters are read back as they were carried. -/
lemma startRunning_next {E : Env} {lc : BitcoinLightClient} {parent : BlockHeader} {window : List ℕ}
    {raw : RawHeader} {r : Running} {n : ℕ} {now : ℤ}
    (hr : (startRunning lc parent window).next E lc raw = r) :
    startRunning (promote lc r n now) (storedHeader lc r raw now) r.window = r := by
  have hbits : (if r.expectedBits ≠ 0 then r.expectedBits else
      if enforced lc.network then r.expectedBits else lc.expectedBits) = r.expectedBits := by
    split
    · rfl
    split
    · rfl
    · rename_i hzero he
      rw [← hr] at hzero ⊢
      simp only [Running.next, startRunning, opensEpoch, he, false_and, if_false] at hzero ⊢
      split at hzero
      · contradiction
      · rename_i hb
        rw [if_neg hb]
  have hepoch : (if r.epochStart ≠ 0 then r.epochStart else
      if enforced lc.network then r.epochStart else lc.epochStartTime) = r.epochStart := by
    split
    · rfl
    split
    · rfl
    · rename_i hzero he
      rw [← hr] at hzero ⊢
      simp only [Running.next, startRunning, opensEpoch, he, false_and, if_false] at hzero ⊢
      split at hzero
      · contradiction
      · rename_i hb
        rw [if_neg hb]
  have htime : raw.timestamp = r.parentTimestamp := by rw [← hr]; rfl
  simp only [startRunning, storedHeader, promote, hbits, hepoch, htime]

section One

variable {E : Env} {U : RawHeader → Prop} {genesis : Hash} {start : ℕ} {now : ℤ} {s s' m : State}
  {lc : BitcoinLightClient} {parent : BlockHeader} {raw : RawHeader} {window : List ℕ}
  {B : Hash → Account BlockHeader} {r : Running} {I : ℕ → Account HeightIndex}

/-- One more header is filed under its hash, on a parent that is stored. -/
structure Files (s m : State) (parent hdr : BlockHeader) : Prop where
  stored : s.header? parent.blockHash = some parent
  header : m.header? = Function.update s.header? hdr.blockHash (some hdr)
  owner : ∀ b, b ≠ hdr.blockHash → m.ownerOf (.block b) = s.ownerOf (.block b)
  prev : hdr.prevBlockHash = parent.blockHash

section Files

variable {hdr : BlockHeader} {lc' : BitcoinLightClient} {rank : Hash → ℕ}

lemma Files.filed (h : Files s m parent hdr)
    (hfiled : ∀ b hdr, s.header? b = some hdr → hdr.blockHash = b) :
    ∀ b hdr, m.header? b = some hdr → hdr.blockHash = b := by
  intro b hdr' hb
  rw [h.header] at hb
  rcases update_eq_some.mp hb with ⟨rfl, rfl⟩ | ⟨-, hold⟩
  · rfl
  · exact hfiled b hdr' hold

/-- The ancestors of the new header are its parent and the parent's. -/
lemma Files.lineage_eq (h : Files s m parent hdr)
    (hfiled : ∀ b hdr, s.header? b = some hdr → hdr.blockHash = b)
    (hrank : ∀ b hdr, s.header? b = some hdr → b ≠ genesis → rank hdr.prevBlockHash < rank b)
    (hup : rank parent.blockHash < rank hdr.blockHash) (hgen : hdr.blockHash ≠ genesis) :
    lineage m genesis 10 hdr = parent :: (lineage s genesis 10 parent).take 9 := by
  have hne : parent.blockHash ≠ hdr.blockHash := fun heq => absurd hup (heq ▸ lt_irrefl _)
  have hparent : m.header? hdr.prevBlockHash = some parent := by
    rw [h.prev, h.header, Function.update_of_ne hne, h.stored]
  rw [lineage_take, ← lineage_update hfiled hrank h.header h.stored hup, lineage, if_neg hgen, hparent]

/-- The window, read again one header later. -/
lemma Files.mtpWindow_eq (h : Files s m parent hdr)
    (hfiled : ∀ b hdr, s.header? b = some hdr → hdr.blockHash = b)
    (hrank : ∀ b hdr, s.header? b = some hdr → b ≠ lc.genesisHash →
      rank hdr.prevBlockHash < rank b)
    (hup : rank parent.blockHash < rank hdr.blockHash) (hgen : hdr.blockHash ≠ lc.genesisHash)
    (hparent : s.ownerOf (.block parent.blockHash) = .program)
    (hgenesis : lc'.genesisHash = lc.genesisHash) (hnetwork : lc'.network = lc.network)
    (hmtp : mtpWindow s lc parent (ancestorsOf s lc parent) = .ok window) :
    mtpWindow m lc' hdr (ancestorsOf m lc' hdr) =
      .ok (if enforced lc.network then slide window hdr.timestamp else window) := by
  by_cases he : enforced lc.network
  · have he' : enforced lc'.network := hnetwork ▸ he
    have hlineage : lineage m lc'.genesisHash 10 hdr =
        parent :: (lineage s lc.genesisHash 10 parent).take 9 := by
      rw [hgenesis]
      exact h.lineage_eq hfiled hrank hup hgen
    obtain ⟨howners, holdest, hread⟩ := (mtpWindow_iff hfiled he rfl).mp hmtp
    rw [if_pos he]
    refine (mtpWindow_iff (h.filed hfiled) he' hlineage).mpr ⟨?_, ?_, ?_⟩
    · intro a ha
      rcases List.mem_cons.mp ha with rfl | ha
      · rw [h.owner _ fun heq => absurd hup (heq ▸ lt_irrefl _)]
        exact hparent
      · have hmem := List.mem_of_mem_take ha
        have hlt := rank_lineage hfiled hrank h.stored hmem
        rw [h.owner _ fun heq => absurd (hlt.trans hup) (heq ▸ lt_irrefl _)]
        exact howners a hmem
    · intro hlt
      rw [List.length_cons, List.length_take] at hlt
      rw [List.getLast?_cons, Option.getD_some, List.take_of_length_le (by omega), hgenesis]
      exact holdest (by omega)
    · rw [hread, slide_window (length_lineage ..), List.map_cons, List.reverse_cons]
  · have he' : ¬ enforced lc'.network := hnetwork ▸ he
    rw [mtpWindow, if_neg he] at hmtp
    rw [mtpWindow, if_neg he', if_neg he]
    exact hmtp

end Files

/-- What one header leaves is what the next batch starts from. -/
theorem Grown.next (hcyc : NoCycle E U) (hinv : Tip.Inv E U genesis start s) (mem : U raw)
    (hlc : s.lc? = some lc) (hparent : s.header? lc.tipHash = some parent) (hgate : Gate s lc parent)
    (h : Grown E now s lc parent [raw] m window B r I) :
    let lc' := promote lc r 1 now
    let parent' := storedHeader lc r raw now
    m.lc? = some lc' ∧ m.header? lc'.tipHash = some parent' ∧ Gate m lc' parent' ∧
      mtpWindow m lc' parent' (ancestorsOf m lc' parent') = .ok r.window ∧
      startRunning lc' parent' r.window = r ∧ lc'.finalizedHeight ≤ parent'.height ∧
      r.height = parent.height + 1 ∧
      r.chainwork = addChainwork parent.chainwork (calculateChainwork raw.bits) := by
  intro lc' parent'
  obtain ⟨hmtp, hstored, hfinal, ⟨top, hnamed⟩, hcounted, rfl⟩ := h
  obtain ⟨⟨B₁, r₁⟩, hm, hrest⟩ := loop_cons_eq_ok.mp hstored
  rw [loop_nil, Except.ok.injEq, Prod.mk.injEq] at hrest
  obtain ⟨rfl, rfl⟩ := hrest
  simp only [storeHeader, bind_eq_ok, pure_eq_ok, Prod.mk.injEq] at hm
  obtain ⟨-, hcheck, bh, hbh, hB, hr⟩ := hm
  obtain ⟨⟨I₁, t₁⟩, hn, hrest⟩ := loop_cons_eq_ok.mp hnamed
  rw [loop_nil, Except.ok.injEq, Prod.mk.injEq] at hrest
  obtain ⟨rfl, rfl⟩ := hrest
  simp only [nameHeader, bind_eq_ok, require_eq_ok, exists_const, pure_eq_ok, Prod.mk.injEq] at hn
  obtain ⟨-, hi, hhi, hI, rfl⟩ := hn
  have hrhash : r₁.prevHash = blockHashOf E raw := by rw [← hr, next_prevHash]
  have hrheight : r₁.height = parent.height + 1 := by rw [← hr, next_height]; rfl
  have hrwork : r₁.chainwork = addChainwork parent.chainwork (calculateChainwork raw.bits) := by
    rw [← hr, next_chainwork]
    rfl
  have hprev : raw.prevBlockHash = parent.blockHash := storeLoop_head hstored
  rw [hr] at hB
  generalize hmdef : (⟨{ s.lightClient with data := .live (promote lc r₁ [raw].length now) }, B₁, I₁,
    s.verified⟩ : State) = m
  have hmlc : m.lc? = some lc' := by rw [← hmdef]; rfl
  have hblock : m.block = Function.update s.block (blockHashOf E raw)
      { bh with data := .live parent' } := by rw [← hmdef]; exact hB.symm
  have hindex : m.heightIndex = Function.update s.heightIndex (parent.height + 1)
      { hi with data := .live ⟨blockHashOf E raw, parent.height + 1⟩ } := by
    rw [← hmdef]
    exact hI.symm
  have hclient : m.lightClient.owner = s.lightClient.owner := by rw [← hmdef]
  clear hmdef
  have hhash : parent'.blockHash = blockHashOf E raw := hrhash
  have hfiles : Files s m parent parent' := by
    refine ⟨hgate.hash ▸ hparent, funext fun b => ?_, fun b hb => ?_, hprev⟩
    · by_cases hb : b = parent'.blockHash
      · rw [hb, Function.update_self, State.header?, hblock, ← hhash, Function.update_self]
        rfl
      · rw [Function.update_of_ne hb, State.header?, hblock, ← hhash, Function.update_of_ne hb]
        rfl
    · simp only [State.ownerOf]
      rw [hblock, ← hhash, Function.update_of_ne hb]
  refine ⟨hmlc, ?_, ⟨?_, ?_, .inl rfl, ?_, ?_, rfl⟩, ?_, ?_, ?_, hrheight, hrwork⟩
  · rw [hfiles.header]
    exact Function.update_self ..
  · exact hclient.trans hgate.client_owner
  · have htip : lc'.tipHash = blockHashOf E raw := hrhash
    rw [htip, State.ownerOf, hblock, Function.update_self]
    exact (claimFor_owner hbh : bh.owner = .program)
  · have hheight : parent'.height = parent.height + 1 := hrheight
    rw [hheight, State.ownerOf, hindex, Function.update_self]
    exact (claimFor_owner hhi : hi.owner = .program)
  · have hheight : parent'.height = parent.height + 1 := hrheight
    refine ⟨⟨blockHashOf E raw, parent.height + 1⟩, ?_, hhash.symm⟩
    rw [hheight, State.index?, hindex, Function.update_self]
    rfl
  · obtain ⟨rank, hlinks⟩ := hcyc
    have hfiled : ∀ b hdr, s.header? b = some hdr → hdr.blockHash = b :=
      fun b hdr hb => (hinv.placed b hdr hb).hash
    have hgen := hinv.genesis_eq lc hlc
    have hrank : ∀ b hdr, s.header? b = some hdr → b ≠ lc.genesisHash →
        rank hdr.prevBlockHash < rank b := by
      intro b hdr hb hne
      obtain ⟨raw', mem', rfl, hp, -⟩ := (hinv.placed b hdr hb).submitted (hgen ▸ hne)
      rw [hp]
      exact hlinks raw' mem'
    have hup : rank parent.blockHash < rank (blockHashOf E raw) := hprev ▸ hlinks raw mem
    have hfloor : rank genesis ≤ rank parent.blockHash :=
      (hinv.placed _ _ hfiles.stored).reckoned.depth.rank_le hlinks
    rw [← hhash] at hup
    have hne : parent'.blockHash ≠ lc.genesisHash := by
      rw [hgen]
      intro heq
      rw [heq] at hup
      omega
    have hparentOwner : s.ownerOf (.block parent.blockHash) = .program :=
      hgate.hash ▸ hgate.parent_owner
    have hwindow : r₁.window = if enforced lc.network then slide window raw.timestamp else window := by
      rw [← hr]
      rfl
    rw [hwindow]
    exact hfiles.mtpWindow_eq hfiled hrank hup hne hparentOwner rfl rfl hmtp
  · exact startRunning_next hr
  · have : lc'.finalizedHeight = max lc.finalizedHeight (r₁.height - (requiredConfirmations - 1)) := rfl
    have hheight : parent'.height = r₁.height := rfl
    rw [this, hheight]
    omega

end One

/-! ### Work -/

/-- The work of the headers fits on top of the tip's. -/
def Room (s : State) (raws : List RawHeader) : Prop :=
  ∀ lc, s.lc? = some lc →
    leNat lc.totalChainwork.toList + (raws.map fun raw => headerWork raw.bits).sum < 2 ^ 256

lemma headerWork_pos (bits : ℕ) : 0 < headerWork bits := by
  have ht := targetFromBits_lt bits
  exact Nat.div_pos (by omega) (by omega)

lemma leNat_batchWork {raws : List RawHeader} {w : Bytes 32}
    (h : leNat w.toList + (raws.map fun raw => headerWork raw.bits).sum < 2 ^ 256) :
    leNat (batchWork w raws).toList =
      leNat w.toList + (raws.map fun raw => headerWork raw.bits).sum := by
  induction raws generalizing w with
  | nil => rfl
  | cons raw raws ih =>
    rw [List.map_cons, List.sum_cons] at h ⊢
    have hsmall : headerWork raw.bits < 2 ^ 256 := by omega
    have hone : leNat (addChainwork w (calculateChainwork raw.bits)).toList =
        leNat w.toList + headerWork raw.bits := by
      rw [leNat_addChainwork, leNat_calculateChainwork, ← headerWork, Nat.mod_eq_of_lt hsmall,
        Nat.mod_eq_of_lt (by omega)]
    rw [batchWork, List.foldl_cons, ← batchWork, ih (by omega), hone]
    omega

/-- With room for it, a batch on the tip always outweighs it. -/
lemma outweighs_of_room {s : State} {lc : BitcoinLightClient} {raws : List RawHeader} {w : Bytes 32}
    (hw : w = lc.totalChainwork) (hlc : s.lc? = some lc) (hne : raws ≠ []) (hroom : Room s raws) :
    outweighs (batchWork w raws) lc.totalChainwork = true := by
  subst hw
  have hfit := hroom lc hlc
  obtain ⟨raw, rest, rfl⟩ := List.exists_cons_of_ne_nil hne
  refine outweighs_iff.mpr ?_
  rw [leNat_batchWork hfit, List.map_cons, List.sum_cons]
  have := headerWork_pos raw.bits
  omega

/-! ### Where the sequence is cut -/

section Cut

variable {E : Env} {U : RawHeader → Prop} {genesis : Hash} {start : ℕ} {now : ℤ} {s s' m : State}

lemma extendTip_inv (hcol : NoCollision E U) (hcyc : NoCycle E U)
    (hinv : Tip.Inv E U genesis start s) {b : Batch} (mem : ∀ raw ∈ b.raws, U raw)
    (hlen : b.raws.length ≤ 10) (h : extendTip E now s b = .ok m) :
    Tip.Inv E U genesis start m := by
  simp only [extendTip, bind_eq_ok, orElse_eq_ok] at h
  obtain ⟨lc, -, parent, -, h⟩ := h
  exact (extend_inv hcol hcyc hinv (by rwa [rawHeaders_batchData _ hlen]) h).1

/-- The batch after one header, in terms of the state before it. -/
lemma Grown.rest_iff (hcyc : NoCycle E U) (hinv : Tip.Inv E U genesis start s)
    {lc : BitcoinLightClient} {parent : BlockHeader} {raw : RawHeader} {window : List ℕ}
    {B₁ : Hash → Account BlockHeader} {r₁ : Running} {I₁ : ℕ → Account HeightIndex} (mem : U raw)
    (hlc : s.lc? = some lc) (hparent : s.header? lc.tipHash = some parent) (hgate : Gate s lc parent)
    (hg : Grown E now s lc parent [raw] m window B₁ r₁ I₁) {rest : List RawHeader} (hne : rest ≠ [])
    (hlen : rest.length ≤ 10) (hroom : Room m rest) (a : Addr) :
    extendTip E now m ⟨a, rest⟩ = .ok s' ↔
      ∃ B r I, loop (storeHeader E lc now) (B₁, r₁) rest = .ok (B, r) ∧
        (∃ top, loop (nameHeader E) (I₁, parent.height + 1) rest = .ok (I, top)) ∧
        lc.headerCount + (1 + rest.length) < 2 ^ 64 ∧
        s' = ⟨{ s.lightClient with data := .live (promote lc r (1 + rest.length) now) }, B, I,
          s.verified⟩ := by
  obtain ⟨hmlc, hmtip, hgate', hmtp', hstart, hfinal', hheight, -⟩ :=
    hg.next hcyc hinv mem hlc hparent hgate
  have hsame : (storedHeader lc r₁ raw now).chainwork = (promote lc r₁ 1 now).totalChainwork := rfl
  have hout := outweighs_of_room hsame hmlc hne hroom
  rw [extendTip_iff (b := ⟨a, rest⟩) hmlc hmtip hne hlen hout]
  have hblock : m.block = B₁ := by rw [hg.state]
  have hindex : m.heightIndex = I₁ := by rw [hg.state]
  have hstate : ∀ lc' B I, (⟨{ m.lightClient with data := .live lc' }, B, I, m.verified⟩ : State) =
      ⟨{ s.lightClient with data := .live lc' }, B, I, s.verified⟩ := by
    intro lc' B I
    rw [hg.state]
  have hcounted : (promote lc r₁ 1 now).headerCount = lc.headerCount + 1 := rfl
  have hparentHeight : (storedHeader lc r₁ raw now).height = parent.height + 1 := hheight
  have htop : ∀ {B r}, loop (storeHeader E lc now) (B₁, r₁) rest = .ok (B, r) →
      promote (promote lc r₁ 1 now) r rest.length now = promote lc r (1 + rest.length) now := by
    intro B r h
    refine promote_promote ?_
    rw [(storeLoop_ok h).1]
    omega
  constructor
  · rintro ⟨-, window', B, r, I, hmtp₂, hstored, -, hnamed, hcount, rfl⟩
    obtain rfl : r₁.window = window' := Except.ok.inj (hmtp'.symm.trans hmtp₂)
    rw [hstart, hblock] at hstored
    rw [hindex, hparentHeight] at hnamed
    rw [hcounted, Nat.add_assoc] at hcount
    exact ⟨B, r, I, hstored, hnamed, hcount, by rw [hstate, htop hstored]⟩
  · rintro ⟨B, r, I, hstored, hnamed, hcount, rfl⟩
    refine ⟨hgate', r₁.window, B, r, I, hmtp', ?_, hfinal', ?_, ?_, by rw [hstate, htop hstored]⟩
    · rw [hstart, hblock]
      exact hstored
    · rw [hindex, hparentHeight]
      exact hnamed
    · rw [hcounted, Nat.add_assoc]
      exact hcount

lemma Room.head {raw : RawHeader} {rest : List RawHeader} (h : Room s (raw :: rest)) :
    Room s [raw] := by
  intro lc hlc
  have := h lc hlc
  simp only [List.map_cons, List.sum_cons, List.map_nil, List.sum_nil] at this ⊢
  omega

/-- One header on the tip, taken apart. -/
lemma extendTip_single (now : ℤ) (hinv : Tip.Inv E U genesis start s) {raw : RawHeader}
    (hroom : Room s [raw]) (a : Addr) : ∃ lc parent, s.lc? = some lc ∧ s.header? lc.tipHash = some parent ∧
      parent.chainwork = lc.totalChainwork ∧
      ∀ m, extendTip E now s ⟨a, [raw]⟩ = .ok m ↔
        Gate s lc parent ∧ ∃ window B r I, Grown E now s lc parent [raw] m window B r I := by
  obtain ⟨lc, parent, hlc, hparent, -, hwork⟩ := hinv.tip
  have hout := outweighs_of_room hwork hlc (by simp) hroom
  exact ⟨lc, parent, hlc, hparent, hwork, fun m =>
    extendTip_iff (b := ⟨a, [raw]⟩) hlc hparent (by simp) (by simp) hout⟩

/-- The next batch has the room that is left. -/
lemma Room.next (hcyc : NoCycle E U) (hinv : Tip.Inv E U genesis start s) {raw : RawHeader}
    {rest : List RawHeader} (mem : U raw) (hroom : Room s (raw :: rest)) {a : Addr}
    (h : extendTip E now s ⟨a, [raw]⟩ = .ok m) : Room m rest := by
  obtain ⟨lc, parent, hlc, hparent, hwork, hsingle⟩ := extendTip_single now hinv hroom.head a
  obtain ⟨hgate, window, B, r, I, hg⟩ := (hsingle m).mp h
  obtain ⟨hmlc, -, -, -, -, -, -, hrwork⟩ := hg.next hcyc hinv mem hlc hparent hgate
  intro lc' hlc'
  obtain rfl := Option.some.inj (hlc'.symm.trans hmlc)
  have hone := leNat_batchWork (hroom.head lc hlc)
  have hall := hroom lc hlc
  have htotal : (promote lc r 1 now).totalChainwork = batchWork lc.totalChainwork [raw] := by
    rw [← hwork]
    exact hrwork
  rw [htotal, hone]
  simp only [List.map_cons, List.sum_cons, List.map_nil, List.sum_nil] at hall ⊢
  omega

lemma nameHeader_top {I I' : ℕ → Account HeightIndex} {n t : ℕ} {raw : RawHeader}
    (h : nameHeader E (I, n) raw = .ok (I', t)) : n + 1 = t := by
  simp only [nameHeader, bind_eq_ok, pure_eq_ok, Prod.mk.injEq] at h
  obtain ⟨-, -, -, -, -, h⟩ := h
  exact h

/-- **One header, then the rest**: a batch does what its first header alone and the others
after it do. -/
theorem extendTip_cons (hcyc : NoCycle E U) (hinv : Tip.Inv E U genesis start s) {raw : RawHeader}
    {rest : List RawHeader} (mem : U raw) (hroom : Room s (raw :: rest)) (hne : rest ≠ [])
    (hlen : (raw :: rest).length ≤ 10) (a a₁ a₂ : Addr) :
    extendTip E now s ⟨a, raw :: rest⟩ = .ok s' ↔
      ∃ m, extendTip E now s ⟨a₁, [raw]⟩ = .ok m ∧ extendTip E now m ⟨a₂, rest⟩ = .ok s' := by
  obtain ⟨lc, parent, hlc, hparent, hwork, hsingle⟩ := extendTip_single now hinv hroom.head a₁
  have hlen' : rest.length ≤ 10 := by
    rw [List.length_cons] at hlen
    omega
  have hout := outweighs_of_room hwork hlc (by simp) hroom
  rw [extendTip_iff (b := ⟨a, raw :: rest⟩) hlc hparent (by simp) hlen hout]
  constructor
  · rintro ⟨hgate, window, B, r, I, hmtp, hstored, hfinal, ⟨top, hnamed⟩, hcount, rfl⟩
    rw [List.length_cons, Nat.add_comm rest.length] at hcount
    obtain ⟨⟨B₁, r₁⟩, hstore₁, hstore₂⟩ := loop_cons_eq_ok.mp hstored
    obtain ⟨⟨I₁, t₁⟩, hname₁, hname₂⟩ := loop_cons_eq_ok.mp hnamed
    have hg : Grown E now s lc parent [raw] _ window B₁ r₁ I₁ :=
      ⟨hmtp, loop_cons_eq_ok.mpr ⟨_, hstore₁, rfl⟩, hfinal,
        ⟨t₁, loop_cons_eq_ok.mpr ⟨_, hname₁, rfl⟩⟩, by rw [List.length_singleton]; omega, rfl⟩
    have hfirst := (hsingle _).mpr ⟨hgate, window, B₁, r₁, I₁, hg⟩
    refine ⟨_, hfirst, (hg.rest_iff hcyc hinv mem hlc hparent hgate hne hlen'
      (hroom.next hcyc hinv mem hfirst) a₂).mpr
      ⟨B, r, I, hstore₂, ⟨top, nameHeader_top hname₁ ▸ hname₂⟩, hcount, ?_⟩⟩
    rw [List.length_cons, Nat.add_comm rest.length]
  · rintro ⟨m, hfirst, h⟩
    obtain ⟨hgate, window, B₁, r₁, I₁, hg⟩ := (hsingle m).mp hfirst
    obtain ⟨B, r, I, hstore₂, ⟨top, hname₂⟩, hcount, rfl⟩ := (hg.rest_iff hcyc hinv mem hlc hparent
      hgate hne hlen' (hroom.next hcyc hinv mem hfirst) a₂).mp h
    obtain ⟨⟨B₁', r₁'⟩, hstore₁, heq⟩ := loop_cons_eq_ok.mp hg.stored
    obtain ⟨rfl, rfl⟩ := Prod.mk.inj (Except.ok.inj heq)
    obtain ⟨t, hnamed⟩ := hg.named
    obtain ⟨⟨I₁', t₁⟩, hname₁, heq⟩ := loop_cons_eq_ok.mp hnamed
    obtain ⟨rfl, rfl⟩ := Prod.mk.inj (Except.ok.inj heq)
    refine ⟨hgate, window, B, r, I, hg.mtp, loop_cons_eq_ok.mpr ⟨_, hstore₁, hstore₂⟩, hg.final,
      ⟨top, loop_cons_eq_ok.mpr ⟨_, hname₁, nameHeader_top hname₁ ▸ hname₂⟩⟩, ?_, ?_⟩
    · rw [List.length_cons, Nat.add_comm rest.length]
      exact hcount
    · rw [List.length_cons, Nat.add_comm rest.length]

/-- Who submits a header makes no difference. -/
lemma extendTip_submitter (hinv : Tip.Inv E U genesis start s) {raw : RawHeader}
    (hroom : Room s [raw]) (a a' : Addr) :
    extendTip E now s ⟨a, [raw]⟩ = .ok m ↔ extendTip E now s ⟨a', [raw]⟩ = .ok m := by
  obtain ⟨lc, parent, hlc, hparent, -, hsingle⟩ := extendTip_single now hinv hroom a
  obtain ⟨lc', parent', hlc', hparent', -, hsingle'⟩ := extendTip_single now hinv hroom a'
  obtain rfl : lc' = lc := Option.some.inj (hlc'.symm.trans hlc)
  obtain rfl : parent' = parent := Option.some.inj (hparent'.symm.trans hparent)
  rw [hsingle, hsingle']

/-- The headers one at a time. -/
def singles (raws : List RawHeader) : List Batch := raws.map fun raw => ⟨.lightClient, [raw]⟩

/-- **A batch is its headers one at a time.** -/
theorem extendTip_singles (hcol : NoCollision E U) (hcyc : NoCycle E U)
    (hinv : Tip.Inv E U genesis start s) {raws : List RawHeader} (mem : ∀ raw ∈ raws, U raw)
    (hroom : Room s raws) (hne : raws ≠ []) (hlen : raws.length ≤ 10) (a : Addr) :
    extendTip E now s ⟨a, raws⟩ = .ok s' ↔ extendAll E now s (singles raws) = .ok s' := by
  induction raws generalizing s a with
  | nil => exact absurd rfl hne
  | cons raw rest ih =>
    have hmem := mem raw List.mem_cons_self
    cases rest with
    | nil =>
      rw [extendTip_submitter hinv hroom a .lightClient]
      simp [extendAll, singles, loop_cons_eq_ok]
    | cons next rest =>
      rw [extendTip_cons hcyc hinv hmem hroom (by simp) hlen a .lightClient a, extendAll, singles,
        List.map_cons, loop_cons_eq_ok]
      refine exists_congr fun m => and_congr_right fun hm => ?_
      have hinv' : Tip.Inv E U genesis start m :=
        extendTip_inv hcol hcyc hinv (by simpa using hmem) (by simp) hm
      exact ih hinv' (fun x hx => mem x (List.mem_cons_of_mem _ hx)) (hroom.next hcyc hinv hmem hm)
        (by simp) (by rw [List.length_cons] at hlen; omega) a

/-- What is left after some of the headers. -/
lemma singles_next (hcol : NoCollision E U) (hcyc : NoCycle E U)
    (hinv : Tip.Inv E U genesis start s) {raws rest : List RawHeader} (mem : ∀ raw ∈ raws, U raw)
    (hroom : Room s (raws ++ rest)) (h : extendAll E now s (singles raws) = .ok m) :
    Tip.Inv E U genesis start m ∧ Room m rest := by
  induction raws generalizing s with
  | nil =>
    obtain rfl := Except.ok.inj h
    exact ⟨hinv, hroom⟩
  | cons raw raws ih =>
    rw [extendAll, singles, List.map_cons, loop_cons_eq_ok] at h
    obtain ⟨m₁, hm₁, h⟩ := h
    have hmem := mem raw List.mem_cons_self
    exact ih (extendTip_inv hcol hcyc hinv (by simpa using hmem) (by simp) hm₁)
      (fun x hx => mem x (List.mem_cons_of_mem _ hx)) (hroom.next hcyc hinv hmem hm₁) h

/-- Every batch has one to ten headers. -/
def Sized (bs : List Batch) : Prop := ∀ b ∈ bs, b.raws ≠ [] ∧ b.raws.length ≤ 10

/-- The batches that the headers are cut into. -/
def CutInto (raws : List RawHeader) (bs : List Batch) : Prop :=
  bs.flatMap Batch.raws = raws ∧ Sized bs

/-- **Batches are their headers one at a time.** -/
theorem extendAll_singles (hcol : NoCollision E U) (hcyc : NoCycle E U)
    (hinv : Tip.Inv E U genesis start s) {bs : List Batch} (hsize : Sized bs)
    (mem : ∀ raw ∈ bs.flatMap Batch.raws, U raw) (hroom : Room s (bs.flatMap Batch.raws)) :
    extendAll E now s bs = .ok s' ↔
      extendAll E now s (singles (bs.flatMap Batch.raws)) = .ok s' := by
  induction bs generalizing s with
  | nil => rfl
  | cons b bs ih =>
    rw [List.flatMap_cons] at mem hroom ⊢
    obtain ⟨hne, hlen⟩ := hsize b List.mem_cons_self
    have hmem : ∀ raw ∈ b.raws, U raw := fun raw hr => mem raw (List.mem_append_left _ hr)
    have hroom₁ : Room s b.raws := by
      intro lc hlc
      have := hroom lc hlc
      rw [List.map_append, List.sum_append] at this
      omega
    rw [extendAll, loop_cons_eq_ok, singles, List.map_append, ← singles, ← singles, extendAll,
      loop_append_eq_ok]
    refine exists_congr fun m => ?_
    rw [extendTip_singles hcol hcyc hinv hmem hroom₁ hne hlen b.submitter]
    refine and_congr_right fun hm => ?_
    obtain ⟨hinv', hroom'⟩ := singles_next hcol hcyc hinv hmem hroom hm
    exact ih hinv' (fun x hx => hsize x (List.mem_cons_of_mem _ hx))
      (fun x hx => mem x (List.mem_append_right _ hx)) hroom'

end Cut

/-! ### Every state of a run -/

/-- The headers a call submits. -/
def headersOf : Program.Call → List RawHeader
  | .extend _ data _ => rawHeaders data
  | _ => []

/-- The headers submitted in a run, and more. -/
def SubmittedOr (tr : List (Step State Program.Call)) (raws : List RawHeader) (raw : RawHeader) :
    Prop :=
  (∃ st ∈ tr, raw ∈ headersOf st.call) ∨ raw ∈ raws

lemma step_tip {E : Env} {U : RawHeader → Prop} {genesis : Hash} {start : ℕ} {s s' : State}
    {c : Program.Call} (hcol : NoCollision E U) (hcyc : NoCycle E U)
    (hinv : Tip.Inv E U genesis start s) (mem : ∀ raw ∈ headersOf c, U raw)
    (hc : Finality.OneInstance s c) (h : Program.step E s c = .ok s') :
    Tip.Inv E U genesis start s' := by
  cases c with
  | extend accounts data now => exact (extend_inv hcol hcyc hinv mem h).1
  | prune accounts data => exact prune_inv hinv h
  | verify accounts data buffer now =>
    obtain ⟨-, -, -, -, -, hlc, hheader, hindex, -⟩ := processVerifyTransaction_ok h
    exact hinv.of_same hheader hindex hlc
  | restart accounts data now => exact absurd hc (by simp [Finality.OneInstance, Program.Call.restarts])
  | fund a lamports =>
    obtain rfl := Except.ok.inj h
    exact hinv.of_same (credit_header? ..) (credit_index? ..) (credit_lc? ..)
  | reap a =>
    obtain rfl := Except.ok.inj h
    exact hinv.of_same (reap_header? ..) (reap_index? ..) (reap_lc? ..)

namespace Regtest

open Chain.Regtest

def three : List RawHeader := [a1, a2, a3]

/-- Three blocks in one batch, or the first one alone. -/
def whole : List Batch := [⟨wallet.key, three⟩]
def parts : List Batch := [⟨wallet.key, [a1]⟩, ⟨wallet.key, [a2, a3]⟩]

lemma whole_accepted : (Finality.Regtest.start.bind fun s =>
    (extendAll env 0 s whole).toOption).isSome = true := by
  decide +kernel

lemma start_room : (Finality.Regtest.start.bind fun s => s.lc?.map fun lc =>
    decide (leNat lc.totalChainwork.toList + (three.map fun raw => headerWork raw.bits).sum < 2 ^ 256)) =
      some true := by
  decide +kernel

lemma three_headers : ∀ raw ∈ three, raw ∈ headers := by
  simp [three, headers]

end Regtest

end Utxopia.LightClient.Batching
