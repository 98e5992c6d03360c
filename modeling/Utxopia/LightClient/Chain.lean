import Utxopia.Lib.Run
import Utxopia.Lib.Store
import Utxopia.LightClient.Extend
import Utxopia.LightClient.Initialize
import Utxopia.LightClient.Prune

/-!
The height index as a hash chain.

Batches and pruning in any order, with payments to any address and clean-up of drained
accounts in between. The depth of a block, counted along the previous-block links from the
start block, is what ties an index entry to its height, stale or not.
-/

namespace Utxopia.LightClient.Chain

open Utxopia.ByteString Utxopia.Check Utxopia.Run Utxopia.Runtime
open Utxopia.LightClient.Accounts Utxopia.LightClient.Initialize Utxopia.LightClient.Extend
open Utxopia.LightClient.Prune Utxopia.LightClient.Pow

inductive Call where
  | extend (accounts : List AccountInfo) (data : List UInt8) (now : ℤ)
  | prune (accounts : List AccountInfo) (data : List UInt8)
  | fund (a : Addr) (lamports : ℕ)
  | reap (a : Addr)

def step (E : Env) (s : State) : Call → Except ProgramError State
  | .extend accounts data now => processExtendBlockchain E s accounts data now
  | .prune accounts data => processPruneObsoleteBlocks s accounts data
  | .fund a lamports => .ok (s.credit lamports a)
  | .reap a => .ok (s.reap a)

/-- The headers a call submits. -/
def Call.headers : Call → List RawHeader
  | .extend _ data _ => rawHeaders data
  | _ => []

/-- The index names a stored header of height `h` whose predecessor it names at `h - 1`. -/
def LinkAt (s : State) (h : ℕ) : Prop :=
  ∃ hi prev hdr, s.index? h = some hi ∧ s.index? (h - 1) = some prev ∧
    s.header? hi.blockHash = some hdr ∧ hdr.height = h ∧ hdr.prevBlockHash = prev.blockHash

/-- The index entries from the start block to the tip form one hash chain. -/
def Chained (start : ℕ) (s : State) : Prop :=
  ∃ lc, s.lc? = some lc ∧
    (∃ tip, s.index? lc.tipHeight = some tip ∧ tip.blockHash = lc.tipHash) ∧
    ∀ h, start < h → h ≤ lc.tipHeight → LinkAt s h

/-- The work of a batch on top of `chainwork`. -/
def batchWork (chainwork : Bytes 32) (raws : List RawHeader) : Bytes 32 :=
  raws.foldl (fun cw raw => addChainwork cw (calculateChainwork raw.bits)) chainwork

/-- The call hangs a batch that outweighs the tip on a block above the tip. -/
def OffTip (s : State) : Call → Prop
  | .extend accounts data _ =>
    match s.lc?, accounts[3]?.bind fun info => s.headerAt info.key with
    | some lc, some parent => lc.tipHeight < parent.height ∧
        outweighs (batchWork parent.chainwork (rawHeaders data)) lc.totalChainwork = true
    | _, _ => False
  | _ => False

instance (s : State) (c : Call) : Decidable (OffTip s c) := by
  unfold OffTip
  split
  · split <;> infer_instance
  · infer_instance

variable (E : Env) (U : RawHeader → Prop)

/-- No two of the headers share a hash. -/
def NoCollision : Prop := ∀ a b, U a → U b → blockHashOf E a = blockHashOf E b → a = b

/-- The previous-block links of the headers lead down in some order. -/
def NoCycle : Prop :=
  ∃ rank : Hash → ℕ, ∀ a, U a → rank a.prevBlockHash < rank (blockHashOf E a)

/-! ### Depth -/

/-- The number of links from the start block, counted from its height. -/
inductive Depth (genesis : Hash) (start : ℕ) : Hash → ℕ → Prop
  | genesis : Depth genesis start genesis start
  | link {raw : RawHeader} {n : ℕ} (mem : U raw) (prev : Depth genesis start raw.prevBlockHash n) :
      Depth genesis start (blockHashOf E raw) (n + 1)

variable {E U} {genesis : Hash} {start : ℕ}

lemma Depth.start_le {b : Hash} {n : ℕ} (h : Depth E U genesis start b n) : start ≤ n := by
  induction h with
  | genesis => exact le_rfl
  | link _ _ ih => omega

lemma Depth.rank_le {rank : Hash → ℕ}
    (hr : ∀ a, U a → rank a.prevBlockHash < rank (blockHashOf E a)) {b : Hash} {n : ℕ}
    (h : Depth E U genesis start b n) : rank genesis ≤ rank b := by
  induction h with
  | genesis => exact le_rfl
  | link mem _ ih => exact ih.trans (hr _ mem).le

/-- Nothing that descends from the start block hashes to it. -/
lemma Depth.link_ne (hcyc : NoCycle E U) {raw : RawHeader} {n : ℕ} (mem : U raw)
    (h : Depth E U genesis start raw.prevBlockHash n) : blockHashOf E raw ≠ genesis := by
  obtain ⟨rank, hr⟩ := hcyc
  intro he
  have h1 := h.rank_le hr
  have h2 := hr raw mem
  rw [he] at h2
  omega

lemma Depth.inv {b : Hash} {n : ℕ} (h : Depth E U genesis start b n) :
    (b = genesis ∧ n = start) ∨ ∃ raw k, U raw ∧ b = blockHashOf E raw ∧ n = k + 1 ∧
      Depth E U genesis start raw.prevBlockHash k := by
  cases h with
  | genesis => exact Or.inl ⟨rfl, rfl⟩
  | link mem prev => exact Or.inr ⟨_, _, mem, rfl, rfl, prev⟩

/-- **Depth is a function of the block.** -/
theorem Depth.unique (hcol : NoCollision E U) (hcyc : NoCycle E U) {b : Hash} {n m : ℕ}
    (h : Depth E U genesis start b n) (h' : Depth E U genesis start b m) : n = m := by
  induction h generalizing m with
  | genesis =>
    obtain ⟨-, rfl⟩ | ⟨raw, k, mem, hb, -, prev⟩ := h'.inv
    · rfl
    · exact absurd hb.symm (prev.link_ne hcyc mem)
  | @link raw n mem prev ih =>
    obtain ⟨hb, -⟩ | ⟨raw', k, mem', hb, rfl, prev'⟩ := h'.inv
    · exact absurd hb (prev.link_ne hcyc mem)
    · have := hcol _ _ mem mem' hb
      subst this
      rw [ih prev']

/-! ### Stored headers -/

/-- A stored header is the start block or a submitted header below its own hash, at its
depth. -/
def Good (E : Env) (U : RawHeader → Prop) (genesis : Hash) (start : ℕ) (b : Hash)
    (hdr : BlockHeader) : Prop :=
  hdr.blockHash = b ∧ ((b = genesis ∧ hdr.height = start) ∨
    ∃ raw n, U raw ∧ b = blockHashOf E raw ∧ hdr.prevBlockHash = raw.prevBlockHash ∧
      hdr.height = n + 1 ∧ Depth E U genesis start raw.prevBlockHash n)

lemma Good.depth {b : Hash} {hdr : BlockHeader} (h : Good E U genesis start b hdr) :
    Depth E U genesis start b hdr.height := by
  obtain ⟨-, ⟨rfl, hh⟩ | ⟨raw, n, mem, rfl, -, hh, hd⟩⟩ := h
  · exact hh ▸ .genesis
  · exact hh ▸ .link mem hd

def AllGood (E : Env) (U : RawHeader → Prop) (genesis : Hash) (start : ℕ) (s : State) : Prop :=
  ∀ b hdr, s.header? b = some hdr → Good E U genesis start b hdr

/-- Every stored header stays, with its height and its link. -/
def Keeps (genesis : Hash) (s s' : State) : Prop :=
  ∀ b hdr, s.header? b = some hdr → ∃ hdr', s'.header? b = some hdr' ∧
    hdr'.height = hdr.height ∧ (b ≠ genesis → hdr'.prevBlockHash = hdr.prevBlockHash)

lemma Keeps.trans {s₁ s₂ s₃ : State} (h : Keeps genesis s₁ s₂) (h' : Keeps genesis s₂ s₃) :
    Keeps genesis s₁ s₃ := by
  intro b hdr hb
  obtain ⟨hdr₂, hb₂, hh₂, hp₂⟩ := h b hdr hb
  obtain ⟨hdr₃, hb₃, hh₃, hp₃⟩ := h' b hdr₂ hb₂
  exact ⟨hdr₃, hb₃, hh₃.trans hh₂, fun hne => (hp₃ hne).trans (hp₂ hne)⟩

/-- The headers are stored one on top of the other, the first on `b` at height `n`. -/
def Linked (E : Env) (s : State) : Hash → ℕ → List RawHeader → Prop
  | _, _, [] => True
  | b, n, raw :: raws =>
    (∃ hdr, s.header? (blockHashOf E raw) = some hdr ∧ hdr.height = n + 1 ∧
      hdr.prevBlockHash = b) ∧ Linked E s (blockHashOf E raw) (n + 1) raws

def lastHash (E : Env) (b : Hash) (raws : List RawHeader) : Hash :=
  raws.foldl (fun _ raw => blockHashOf E raw) b

/-- Two good headers of one block agree on what the chain needs. -/
lemma Good.agree (hcol : NoCollision E U) (hcyc : NoCycle E U) {b : Hash}
    {hdr hdr' : BlockHeader} (h : Good E U genesis start b hdr)
    (h' : Good E U genesis start b hdr') :
    hdr'.height = hdr.height ∧ (b ≠ genesis → hdr'.prevBlockHash = hdr.prevBlockHash) := by
  refine ⟨Depth.unique hcol hcyc h'.depth h.depth, fun hne => ?_⟩
  obtain ⟨-, ⟨rfl, -⟩ | ⟨raw, n, mem, hb, hp, -, -⟩⟩ := h
  · exact absurd rfl hne
  obtain ⟨-, ⟨rfl, -⟩ | ⟨raw', n', mem', hb', hp', -, -⟩⟩ := h'
  · exact absurd rfl hne
  rw [hp', hp, hcol _ _ mem' mem (hb' ▸ hb)]

section Steps

variable (hcol : NoCollision E U) (hcyc : NoCycle E U)
include hcol hcyc

/-- One header of a batch. -/
lemma accept_step {lc : BitcoinLightClient} {now : ℤ} {s s' : State} {r r' : Running}
    {item : RawHeader × AccountInfo} (mem : U item.1) (hg : AllGood E U genesis start s)
    (hd : Depth E U genesis start r.prevHash r.height)
    (h : acceptHeader E lc now (s, r) item = .ok (s', r')) :
    AllGood E U genesis start s' ∧ Keeps genesis s s' ∧
      Depth E U genesis start r'.prevHash r'.height ∧
      s'.header? r'.prevHash = some (storedHeader lc r' item.1 now) := by
  obtain ⟨hcheck, rfl, hheader, -, -⟩ := acceptHeader_ok h
  obtain ⟨hprev, -⟩ := checkHeader_ok hcheck
  rw [← hprev] at hd
  have hnew : Good E U genesis start (blockHashOf E item.1)
      (storedHeader lc (r.next E lc item.1) item.1 now) :=
    ⟨rfl, Or.inr ⟨item.1, r.height, mem, rfl, rfl, rfl, hd⟩⟩
  have hall : AllGood E U genesis start s' := by
    intro b hdr hb
    rw [hheader] at hb
    rcases update_eq_some.mp hb with ⟨rfl, rfl⟩ | ⟨-, hold⟩
    · exact hnew
    · exact hg b hdr hold
  refine ⟨hall, ?_, .link mem hd, ?_⟩
  · intro b hdr hb
    by_cases hne : b = blockHashOf E item.1
    · subst hne
      refine ⟨_, by rw [hheader, Function.update_self], ?_⟩
      exact Good.agree hcol hcyc (hg _ _ hb) hnew
    · exact ⟨hdr, by rw [hheader, Function.update_of_ne hne, hb], rfl, fun _ => rfl⟩
  · rw [hheader]
    exact Function.update_self ..

/-- **A batch** leaves good headers, keeps the old ones and stores its own in a row. -/
theorem accept_run {lc : BitcoinLightClient} {now : ℤ} {s s' : State} {r r' : Running}
    {items : List (RawHeader × AccountInfo)} (mem : ∀ i ∈ items, U i.1)
    (hg : AllGood E U genesis start s) (hd : Depth E U genesis start r.prevHash r.height)
    (h : loop (acceptHeader E lc now) (s, r) items = .ok (s', r')) :
    AllGood E U genesis start s' ∧ Keeps genesis s s' ∧
      Linked E s' r.prevHash r.height (items.map Prod.fst) ∧
      s'.index? = s.index? ∧ s'.lc? = s.lc? ∧ r'.height = r.height + items.length ∧
      r'.prevHash = lastHash E r.prevHash (items.map Prod.fst) ∧
      r'.chainwork = batchWork r.chainwork (items.map Prod.fst) := by
  induction items generalizing s r with
  | nil =>
    simp only [loop_nil, Except.ok.injEq, Prod.mk.injEq] at h
    obtain ⟨rfl, rfl⟩ := h
    exact ⟨hg, fun b hdr hb => ⟨hdr, hb, rfl, fun _ => rfl⟩, trivial, rfl, rfl, rfl, rfl, rfl⟩
  | cons item items ih =>
    obtain ⟨⟨m, rm⟩, hm, hrest⟩ := loop_cons_eq_ok.mp h
    obtain ⟨hgm, hkm, hdm, hstored⟩ :=
      accept_step hcol hcyc (mem item (by simp)) hg hd hm
    obtain ⟨hcheck, hrm, -, hidx, hlc, -⟩ := acceptHeader_ok hm
    obtain ⟨hprev, -⟩ := checkHeader_ok hcheck
    obtain ⟨hg', hk', hl', hidx', hlc', hh', hp', hw'⟩ :=
      ih (fun i hi => mem i (by simp [hi])) hgm hdm hrest
    have hph : rm.prevHash = blockHashOf E item.1 := by rw [hrm, next_prevHash]
    have hhh : rm.height = r.height + 1 := by rw [hrm, next_height]
    have hcw : rm.chainwork = addChainwork r.chainwork (calculateChainwork item.1.bits) := by
      rw [hrm, next_chainwork]
    have hne : rm.prevHash ≠ genesis := by
      rw [hph]
      rw [← hprev] at hd
      exact hd.link_ne hcyc (mem item (by simp))
    obtain ⟨hdr', hb', hheight', hlink'⟩ := hk' _ _ hstored
    rw [hph, hhh] at hl'
    refine ⟨hg', hkm.trans hk', ⟨⟨hdr', hph ▸ hb', ?_, ?_⟩, hl'⟩, hidx'.trans hidx,
      hlc'.trans hlc, ?_, ?_, ?_⟩
    · rw [hheight', ← hhh, storedHeader_height]
    · rw [hlink' hne, ← hprev, storedHeader_prevBlockHash]
    · rw [hh', hhh, List.length_cons]
      omega
    · rw [hp', hph, List.map_cons, lastHash, lastHash, List.foldl_cons]
    · rw [hw', hcw, List.map_cons, batchWork, batchWork, List.foldl_cons]

end Steps

/-! ### The index after a batch -/

/-- The index names the headers one after the other from height `n + 1` on. -/
def Indexed (E : Env) (s : State) : ℕ → List RawHeader → Prop
  | _, [] => True
  | n, raw :: raws =>
    s.index? (n + 1) = some ⟨blockHashOf E raw, n + 1⟩ ∧ Indexed E s (n + 1) raws

/-- **Rewriting the index** touches the heights of the batch only, and names the batch
there. -/
theorem index_run {s s' : State} {n n' : ℕ} {items : List (RawHeader × AccountInfo)}
    (h : loop (indexHeader E) (s, n) items = .ok (s', n')) :
    s'.header? = s.header? ∧ s'.lc? = s.lc? ∧
      (∀ k, k ≤ n ∨ n + items.length < k → s'.index? k = s.index? k) ∧
      Indexed E s' n (items.map Prod.fst) := by
  induction items generalizing s n with
  | nil =>
    simp only [loop_nil, Except.ok.injEq, Prod.mk.injEq] at h
    obtain ⟨rfl, rfl⟩ := h
    exact ⟨rfl, rfl, fun _ _ => rfl, trivial⟩
  | cons item items ih =>
    obtain ⟨⟨m, nm⟩, hm, hrest⟩ := loop_cons_eq_ok.mp h
    obtain ⟨rfl, hidx, hhdr, hlc, -⟩ := indexHeader_ok hm
    obtain ⟨hhdr', hlc', hlow, hidx'⟩ := ih hrest
    refine ⟨hhdr'.trans hhdr, hlc'.trans hlc, ?_, ⟨?_, hidx'⟩⟩
    · intro k hk
      simp only [List.length_cons] at hk
      rw [hlow k (by omega), hidx, Function.update_of_ne (by omega)]
    · rw [hlow (n + 1) (Or.inl le_rfl), hidx, Function.update_self]

lemma Linked.of_header_eq {s s' : State} (heq : s'.header? = s.header?) {b : Hash} {n : ℕ}
    {raws : List RawHeader} (h : Linked E s b n raws) : Linked E s' b n raws := by
  induction raws generalizing b n with
  | nil => trivial
  | cons raw raws ih => exact ⟨heq ▸ h.1, ih h.2⟩

/-- Headers stored in a row under index entries in a row make links. -/
lemma links_of_linked {s : State} {b : Hash} {n : ℕ} {raws : List RawHeader}
    (hl : Linked E s b n raws) (hi : Indexed E s n raws)
    (hb : ∃ hi, s.index? n = some hi ∧ hi.blockHash = b) :
    (∀ h, n < h → h ≤ n + raws.length → LinkAt s h) ∧
      ∃ hi, s.index? (n + raws.length) = some hi ∧ hi.blockHash = lastHash E b raws := by
  induction raws generalizing b n with
  | nil => exact ⟨fun h h1 h2 => absurd h2 (by simp only [List.length_nil]; omega), hb⟩
  | cons raw raws ih =>
    obtain ⟨⟨hdr, hhdr, hheight, hprev⟩, hl⟩ := hl
    obtain ⟨hentry, hi⟩ := hi
    obtain ⟨prev, hprevIdx, hprevHash⟩ := hb
    obtain ⟨hlinks, hlast⟩ := ih hl hi ⟨_, hentry, rfl⟩
    constructor
    · intro h h1 h2
      by_cases hh : h = n + 1
      · subst hh
        exact ⟨_, prev, hdr, hentry, hprevIdx, hhdr, hheight, hprev.trans hprevHash.symm⟩
      · exact hlinks h (by omega) (by simp only [List.length_cons] at h2; omega)
    · rw [List.length_cons, show n + (raws.length + 1) = n + 1 + raws.length by omega]
      exact hlast

/-! ### The invariant -/

/-- The chain, the stored headers at their depth, and index entries at theirs. -/
structure Inv (E : Env) (U : RawHeader → Prop) (genesis : Hash) (start : ℕ) (s : State) :
    Prop where
  good : AllGood E U genesis start s
  index : ∀ n hi, s.index? n = some hi → Depth E U genesis start hi.blockHash n
  chained : Chained start s

lemma Inv.of_same {s s' : State} (h : Inv E U genesis start s) (h1 : s'.header? = s.header?)
    (h2 : s'.index? = s.index?) (h3 : s'.lc? = s.lc?) : Inv E U genesis start s' := by
  obtain ⟨hg, hi, lc, hlc, htip, hlink⟩ := h
  refine ⟨fun b hdr hb => hg b hdr (h1 ▸ hb), fun n hi' hn => hi n hi' (h2 ▸ hn),
    lc, h3 ▸ hlc, h2 ▸ htip, fun k hk hk' => ?_⟩
  obtain ⟨a, p, d, ha, hp, hd, hrest⟩ := hlink k hk hk'
  exact ⟨a, p, d, h2 ▸ ha, h2 ▸ hp, h1 ▸ hd, hrest⟩

lemma initialize_inv {s s' : State} {accounts : List AccountInfo} {data : List UInt8} {now : ℤ}
    (hs : Untouched s) (h : processInitialize E s accounts data now = .ok s') :
    Inv E U (parseData data).startBlockHash (parseData data).startHeight s' := by
  obtain ⟨⟨payer, hlc⟩, hheader, hindex⟩ := processInitialize_ok h
  obtain ⟨-, hnoHeader, hnoIndex, -⟩ := hs
  clear h
  generalize parseData data = d at *
  refine ⟨?_, ?_, _, hlc, ?_, ?_⟩
  · intro b hdr hb
    rw [hheader] at hb
    rcases update_eq_some.mp hb with ⟨rfl, rfl⟩ | ⟨-, hold⟩
    · exact ⟨rfl, Or.inl ⟨rfl, rfl⟩⟩
    · exact absurd ((hnoHeader b).symm.trans hold) (by simp)
  · intro n hi hn
    rw [hindex] at hn
    rcases update_eq_some.mp hn with ⟨rfl, rfl⟩ | ⟨-, hold⟩
    · exact .genesis
    · exact absurd ((hnoIndex n).symm.trans hold) (by simp)
  · rw [hindex]
    exact ⟨_, Function.update_self .., rfl⟩
  · intro h h1 h2
    simp only [initialClient] at h2
    omega

lemma prune_inv {s s' : State} {accounts : List AccountInfo} {data : List UInt8}
    (hinv : Inv E U genesis start s)
    (h : processPruneObsoleteBlocks s accounts data = .ok s') : Inv E U genesis start s' := by
  obtain ⟨b, hdr, hi, lc, hhdr, -, hhi, hne, -, -, hheader, hindex, hlc⟩ :=
    processPruneObsoleteBlocks_ok h
  obtain ⟨lc', hlc', htip, hchain⟩ := hinv.chained
  refine ⟨?_, fun n e he => hinv.index n e (hindex ▸ he), lc', hlc ▸ hlc', hindex ▸ htip, ?_⟩
  · intro c hdr' hc
    rw [hheader] at hc
    by_cases hcb : c = b
    · subst hcb
      simp at hc
    · rw [Function.update_of_ne hcb] at hc
      exact hinv.good c hdr' hc
  · intro k hk hk'
    obtain ⟨e, prev, d, he, hprev, hd, hheight, hlink⟩ := hchain k hk hk'
    have hcb : e.blockHash ≠ b := by
      -- the index would name the pruned header at its own height
      rintro rfl
      obtain rfl : d = hdr := Option.some.inj (hd.symm.trans hhdr)
      rw [hheight, he, Option.some.injEq] at hhi
      exact hne (hhi ▸ rfl)
    exact ⟨e, prev, d, hindex ▸ he, hindex ▸ hprev,
      by rw [hheader, Function.update_of_ne hcb, hd], hheight, hlink⟩

section Preservation

variable (hcol : NoCollision E U) (hcyc : NoCycle E U)
include hcol hcyc

/-- A link survives where the index entries and the named header do. -/
lemma LinkAt.keep {s s' : State} {h : ℕ} (hidx : ∀ n hi, s.index? n = some hi →
      Depth E U genesis start hi.blockHash n) (hstart : start < h) (hl : LinkAt s h)
    (hk : Keeps genesis s s') (h1 : s'.index? h = s.index? h)
    (h2 : s'.index? (h - 1) = s.index? (h - 1)) : LinkAt s' h := by
  obtain ⟨hi, prev, hdr, hhi, hprev, hhdr, hheight, hlink⟩ := hl
  obtain ⟨hdr', hhdr', hheight', hlink'⟩ := hk _ _ hhdr
  refine ⟨hi, prev, hdr', h1 ▸ hhi, h2 ▸ hprev, hhdr', hheight'.trans hheight, ?_⟩
  rw [hlink' ?_, hlink]
  intro he
  have h3 := hidx h hi hhi
  rw [he] at h3
  exact absurd (h3.unique hcol hcyc .genesis) (by omega)

lemma extend_inv {s s' : State} {accounts : List AccountInfo} {data : List UInt8} {now : ℤ}
    (hinv : Inv E U genesis start s) (mem : ∀ raw ∈ rawHeaders data, U raw)
    (htip : ¬ OffTip s (.extend accounts data now))
    (h : processExtendBlockchain E s accounts data now = .ok s') :
    Inv E U genesis start s' := by
  obtain ⟨lc, parent, window, items, indexItems, s₁, r, hlc, hparent, ⟨hi, hhi, hhash⟩, -,
    ⟨info, hinfo, hkey⟩, hitems, hindexItems, -, hloop, hend⟩ := processExtendBlockchain_ok h
  have hdparent : Depth E U genesis start parent.blockHash parent.height :=
    (hinv.good _ _ hparent).depth
  obtain ⟨hg₁, hk₁, hl₁, hidx₁, hlc₁, hh₁, hp₁, hw₁⟩ := accept_run hcol hcyc
    (fun i hi => mem _ (hitems ▸ List.mem_map_of_mem hi)) hinv.good hdparent hloop
  obtain ⟨lc', hlc', htipIdx, hchain⟩ := hinv.chained
  obtain rfl : lc' = lc := Option.some.inj (hlc'.symm.trans hlc)
  rw [hitems] at hl₁ hp₁ hw₁
  rcases hend with ⟨hout, hcanon⟩ | ⟨-, rfl⟩
  · -- the tip moves
    have hle : parent.height ≤ lc'.tipHeight := by
      by_contra hgt
      have hat : s.headerAt info.key = some parent := by
        rw [hkey]
        exact hparent
      rw [hw₁] at hout
      simp only [OffTip, hlc, hinfo, Option.bind_some, hat] at htip
      exact htip ⟨by omega, hout⟩
    simp only [makeCanonical, bind_eq_ok, require_eq_ok, exists_const, pure_eq_ok,
      Prod.exists] at hcanon
    obtain ⟨-, s₂, n₂, hiloop, -, rfl⟩ := hcanon
    obtain ⟨hhdr₂, -, hsame₂, hidx₂⟩ := index_run hiloop
    have hlen : items.length = indexItems.length := by
      rw [← List.length_map (f := Prod.fst), hitems, ← hindexItems, List.length_map]
    have hlen' : (rawHeaders data).length = indexItems.length := by
      rw [← hindexItems, List.length_map]
    rw [hindexItems] at hidx₂
    have hk₂ : Keeps genesis s s₂ := fun b hdr hb => hhdr₂ ▸ hk₁ b hdr hb
    have hentry : ∃ hi, s₂.index? parent.height = some hi ∧ hi.blockHash = parent.blockHash := by
      rw [hsame₂ _ (Or.inl le_rfl), hidx₁]
      exact ⟨hi, hhi, hhash⟩
    obtain ⟨hlinks, hlast⟩ := links_of_linked (hl₁.of_header_eq hhdr₂) hidx₂ hentry
    rw [hlen'] at hlinks hlast
    have hg₂ : AllGood E U genesis start s₂ := fun b hdr hb => hg₁ b hdr (hhdr₂ ▸ hb)
    refine ⟨hg₂, ?_, promote lc' r indexItems.length now, rfl, ?_, ?_⟩
    · intro n e he
      by_cases hn : parent.height < n ∧ n ≤ parent.height + indexItems.length
      · -- an entry of this batch: its header is stored at this height
        obtain ⟨e', -, hdr, he', -, hhdr, hheight, -⟩ := hlinks n hn.1 hn.2
        obtain rfl : e' = e := Option.some.inj (he'.symm.trans he)
        exact hheight ▸ (hg₂ _ _ hhdr).depth
      · refine hinv.index n e ?_
        rw [← hidx₁, ← hsame₂ n (by omega)]
        exact he
    · rw [← hlen, ← hh₁, ← hp₁] at hlast
      exact hlast
    · intro k hk hk'
      have hk'' : k ≤ parent.height + indexItems.length := by
        rw [← hlen]
        exact le_of_le_of_eq hk' hh₁
      by_cases hkp : parent.height < k
      · exact hlinks k hkp hk''
      · have hl := hchain k hk (by omega)
        refine LinkAt.keep hcol hcyc hinv.index hk hl hk₂ ?_ ?_
        · exact (hsame₂ _ (by omega)).trans (congrFun hidx₁ k)
        · exact (hsame₂ _ (by omega)).trans (congrFun hidx₁ (k - 1))
  · -- the headers are only stored
    refine ⟨hg₁, fun n e he => hinv.index n e (hidx₁ ▸ he), countHeaders lc' _ now, rfl, ?_, ?_⟩
    · exact hidx₁ ▸ htipIdx
    · intro k hk hk'
      exact LinkAt.keep hcol hcyc hinv.index hk (hchain k hk hk') hk₁ (congrFun hidx₁ k)
        (congrFun hidx₁ (k - 1))

/-- **One call** keeps the invariant unless it hangs a heavier batch above the tip. -/
theorem step_inv {s s' : State} {c : Call} (hinv : Inv E U genesis start s)
    (mem : ∀ raw ∈ c.headers, U raw) (htip : ¬ OffTip s c) (h : step E s c = .ok s') :
    Inv E U genesis start s' := by
  cases c with
  | extend accounts data now => exact extend_inv hcol hcyc hinv mem htip h
  | prune accounts data => exact prune_inv hinv h
  | fund a lamports =>
    simp only [step, Except.ok.injEq] at h
    subst h
    exact hinv.of_same (credit_header? ..) (credit_index? ..) (credit_lc? ..)
  | reap a =>
    simp only [step, Except.ok.injEq] at h
    subst h
    exact hinv.of_same (reap_header? ..) (reap_index? ..) (reap_lc? ..)

end Preservation

/-- The headers submitted in a run. -/
def Submitted (tr : List (Step State Call)) (raw : RawHeader) : Prop :=
  ∃ st ∈ tr, raw ∈ st.call.headers

/-- **The index is a chain**, in every run that never hangs a heavier batch on a block above
the tip. -/
theorem heightIndex_chained {E : Env} {s₀ s₁ s : State} {accounts : List AccountInfo}
    {data : List UInt8} {now : ℤ} {tr : List (Step State Call)} (hs : Untouched s₀)
    (hinit : processInitialize E s₀ accounts data now = .ok s₁)
    (hrun : Reaches (step E) (fun s c => ¬ OffTip s c) s₁ tr s)
    (hcol : NoCollision E (Submitted tr)) (hcyc : NoCycle E (Submitted tr)) :
    Chained (parseData data).startHeight s := by
  have hrun' : Reaches (step E)
      (fun s c => ¬ OffTip s c ∧ ∀ raw ∈ c.headers, Submitted tr raw) s₁ tr s :=
    hrun.strengthen fun st hst hg => ⟨hg, fun raw hraw => ⟨st, hst, hraw⟩⟩
  have hinv := hrun'.inv (initialize_inv (U := Submitted tr) hs hinit)
    fun s c s' hi hg h => step_inv hcol hcyc hi hg.2 hg.1 h
  exact hinv.chained

/-! ### A stale parent -/

lemma submitted_iff {tr : List (Step State Call)} {raw : RawHeader} :
    Submitted tr raw ↔ raw ∈ (tr.map Step.call).flatMap Call.headers := by
  simp [Submitted]

lemma noCollision_of {l : List RawHeader} (hU : ∀ raw, U raw → raw ∈ l)
    (h : ∀ a ∈ l, ∀ b ∈ l, blockHashOf E a = blockHashOf E b → a = b) : NoCollision E U :=
  fun a b ha hb => h a (hU a ha) b (hU b hb)

lemma noCycle_of {l : List RawHeader} (order : List Hash) (hU : ∀ raw, U raw → raw ∈ l)
    (h : ∀ a ∈ l, order.idxOf a.prevBlockHash < order.idxOf (blockHashOf E a)) : NoCycle E U :=
  ⟨order.idxOf, fun a ha => h a (hU a ha)⟩

/-- The tip is at or above `h`, where the index and the stored header disagree. -/
def brokenAt (s : State) (h : ℕ) : Bool :=
  match s.lc?, s.index? h, s.index? (h - 1) with
  | some lc, some hi, some prev =>
    match s.header? hi.blockHash with
    | some hdr => h ≤ lc.tipHeight && hdr.prevBlockHash != prev.blockHash
    | none => false
  | _, _, _ => false

lemma not_chained_of_brokenAt {s : State} {h : ℕ} (hs : start < h) (hb : brokenAt s h = true) :
    ¬ Chained start s := by
  rintro ⟨lc, hlc, -, hlink⟩
  unfold brokenAt at hb
  split at hb
  · rename_i lc' hi prev hlc' hhi hprev
    split at hb
    · rename_i hdr hhdr
      simp only [Bool.and_eq_true, decide_eq_true_eq, bne_iff_ne] at hb
      obtain rfl : lc' = lc := Option.some.inj (hlc'.symm.trans hlc)
      obtain ⟨hi', prev', hdr', h1, h2, h3, -, h5⟩ := hlink h hs hb.1
      obtain rfl : hi = hi' := Option.some.inj (hhi.symm.trans h1)
      obtain rfl : prev = prev' := Option.some.inj (hprev.symm.trans h2)
      obtain rfl : hdr = hdr' := Option.some.inj (hhdr.symm.trans h3)
      exact hb.2 h5
    · exact absurd hb (by simp)
  · exact absurd hb (by simp)

namespace Regtest

def genesisHash : Hash :=
  toLe 32 0x0f9188f13cb7b2c71f2a335e3a4fc328bf5beb436012afca590b1a11466e2206

def header (prev : Hash) (time bits nonce : ℕ) : RawHeader :=
  ofList 80 ((toLe 4 1).toList ++ prev.toList ++ (zeros 32).toList ++ (toLe 4 time).toList ++
    (toLe 4 bits).toList ++ (toLe 4 nonce).toList)

def hashA1 : Hash := toLe 32 0x3a03c7539d594e5d95c6b8e0f6099053b188bc652c7baecac87280acdd90611a
def hashA2 : Hash := toLe 32 0xb88082b984b8e61d2a200b54a77789b190cfdd190bc46f8129a103084f91388
def hashA3 : Hash := toLe 32 0x6ceef2031157674826123b6828e165f69dcc73eb107584963691374f04287d2e
def hashB1 : Hash := toLe 32 0x29ca96a241807f72a594ff4d8459cedb6584b5537a426f8db16ecaa93b68c24
def hashC1 : Hash := toLe 32 0x10bacc8a4ac1f93e4bfd199aa4fd993dece0bee28172e172a4bc716cda6779c3

def a1 : RawHeader := header genesisHash 1000 0x207fffff 0
def a2 : RawHeader := header hashA1 1001 0x207fffff 1
def a3 : RawHeader := header hashA2 1002 0x207fffff 3
def b1 : RawHeader := header genesisHash 1003 0x201fffff 5
def c1 : RawHeader := header hashA3 1004 0x203fffff 1

/-- The headers' SHA-256 digests and the digests of those. -/
def digests : List (List UInt8 × Hash) :=
  let once := [
    (a1, toLe 32 0xba55acdfab48698212261382b28ef17c24522bd00604485ee9df2317934f9c2c, hashA1),
    (a2, toLe 32 0xacfc74bee00206ef21bce9f0a0f177842f9a5d3a344410fcfe27bc38c717cc65, hashA2),
    (a3, toLe 32 0x9076174c3101d10f824c06788cd97f0879538c1e0b71f90d0bcad83026275bcc, hashA3),
    (b1, toLe 32 0x440a0dd26792e3e238daa59ffa8790b8ce198533d89d34aaf3a7348f8451ce8b, hashB1),
    (c1, toLe 32 0x769a66076d42294363de76fef51df2c477537dc183b558eed08e3cc77ed0dff0, hashC1)]
  once.flatMap fun (raw, d, h) => [(raw.toList, d), (d.toList, h)]

def env : Env where
  sha256 data := (digests.lookup data).getD (zeros 32)
  minimumBalance len := 6960 * (len + 128)
  mainnet := false

def wallet : AccountInfo := ⟨.other (zeros 32), true⟩
def info (a : Addr) : AccountInfo := ⟨a, false⟩

def initAccounts : List AccountInfo :=
  [info .lightClient, wallet, info (.other (zeros 32)), info (.heightIndex 100),
    info (.block genesisHash)]

def initData : List UInt8 := (toLe 8 100).toList ++ genesisHash.toList ++ [3]

/-- A batch on top of `parent`. -/
def batch (parent : Hash) (height : ℕ) (raws : List RawHeader) : Call :=
  .extend ([info .lightClient, wallet, info (.other (zeros 32)), info (.block parent)] ++
    raws.map (fun raw => info (.block (blockHashOf env raw))) ++
    (List.range raws.length).map (fun i => info (.heightIndex (height + 1 + i))) ++
    [info (.heightIndex height)])
    (UInt8.ofNat raws.length :: raws.flatMap Vector.toList) 0

/-- Three light blocks, then one heavier block in their place: the index entries at 102 and
103 stay behind, above the tip at 101. -/
def reorg : List Call := [batch genesisHash 100 [a1, a2, a3], batch genesisHash 100 [b1]]

/-- A block on top of the stale entry at 103. -/
def onStale : Call := batch hashA3 103 [c1]

def run (allowed : State → Call → Bool) (calls : List Call) : Option State :=
  match processInitialize env emptyState initAccounts initData 0 with
  | .ok s => exec (step env) allowed s calls
  | .error _ => none

lemma run_broken : (run (fun _ _ => true) (reorg ++ [onStale])).map (brokenAt · 102) =
    some true := by
  decide +kernel

lemma run_reorg : (run (fun s c => ¬ OffTip s c) reorg).map (fun s => s.lc?.map (·.tipHeight)) =
    some (some 101) := by
  decide +kernel

def headers : List RawHeader := [a1, a2, a3, b1, c1]
def hashes : List Hash := [hashA1, hashA2, hashA3, hashB1, hashC1]

lemma headers_hashes : headers.map (blockHashOf env) = hashes := by decide +kernel

lemma noCollision : ∀ a ∈ headers, ∀ b ∈ headers, blockHashOf env a = blockHashOf env b →
    a = b := by
  have hnd : (headers.map (blockHashOf env)).Nodup := by
    rw [headers_hashes]
    decide +kernel
  exact fun a ha b hb => List.inj_on_of_nodup_map hnd ha hb

lemma noCycle : ∀ a ∈ headers, (genesisHash :: hashes).idxOf a.prevBlockHash <
    (genesisHash :: hashes).idxOf (blockHashOf env a) := by
  decide +kernel

lemma headers_of_calls : ∀ raw ∈ (reorg ++ [onStale]).flatMap Call.headers,
    raw ∈ headers := by
  decide +kernel

/-- A run taken apart: the state after initialize and the calls one by one. -/
lemma reaches_of_run {allowed : State → Call → Bool} {guard : State → Call → Prop}
    {calls : List Call} {s : State} (hg : ∀ s c, allowed s c = true → guard s c)
    (h : run allowed calls = some s) :
    ∃ s₁ tr, processInitialize env emptyState initAccounts initData 0 = .ok s₁ ∧
      tr.map Step.call = calls ∧ Reaches (step env) guard s₁ tr s := by
  unfold run at h
  split at h
  · rename_i s₁ hinit
    obtain ⟨tr, htr, hrun⟩ := reaches_of_exec hg h
    exact ⟨s₁, tr, hinit, htr, hrun⟩
  · exact absurd h (by simp)

end Regtest

open Regtest in
/-- **A stale entry breaks the chain**: the index at 102 names a block whose predecessor is
not the one named at 101. -/
theorem stale_parent_breaks_chain : ∃ s₁ tr s,
    processInitialize env emptyState initAccounts initData 0 = .ok s₁ ∧
      tr.map Step.call = reorg ++ [onStale] ∧ Reaches (step env) (fun _ _ => True) s₁ tr s ∧
      NoCollision env (Submitted tr) ∧ NoCycle env (Submitted tr) ∧ ¬ Chained 100 s := by
  obtain ⟨s, hs, hbroken⟩ := Option.map_eq_some_iff.mp run_broken
  obtain ⟨s₁, tr, hinit, htr, hrun⟩ := reaches_of_run (fun _ _ _ => trivial) hs
  have hsub : ∀ raw, Submitted tr raw → raw ∈ headers := fun raw h =>
    headers_of_calls raw (htr ▸ submitted_iff.mp h)
  exact ⟨s₁, tr, s, hinit, htr, hrun, noCollision_of hsub noCollision, noCycle_of _ hsub noCycle,
    not_chained_of_brokenAt (by decide) hbroken⟩

open Regtest in
/-- The reorg alone leaves a chain. -/
theorem heightIndex_chained_reorg : ∃ s, Chained 100 s ∧ s.lc?.map (·.tipHeight) = some 101 := by
  obtain ⟨s, hs, htip⟩ := Option.map_eq_some_iff.mp run_reorg
  obtain ⟨s₁, tr, hinit, htr, hrun⟩ :=
    reaches_of_run (fun s c h => of_decide_eq_true h : ∀ s c, _ → ¬ OffTip s c) hs
  have hsub : ∀ raw, Submitted tr raw → raw ∈ headers := fun raw h =>
    headers_of_calls raw (by
      rw [List.flatMap_append, List.mem_append]
      exact Or.inl (htr ▸ submitted_iff.mp h))
  have hstart : (parseData initData).startHeight = 100 := by decide +kernel
  exact ⟨s, hstart ▸ heightIndex_chained untouched_emptyState hinit hrun
    (noCollision_of hsub noCollision) (noCycle_of _ hsub noCycle), htip⟩

end Utxopia.LightClient.Chain
