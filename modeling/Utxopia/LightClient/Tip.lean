import Utxopia.LightClient.Chain
import Utxopia.LightClient.Work

/-!
The tip and the work behind it.

Height and work of a block are reckoned along the previous-block links from the start block,
so a header that is submitted again is stored with the same ones, on whatever fork it is.
-/

namespace Utxopia.LightClient.Tip

open Utxopia.ByteString Utxopia.Check Utxopia.Run Utxopia.Runtime
open Utxopia.LightClient.Accounts Utxopia.LightClient.Initialize Utxopia.LightClient.Extend
open Utxopia.LightClient.Prune Utxopia.LightClient.Pow Utxopia.LightClient.Chain
open Utxopia.LightClient.Work

/-- `floor(2^256 / (target + 1))`. -/
def headerWork (bits : ℕ) : ℕ := 2 ^ 256 / (leNat (targetFromBits bits).toList + 1)

/-- The header of the tip is stored, with the height and the work of the record. -/
def TipStored (s : State) : Prop :=
  ∃ lc tip, s.lc? = some lc ∧ s.header? lc.tipHash = some tip ∧ tip.height = lc.tipHeight ∧
    tip.chainwork = lc.totalChainwork

/-- Every stored header but the start block has the work of its parent and its own. -/
def WorkSummed (genesis : Hash) (s : State) : Prop :=
  ∀ b hdr, s.header? b = some hdr → b ≠ genesis →
    ∃ parent, s.header? hdr.prevBlockHash = some parent ∧
      leNat hdr.chainwork.toList =
        (leNat parent.chainwork.toList + headerWork hdr.bits) % 2 ^ 256

/-- A call that changes the tip puts it on the last header of its batch, with the work of that
header, which is more than before. -/
def TipGains (E : Env) (st : Step State Call) : Prop :=
  ∀ lc lc', st.pre.lc? = some lc → st.post.lc? = some lc' → lc'.tipHash ≠ lc.tipHash →
    leNat lc.totalChainwork.toList < leNat lc'.totalChainwork.toList ∧
      ∃ raw hdr, st.call.headers.getLast? = some raw ∧ lc'.tipHash = blockHashOf E raw ∧
        st.post.header? (blockHashOf E raw) = some hdr ∧ hdr.chainwork = lc'.totalChainwork

def Prunes : Call → Prop
  | .prune .. => True
  | _ => False

/-! ### Reckoning -/

section Reckoning

variable (E : Env) (U : RawHeader → Prop)

/-- Height and work along the links from the start block. -/
inductive Reckoned (genesis : Hash) (start : ℕ) : Hash → ℕ → Bytes 32 → Prop
  | genesis : Reckoned genesis start genesis start (zeros 32)
  | link {raw : RawHeader} {n : ℕ} {w : Bytes 32} (mem : U raw)
      (prev : Reckoned genesis start raw.prevBlockHash n w) :
      Reckoned genesis start (blockHashOf E raw) (n + 1)
        (addChainwork w (calculateChainwork raw.bits))

variable {E U} {genesis : Hash} {start : ℕ}

lemma Reckoned.depth {b : Hash} {n : ℕ} {w : Bytes 32} (h : Reckoned E U genesis start b n w) :
    Depth E U genesis start b n := by
  induction h with
  | genesis => exact .genesis
  | link mem _ ih => exact .link mem ih

lemma Reckoned.inv {b : Hash} {n : ℕ} {w : Bytes 32} (h : Reckoned E U genesis start b n w) :
    (b = genesis ∧ n = start ∧ w = zeros 32) ∨ ∃ raw k v, U raw ∧ b = blockHashOf E raw ∧
      n = k + 1 ∧ w = addChainwork v (calculateChainwork raw.bits) ∧
      Reckoned E U genesis start raw.prevBlockHash k v := by
  cases h with
  | genesis => exact .inl ⟨rfl, rfl, rfl⟩
  | link mem prev => exact .inr ⟨_, _, _, mem, rfl, rfl, rfl, prev⟩

/-- **Height and work are functions of the block.** -/
theorem Reckoned.unique (hcol : NoCollision E U) (hcyc : NoCycle E U) {b : Hash} {n m : ℕ}
    {w v : Bytes 32} (h : Reckoned E U genesis start b n w)
    (h' : Reckoned E U genesis start b m v) : n = m ∧ w = v := by
  induction h generalizing m v with
  | genesis =>
    obtain ⟨-, rfl, rfl⟩ | ⟨raw, k, u, mem, hb, -, -, prev⟩ := h'.inv
    · exact ⟨rfl, rfl⟩
    · exact absurd hb.symm (prev.depth.link_ne hcyc mem)
  | @link raw n w mem prev ih =>
    obtain ⟨hb, -, -⟩ | ⟨raw', k, u, mem', hb, rfl, rfl, prev'⟩ := h'.inv
    · exact absurd hb (prev.depth.link_ne hcyc mem)
    · obtain rfl := hcol _ _ mem mem' hb
      obtain ⟨rfl, rfl⟩ := ih prev'
      exact ⟨rfl, rfl⟩

end Reckoning

variable {E : Env} {U : RawHeader → Prop} {genesis : Hash} {start : ℕ} {s s' : State}

/-- A stored header lies below its own hash, reckoned, and is the start block or was
submitted. -/
structure Placed (E : Env) (U : RawHeader → Prop) (genesis : Hash) (start : ℕ) (b : Hash)
    (hdr : BlockHeader) : Prop where
  hash : hdr.blockHash = b
  reckoned : Reckoned E U genesis start b hdr.height hdr.chainwork
  submitted : b ≠ genesis → ∃ raw, U raw ∧ b = blockHashOf E raw ∧
    hdr.prevBlockHash = raw.prevBlockHash ∧ hdr.bits = raw.bits

def AllPlaced (E : Env) (U : RawHeader → Prop) (genesis : Hash) (start : ℕ) (s : State) : Prop :=
  ∀ b hdr, s.header? b = some hdr → Placed E U genesis start b hdr

/-- Every stored header but the start block has its parent stored. -/
def Rooted (genesis : Hash) (s : State) : Prop :=
  ∀ b hdr, s.header? b = some hdr → b ≠ genesis → (s.header? hdr.prevBlockHash).isSome

/-- What the batch carries is reckoned, on a stored header. -/
def Carried (E : Env) (U : RawHeader → Prop) (genesis : Hash) (start : ℕ) (s : State)
    (r : Running) : Prop :=
  Reckoned E U genesis start r.prevHash r.height r.chainwork ∧ (s.header? r.prevHash).isSome

/-! ### A batch -/

/-- One header of a batch. -/
lemma accept_placed {lc : BitcoinLightClient} {now : ℤ} {r r' : Running}
    {item : RawHeader × AccountInfo} (mem : U item.1) (hall : AllPlaced E U genesis start s)
    (hr : Carried E U genesis start s r) (h : acceptHeader E lc now (s, r) item = .ok (s', r')) :
    AllPlaced E U genesis start s' ∧ Carried E U genesis start s' r' ∧
      (∀ b, (s.header? b).isSome → (s'.header? b).isSome) ∧ (Rooted genesis s → Rooted genesis s') := by
  obtain ⟨hcheck, rfl, hheader, -, -⟩ := acceptHeader_ok h
  obtain ⟨hprev, -⟩ := checkHeader_ok hcheck
  obtain ⟨hreck, hstored⟩ := hr
  rw [← hprev] at hreck hstored
  have hlink : Reckoned E U genesis start (blockHashOf E item.1) (r.height + 1)
      (addChainwork r.chainwork (calculateChainwork item.1.bits)) := .link mem hreck
  have hkeep : ∀ b, (s.header? b).isSome → (s'.header? b).isSome := by
    intro b hb
    rw [hheader]
    by_cases hne : b = blockHashOf E item.1
    · rw [hne, Function.update_self]
      rfl
    · rwa [Function.update_of_ne hne]
  refine ⟨fun b hdr hb => ?_, ⟨hlink, ?_⟩, hkeep, fun hroot b hdr hb hg => ?_⟩
  · rw [hheader] at hb
    rcases update_eq_some.mp hb with ⟨rfl, rfl⟩ | ⟨-, hold⟩
    · exact ⟨rfl, hlink, fun _ => ⟨item.1, mem, rfl, rfl, rfl⟩⟩
    · exact hall b hdr hold
  · rw [next_prevHash, hheader, Function.update_self]
    rfl
  · rw [hheader] at hb
    rcases update_eq_some.mp hb with ⟨rfl, rfl⟩ | ⟨-, hold⟩
    · exact hkeep _ hstored
    · exact hkeep _ (hroot b hdr hold hg)

lemma lastHash_eq (b : Hash) {raws : List RawHeader} {raw : RawHeader}
    (h : raws.getLast? = some raw) : lastHash E b raws = blockHashOf E raw := by
  obtain ⟨front, rfl⟩ := List.getLast?_eq_some_iff.mp h
  rw [lastHash, List.foldl_append, List.foldl_cons, List.foldl_nil]

/-- **A batch** leaves every header placed and carries the reckoning to its last one. -/
theorem acceptLoop_placed {lc : BitcoinLightClient} {now : ℤ} {r r' : Running}
    {items : List (RawHeader × AccountInfo)} (mem : ∀ i ∈ items, U i.1)
    (hall : AllPlaced E U genesis start s) (hr : Carried E U genesis start s r)
    (h : loop (acceptHeader E lc now) (s, r) items = .ok (s', r')) :
    AllPlaced E U genesis start s' ∧ Carried E U genesis start s' r' ∧
      (∀ b, (s.header? b).isSome → (s'.header? b).isSome) ∧
      (Rooted genesis s → Rooted genesis s') ∧ s'.index? = s.index? ∧
      r'.prevHash = lastHash E r.prevHash (items.map Prod.fst) ∧
      r'.height = r.height + items.length := by
  induction items generalizing s r with
  | nil =>
    simp only [loop_nil, Except.ok.injEq, Prod.mk.injEq] at h
    obtain ⟨rfl, rfl⟩ := h
    exact ⟨hall, hr, fun _ => id, id, rfl, rfl, rfl⟩
  | cons item items ih =>
    obtain ⟨⟨m, rm⟩, hm, hrest⟩ := loop_cons_eq_ok.mp h
    obtain ⟨hallm, hrm, hkeepm, hrootm⟩ := accept_placed (mem item List.mem_cons_self) hall hr hm
    obtain ⟨-, hnext, -, hidxm, -, -⟩ := acceptHeader_ok hm
    obtain ⟨hall', hr', hkeep', hroot', hidx', hlast, hheight⟩ :=
      ih (fun i hi => mem i (List.mem_cons_of_mem _ hi)) hallm hrm hrest
    refine ⟨hall', hr', fun b hb => hkeep' b (hkeepm b hb), fun hroot => hroot' (hrootm hroot),
      hidx'.trans hidxm, ?_, ?_⟩
    · rw [hlast, hnext, next_prevHash]
      rfl
    · rw [hheight, hnext, next_height, List.length_cons]
      omega

/-- The last index entry of a batch. -/
lemma indexed_last {n : ℕ} {raws : List RawHeader} {raw : RawHeader} (h : Indexed E s n raws)
    (hlast : raws.getLast? = some raw) :
    s.index? (n + raws.length) = some ⟨blockHashOf E raw, n + raws.length⟩ := by
  induction raws generalizing n with
  | nil => simp at hlast
  | cons x rest ih =>
    obtain ⟨hentry, hrest⟩ := h
    cases rest with
    | nil =>
      obtain rfl : x = raw := by simpa using hlast
      exact hentry
    | cons y rest =>
      have := ih hrest (by simpa using hlast)
      rwa [show n + 1 + (y :: rest).length = n + (x :: y :: rest).length by
        simp only [List.length_cons]; omega] at this

/-! ### The invariant -/

/-- The index names the tip at its height. -/
def TipIndexed (s : State) : Prop :=
  ∃ lc hi, s.lc? = some lc ∧ s.index? lc.tipHeight = some hi ∧ hi.blockHash = lc.tipHash

/-- Every header placed, and the tip stored and named. -/
structure Inv (E : Env) (U : RawHeader → Prop) (genesis : Hash) (start : ℕ) (s : State) :
    Prop where
  placed : AllPlaced E U genesis start s
  genesis_eq : ∀ lc, s.lc? = some lc → lc.genesisHash = genesis
  tip : TipStored s
  indexed : TipIndexed s

lemma Inv.of_same (h : Inv E U genesis start s) (h1 : s'.header? = s.header?)
    (h2 : s'.index? = s.index?) (h3 : s'.lc? = s.lc?) : Inv E U genesis start s' := by
  obtain ⟨hall, hgen, ⟨lc, tip, hlc, htip, hrest⟩, lc', hi, hlc', hhi, hname⟩ := h
  exact ⟨fun b hdr hb => hall b hdr (h1 ▸ hb), fun l hl => hgen l (h3 ▸ hl),
    ⟨lc, tip, h3 ▸ hlc, h1 ▸ htip, hrest⟩, lc', hi, h3 ▸ hlc', h2 ▸ hhi, hname⟩

lemma Rooted.of_same (h : Rooted genesis s) (h1 : s'.header? = s.header?) : Rooted genesis s' :=
  fun b hdr hb hg => h1.symm ▸ h b hdr (h1 ▸ hb) hg

lemma initialize_inv {accounts : List AccountInfo} {data : List UInt8} {now : ℤ}
    (hs : Untouched s) (h : processInitialize E s accounts data now = .ok s') :
    Inv E U (parseData data).startBlockHash (parseData data).startHeight s' ∧
      Rooted (parseData data).startBlockHash s' := by
  obtain ⟨⟨payer, hlc⟩, hheader, hindex⟩ := processInitialize_ok h
  obtain ⟨-, hnoHeader, -, -⟩ := hs
  clear h
  generalize parseData data = d at *
  have honly : ∀ b hdr, s'.header? b = some hdr →
      b = d.startBlockHash ∧ hdr = genesisHeader d now := by
    intro b hdr hb
    rw [hheader] at hb
    rcases update_eq_some.mp hb with ⟨rfl, rfl⟩ | ⟨-, hold⟩
    · exact ⟨rfl, rfl⟩
    · exact absurd ((hnoHeader b).symm.trans hold) (by simp)
  refine ⟨⟨fun b hdr hb => ?_, fun lc h => ?_, ⟨_, genesisHeader d now, hlc, ?_, rfl, rfl⟩,
    ⟨_, ⟨d.startBlockHash, d.startHeight⟩, hlc, ?_, rfl⟩⟩,
    fun b hdr hb hg => absurd (honly b hdr hb).1 hg⟩
  · obtain ⟨rfl, rfl⟩ := honly b hdr hb
    exact ⟨rfl, .genesis, fun hg => absurd rfl hg⟩
  · obtain rfl := Option.some.inj (hlc.symm.trans h)
    rfl
  · rw [hheader]
    exact Function.update_self ..
  · rw [hindex]
    exact Function.update_self ..

/-- Pruning spares the tip: the index names it. -/
lemma prune_inv {accounts : List AccountInfo} {data : List UInt8}
    (hinv : Inv E U genesis start s) (h : processPruneObsoleteBlocks s accounts data = .ok s') :
    Inv E U genesis start s' := by
  obtain ⟨b, hdr, hi, lc, hhdr, -, hhi, hne, hlc, -, hheader, hindex, hlc'⟩ :=
    processPruneObsoleteBlocks_ok h
  obtain ⟨hall, hgen, ⟨lc₁, tip, hlc₁, htip, hheight, hwork⟩, lc₂, hi₂, hlc₂, hhi₂, hname⟩ := hinv
  obtain rfl : lc₁ = lc := Option.some.inj (hlc₁.symm.trans hlc)
  obtain rfl : lc₂ = lc₁ := Option.some.inj (hlc₂.symm.trans hlc)
  have htb : lc₂.tipHash ≠ b := by
    rintro rfl
    obtain rfl : tip = hdr := Option.some.inj (htip.symm.trans hhdr)
    rw [hheight, hhi₂, Option.some.injEq] at hhi
    exact hne (hhi ▸ hname)
  refine ⟨fun c hdr' hc => ?_, fun l hl => hgen l (hlc' ▸ hl), ⟨lc₂, tip, hlc' ▸ hlc, ?_, hheight, hwork⟩,
    lc₂, hi₂, hlc' ▸ hlc, hindex ▸ hhi₂, hname⟩
  · rw [hheader] at hc
    by_cases hcb : c = b
    · subst hcb
      simp at hc
    · rw [Function.update_of_ne hcb] at hc
      exact hall c hdr' hc
  · rw [hheader, Function.update_of_ne htb]
    exact htip

section Preservation

variable (hcol : NoCollision E U) (hcyc : NoCycle E U)
include hcol hcyc

/-- What is stored at a reckoned block has its height and work. -/
lemma AllPlaced.agree (hall : AllPlaced E U genesis start s) {b : Hash} {hdr : BlockHeader}
    {n : ℕ} {w : Bytes 32} (hb : s.header? b = some hdr)
    (hr : Reckoned E U genesis start b n w) : hdr.height = n ∧ hdr.chainwork = w :=
  (hall b hdr hb).reckoned.unique hcol hcyc hr

/-- **Extend** keeps the invariant, and a new tip is the last header of the batch with more
work. -/
lemma extend_inv {accounts : List AccountInfo} {data : List UInt8} {now : ℤ}
    (hinv : Inv E U genesis start s) (mem : ∀ raw ∈ rawHeaders data, U raw)
    (h : processExtendBlockchain E s accounts data now = .ok s') :
    Inv E U genesis start s' ∧ (Rooted genesis s → Rooted genesis s') ∧
      TipGains E ⟨s, .extend accounts data now, s'⟩ := by
  obtain ⟨lc, parent, window, items, indexItems, s₁, r, hlc, hparent, -, -, -, hitems, hindexItems,
    hne, hloop, hend⟩ := processExtendBlockchain_ok h
  obtain ⟨hall, hgen, ⟨lc', tip, hlc', htip, hheight, hwork⟩, hindexed⟩ := hinv
  obtain rfl : lc' = lc := Option.some.inj (hlc'.symm.trans hlc)
  have hcarried : Carried E U genesis start s (startRunning lc' parent window) :=
    ⟨(hall _ _ hparent).reckoned, by simp [startRunning, hparent]⟩
  obtain ⟨hall₁, ⟨hreck, hstored⟩, hkeep₁, hroot₁, hidx₁, hlast, hrheight⟩ := acceptLoop_placed
    (fun i hi => mem _ (hitems ▸ List.mem_map_of_mem hi)) hall hcarried hloop
  rcases hend with ⟨hout, hcanon⟩ | ⟨-, rfl⟩
  · -- the tip moves to the last header
    simp only [makeCanonical, bind_eq_ok, require_eq_ok, exists_const, pure_eq_ok,
      Prod.exists] at hcanon
    obtain ⟨-, s₂, n₂, hiloop, -, rfl⟩ := hcanon
    obtain ⟨hhdr₂, -, -, hidx₂⟩ := index_run hiloop
    obtain ⟨hdr, hhdr⟩ := Option.isSome_iff_exists.mp hstored
    obtain ⟨hh, hw⟩ := hall₁.agree hcol hcyc hhdr hreck
    obtain ⟨raw, hraw⟩ : ∃ raw, (rawHeaders data).getLast? = some raw :=
      Option.isSome_iff_exists.mp (by simpa using hne)
    have hprev : r.prevHash = blockHashOf E raw := by
      rw [hlast, hitems, lastHash_eq _ hraw]
    have hlen : items.length = (rawHeaders data).length := by
      rw [← hitems, List.length_map]
    have hentry := indexed_last hidx₂ (hindexItems ▸ hraw)
    rw [hindexItems, ← hlen] at hentry
    refine ⟨⟨fun b hdr hb => hall₁ b hdr (hhdr₂ ▸ hb), fun l hl => ?_,
      ⟨promote lc' r indexItems.length now, hdr, rfl, hhdr₂ ▸ hhdr, hh, hw⟩,
      promote lc' r indexItems.length now, ⟨blockHashOf E raw, parent.height + items.length⟩, rfl, ?_,
      hprev.symm⟩,
      fun hroot => (hroot₁ hroot).of_same hhdr₂, fun lc₀ lc₁ h₀ h₁ _ => ?_⟩
    · obtain rfl : promote lc' r indexItems.length now = l := Option.some.inj hl
      exact hgen lc' hlc
    · have htop : (promote lc' r indexItems.length now).tipHeight = parent.height + items.length :=
        hrheight
      rw [htop]
      exact hentry
    · obtain rfl : lc₀ = lc' := Option.some.inj (h₀.symm.trans hlc)
      obtain rfl : promote lc₀ r indexItems.length now = lc₁ := Option.some.inj h₁
      refine ⟨outweighs_iff.mp hout, raw, hdr, hraw, hprev, ?_, hw⟩
      rw [← hprev]
      exact hhdr₂ ▸ hhdr
  · -- the headers are only stored; the tip's may be stored again
    obtain ⟨hdr, hhdr⟩ := Option.isSome_iff_exists.mp (hkeep₁ lc'.tipHash (by rw [htip]; rfl))
    obtain ⟨hh, hw⟩ := hall₁.agree hcol hcyc hhdr (hall _ _ htip).reckoned
    obtain ⟨lc₂, hi₂, hlc₂, hhi₂, hname⟩ := hindexed
    obtain rfl : lc₂ = lc' := Option.some.inj (hlc₂.symm.trans hlc)
    refine ⟨⟨hall₁, fun l hl => ?_,
      ⟨countHeaders lc₂ _ now, hdr, rfl, hhdr, hh.trans hheight, hw.trans hwork⟩,
      countHeaders lc₂ _ now, hi₂, rfl, hidx₁ ▸ hhi₂, hname⟩,
      fun hroot => (hroot₁ hroot).of_same rfl, fun lc₀ lc₁ h₀ h₁ hmoved => ?_⟩
    · obtain rfl : countHeaders lc₂ _ now = l := Option.some.inj hl
      exact hgen lc₂ hlc
    · obtain rfl : lc₀ = lc₂ := Option.some.inj (h₀.symm.trans hlc)
      obtain rfl : countHeaders lc₀ _ now = lc₁ := Option.some.inj h₁
      exact absurd rfl hmoved

/-- **One call**; only pruning may take a parent away. -/
theorem step_inv {c : Call} (hinv : Inv E U genesis start s) (mem : ∀ raw ∈ c.headers, U raw)
    (h : step E s c = .ok s') :
    Inv E U genesis start s' ∧ (¬ Prunes c → Rooted genesis s → Rooted genesis s') ∧
      TipGains E ⟨s, c, s'⟩ := by
  have still : s'.lc? = s.lc? → TipGains E ⟨s, c, s'⟩ := by
    intro hlc lc lc' h₀ h₁ hmoved
    obtain rfl : lc' = lc := Option.some.inj (h₁.symm.trans (hlc.trans h₀))
    exact absurd rfl hmoved
  cases c with
  | extend accounts data now =>
    obtain ⟨hinv', hroot, hgains⟩ := extend_inv hcol hcyc hinv mem h
    exact ⟨hinv', fun _ => hroot, hgains⟩
  | prune accounts data =>
    obtain ⟨-, -, -, -, -, -, -, -, -, -, -, -, hlc⟩ := processPruneObsoleteBlocks_ok h
    exact ⟨prune_inv hinv h, fun hc => absurd trivial hc, still hlc⟩
  | fund a lamports =>
    simp only [step, Except.ok.injEq] at h
    subst h
    exact ⟨hinv.of_same (credit_header? ..) (credit_index? ..) (credit_lc? ..),
      fun _ hroot => hroot.of_same (credit_header? ..), still (credit_lc? ..)⟩
  | reap a =>
    simp only [step, Except.ok.injEq] at h
    subst h
    exact ⟨hinv.of_same (reap_header? ..) (reap_index? ..) (reap_lc? ..),
      fun _ hroot => hroot.of_same (reap_header? ..), still (reap_lc? ..)⟩

/-- Rooted headers sum their work. -/
lemma Inv.workSummed (h : Inv E U genesis start s) (hroot : Rooted genesis s) :
    WorkSummed genesis s := by
  intro b hdr hb hne
  obtain ⟨raw, mem, rfl, hprev, hbits⟩ := (h.placed b hdr hb).submitted hne
  obtain ⟨parent, hparent⟩ := Option.isSome_iff_exists.mp (hroot _ hdr hb hne)
  have hlink : Reckoned E U genesis start (blockHashOf E raw) (parent.height + 1)
      (addChainwork parent.chainwork (calculateChainwork raw.bits)) :=
    .link mem (hprev ▸ (h.placed _ _ hparent).reckoned)
  obtain ⟨-, hwork⟩ := (h.placed _ hdr hb).reckoned.unique hcol hcyc hlink
  refine ⟨parent, hparent, ?_⟩
  rw [hwork, leNat_addChainwork, leNat_calculateChainwork, hbits, headerWork, Nat.add_mod_mod]

end Preservation

/-- **Tip and work**: in every state that batches on any forks lead to, the tip's header is
stored with the height and work of the record, every header has the work of its parent plus its
own, and every change of the tip has put it on the last header of a batch, with more work. -/
theorem tip_and_work {E : Env} {s₀ s₁ s : State} {accounts : List AccountInfo}
    {data : List UInt8} {now : ℤ} {tr : List (Step State Call)} (hs : Untouched s₀)
    (hinit : processInitialize E s₀ accounts data now = .ok s₁)
    (hrun : Reaches (step E) (fun _ c => ¬ Prunes c) s₁ tr s)
    (hcol : NoCollision E (Submitted tr)) (hcyc : NoCycle E (Submitted tr)) :
    TipStored s ∧ WorkSummed (parseData data).startBlockHash s ∧ ∀ st ∈ tr, TipGains E st := by
  have hrun' : Reaches (step E)
      (fun s c => ¬ Prunes c ∧ ∀ raw ∈ c.headers, Submitted tr raw) s₁ tr s :=
    hrun.strengthen fun st hst hg => ⟨hg, fun raw hraw => ⟨st, hst, hraw⟩⟩
  obtain ⟨hinv, hroot, hgains⟩ := hrun'.history
    (I := fun past s => Inv E (Submitted tr) (parseData data).startBlockHash
      (parseData data).startHeight s ∧ Rooted (parseData data).startBlockHash s ∧
      ∀ st ∈ past, TipGains E st)
    (by
      obtain ⟨hinv, hroot⟩ := initialize_inv (U := Submitted tr) hs hinit
      exact ⟨hinv, hroot, by simp⟩)
    fun past s c s' _ hi hg h => by
      obtain ⟨hinv, hroot, hgain⟩ := step_inv hcol hcyc hi.1 hg.2 h
      refine ⟨hinv, hroot hg.1 hi.2.1, fun st hst => ?_⟩
      rcases List.mem_append.mp hst with hst | hst
      · exact hi.2.2 st hst
      · exact List.mem_singleton.mp hst ▸ hgain
  exact ⟨hinv.tip, hinv.workSummed hcol hcyc hroot, hgains⟩

open Regtest in
/-- The reorg: the heavier block takes the tip from the longer branch. -/
theorem tip_and_work_reorg : ∃ s : State, TipStored s ∧ WorkSummed genesisHash s ∧
    s.lc?.map (·.tipHeight) = some 101 := by
  obtain ⟨s, hs, htip⟩ := Option.map_eq_some_iff.mp run_reorg
  obtain ⟨s₁, tr, hinit, htr, hrun⟩ :=
    reaches_of_run (fun s c h => of_decide_eq_true h : ∀ s c, _ → ¬ OffTip s c) hs
  have hsub : ∀ raw, Submitted tr raw → raw ∈ headers := fun raw h =>
    headers_of_calls raw (by
      rw [List.flatMap_append, List.mem_append]
      exact Or.inl (htr ▸ submitted_iff.mp h))
  have hcalls : ∀ c ∈ reorg, ¬ Prunes c := by simp [reorg, batch, Prunes]
  have hrun' : Reaches (step env) (fun _ c => ¬ Prunes c) s₁ tr s :=
    hrun.strengthen fun st hst _ => hcalls _ (htr ▸ List.mem_map_of_mem hst)
  have hstart : (parseData initData).startBlockHash = genesisHash := by decide +kernel
  obtain ⟨hstored, hsummed, -⟩ := tip_and_work untouched_emptyState hinit hrun'
    (noCollision_of hsub noCollision) (noCycle_of _ hsub noCycle)
  exact ⟨s, hstored, hstart ▸ hsummed, htip⟩

end Utxopia.LightClient.Tip
