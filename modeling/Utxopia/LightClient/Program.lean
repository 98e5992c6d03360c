import Utxopia.LightClient.Chain
import Utxopia.LightClient.Reinitialize
import Utxopia.LightClient.VerifyTransaction

/-!
The light client with all its instructions.

After initialize any number of batches, prunings, verifications and, outside mainnet builds,
restarts, with payments and clean-up in between. For every instruction there is one account of
what it changes.
-/

namespace Utxopia.LightClient.Program

open Utxopia.ByteString Utxopia.Check Utxopia.Run Utxopia.Runtime
open Utxopia.LightClient.Accounts Utxopia.LightClient.Initialize Utxopia.LightClient.Extend
open Utxopia.LightClient.Prune Utxopia.LightClient.Reinitialize Utxopia.LightClient.VerifyTransaction

inductive Call where
  | extend (accounts : List AccountInfo) (data : List UInt8) (now : ℤ)
  | prune (accounts : List AccountInfo) (data : List UInt8)
  | verify (accounts : List AccountInfo) (data buffer : List UInt8) (now : ℤ)
  | restart (accounts : List AccountInfo) (data : List UInt8) (now : ℤ)
  | fund (a : Addr) (lamports : ℕ)
  | reap (a : Addr)

def step (E : Env) (s : State) : Call → Except ProgramError State
  | .extend accounts data now => processExtendBlockchain E s accounts data now
  | .prune accounts data => processPruneObsoleteBlocks s accounts data
  | .verify accounts data buffer now => processVerifyTransaction E s accounts data buffer now
  | .restart accounts data now => do
    require (E.mainnet = false) .InvalidInstructionData
    processReinitialize E s accounts data now
  | .fund a lamports => .ok (s.credit lamports a)
  | .reap a => .ok (s.reap a)

def Call.restarts : Call → Bool
  | .restart .. => true
  | _ => false

variable {E : Env} {s s' s₁ : State} {lc lc' : BitcoinLightClient} {parent : BlockHeader}
  {r r' : Running} {now : ℤ} {items : List (RawHeader × AccountInfo)}

/-! ### A batch -/

/-- Storing headers touches nothing else. -/
lemma acceptLoop_frame (h : loop (acceptHeader E lc now) (s, r) items = .ok (s', r')) :
    s'.index? = s.index? ∧ s'.lc? = s.lc? ∧ s'.verified? = s.verified? ∧
      r'.height = r.height + items.length := by
  induction items generalizing s r with
  | nil =>
    simp only [loop_nil, Except.ok.injEq, Prod.mk.injEq] at h
    obtain ⟨rfl, rfl⟩ := h
    exact ⟨rfl, rfl, rfl, rfl⟩
  | cons item items ih =>
    obtain ⟨⟨m, rm⟩, hm, hrest⟩ := loop_cons_eq_ok.mp h
    obtain ⟨-, rfl, -, hidx, hlc, hver⟩ := acceptHeader_ok hm
    obtain ⟨hidx', hlc', hver', hheight⟩ := ih hrest
    refine ⟨hidx'.trans hidx, hlc'.trans hlc, hver'.trans hver, ?_⟩
    rw [hheight, next_height, List.length_cons]
    omega

/-- A header that a batch stored, `I` holding of the batch's state around it. -/
def Stored (E : Env) (lc : BitcoinLightClient) (now : ℤ) (raws : List RawHeader)
    (I : Running → Prop) (b : Hash) (hdr : BlockHeader) : Prop :=
  ∃ r raw, raw ∈ raws ∧ I r ∧ I (r.next E lc raw) ∧ checkHeader E lc now r raw = .ok () ∧
    b = blockHashOf E raw ∧ hdr = storedHeader lc (r.next E lc raw) raw now

/-- **The batch rule**: what holds of the state a batch starts with, and is kept by every header
that passes its checks, holds around every header stored. -/
theorem acceptLoop_stored {I : Running → Prop} {raws : List RawHeader}
    (mem : ∀ i ∈ items, i.1 ∈ raws) (h0 : I r)
    (hnext : ∀ r raw, raw ∈ raws → I r → checkHeader E lc now r raw = .ok () → I (r.next E lc raw))
    (h : loop (acceptHeader E lc now) (s, r) items = .ok (s', r')) :
    I r' ∧ ∀ b hdr, s'.header? b = some hdr → s.header? b = some hdr ∨ Stored E lc now raws I b hdr := by
  induction items generalizing s r with
  | nil =>
    simp only [loop_nil, Except.ok.injEq, Prod.mk.injEq] at h
    obtain ⟨rfl, rfl⟩ := h
    exact ⟨h0, fun b hdr hb => .inl hb⟩
  | cons item items ih =>
    obtain ⟨⟨m, rm⟩, hm, hrest⟩ := loop_cons_eq_ok.mp h
    obtain ⟨hcheck, rfl, hheader, -⟩ := acceptHeader_ok hm
    have hmem : item.1 ∈ raws := mem item List.mem_cons_self
    have h1 := hnext r item.1 hmem h0 hcheck
    obtain ⟨hr', hall⟩ := ih (fun i hi => mem i (List.mem_cons_of_mem _ hi)) h1 hrest
    refine ⟨hr', fun b hdr hb => ?_⟩
    rcases hall b hdr hb with hb | hst
    · rw [hheader] at hb
      rcases update_eq_some.mp hb with ⟨rfl, rfl⟩ | ⟨-, hold⟩
      · exact .inr ⟨r, item.1, hmem, h0, h1, hcheck, rfl, rfl⟩
      · exact .inl hold
    · exact .inr hst

lemma indexLoop_verified {n n' : ℕ} (h : loop (indexHeader E) (s, n) items = .ok (s', n')) :
    s'.verified? = s.verified? := by
  induction items generalizing s n with
  | nil =>
    simp only [loop_nil, Except.ok.injEq, Prod.mk.injEq] at h
    obtain ⟨rfl, rfl⟩ := h
    rfl
  | cons item items ih =>
    obtain ⟨⟨m, nm⟩, hm, hrest⟩ := loop_cons_eq_ok.mp h
    obtain ⟨rfl, -, -, -, hver⟩ := indexHeader_ok hm
    exact (ih hrest).trans hver

/-! ### Extend -/

/-- What a successful batch does. -/
structure Extended (E : Env) (s s' : State) (raws : List RawHeader) (now : ℤ)
    (lc lc' : BitcoinLightClient) (parent : BlockHeader) (window : List ℕ) : Prop where
  client : s.lc? = some lc
  client' : s'.lc? = some lc'
  parent_stored : s.header? parent.blockHash = some parent
  epoch : parent.reinitEpoch = lc.reinitEpoch ∨
    (lc.network = networkRegtest ∧ parent.reinitEpoch = 0)
  network : lc'.network = lc.network
  reinitEpoch : lc'.reinitEpoch = lc.reinitEpoch
  genesis : lc'.genesisHash = lc.genesisHash
  finalized_le : lc.finalizedHeight ≤ lc'.finalizedHeight
  finalized_tip : lc.finalizedHeight ≤ lc.tipHeight → lc'.finalizedHeight ≤ lc'.tipHeight
  index_final : ∀ h, h ≤ lc.finalizedHeight → s'.index? h = s.index? h
  verified : s'.verified? = s.verified?
  headers : ∀ I : Running → Prop, I (startRunning lc parent window) →
    (∀ r raw, raw ∈ raws → I r → checkHeader E lc now r raw = .ok () → I (r.next E lc raw)) →
    (∀ b hdr, s'.header? b = some hdr → s.header? b = some hdr ∨ Stored E lc now raws I b hdr) ∧
    ((lc'.expectedBits = lc.expectedBits ∧ lc'.epochStartTime = lc.epochStartTime) ∨
      ∃ r, I r ∧ lc'.expectedBits = r.expectedBits ∧ lc'.epochStartTime = r.epochStart)

theorem extend_ok {accounts : List AccountInfo} {data : List UInt8}
    (h : processExtendBlockchain E s accounts data now = .ok s') :
    ∃ lc lc' parent window, Extended E s s' (rawHeaders data) now lc lc' parent window ∧
      ∃ info, accounts[3]? = some info ∧ info.key = .block parent.blockHash := by
  obtain ⟨lc, parent, window, items, indexItems, s₁, r, hlc, hparent, -, hepoch, hinfo, hitems, -, -,
    hloop, hend⟩ := processExtendBlockchain_ok h
  obtain ⟨hidx, hlc₁, hver, hheight⟩ := acceptLoop_frame hloop
  have hmem : ∀ i ∈ items, i.1 ∈ rawHeaders data := fun i hi => hitems ▸ List.mem_map_of_mem hi
  rcases hend with ⟨-, hcanon⟩ | ⟨-, rfl⟩
  · simp only [makeCanonical, bind_eq_ok, require_eq_ok, exists_const, pure_eq_ok,
      Prod.exists] at hcanon
    obtain ⟨hfinal, s₂, n₂, hiloop, -, rfl⟩ := hcanon
    obtain ⟨hhdr₂, -, hsame₂, -⟩ := Chain.index_run hiloop
    refine ⟨lc, promote lc r indexItems.length now, parent, window, ⟨hlc, rfl, hparent, hepoch, rfl, rfl,
      rfl, le_max_left .., fun _ => ?_, fun k hk => ?_, ?_, fun I h0 hnext => ?_⟩, hinfo⟩
    · -- the new tip is above the parent, which is not below the finalized height
      have hr : r.height = parent.height + items.length := hheight
      simp only [promote]
      omega
    · exact (hsame₂ k (.inl (hk.trans hfinal))).trans (congrFun hidx k)
    · exact (indexLoop_verified hiloop).trans hver
    · obtain ⟨hr, hall⟩ := acceptLoop_stored hmem h0 hnext hloop
      refine ⟨fun b hdr hb => hall b hdr (hhdr₂ ▸ hb), ?_⟩
      by_cases he : enforced lc.network
      · exact .inr ⟨r, hr, if_pos he, if_pos he⟩
      · exact .inl ⟨if_neg he, if_neg he⟩
  · refine ⟨lc, countHeaders lc (numHeaders data) now, parent, window, ⟨hlc, rfl, hparent, hepoch, rfl,
      rfl, rfl, le_rfl, id, fun k _ => congrFun hidx k, hver, fun I h0 hnext => ?_⟩, hinfo⟩
    obtain ⟨-, hall⟩ := acceptLoop_stored hmem h0 hnext hloop
    exact ⟨hall, .inl ⟨rfl, rfl⟩⟩

/-! ### The other instructions -/

lemma initialize_verified {accounts : List AccountInfo} {data : List UInt8}
    (h : processInitialize E s accounts data now = .ok s') : s'.verified? = s.verified? := by
  simp only [processInitialize, bind_eq_ok, require_eq_ok, exists_const] at h
  obtain ⟨-, h⟩ := h
  split at h
  · simp only [bind_eq_ok, require_eq_ok, exists_const, pure_eq_ok] at h
    obtain ⟨-, -, -, -, lc, -, -, -, bh, -, -, hi, -, rfl⟩ := h
    rfl
  · simp [throw_ne_ok] at h

lemma initialize_enforced {accounts : List AccountInfo} {data : List UInt8}
    (h : processInitialize E s accounts data now = .ok s') :
    enforced (parseData data).network →
      (parseData data).initialBits ≠ 0 ∧ (parseData data).epochStart ≠ 0 := by
  simp only [processInitialize, bind_eq_ok, require_eq_ok, exists_const] at h
  obtain ⟨-, h⟩ := h
  split at h
  · simp only [bind_eq_ok, require_eq_ok, exists_const, pure_eq_ok] at h
    obtain ⟨-, -, -, -, lc, -, hseeded, -, bh, -, -, hi, -, rfl⟩ := h
    exact hseeded
  · simp [throw_ne_ok] at h

lemma prune_verified {accounts : List AccountInfo} {data : List UInt8}
    (h : processPruneObsoleteBlocks s accounts data = .ok s') : s'.verified? = s.verified? := by
  simp only [processPruneObsoleteBlocks, bind_eq_ok, require_eq_ok, exists_const] at h
  obtain ⟨-, h⟩ := h
  split at h
  · simp only [bind_eq_ok, require_eq_ok, orElse_eq_ok, exists_const, pure_eq_ok] at h
    obtain ⟨-, -, -, -, hdr, -, -, -, hi, -, -, lc, -, -, -, -, rfl⟩ := h
    rw [credit_verified?]
    rfl
  · simp [throw_ne_ok] at h

end Utxopia.LightClient.Program
