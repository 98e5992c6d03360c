import Utxopia.Lib.Encoding
import Utxopia.Lib.Positional
import Utxopia.Pool.Sighash

/-!
The canonical order of the inputs and the commitment to them.

Inputs are ordered by what the commitment covers: the amount and the outpoint. Different
outpoints are never tied, so the order does not depend on how the inputs were listed, and the
bytes that are hashed can be read back.
-/

namespace Utxopia.Pool

open Utxopia.ByteString Utxopia.Encoding Utxopia.Positional

/-! ### Comparing byte strings -/

@[simp] lemma isGe_cons (a b : UInt8) (as bs : List UInt8) :
    isGe (a :: as) (b :: bs) = true ↔ b.toNat < a.toNat ∨ (a = b ∧ isGe as bs = true) := by
  rw [isGe]
  simp only [UInt8.lt_iff_toNat_lt, ← UInt8.toNat_inj]
  rcases lt_trichotomy a.toNat b.toNat with h | h | h
  · simp [h, h.not_gt, h.ne]
  · simp [h]
  · simp [h, h.not_gt, h.ne']

variable {as bs cs : List UInt8}

/-- The first byte that differs decides between the numbers. -/
lemma isGe_iff (hlen : as.length = bs.length) : isGe as bs = true ↔ leNat bs.reverse ≤ leNat as.reverse := by
  induction as generalizing bs with
  | nil =>
    obtain rfl := List.length_eq_zero_iff.mp hlen.symm
    simp [isGe]
  | cons a as ih =>
    obtain ⟨b, bs, rfl⟩ := List.exists_cons_of_length_eq_add_one hlen.symm
    have hrest : as.length = bs.length := Nat.succ.inj hlen
    have ha := leNat_lt as.reverse
    have hb := leNat_lt bs.reverse
    rw [List.length_reverse] at ha hb
    rw [isGe_cons, ih hrest, leNat_reverse_cons, leNat_reverse_cons, hrest]
    rw [hrest] at ha
    rcases lt_trichotomy b.toNat a.toNat with hlt | heq | hlt
    · have hpow : (b.toNat + 1) * 256 ^ bs.length ≤ a.toNat * 256 ^ bs.length :=
        Nat.mul_le_mul_right _ hlt
      rw [Nat.add_mul] at hpow
      exact ⟨fun _ => by omega, fun _ => .inl hlt⟩
    · obtain rfl := UInt8.toNat_inj.mp heq
      simp
    · have hpow : (a.toNat + 1) * 256 ^ bs.length ≤ b.toNat * 256 ^ bs.length :=
        Nat.mul_le_mul_right _ hlt
      rw [Nat.add_mul] at hpow
      refine ⟨?_, fun h => by omega⟩
      rintro (h | ⟨rfl, -⟩)
      · exact absurd h hlt.not_gt
      · exact absurd hlt (lt_irrefl _)

lemma isGe_total (hlen : as.length = bs.length) : isGe as bs = true ∨ isGe bs as = true := by
  rw [isGe_iff hlen, isGe_iff hlen.symm]
  exact le_total ..

lemma isGe_antisymm (hlen : as.length = bs.length) (h : isGe as bs = true)
    (h' : isGe bs as = true) : as = bs := by
  rw [isGe_iff hlen] at h
  rw [isGe_iff hlen.symm] at h'
  exact List.reverse_injective (leNat_inj (by simpa using hlen) (le_antisymm h' h))

lemma isGe_trans (hab : as.length = bs.length) (hbc : bs.length = cs.length)
    (h : isGe as bs = true) (h' : isGe bs cs = true) : isGe as cs = true := by
  rw [isGe_iff hab] at h
  rw [isGe_iff hbc] at h'
  exact (isGe_iff (hab.trans hbc)).mpr (h'.trans h)

/-! ### The order -/

namespace ReservedInput

/-- The outpoint of an input. -/
def outpoint (i : ReservedInput) : Outpoint := (i.txid, i.vout)

lemma sortsBefore_total (a b : ReservedInput) : a.sortsBefore b ∨ b.sortsBefore a := by
  unfold sortsBefore
  rcases lt_trichotomy a.amountSats b.amountSats with h | h | h
  · exact .inr (.inl h)
  · by_cases ht : a.txid = b.txid
    · rcases le_total a.vout b.vout with hv | hv
      · exact .inl (.inr ⟨h, .inr ⟨ht, hv⟩⟩)
      · exact .inr (.inr ⟨h.symm, .inr ⟨ht.symm, hv⟩⟩)
    · have hlen : b.txid.toList.length = a.txid.toList.length := by simp
      rcases isGe_total hlen with hg | hg
      · exact .inl (.inr ⟨h, .inl ⟨ht, hg⟩⟩)
      · exact .inr (.inr ⟨h.symm, .inl ⟨Ne.symm ht, hg⟩⟩)
  · exact .inl (.inl h)

lemma txid_antisymm {a b : Hash} (h : isGe a.toList b.toList = true)
    (h' : isGe b.toList a.toList = true) : a = b :=
  Vector.toList_inj.mp (isGe_antisymm (by simp) h h')

lemma sortsBefore_trans {a b c : ReservedInput} (h : a.sortsBefore b) (h' : b.sortsBefore c) :
    a.sortsBefore c := by
  unfold sortsBefore at *
  rcases h with h | ⟨hab, h⟩
  · exact .inl (h'.elim (fun h' => h'.trans h) fun h' => h'.1 ▸ h)
  rcases h' with h' | ⟨hbc, h'⟩
  · exact .inl (hab ▸ h')
  refine .inr ⟨hab.trans hbc, ?_⟩
  rcases h with ⟨hne, hg⟩ | ⟨heq, hv⟩ <;> rcases h' with ⟨hne', hg'⟩ | ⟨heq', hv'⟩
  · refine .inl ⟨fun hac => hne ?_, isGe_trans (by simp) (by simp) hg' hg⟩
    rw [← hac] at hg'
    exact txid_antisymm hg' hg
  · exact .inl ⟨heq' ▸ hne, heq' ▸ hg⟩
  · exact .inl ⟨heq ▸ hne', heq ▸ hg'⟩
  · exact .inr ⟨heq.trans heq', hv.trans hv'⟩

lemma sortsBefore_antisymm {a b : ReservedInput} (h : a.sortsBefore b) (h' : b.sortsBefore a) :
    a.outpoint = b.outpoint := by
  unfold sortsBefore at *
  rcases h with h | ⟨hab, h⟩
  · rcases h' with h' | ⟨hba, -⟩ <;> omega
  rcases h' with h' | ⟨-, h'⟩
  · omega
  rcases h with ⟨hne, hg⟩ | ⟨heq, hv⟩ <;> rcases h' with ⟨hne', hg'⟩ | ⟨heq', hv'⟩
  · exact absurd (txid_antisymm hg' hg) hne
  · exact absurd heq'.symm hne
  · exact absurd heq.symm hne'
  · exact Prod.ext heq (hv.antisymm hv')

end ReservedInput

lemma canonicalSort_perm (l : List ReservedInput) : (canonicalSort l).Perm l :=
  List.perm_insertionSort ..

/-- **One order** for inputs with different outpoints, however they are listed. -/
theorem canonicalSort_eq_of_perm {l l' : List ReservedInput} (h : l.Perm l')
    (hnd : (l.map ReservedInput.outpoint).Nodup) : canonicalSort l = canonicalSort l' := by
  have : Std.Total ReservedInput.sortsBefore := ⟨ReservedInput.sortsBefore_total⟩
  have : IsTrans ReservedInput ReservedInput.sortsBefore :=
    ⟨fun _ _ _ => ReservedInput.sortsBefore_trans⟩
  have hperm : (canonicalSort l).Perm (canonicalSort l') :=
    (canonicalSort_perm l).trans (h.trans (canonicalSort_perm l').symm)
  refine hperm.eq_of_pairwise (fun a b ha hb hab hba => ?_)
    (List.pairwise_insertionSort _ l) (List.pairwise_insertionSort _ l')
  have ha' : a ∈ l := (canonicalSort_perm l).mem_iff.mp ha
  have hb' : b ∈ l := h.mem_iff.mpr ((canonicalSort_perm l').mem_iff.mp hb)
  exact List.inj_on_of_nodup_map hnd ha' hb' (ReservedInput.sortsBefore_antisymm hab hba)

/-! ### What is hashed -/

/-- The bytes of one input: the id, the index and the amount. -/
def ReservedInput.bytes (i : ReservedInput) : List UInt8 :=
  i.txid.toList ++ leBytes 4 i.vout ++ leBytes 8 i.amountSats

/-- The bytes that the commitment hashes. -/
def commitmentMessage (ordered : List ReservedInput) : List UInt8 := ordered.flatMap ReservedInput.bytes

lemma inputsCommitment_eq (E : Env) (ordered : List ReservedInput) :
    inputsCommitment E ordered = E.sha256 (commitmentMessage ordered) := rfl

/-- The numbers of an input fit their fields. -/
def ReservedInput.Fits (i : ReservedInput) : Prop := i.vout < 2 ^ 32 ∧ i.amountSats < 2 ^ 64

lemma ReservedInput.length_bytes (i : ReservedInput) : i.bytes.length = 44 := by
  simp [bytes, length_leBytes]

/-- What the commitment covers of an input. -/
def ReservedInput.covered (i : ReservedInput) : Outpoint × ℕ := (i.outpoint, i.amountSats)

lemma ReservedInput.bytes_inj {i j : ReservedInput} (hi : i.Fits) (hj : j.Fits)
    (h : i.bytes = j.bytes) : i.covered = j.covered := by
  unfold bytes at h
  rw [List.append_assoc, List.append_assoc] at h
  obtain ⟨htxid, h⟩ := toList_append_inj h
  obtain ⟨hvout, hamount⟩ := List.append_inj h (by simp [length_leBytes])
  refine Prod.ext (Prod.ext htxid ?_) ?_
  · exact leBytes_inj hi.1 hj.1 hvout
  · exact leBytes_inj hi.2 hj.2 hamount

/-- **The commitment's bytes are read back**: they fix the outpoints and the amounts in their
order. -/
theorem commitmentMessage_inj {l l' : List ReservedInput} (hl : ∀ i ∈ l, i.Fits)
    (hl' : ∀ i ∈ l', i.Fits) (h : commitmentMessage l = commitmentMessage l') :
    l.map ReservedInput.covered = l'.map ReservedInput.covered := by
  induction l generalizing l' with
  | nil =>
    cases l' with
    | nil => rfl
    | cons j js =>
      have hlen := congrArg List.length h
      simp [commitmentMessage, ReservedInput.length_bytes] at hlen
      omega
  | cons i is ih =>
    cases l' with
    | nil =>
      have hlen := congrArg List.length h
      simp [commitmentMessage, ReservedInput.length_bytes] at hlen
    | cons j js =>
      rw [List.forall_mem_cons] at hl hl'
      unfold commitmentMessage at h
      rw [List.flatMap_cons, List.flatMap_cons] at h
      obtain ⟨hhead, htail⟩ :=
        List.append_inj h (by rw [ReservedInput.length_bytes, ReservedInput.length_bytes])
      rw [List.map_cons, List.map_cons, ReservedInput.bytes_inj hl.1 hl'.1 hhead, ih hl.2 hl'.2 htail]

end Utxopia.Pool
