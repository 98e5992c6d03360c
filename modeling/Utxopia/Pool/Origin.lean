import Utxopia.Pool.Covered
import Utxopia.Pool.Outpoints

/-!
Where the outputs of a request come from.

A processing request remembers the number, the sum and the commitment of what its marking put
aside. The commitment is over the outpoints and the amounts, so outputs with the key of the request
and its commitment are all of them.
-/

namespace Utxopia.Pool

open Utxopia.ByteString Utxopia.Check Utxopia.Run Utxopia.Runtime

variable {E : Env} {r : Records} {k : Addr × Addr × ℕ} {req : RedemptionRequest}
  {us us₀ : List UtxoEntry} {tr : List (Step State Label)}

/-- No two of these strings have one SHA-256 digest. -/
def ShaApart (E : Env) (messages : List (List UInt8)) : Prop :=
  ∀ a ∈ messages, ∀ b ∈ messages, E.sha256 a = E.sha256 b → a = b

instance (E : Env) (messages : List (List UInt8)) : Decidable (ShaApart E messages) :=
  inferInstanceAs (Decidable (∀ a ∈ messages, ∀ b ∈ messages, E.sha256 a = E.sha256 b → a = b))

/-- What a processing request remembers, and every output with its key. -/
structure Origin (E : Env) (tr : List (Step State Label)) (r : Records) (k : Addr × Addr × ℕ)
    (req : RedemptionRequest) (us₀ : List UtxoEntry) : Prop where
  marked : ∃ mark ∈ tr, Marks E mark k us₀
  count : req.reservedCount = us₀.length
  total : req.totalInputSats = (amountsOf us₀).sum
  commitment : req.inputsCommitment =
    inputsCommitment E (canonicalSort (us₀.map fun e => e.2.plainInput))
  nodup : (us₀.map Prod.fst).Nodup
  filed : ∀ e ∈ us₀, e.1 = (k.1, e.2.txid, e.2.vout)
  held : ∀ e : UtxoEntry, r.reserved e.1 = some e.2 →
    e.2.reservedForRequestId = reservationKeyOf E k → e ∈ reserveAll (reservationKeyOf E k) us₀

lemma Covered.origin (h : Covered E tr r.processing r.reserved) (hreq : r.redemptions k = some req)
    (hst : req.status = .Processing) : ∃ us₀, Origin E tr r k req us₀ := by
  obtain ⟨mark, hmark, us₀, hmarks, hfix, hnd, hall⟩ := h.sets k _ (processing_of_processing hreq hst)
  simp only [RedemptionRequest.remembered, fixedBy, Fixed.mk.injEq] at hfix
  refine ⟨us₀, ⟨mark, hmark, hmarks⟩, hfix.1, hfix.2.1, hfix.2.2, hnd, ?_, hall⟩
  obtain ⟨_, _, m, _, _, _, -, -, rfl, hmarking, -⟩ := hmarks
  exact hmarking.reservation.keys

/-- An entry that was put aside is filed as it was before. -/
lemma Origin.filed_reserved (h : Origin E tr r k req us₀) {e : UtxoEntry}
    (he : e ∈ reserveAll (reservationKeyOf E k) us₀) : e.1 = (k.1, e.2.txid, e.2.vout) := by
  obtain ⟨d, hd, rfl⟩ := List.mem_map.mp he
  exact h.filed d hd

/-- Different accounts of one pool are different outpoints. -/
lemma nodup_outpoints (pool : Addr) (hnd : (us.map Prod.fst).Nodup)
    (hfiled : ∀ e ∈ us, e.1 = (pool, e.2.txid, e.2.vout)) :
    (us.map fun e => (e.2.txid, e.2.vout)).Nodup := by
  have hkeys : us.map Prod.fst = (us.map fun e => (e.2.txid, e.2.vout)).map (Prod.mk pool) := by
    rw [List.map_map]
    exact List.map_congr_left hfiled
  exact (hkeys ▸ hnd).of_map

/-- **The commitment leaves no choice**: outputs with the key of a request and its commitment are
all that was put aside. -/
theorem Origin.perm {messages : List (List UInt8)} (h : Origin E tr r k req us₀)
    (hsha : ShaApart E messages) (hus : ∀ e ∈ us, e ∈ reserveAll (reservationKeyOf E k) us₀)
    (hcommit : inputsCommitment E (canonicalSort (us.map fun e => e.2.input)) = req.inputsCommitment)
    (hmem : commitmentMessage (canonicalSort (us.map fun e => e.2.input)) ∈ messages)
    (hmem₀ : commitmentMessage (canonicalSort (us₀.map fun e => e.2.plainInput)) ∈ messages)
    (hfits : ∀ e ∈ us, e.2.input.Fits) (hfits₀ : ∀ e ∈ us₀, e.2.plainInput.Fits) :
    us.Perm (reserveAll (reservationKeyOf E k) us₀) := by
  rw [h.commitment, inputsCommitment_eq, inputsCommitment_eq] at hcommit
  have hcovered := commitmentMessage_inj
    (fun i hi => by
      obtain ⟨e, he, rfl⟩ := List.mem_map.mp ((canonicalSort_perm _).mem_iff.mp hi)
      exact hfits e he)
    (fun i hi => by
      obtain ⟨e, he, rfl⟩ := List.mem_map.mp ((canonicalSort_perm _).mem_iff.mp hi)
      exact hfits₀ e he)
    (hsha _ hmem _ hmem₀ hcommit)
  -- the same outpoints, though perhaps in another order
  have houtpoints : (us.map fun e => (e.2.txid, e.2.vout)).Perm
      (us₀.map fun e => (e.2.txid, e.2.vout)) := by
    have hsorted := (canonicalSort_perm (us.map fun e => e.2.input)).map ReservedInput.covered
    have hsorted₀ := (canonicalSort_perm (us₀.map fun e => e.2.plainInput)).map ReservedInput.covered
    rw [← hcovered] at hsorted₀
    have hfirst := (hsorted.symm.trans hsorted₀).map Prod.fst
    simp only [List.map_map] at hfirst
    exact hfirst
  have hnd : us.Nodup := by
    refine List.Nodup.of_map (fun e : UtxoEntry => (e.2.txid, e.2.vout)) ?_
    exact houtpoints.nodup_iff.mpr (nodup_outpoints k.1 h.nodup h.filed)
  refine (List.subperm_of_subset hnd hus).perm_of_length_le ?_
  have hlen := houtpoints.length_eq
  rw [List.length_map, List.length_map] at hlen
  rw [reserveAll, List.length_map, hlen]

end Utxopia.Pool
