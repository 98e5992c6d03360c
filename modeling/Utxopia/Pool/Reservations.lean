import Utxopia.Pool.Credits

/-!
What is put aside for a request.

Marking puts outputs aside under the reservation key of a request and fixes their number, sum and
commitment in the request. No pointer leads back: who completes or cancels names outputs, and the
key and the number are all that is compared. Since a pass takes different outputs, the right
number of outputs with the right key is the whole set.
-/

namespace Utxopia.Pool

open Utxopia.ByteString Utxopia.Check Utxopia.Run Utxopia.Runtime

variable {E : Env} {s s' : State} {c c' : Call} {l : Label} {r r' : Records}

/-! ### What is reserved -/

/-- What a processing request remembers of its inputs. -/
structure Fixed where
  reservedCount : ℕ
  totalInputSats : ℕ
  inputsCommitment : Hash

def RedemptionRequest.fixed (req : RedemptionRequest) : Option Fixed :=
  if req.status = .Processing then
    some ⟨req.reservedCount, req.totalInputSats, req.inputsCommitment⟩
  else none

/-- The processing requests. -/
def Records.processing (r : Records) (k : Addr × Addr × ℕ) : Option Fixed :=
  (r.redemptions k).bind RedemptionRequest.fixed

def UtxoRecord.aside (u : UtxoRecord) : Option UtxoRecord :=
  if u.status = .Reserved then some u else none

/-- The outputs put aside. -/
def Records.reserved (r : Records) (o : Addr × Outpoint) : Option UtxoRecord :=
  (r.utxos o).bind UtxoRecord.aside

/-- What a request remembers of these inputs. -/
def fixedBy (E : Env) (us : List UtxoEntry) : Fixed :=
  ⟨us.length, (amountsOf us).sum,
    inputsCommitment E (canonicalSort (us.map fun e => e.2.plainInput))⟩

/-- Outputs under a reservation key. -/
def reserveAll (reservationKey : ℕ) (us : List UtxoEntry) : List UtxoEntry :=
  us.map fun e => (e.1, e.2.reserve reservationKey)

@[simp] lemma reserveAll_keys (reservationKey : ℕ) (us : List UtxoEntry) :
    (reserveAll reservationKey us).map Prod.fst = us.map Prod.fst := by
  simp [reserveAll, Function.comp_def]

/-- A step marked a request with these outputs. -/
def Marks (E : Env) (st : Step State Label) (k : Addr × Addr × ℕ) (us : List UtxoEntry) : Prop :=
  ∃ c c' m p req slot, st.call = .call c ∧ c.decode E = some (.MarkProcessing, c') ∧
    k = req.storeKey m ∧ Marking st.pre.records m p req us ∧
    Names c' m req 0 3 (byteAt c'.data 0) us ∧
    st.post.records = st.pre.records.mark E m p req us slot

/-- The outputs that carry a reservation key are these. -/
structure Holds (r : Records) (reservationKey : ℕ) (us : List UtxoEntry) : Prop where
  nodup : (us.map Prod.fst).Nodup
  mem_iff : ∀ e : UtxoEntry, e ∈ us ↔
    r.utxos e.1 = some e.2 ∧ e.2.status = .Reserved ∧ e.2.reservedForRequestId = reservationKey

/-- **Reservation integrity**: what carries the key of a processing request is what a marking of
the request put aside, and every output put aside belongs to one processing request. -/
structure Reservations (E : Env) (tr : List (Step State Label)) (r : Records) : Prop where
  exact : ∀ k req, r.redemptions k = some req → req.status = .Processing →
    ∃ st ∈ tr, ∃ us, Marks E st k us ∧
      Holds r (reservationKeyOf E k) (reserveAll (reservationKeyOf E k) us) ∧
      us.length = req.reservedCount ∧ (amountsOf us).sum = req.totalInputSats ∧
      inputsCommitment E (canonicalSort (us.map fun e => e.2.plainInput)) = req.inputsCommitment
  owned : ∀ o u, r.utxos o = some u → u.status = .Reserved →
    ∃! k, ∃ req, r.redemptions k = some req ∧ req.status = .Processing ∧
      u.reservedForRequestId = reservationKeyOf E k

/-! ### The invariant -/

/-- The same, of the two views of the books it depends on. -/
structure Backed (E : Env) (tr : List (Step State Label)) (res : Addr × Addr × ℕ → Option Fixed)
    (out : Addr × Outpoint → Option UtxoRecord) : Prop where
  sets : ∀ k f, res k = some f → ∃ st ∈ tr, ∃ us, Marks E st k us ∧ f = fixedBy E us ∧
    (us.map Prod.fst).Nodup ∧ ∀ e : UtxoEntry, e ∈ reserveAll (reservationKeyOf E k) us ↔
      out e.1 = some e.2 ∧ e.2.reservedForRequestId = reservationKeyOf E k
  apart : ∀ k k' f f', res k = some f → res k' = some f' →
    reservationKeyOf E k = reservationKeyOf E k' → k = k'
  owned : ∀ o u, out o = some u →
    ∃ k f, res k = some f ∧ u.reservedForRequestId = reservationKeyOf E k

lemma fixed_eq_some {req : RedemptionRequest} {f : Fixed} : req.fixed = some f ↔
    req.status = .Processing ∧
      f = ⟨req.reservedCount, req.totalInputSats, req.inputsCommitment⟩ := by
  unfold RedemptionRequest.fixed
  split_ifs with h <;> simp [h, eq_comm]

lemma aside_eq_some {u v : UtxoRecord} : u.aside = some v ↔ u.status = .Reserved ∧ v = u := by
  unfold UtxoRecord.aside
  split_ifs with h <;> simp [h, eq_comm]

lemma processing_eq_some {k : Addr × Addr × ℕ} {f : Fixed} : r.processing k = some f ↔
    ∃ req, r.redemptions k = some req ∧ req.fixed = some f := Option.bind_eq_some_iff

lemma reserved_eq_some {o : Addr × Outpoint} {u : UtxoRecord} :
    r.reserved o = some u ↔ r.utxos o = some u ∧ u.status = .Reserved := by
  rw [Records.reserved, Option.bind_eq_some_iff]
  constructor
  · rintro ⟨v, hv, hu⟩
    obtain ⟨hst, rfl⟩ := aside_eq_some.mp hu
    exact ⟨hv, hst⟩
  · rintro ⟨hu, hst⟩
    exact ⟨u, hu, aside_eq_some.mpr ⟨hst, rfl⟩⟩

lemma Backed.reservations {tr : List (Step State Label)}
    (h : Backed E tr r.processing r.reserved) : Reservations E tr r := by
  refine ⟨fun k req hreq hst => ?_, fun o u hu hst => ?_⟩
  · have hf : r.processing k = some ⟨req.reservedCount, req.totalInputSats, req.inputsCommitment⟩ :=
      processing_eq_some.mpr ⟨req, hreq, fixed_eq_some.mpr ⟨hst, rfl⟩⟩
    obtain ⟨st, hmem, us, hmarks, hfix, hnd, hiff⟩ := h.sets k _ hf
    simp only [fixedBy, Fixed.mk.injEq] at hfix
    refine ⟨st, hmem, us, hmarks, ⟨by rwa [reserveAll_keys], fun e => ?_⟩, hfix.1.symm,
      hfix.2.1.symm, hfix.2.2.symm⟩
    rw [hiff, reserved_eq_some, and_assoc]
  · obtain ⟨k, f, hk, hkey⟩ := h.owned o u (reserved_eq_some.mpr ⟨hu, hst⟩)
    obtain ⟨req, hreq, hfix⟩ := processing_eq_some.mp hk
    refine ⟨k, ⟨req, hreq, (fixed_eq_some.mp hfix).1, hkey⟩, ?_⟩
    rintro k' ⟨req', hreq', hst', hkey'⟩
    exact h.apart k' k _ f (processing_eq_some.mpr ⟨req', hreq', fixed_eq_some.mpr ⟨hst', rfl⟩⟩) hk
      (hkey'.symm.trans hkey)

/-! ### The invariant under one step -/

section Backed

variable {tr : List (Step State Label)} {st : Step State Label}
  {res : Addr × Addr × ℕ → Option Fixed} {out : Addr × Outpoint → Option UtxoRecord}
  {k : Addr × Addr × ℕ} {f : Fixed} {us vs : List UtxoEntry}

lemma Backed.later (h : Backed E tr res out) : Backed E (tr ++ [st]) res out := by
  refine ⟨fun k f hk => ?_, h.apart, h.owned⟩
  obtain ⟨st', hmem, us, hrest⟩ := h.sets k f hk
  exact ⟨st', List.mem_append_left _ hmem, us, hrest⟩

/-- A request takes outputs that were not put aside. -/
lemma Backed.mark (h : Backed E tr res out) (hmarks : Marks E st k us)
    (hapart : ∀ k' f', res k' = some f' → reservationKeyOf E k' ≠ reservationKeyOf E k)
    (hnd : (us.map Prod.fst).Nodup) (hfree : ∀ e ∈ us, out e.1 = none) :
    Backed E (tr ++ [st]) (Function.update res k (some (fixedBy E us)))
      (Store.updates out (us.map fun e => (e.1, some (e.2.reserve (reservationKeyOf E k))))) := by
  set es := us.map fun e => (e.1, some (e.2.reserve (reservationKeyOf E k))) with hes
  have hkeys : es.map Prod.fst = us.map Prod.fst := by simp [hes, Function.comp_def]
  -- an output is put aside now exactly if it was or is one of the new ones
  have hout : ∀ o u, Store.updates out es o = some u ↔
      (o, u) ∈ reserveAll (reservationKeyOf E k) us ∨ out o = some u := by
    intro o u
    by_cases ho : o ∈ es.map Prod.fst
    · obtain ⟨w, hw, heq⟩ := Store.updates_of_mem (m := out) ho
      obtain ⟨e, he, heo⟩ := List.mem_map.mp hw
      obtain ⟨rfl, rfl⟩ := Prod.mk.inj heo
      rw [heq, hfree e he]
      constructor
      · intro hu
        exact .inl (List.mem_map.mpr ⟨e, he, by rw [Option.some_inj.mp hu]⟩)
      · rintro (hu | hu)
        · obtain ⟨d, hd, hdeq⟩ := List.mem_map.mp hu
          obtain ⟨hde, rfl⟩ := Prod.mk.inj hdeq
          rw [List.inj_on_of_nodup_map hnd hd he hde]
        · exact absurd hu (by simp)
    · rw [Store.updates_of_notMem ho]
      refine ⟨.inr, fun hu => hu.resolve_left fun hmem => ho ?_⟩
      rw [hkeys, ← reserveAll_keys (reservationKeyOf E k)]
      exact List.mem_map_of_mem (f := Prod.fst) hmem
  have hreserved : ∀ e ∈ reserveAll (reservationKeyOf E k) us,
      e.2.reservedForRequestId = reservationKeyOf E k := by
    intro e he
    obtain ⟨d, -, rfl⟩ := List.mem_map.mp he
    rfl
  refine ⟨fun k' f' hk' => ?_, fun k₁ k₂ f₁ f₂ h₁ h₂ heq => ?_, fun o u hu => ?_⟩
  · rcases update_eq_some.mp hk' with ⟨rfl, hf'⟩ | ⟨-, hold⟩
    · refine ⟨st, by simp, us, hmarks, hf', hnd, fun e => ?_⟩
      rw [hout]
      refine ⟨fun he => ⟨.inl he, hreserved e he⟩, fun he => he.1.resolve_right fun hold => ?_⟩
      obtain ⟨k₀, f₀, hk₀, hkey⟩ := h.owned _ _ hold
      exact hapart k₀ f₀ hk₀ (hkey.symm.trans he.2)
    · obtain ⟨st', hmem, us', hm', hf', hnd', hiff⟩ := h.sets k' f' hold
      refine ⟨st', List.mem_append_left _ hmem, us', hm', hf', hnd', fun e => ?_⟩
      rw [hiff, hout]
      refine ⟨fun he => ⟨.inr he.1, he.2⟩, fun he => ⟨he.1.resolve_left fun hnew => ?_, he.2⟩⟩
      exact hapart k' f' hold (he.2.symm.trans (hreserved e hnew))
  · have hlive : ∀ {k' f'}, k' ≠ k → Function.update res k (some (fixedBy E us)) k' = some f' →
        res k' = some f' := fun hne hk' => by rwa [Function.update_of_ne hne] at hk'
    by_cases hk₁ : k₁ = k <;> by_cases hk₂ : k₂ = k
    · exact hk₁.trans hk₂.symm
    · exact absurd (hk₁ ▸ heq.symm) (hapart k₂ f₂ (hlive hk₂ h₂))
    · exact absurd (hk₂ ▸ heq) (hapart k₁ f₁ (hlive hk₁ h₁))
    · exact h.apart _ _ _ _ (hlive hk₁ h₁) (hlive hk₂ h₂) heq
  · rcases (hout o u).mp hu with hnew | hold
    · exact ⟨k, fixedBy E us, Function.update_self .., hreserved _ hnew⟩
    · obtain ⟨k₀, f₀, hk₀, hkey⟩ := h.owned o u hold
      have hne : k₀ ≠ k := fun heq => hapart k₀ f₀ hk₀ (by rw [heq])
      exact ⟨k₀, f₀, by rwa [Function.update_of_ne hne], hkey⟩

/-- Different outputs with the key of a request, as many as it remembers, are all of them. -/
lemma Backed.whole (h : Backed E tr res out) (hk : res k = some f)
    (hnd : (vs.map Prod.fst).Nodup)
    (hheld : ∀ e ∈ vs, out e.1 = some e.2 ∧ e.2.reservedForRequestId = reservationKeyOf E k)
    (hlen : vs.length = f.reservedCount) :
    ∀ e : UtxoEntry, e ∈ vs ↔
      out e.1 = some e.2 ∧ e.2.reservedForRequestId = reservationKeyOf E k := by
  obtain ⟨st, -, us, -, rfl, -, hiff⟩ := h.sets k f hk
  have hsub : vs ⊆ reserveAll (reservationKeyOf E k) us := fun e he => (hiff e).mpr (hheld e he)
  have hperm : vs.Perm (reserveAll (reservationKeyOf E k) us) := by
    refine (List.subperm_of_subset hnd.of_map hsub).perm_of_length_le ?_
    rw [hlen, reserveAll, List.length_map]
    exact le_rfl
  exact fun e => hperm.mem_iff.trans (hiff e)

/-- A request gives back all its outputs. -/
lemma Backed.release (h : Backed E tr res out) (hk : res k = some f)
    (hnd : (vs.map Prod.fst).Nodup)
    (hheld : ∀ e ∈ vs, out e.1 = some e.2 ∧ e.2.reservedForRequestId = reservationKeyOf E k)
    (hlen : vs.length = f.reservedCount) :
    Backed E tr (Function.update res k none) (Store.updates out (vs.map fun e => (e.1, none))) := by
  have hall := h.whole hk hnd hheld hlen
  have hkeys : (vs.map fun e => (e.1, (none : Option UtxoRecord))).map Prod.fst =
      vs.map Prod.fst := by
    simp [Function.comp_def]
  have hout : ∀ o u, Store.updates out (vs.map fun e => (e.1, none)) o = some u ↔
      o ∉ vs.map Prod.fst ∧ out o = some u := by
    intro o u
    by_cases ho : o ∈ vs.map Prod.fst
    · obtain ⟨w, hw, heq⟩ := Store.updates_of_mem (m := out) (hkeys ▸ ho)
      obtain ⟨e, -, heo⟩ := List.mem_map.mp hw
      rw [heq, ← (Prod.mk.inj heo).2]
      simp [ho]
    · rw [Store.updates_of_notMem (hkeys ▸ ho)]
      exact ⟨fun hu => ⟨ho, hu⟩, And.right⟩
  have hlive : ∀ {k' f'}, Function.update res k none k' = some f' → k' ≠ k ∧ res k' = some f' :=
    update_none_eq_some.mp
  refine ⟨fun k' f' hk' => ?_, fun k₁ k₂ f₁ f₂ h₁ h₂ => h.apart _ _ _ _ (hlive h₁).2 (hlive h₂).2,
    fun o u hu => ?_⟩
  · obtain ⟨hne, hk'⟩ := hlive hk'
    obtain ⟨st', hmem, us', hm', hf', hnd', hiff⟩ := h.sets k' f' hk'
    refine ⟨st', hmem, us', hm', hf', hnd', fun e => ?_⟩
    rw [hiff, hout]
    refine ⟨fun he => ⟨⟨fun hin => ?_, he.1⟩, he.2⟩, fun he => ⟨he.1.2, he.2⟩⟩
    -- an output that is given back has the key of the other request
    obtain ⟨d, hd, hde⟩ := List.mem_map.mp hin
    obtain ⟨hdout, hdkey⟩ := hheld d hd
    have hrec : d.2 = e.2 := by
      rw [hde, he.1] at hdout
      exact (Option.some_inj.mp hdout).symm
    exact hne (h.apart _ _ _ _ hk' hk (he.2.symm.trans (hrec ▸ hdkey)))
  · obtain ⟨hnot, hold⟩ := (hout o u).mp hu
    obtain ⟨k₀, f₀, hk₀, hkey⟩ := h.owned o u hold
    have hne : k₀ ≠ k := by
      rintro rfl
      exact hnot (List.mem_map_of_mem (f := Prod.fst) ((hall (o, u)).mpr ⟨hold, hkey⟩))
    exact ⟨k₀, f₀, by rwa [Function.update_of_ne hne], hkey⟩

end Backed

/-! ### One step -/

lemma processing_updateRedemptions (r : Records)
    (es : List ((Addr × Addr × ℕ) × Option RedemptionRequest)) :
    (r.updateRedemptions es).processing =
      Store.updates r.processing (es.map fun e => (e.1, e.2.bind RedemptionRequest.fixed)) :=
  Store.updates_bind _

lemma reserved_updateUtxos (r : Records) (es : List ((Addr × Outpoint) × Option UtxoRecord)) :
    (r.updateUtxos es).reserved =
      Store.updates r.reserved (es.map fun e => (e.1, e.2.bind UtxoRecord.aside)) :=
  Store.updates_bind _

/-- A new output is not put aside. -/
lemma reserved_credit {pool : Addr} {o : Outpoint} (h : r.utxos (pool, o) = none) (amount : ℕ)
    (leaf : Option Hash) : (r.credit pool o amount leaf).reserved = r.reserved := by
  refine (reserved_updateUtxos ..).trans (Store.updates_eq_self fun e he => ?_)
  obtain rfl := List.mem_singleton.mp he
  rw [Records.reserved, h]
  rfl

lemma reserved_creditChange {pool : Addr} {change : Option (Outpoint × ℕ)}
    (h : ∀ o ∈ change, r.utxos (pool, o.1) = none) (leaf : Option Hash) :
    (r.creditChange pool change leaf).reserved = r.reserved := by
  cases change with
  | none => rfl
  | some o => exact reserved_credit (h o rfl) _ _

lemma processing_of_request {k : Addr × Addr × ℕ} {req : RedemptionRequest}
    (h : r.redemptions k = some req) : r.processing k = req.fixed := by
  rw [Records.processing, h]
  rfl

/-- Opening requests and closing ones that have nothing put aside is not seen. -/
lemma processing_of_idle {es : List ((Addr × Addr × ℕ) × Option RedemptionRequest)}
    (h : ∀ e ∈ es, r.processing e.1 = e.2.bind RedemptionRequest.fixed) :
    (r.updateRedemptions es).processing = r.processing := by
  refine (processing_updateRedemptions ..).trans (Store.updates_eq_self fun e he => ?_)
  obtain ⟨d, hd, rfl⟩ := List.mem_map.mp he
  exact h d hd

lemma reserved_free (r : Records) (us : List UtxoEntry) :
    (r.updateUtxos (pickedEntries (fun u => some u.free) us)).reserved =
      Store.updates r.reserved (us.map fun e => (e.1, none)) := by
  rw [reserved_updateUtxos, pickedEntries, List.map_map]
  rfl

lemma reserved_consumed (r : Records) (us : List UtxoEntry) :
    (r.updateUtxos (pickedEntries (fun _ => none) us)).reserved =
      Store.updates r.reserved (us.map fun e => (e.1, none)) := by
  rw [reserved_updateUtxos, pickedEntries, List.map_map]
  rfl

lemma reserved_marked (r : Records) (reservationKey : ℕ) (us : List UtxoEntry) :
    (r.updateUtxos (pickedEntries (fun u => some (u.reserve reservationKey)) us)).reserved =
      Store.updates r.reserved (us.map fun e => (e.1, some (e.2.reserve reservationKey))) := by
  rw [reserved_updateUtxos, pickedEntries, List.map_map]
  rfl

lemma Held.aside {reservationKey : ℕ} {us : List UtxoEntry} (h : Held r reservationKey us) :
    ∀ e ∈ us, r.reserved e.1 = some e.2 ∧ e.2.reservedForRequestId = reservationKey := fun e he =>
  ⟨reserved_eq_some.mpr ⟨h.picked.recorded e he, (h.reserved e he).1⟩, (h.reserved e he).2⟩

/-! ### The conditions on a run -/

/-- The request whose account a call has in place `i`. -/
def Call.requestAt (c : Call) (i : ℕ) : Option (Addr × Addr × ℕ) :=
  match c.accounts[i]?.map AccountInfo.key with
  | some (.redemption pool requester nonce) => some (pool, requester, nonce)
  | _ => none

/-- The request a call would mark. -/
def Label.marked (E : Env) : Label → Option (Addr × Addr × ℕ)
  | .call c =>
    match c.decode E with
    | some (.MarkProcessing, c') => c'.requestAt 1
    | _ => none
  | _ => none

/-- The requests marked in a run. -/
def markedKeys (E : Env) (tr : List (Step State Label)) : List (Addr × Addr × ℕ) :=
  tr.filterMap fun st => st.call.marked E

/-- No two of the requests have one reservation key. -/
def KeysApart (E : Env) (ks : List (Addr × Addr × ℕ)) : Prop :=
  ∀ k ∈ ks, ∀ k' ∈ ks, reservationKeyOf E k = reservationKeyOf E k' → k = k'

/-- The change of a completion is no output that was a deposit before. -/
def ChangeNew (ps : List ((Addr × Outpoint) × Role)) : Prop :=
  ps.Pairwise fun a b => b.2 = .completion → a.1 = b.1 → a.2 = .completion

instance (E : Env) (ks : List (Addr × Addr × ℕ)) : Decidable (KeysApart E ks) :=
  inferInstanceAs (Decidable (∀ k ∈ ks, ∀ k' ∈ ks,
    reservationKeyOf E k = reservationKeyOf E k' → k = k'))

instance (ps : List ((Addr × Outpoint) × Role)) : Decidable (ChangeNew ps) :=
  inferInstanceAs (Decidable (ps.Pairwise fun a b =>
    b.2 = .completion → a.1 = b.1 → a.2 = .completion))

lemma Names.requestAt {m : Addr} {req : RedemptionRequest} {i start n : ℕ} {us : List UtxoEntry}
    (h : Names c m req i start n us) : c.requestAt (i + 1) = some (req.storeKey m) := by
  rw [Call.requestAt, h.request]
  rfl

lemma Marks.mem_markedKeys {tr : List (Step State Label)} {st : Step State Label}
    {k : Addr × Addr × ℕ} {us : List UtxoEntry} (h : Marks E st k us) (hst : st ∈ tr) :
    k ∈ markedKeys E tr := by
  obtain ⟨c, c', m, p, req, slot, hcall, hd, rfl, -, hnamed, -⟩ := h
  refine List.mem_filterMap.mpr ⟨st, hst, ?_⟩
  rw [hcall]
  simp only [Label.marked, hd]
  exact hnamed.requestAt

section Step

variable {tr : List (Step State Label)}

lemma KeysApart.of_append {after : List (Step State Label)}
    (h : KeysApart E (markedKeys E (tr ++ after))) : KeysApart E (markedKeys E tr) := by
  rw [markedKeys, List.filterMap_append] at h
  exact fun k hk k' hk' => h k (List.mem_append_left _ hk) k' (List.mem_append_left _ hk')

/-- The change of a completion had no record. -/
lemma change_unrecorded {guard : State → Label → Prop} {m : Addr} {req : RedemptionRequest}
    {us : List UtxoEntry} {start n : ℕ} {txid : Hash} (run : Reaches (step E) guard .genesis tr s)
    (hd : c.decode E = some (.CompleteRedemption, c')) (hnamed : Names c' m req 0 start n us)
    (hnew : s.records.completionReceipts txid = none)
    (htxid : ∀ o ∈ c'.changeOutput, o.1.1 = txid)
    (hchange : ChangeNew (presentations E tr ++ ((Label.call c).presented E s).toList)) :
    ∀ o ∈ c'.changeOutput, s.records.utxos (.poolState m, o.1) = none := by
  intro o ho
  obtain ⟨pool, hpool, hkey⟩ := Option.map_eq_some_iff.mp hnamed.pool
  have hpres : (Label.call c).presented E s = some ((.poolState m, o.1), .completion) := by
    simp only [Label.presented, hd, Option.bind_some, Instruction.presented, hpool,
      Option.mem_def.mp ho, Option.bind_eq_bind, hkey]
    rfl
  by_contra hne
  -- an earlier credit of the change would be that of a completion of the same transaction
  have hacc := accounted_of_reaches run
  have hcr := credited_of_recorded run hne
  rw [hacc.credits] at hcr
  obtain ⟨q, hq, hqk⟩ := List.mem_map.mp hcr
  rw [hpres, ChangeNew, List.pairwise_append] at hchange
  have hrole := hchange.2.2 q hq _ (List.mem_singleton_self _) rfl hqk
  have hreceipt := hacc.receipted q hq
  rw [hrole, hqk, Role.Receipted, htxid o ho] at hreceipt
  exact hreceipt hnew

/-- What the running request remembers. -/
def RedemptionRequest.remembered (req : RedemptionRequest) : Fixed :=
  ⟨req.reservedCount, req.totalInputSats, req.inputsCommitment⟩

lemma processing_of_processing {k : Addr × Addr × ℕ} {req : RedemptionRequest}
    (h : r.redemptions k = some req) (hst : req.status = .Processing) :
    r.processing k = some req.remembered := by
  rw [processing_of_request h]
  exact fixed_eq_some.mpr ⟨hst, rfl⟩

lemma idle_of_not_processing {k : Addr × Addr × ℕ} {req : RedemptionRequest}
    (h : r.redemptions k = some req) (hst : req.status ≠ .Processing) : r.processing k = none := by
  rw [processing_of_request h, RedemptionRequest.fixed, if_neg hst]

lemma cancel_views (r : Records) (m : Addr) (p : PoolState) (req : RedemptionRequest)
    (tc : TokenConfig) (t t' : CommitmentTree) (us : List UtxoEntry) (commitment : Hash) (now : ℤ) :
    (r.cancel m p req tc t t' us commitment now).processing =
        Function.update r.processing (req.storeKey m) none ∧
      (r.cancel m p req tc t t' us commitment now).reserved =
        Store.updates r.reserved (us.map fun e => (e.1, none)) :=
  ⟨processing_updateRedemptions .., reserved_free ..⟩

lemma complete_views (r : Records) (m : Addr) (p : PoolState) (req : RedemptionRequest)
    (tc : TokenConfig) (us : List UtxoEntry) (txid : Hash) (change : Option (Outpoint × ℕ))
    (leaf : Option Hash) (T : Addr → Option TokenAccount) (burn revenue : ℕ) (now : ℤ) :
    (r.complete m p req tc us txid change leaf T burn revenue now).processing =
        Function.update r.processing (req.storeKey m) none ∧
      (r.complete m p req tc us txid change leaf T burn revenue now).reserved =
        Store.updates (r.creditChange (.poolState m) change leaf).reserved
          (us.map fun e => (e.1, none)) := by
  cases change <;> exact ⟨processing_updateRedemptions .., reserved_consumed ..⟩

lemma mark_views (r : Records) (m : Addr) (p : PoolState) (req : RedemptionRequest)
    (us : List UtxoEntry) (slot : ℕ) :
    (r.mark E m p req us slot).processing =
        Function.update r.processing (req.storeKey m) (some (fixedBy E us)) ∧
      (r.mark E m p req us slot).reserved = Store.updates r.reserved
        (us.map fun e => (e.1, some (e.2.reserve (reservationKeyOf E (req.storeKey m))))) :=
  ⟨processing_updateRedemptions .., reserved_marked ..⟩

/-- A request that is closed with its outputs. -/
lemma Backed.close {k : Addr × Addr × ℕ} {req : RedemptionRequest} {r₁ : Records}
    {us : List UtxoEntry} (h : Backed E tr r.processing r.reserved)
    (hreq : r.redemptions k = some req) (hst : req.status = .Processing)
    (hheld : Held r₁ (reservationKeyOf E k) us) (hres : r₁.reserved = r.reserved)
    (hlen : us.length = req.reservedCount) :
    Backed E tr (Function.update r.processing k none)
      (Store.updates r₁.reserved (us.map fun e => (e.1, none))) := by
  have haside := hheld.aside
  rw [hres] at haside ⊢
  exact h.release (processing_of_processing hreq hst) hheld.picked.nodup haside hlen

theorem step_backed {guard : State → Label → Prop} (run : Reaches (step E) guard .genesis tr s)
    (hI : Backed E tr s.records.processing s.records.reserved) (hstep : step E s l = .ok s')
    (hkeys : KeysApart E (markedKeys E (tr ++ [⟨s, l, s'⟩])))
    (hchange : ChangeNew (presentations E tr ++ (l.presented E s).toList)) :
    Backed E (tr ++ [⟨s, l, s'⟩]) s'.records.processing s'.records.reserved := by
  have heffect := step_effect hstep
  generalize hr : s'.records = r' at heffect
  have hsame : ∀ {r : Records}, r.processing = s.records.processing →
      r.reserved = s.records.reserved →
      Backed E (tr ++ [⟨s, l, s'⟩]) r.processing r.reserved := fun hp ho => by
    rw [hp, ho]
    exact hI.later
  cases heffect with
  | reconfigured h =>
    obtain ⟨m, p, p', -, -, rfl⟩ := h
    exact hsame rfl rfl
  | shielded =>
    unfold Records.shield Records.putTotals
    split_ifs <;> exact hsame rfl rfl
  | unshielded =>
    unfold Records.unshield Records.putTotals
    split_ifs <;> exact hsame rfl rfl
  | transacted decoded planned sound burnable outputs => cases outputs <;> exact hsame rfl rfl
  | @redeemed c c' plan m p tc t t' now decoded planned h =>
    refine hsame ((processing_of_idle fun e he => ?_).trans rfl) rfl
    obtain ⟨item, hitem, rfl⟩ := List.mem_map.mp he
    have hfresh : s.records.redemptions (plan.requestKey m item) = none := (h.fresh item hitem).1
    change (s.records.redemptions (plan.requestKey m item)).bind _ = _
    rw [hfresh]
    rfl
  | @approved c c' m req req' cfg us tx fee inputIndex decoded digest index h =>
    refine hsame (processing_of_idle fun e he => ?_) rfl
    obtain rfl := List.mem_singleton.mp he
    obtain ⟨fee', hreq'⟩ := h.approved.same
    rw [processing_of_request h.request, hreq']
    rfl
  | @deposited c c' i tweaked ix binding m p tc t t' T credit leaf commitment amount fee now decoded
      kind input credited h =>
    exact hsame rfl (reserved_credit (r := s.records) h.unrecorded _ _)
  | @marked c c' m p req us slot decoded h named =>
    have hmarks : Marks E ⟨s, .call c, s'⟩ (req.storeKey m) us :=
      ⟨c, c', m, p, req, slot, rfl, decoded, rfl, h, named, hr⟩
    have hidle : s.records.processing (req.storeKey m) = none :=
      idle_of_not_processing h.request (by simp [h.pending])
    obtain ⟨hres, hout⟩ := mark_views (E := E) s.records m p req us slot
    rw [hres, hout]
    refine hI.mark hmarks (fun k' f' hk' heq => ?_) h.reservation.picked.nodup fun e he => ?_
    · -- the key of another processing request is that of another marking
      obtain ⟨st, hst, us', hm', -⟩ := hI.sets k' f' hk'
      have hmem := hm'.mem_markedKeys (List.mem_append_left [⟨s, .call c, s'⟩] hst)
      have hmem' := hmarks.mem_markedKeys (List.mem_append_right tr (List.mem_singleton_self _))
      rw [hkeys _ hmem _ hmem' heq, hidle] at hk'
      exact absurd hk' (by simp)
    · rw [Records.reserved, h.reservation.picked.recorded e he, Option.bind_some, UtxoRecord.aside,
        if_neg (by simp [h.reservation.unspent e he])]
  | @cancelled c c' m p req tc t t' us commitment now decoded h named =>
    rcases h.state with ⟨hst, rfl⟩ | ⟨hst, hlen⟩
    · refine hsame (processing_of_idle fun e he => ?_) rfl
      obtain rfl := List.mem_singleton.mp he
      exact idle_of_not_processing h.request (by simp [hst])
    · obtain ⟨hres, hout⟩ := cancel_views s.records m p req tc t t' us commitment now
      rw [hres, hout]
      exact (hI.close h.request hst h.held rfl hlen).later
  | @completed c c' m p req tc us tx txid leaf T burn revenue now decoded h named =>
    have hnone := change_unrecorded run decoded named h.new h.change_txid hchange
    obtain ⟨hres, hout⟩ := complete_views s.records m p req tc us txid c'.changeOutput leaf T burn
      revenue now
    rw [hres, hout]
    exact (hI.close h.request h.processing h.held (reserved_creditChange hnone leaf) h.count).later
  | _ => exact hsame rfl rfl

/-! ### Settling a request -/

/-- The request a call would take back or complete, and the outputs it names. -/
def Label.settled (E : Env) : Label → Option ((Addr × Addr × ℕ) × List Addr)
  | .call c =>
    match c.decode E with
    | some (.CancelRedemption, c') =>
      (c'.requestAt 2).map fun k => (k, c'.keysFrom 6 (byteAt c'.data 32))
    | some (.CompleteRedemption, c') =>
      (c'.requestAt 1).map fun k => (k, c'.keysFrom c'.consumedRange.1 c'.consumedRange.2)
    | _ => none
  | _ => none

/-- **Whole sets**: a step that settles a processing request names every output put aside for it
once and no other, and leaves none put aside. -/
def SettlesWhole (E : Env) (st : Step State Label) : Prop :=
  ∀ k given req, st.call.settled E = some (k, given) → st.pre.records.redemptions k = some req →
    req.status = .Processing →
    ∃ us, Holds st.pre.records (reservationKeyOf E k) us ∧ given = us.map utxoAddr ∧
      st.post.records.redemptions k = none ∧
      ∀ o u, st.post.records.utxos o = some u → u.status = .Reserved →
        u.reservedForRequestId ≠ reservationKeyOf E k

/-- The outputs a request was closed with were its outputs, and none is left. -/
lemma Backed.settled {k : Addr × Addr × ℕ} {req : RedemptionRequest} {r₁ : Records}
    {us : List UtxoEntry} (h : Backed E tr r.processing r.reserved)
    (hreq : r.redemptions k = some req) (hst : req.status = .Processing)
    (hheld : Held r₁ (reservationKeyOf E k) us) (hres₁ : r₁.reserved = r.reserved)
    (hlen : us.length = req.reservedCount)
    (hres : r'.processing = Function.update r.processing k none)
    (hout : r'.reserved = Store.updates r₁.reserved (us.map fun e => (e.1, none))) :
    Holds r (reservationKeyOf E k) us ∧ ∀ o u, r'.utxos o = some u → u.status = .Reserved →
      u.reservedForRequestId ≠ reservationKeyOf E k := by
  have hproc := processing_of_processing hreq hst
  have haside := hheld.aside
  rw [hres₁] at haside
  have hwhole := h.whole hproc hheld.picked.nodup haside hlen
  refine ⟨⟨hheld.picked.nodup, fun e => ?_⟩, fun o u hu hst' hkey => ?_⟩
  · rw [hwhole, reserved_eq_some, and_assoc]
  · have hclose := h.close hreq hst hheld hres₁ hlen
    rw [← hres, ← hout] at hclose
    obtain ⟨k', f', hk', hkey'⟩ := hclose.owned o u (reserved_eq_some.mpr ⟨hu, hst'⟩)
    rw [hres] at hk'
    obtain ⟨hne, hk'⟩ := update_none_eq_some.mp hk'
    exact hne (h.apart _ _ _ _ hk' hproc (hkey'.symm.trans hkey))

lemma step_settlesWhole {guard : State → Label → Prop} (run : Reaches (step E) guard .genesis tr s)
    (hI : Backed E tr s.records.processing s.records.reserved) (hstep : step E s l = .ok s')
    (hchange : ChangeNew (presentations E tr ++ (l.presented E s).toList)) :
    SettlesWhole E ⟨s, l, s'⟩ := by
  intro k given req hset hreq hst
  cases l with
  | call c =>
    simp only [Label.settled] at hset
    split at hset
    · rename_i c' hd
      simp only [step, bind_eq_ok, exists_unit, require_eq_ok, processInstruction, hd] at hstep
      obtain ⟨m, p, req', tc, t, t', us, commitment, h, hnamed, -, hrec⟩ :=
        processCancelRedemption_ok hstep.2
      simp only [hnamed.requestAt, Option.map_some, Option.some.injEq, Prod.mk.injEq] at hset
      obtain ⟨rfl, rfl⟩ := hset
      obtain rfl : req' = req := Option.some_inj.mp (h.request.symm.trans hreq)
      have hlen : us.length = req'.reservedCount := by
        rcases h.state with ⟨hpend, -⟩ | ⟨-, hlen⟩
        · rw [hst] at hpend
          exact absurd hpend (by simp)
        · exact hlen
      obtain ⟨hres, hout⟩ := cancel_views s.records m p req' tc t t' us commitment c'.unixTimestamp
      rw [← hrec] at hres hout
      obtain ⟨hholds, hnone⟩ := hI.settled h.request hst h.held rfl hlen hres hout
      refine ⟨us, hholds, hnamed.outputs.symm, ?_, hnone⟩
      rw [hrec]
      exact Function.update_self ..
    · rename_i c' hd
      simp only [step, bind_eq_ok, exists_unit, require_eq_ok, processInstruction, hd] at hstep
      obtain ⟨m, p, req', tc, us, tx, txid, leaf, T, burn, revenue, h, hnamed, -, hrec⟩ :=
        processCompleteRedemption_ok hstep.2
      simp only [hnamed.requestAt, Option.map_some, Option.some.injEq, Prod.mk.injEq] at hset
      obtain ⟨rfl, rfl⟩ := hset
      obtain rfl : req' = req := Option.some_inj.mp (h.request.symm.trans hreq)
      have hnew := change_unrecorded run hd hnamed h.new h.change_txid hchange
      obtain ⟨hres, hout⟩ := complete_views s.records m p req' tc us txid c'.changeOutput leaf T
        burn revenue c'.unixTimestamp
      rw [← hrec] at hres hout
      obtain ⟨hholds, hnone⟩ :=
        hI.settled h.request hst h.held (reserved_creditChange hnew leaf) h.count hres hout
      refine ⟨us, hholds, hnamed.outputs.symm, ?_, hnone⟩
      rw [hrec]
      cases c'.changeOutput <;> exact Function.update_self ..
    · exact absurd hset (by simp)
  | _ => exact absurd hset (by simp [Label.settled])

end Step

/-! ### Runs -/

lemma backed_of_reaches {tr : List (Step State Label)} {guard : State → Label → Prop}
    (run : Reaches (step E) guard .genesis tr s) (hkeys : KeysApart E (markedKeys E tr))
    (hchange : ChangeNew (presentations E tr)) :
    Backed E tr s.records.processing s.records.reserved := by
  refine run.history (I := fun tr s => KeysApart E (markedKeys E tr) →
    ChangeNew (presentations E tr) → Backed E tr s.records.processing s.records.reserved)
    (fun _ _ => ⟨fun k f hk => absurd hk (by simp [Records.processing]),
      fun k k' f f' hk => absurd hk (by simp [Records.processing]),
      fun o u hu => absurd hu (by simp [Records.reserved])⟩) ?_ hkeys hchange
  intro tr s l s' hrun hI _ hstep hkeys hchange
  have hpast : KeysApart E (markedKeys E tr) := hkeys.of_append
  rw [presentations_concat] at hchange
  exact step_backed hrun (hI hpast (List.pairwise_append.mp hchange).1) hstep hkeys hchange

/-- **Reservation integrity**: as long as reservation keys differ and no change was a deposit, the
outputs with the key of a processing request are those a marking fixed, every output put aside is
one request's, and whoever settles a request names all its outputs. -/
theorem reservation_integrity {tr : List (Step State Label)}
    (run : Reaches (step E) (fun _ _ => True) .genesis tr s)
    (hkeys : KeysApart E (markedKeys E tr)) (hchange : ChangeNew (presentations E tr)) :
    Reservations E tr s.records ∧ ∀ st ∈ tr, SettlesWhole E st := by
  refine ⟨(backed_of_reaches run hkeys hchange).reservations, ?_⟩
  refine run.history (I := fun tr _ => KeysApart E (markedKeys E tr) →
    ChangeNew (presentations E tr) → ∀ st ∈ tr, SettlesWhole E st) (by simp) ?_ hkeys hchange
  intro tr s l s' hrun hI _ hstep hkeys hchange st hst
  have hpast : KeysApart E (markedKeys E tr) := hkeys.of_append
  rw [presentations_concat] at hchange
  have hpastNew := (List.pairwise_append.mp hchange).1
  rcases List.mem_append.mp hst with hst | hst
  · exact hI hpast hpastNew st hst
  · obtain rfl := List.mem_singleton.mp hst
    exact step_settlesWhole hrun (backed_of_reaches hrun hpast hpastNew) hstep hchange

namespace Regtest

lemma run_settled : (trace (step env) (fun _ _ => true) .genesis (sweptTwice.take 9)).any
    (fun tr => decide (KeysApart env (markedKeys env tr)) &&
      decide (ChangeNew (presentations env tr))) = true := by
  decide +kernel

end Regtest

open Regtest in
/-- A deposit that is redeemed, reserved and paid. -/
theorem reservation_integrity_settled : ∃ (tr : List (Step State Label)) (s : State),
    tr.map Step.call = sweptTwice.take 9 ∧ Reservations env tr s.records ∧
      ∀ st ∈ tr, SettlesWhole env st := by
  obtain ⟨tr, htr, hok⟩ := (Option.any_eq_true _ _).mp run_settled
  rw [Bool.and_eq_true, decide_eq_true_eq, decide_eq_true_eq] at hok
  obtain ⟨hcalls, hrun⟩ := reaches_of_trace (fun _ _ _ => trivial) htr
  exact ⟨tr, _, hcalls, reservation_integrity hrun hok.1 hok.2⟩

end Utxopia.Pool
