import Utxopia.Pool.Canonical
import Utxopia.Pool.Custody
import Utxopia.Pool.Reservations

/-!
What carries the key of a request, whatever becomes of the rest.

A completion may write its change over an output that is put aside, so an output may be lost to
its request. None is ever gained: as long as a request is processed, what carries its key is
among what its marking put aside, and is as it was then.
-/

namespace Utxopia.Pool

open Utxopia.ByteString Utxopia.Check Utxopia.Run Utxopia.Runtime

variable {E : Env} {s s' : State} {c c' : Call} {l : Label} {r r' : Records}

/-- The outputs with the key of a processing request are among those a marking put aside, and no
other output is put aside. -/
structure Covered (E : Env) (tr : List (Step State Label)) (res : Addr × Addr × ℕ → Option Fixed)
    (out : Addr × Outpoint → Option UtxoRecord) : Prop where
  sets : ∀ k f, res k = some f → ∃ st ∈ tr, ∃ us, Marks E st k us ∧ f = fixedBy E us ∧
    (us.map Prod.fst).Nodup ∧ ∀ e : UtxoEntry, out e.1 = some e.2 →
      e.2.reservedForRequestId = reservationKeyOf E k → e ∈ reserveAll (reservationKeyOf E k) us
  owned : ∀ o u, out o = some u →
    ∃ k f, res k = some f ∧ u.reservedForRequestId = reservationKeyOf E k

/-- Nothing new is put aside. -/
def Fewer (out out' : Addr × Outpoint → Option UtxoRecord) : Prop :=
  ∀ o u, out' o = some u → out o = some u

/-! ### The invariant under one step -/

section Covered

variable {tr : List (Step State Label)} {st : Step State Label}
  {res : Addr × Addr × ℕ → Option Fixed} {out out' : Addr × Outpoint → Option UtxoRecord}
  {k : Addr × Addr × ℕ} {f : Fixed} {us vs : List UtxoEntry}

lemma Covered.later (h : Covered E tr res out) (hfewer : Fewer out out') :
    Covered E (tr ++ [st]) res out' := by
  refine ⟨fun k f hk => ?_, fun o u hu => h.owned o u (hfewer o u hu)⟩
  obtain ⟨st', hmem, us, hmarks, hf, hnd, hall⟩ := h.sets k f hk
  exact ⟨st', List.mem_append_left _ hmem, us, hmarks, hf, hnd, fun e he => hall e (hfewer _ _ he)⟩

/-- A marked request was marked in the run. -/
lemma Covered.mem_markedKeys (h : Covered E tr res out) (hk : res k = some f) :
    k ∈ markedKeys E tr := by
  obtain ⟨st, hst, us, hmarks, -⟩ := h.sets k f hk
  exact hmarks.mem_markedKeys hst

/-- An output that is put aside now is new or was put aside before. -/
lemma reserved_of_marked {o : Addr × Outpoint} {u : UtxoRecord} {reservationKey : ℕ}
    (h : Store.updates out (us.map fun e => (e.1, some (e.2.reserve reservationKey))) o = some u) :
    (o, u) ∈ reserveAll reservationKey us ∨ out o = some u := by
  by_cases ho : o ∈ (us.map fun e => (e.1, some (e.2.reserve reservationKey))).map Prod.fst
  · obtain ⟨w, hw, heq⟩ := Store.updates_of_mem (m := out) ho
    obtain ⟨e, he, heo⟩ := List.mem_map.mp hw
    obtain ⟨rfl, rfl⟩ := Prod.mk.inj heo
    rw [heq, Option.some_inj] at h
    exact .inl (List.mem_map.mpr ⟨e, he, by rw [h]⟩)
  · rw [Store.updates_of_notMem ho] at h
    exact .inr h

lemma reservedForRequestId_of_mem {reservationKey : ℕ} {e : UtxoEntry}
    (h : e ∈ reserveAll reservationKey us) : e.2.reservedForRequestId = reservationKey := by
  obtain ⟨d, -, rfl⟩ := List.mem_map.mp h
  rfl

/-- A request that was idle takes outputs. -/
lemma Covered.mark (h : Covered E tr res out) (hkeys : KeysApart E (markedKeys E (tr ++ [st])))
    (hmarks : Marks E st k us) (hidle : res k = none) (hnd : (us.map Prod.fst).Nodup) :
    Covered E (tr ++ [st]) (Function.update res k (some (fixedBy E us)))
      (Store.updates out (us.map fun e => (e.1, some (e.2.reserve (reservationKeyOf E k))))) := by
  have hapart : ∀ k' f', res k' = some f' → reservationKeyOf E k' ≠ reservationKeyOf E k := by
    intro k' f' hk' heq
    obtain ⟨st', hst', us', hm', -⟩ := h.sets k' f' hk'
    have hmem := hm'.mem_markedKeys (List.mem_append_left [st] hst')
    have hmem' := hmarks.mem_markedKeys (List.mem_append_right tr (List.mem_singleton_self _))
    rw [hkeys _ hmem _ hmem' heq, hidle] at hk'
    exact absurd hk' (by simp)
  refine ⟨fun k' f' hk' => ?_, fun o u hu => ?_⟩
  · rcases update_eq_some.mp hk' with ⟨rfl, hf'⟩ | ⟨-, hold⟩
    · refine ⟨st, by simp, us, hmarks, hf', hnd, fun e he hkey => ?_⟩
      refine (reserved_of_marked he).resolve_right fun hold => ?_
      obtain ⟨k₀, f₀, hk₀, hkey₀⟩ := h.owned _ _ hold
      exact hapart k₀ f₀ hk₀ (hkey₀.symm.trans hkey)
    · obtain ⟨st', hmem, us', hm', hf', hnd', hall⟩ := h.sets k' f' hold
      refine ⟨st', List.mem_append_left _ hmem, us', hm', hf', hnd', fun e he hkey => ?_⟩
      refine hall e ((reserved_of_marked he).resolve_left fun hnew => ?_) hkey
      exact hapart k' f' hold (hkey.symm.trans (reservedForRequestId_of_mem hnew))
  · rcases reserved_of_marked hu with hnew | hold
    · exact ⟨k, fixedBy E us, Function.update_self .., reservedForRequestId_of_mem hnew⟩
    · obtain ⟨k₀, f₀, hk₀, hkey⟩ := h.owned o u hold
      have hne : k₀ ≠ k := fun heq => hapart k₀ f₀ hk₀ (by rw [heq])
      exact ⟨k₀, f₀, by rwa [Function.update_of_ne hne], hkey⟩

/-- A request gives back as many different outputs as it remembers: then it has none left. -/
lemma Covered.release (h : Covered E tr res out) (hk : res k = some f) (hnd : (vs.map Prod.fst).Nodup)
    (hheld : ∀ e ∈ vs, out e.1 = some e.2 ∧ e.2.reservedForRequestId = reservationKeyOf E k)
    (hlen : vs.length = f.reservedCount) (hfewer : Fewer out out')
    (hgone : ∀ e ∈ vs, out' e.1 = none) : Covered E (tr ++ [st]) (Function.update res k none) out' := by
  refine ⟨fun k' f' hk' => ?_, fun o u hu => ?_⟩
  · exact (h.later hfewer).sets k' f' (update_none_eq_some.mp hk').2
  · obtain ⟨k₀, f₀, hk₀, hkey⟩ := h.owned o u (hfewer o u hu)
    have hne : k₀ ≠ k := by
      rintro rfl
      obtain ⟨st', -, us, -, rfl, -, hall⟩ := h.sets _ _ hk
      have hsub : vs ⊆ reserveAll (reservationKeyOf E k₀) us := fun e he =>
        hall e (hheld e he).1 (hheld e he).2
      have hperm : vs.Perm (reserveAll (reservationKeyOf E k₀) us) := by
        refine (List.subperm_of_subset hnd.of_map hsub).perm_of_length_le ?_
        rw [hlen, reserveAll, List.length_map]
        exact le_rfl
      have hmem := hgone (o, u) (hperm.mem_iff.mpr (hall (o, u) (hfewer o u hu) hkey))
      rw [hu] at hmem
      exact absurd hmem (by simp)
    exact ⟨k₀, f₀, by rwa [Function.update_of_ne hne], hkey⟩

end Covered

/-! ### One step -/

lemma Fewer.refl (out : Addr × Outpoint → Option UtxoRecord) : Fewer out out := fun _ _ h => h

lemma Fewer.trans {out out' out'' : Addr × Outpoint → Option UtxoRecord} (h : Fewer out out')
    (h' : Fewer out' out'') : Fewer out out'' := fun o u hu => h o u (h' o u hu)

lemma fewer_gone (out : Addr × Outpoint → Option UtxoRecord) (us : List UtxoEntry) :
    Fewer out (Store.updates out (us.map fun e => (e.1, none))) ∧
      ∀ e ∈ us, Store.updates out (us.map fun e => (e.1, none)) e.1 = none := by
  have hgone : ∀ o ∈ (us.map fun e => (e.1, (none : Option UtxoRecord))).map Prod.fst,
      Store.updates out (us.map fun e => (e.1, none)) o = none := fun o ho => by
    obtain ⟨w, hw, heq⟩ := Store.updates_of_mem (m := out) ho
    obtain ⟨e, -, heo⟩ := List.mem_map.mp hw
    rw [heq, ← (Prod.mk.inj heo).2]
  refine ⟨fun o u hu => ?_, fun e he => hgone e.1 (by simpa using ⟨_, he⟩)⟩
  by_cases ho : o ∈ (us.map fun e => (e.1, (none : Option UtxoRecord))).map Prod.fst
  · rw [hgone o ho] at hu
    exact absurd hu (by simp)
  · rwa [Store.updates_of_notMem ho] at hu

/-- A credited output is not put aside, and what was there is gone. -/
lemma fewer_credit (r : Records) (pool : Addr) (o : Outpoint) (amount : ℕ) (leaf : Option Hash) :
    Fewer r.reserved (r.credit pool o amount leaf).reserved := by
  intro o' u hu
  rw [reserved_eq_some] at hu ⊢
  obtain ⟨hrec, hst⟩ := hu
  change Function.update r.utxos (pool, o) _ o' = some u at hrec
  rcases update_eq_some.mp hrec with ⟨-, rfl⟩ | ⟨-, hold⟩
  · exact absurd hst (by simp [newUtxo])
  · exact ⟨hold, hst⟩

lemma fewer_creditChange (r : Records) (pool : Addr) (change : Option (Outpoint × ℕ))
    (leaf : Option Hash) : Fewer r.reserved (r.creditChange pool change leaf).reserved := by
  cases change with
  | none => exact .refl _
  | some o => exact fewer_credit r pool o.1 o.2 leaf

/-- What a step does to the requests and to what is put aside for them. -/
inductive Handling (E : Env) (s : State) (l : Label) (r' : Records) : Prop
  | quiet
      (requests : ∀ k req, s.records.redemptions k = some req → r'.redemptions k = some req)
      (processing : r'.processing = s.records.processing)
      (outputs : Fewer s.records.reserved r'.reserved)
  | approved {m : Addr} {req req' : RedemptionRequest} {cfg : PoolConfig} {us : List UtxoEntry}
      {tx : RedemptionTx} {fee inputIndex : ℕ}
      (h : Approving E s.records m req req' cfg us tx fee inputIndex)
      (requests : r'.redemptions =
        Function.update s.records.redemptions (req.storeKey m) (some req'))
      (outputs : r'.reserved = s.records.reserved)
  | marked {c c' : Call} {m : Addr} {p : PoolState} {req : RedemptionRequest}
      {us : List UtxoEntry} {slot : ℕ} (call : l = .call c)
      (decoded : c.decode E = some (.MarkProcessing, c')) (h : Marking s.records m p req us)
      (named : Names c' m req 0 3 (byteAt c'.data 0) us)
      (post : r' = s.records.mark E m p req us slot)
  | closed {k : Addr × Addr × ℕ} {req : RedemptionRequest}
      (request : s.records.redemptions k = some req)
      (requests : r'.redemptions = Function.update s.records.redemptions k none)
      (outputs : Fewer s.records.reserved r'.reserved)
      (whole : req.status = .Processing → ∃ us : List UtxoEntry, (us.map Prod.fst).Nodup ∧
        (∀ e ∈ us, s.records.reserved e.1 = some e.2 ∧
          e.2.reservedForRequestId = reservationKeyOf E k) ∧
        us.length = req.reservedCount ∧ ∀ e ∈ us, r'.reserved e.1 = none)

lemma processing_update {k : Addr × Addr × ℕ} {v : Option RedemptionRequest}
    (h : r'.redemptions = Function.update r.redemptions k v) :
    r'.processing = Function.update r.processing k (v.bind RedemptionRequest.fixed) := by
  funext k'
  rw [Records.processing, h]
  rcases eq_or_ne k' k with rfl | hne
  · rw [Function.update_self, Function.update_self]
  · rw [Function.update_of_ne hne, Function.update_of_ne hne, Records.processing]

theorem step_handling (hstep : step E s l = .ok s') : Handling E s l s'.records := by
  have heffect := step_effect hstep
  generalize s'.records = r' at heffect
  have hsame : ∀ {r : Records}, r.redemptions = s.records.redemptions →
      r.utxos = s.records.utxos → Handling E s l r := fun hr hu =>
    .quiet (fun k req h => by rw [hr]; exact h) (by unfold Records.processing; rw [hr])
      fun o u h => by rwa [Records.reserved, hu] at h
  cases heffect with
  | reconfigured h =>
    obtain ⟨m, p, p', -, -, rfl⟩ := h
    exact hsame rfl rfl
  | shielded =>
    unfold Records.shield Records.putTotals
    split_ifs <;> exact hsame rfl rfl
  | unshielded =>
    unfold Records.unshield Records.putTotals
    split_ifs <;> exact hsame rfl rfl
  | transacted decoded planned sound burnable outputs => cases outputs <;> exact hsame rfl rfl
  | @redeemed c c' plan m p tc t t' now decoded planned h =>
    have hidle : ∀ e ∈ plan.entries m p plan.items, s.records.redemptions e.1 = none := by
      intro e he
      obtain ⟨item, hitem, rfl⟩ := List.mem_map.mp he
      exact (h.fresh item hitem).1
    refine .quiet (fun k req hreq => ?_) ?_ (.refl _)
    · have hk : k ∉ (plan.entries m p plan.items).map Prod.fst := fun hk => by
        obtain ⟨e, he, rfl⟩ := List.mem_map.mp hk
        exact absurd hreq (by simp [hidle e he])
      exact (Store.updates_of_notMem hk).trans hreq
    · refine (processing_of_idle fun e he => ?_).trans rfl
      obtain ⟨item, hitem, rfl⟩ := List.mem_map.mp he
      change (s.records.redemptions (plan.requestKey m item)).bind _ = _
      rw [(h.fresh item hitem).1]
      rfl
  | approved decoded digest index h => exact .approved h rfl rfl
  | @deposited c c' i tweaked ix binding m p tc t t' T credit =>
    exact .quiet (fun k req h => h) rfl (fewer_credit s.records _ credit.outpoint _ _)
  | marked decoded h named => exact .marked rfl decoded h named rfl
  | @cancelled c c' m p req tc t t' us commitment now decoded h named =>
    obtain ⟨hfewer, hgone⟩ := fewer_gone s.records.reserved us
    have hout := (cancel_views s.records m p req tc t t' us commitment now).2
    rw [← hout] at hfewer hgone
    refine .closed h.request rfl hfewer fun hst => ?_
    have hlen : us.length = req.reservedCount := by
      rcases h.state with ⟨hpend, -⟩ | ⟨-, hlen⟩
      · rw [hst] at hpend
        exact absurd hpend (by simp)
      · exact hlen
    exact ⟨us, h.held.picked.nodup, h.held.aside, hlen, hgone⟩
  | @completed c c' m p req tc us tx txid leaf T burn revenue now decoded h named =>
    have hchange := fewer_creditChange s.records (.poolState m) c'.changeOutput leaf
    obtain ⟨hfewer, hgone⟩ := fewer_gone
      (s.records.creditChange (.poolState m) c'.changeOutput leaf).reserved us
    have hout := (complete_views s.records m p req tc us txid c'.changeOutput leaf T burn revenue now).2
    rw [← hout] at hfewer hgone
    refine .closed h.request ?_ (hchange.trans hfewer) fun _ =>
      ⟨us, h.held.picked.nodup, fun e he => ?_, h.count, hgone⟩
    · cases c'.changeOutput <;> rfl
    · exact ⟨hchange _ _ (h.held.aside e he).1, (h.held.aside e he).2⟩
  | _ => exact hsame rfl rfl

section Step

variable {tr : List (Step State Label)} {guard : State → Label → Prop}

theorem step_covered (hI : Covered E tr s.records.processing s.records.reserved)
    (hstep : step E s l = .ok s') (hkeys : KeysApart E (markedKeys E (tr ++ [⟨s, l, s'⟩]))) :
    Covered E (tr ++ [⟨s, l, s'⟩]) s'.records.processing s'.records.reserved := by
  have hhandling := step_handling hstep
  generalize hr : s'.records = r' at hhandling
  cases hhandling with
  | quiet requests processing outputs =>
    rw [processing]
    exact hI.later outputs
  | @approved m req req' cfg us tx fee i h requests outputs =>
    obtain ⟨fee', hreq'⟩ := h.approved.same
    have hfixed : req'.fixed = s.records.processing (req.storeKey m) := by
      rw [processing_of_request h.request, hreq']
      rfl
    rw [processing_update requests, outputs, Option.bind_some, hfixed, Function.update_eq_self]
    exact hI.later (.refl _)
  | @marked c c' m p req us slot call decoded h named post =>
    have hmarks : Marks E ⟨s, l, s'⟩ (req.storeKey m) us :=
      ⟨c, c', m, p, req, slot, call, decoded, rfl, h, named, hr.trans post⟩
    have hidle : s.records.processing (req.storeKey m) = none :=
      idle_of_not_processing h.request (by simp [h.pending])
    obtain ⟨hres, hout⟩ := mark_views (E := E) s.records m p req us slot
    rw [post, hres, hout]
    exact hI.mark hkeys hmarks hidle h.reservation.picked.nodup
  | @closed k req request requests outputs whole =>
    rw [processing_update requests, Option.bind_none]
    by_cases hst : req.status = .Processing
    · obtain ⟨us, hnd, hheld, hlen, hgone⟩ := whole hst
      exact hI.release (processing_of_processing request hst) hnd hheld hlen outputs hgone
    · have hidle : s.records.processing k = none := idle_of_not_processing request hst
      rw [Function.update_eq_self_iff.mpr hidle.symm]
      exact hI.later outputs

lemma covered_of_reaches (run : Reaches (step E) guard .genesis tr s)
    (hkeys : KeysApart E (markedKeys E tr)) :
    Covered E tr s.records.processing s.records.reserved := by
  refine run.history (I := fun tr s => KeysApart E (markedKeys E tr) →
    Covered E tr s.records.processing s.records.reserved)
    (fun _ => ⟨fun k f hk => absurd hk (by simp [Records.processing]),
      fun o u hu => absurd hu (by simp [Records.reserved])⟩) ?_ hkeys
  intro tr s l s' _ hI _ hstep hkeys
  exact step_covered (hI hkeys.of_append) hstep hkeys

/-! ### A request that stays -/

/-- What the transaction of a request is made from, its inputs apart. -/
def RedemptionRequest.txTerms (req : RedemptionRequest) : ℕ × ℕ × List UInt8 × ℕ × ℕ × Hash :=
  (req.amountSats, req.serviceFee, req.btcScript, req.totalInputSats, req.reservedCount,
    req.inputsCommitment)

/-- A processing request stays: its terms are the same, its fee once there is one, and nothing
more carries its key. -/
structure Stays (E : Env) (r r' : Records) (k : Addr × Addr × ℕ) (req req' : RedemptionRequest) :
    Prop where
  request : r'.redemptions k = some req'
  processing : req'.status = .Processing
  terms : req'.txTerms = req.txTerms
  pinned : req.approvedInputs ≠ 0 →
    req'.approvedInputs ≠ 0 ∧ req'.approvalMinerFee = req.approvalMinerFee
  outputs : ∀ o u, r'.reserved o = some u → u.reservedForRequestId = reservationKeyOf E k →
    r.reserved o = some u
  config : ∀ a cfg, r.poolConfigs a = some cfg → r'.poolConfigs a = some cfg

lemma Stays.trans {r₁ : Records} {k : Addr × Addr × ℕ} {req req₁ req' : RedemptionRequest}
    (h : Stays E r r₁ k req req₁) (h' : Stays E r₁ r' k req₁ req') : Stays E r r' k req req' where
  request := h'.request
  processing := h'.processing
  terms := h'.terms.trans h.terms
  pinned hany := by
    obtain ⟨hany₁, hfee₁⟩ := h.pinned hany
    obtain ⟨hany', hfee'⟩ := h'.pinned hany₁
    exact ⟨hany', hfee'.trans hfee₁⟩
  outputs o u hu hkey := h.outputs o u (h'.outputs o u hu hkey) hkey
  config a cfg hcfg := h'.config a cfg (h.config a cfg hcfg)

/-- A pool's config is never rewritten. -/
lemma step_config (hstep : step E s l = .ok s') {a : Addr} {cfg : PoolConfig}
    (hcfg : s.records.poolConfigs a = some cfg) : s'.records.poolConfigs a = some cfg := by
  cases hl : l.custody E with
  | none => rwa [((step_effect hstep).configs hl).1]
  | some d =>
    obtain ⟨cfg', -, hnew, hrec⟩ := step_custody hl hstep
    have hne : a ≠ d.pool := fun heq => absurd hcfg (by simp [heq, hnew.fresh])
    rw [hrec]
    exact (Function.update_of_ne hne ..).trans hcfg

/-- An approval sets a bit and pins the fee. -/
lemma approved_stays {m : Addr} {req req' : RedemptionRequest} {cfg : PoolConfig}
    {us : List UtxoEntry} {tx : RedemptionTx} {fee inputIndex : ℕ}
    (h : Approving E r m req req' cfg us tx fee inputIndex) :
    req'.status = .Processing ∧ req'.txTerms = req.txTerms ∧ req'.approvedInputs ≠ 0 ∧
      (req.approvedInputs ≠ 0 → req'.approvalMinerFee = req.approvalMinerFee) := by
  have hbit : req'.approvedInputs.testBit inputIndex = true := (h.approved.testBit _).mpr (.inr rfl)
  have hfee := h.fee
  obtain ⟨fee', hreq'⟩ := h.approved.same
  refine ⟨?_, ?_, fun hzero => ?_, fun hany => ?_⟩
  · rw [hreq']
    exact h.processing
  · rw [hreq']
    rfl
  · rw [hzero, Nat.zero_testBit] at hbit
    exact absurd hbit (by simp)
  · rw [hfee]
    exact h.pinned hany

/-- A step that does not close a processing request leaves it in place. -/
theorem step_stays {k : Addr × Addr × ℕ} {req : RedemptionRequest}
    (hI : Covered E tr s.records.processing s.records.reserved) (hstep : step E s l = .ok s')
    (hkeys : KeysApart E (markedKeys E (tr ++ [⟨s, l, s'⟩])))
    (hreq : s.records.redemptions k = some req) (hst : req.status = .Processing)
    (hopen : s'.records.redemptions k ≠ none) : ∃ req', Stays E s.records s'.records k req req' := by
  have hconfig : ∀ a cfg, s.records.poolConfigs a = some cfg → s'.records.poolConfigs a = some cfg :=
    fun a cfg => step_config hstep
  have hhandling := step_handling hstep
  generalize hr : s'.records = r' at hhandling hopen hconfig ⊢
  have hstill : ∀ {r : Records}, r.redemptions k = some req →
      (∀ o u, r.reserved o = some u → u.reservedForRequestId = reservationKeyOf E k →
        s.records.reserved o = some u) →
      (∀ a cfg, s.records.poolConfigs a = some cfg → r.poolConfigs a = some cfg) →
      Stays E s.records r k req req := fun hreq' hout hcfg =>
    ⟨hreq', hst, rfl, fun hany => ⟨hany, rfl⟩, hout, hcfg⟩
  cases hhandling with
  | quiet requests processing outputs =>
    exact ⟨req, hstill (requests k req hreq) (fun o u hu _ => outputs o u hu) hconfig⟩
  | @approved m req₁ req' cfg us tx fee i h requests outputs =>
    rcases eq_or_ne k (req₁.storeKey m) with rfl | hne
    · obtain rfl := Option.some_inj.mp (h.request.symm.trans hreq)
      obtain ⟨hproc, hterms, hany, hfee⟩ := approved_stays h
      refine ⟨req', ?_, hproc, hterms, fun h => ⟨hany, hfee h⟩, fun o u hu _ => outputs ▸ hu, hconfig⟩
      rw [requests, Function.update_self]
    · refine ⟨req, hstill ?_ (fun o u hu _ => outputs ▸ hu) hconfig⟩
      rw [requests, Function.update_of_ne hne, hreq]
  | @marked c c' m p req₁ us slot call decoded h named post =>
    have hne : k ≠ req₁.storeKey m := by
      rintro rfl
      obtain rfl := Option.some_inj.mp (h.request.symm.trans hreq)
      exact absurd (h.pending.symm.trans hst) (by simp)
    have hmarks : Marks E ⟨s, l, s'⟩ (req₁.storeKey m) us :=
      ⟨c, c', m, p, req₁, slot, call, decoded, rfl, h, named, hr.trans post⟩
    refine ⟨req, hstill ?_ (fun o u hu hkey => ?_) hconfig⟩
    · rw [post]
      exact (Function.update_of_ne hne ..).trans hreq
    · rw [post] at hu
      have hout : (s.records.mark E m p req₁ us slot).reserved = Store.updates s.records.reserved
          (us.map fun e => (e.1, some (e.2.reserve (reservationKeyOf E (req₁.storeKey m))))) :=
        reserved_marked ..
      rw [hout] at hu
      refine (reserved_of_marked hu).resolve_left fun hnew => ?_
      -- both requests were marked, so their keys differ
      have hmem := hI.mem_markedKeys (processing_of_processing hreq hst)
      have hmem' := hmarks.mem_markedKeys (List.mem_append_right tr (List.mem_singleton_self _))
      rw [markedKeys, List.filterMap_append] at hkeys hmem'
      exact hne (hkeys _ (List.mem_append_left _ hmem) _ hmem'
        (hkey.symm.trans (reservedForRequestId_of_mem hnew)))
  | @closed k₁ req₁ request requests outputs whole =>
    have hne : k ≠ k₁ := by
      rintro rfl
      rw [requests, Function.update_self] at hopen
      exact hopen rfl
    refine ⟨req, hstill ?_ (fun o u hu _ => outputs o u hu) hconfig⟩
    rw [requests, Function.update_of_ne hne, hreq]

end Step

end Utxopia.Pool
