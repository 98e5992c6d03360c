import Utxopia.Pool.Origin

/-!
The order of the accounts of an approval.

The outputs of a request are summed and sorted before they are looked at, and outpoints never tie.
-/

namespace Utxopia.Pool

open Utxopia.ByteString Utxopia.Check Utxopia.Run Utxopia.Runtime

variable {E : Env} {s : State} {c c' : Call} {r : Records} {k : Addr × Addr × ℕ}
  {req : RedemptionRequest} {us vs : List UtxoEntry} {infos infos' : List AccountInfo}

/-- The request whose input a call wants approved, and the call as the instruction sees it. -/
def Label.approves (E : Env) : Label → Option ((Addr × Addr × ℕ) × Call)
  | .call c =>
    match c.decode E with
    | some (.ApproveRedemptionSigning, c') => (c'.requestAt 1).map fun k => (k, c')
    | _ => none
  | _ => none

/-- The accounts are those of outputs put aside for the request, each at most once. -/
structure ReservedAccounts (E : Env) (r : Records) (k : Addr × Addr × ℕ)
    (infos : List AccountInfo) : Prop where
  nodup : (infos.map AccountInfo.key).Nodup
  reserved : ∀ info ∈ infos, ∃ e : UtxoEntry, info.key = utxoAddr e ∧ r.utxos e.1 = some e.2 ∧
    e.2.status = .Reserved ∧ e.2.reservedForRequestId = reservationKeyOf E k

/-- The order in which the accounts of a processing request's outputs are given is immaterial. -/
def OrderFree (E : Env) (s : State) : Prop :=
  ∀ k c c₁ req first infos infos' rest, s.records.redemptions k = some req →
    req.status = .Processing → (Label.call c).approves E = some (k, c₁) →
    c.accounts = first ++ (infos ++ rest) → first.length = 12 →
    infos.length = req.reservedCount → ReservedAccounts E s.records k infos → infos.Perm infos' →
    step E s (.call { c with accounts := first ++ (infos' ++ rest) }) = step E s (.call c)

/-! ### The outputs -/

/-- Outputs put aside under a reservation key. -/
def Aside (r : Records) (reservationKey : ℕ) (us : List UtxoEntry) : Prop :=
  ∀ e ∈ us, r.utxos e.1 = some e.2 ∧ e.2.status = .Reserved ∧
    e.2.reservedForRequestId = reservationKey

/-- The record an address is that of. -/
def Records.entryAt (r : Records) : Addr → Option UtxoEntry
  | .utxo pool o => (r.utxos (pool, o)).map fun u => ((pool, o), u)
  | _ => none

lemma entryAt_utxoAddr {e : UtxoEntry} (h : r.utxos e.1 = some e.2) :
    r.entryAt (utxoAddr e) = some e := by
  change (r.utxos e.1).map _ = _
  rw [h]
  rfl

/-- The outputs of the accounts, in their order. -/
lemma ReservedAccounts.entries (h : ReservedAccounts E r k infos) :
    ((infos.map AccountInfo.key).filterMap r.entryAt).map utxoAddr = infos.map AccountInfo.key ∧
      Aside r (reservationKeyOf E k) ((infos.map AccountInfo.key).filterMap r.entryAt) := by
  have hres := h.reserved
  clear h
  induction infos with
  | nil => exact ⟨rfl, by simp [Aside]⟩
  | cons info infos ih =>
    obtain ⟨hkeys, haside⟩ := ih fun i hi => hres i (List.mem_cons_of_mem _ hi)
    obtain ⟨e, hkey, hrec, hheld⟩ := hres info List.mem_cons_self
    rw [List.map_cons, hkey, List.filterMap_cons_some (entryAt_utxoAddr hrec)]
    refine ⟨by rw [List.map_cons, hkeys], fun d hd => ?_⟩
    rcases List.mem_cons.mp hd with rfl | hd
    · exact ⟨hrec, hheld⟩
    · exact haside d hd

lemma ReservedAccounts.perm (h : ReservedAccounts E r k infos) (hperm : infos.Perm infos') :
    ReservedAccounts E r k infos' :=
  ⟨(hperm.map AccountInfo.key).nodup_iff.mp h.nodup,
    fun info hinfo => h.reserved info (hperm.mem_iff.mpr hinfo)⟩

lemma nodup_of_utxoAddr (h : (us.map utxoAddr).Nodup) : (us.map Prod.fst).Nodup := by
  have hkeys : us.map utxoAddr = (us.map Prod.fst).map fun o => .utxo o.1 o.2 := by
    rw [List.map_map]
    rfl
  exact (hkeys ▸ h).of_map

lemma utxo_owned {e : UtxoEntry} (h : s.records.utxos e.1 = some e.2) :
    s.ownerOf E c (utxoAddr e) = .program ∧ s.utxoAt (utxoAddr e) = some e.2 :=
  Account.rec?_eq_some.mp h

/-- What is summed of outputs put aside. -/
lemma gatherReserved_eq {reservationKey : ℕ} (hus : Aside s.records reservationKey us)
    (hkeys : us.map utxoAddr = infos.map AccountInfo.key) {acc : List ReservedInput × ℕ}
    (hacc : acc.2 < 2 ^ 64) : loop (gatherReserved E s c reservationKey) acc infos =
      if acc.2 + (amountsOf us).sum < 2 ^ 64 then
        .ok (acc.1 ++ us.map (fun e => e.2.input), acc.2 + (amountsOf us).sum)
      else .error .ArithmeticOverflow := by
  induction us generalizing acc infos with
  | nil =>
    obtain rfl := List.map_eq_nil_iff.mp hkeys.symm
    simpa [amountsOf] using hacc
  | cons e us ih =>
    obtain ⟨info, infos, rfl⟩ := List.exists_cons_of_length_eq_add_one
      (n := us.length) (by simpa using (congrArg List.length hkeys).symm)
    rw [List.map_cons, List.map_cons, List.cons.injEq] at hkeys
    obtain ⟨hrec, hst, hkey⟩ := hus e List.mem_cons_self
    obtain ⟨hown, hat⟩ := utxo_owned (E := E) (c := c) hrec
    rw [hkeys.1] at hown hat
    have hsum : (amountsOf (e :: us)).sum = e.2.amountSats + (amountsOf us).sum := by
      simp [amountsOf]
    rw [loop, hsum, ← Nat.add_assoc]
    by_cases hlt : acc.2 + e.2.amountSats < 2 ^ 64
    · have hone : gatherReserved E s c reservationKey acc info =
          .ok (acc.1 ++ [e.2.input], acc.2 + e.2.amountSats) := by
        simp only [gatherReserved, bind_eq_ok, validateProgramOwner_ok, exists_unit, orElse_eq_ok,
          require_eq_ok, checkedAdd_eq_ok, pure_eq_ok]
        exact ⟨hown, e.2, hat, hst, hkey, _, ⟨hlt, rfl⟩, rfl⟩
      rw [hone]
      change loop _ (acc.1 ++ [e.2.input], acc.2 + e.2.amountSats) infos = _
      rw [ih (fun d hd => hus d (List.mem_cons_of_mem _ hd)) hkeys.2 hlt, List.append_assoc]
      rfl
    · have hone : gatherReserved E s c reservationKey acc info = .error .ArithmeticOverflow := by
        refine bind_eq_error.mpr (.inr ⟨(), validateProgramOwner_ok.mpr hown, ?_⟩)
        refine bind_eq_error.mpr (.inr ⟨e.2, orElse_eq_ok.mpr hat, ?_⟩)
        refine bind_eq_error.mpr (.inr ⟨(), require_eq_ok.mpr hst, ?_⟩)
        refine bind_eq_error.mpr (.inr ⟨(), require_eq_ok.mpr hkey, ?_⟩)
        refine bind_eq_error.mpr (.inl (bind_eq_error.mpr (.inl ?_)))
        exact require_eq_error.mpr ⟨hlt, rfl⟩
      rw [hone, if_neg (by omega)]
      rfl

/-! ### The instruction -/

/-- The outputs put aside for a processing request tie with no other. -/
lemma canonicalSort_aside {tr : List (Step State Label)} (h : Covered E tr r.processing r.reserved)
    (hreq : r.redemptions k = some req) (hst : req.status = .Processing)
    (haside : Aside r (reservationKeyOf E k) us) (hnd : (us.map Prod.fst).Nodup) (hperm : us.Perm vs) :
    canonicalSort (us.map fun e => e.2.input) = canonicalSort (vs.map fun e => e.2.input) := by
  obtain ⟨us₀, horigin⟩ := h.origin hreq hst
  refine canonicalSort_eq_of_perm (hperm.map _) ?_
  rw [List.map_map]
  refine nodup_outpoints k.1 hnd fun e he => ?_
  obtain ⟨hrec, hres, hkey⟩ := haside e he
  exact horigin.filed_reserved (horigin.held e (reserved_eq_some.mpr ⟨hrec, hres⟩) hkey)

/-- The inputs in their canonical order do not depend on the order of the accounts. -/
lemma reservedInOrder_perm {tr : List (Step State Label)} {first rest : List AccountInfo}
    (h : Covered E tr s.records.processing s.records.reserved)
    (hreq : s.records.redemptions k = some req) (hst : req.status = .Processing)
    (hinfos : ReservedAccounts E s.records k infos) (hperm : infos.Perm infos')
    (hfirst : first.length = 12) (hcount : infos.length = req.reservedCount)
    (hc : c.accounts = first ++ (infos ++ rest)) (hc' : c'.accounts = first ++ (infos' ++ rest)) :
    reservedInOrder E s c' req (reservationKeyOf E k) =
      reservedInOrder E s c req (reservationKeyOf E k) := by
  have htaken : ∀ {d : Call} {is : List AccountInfo}, d.accounts = first ++ (is ++ rest) →
      is.length = req.reservedCount → (d.accounts.drop 12).take req.reservedCount = is := by
    intro d is hd hlen
    rw [hd, ← hfirst, List.drop_left, ← hlen, List.take_left]
  have hlen : c'.accounts.length = c.accounts.length := by
    rw [hc, hc']
    simp [hperm.length_eq]
  obtain ⟨hkeys, haside⟩ := hinfos.entries
  obtain ⟨hkeys', haside'⟩ := (hinfos.perm hperm).entries
  set us := (infos.map AccountInfo.key).filterMap s.records.entryAt with hus
  set vs := (infos'.map AccountInfo.key).filterMap s.records.entryAt with hvs
  have husvs : us.Perm vs := (hperm.map _).filterMap _
  have hsum : (amountsOf vs).sum = (amountsOf us).sum := (husvs.map _).sum_eq.symm
  have hsort := canonicalSort_aside h hreq hst haside (nodup_of_utxoAddr (hkeys ▸ hinfos.nodup)) husvs
  unfold reservedInOrder Call.atLeast
  rw [hlen, htaken hc hcount, htaken hc' (hperm.length_eq ▸ hcount),
    gatherReserved_eq haside hkeys (by decide), gatherReserved_eq haside' hkeys' (by decide), hsum]
  refine bind_congr_ok fun _ _ => ?_
  by_cases hfits : 0 + (amountsOf us).sum < 2 ^ 64
  · rw [if_pos hfits, if_pos hfits]
    change (require _ _ >>= fun _ => _) = require _ _ >>= fun _ => _
    refine bind_congr_ok fun _ _ => ?_
    rw [List.nil_append, List.nil_append, hsort]
  · rw [if_neg hfits, if_neg hfits]

lemma processApproveRedemptionSigning_perm {accounts : List AccountInfo}
    (hlen : accounts.length = c.accounts.length) (hfirst : ∀ i < 12, accounts[i]? = c.accounts[i]?)
    (hord : ∀ req k, s.records.redemptions k = some req → req.status = .Processing →
      c.requestAt 1 = some k →
      reservedInOrder E s { c with accounts := accounts } req (reservationKeyOf E k) =
        reservedInOrder E s c req (reservationKeyOf E k)) :
    processApproveRedemptionSigning E s { c with accounts := accounts } =
      processApproveRedemptionSigning E s c := by
  have haccount : ∀ i < 12, ({ c with accounts := accounts } : Call).account i = c.account i := by
    intro i hi
    rw [Call.account, Call.account, hfirst i hi]
  have hroom : ({ c with accounts := accounts } : Call).atLeast 12 = c.atLeast 12 := by
    rw [Call.atLeast, Call.atLeast, hlen]
  unfold processApproveRedemptionSigning
  rw [hroom, haccount 0 (by decide), haccount 1 (by decide), haccount 2 (by decide),
    haccount 3 (by decide), haccount 4 (by decide), haccount 5 (by decide), haccount 6 (by decide),
    haccount 7 (by decide), haccount 8 (by decide), haccount 9 (by decide), haccount 10 (by decide),
    haccount 11 (by decide)]
  refine bind_congr_ok fun _ _ => bind_congr_ok fun _ _ => bind_congr_ok fun pool hpool =>
    bind_congr_ok fun redemption hredemption => bind_congr_ok fun authority _ => ?_
  iterate 9 refine bind_congr_ok fun _ _ => ?_
  refine bind_congr_ok fun _ _ => bind_congr_ok fun _ _ => bind_congr_ok fun _ hpda => ?_
  refine bind_congr_ok fun _ _ => bind_congr_ok fun _ _ => bind_congr_ok fun p hread =>
    bind_congr_ok fun req hreq => bind_congr_ok fun _ hsignable => bind_congr_ok fun cfg _ =>
    bind_congr_ok fun _ _ => ?_
  have hat := validateRedemptionPda_ok hread hreq hpda
  have hproc : req.status = .Processing := by
    simp only [checkSignable, bind_eq_ok, exists_unit, require_eq_ok] at hsignable
    exact hsignable.2.1
  have hrequest : c.requestAt 1 = some (req.storeKey p.zkbtcMint) := by
    rw [Call.requestAt, account_ok.mp hredemption, Option.map_some, hat.key]
    rfl
  have hreservation : redemptionReservationKey E redemption.key =
      reservationKeyOf E (req.storeKey p.zkbtcMint) := by
    rw [hat.key]
    rfl
  rw [hreservation, hord req (req.storeKey p.zkbtcMint) hat.request hproc hrequest]

/-- Decoding looks at the data only. -/
lemma decode_accounts {i : Instruction} (accounts : List AccountInfo)
    (h : c.decode E = some (i, c')) :
    ({ c with accounts := accounts } : Call).decode E = some (i, { c' with accounts := accounts }) ∧
      c'.accounts = c.accounts := by
  unfold Call.decode at h ⊢
  split_ifs at h ⊢
  · obtain ⟨rfl, rfl⟩ := Prod.mk.inj (Option.some_inj.mp h)
    exact ⟨rfl, rfl⟩
  · cases hdata : c.data with
    | nil =>
      rw [hdata] at h
      exact absurd h (by simp)
    | cons b rest =>
      rw [hdata] at h
      obtain ⟨i', hi, heq⟩ := Option.map_eq_some_iff.mp h
      obtain ⟨rfl, rfl⟩ := Prod.mk.inj heq
      exact ⟨by simp [hi], rfl⟩

/-- **The order of the accounts is immaterial** in every state that a run reaches. -/
theorem Covered.orderFree {tr : List (Step State Label)}
    (h : Covered E tr s.records.processing s.records.reserved) : OrderFree E s := by
  intro k c c₁ req first infos infos' rest hreq hst hcall hc hfirst hcount hinfos hperm
  simp only [Label.approves] at hcall
  split at hcall
  · rename_i c' hd
    obtain ⟨hd', hc'⟩ := decode_accounts (first ++ (infos' ++ rest)) hd
    obtain ⟨k', hk', heq⟩ := Option.map_eq_some_iff.mp hcall
    obtain ⟨rfl, rfl⟩ := Prod.mk.inj heq
    have hall : (first ++ (infos' ++ rest)).Perm c.accounts := by
      rw [hc]
      exact (hperm.symm.append_right rest).append_left first
    have hsigned : ({ c with accounts := first ++ (infos' ++ rest) } : Call).signedByKeys =
        c.signedByKeys := by
      simp only [Call.signedByKeys]
      exact hall.all_eq
    simp only [step, hsigned, processInstruction, hd, hd']
    refine bind_congr_ok fun _ _ => ?_
    refine processApproveRedemptionSigning_perm (hc' ▸ hall.length_eq) (fun i hi => ?_)
      fun req' k' hreq' hst' hk => ?_
    · rw [hc', hc, List.getElem?_append_left (by omega), List.getElem?_append_left (by omega)]
    · obtain rfl := Option.some_inj.mp (hk'.symm.trans hk)
      obtain rfl := Option.some_inj.mp (hreq.symm.trans hreq')
      exact reservedInOrder_perm h hreq hst hinfos hperm hfirst hcount (hc'.trans hc) rfl
  · exact absurd hcall (by simp)

end Utxopia.Pool
