import Utxopia.Pool.Reordered
import Utxopia.Pool.Signing

/-!
One transaction for a request.

An approval rebuilds the transaction from the accounts it is given and the fee it is told. The
canonical order makes the order of the accounts immaterial, the commitment leaves no choice of
accounts, and the first approval pins the fee. What is approved until the request is closed are
therefore inputs of one transaction.
-/

namespace Utxopia.Pool

open Utxopia.ByteString Utxopia.Check Utxopia.Run Utxopia.Runtime

variable {E : Env} {s s' : State} {c : Call} {l : Label} {r r' : Records} {k : Addr × Addr × ℕ}
  {req : RedemptionRequest} {us us₀ : List UtxoEntry} {tr before : List (Step State Label)}
  {guard : State → Label → Prop}

/-- The accounts an approval takes for the request's outputs are those of the outputs put aside for
it, all that a marking of the request put aside, each once. -/
def WholeSet (E : Env) (tr : List (Step State Label)) (st : Step State Label) : Prop :=
  ∀ k c, st.call.approves E = some (k, c) → ∃ req us,
    st.pre.records.redemptions k = some req ∧ req.status = .Processing ∧
      c.keysFrom 12 req.reservedCount = us.map utxoAddr ∧ us.length = req.reservedCount ∧
      Holds st.pre.records (reservationKeyOf E k) us ∧
      ∃ mark ∈ tr, ∃ us₀, Marks E mark k us₀ ∧ us.Perm (reserveAll (reservationKeyOf E k) us₀)

/-- A step approved the digest of an input of this transaction for the request. -/
structure ApprovedFor (E : Env) (st : Step State Label) (k : Addr × Addr × ℕ) (tx : RedemptionTx)
    (fee inputIndex : ℕ) : Prop where
  built : ∃ m req req' cfg us, k = req.storeKey m ∧
    Approving E st.pre.records m req req' cfg us tx fee inputIndex
  digests : st.post.records.approvedDigests =
    st.pre.records.approvedDigests ++ [tx.digest E inputIndex]

/-- Any two approvals for a request that is not closed in between are for one transaction. -/
def OneTx (E : Env) (tr : List (Step State Label)) : Prop :=
  ∀ before st between st' after k c c', tr = before ++ st :: (between ++ st' :: after) →
    st.call.approves E = some (k, c) → st'.call.approves E = some (k, c') →
    (∀ mid ∈ between, mid.post.records.redemptions k ≠ none) →
    ∃ tx fee i i', ApprovedFor E st k tx fee i ∧ ApprovedFor E st' k tx fee i'

/-- The outputs that a call names. -/
def Records.named (r : Records) (c : Call) (start n : ℕ) : List UtxoEntry :=
  (c.keysFrom start n).filterMap r.entryAt

/-- The inputs a call hashes: to fix them, or to compare them with what was fixed. -/
def Label.hashed (E : Env) (r : Records) : Label → Option (List ReservedInput)
  | .call c =>
    match c.decode E with
    | some (.MarkProcessing, c') =>
      some ((r.named c' 3 (byteAt c'.data 0)).map fun e => e.2.plainInput)
    | some (.ApproveRedemptionSigning, c') => ((c'.requestAt 1).bind r.redemptions).map fun req =>
      (r.named c' 12 req.reservedCount).map fun e => e.2.input
    | _ => none
  | _ => none

/-- The bytes hashed for the inputs of the requests of a run. -/
def hashedMessages (E : Env) (tr : List (Step State Label)) : List (List UInt8) :=
  tr.filterMap fun st => (st.call.hashed E st.pre.records).map fun inputs =>
    commitmentMessage (canonicalSort inputs)

lemma named_eq {start n : ℕ} (hkeys : us.map utxoAddr = c.keysFrom start n)
    (hus : ∀ e ∈ us, r.utxos e.1 = some e.2) : r.named c start n = us := by
  rw [Records.named, ← hkeys, List.filterMap_map]
  refine (List.filterMap_congr fun e he => ?_).trans List.filterMap_some
  exact entryAt_utxoAddr (hus e he)

lemma Marks.mem_hashedMessages {st : Step State Label} (h : Marks E st k us) (hst : st ∈ tr) :
    commitmentMessage (canonicalSort (us.map fun e => e.2.plainInput)) ∈ hashedMessages E tr := by
  obtain ⟨c, c', m, p, req, slot, hcall, hd, rfl, hmarking, hnamed, -⟩ := h
  refine List.mem_filterMap.mpr ⟨st, hst, ?_⟩
  rw [hcall]
  simp only [Label.hashed, hd]
  rw [named_eq hnamed.outputs hmarking.reservation.picked.recorded]
  rfl

/-! ### An approval -/

/-- A call that was let approve an input of a request's transaction. -/
structure Approval (E : Env) (r r' : Records) (c : Call) (k : Addr × Addr × ℕ)
    (req req' : RedemptionRequest) (cfg : PoolConfig) (us : List UtxoEntry) (tx : RedemptionTx)
    (fee inputIndex : ℕ) : Prop where
  approving : ∃ m, k = req.storeKey m ∧ Approving E r m req req' cfg us tx fee inputIndex ∧
    Names c m req 0 12 req.reservedCount us
  post : r' = (r.updateRedemptions [(k, some req')]).approve (tx.digest E inputIndex)

lemma step_approval (hstep : step E s l = .ok s') (hcall : l.approves E = some (k, c)) :
    ∃ req req' cfg us tx fee i, Approval E s.records s'.records c k req req' cfg us tx fee i := by
  cases l with
  | call d =>
    simp only [Label.approves] at hcall
    split at hcall
    · rename_i c' hd
      obtain ⟨k', hk', heq⟩ := Option.map_eq_some_iff.mp hcall
      obtain ⟨rfl, rfl⟩ := Prod.mk.inj heq
      simp only [step, bind_eq_ok, exists_unit, require_eq_ok, processInstruction, hd] at hstep
      obtain ⟨m, req, req', cfg, us, tx, fee, i, happ, hnamed, -, -, hrec⟩ :=
        processApproveRedemptionSigning_named hstep.2
      obtain rfl := Option.some_inj.mp (hk'.symm.trans hnamed.requestAt)
      exact ⟨req, req', cfg, us, tx, fee, i, ⟨m, rfl, happ, hnamed⟩, hrec⟩
    · exact absurd hcall (by simp)
  | _ => exact absurd hcall (by simp [Label.approves])

section Approval

variable {req' : RedemptionRequest} {cfg : PoolConfig} {tx : RedemptionTx} {fee i : ℕ}

lemma Approval.request (h : Approval E r r' c k req req' cfg us tx fee i) :
    r.redemptions k = some req := by
  obtain ⟨m, rfl, happ, -⟩ := h.approving
  exact happ.request

lemma Approval.processing (h : Approval E r r' c k req req' cfg us tx fee i) :
    req.status = .Processing := by
  obtain ⟨m, rfl, happ, -⟩ := h.approving
  exact happ.processing

lemma Approval.aside (h : Approval E r r' c k req req' cfg us tx fee i) :
    Aside r (reservationKeyOf E k) us := by
  obtain ⟨m, rfl, happ, -⟩ := h.approving
  exact happ.reserved

lemma Approval.post_request (h : Approval E r r' c k req req' cfg us tx fee i) :
    r'.redemptions k = some req' := by
  rw [h.post]
  exact Function.update_self ..

/-- The amounts of the inputs fit their fields. -/
lemma Approval.fits (h : Approval E r r' c k req req' cfg us tx fee i) (hfiled : Filed r) :
    ∀ e ∈ us, e.2.input.Fits := by
  obtain ⟨m, rfl, happ, -⟩ := h.approving
  intro e he
  have hamount : e.2.amountSats ≤ (amountsOf us).sum :=
    List.single_le_sum (fun _ _ => Nat.zero_le _) _ (List.mem_map_of_mem he)
  rw [happ.total] at hamount
  exact ⟨(hfiled _ _ (happ.reserved e he).1).2, hamount.trans_lt happ.bounded⟩

lemma Approval.mem_hashedMessages {st : Step State Label}
    (h : Approval E st.pre.records r' c k req req' cfg us tx fee i)
    (hcall : st.call.approves E = some (k, c)) (hst : st ∈ tr) :
    commitmentMessage (canonicalSort (us.map fun e => e.2.input)) ∈ hashedMessages E tr := by
  refine List.mem_filterMap.mpr ⟨st, hst, ?_⟩
  have hreq := h.request
  obtain ⟨m, -, happ, hnamed⟩ := h.approving
  cases hl : st.call with
  | call d =>
    rw [hl] at hcall
    simp only [Label.approves] at hcall
    split at hcall
    · rename_i c' hd
      obtain ⟨k', hk', heq⟩ := Option.map_eq_some_iff.mp hcall
      obtain ⟨rfl, rfl⟩ := Prod.mk.inj heq
      simp only [Label.hashed, hd, hk', Option.bind_some, hreq, Option.map_some]
      rw [named_eq hnamed.outputs fun e he => (happ.reserved e he).1]
    · exact absurd hcall (by simp)
  | _ => exact absurd (hl ▸ hcall) (by simp [Label.approves])

end Approval

/-! ### The set -/

lemma Stays.refl (hreq : r.redemptions k = some req) (hst : req.status = .Processing) :
    Stays E r r k req req :=
  ⟨hreq, hst, rfl, fun hany => ⟨hany, rfl⟩, fun _ _ hu _ => hu, fun _ _ hcfg => hcfg⟩

lemma filed_pre {st : Step State Label} (run : Reaches (step E) guard .genesis tr s) (hst : st ∈ tr) :
    Filed st.pre.records := by
  obtain ⟨tr', hpre⟩ := run.reaches_pre hst
  exact filed_of_reaches hpre

/-- Whatever is approved for a request that stays is for all that was put aside for it. -/
lemma Origin.whole {st : Step State Label} {req₁ req' : RedemptionRequest} {cfg : PoolConfig}
    {tx : RedemptionTx} {fee i : ℕ} (h : Origin E before r k req us₀)
    (run : Reaches (step E) guard .genesis tr s) (hsha : ShaApart E (hashedMessages E tr))
    (hbefore : ∀ st ∈ before, st ∈ tr) (hst : st ∈ tr) (hcall : st.call.approves E = some (k, c))
    (happroval : Approval E st.pre.records r' c k req₁ req' cfg us tx fee i)
    (hstays : Stays E r st.pre.records k req req₁) :
    us.Perm (reserveAll (reservationKeyOf E k) us₀) := by
  obtain ⟨m, hk, happ, hnamed⟩ := happroval.approving
  obtain ⟨mark, hmark, hmarks⟩ := h.marked
  have hterms := hstays.terms
  simp only [RedemptionRequest.txTerms, Prod.mk.injEq] at hterms
  obtain ⟨-, -, -, htotal, -, hcommit⟩ := hterms
  refine h.perm hsha (fun e he => ?_) (happ.commitment.trans hcommit) ?_ ?_
    (happroval.fits (filed_pre run hst)) fun e he => ⟨?_, ?_⟩
  · obtain ⟨hrec, hres, hkey⟩ := happroval.aside e he
    exact h.held e (hstays.outputs _ _ (reserved_eq_some.mpr ⟨hrec, hres⟩) hkey) hkey
  · exact happroval.mem_hashedMessages hcall hst
  · exact hmarks.mem_hashedMessages (hbefore mark hmark)
  · obtain ⟨_, _, _, _, _, _, -, -, -, hmarking, -⟩ := hmarks
    exact (filed_pre run (hbefore mark hmark) _ _ (hmarking.reservation.picked.recorded e he)).2
  · have hamount : e.2.amountSats ≤ (amountsOf us₀).sum :=
      List.single_le_sum (fun _ _ => Nat.zero_le _) _ (List.mem_map_of_mem he)
    rw [← h.total, ← htotal] at hamount
    exact hamount.trans_lt happ.bounded

lemma wholeSet_of_reaches (run : Reaches (step E) guard .genesis tr s)
    (hkeys : KeysApart E (markedKeys E tr)) (hsha : ShaApart E (hashedMessages E tr)) :
    ∀ st ∈ tr, WholeSet E tr st := by
  intro st hst k c hcall
  obtain ⟨before, after, htr⟩ := List.append_of_mem hst
  obtain ⟨hrun, hstep⟩ := run.split htr
  have hbefore : ∀ mid ∈ before, mid ∈ tr := fun mid hmid => htr ▸ List.mem_append_left _ hmid
  obtain ⟨req, req', cfg, us, tx, fee, i, happroval⟩ := step_approval hstep hcall
  obtain ⟨us₀, horigin⟩ := (covered_of_reaches hrun (KeysApart.of_append (htr ▸ hkeys))).origin
    happroval.request happroval.processing
  have hperm := horigin.whole run hsha hbefore hst hcall happroval
    (.refl happroval.request happroval.processing)
  obtain ⟨m, hk, happ, hnamed⟩ := happroval.approving
  obtain ⟨mark, hmark, hmarks⟩ := horigin.marked
  refine ⟨req, us, happroval.request, happroval.processing, hnamed.outputs.symm, happ.count,
    ⟨?_, fun e => ⟨happroval.aside e, fun he => ?_⟩⟩, mark, hbefore mark hmark, us₀, hmarks, hperm⟩
  · rw [(hperm.map Prod.fst).nodup_iff, reserveAll_keys]
    exact horigin.nodup
  · exact hperm.mem_iff.mpr (horigin.held e (reserved_eq_some.mpr ⟨he.1, he.2.1⟩) he.2.2)

/-! ### The transaction -/

/-- A request that is not closed along a run stays. -/
lemma stays_along {s₁ : State} {between : List (Step State Label)}
    (run : Reaches (step E) guard .genesis before s₁) (run' : Reaches (step E) guard s₁ between s)
    (hkeys : KeysApart E (markedKeys E (before ++ between)))
    (hreq : s₁.records.redemptions k = some req) (hst : req.status = .Processing)
    (hopen : ∀ mid ∈ between, mid.post.records.redemptions k ≠ none) :
    ∃ req', Stays E s₁.records s.records k req req' := by
  refine run'.history (I := fun tr s => KeysApart E (markedKeys E (before ++ tr)) →
    (∀ mid ∈ tr, mid.post.records.redemptions k ≠ none) →
    ∃ req', Stays E s₁.records s.records k req req') (fun _ _ => ⟨req, .refl hreq hst⟩) ?_ hkeys hopen
  intro tr s l s' hrun hI _ hstep hkeys hopen
  rw [← List.append_assoc] at hkeys
  obtain ⟨req₁, hstays⟩ := hI hkeys.of_append fun mid hmid => hopen mid (List.mem_append_left _ hmid)
  obtain ⟨req', hstays'⟩ := step_stays (covered_of_reaches (run.trans hrun) hkeys.of_append) hstep
    hkeys hstays.request hstays.processing
    (hopen _ (List.mem_append_right _ (List.mem_singleton_self _)))
  exact ⟨req', hstays.trans hstays'⟩

/-- The transaction is made from the terms of the request. -/
lemma redemptionTx_congr {req' : RedemptionRequest} (h : req'.txTerms = req.txTerms)
    (cfg : PoolConfig) (ordered : List ReservedInput) (fee : ℕ) :
    redemptionTx E cfg req' ordered fee = redemptionTx E cfg req ordered fee := by
  simp only [RedemptionRequest.txTerms, Prod.mk.injEq] at h
  obtain ⟨hamount, hservice, hscript, htotal, -, -⟩ := h
  unfold redemptionTx
  rw [hamount, hservice, hscript, htotal]

lemma oneTx_of_reaches (run : Reaches (step E) (fun _ _ => True) .genesis tr s)
    (hkeys : KeysApart E (markedKeys E tr)) (hsha : ShaApart E (hashedMessages E tr)) : OneTx E tr := by
  intro before st between st' after k c c' htr hcall hcall' hopen
  have hmem : st ∈ tr := by simp [htr]
  have hmem' : st' ∈ tr := by simp [htr]
  have hbefore : ∀ mid ∈ before, mid ∈ tr := fun mid hmid => htr ▸ List.mem_append_left _ hmid
  obtain ⟨hrun, hstep⟩ := run.split htr
  obtain ⟨hbetween, hstep'⟩ := (run.after htr).split rfl
  obtain ⟨req, req', cfg, us, tx, fee, i, happroval⟩ := step_approval hstep hcall
  obtain ⟨req₁, req₁', cfg₁, us₁, tx₁, fee₁, i₁, happroval₁⟩ := step_approval hstep' hcall'
  have hpost : Reaches (step E) (fun _ _ => True) .genesis (before ++ [st]) st.post :=
    .call hrun trivial hstep
  have htr' : tr = before ++ [st] ++ (between ++ st' :: after) := by
    rw [htr, List.append_assoc, List.singleton_append]
  have hkeys₁ : KeysApart E (markedKeys E (before ++ [st] ++ between)) := by
    rw [htr', ← List.append_assoc] at hkeys
    exact hkeys.of_append
  have hcovered := covered_of_reaches hrun hkeys₁.of_append.of_append
  -- the request stays from one approval to the other
  obtain ⟨req₂, hstays⟩ := step_stays hcovered hstep hkeys₁.of_append happroval.request
    happroval.processing (by rw [happroval.post_request]; exact Option.some_ne_none _)
  obtain rfl : req₂ = req' := Option.some_inj.mp (hstays.request.symm.trans happroval.post_request)
  obtain ⟨req₃, hlater⟩ := stays_along hpost hbetween hkeys₁ hstays.request hstays.processing hopen
  obtain rfl : req₃ = req₁ := Option.some_inj.mp (hlater.request.symm.trans happroval₁.request)
  -- so both take all that was put aside for it
  obtain ⟨us₀, horigin⟩ := hcovered.origin happroval.request happroval.processing
  have hperm := horigin.whole run hsha hbefore hmem hcall happroval
    (.refl happroval.request happroval.processing)
  have hperm₁ := horigin.whole run hsha hbefore hmem' hcall' happroval₁ (hstays.trans hlater)
  have hsort := canonicalSort_aside hcovered happroval.request happroval.processing happroval.aside
    ((hperm.map Prod.fst).nodup_iff.mpr (by rw [reserveAll_keys]; exact horigin.nodup))
    (hperm.trans hperm₁.symm)
  obtain ⟨m, hk, happ, hnamed⟩ := happroval.approving
  obtain ⟨m₁, hk₁, happ₁, hnamed₁⟩ := happroval₁.approving
  -- at the fee of the first
  obtain ⟨-, -, hany, -⟩ := approved_stays happ
  obtain ⟨hany₁, hfee₁⟩ := hlater.pinned hany
  have hfee : fee₁ = fee := (happ₁.pinned hany₁).trans (hfee₁.trans happ.fee)
  have hm : Addr.poolState m = .poolState m₁ := congrArg Prod.fst (hk.symm.trans hk₁)
  have hcfg : cfg₁ = cfg := by
    have hcfg₁ := (hstays.trans hlater).config _ _ happ.config
    rw [hm, happ₁.config] at hcfg₁
    exact Option.some_inj.mp hcfg₁
  have htx := happ₁.tx
  rw [← hsort, redemptionTx_congr (hstays.trans hlater).terms, hfee, hcfg, happ.tx,
    Except.ok.injEq] at htx
  subst htx hfee
  refine ⟨tx, fee₁, i, i₁, ⟨⟨m, req, _, cfg, us, hk, happ⟩, ?_⟩,
    ⟨m₁, _, req₁', cfg₁, us₁, hk₁, happ₁⟩, ?_⟩
  · rw [happroval.post]
    rfl
  · rw [happroval₁.post]
    rfl

/-- **One transaction for a request**: as long as no reservation keys and no commitments collide,
an approval takes the accounts of all that was put aside for the request and nothing else, in any
order, and all approvals until the request is closed are for inputs of one transaction. -/
theorem one_transaction (run : Reaches (step E) (fun _ _ => True) .genesis tr s)
    (hkeys : KeysApart E (markedKeys E tr)) (hsha : ShaApart E (hashedMessages E tr)) :
    OrderFree E s ∧ (∀ st ∈ tr, WholeSet E tr st) ∧ OneTx E tr :=
  ⟨(covered_of_reaches run hkeys).orderFree, wholeSet_of_reaches run hkeys hsha,
    oneTx_of_reaches run hkeys hsha⟩

/-! ### Runs -/

/-- The accounts after the first twelve are those of what is put aside for the request. -/
def OnlyReserved (E : Env) (st : Step State Label) : Prop :=
  ∀ k c, st.call.approves E = some (k, c) → ∃ us, Holds st.pre.records (reservationKeyOf E k) us ∧
    ((c.accounts.drop 12).map AccountInfo.key).Perm (us.map utxoAddr)

/-- A call has an account after the first twelve that is of nothing put aside. -/
def hasOther (E : Env) (st : Step State Label) : Bool :=
  (st.call.approves E).any fun call =>
    ((call.2.accounts.drop 12).map AccountInfo.key).any fun a =>
      (st.pre.records.entryAt a).all fun e => e.2.status ≠ .Reserved

lemma not_onlyReserved {st : Step State Label} (h : hasOther E st = true) : ¬ OnlyReserved E st := by
  obtain ⟨⟨k, c⟩, hcall, h⟩ := (Option.any_eq_true _ _).mp h
  obtain ⟨a, ha, hother⟩ := List.any_eq_true.mp h
  intro honly
  obtain ⟨us, hus, hperm⟩ := honly k c hcall
  obtain ⟨e, he, rfl⟩ := List.mem_map.mp (hperm.mem_iff.mp ha)
  obtain ⟨hrec, hst, -⟩ := (hus.mem_iff e).mp he
  rw [entryAt_utxoAddr hrec, Option.all_some, decide_eq_true_eq] at hother
  exact hother hst

namespace Regtest

/-- The accounts of the outputs, last first. -/
def lastFirst : Label → Label
  | .call c => .call { c with accounts := c.accounts.take 12 ++ (c.accounts.drop 12).reverse }
  | l => l

/-- One more account. -/
def withExtra (a : Addr) : Label → Label
  | .call c => .call { c with accounts := c.accounts ++ [writable a] }
  | l => l

/-- Both inputs of a request are approved, with the accounts in both orders. -/
def approvedTwice : List Label :=
  twoDeposited ++ halfSigned 7 0 0 ++ [lastFirst (approve 7 bothRedeemed 1000 1)]

def oneRedeemed : RedemptionTx :=
  redemptionOf [(outputOf 1 60000, 60000)] [⟨48000, recipientScript⟩, ⟨11000, poolScript⟩]

/-- A request for one output is approved with the account of another one at the end. -/
def approvedWithExtra : List Label :=
  twoDeposited ++ [redeem 0 (zeroHash treeDepth) (note 7) recipientScript 50000 7,
    markProcessing 7 [outputOf 1 60000] 0,
    withExtra (.utxo pool (outputOf 2 50000)) (approve 7 oneRedeemed 1000 0)]

/-- Nothing collides in a run. -/
def collisionFree (tr : List (Step State Label)) : Bool :=
  KeysApart env (markedKeys env tr) && ShaApart env (hashedMessages env tr)

lemma trace_approvedTwice : ((trace (step env) (fun _ _ => true) .genesis approvedTwice).any
    collisionFree) = true := by
  decide +kernel

lemma trace_approvedWithExtra :
    ((trace (step env) (fun _ _ => true) .genesis approvedWithExtra).any fun tr =>
      collisionFree tr && tr.any (hasOther env)) = true := by
  decide +kernel

end Regtest

open Regtest in
/-- Two approvals of one request, the accounts of the second in another order. -/
theorem one_transaction_approvedTwice : ∃ (tr : List (Step State Label)) (s : State),
    tr.map Step.call = approvedTwice ∧ OrderFree env s ∧ (∀ st ∈ tr, WholeSet env tr st) ∧
      OneTx env tr := by
  obtain ⟨tr, htr, hfree⟩ := (Option.any_eq_true _ _).mp trace_approvedTwice
  obtain ⟨hcalls, hrun⟩ := reaches_of_trace (fun _ _ _ => trivial) htr
  rw [collisionFree, Bool.and_eq_true, decide_eq_true_eq, decide_eq_true_eq] at hfree
  exact ⟨tr, _, hcalls, one_transaction hrun hfree.1 hfree.2⟩

open Regtest in
/-- **One account too many**: an approval goes through with the account of an output that is not
put aside, after those of the request. -/
theorem extra_account_approved : ∃ (tr : List (Step State Label)) (s : State),
    Reaches (step env) (fun _ _ => True) .genesis tr s ∧ KeysApart env (markedKeys env tr) ∧
      ShaApart env (hashedMessages env tr) ∧ ∃ st ∈ tr, ¬ OnlyReserved env st := by
  obtain ⟨tr, htr, hextra⟩ := (Option.any_eq_true _ _).mp trace_approvedWithExtra
  obtain ⟨-, hrun⟩ := reaches_of_trace (fun _ _ _ => trivial) htr
  rw [collisionFree, Bool.and_eq_true, Bool.and_eq_true, decide_eq_true_eq,
    decide_eq_true_eq] at hextra
  obtain ⟨⟨hkeys, hsha⟩, hany⟩ := hextra
  obtain ⟨st, hst, hother⟩ := List.any_eq_true.mp hany
  exact ⟨tr, _, hrun, hkeys, hsha, st, hst, not_onlyReserved hother⟩

end Utxopia.Pool
