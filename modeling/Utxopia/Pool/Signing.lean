import Utxopia.Pool.Completable
import Utxopia.Pool.Reservations

/-!
Taking back a request whose transaction can be signed.

An approval of the network is for good. A request remembers only which of its own inputs were
approved, and this ends with the request. The next request for the same outputs, script and
amount has the same transaction and begins with no input approved.
-/

namespace Utxopia.Pool

open Utxopia.ByteString Utxopia.Check Utxopia.Run Utxopia.Runtime

variable {E : Env} {s s' : State} {l : Label} {r r' : Records} {m : Addr}
  {req req' : RedemptionRequest}

/-- The transaction of a request at a miner fee, rebuilt from the outputs put aside for it. -/
structure Rebuilds (E : Env) (r : Records) (m : Addr) (req : RedemptionRequest) (cfg : PoolConfig)
    (us : List UtxoEntry) (minerFeeSats : ℕ) (tx : RedemptionTx) : Prop where
  config : r.poolConfigs (.poolState m) = some cfg
  count : us.length = req.reservedCount
  reserved : ∀ e ∈ us, r.utxos e.1 = some e.2 ∧ e.2.status = .Reserved ∧
    e.2.reservedForRequestId = reservationKeyOf E (req.storeKey m)
  total : (amountsOf us).sum = req.totalInputSats
  commitment : inputsCommitment E (canonicalSort (us.map fun e => e.2.input)) = req.inputsCommitment
  tx : redemptionTx E cfg req (canonicalSort (us.map fun e => e.2.input)) minerFeeSats = .ok tx

/-- At some miner fee every input of the transaction was approved. -/
def Signable (E : Env) (r : Records) (m : Addr) (req : RedemptionRequest) : Prop :=
  ∃ cfg us fee tx, Rebuilds E r m req cfg us fee tx ∧
    ∀ i < req.reservedCount, tx.digest E i ∈ r.approvedDigests

/-- The request a call takes back. -/
def Label.takenBack (E : Env) : Label → Option (Addr × Addr × ℕ)
  | .call c =>
    match c.decode E with
    | some (.CancelRedemption, c') => c'.requestAt 2
    | _ => none
  | _ => none

/-- A call takes back a processing request of a pool. -/
structure TakesBack (E : Env) (r : Records) (l : Label) (m : Addr) (req : RedemptionRequest) :
    Prop where
  call : l.takenBack E = some (req.storeKey m)
  request : r.redemptions (req.storeKey m) = some req
  processing : req.status = .Processing

/-- What is taken back cannot be signed. -/
def SafeCancel (E : Env) (st : Step State Label) : Prop :=
  ∀ m req, TakesBack E st.pre.records st.call m req → ¬ Signable E st.pre.records m req

/-- Whoever takes back a request finds no input approved but by this request: nothing is left from
an earlier one. -/
def OwnApprovals (E : Env) (s : State) (l : Label) : Prop :=
  ∀ m req, TakesBack E s.records l m req →
    ∀ cfg us fee tx, Rebuilds E s.records m req cfg us fee tx →
      ∀ i < req.reservedCount, tx.digest E i ∈ s.records.approvedDigests →
        req.approvedInputs.testBit i = true

/-! ### The bits of a request -/

/-- A processing request has some inputs, as many as there are bits, and is signed once every
input is approved. -/
structure RedemptionRequest.Counted (req : RedemptionRequest) : Prop where
  some : req.reservedCount ≠ 0
  few : req.reservedCount ≤ 32
  signed : req.allInputsSigningApproved = true → req.signingApproved = true

def AllCounted (r : Records) : Prop :=
  ∀ k req, r.redemptions k = some req → req.status = .Processing → req.Counted

lemma RedemptionRequest.Counted.approve {i : ℕ} (h : req.Counted) (happ : req.Approved req' i) :
    req'.Counted := by
  have hsigned := happ.signed
  obtain ⟨fee, hreq⟩ := happ.same
  refine ⟨?_, ?_, fun hall => ?_⟩
  · rw [hreq]
    exact h.some
  · rw [hreq]
    exact h.few
  · rw [hsigned, hall, Bool.or_true]

/-- A request that begins to be processed has no input approved. -/
lemma counted_process {slot : ℕ} {us : List UtxoEntry} (hnone : req.approvedInputs = 0)
    (hne : us ≠ []) (hfew : us.length ≤ maxUtxosPerMark) : (req.process E slot us).Counted := by
  refine ⟨?_, hfew.trans (by decide), fun hall => ?_⟩
  · exact fun hzero => hne (List.length_eq_zero_iff.mp hzero)
  · have hsome : (req.process E slot us).approvedInputs ≠ 0 := approvedInputs_ne_zero hall
    exact absurd hnone hsome

/-- A marking names at most as many outputs as are allowed. -/
lemma mark_bounded {c : Call} (h : processMarkProcessing E c s = .ok s') :
    byteAt c.data 0 ≤ maxUtxosPerMark := by
  simp only [processMarkProcessing, bind_eq_ok, exists_unit, require_eq_ok] at h
  obtain ⟨-, pool, -, redemption, -, authority, -, -, -, -, -, -, p, -, -, req, -, -, -, -, -, hle, -⟩ := h
  exact hle

lemma Names.length_le {c : Call} {i start n : ℕ} {us : List UtxoEntry}
    (h : Names c m req i start n us) : us.length ≤ n := by
  have := congrArg List.length h.outputs
  rw [List.length_map, Call.keysFrom, List.length_map, List.length_take] at this
  omega

/-- Every effect keeps the processing requests counted. -/
lemma Effect.allCounted (h : Effect E s l r') (hI : AllCounted s.records)
    (hadm : ∀ k req, s.records.redemptions k = some req → Admitted req)
    (hfew : ∀ c c', l = .call c → c.decode E = some (.MarkProcessing, c') →
      byteAt c'.data 0 ≤ maxUtxosPerMark) : AllCounted r' := by
  have hclosed : ∀ {k : Addr × Addr × ℕ}, ∀ k' req, Store.updates s.records.redemptions
      [(k, none)] k' = some req → req.status = .Processing → req.Counted :=
    Store.forall_updates _ hI (by simp)
  cases h with
  | reconfigured h =>
    obtain ⟨m, p, p', -, -, rfl⟩ := h
    exact hI
  | shielded => exact (putTotals_view AllCounted (fun _ _ _ => rfl) ..).mpr hI
  | unshielded => exact (putTotals_view AllCounted (fun _ _ _ => rfl) ..).mpr hI
  | transacted decoded planned sound burnable outputs => cases outputs <;> exact hI
  | @redeemed c c' plan m p tc t t' now decoded planned h =>
    refine Store.forall_updates (plan.entries m p plan.items) hI fun e he req hreq => ?_
    obtain ⟨item, -, rfl⟩ := List.mem_map.mp he
    obtain rfl := Option.some_inj.mp hreq
    exact fun hst => absurd hst (by simp [RedeemPlan.request])
  | @marked c c' m p req us slot decoded h named =>
    refine Store.forall_updates [(req.storeKey m, some (req.process E slot us))] hI
      fun e he req' hreq' _ => ?_
    obtain rfl := List.mem_singleton.mp he
    obtain rfl := Option.some_inj.mp hreq'
    have hnone : req.approvedInputs = 0 := (hadm _ _ h.request).pending h.pending
    exact counted_process hnone h.nonempty (named.length_le.trans (hfew c c' rfl decoded))
  | @approved c c' m req req' cfg us tx fee inputIndex decoded digest index h =>
    refine Store.forall_updates [(req.storeKey m, some req')] hI fun e he req₁ hreq₁ _ => ?_
    obtain rfl := List.mem_singleton.mp he
    obtain rfl := Option.some_inj.mp hreq₁
    exact (hI _ _ h.request h.processing).approve h.approved
  | cancelled => exact hclosed
  | @completed c c' => cases c'.changeOutput <;> exact hclosed
  | _ => exact hI

lemma counted_of_reaches {tr : List (Step State Label)} {guard : State → Label → Prop}
    (run : Reaches (step E) guard .genesis tr s) : AllCounted s.records := by
  refine run.history (I := fun _ s => AllCounted s.records) (fun k req hreq => absurd hreq (by simp)) ?_
  intro tr s l s' hrun hI _ h
  refine (step_effect h).allCounted hI (admitted_of_reaches hrun) ?_
  rintro c c' rfl hd
  simp only [step, bind_eq_ok, exists_unit, require_eq_ok, processInstruction, hd] at h
  exact mark_bounded h.2

/-! ### Taking back -/

/-- Whoever takes back a request that counts as signed is refused. -/
lemma unsigned_of_takesBack (h : step E s l = .ok s') (ht : TakesBack E s.records l m req) :
    req.signingApproved = false := by
  have hcall := ht.call
  cases l with
  | call c =>
    simp only [Label.takenBack] at hcall
    split at hcall
    · rename_i c' hd
      simp only [step, bind_eq_ok, exists_unit, require_eq_ok, processInstruction, hd] at h
      obtain ⟨m', p, req', tc, t, t', us, commitment, hcan, hnamed, -⟩ :=
        processCancelRedemption_ok h.2
      rw [hnamed.requestAt, Option.some_inj] at hcall
      have hreq := hcan.request
      rw [hcall, ht.request, Option.some_inj] at hreq
      rw [hreq]
      exact hcan.unsigned
    · exact absurd hcall (by simp)
  | _ => exact absurd hcall (by simp [Label.takenBack])

/-- **A request that is taken back is never paid as well**: as long as whoever takes back a
processing request finds no approval but its own, its transaction has an input that was not
approved, at every miner fee. -/
theorem cancels_safe {tr : List (Step State Label)}
    (run : Reaches (step E) (OwnApprovals E) .genesis tr s) : ∀ st ∈ tr, SafeCancel E st := by
  refine run.history (I := fun tr _ => ∀ st ∈ tr, SafeCancel E st) (by simp) ?_
  intro tr s l s' hrun hI hown h st hst
  rcases List.mem_append.mp hst with hst | hst
  · exact hI st hst
  obtain rfl := List.mem_singleton.mp hst
  rintro m req ht ⟨cfg, us, fee, tx, hrebuilt, hall⟩
  have hcounted := counted_of_reaches hrun _ _ ht.request ht.processing
  -- every approval is this request's own, so all of its bits are set
  have hbits : req.allInputsSigningApproved = true :=
    req.allInputsSigningApproved_iff.mpr ⟨hcounted.some, hcounted.few, fun i hi =>
      hown m req ht cfg us fee tx hrebuilt i hi (hall i hi)⟩
  have hunsigned := unsigned_of_takesBack h ht
  rw [hcounted.signed hbits] at hunsigned
  exact absurd hunsigned (by simp)

/-! ### Runs -/

namespace Regtest

def twoOutputs : List Outpoint := [outputOf 1 60000, outputOf 2 50000]

def twoDeposited : List Label :=
  openBook ++ [completeDeposit 0 (directTx 1 60000) (directTx 1 60000) 0,
    completeDeposit 0 (directTx 2 50000) (directTx 2 50000) 0]

/-- What is paid from both outputs. -/
def bothRedeemed : RedemptionTx :=
  redemptionOf (twoOutputs.zip [60000, 50000]) [⟨98000, recipientScript⟩, ⟨11000, poolScript⟩]

/-- A request for both outputs, up to the approval of one of them. -/
def halfSigned (nonce slot inputIndex : ℕ) : List Label :=
  [redeem 0 (zeroHash treeDepth) (note nonce) recipientScript 100000 nonce,
    markProcessing nonce twoOutputs slot, approve nonce bothRedeemed 1000 inputIndex]

/-- One input is approved for a request that is taken back, the other for the request after it. -/
def signedInHalves : List Label :=
  twoDeposited ++ halfSigned 7 0 0 ++ [cancelRedemption zkbtc 7 twoOutputs 216000] ++
    halfSigned 8 216000 1

def cancelSigned : Label := cancelRedemption zkbtc 8 twoOutputs 432000

/-- The transaction of the second request can be rebuilt and all of it is approved. -/
def bothSigned (s : State) (req : RedemptionRequest) (cfg : PoolConfig) (u v : UtxoRecord) : Prop :=
  s.records.redemptions (pool, user, 8) = some req ∧ req.storeKey zkbtc = (pool, user, 8) ∧
    req.status = .Processing ∧
    s.records.poolConfigs pool = some cfg ∧ 2 = req.reservedCount ∧
    s.records.utxos (pool, outputOf 1 60000) = some u ∧
    s.records.utxos (pool, outputOf 2 50000) = some v ∧
    (∀ w ∈ [u, v], w.status = .Reserved ∧
      w.reservedForRequestId = reservationKeyOf env (pool, user, 8)) ∧
    u.amountSats + v.amountSats = req.totalInputSats ∧
    inputsCommitment env (canonicalSort [u.input, v.input]) = req.inputsCommitment ∧
    (redemptionTx env cfg req (canonicalSort [u.input, v.input]) 1000).toOption =
      some bothRedeemed ∧
    ∀ i < 2, bothRedeemed.digest env i ∈ s.records.approvedDigests

instance (s : State) (req : RedemptionRequest) (cfg : PoolConfig) (u v : UtxoRecord) :
    Decidable (bothSigned s req cfg u v) :=
  inferInstanceAs (Decidable (_ ∧ _))

/-- Everything the books have on the second request. -/
def signedTwice (s : State) : Bool :=
  (s.records.redemptions (pool, user, 8)).any fun req => (s.records.poolConfigs pool).any fun cfg =>
    (s.records.utxos (pool, outputOf 1 60000)).any fun u =>
      (s.records.utxos (pool, outputOf 2 50000)).any fun v => decide (bothSigned s req cfg u v)

lemma signable_of_signedTwice {s : State} (h : signedTwice s = true) :
    ∃ req, TakesBack env s.records cancelSigned zkbtc req ∧ Signable env s.records zkbtc req := by
  obtain ⟨req, -, h⟩ := (Option.any_eq_true _ _).mp h
  obtain ⟨cfg, -, h⟩ := (Option.any_eq_true _ _).mp h
  obtain ⟨u, -, h⟩ := (Option.any_eq_true _ _).mp h
  obtain ⟨v, -, h⟩ := (Option.any_eq_true _ _).mp h
  obtain ⟨hreq, hkey, hst, hcfg, hcount, hu, hv, hheld, htotal, hcommit, htx, happroved⟩ :=
    of_decide_eq_true h
  refine ⟨req, ⟨?_, ?_, hst⟩, cfg, [((pool, outputOf 1 60000), u), ((pool, outputOf 2 50000), v)],
    1000, bothRedeemed, ⟨hcfg, hcount, ?_, ?_, hcommit, toOption_eq_some.mp htx⟩, ?_⟩
  · rw [hkey]
    decide +kernel
  · rw [hkey]
    exact hreq
  · rw [hkey]
    intro e he
    rcases List.mem_cons.mp he with rfl | he
    · exact ⟨hu, hheld u (by simp)⟩
    · obtain rfl := List.mem_singleton.mp he
      exact ⟨hv, hheld v (by simp)⟩
  · simpa [amountsOf] using htotal
  · rw [← hcount]
    exact happroved

lemma run_signedInHalves : ((exec (step env) (fun _ _ => true) .genesis signedInHalves).any fun s =>
    signedTwice s && (step env s cancelSigned).toOption.isSome) = true := by
  decide +kernel

/-- Nothing was approved yet when a request is taken back. -/
def unapproved (s : State) (l : Label) : Bool :=
  l.takenBack env = none || s.records.approvedDigests = []

lemma ownApprovals_of_unapproved {s : State} {l : Label} (h : unapproved s l = true) :
    OwnApprovals env s l := by
  intro m req ht cfg us fee tx _ i _ happroved
  simp only [unapproved, ht.call, Bool.or_eq_true, decide_eq_true_eq] at h
  rw [h.resolve_left (Option.some_ne_none _)] at happroved
  exact absurd happroved List.not_mem_nil

def takenBackUnsigned : List Label :=
  twoDeposited ++ (halfSigned 7 0 0).take 2 ++ [cancelRedemption zkbtc 7 twoOutputs 216000]

lemma run_takenBackUnsigned :
    (exec (step env) unapproved .genesis takenBackUnsigned).isSome = true := by
  decide +kernel

end Regtest

open Regtest in
/-- **Taken back and signed**: two requests for the same outputs have one input approved each, and
the second is taken back. -/
theorem signed_cancel : ∃ (tr : List (Step State Label)) (s : State),
    Reaches (step env) (fun _ _ => True) .genesis tr s ∧ ∃ st ∈ tr, ¬ SafeCancel env st := by
  obtain ⟨s, hs, hsigned⟩ := (Option.any_eq_true _ _).mp run_signedInHalves
  rw [Bool.and_eq_true] at hsigned
  obtain ⟨s', hs'⟩ := Option.isSome_iff_exists.mp hsigned.2
  obtain ⟨req, hback, hsignable⟩ := signable_of_signedTwice hsigned.1
  obtain ⟨tr, -, hrun⟩ := reaches_of_exec (fun _ _ _ => trivial) hs
  exact ⟨_, s', .call hrun trivial (toOption_eq_some.mp hs'), _,
    List.mem_append_right _ (List.mem_singleton_self _), fun hsafe => hsafe _ _ hback hsignable⟩

open Regtest in
/-- A request that is processed and taken back before anything is approved. -/
theorem cancels_safe_takenBackUnsigned : ∃ tr : List (Step State Label),
    tr.map Step.call = takenBackUnsigned ∧ ∀ st ∈ tr, SafeCancel env st := by
  obtain ⟨s, hs⟩ := Option.isSome_iff_exists.mp run_takenBackUnsigned
  obtain ⟨tr, hcalls, hrun⟩ := reaches_of_exec (fun _ _ => ownApprovals_of_unapproved) hs
  exact ⟨tr, hcalls, cancels_safe hrun⟩

end Utxopia.Pool
