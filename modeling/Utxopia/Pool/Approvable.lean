import Utxopia.Pool.Completable

/-!
Whether what was reserved can be approved.

A reservation is bounded before the miner fee is known, an approval once it is. The two bounds
differ in both directions: a reservation may leave an amount that is too small for change and
too large for a fee, and a reservation is refused that a small fee would have settled.
-/

namespace Utxopia.Pool

open Utxopia.ByteString Utxopia.Check Utxopia.Run Utxopia.Runtime

variable {E : Env} {s s' : State} {c : Call} {p : PoolState} {req : RedemptionRequest}
  {us : List UtxoEntry}

/-- The checks of an approval on the amounts, at a miner fee. -/
def approveAmounts (p : PoolState) (req : RedemptionRequest) (minerFeeSats : ℕ) :
    Except ProgramError Unit := do
  require (req.totalInputSats ≠ 0) UTXOpiaError.InvalidUtxo
  checkRedemptionSigning p req.amountSats minerFeeSats
  let (_, change) ← sendAndChange req.amountSats req.serviceFee req.totalInputSats minerFeeSats
  checkEffectiveMinerFee minerFeeSats change req.serviceFee

/-- Some miner fee passes these checks. -/
def Approvable (p : PoolState) (req : RedemptionRequest) : Prop :=
  ∃ fee < 2 ^ 64, approveAmounts p req fee = .ok ()

/-- What the recipient is to get. -/
def RedemptionRequest.sendSats (req : RedemptionRequest) : ℕ := req.amountSats - req.serviceFee

/-- What inputs of this value leave besides the payment. -/
def RedemptionRequest.surplus (req : RedemptionRequest) (total : ℕ) : ℕ := total - req.sendSats

lemma checkEffectiveMinerFee_eq_ok {fee change serviceFee : ℕ}
    (hmax : effectiveMinerFee fee change ≤ maxMinerFeeSats)
    (hservice : effectiveMinerFee fee change ≤ serviceFee) :
    checkEffectiveMinerFee fee change serviceFee = .ok () := by
  have hsmall : maxMinerFeeSats < 2 ^ 64 := by decide
  unfold checkEffectiveMinerFee
  unfold effectiveMinerFee at hmax hservice
  split_ifs at hmax hservice ⊢ with hdust
  · simp only [bind_eq_ok, checkedAdd_eq_ok, exists_unit, require_eq_ok]
    exact ⟨_, ⟨hmax.trans_lt hsmall, rfl⟩, hmax, hservice⟩
  · simp only [bind_eq_ok, Except.ok.injEq, exists_unit, require_eq_ok]
    exact ⟨_, rfl, hmax, hservice⟩

lemma approveAmounts_eq_ok {fee : ℕ} : approveAmounts p req fee = .ok () ↔
    req.totalInputSats ≠ 0 ∧ p.paused = false ∧ req.amountSats ≤ maxRedemptionAmountSats ∧
      fee ≤ maxMinerFeeSats ∧ req.serviceFee ≤ req.amountSats ∧
      req.sendSats + fee ≤ req.totalInputSats ∧
      effectiveMinerFee fee (req.surplus req.totalInputSats - fee) ≤ maxMinerFeeSats ∧
      effectiveMinerFee fee (req.surplus req.totalInputSats - fee) ≤ req.serviceFee := by
  simp only [approveAmounts, checkRedemptionSigning, sendAndChange, bind_eq_ok, exists_unit,
    require_eq_ok, pure_eq_ok, Prod.exists, Prod.mk.injEq, Bool.not_eq_true]
  constructor
  · rintro ⟨htotal, ⟨hpaused, hlimit, hmax⟩, _, _, ⟨hfee, hsend, rfl, rfl⟩, heff⟩
    obtain ⟨heffmax, heffservice⟩ := checkEffectiveMinerFee_ok heff
    exact ⟨htotal, hpaused, hlimit, hmax, hfee, hsend, heffmax, heffservice⟩
  · rintro ⟨htotal, hpaused, hlimit, hmax, hfee, hsend, heffmax, heffservice⟩
    exact ⟨htotal, ⟨hpaused, hlimit, hmax⟩, _, _, ⟨hfee, hsend, rfl, rfl⟩,
      checkEffectiveMinerFee_eq_ok heffmax heffservice⟩

/-- An approval that succeeds has passed the checks. -/
theorem approveAmounts_of_approved (h : processApproveRedemptionSigning E s c = .ok s') :
    ∃ p req, approveAmounts p req (u64At c.data 64) = .ok () := by
  simp only [processApproveRedemptionSigning, checkSignable, redemptionTx, bind_eq_ok, exists_unit,
    require_eq_ok, Prod.exists] at h
  obtain ⟨-, -, pool, -, redemption, -, authority, -, cfgInfo, -, program, -, coordinator, h⟩ := h
  obtain ⟨-, approval, -, dwallet, -, caller, -, cpi, -, payer, -, sys, -, -, -, -, -, -, p, h⟩ := h
  obtain ⟨-, req, -, ⟨-, -, htotal, -, hsign, -⟩, cfg, -, -, ordered, -, tx, h⟩ := h
  obtain ⟨⟨send, change, hsend, hfee, -⟩, -⟩ := h
  refine ⟨p, req, ?_⟩
  simp only [approveAmounts, bind_eq_ok, exists_unit, require_eq_ok, Prod.exists]
  exact ⟨htotal, hsign, send, change, hsend, hfee⟩

/-! ### What can be approved -/

/-- **Approvable amounts**: what is left besides the payment is large enough for change, or small
enough for a fee. -/
theorem approvable_amounts (hpaused : p.paused = false)
    (hlimit : req.amountSats ≤ maxRedemptionAmountSats) (hfee : req.serviceFee ≤ req.amountSats) :
    Approvable p req ↔ req.totalInputSats ≠ 0 ∧ req.sendSats ≤ req.totalInputSats ∧
      (btcDustThresholdSats < req.surplus req.totalInputSats ∨
        req.surplus req.totalInputSats ≤ min maxMinerFeeSats req.serviceFee) := by
  have hmax : btcDustThresholdSats ≤ maxMinerFeeSats := by decide
  constructor
  · rintro ⟨fee, -, h⟩
    obtain ⟨htotal, -, -, -, -, hsend, heffmax, heffservice⟩ := approveAmounts_eq_ok.mp h
    refine ⟨htotal, by omega, ?_⟩
    by_contra hno
    rw [not_or, not_lt, not_le] at hno
    -- a surplus of dust goes to the miner as a whole, whatever the fee
    have hdust : req.surplus req.totalInputSats - fee ≤ btcDustThresholdSats := by omega
    have hcover : fee ≤ req.surplus req.totalInputSats := by
      unfold RedemptionRequest.surplus
      omega
    rw [effectiveMinerFee, if_pos hdust] at heffmax heffservice
    omega
  · rintro ⟨htotal, hsend, hchange | hsmall⟩
    · refine ⟨0, by decide, approveAmounts_eq_ok.mpr ⟨htotal, hpaused, hlimit, Nat.zero_le _, hfee,
        hsend, ?_, ?_⟩⟩ <;>
      · rw [effectiveMinerFee, if_neg (by omega)]
        exact Nat.zero_le _
    · have hall : effectiveMinerFee (req.surplus req.totalInputSats)
          (req.surplus req.totalInputSats - req.surplus req.totalInputSats) =
          req.surplus req.totalInputSats := by
        rw [Nat.sub_self, effectiveMinerFee, if_pos (Nat.zero_le _), Nat.add_zero]
      have hfits : maxMinerFeeSats < 2 ^ 64 := by decide
      refine ⟨req.surplus req.totalInputSats, by omega, approveAmounts_eq_ok.mpr ⟨htotal, hpaused,
        hlimit, by omega, hfee, ?_, by omega, by omega⟩⟩
      unfold RedemptionRequest.surplus
      omega

/-! ### Reservations -/

/-- Outputs of the books, as the accounts of a call name them. -/
structure Listed (r : Records) (c : Call) (start n : ℕ) (us : List UtxoEntry) : Prop where
  outputs : us.map utxoAddr = c.keysFrom start n
  recorded : ∀ e ∈ us, r.utxos e.1 = some e.2

lemma utxoAddr_injective {e e' : UtxoEntry} (h : utxoAddr e = utxoAddr e') : e.1 = e'.1 :=
  Prod.ext (Addr.utxo.inj h).1 (Addr.utxo.inj h).2

/-- A call names its outputs in one way. -/
lemma Listed.unique {r : Records} {start n : ℕ} {us' : List UtxoEntry}
    (h : Listed r c start n us) (h' : Listed r c start n us') : us = us' := by
  have hkeys : us.map utxoAddr = us'.map utxoAddr := h.outputs.trans h'.outputs.symm
  refine List.ext_getElem (by simpa using congrArg List.length hkeys) fun i hi hi' => ?_
  have haddr : utxoAddr us[i] = utxoAddr us'[i] := by
    have := congrArg (·[i]?) hkeys
    simpa [hi, hi'] using this
  have hkey := utxoAddr_injective haddr
  have hrec := h.recorded _ (List.getElem_mem hi)
  rw [hkey, h'.recorded _ (List.getElem_mem hi')] at hrec
  exact Prod.ext hkey (Option.some_inj.mp hrec).symm

/-- The call reserves these outputs for this request. -/
structure Reserves (r : Records) (c : Call) (m : Addr) (req : RedemptionRequest)
    (us : List UtxoEntry) : Prop where
  pool : c.accounts[0]?.map AccountInfo.key = some (.poolState m)
  account : c.accounts[1]?.map AccountInfo.key = some (req.addr m)
  request : r.redemptions (req.storeKey m) = some req
  listed : Listed r c 3 (byteAt c.data 0) us

/-- What the call reserves is what is reserved. -/
lemma marking_of_reserves {m : Addr} (hres : Reserves s.records c m req us)
    (h : processMarkProcessing E c s = .ok s') :
    ∃ p slot, Marking s.records m p req us ∧ s'.records = s.records.mark E m p req us slot := by
  obtain ⟨m', p, req', us', slot, hmark, hnamed, hrec⟩ := processMarkProcessing_ok h
  have hm : Addr.poolState m = .poolState m' :=
    Option.some_inj.mp (hres.pool.symm.trans hnamed.pool)
  obtain rfl := Addr.poolState.inj hm
  have haddr : req.addr m = req'.addr m := Option.some_inj.mp (hres.account.symm.trans hnamed.request)
  have hkey : req.storeKey m = req'.storeKey m := by
    obtain ⟨-, hrequester, hid⟩ := Addr.redemption.inj haddr
    simp only [RedemptionRequest.storeKey, hrequester, hid]
  have hreq := hres.request
  rw [hkey, hmark.request] at hreq
  obtain rfl := Option.some_inj.mp hreq
  obtain rfl := hres.listed.unique ⟨hnamed.outputs, hmark.reservation.picked.recorded⟩
  exact ⟨p, slot, hmark, hrec⟩

/-- What is left besides the payment is more than the service fee and too little for change. -/
def RedemptionRequest.StrandsDust (req : RedemptionRequest) (total : ℕ) : Prop :=
  req.serviceFee < req.surplus total ∧ req.surplus total ≤ btcDustThresholdSats

instance (req : RedemptionRequest) (total : ℕ) : Decidable (req.StrandsDust total) :=
  inferInstanceAs (Decidable (_ ∧ _))

/-- **Approvable reservations**: a reservation within the limit can be approved if and only if it
leaves no dust that the service fee does not cover. -/
theorem reserved_approvable_iff {tr : List (Step State Label)} {guard : State → Label → Prop}
    (run : Reaches (step E) guard .genesis tr s) {m : Addr} {req' : RedemptionRequest}
    (hres : Reserves s.records c m req us) (h : processMarkProcessing E c s = .ok s')
    (hlimit : req.amountSats ≤ maxRedemptionAmountSats) (hpaused : p.paused = false)
    (hreq' : s'.records.redemptions (req.storeKey m) = some req') :
    Approvable p req' ↔ ¬ req.StrandsDust (amountsOf us).sum := by
  have hbelow : btcDustThresholdSats ≤ maxMinerFeeSats := by decide
  have hfee : req.serviceFee < req.amountSats := (admitted_of_reaches run _ _ hres.request).fee
  obtain ⟨_, slot, hmark, hrec⟩ := marking_of_reserves hres h
  have hproc : req' = req.process E slot us := by
    rw [hrec] at hreq'
    have hself : (s.records.mark E m p req us slot).redemptions (req.storeKey m) =
        some (req.process E slot us) := Function.update_self ..
    exact Option.some_inj.mp (hreq'.symm.trans hself)
  obtain ⟨-, henough⟩ := hmark.enough
  unfold RedemptionRequest.requiredSats at henough
  subst hproc
  have hiff : Approvable p (req.process E slot us) ↔ _ := approvable_amounts hpaused hlimit hfee.le
  refine hiff.trans ?_
  change (amountsOf us).sum ≠ 0 ∧ req.sendSats ≤ (amountsOf us).sum ∧
    (btcDustThresholdSats < req.surplus (amountsOf us).sum ∨
      req.surplus (amountsOf us).sum ≤ min maxMinerFeeSats req.serviceFee) ↔ _
  unfold RedemptionRequest.StrandsDust RedemptionRequest.surplus RedemptionRequest.sendSats
  omega

/-! ### Sets that are refused -/

/-- What is left besides the payment would pay a fee, only not the largest one. -/
def RedemptionRequest.PaysSmallFee (p : PoolState) (req : RedemptionRequest) (total : ℕ) : Prop :=
  p.paused = false ∧ req.amountSats ≤ maxRedemptionAmountSats ∧ req.serviceFee ≤ req.amountSats ∧
    total ≠ 0 ∧ req.sendSats ≤ total ∧ total < req.requiredSats

instance (p : PoolState) (req : RedemptionRequest) (total : ℕ) :
    Decidable (req.PaysSmallFee p total) :=
  inferInstanceAs (Decidable (_ ∧ _))

lemma checkReservedTotal_insufficient {inputs : List ReservedInput} {total : ℕ} :
    checkReservedTotal req inputs total = .error (.Custom .InsufficientReservedInputs) ↔
      req.serviceFee ≤ req.amountSats ∧ req.requiredSats < 2 ^ 64 ∧ total < req.requiredSats := by
  simp only [checkReservedTotal, checkedAdd, bind_eq_error, bind_eq_ok, exists_unit, require_eq_ok,
    require_eq_error, orElse_eq_error, pure_eq_ok, pure_ne_error, reduceCtorEq, and_false,
    false_or, or_false, ProgramError.Custom.injEq, exists_false]
  constructor
  · rintro ⟨hfee, _, ⟨hfits, rfl⟩, hlt, -⟩
    exact ⟨hfee, hfits, not_le.mp hlt⟩
  · rintro ⟨hfee, hfits, hlt⟩
    exact ⟨hfee, _, ⟨hfits, rfl⟩, not_le.mpr hlt, trivial⟩

/-- **Refused sets**: that a set is refused as insufficient means that it cannot be approved at any
fee, unless what it leaves besides the payment pays a fee that is not the largest one. -/
theorem refused_unapprovable_iff {slot : ℕ} :
    (checkReservedTotal req (us.map fun e => e.2.plainInput) (amountsOf us).sum =
        .error (.Custom .InsufficientReservedInputs) → ¬ Approvable p (req.process E slot us)) ↔
      ¬ req.PaysSmallFee p (amountsOf us).sum := by
  have hbelow : maxRedemptionAmountSats + maxMinerFeeSats < 2 ^ 64 := by decide
  constructor
  · rintro himp ⟨hpaused, hlimit, hfee, hsome, hsend, hlt⟩
    have hsmall : req.surplus (amountsOf us).sum ≤ min maxMinerFeeSats req.serviceFee := by
      unfold RedemptionRequest.surplus RedemptionRequest.sendSats at *
      unfold RedemptionRequest.requiredSats at hlt
      omega
    refine himp (checkReservedTotal_insufficient.mpr ⟨hfee, ?_, hlt⟩) ?_
    · unfold RedemptionRequest.requiredSats
      omega
    · have hiff : Approvable p (req.process E slot us) ↔ _ :=
        approvable_amounts hpaused hlimit hfee
      exact hiff.mpr ⟨hsome, hsend, .inr hsmall⟩
  · rintro hno hrefused ⟨fee, -, happrove⟩
    obtain ⟨hfee, -, hlt⟩ := checkReservedTotal_insufficient.mp hrefused
    obtain ⟨htotal, hpaused, hlimit, -, -, hsend, -, -⟩ := approveAmounts_eq_ok.mp happrove
    exact hno ⟨hpaused, hlimit, hfee, htotal, le_of_add_le_left hsend, hlt⟩

lemma checkedAdd_ne_custom {bits a b : ℕ} {e : UTXOpiaError} :
    checkedAdd bits a b ≠ .error (.Custom e) := by
  intro h
  obtain ⟨-, -, h⟩ := error_bind h (by simp [require_eq_error])
  exact pure_ne_error.mp h

lemma checkedSub_ne_custom {a b : ℕ} {e : UTXOpiaError} : checkedSub a b ≠ .error (.Custom e) := by
  intro h
  obtain ⟨-, -, h⟩ := error_bind h (by simp [require_eq_error])
  exact pure_ne_error.mp h

lemma removeUtxo_ne_custom {amount : ℕ} {e : UTXOpiaError} :
    p.removeUtxo amount ≠ .error (.Custom e) := by
  intro h
  obtain ⟨held, -, h⟩ := error_bind h checkedSub_ne_custom
  obtain ⟨n, -, h⟩ := error_bind h checkedSub_ne_custom
  exact pure_ne_error.mp h

lemma reserveUtxo_ne_insufficient {pool : Addr} {reservationKey : ℕ} (acc : Reserving)
    (info : AccountInfo) : reserveUtxo E c pool reservationKey acc info ≠
      .error (.Custom .InsufficientReservedInputs) := by
  intro h
  unfold reserveUtxo at h
  obtain ⟨-, -, h⟩ := error_bind h (by simp [validateProgramOwner, require_eq_error])
  obtain ⟨-, -, h⟩ := error_bind h (by simp [validateAccountWritable, require_eq_error])
  obtain ⟨u, -, h⟩ := error_bind h (by simp [orElse_eq_error])
  obtain ⟨-, -, h⟩ := error_bind h (by simp [require_eq_error])
  obtain ⟨-, -, h⟩ := error_bind h (by simp [require_eq_error])
  obtain ⟨total, -, h⟩ := error_bind h checkedAdd_ne_custom
  exact pure_ne_error.mp h

/-- **Refused**: a set is refused as insufficient by the check of its total only. -/
theorem refused_checked
    (h : processMarkProcessing E c s = .error (.Custom .InsufficientReservedInputs)) :
    ∃ m req us, Names c m req 0 3 (byteAt c.data 0) us ∧
      s.records.redemptions (req.storeKey m) = some req ∧ Reservation s.records (.poolState m) us ∧
      checkReservedTotal req (us.map fun e => e.2.plainInput) (amountsOf us).sum =
        .error (.Custom .InsufficientReservedInputs) := by
  unfold processMarkProcessing at h
  obtain ⟨-, -, h⟩ := error_bind h (by simp [Call.atLeast, require_eq_error])
  obtain ⟨pool, hpacc, h⟩ := error_bind h (by simp [Call.account, orElse_eq_error])
  obtain ⟨redemption, hacc, h⟩ := error_bind h (by simp [Call.account, orElse_eq_error])
  obtain ⟨authority, -, h⟩ := error_bind h (by simp [Call.account, orElse_eq_error])
  obtain ⟨-, -, h⟩ := error_bind h (by simp [validateSigner, require_eq_error])
  obtain ⟨-, -, h⟩ := error_bind h (by simp [validateProgramOwner, require_eq_error])
  obtain ⟨⟨⟩, hpda, h⟩ := error_bind h (by
    simp [validateRedemptionPda, validatePoolStatePda, validateProgramOwner, readPool,
      readRedemption, bind_eq_error, require_eq_error, orElse_eq_error])
  obtain ⟨-, -, h⟩ := error_bind h (by simp [validateAccountWritable, require_eq_error])
  obtain ⟨-, -, h⟩ := error_bind h (by simp [validateAccountWritable, require_eq_error])
  obtain ⟨p, hread, h⟩ := error_bind h (by simp [readPool, orElse_eq_error])
  obtain ⟨-, -, h⟩ := error_bind h (by simp [require_eq_error])
  obtain ⟨req, hreq, h⟩ := error_bind h (by simp [readRedemption, orElse_eq_error])
  obtain ⟨-, -, h⟩ := error_bind h (by simp [redemptionDriverIsAllowed, require_eq_error])
  obtain ⟨-, -, h⟩ := error_bind h (by simp [require_eq_error])
  obtain ⟨-, -, h⟩ := error_bind h (by simp [require_eq_error])
  obtain ⟨-, -, h⟩ := error_bind h (by simp [Call.atLeast, require_eq_error])
  obtain ⟨-, -, h⟩ := error_bind h (by simp [require_eq_error])
  obtain ⟨-, -, h⟩ := error_bind h (by simp [require_eq_error])
  obtain ⟨got, hgot, h⟩ := error_bind h (loop_ne_error reserveUtxo_ne_insufficient _ _)
  have hat := validateRedemptionPda_ok hread hreq hpda
  obtain ⟨us, hus, hres, -, hsound⟩ := reserveUtxos_ok hgot
  refine ⟨p.zkbtcMint, req, us, ⟨?_, ?_, hus⟩, hat.request, hat.pool_key ▸ hres, ?_⟩
  · rw [account_ok.mp hpacc, Option.map_some, hat.pool_key]
  · rw [account_ok.mp hacc, Option.map_some, hat.key]
    rfl
  · rw [hsound.inputs, hsound.total] at h
    refine (bind_eq_error.mp h).resolve_right ?_
    rintro ⟨_, -, h⟩
    obtain ⟨p', -, h⟩ := error_bind h (loop_ne_error (fun _ _ => removeUtxo_ne_custom) _ _)
    exact pure_ne_error.mp h

/-! ### Runs -/

namespace Regtest

/-- The same call at another time. -/
def later (t : ℤ) : Label → Label
  | .call c => .call { c with unixTimestamp := t }
  | l => l

def proposePoolUpdate (minDeposit maxDeposit serviceFee : ℕ) : Label :=
  call 3 [writable pool, signer admin]
    (leBytes 8 minDeposit ++ leBytes 8 maxDeposit ++ leBytes 8 serviceFee) [] 0

def executePoolUpdate : Label := call 4 [writable pool, signer admin] [] [] 0

/-- The service fee is lowered to 100, and a redemption leaves 200 of the swept output. -/
def lowFeeRedeemed : List Label :=
  openBook ++ [proposePoolUpdate 5000 (2 ^ 30) 100, later 172800 executePoolUpdate,
    completeDeposit 0 sweepTx depositTx 0,
    redeem 0 (zeroHash treeDepth) (note 1) recipientScript 99900 7]

/-- The swept output holds what is to be paid to a larger redemption, but not the largest fee. -/
def largeRedeemed : List Label :=
  openBook ++ [completeDeposit 0 sweepTx depositTx 0,
    completeDeposit 0 (directTx 2 50000) (directTx 2 50000) 0,
    redeem 0 (zeroHash treeDepth) (note 1) recipientScript 101000 7]

/-- The call that reserves the swept output. -/
def markSwept : Call where
  accounts := [writable pool, writable (.redemption pool user 7), signer user,
    writable (.utxo pool sweptOutput)]
  data := [1]
  slot := 0
  unixTimestamp := 0
  foreign := fun k => (basicAccounts.lookup k).getD ⟨zeros 32, false, []⟩
  cpiSucceeds := true

/-- The request and the swept output are in the books. -/
def sweptPending (s : State) (req : RedemptionRequest) (u : UtxoRecord) : Prop :=
  s.records.redemptions (pool, user, 7) = some req ∧ req.requester = user ∧ req.requestId = 7 ∧
    req.amountSats ≤ maxRedemptionAmountSats ∧ s.records.utxos (pool, sweptOutput) = some u

instance (s : State) (req : RedemptionRequest) (u : UtxoRecord) : Decidable (sweptPending s req u) :=
  inferInstanceAs (Decidable (_ ∧ _))

lemma reserves_of_sweptPending {s : State} {req : RedemptionRequest} {u : UtxoRecord}
    (h : sweptPending s req u) :
    Reserves s.records markSwept zkbtc req [((pool, sweptOutput), u)] := by
  obtain ⟨hreq, hrequester, hid, -, hu⟩ := h
  refine ⟨rfl, ?_, ?_, ⟨rfl, by simpa using hu⟩⟩
  · simp only [RedemptionRequest.addr, hrequester, hid]
    rfl
  · simp only [RedemptionRequest.storeKey, hrequester, hid]
    exact hreq

/-- The swept output is reserved, with this left to approve. -/
def sweptReserved (q : PoolState → RedemptionRequest → Bool) (s : State) : Bool :=
  (s.records.redemptions (pool, user, 7)).any fun req =>
    (s.records.utxos (pool, sweptOutput)).any fun u => decide (sweptPending s req u) &&
      (processMarkProcessing env markSwept s).toOption.any fun s' =>
        (s'.records.pools zkbtc).any fun p => !p.paused &&
          (s'.records.redemptions (pool, user, 7)).any fun req' => q p req'

/-- The swept output is refused though it pays a fee. -/
def sweptRefused (s : State) : Bool :=
  (s.records.redemptions (pool, user, 7)).any fun req =>
    (s.records.utxos (pool, sweptOutput)).any fun u => decide (sweptPending s req u) &&
      decide ((match processMarkProcessing env markSwept s with
        | .ok _ => none
        | .error e => some e) = some (.Custom .InsufficientReservedInputs)) &&
      (s.records.pools zkbtc).any fun p => decide (approveAmounts p (req.process env 0
        [((pool, sweptOutput), u)]) 1000 = .ok ())

lemma run_lowFee : ((exec (step env) (fun _ _ => true) .genesis lowFeeRedeemed).any
    (sweptReserved fun _ req => !decide (btcDustThresholdSats < req.surplus req.totalInputSats ∨
      req.surplus req.totalInputSats ≤ min maxMinerFeeSats req.serviceFee) &&
        decide (req.serviceFee ≤ req.amountSats ∧ req.amountSats ≤ maxRedemptionAmountSats))) = true := by
  decide +kernel

lemma run_largeRedeemed :
    ((exec (step env) (fun _ _ => true) .genesis largeRedeemed).any sweptRefused) = true := by
  decide +kernel

lemma of_sweptReserved {q : PoolState → RedemptionRequest → Bool} {s : State}
    (h : sweptReserved q s = true) :
    ∃ req u s' p req', sweptPending s req u ∧ processMarkProcessing env markSwept s = .ok s' ∧
      p.paused = false ∧ s'.records.redemptions (req.storeKey zkbtc) = some req' ∧
      q p req' = true := by
  obtain ⟨req, -, h⟩ := (Option.any_eq_true _ _).mp h
  obtain ⟨u, -, h⟩ := (Option.any_eq_true _ _).mp h
  obtain ⟨hpend, h⟩ := (Bool.and_eq_true _ _).mp h
  have hpend := of_decide_eq_true hpend
  obtain ⟨s', hmark, h⟩ := (Option.any_eq_true _ _).mp h
  obtain ⟨p, -, h⟩ := (Option.any_eq_true _ _).mp h
  obtain ⟨hpaused, h⟩ := (Bool.and_eq_true _ _).mp h
  obtain ⟨req', hreq', hq⟩ := (Option.any_eq_true _ _).mp h
  refine ⟨req, u, s', p, req', hpend, ?_, by simpa using hpaused, ?_, hq⟩
  · cases hok : processMarkProcessing env markSwept s with
    | error e => rw [hok] at hmark; exact absurd hmark (by simp [Except.toOption])
    | ok s₁ =>
      rw [hok] at hmark
      exact congrArg Except.ok (Option.some_inj.mp hmark)
  · simp only [RedemptionRequest.storeKey, hpend.2.1, hpend.2.2.1]
    exact hreq'

end Regtest

open Regtest in
/-- **Reserved and never approved**: at a service fee of 100, 200 are left besides the payment. -/
theorem reserved_not_approvable : ∃ (tr : List (Step State Label)) (s s' : State) (m : Addr)
    (p : PoolState) (req req' : RedemptionRequest) (us : List UtxoEntry),
    Reaches (step env) (fun _ _ => True) .genesis tr s ∧ Reserves s.records markSwept m req us ∧
      processMarkProcessing env markSwept s = .ok s' ∧
      req.amountSats ≤ maxRedemptionAmountSats ∧ p.paused = false ∧
      s'.records.redemptions (req.storeKey m) = some req' ∧ ¬ Approvable p req' := by
  obtain ⟨s, hs, hswept⟩ := (Option.any_eq_true _ _).mp run_lowFee
  obtain ⟨tr, -, hrun⟩ := reaches_of_exec (fun _ _ _ => trivial) hs
  obtain ⟨req, u, s', p, req', hpend, hmark, hpaused, hreq', hq⟩ := of_sweptReserved hswept
  obtain ⟨hdust, hfee⟩ := (Bool.and_eq_true _ _).mp hq
  obtain ⟨hfee, hlimit⟩ := of_decide_eq_true hfee
  refine ⟨tr, s, s', _, p, req, req', _, hrun, reserves_of_sweptPending hpend, hmark,
    hpend.2.2.2.1, hpaused, hreq', fun happ => ?_⟩
  rw [approvable_amounts hpaused hlimit hfee] at happ
  rw [Bool.not_eq_true', decide_eq_false_iff_not] at hdust
  exact hdust happ.2.2

open Regtest in
/-- The reservation of a run. -/
theorem reserved_approvable_iff_lowFee : ∃ (p : PoolState) (req req' : RedemptionRequest)
    (us : List UtxoEntry), Approvable p req' ↔ ¬ req.StrandsDust (amountsOf us).sum := by
  obtain ⟨s, hs, hswept⟩ := (Option.any_eq_true _ _).mp run_lowFee
  obtain ⟨tr, -, hrun⟩ : ∃ tr, tr.map Step.call = lowFeeRedeemed ∧
      Reaches (step env) (fun _ _ => True) .genesis tr s := reaches_of_exec (fun _ _ _ => trivial) hs
  obtain ⟨req, u, s', p, req', hpend, hmark, hpaused, hreq', -⟩ := of_sweptReserved hswept
  exact ⟨p, req, req', _, reserved_approvable_iff hrun (reserves_of_sweptPending hpend) hmark
    hpend.2.2.2.1 hpaused hreq'⟩

open Regtest in
/-- **Refused and approvable**: the swept output is refused, and an approval at a fee of 1000 would
accept it. -/
theorem refused_approvable : ∃ (tr : List (Step State Label)) (s : State) (m : Addr)
    (p : PoolState) (req : RedemptionRequest) (us : List UtxoEntry),
    Reaches (step env) (fun _ _ => True) .genesis tr s ∧ Reserves s.records markSwept m req us ∧
      s.records.pools m = some p ∧
      processMarkProcessing env markSwept s = .error (.Custom .InsufficientReservedInputs) ∧
      Approvable p (req.process env 0 us) := by
  obtain ⟨s, hs, hswept⟩ := (Option.any_eq_true _ _).mp run_largeRedeemed
  obtain ⟨tr, -, hrun⟩ := reaches_of_exec (fun _ _ _ => trivial) hs
  obtain ⟨req, -, h⟩ := (Option.any_eq_true _ _).mp hswept
  obtain ⟨u, -, h⟩ := (Option.any_eq_true _ _).mp h
  obtain ⟨h, hpool⟩ := (Bool.and_eq_true _ _).mp h
  obtain ⟨hpend, hrefused⟩ := (Bool.and_eq_true _ _).mp h
  obtain ⟨p, hp, happ⟩ := (Option.any_eq_true _ _).mp hpool
  have hpend := of_decide_eq_true hpend
  have hrefused := of_decide_eq_true hrefused
  refine ⟨tr, s, _, p, req, _, hrun, reserves_of_sweptPending hpend, hp, ?_, 1000, by decide,
    of_decide_eq_true happ⟩
  cases hres : processMarkProcessing env markSwept s with
  | ok s' => rw [hres] at hrefused; exact absurd hrefused (by simp)
  | error e =>
    rw [hres] at hrefused
    exact congrArg Except.error (Option.some_inj.mp hrefused)

end Utxopia.Pool
