import Utxopia.Pool.Redeem
import Utxopia.Pool.TokensBooks

/-!
What redeeming, reserving and cancelling do to the books.

A pass over accounts of outputs rewrites every record it accepts so that it would not accept
it again. The records of a successful pass are therefore all different, whatever accounts the
caller gave.
-/

namespace Utxopia.Pool

open Utxopia.ByteString Utxopia.Check Utxopia.Runtime

variable {E : Env} {s s' : State} {c : Call}

/-! ### Passes over outputs -/

/-- An output's record with the key it is stored under. -/
abbrev UtxoEntry := (Addr × Outpoint) × UtxoRecord

def utxoAddr (e : UtxoEntry) : Addr := .utxo e.1.1 e.1.2

/-- Different records of the books. -/
structure Picked (r : Records) (us : List UtxoEntry) : Prop where
  nodup : (us.map Prod.fst).Nodup
  recorded : ∀ e ∈ us, r.utxos e.1 = some e.2

/-- The writes of a pass that makes `f u` of every record `u`. -/
def pickedEntries (f : UtxoRecord → Option UtxoRecord) (us : List UtxoEntry) :
    List ((Addr × Outpoint) × Option UtxoRecord) :=
  us.map fun e => (e.1, f e.2)

@[simp] lemma pickedEntries_keys (f : UtxoRecord → Option UtxoRecord) (us : List UtxoEntry) :
    (pickedEntries f us).map Prod.fst = us.map Prod.fst := by
  simp [pickedEntries, Function.comp_def]

lemma pickedEntries_append (f : UtxoRecord → Option UtxoRecord) (us vs : List UtxoEntry) :
    pickedEntries f (us ++ vs) = pickedEntries f us ++ pickedEntries f vs := by
  simp [pickedEntries]

def amountsOf (us : List UtxoEntry) : List ℕ := us.map fun e => e.2.amountSats

@[simp] lemma amountsOf_append (us vs : List UtxoEntry) :
    amountsOf (us ++ vs) = amountsOf us ++ amountsOf vs := List.map_append

section Pass

variable {σ : Type} {g : σ → AccountInfo → Except ProgramError σ} {w : σ → State}
  {P : UtxoRecord → Prop} {f : UtxoRecord → Option UtxoRecord} {I : List UtxoEntry → σ → Prop}

/-- One more record, which the pass has not seen. -/
lemma Picked.concat {r : Records} {us : List UtxoEntry} {e : UtxoEntry} (hus : Picked r us)
    (hP : ∀ e ∈ us, P e.2) (hf : ∀ u u', P u → f u = some u' → ¬ P u')
    (he : (r.updateUtxos (pickedEntries f us)).utxos e.1 = some e.2) (hPe : P e.2) :
    Picked r (us ++ [e]) := by
  have hnew : e.1 ∉ us.map Prod.fst := by
    intro hmem
    have hkeys : e.1 ∈ (pickedEntries f us).map Prod.fst := by rwa [pickedEntries_keys]
    obtain ⟨v, hv, heq⟩ := Store.updates_of_mem (m := r.utxos) hkeys
    obtain ⟨d, hd, hdv⟩ := List.mem_map.mp hv
    rw [Prod.mk.injEq] at hdv
    have hfd : f d.2 = some e.2 := by
      rw [hdv.2, ← heq]
      exact he
    exact hf d.2 e.2 (hP d hd) hfd hPe
  refine ⟨?_, fun d hd => ?_⟩
  · rw [List.map_append, List.nodup_append]
    refine ⟨hus.nodup, by simp, ?_⟩
    rintro a ha b hb rfl
    rw [List.map_singleton, List.mem_singleton] at hb
    exact hnew (hb ▸ ha)
  · rcases List.mem_append.mp hd with hd | hd
    · exact hus.recorded d hd
    · obtain rfl := List.mem_singleton.mp hd
      rw [← he]
      exact (Store.updates_of_notMem (by rwa [pickedEntries_keys])).symm

/-- **A pass** accepts different records of the books, whatever accounts it is given. -/
theorem loop_picked
    (hstep : ∀ us acc info acc', I us acc → g acc info = .ok acc' → ∃ e : UtxoEntry,
      info.key = utxoAddr e ∧ (w acc).records.utxos e.1 = some e.2 ∧ P e.2 ∧
      (w acc').records = (w acc).records.updateUtxos (pickedEntries f [e]) ∧
      I (us ++ [e]) acc')
    (hf : ∀ u u', P u → f u = some u' → ¬ P u') {acc acc' : σ} {infos : List AccountInfo}
    (h0 : I [] acc) (h : loop g acc infos = .ok acc') :
    ∃ us : List UtxoEntry, us.map utxoAddr = infos.map AccountInfo.key ∧
      Picked (w acc).records us ∧ (∀ e ∈ us, P e.2) ∧
      (w acc').records = (w acc).records.updateUtxos (pickedEntries f us) ∧ I us acc' := by
  have hnext : ∀ (seen : List AccountInfo) acc₁ info acc₂,
      (∃ us : List UtxoEntry, us.map utxoAddr = seen.map AccountInfo.key ∧
        Picked (w acc).records us ∧ (∀ e ∈ us, P e.2) ∧
        (w acc₁).records = (w acc).records.updateUtxos (pickedEntries f us) ∧ I us acc₁) →
      g acc₁ info = .ok acc₂ →
      ∃ us : List UtxoEntry, us.map utxoAddr = (seen ++ [info]).map AccountInfo.key ∧
        Picked (w acc).records us ∧ (∀ e ∈ us, P e.2) ∧
        (w acc₂).records = (w acc).records.updateUtxos (pickedEntries f us) ∧ I us acc₂ := by
    rintro seen acc₁ info acc₂ ⟨us, hkeys, hus, hP, hrec, hI⟩ hg
    obtain ⟨e, hk, he, hPe, hrec', hI'⟩ := hstep us acc₁ info acc₂ hI hg
    rw [hrec] at he hrec'
    refine ⟨us ++ [e], by simp [hkeys, hk], hus.concat hP hf he hPe, ?_, ?_, hI'⟩
    · intro d hd
      rcases List.mem_append.mp hd with hd | hd
      · exact hP d hd
      · rw [List.mem_singleton.mp hd]
        exact hPe
    · rw [hrec', pickedEntries_append]
      exact Records.ext rfl rfl rfl rfl (Store.updates_append ..).symm rfl rfl rfl rfl rfl rfl rfl rfl rfl rfl
  have hrun := loop_prefix_inv hnext (p := []) ⟨[], rfl, ⟨by simp, by simp⟩, by simp, rfl, h0⟩ h
  simpa using hrun

end Pass

/-- The keys of `n` accounts of a call from a position on. -/
def Call.keysFrom (c : Call) (start n : ℕ) : List Addr :=
  ((c.accounts.drop start).take n).map AccountInfo.key

lemma length_of_keysFrom {us : List UtxoEntry} {start n : ℕ}
    (hroom : start + n ≤ c.accounts.length) (h : us.map utxoAddr = c.keysFrom start n) :
    us.length = n := by
  have := congrArg List.length h
  rw [List.length_map, Call.keysFrom, List.length_map, List.length_take, List.length_drop] at this
  omega

/-! ### A request of a pool -/

def RedemptionRequest.addr (req : RedemptionRequest) (m : Addr) : Addr :=
  .redemption (.poolState m) req.requester req.requestId

/-- A call names a pool, in place `i`, one of its requests next to it, and outputs from place
`start` on. -/
structure Names (c : Call) (m : Addr) (req : RedemptionRequest) (i start n : ℕ)
    (us : List UtxoEntry) : Prop where
  pool : c.accounts[i]?.map AccountInfo.key = some (.poolState m)
  request : c.accounts[i + 1]?.map AccountInfo.key = some (req.addr m)
  outputs : us.map utxoAddr = c.keysFrom start n

/-- The accounts of an instruction are a pool of the books and one of its requests. -/
structure AtRedemption (r : Records) (pool redemption : AccountInfo) (m : Addr) (p : PoolState)
    (req : RedemptionRequest) : Prop where
  pool_key : pool.key = .poolState m
  mint : p.zkbtcMint = m
  pool : r.pools m = some p
  key : redemption.key = .redemption (.poolState m) req.requester req.requestId
  request : r.redemptions (.poolState m, req.requester, req.requestId) = some req

lemma redemption_of_key {a pool q : Addr} {n : ℕ} {req : RedemptionRequest}
    (ho : s.ownerOf E c a = .program) (hk : a = .redemption pool q n)
    (h : s.redemptionAt a = some req) : s.records.redemptions (pool, q, n) = some req := by
  obtain ⟨pool', q', n', hk', hrec⟩ := redemption_of_owned ho h
  obtain ⟨rfl, rfl, rfl⟩ : pool = pool' ∧ q = q' ∧ n = n' := by simpa [hk] using hk'
  exact hrec

lemma validateRedemptionPda_ok {redemption pool : AccountInfo} {p : PoolState}
    {req : RedemptionRequest} {u : Unit} (hread : readPool s pool = .ok p)
    (hreq : readRedemption s redemption = .ok req)
    (h : validateRedemptionPda E s c redemption pool = .ok u) :
    AtRedemption s.records pool redemption p.zkbtcMint p req := by
  simp only [validateRedemptionPda, bind_eq_ok, validateProgramOwner_ok, require_eq_ok,
    exists_unit] at h
  obtain ⟨ho, hpool, req', hreq', hk⟩ := h
  obtain rfl : req' = req := by rw [hreq] at hreq'; exact (Except.ok.inj hreq').symm
  obtain ⟨p₀, hkey, hrec⟩ := validatePoolStatePda_ok hpool
  obtain rfl := readPool_of_records hkey hrec hread
  rw [hkey] at hk
  rw [readRedemption, orElse_eq_ok] at hreq
  exact ⟨hkey, rfl, hrec, hk, redemption_of_key ho hk hreq⟩

lemma closeRedemption_records {k : Addr × Addr × ℕ} {recipient : Addr} :
    (closeRedemption s (.redemption k.1 k.2.1 k.2.2) recipient).records =
      s.records.updateRedemptions [(k, none)] := by
  simp only [closeRedemption, records_fund]
  refine Records.ext rfl rfl rfl rfl rfl ?_ rfl rfl rfl rfl rfl rfl rfl rfl rfl
  exact (Store.recs_set ..).trans (by rw [Account.rec?_close]; rfl)

/-! ### Redeeming -/

/-- The request of one public output, at the pool's fees. -/
def RedeemPlan.request (plan : RedeemPlan) (p : PoolState) (item : RedeemItem) :
    RedemptionRequest where
  status := .Pending
  btcScript := item.script
  signingApproved := false
  processingSlot := 0
  requestId := item.nonce
  requester := plan.user.key
  amountSats := item.amount
  serviceFee := p.computeServiceFee item.amount
  totalInputSats := 0
  tokenId := plan.tokenId
  reservedCount := 0
  approvedInputs := 0
  approvalMinerFee := 0
  inputsCommitment := zeros 32

def RedeemPlan.requestKey (plan : RedeemPlan) (m : Addr) (item : RedeemItem) : Addr × Addr × ℕ :=
  (.poolState m, plan.user.key, item.nonce)

def RedeemPlan.entries (plan : RedeemPlan) (m : Addr) (p : PoolState) (items : List RedeemItem) :
    List ((Addr × Addr × ℕ) × Option RedemptionRequest) :=
  items.map fun item => (plan.requestKey m item, some (plan.request p item))

@[simp] lemma RedeemPlan.entries_keys (plan : RedeemPlan) (m : Addr) (p : PoolState)
    (items : List RedeemItem) :
    (plan.entries m p items).map Prod.fst = items.map (plan.requestKey m) := by
  simp [RedeemPlan.entries, Function.comp_def]

lemma createRedemption_ok {plan : RedeemPlan} {m : Addr} {p : PoolState}
    {entry : AccountInfo × RedeemItem} (hk : plan.pool.key = .poolState m)
    (hp : s.records.pools m = some p) (h : createRedemption E plan s entry = .ok s') :
    s.records.redemptions (plan.requestKey m entry.2) = none ∧
      p.computeServiceFee entry.2.amount < entry.2.amount ∧
      s'.records = s.records.updateRedemptions (plan.entries m p [entry.2]) := by
  simp only [createRedemption, bind_eq_ok, require_eq_ok, exists_unit, pure_eq_ok] at h
  obtain ⟨-, -, hnone, acc, hacc, p', hp', hfee, rfl⟩ := h
  obtain rfl := readPool_of_records hk hp hp'
  rw [hk] at hnone ⊢
  exact ⟨Account.rec?_eq_none_of_live? hnone, hfee, Records.ext rfl rfl rfl rfl rfl
    (recs_create (createOrClaim_owner hacc) _) rfl rfl rfl rfl rfl rfl rfl rfl rfl⟩

/-- Every public output opens a request that was not there, each under its own key. -/
theorem createRedemptions_ok {plan : RedeemPlan} {m : Addr} {p : PoolState}
    {items : List (AccountInfo × RedeemItem)} (hk : plan.pool.key = .poolState m)
    (hp : s.records.pools m = some p) (h : loop (createRedemption E plan) s items = .ok s') :
    ((items.map Prod.snd).map (plan.requestKey m)).Nodup ∧
      (∀ item ∈ items.map Prod.snd, s.records.redemptions (plan.requestKey m item) = none ∧
        p.computeServiceFee item.amount < item.amount) ∧
      s'.records = s.records.updateRedemptions (plan.entries m p (items.map Prod.snd)) := by
  induction items generalizing s with
  | nil =>
    simp only [loop_nil, Except.ok.injEq] at h
    subst h
    exact ⟨by simp, by simp, rfl⟩
  | cons item items ih =>
    obtain ⟨s₁, hs₁, hrest⟩ := loop_cons_eq_ok.mp h
    obtain ⟨hnone, hfee, hrec⟩ := createRedemption_ok hk hp hs₁
    obtain ⟨hnd, hfree, hfinal⟩ := ih (by rw [hrec]; exact hp) hrest
    rw [hrec] at hfree hfinal
    have hnew : ∀ i ∈ items.map Prod.snd, plan.requestKey m i ≠ plan.requestKey m item.2 := by
      intro i hi heq
      have := (hfree i hi).1
      rw [heq] at this
      exact absurd this (by simp [Records.updateRedemptions, RedeemPlan.entries])
    refine ⟨?_, ?_, hfinal⟩
    · rw [List.map_cons, List.map_cons, List.nodup_cons]
      refine ⟨fun hmem => ?_, hnd⟩
      obtain ⟨i, hi, heq⟩ := List.mem_map.mp hmem
      exact hnew i hi heq
    · intro i hi
      rw [List.map_cons, List.mem_cons] at hi
      rcases hi with rfl | hi
      · exact ⟨hnone, hfee⟩
      · refine ⟨?_, (hfree i hi).2⟩
        have := (hfree i hi).1
        simp only [Records.updateRedemptions] at this
        rwa [Store.updates_of_notMem (by simpa [RedeemPlan.entries] using hnew i hi)] at this

lemma addRedeemAmounts_ok {items : List RedeemItem} {total total' : ℕ}
    (h : loop addRedeemAmount total items = .ok total') :
    total' = total + (items.map RedeemItem.amount).sum ∧ ∀ i ∈ items, i.amount ≠ 0 := by
  induction items generalizing total with
  | nil =>
    simp only [loop_nil, Except.ok.injEq] at h
    simp [h]
  | cons item items ih =>
    obtain ⟨t, ht, hrest⟩ := loop_cons_eq_ok.mp h
    simp only [addRedeemAmount, bind_eq_ok, require_eq_ok, exists_unit, checkedAdd_eq_ok] at ht
    obtain ⟨hne, -, rfl⟩ := ht
    obtain ⟨hsum, hall⟩ := ih hrest
    refine ⟨?_, List.forall_mem_cons.mpr ⟨hne, hall⟩⟩
    rw [hsum, List.map_cons, List.sum_cons]
    omega

/-- What may be paid: no data output and nothing longer than a program's script. -/
def Payable (script : List UInt8) : Prop :=
  script ≠ [] ∧ script.length ≤ maxBtcScriptLen ∧ script.head? ≠ some 0x6a

lemma readRedeemItems_payable {d : List UInt8} {n off off' : ℕ} {items : List RedeemItem}
    (h : readRedeemItems d n off = .ok (items, off')) : ∀ i ∈ items, Payable i.script := by
  induction n generalizing off off' items with
  | zero =>
    simp only [readRedeemItems, Except.ok.injEq, Prod.mk.injEq] at h
    simp [← h.1]
  | succ n ih =>
    simp only [readRedeemItems, bind_eq_ok, Prod.exists, pure_eq_ok, Prod.mk.injEq] at h
    obtain ⟨item, off₁, hitem, items', off₂, hrest, rfl, rfl⟩ := h
    simp only [readRedeemItem, bind_eq_ok, require_eq_ok, exists_unit, pure_eq_ok,
      Prod.mk.injEq] at hitem
    obtain ⟨-, ⟨hpos, hlen⟩, hroom, hhead, -, rfl, -⟩ := hitem
    have hsize : ((d.drop (off + 9)).take (byteAt d (off + 8))).length = byteAt d (off + 8) := by
      rw [List.length_take, List.length_drop]
      omega
    refine List.forall_mem_cons.mpr ⟨⟨fun hnil => hpos ?_, hsize.trans_le hlen, hhead⟩, ih hrest⟩
    rw [← hsize]
    exact congrArg List.length hnil

lemma readRedeemItems_length {d : List UInt8} {n off off' : ℕ} {items : List RedeemItem}
    (h : readRedeemItems d n off = .ok (items, off')) : items.length = n := by
  induction n generalizing off off' items with
  | zero =>
    simp only [readRedeemItems, Except.ok.injEq, Prod.mk.injEq] at h
    simp [← h.1]
  | succ n ih =>
    simp only [readRedeemItems, bind_eq_ok, Prod.exists, pure_eq_ok, Prod.mk.injEq] at h
    obtain ⟨item, off₁, -, items', off₂, hrest, rfl, rfl⟩ := h
    rw [List.length_cons, ih hrest]

/-- What a plan has established. -/
structure RedeemPlan.Sound (r : Records) (c : Call) (plan : RedeemPlan) (m : Addr) (p : PoolState)
    (tc : TokenConfig) (t : CommitmentTree) : Prop where
  at_tree : AtActiveTree r plan.pool plan.tree m p t
  config_key : plan.tokenConfig.key = .tokenConfig (.poolState m) m
  config : r.tokenConfigs (.poolState m, m) = some tc
  config_mint : tc.mint = m
  tokenId : plan.tokenId = tc.tokenId
  active : plan.activeIndex = p.activeTreeIndex
  source : SourceTree r (.poolState m) p.activeTreeIndex plan.sourceTreeIndex plan.pre.merkleRoot
  total : plan.totalRedeem = (plan.items.map RedeemItem.amount).sum
  positive : ∀ i ∈ plan.items, i.amount ≠ 0
  payable : ∀ i ∈ plan.items, Payable i.script
  count : plan.items.length = plan.header.nPublicOutputs
  room : 6 + plan.header.nInputs + plan.header.nPublicOutputs ≤ c.accounts.length

lemma planRedeem_ok {plan : RedeemPlan} (h : planRedeem E s c = .ok plan) :
    ∃ m p tc t, plan.Sound s.records c m p tc t := by
  simp only [planRedeem, readZkbtcConfig, validateAccountCount, bind_eq_ok, exists_unit,
    require_eq_ok, pure_eq_ok, validateProgramOwner_ok, Prod.exists] at h
  obtain ⟨hd, -, -, hroom, pre, -, items, off, hitems, -, pool, -, tree, -, vk, -, user, -, h⟩ := h
  obtain ⟨sys, -, tokenConfig, -, hpo, hto, -, hco, -, -, -, -, -, p, hread, tc, h⟩ := h
  obtain ⟨⟨tc', htc, -, hkey, hzk, rfl⟩, -, hactive, -, policyTail, -, tail, -, sourceTree, h⟩ := h
  obtain ⟨-, _, -, _, -, -, total, htotal, -, src, hsrc, -, rfl⟩ := h
  obtain ⟨t, ht⟩ := readTree_of_verify hsrc
  obtain ⟨m, hat⟩ := atActiveTree hto hread ht hactive
  rw [readTokenConfig, orElse_eq_ok] at htc
  obtain ⟨hsum, hpos⟩ := addRedeemAmounts_ok htotal
  rw [hat.pool_key, hzk, hat.mint] at hkey
  refine ⟨m, p, tc', t, hat, hkey, tokenConfig_of_key hco hkey htc, hzk.trans hat.mint, rfl, rfl,
    verifyVkMerkleAndProof_ok hat hsrc, by simpa using hsum, hpos, readRedeemItems_payable hitems,
    readRedeemItems_length hitems, ?_⟩
  exact (Nat.le_add_right ..).trans hroom

def RedeemPlan.treeOutputs (plan : RedeemPlan) : List Hash :=
  plan.pre.commitmentsOut.take plan.nTreeOutputs

/-- Notes were spent for requests. -/
structure Redeeming (E : Env) (r : Records) (c : Call) (plan : RedeemPlan) (m : Addr)
    (p : PoolState) (tc : TokenConfig) (t t' : CommitmentTree) : Prop where
  sound : plan.Sound r c m p tc t
  burnable : Burnable r m plan.sourceTreeIndex plan.pre.nullifiers
  appended : t.Appended E plan.treeOutputs t'
  covered : plan.totalRedeem ≤ tc.totalShielded
  keys : (plan.items.map (plan.requestKey m)).Nodup
  fresh : ∀ i ∈ plan.items, r.redemptions (plan.requestKey m i) = none ∧
    p.computeServiceFee i.amount < i.amount

/-- The pool after requests were opened. -/
def PoolState.openRequests (p : PoolState) (n total : ℕ) (now : ℤ) : PoolState :=
  { p with
    totalShielded := total
    pendingRedemptions := saturatingAdd 64 p.pendingRedemptions n
    lastUpdate := now }

/-- The books after a redemption was requested. -/
def Records.redeem (r : Records) (plan : RedeemPlan) (m : Addr) (p : PoolState) (tc : TokenConfig)
    (t t' : CommitmentTree) (now : ℤ) : Records :=
  let p' := NullifierAccounting.ApplyNow.count plan.pre.nullifiers.length p
  let tc' := tc.release plan.totalRedeem 0
  ((((r.burn m p plan.sourceTreeIndex plan.pre.nullifiers .ApplyNow).place (.poolState m)
    p.activeTreeIndex t t' plan.treeOutputs).updateRedemptions
      (plan.entries m p plan.items)).putTokenConfig (.poolState m, m) tc').putPool m
        (p'.openRequests plan.items.length tc'.totalShielded now)

/-- **Redeeming** burns notes and opens requests for their value. -/
theorem processRedeem_ok (h : processRedeem E s c = .ok s') :
    ∃ plan m p tc t t', planRedeem E s c = .ok plan ∧
      Redeeming E s.records c plan m p tc t t' ∧
      s'.records = s.records.redeem plan m p tc t t' c.unixTimestamp := by
  simp only [processRedeem, bind_eq_ok, pure_eq_ok] at h
  obtain ⟨plan, hplan, s₁, hburn, s₂, hins, s₃, hreqs, tc', htc', tc₁, htc₁, p', hp', rfl⟩ := h
  obtain ⟨m, p, tc, t, hs⟩ := planRedeem_ok hplan
  obtain ⟨hburnable, hrec₁⟩ := burn_ok hs.at_tree.pool_key hs.at_tree.pool hburn
  obtain ⟨t', happ, hrec₂⟩ := insertOutputs_ok (t := t)
    (by rw [hs.at_tree.tree_key, hs.at_tree.pool_key, hs.active])
    (by rw [hrec₁, hs.at_tree.pool_key, hs.active]; exact hs.at_tree.tree) hins
  have hpool₂ : s₂.records.pools m =
      some (NullifierAccounting.ApplyNow.count plan.pre.nullifiers.length p) := by
    rw [hrec₂, hrec₁]
    exact Function.update_self ..
  obtain ⟨hkeys, hfresh, hrec₃⟩ := createRedemptions_ok hs.at_tree.pool_key hpool₂ hreqs
  have hitems : ((c.accounts.drop (6 + plan.header.nInputs)).zip plan.items).map Prod.snd =
      plan.items := by
    rw [List.map_snd_zip]
    have := hs.room
    rw [List.length_drop, hs.count]
    omega
  have hentries : plan.entries m (NullifierAccounting.ApplyNow.count plan.pre.nullifiers.length p)
      plan.items = plan.entries m p plan.items := rfl
  rw [hitems] at hkeys hfresh hrec₃
  rw [hrec₂, hrec₁] at hfresh
  rw [hentries, hrec₂, hrec₁, hs.at_tree.pool_key, hs.active] at hrec₃
  have hcfg : s₃.records.tokenConfigs (.poolState m, m) = some tc := by
    rw [hrec₃]
    exact hs.config
  obtain rfl := readTokenConfig_of_records hs.config_key hcfg htc'
  obtain ⟨hle, rfl⟩ := TokenConfig.subShielded_ok htc₁
  have hrec₄ : (s₃.putTokenConfig (tc'.release plan.totalRedeem 0) plan.tokenConfig.key).records =
      s₃.records.putTokenConfig (.poolState m, m) (tc'.release plan.totalRedeem 0) := by
    rw [hs.config_key]
    exact records_putTokenConfig (k := (.poolState m, m)) hcfg _
  have hpool₄ : (s₃.putTokenConfig (tc'.release plan.totalRedeem 0)
      plan.tokenConfig.key).records.pools m =
        some (NullifierAccounting.ApplyNow.count plan.pre.nullifiers.length p) := by
    rw [hrec₄, hrec₃]
    exact Function.update_self ..
  obtain rfl := readPool_of_records hs.at_tree.pool_key hpool₄ hp'
  refine ⟨plan, m, p, tc', t, t', hplan, ⟨hs, hburnable, happ, hle, hkeys, hfresh⟩, ?_⟩
  rw [hs.at_tree.pool_key]
  refine (records_putPool hpool₄ _).trans ?_
  rw [hrec₄, hrec₃, Records.redeem, hs.count]
  rfl

/-! ### Reserving -/

/-- An output put aside under a reservation key. -/
def UtxoRecord.reserve (u : UtxoRecord) (reservationKey : ℕ) : UtxoRecord :=
  { u with status := .Reserved, reservedForRequestId := reservationKey }

/-- An input as the marking sees it: without its leaf. -/
def UtxoRecord.plainInput (u : UtxoRecord) : ReservedInput := ⟨u.txid, u.vout, u.amountSats, none⟩

/-- What the pass of a marking carries. -/
structure Reserving.Sound (pool : Addr) (us : List UtxoEntry) (acc : Reserving) : Prop where
  inputs : acc.inputs = us.map fun e => e.2.plainInput
  total : acc.total = (amountsOf us).sum
  keys : ∀ e ∈ us, e.1 = (pool, e.2.txid, e.2.vout)

lemma reserveUtxo_ok {pool : Addr} {reservationKey : ℕ} {us : List UtxoEntry}
    {acc acc' : Reserving} {info : AccountInfo} (hacc : acc.Sound pool us)
    (h : reserveUtxo E c pool reservationKey acc info = .ok acc') :
    ∃ e : UtxoEntry, info.key = utxoAddr e ∧ acc.state.records.utxos e.1 = some e.2 ∧
      e.2.status = .Unspent ∧
      acc'.state.records = acc.state.records.updateUtxos
        (pickedEntries (fun u => some (u.reserve reservationKey)) [e]) ∧
      acc'.Sound pool (us ++ [e]) := by
  simp only [reserveUtxo, bind_eq_ok, validateProgramOwner_ok, exists_unit, orElse_eq_ok,
    require_eq_ok, checkedAdd_eq_ok, pure_eq_ok] at h
  obtain ⟨ho, -, u, hu, hstatus, hk, _, ⟨-, rfl⟩, rfl⟩ := h
  obtain ⟨pool', o, hk', hrec⟩ := utxo_of_owned ho hu
  obtain ⟨rfl, rfl⟩ : pool = pool' ∧ (u.txid, u.vout) = o := by simpa [hk] using hk'
  refine ⟨((pool, u.txid, u.vout), u), hk, hrec, hstatus, ?_, ?_, ?_, ?_⟩
  · rw [hk]
    exact records_putUtxo (k := (pool, u.txid, u.vout)) hrec _
  · simp [hacc.inputs, UtxoRecord.plainInput]
  · simp [hacc.total, amountsOf]
  · intro e he
    rcases List.mem_append.mp he with he | he
    · exact hacc.keys e he
    · rw [List.mem_singleton.mp he]

/-- The outputs of a reservation: unspent ones of the pool, all different. -/
structure Reservation (r : Records) (pool : Addr) (us : List UtxoEntry) : Prop where
  picked : Picked r us
  unspent : ∀ e ∈ us, e.2.status = .Unspent
  keys : ∀ e ∈ us, e.1 = (pool, e.2.txid, e.2.vout)

lemma reserveUtxos_ok {pool : Addr} {reservationKey : ℕ} {infos : List AccountInfo}
    {acc' : Reserving} (h : loop (reserveUtxo E c pool reservationKey) ⟨s, [], 0⟩ infos = .ok acc') :
    ∃ us : List UtxoEntry, us.map utxoAddr = infos.map AccountInfo.key ∧
      Reservation s.records pool us ∧ acc'.state.records = s.records.updateUtxos
        (pickedEntries (fun u => some (u.reserve reservationKey)) us) ∧ acc'.Sound pool us := by
  obtain ⟨us, hkeys, hus, hP, hrec, hI⟩ := loop_picked (w := Reserving.state)
    (P := fun u => u.status = .Unspent) (I := fun us acc => acc.Sound pool us)
    (fun us acc info acc' hI hg => reserveUtxo_ok hI hg)
    (fun u u' _ hu' => by rw [← Option.some_inj.mp hu']; simp [UtxoRecord.reserve])
    ⟨rfl, rfl, by simp⟩ h
  exact ⟨us, hkeys, ⟨hus, hP, hI.keys⟩, hrec, hI⟩

/-- What has to be paid out and may be paid to the miner. -/
def RedemptionRequest.requiredSats (req : RedemptionRequest) : ℕ :=
  req.amountSats - req.serviceFee + min maxMinerFeeSats req.serviceFee

lemma checkReservedTotal_ok {req : RedemptionRequest} {inputs : List ReservedInput} {total : ℕ}
    {u : Unit} (h : checkReservedTotal req inputs total = .ok u) :
    req.serviceFee ≤ req.amountSats ∧ req.requiredSats ≤ total ∧
      ∃ smallest, (inputs.map ReservedInput.amountSats).min? = some smallest ∧
        total - smallest < req.requiredSats := by
  simp only [checkReservedTotal, bind_eq_ok, require_eq_ok, exists_unit, checkedAdd_eq_ok,
    orElse_eq_ok] at h
  obtain ⟨hfee, _, ⟨-, rfl⟩, hle, smallest, hmin, hlt⟩ := h
  exact ⟨hfee, hle, smallest, hmin, hlt⟩

/-- The pool without outputs that were put aside. -/
def PoolState.withhold (p : PoolState) (total n : ℕ) : PoolState :=
  { p with totalBtcHeld := p.totalBtcHeld - total, utxoCount := p.utxoCount - n }

lemma removeUtxos_ok {p p' : PoolState} {inputs : List ReservedInput}
    (h : loop (fun p (i : ReservedInput) => PoolState.removeUtxo p i.amountSats) p inputs = .ok p') :
    (inputs.map ReservedInput.amountSats).sum ≤ p.totalBtcHeld ∧ inputs.length ≤ p.utxoCount ∧
      p' = p.withhold (inputs.map ReservedInput.amountSats).sum inputs.length := by
  induction inputs generalizing p with
  | nil =>
    simp only [loop_nil, Except.ok.injEq] at h
    simp [← h, PoolState.withhold]
  | cons i inputs ih =>
    obtain ⟨p₁, hp₁, hrest⟩ := loop_cons_eq_ok.mp h
    obtain ⟨ha, hc, rfl⟩ := PoolState.removeUtxo_ok hp₁
    obtain ⟨hsum, hlen, rfl⟩ := ih hrest
    dsimp only at hsum hlen
    refine ⟨?_, ?_, ?_⟩
    · rw [List.map_cons, List.sum_cons]
      omega
    · rw [List.length_cons]
      omega
    · simp only [PoolState.withhold, List.map_cons, List.sum_cons, List.length_cons]
      congr 1 <;> omega

/-- The request once its inputs are fixed. -/
def RedemptionRequest.process (req : RedemptionRequest) (E : Env) (slot : ℕ)
    (us : List UtxoEntry) : RedemptionRequest :=
  { req with
    status := .Processing
    processingSlot := slot
    totalInputSats := (amountsOf us).sum
    reservedCount := us.length
    inputsCommitment := Pool.inputsCommitment E (canonicalSort (us.map fun e => e.2.plainInput)) }

def RedemptionRequest.storeKey (req : RedemptionRequest) (m : Addr) : Addr × Addr × ℕ :=
  (.poolState m, req.requester, req.requestId)

/-- The reservation key of a request of the pool. -/
def reservationKeyOf (E : Env) (k : Addr × Addr × ℕ) : ℕ :=
  redemptionReservationKey E (.redemption k.1 k.2.1 k.2.2)

/-- A driver fixed the inputs of a pending request. -/
structure Marking (r : Records) (m : Addr) (p : PoolState) (req : RedemptionRequest)
    (us : List UtxoEntry) : Prop where
  mint : p.zkbtcMint = m
  pool : r.pools m = some p
  request : r.redemptions (req.storeKey m) = some req
  pending : req.status = .Pending
  reservation : Reservation r (.poolState m) us
  nonempty : us ≠ []
  enough : req.serviceFee ≤ req.amountSats ∧ req.requiredSats ≤ (amountsOf us).sum
  tight : ∃ smallest, (amountsOf us).min? = some smallest ∧
    (amountsOf us).sum - smallest < req.requiredSats
  held : (amountsOf us).sum ≤ p.totalBtcHeld ∧ us.length ≤ p.utxoCount

/-- The books after inputs were fixed. -/
def Records.mark (r : Records) (E : Env) (m : Addr) (p : PoolState) (req : RedemptionRequest)
    (us : List UtxoEntry) (slot : ℕ) : Records :=
  ((r.updateUtxos (pickedEntries
    (fun u => some (u.reserve (reservationKeyOf E (req.storeKey m)))) us)).putPool m
      (p.withhold (amountsOf us).sum us.length)).updateRedemptions
        [(req.storeKey m, some (req.process E slot us))]

/-- **Marking** puts different unspent outputs aside for a pending request. -/
theorem processMarkProcessing_ok (h : processMarkProcessing E c s = .ok s') :
    ∃ m p req us slot, Marking s.records m p req us ∧ Names c m req 0 3 (byteAt c.data 0) us ∧
      s'.records = s.records.mark E m p req us slot := by
  simp only [processMarkProcessing, Call.atLeast, bind_eq_ok, exists_unit, require_eq_ok,
    pure_eq_ok] at h
  obtain ⟨-, pool, hpacc, redemption, hacc, authority, -, -, -, hpda, -, -, p, hread, -, h⟩ := h
  obtain ⟨req, hreq, -, -, hcount, hlen, -, hpending, got, hgot, htotal, p', hp', rfl⟩ := h
  have hat := validateRedemptionPda_ok hread hreq hpda
  obtain ⟨us, hus, hres, hrec, hsound⟩ := reserveUtxos_ok hgot
  have hn : us.length = byteAt c.data 0 := length_of_keysFrom hlen hus
  obtain ⟨hfee, henough, smallest, hmin, htight⟩ := checkReservedTotal_ok htotal
  obtain ⟨hsum, hlen', rfl⟩ := removeUtxos_ok hp'
  have hamounts : got.inputs.map ReservedInput.amountSats = amountsOf us := by
    rw [hsound.inputs, List.map_map]
    rfl
  have hinputs : got.inputs.length = us.length := by rw [hsound.inputs, List.length_map]
  rw [hamounts] at hsum hmin
  rw [hinputs] at hlen'
  rw [hsound.total] at henough htight
  refine ⟨p.zkbtcMint, p, req, us, c.slot % 2 ^ 32, ⟨rfl, hat.pool, hat.request, hpending, ?_, ?_,
    ⟨hfee, henough⟩, ⟨smallest, hmin, htight⟩, hsum, hlen'⟩, ⟨?_, ?_, hus⟩, ?_⟩
  · rw [← hat.pool_key]
    exact hres
  · rintro rfl
    exact hcount hn.symm
  · rw [account_ok.mp hpacc, Option.map_some, hat.pool_key]
  · rw [account_ok.mp hacc, Option.map_some, hat.key]
    rfl
  · have hpool : got.state.records.pools p.zkbtcMint = some p := by
      rw [hrec]
      exact hat.pool
    have hrecp : (got.state.putPool (p.withhold (amountsOf us).sum us.length) pool.key).records =
        got.state.records.putPool p.zkbtcMint (p.withhold (amountsOf us).sum us.length) := by
      rw [hat.pool_key]
      exact records_putPool hpool _
    rw [hamounts, hinputs, hat.key]
    refine (records_putRedemption (k := req.storeKey p.zkbtcMint) (o := req) ?_ _).trans ?_
    · rw [hrecp, hrec]
      exact hat.request
    · rw [hrecp, hrec, hat.key, hsound.total, hsound.inputs, ← hn]
      rfl

/-! ### Cancelling -/

/-- An output made spendable again. -/
def UtxoRecord.free (u : UtxoRecord) : UtxoRecord :=
  { u with status := .Unspent, reservedForRequestId := 0 }

/-- Different outputs that carry the reservation key. -/
structure Held (r : Records) (reservationKey : ℕ) (us : List UtxoEntry) : Prop where
  picked : Picked r us
  reserved : ∀ e ∈ us, e.2.status = .Reserved ∧ e.2.reservedForRequestId = reservationKey

lemma releaseUtxo_ok {reservationKey : ℕ} {us : List UtxoEntry} {acc acc' : State × ℕ}
    {info : AccountInfo} (hacc : acc.2 = (amountsOf us).sum)
    (h : releaseUtxo E c reservationKey acc info = .ok acc') :
    ∃ e : UtxoEntry, info.key = utxoAddr e ∧ acc.1.records.utxos e.1 = some e.2 ∧
      (e.2.status = .Reserved ∧ e.2.reservedForRequestId = reservationKey) ∧
      acc'.1.records = acc.1.records.updateUtxos (pickedEntries (fun u => some u.free) [e]) ∧
      acc'.2 = (amountsOf (us ++ [e])).sum := by
  simp only [releaseUtxo, bind_eq_ok, validateProgramOwner_ok, exists_unit, orElse_eq_ok,
    require_eq_ok, checkedAdd_eq_ok, pure_eq_ok] at h
  obtain ⟨ho, -, u, hu, hstatus, _, ⟨-, rfl⟩, rfl⟩ := h
  obtain ⟨pool, o, hk, hrec⟩ := utxo_of_owned ho hu
  refine ⟨((pool, o), u), hk, hrec, hstatus, ?_, ?_⟩
  · rw [hk]
    exact records_putUtxo (k := (pool, o)) hrec _
  · simp [hacc, amountsOf]

lemma releaseUtxos_ok {reservationKey : ℕ} {infos : List AccountInfo} {acc' : State × ℕ}
    (h : loop (releaseUtxo E c reservationKey) (s, 0) infos = .ok acc') :
    ∃ us : List UtxoEntry, us.map utxoAddr = infos.map AccountInfo.key ∧
      Held s.records reservationKey us ∧ acc'.1.records = s.records.updateUtxos (pickedEntries (fun u => some u.free) us) ∧
      acc'.2 = (amountsOf us).sum := by
  obtain ⟨us, hkeys, hus, hP, hrec, hI⟩ := loop_picked (w := Prod.fst)
    (P := fun u => u.status = .Reserved ∧ u.reservedForRequestId = reservationKey)
    (I := fun us (acc : State × ℕ) => acc.2 = (amountsOf us).sum)
    (fun us acc info acc' hI hg => releaseUtxo_ok hI hg)
    (fun u u' _ hu' => by rw [← Option.some_inj.mp hu']; simp [UtxoRecord.free]) rfl h
  exact ⟨us, hkeys, ⟨hus, hP⟩, hrec, hI⟩

/-- The request may be taken back: nothing is reserved, or it may no longer be signed. -/
lemma cancellable_ok {req : RedemptionRequest} {slot : ℕ} {wasProcessing : Bool}
    (h : cancellable req slot = .ok wasProcessing) :
    req.signingApproved = false ∧
      ((wasProcessing = false ∧ req.status = .Pending) ∨
        (wasProcessing = true ∧ req.status = .Processing)) := by
  simp only [cancellable, bind_eq_ok, require_eq_ok, exists_unit] at h
  obtain ⟨hsigned, h⟩ := h
  refine ⟨by simpa using hsigned, ?_⟩
  split at h <;> rename_i hst
  · exact .inl ⟨(pure_eq_ok.mp h).symm, hst⟩
  · simp only [bind_eq_ok, require_eq_ok, exists_unit, pure_eq_ok] at h
    exact .inr ⟨h.2.symm, hst⟩
  · exact absurd h (by simp [throw_ne_ok])

/-- What was put aside comes back on the books; the request is gone. -/
def PoolState.restore (p : PoolState) (total n shielded : ℕ) (now : ℤ) : PoolState :=
  { p with
    totalShielded := shielded
    totalBtcHeld := if total > 0 then p.totalBtcHeld + total else p.totalBtcHeld
    utxoCount := if total > 0 then p.utxoCount + n else p.utxoCount
    pendingRedemptions := p.pendingRedemptions - 1
    lastUpdate := now }

/-- The requester took a request back. -/
structure Cancelling (E : Env) (r : Records) (m : Addr) (p : PoolState) (req : RedemptionRequest)
    (tc : TokenConfig) (t t' : CommitmentTree) (us : List UtxoEntry) (commitment : Hash) :
    Prop where
  mint : p.zkbtcMint = m
  pool : r.pools m = some p
  tree : r.trees (.poolState m, p.activeTreeIndex) = some t
  request : r.redemptions (req.storeKey m) = some req
  unsigned : req.signingApproved = false
  state : (req.status = .Pending ∧ us = []) ∨
    (req.status = .Processing ∧ us.length = req.reservedCount)
  held : Held r (reservationKeyOf E (req.storeKey m)) us
  config : r.tokenConfigs (.poolState m, tc.mint) = some tc
  tokenId : tc.tokenId = req.tokenId
  appended : t.Appended E [commitment] t'

/-- The books after a request was taken back. -/
def Records.cancel (r : Records) (m : Addr) (p : PoolState) (req : RedemptionRequest)
    (tc : TokenConfig) (t t' : CommitmentTree) (us : List UtxoEntry) (commitment : Hash)
    (now : ℤ) : Records :=
  let tc' := tc.owe req.amountSats 0
  (((((r.updateUtxos (pickedEntries (fun u => some u.free) us)).place (.poolState m)
    p.activeTreeIndex t t' [commitment]).putTokenConfig (.poolState m, tc.mint) tc').putPool m
      (p.restore (amountsOf us).sum us.length tc'.totalShielded now)).updateRedemptions
        [(req.storeKey m, none)])

lemma releaseReserved_ok {wasProcessing : Bool} {reservationKey n total : ℕ}
    (h : releaseReserved E c s wasProcessing reservationKey n = .ok (s', total)) :
    ∃ us : List UtxoEntry, us.map utxoAddr = c.keysFrom 6 n ∧ (wasProcessing = false → us = []) ∧
      Held s.records reservationKey us ∧
      s'.records = s.records.updateUtxos (pickedEntries (fun u => some u.free) us) ∧
      total = (amountsOf us).sum := by
  unfold releaseReserved at h
  split_ifs at h with hw
  · obtain ⟨us, hkeys, hheld, hrec, hsum⟩ := releaseUtxos_ok h
    exact ⟨us, hkeys, fun hf => absurd hw (by simp [hf]), hheld, hrec, hsum⟩
  · simp only [bind_eq_ok, require_eq_ok, exists_unit, pure_eq_ok, Prod.mk.injEq] at h
    obtain ⟨rfl, rfl, rfl⟩ := h
    exact ⟨[], rfl, fun _ => rfl, ⟨⟨by simp, by simp⟩, by simp⟩, rfl, rfl⟩

lemma putUtxo_trees (u : UtxoRecord) (a : Addr) : (s.putUtxo u a).trees = s.trees := by
  cases a <;> rfl

/-- Only records of outputs are touched. -/
lemma releaseReserved_trees {wasProcessing : Bool} {reservationKey n total : ℕ}
    (h : releaseReserved E c s wasProcessing reservationKey n = .ok (s', total)) :
    s'.trees = s.trees := by
  unfold releaseReserved at h
  split_ifs at h
  · refine loop_inv (I := fun acc : State × ℕ => acc.1.trees = s.trees) ?_ rfl h
    intro acc info acc' _ hI hg
    simp only [releaseUtxo, bind_eq_ok, pure_eq_ok] at hg
    obtain ⟨-, -, -, -, u, -, -, -, _, -, rfl⟩ := hg
    exact (putUtxo_trees ..).trans hI
  · simp only [bind_eq_ok, pure_eq_ok, Prod.mk.injEq] at h
    obtain ⟨-, -, rfl, -⟩ := h
    rfl

lemma restoreUtxos_ok {p p' : PoolState} {total n shielded : ℕ} {now : ℤ}
    (h : restoreUtxos { p with totalShielded := shielded } total n = .ok p') :
    { p' with pendingRedemptions := p'.pendingRedemptions - 1, lastUpdate := now } =
      p.restore total n shielded now := by
  unfold restoreUtxos at h
  unfold PoolState.restore
  split_ifs at h ⊢ with hpos
  · rw [PoolState.addUtxos_ok h]
  · rw [← Except.ok.inj h]

/-- **Cancelling** frees the outputs given and shields the amount again. -/
theorem processCancelRedemption_ok (h : processCancelRedemption E c s = .ok s') :
    ∃ m p req tc t t' us commitment,
      Cancelling E s.records m p req tc t t' us commitment ∧
      Names c m req 1 6 (byteAt c.data 32) us ∧
      c.configAt 5 = some (.poolState m, tc.mint) ∧
      s'.records = s.records.cancel m p req tc t t' us commitment c.unixTimestamp := by
  simp only [processCancelRedemption, Call.atLeast, bind_eq_ok, exists_unit, require_eq_ok,
    pure_eq_ok, validateProgramOwner_ok, Prod.exists] at h
  obtain ⟨-, user, -, pool, hpacc, redemption, hacc, tree, -, tokenConfig, hca, -, -, -, -, h⟩ := h
  obtain ⟨hpda, hto, -, -, -, p, hread, -, hactive, req, hreq, -, wasProcessing, hcan, hco, h⟩ := h
  obtain ⟨-, tc, htc, hck, hid, hroom, hcount, s₁, total, hrel, commitment, -, s₂, hs₂, tc', h⟩ := h
  obtain ⟨htc', p', hp', rfl⟩ := h
  have hat := validateRedemptionPda_ok hread hreq hpda
  obtain ⟨hsigned, hstate⟩ := cancellable_ok hcan
  obtain ⟨p₁, hpk, -, htk⟩ := validateActiveTreePda_ok hactive
  obtain ⟨us, hkeys, hempty, hheld, hrec₁, hsum⟩ := releaseReserved_ok hrel
  rw [readTokenConfig, orElse_eq_ok] at htc
  rw [hat.pool_key] at hck
  have hcfg := tokenConfig_of_key hco hck htc
  obtain ⟨t, ht⟩ : ∃ t, s₁.treeAt tree.key = some t := by
    simp only [insertOne, readTree, bind_eq_ok, orElse_eq_ok] at hs₂
    obtain ⟨t, ht, -⟩ := hs₂
    exact ⟨t, ht⟩
  have htree : s.records.trees (pool.key, p.activeTreeIndex) = some t := by
    refine tree_of_key hto htk ?_
    rw [← ht, htk]
    simp only [State.treeAt, State.tree?, releaseReserved_trees hrel]
  obtain ⟨t', happ, hrec₂⟩ := insertOne_ok htk (by rw [hrec₁]; exact htree) hs₂
  rw [hat.pool_key] at htree hrec₂
  have htc' : tc' = tc.owe req.amountSats 0 := TokenConfig.addShielded_ok htc'
  subst htc'
  have hrec₃ : (s₂.putTokenConfig (tc.owe req.amountSats 0) tokenConfig.key).records =
      s₂.records.putTokenConfig (.poolState p.zkbtcMint, tc.mint) (tc.owe req.amountSats 0) := by
    rw [hck]
    refine records_putTokenConfig (k := (.poolState p.zkbtcMint, tc.mint)) (o := tc) ?_ _
    rw [hrec₂, hrec₁]
    exact hcfg
  have hus : us.length = byteAt c.data 32 := length_of_keysFrom hroom hkeys
  refine ⟨p.zkbtcMint, p, req, tc, t, t', us, commitment, ⟨rfl, hat.pool, htree, hat.request, hsigned,
    ?_, ?_, hcfg, hid, happ⟩, ⟨?_, ?_, hkeys⟩, configAt_of_account hca hck, ?_⟩
  · rcases hstate with ⟨hw, hst⟩ | ⟨hw, hst⟩
    · exact .inl ⟨hst, hempty hw⟩
    · exact .inr ⟨hst, hus.trans (hcount hw)⟩
  · rw [hat.key] at hheld
    exact hheld
  · rw [account_ok.mp hpacc, Option.map_some, hat.pool_key]
  · rw [account_ok.mp hacc, Option.map_some, hat.key]
    rfl
  · rw [hat.key]
    refine (closeRedemption_records (k := req.storeKey p.zkbtcMint)).trans ?_
    rw [hat.pool_key, restoreUtxos_ok hp', hsum, ← hus]
    rw [records_putPool (o := p), hrec₃, hrec₂, hrec₁]
    · rfl
    · rw [hrec₃, hrec₂, hrec₁]
      exact hat.pool

end Utxopia.Pool
