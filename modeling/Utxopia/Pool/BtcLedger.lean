import Utxopia.Pool.Signing
import Utxopia.Pool.Solvency

/-!
The numbers a pool keeps of its bitcoin.

A pool counts what it holds, what it has minted and burned and how many requests are open. The
numbers are kept by six instructions; the records they stand for are created, reserved, freed and
consumed by loops over accounts of the caller.
-/

namespace Utxopia.Pool

open Utxopia.ByteString Utxopia.Check Utxopia.Run Utxopia.Runtime

variable {E : Env} {s s' : State} {l : Label} {r r' : Records} {m : Addr}

/-! ### The numbers and what they stand for -/

/-- The numbers of a pool. -/
structure Figures where
  held : ℕ
  count : ℕ
  pending : ℕ
  minted : ℕ
  burned : ℕ
  shielded : ℕ

def PoolState.figures (p : PoolState) : Figures :=
  ⟨p.totalBtcHeld, p.utxoCount, p.pendingRedemptions, p.totalMinted, p.totalBurned, p.totalShielded⟩

/-- All zero before there is a pool. -/
def Records.figures (r : Records) (m : Addr) : Figures :=
  (r.pools m).elim ⟨0, 0, 0, 0, 0, 0⟩ PoolState.figures

/-- What the token of the pool has shielded. -/
def Records.shieldedOf (r : Records) (m : Addr) : ℕ :=
  (r.tokenConfigs (.poolState m, m)).elim 0 TokenConfig.totalShielded

def UtxoRecord.unspentSats (u : UtxoRecord) : ℕ := if u.status = .Unspent then u.amountSats else 0

def UtxoRecord.unspentOne (u : UtxoRecord) : ℕ := if u.status = .Unspent then 1 else 0

/-- The sum of a weight over the records of outputs of the pool. -/
def State.outputs (s : State) (w : UtxoRecord → ℕ) (m : Addr) : ℕ :=
  s.utxos.total (ofPool (.poolState m) w)

/-- The number of live requests of the pool. -/
def State.requestCount (s : State) (m : Addr) : ℕ := s.requests (fun _ => 1) m

/-- The numbers are those of the records. -/
structure Tallied (f : Figures) (s : State) (m : Addr) : Prop where
  held : f.held = s.outputs UtxoRecord.unspentSats m
  count : f.count = s.outputs UtxoRecord.unspentOne m
  pending : f.pending = s.requestCount m
  minted : f.minted = f.burned + s.outputs UtxoRecord.amountSats m
  shielded : f.shielded = s.records.shieldedOf m

/-- **The ledger is exact**: every number of the pool is that of its records. -/
structure LedgerExact (s : State) (m : Addr) (p : PoolState) : Prop where
  held : p.totalBtcHeld = s.outputs UtxoRecord.unspentSats m
  count : p.utxoCount = s.outputs UtxoRecord.unspentOne m
  pending : p.pendingRedemptions = s.requestCount m
  live : p.totalBurned ≤ p.totalMinted ∧
    p.totalMinted - p.totalBurned = s.outputs UtxoRecord.amountSats m
  shielded : ∀ tc, s.records.tokenConfigs (.poolState m, m) = some tc →
    p.totalShielded = tc.totalShielded

lemma figures_of_pool {p : PoolState} (h : r.pools m = some p) : r.figures m = p.figures := by
  rw [Records.figures, h, Option.elim_some]

lemma Tallied.exact {p : PoolState} (h : Tallied (s.records.figures m) s m)
    (hp : s.records.pools m = some p) : LedgerExact s m p := by
  rw [figures_of_pool hp] at h
  have hminted : p.totalMinted = p.totalBurned + s.outputs UtxoRecord.amountSats m := h.minted
  refine ⟨h.held, h.count, h.pending, ⟨by omega, by omega⟩, fun tc htc => ?_⟩
  refine h.shielded.trans ?_
  rw [Records.shieldedOf, htc, Option.elim_some]

lemma figures_putPool (r : Records) (m : Addr) (p : PoolState) :
    (r.putPool m p).figures = Function.update r.figures m p.figures := by
  funext m'
  unfold Records.figures Records.putPool
  rcases eq_or_ne m' m with rfl | hne
  · simp
  · simp [hne]

/-- A pool that is written with the numbers it had. -/
lemma figures_putPool_same {p p' : PoolState} (h : r.pools m = some p)
    (hsame : p'.figures = p.figures) : (r.putPool m p').figures = r.figures := by
  rw [figures_putPool, hsame, ← figures_of_pool h, Function.update_eq_self]

/-! ### Sums over the outputs of a pool -/

section Outputs

variable {w : UtxoRecord → ℕ} {us : List UtxoEntry}

lemma outputs_congr (h : s'.records.utxos = s.records.utxos) (w : UtxoRecord → ℕ) (m : Addr) :
    s'.outputs w m = s.outputs w m := Store.total_congr h

/-- A pass over outputs of one pool trades their weights. -/
lemma total_picked {l l' : Store (Addr × Outpoint) (Account UtxoRecord)}
    {f : UtxoRecord → Option UtxoRecord} (hrec : ∀ e ∈ us, l.recs e.1 = some e.2)
    (hnd : (us.map Prod.fst).Nodup) (hown : ∀ e ∈ us, e.1.1 = .poolState m)
    (h : l'.recs = Store.updates l.recs (pickedEntries f us)) (m' : Addr) :
    l'.total (ofPool (.poolState m') w) +
        (if m' = m then (us.map fun e => w e.2).sum else 0) =
      l.total (ofPool (.poolState m') w) +
        if m' = m then (us.map fun e => (f e.2).elim 0 w).sum else 0 := by
  have hex := Store.total_updates (f := ofPool (.poolState m') w) (by rwa [pickedEntries_keys]) h
  have hold : ((pickedEntries f us).map fun e =>
      Store.value (ofPool (.poolState m') w) e.1 (l.recs e.1)).sum =
        if m' = m then (us.map fun e => w e.2).sum else 0 := by
    rw [pickedEntries, List.map_map]
    split_ifs with heq
    · refine congrArg List.sum (List.map_congr_left fun e he => ?_)
      simp [hrec e he, ofPool, hown e he, heq]
    · refine List.sum_eq_zero fun x hx => ?_
      obtain ⟨e, he, rfl⟩ := List.mem_map.mp hx
      simp [hrec e he, ofPool, hown e he, Ne.symm heq]
  have hnew : ((pickedEntries f us).map fun e =>
      Store.value (ofPool (.poolState m') w) e.1 e.2).sum =
        if m' = m then (us.map fun e => (f e.2).elim 0 w).sum else 0 := by
    rw [pickedEntries, List.map_map]
    split_ifs with heq
    · refine congrArg List.sum (List.map_congr_left fun e he => ?_)
      cases hf : f e.2 <;> simp [hf, ofPool, hown e he, heq]
    · refine List.sum_eq_zero fun x hx => ?_
      obtain ⟨e, he, rfl⟩ := List.mem_map.mp hx
      cases hf : f e.2 <;> simp [hf, ofPool, hown e he, Ne.symm heq]
  rw [hold, hnew] at hex
  exact hex

/-- An output that is new adds its weight. -/
lemma total_credited {l l' : Store (Addr × Outpoint) (Account UtxoRecord)} {o : Outpoint}
    {u : UtxoRecord} (hnew : l.recs (.poolState m, o) = none)
    (h : l'.recs = Store.updates l.recs [((.poolState m, o), some u)]) (m' : Addr) :
    l'.total (ofPool (.poolState m') w) =
      l.total (ofPool (.poolState m') w) + if m' = m then w u else 0 := by
  have hrecs : l'.recs = Function.update l.recs (.poolState m, o) (some u) := h
  have hex := Store.total_update (f := ofPool (.poolState m') w) hrecs
  rw [hnew] at hex
  simpa [ofPool, eq_comm] using hex

end Outputs

/-! ### What is put aside for a request -/

section Aside

variable {tr : List (Step State Label)} {res : Addr × Addr × ℕ → Option Fixed}
  {out : Addr × Outpoint → Option UtxoRecord} {k : Addr × Addr × ℕ} {f : Fixed}
  {vs : List UtxoEntry} {guard : State → Label → Prop}

/-- Outputs with the key of a request, as many as it remembers, are outputs of its pool that are
worth what it remembers, and that is something. -/
lemma Backed.worth (h : Backed E tr res out) (run : Reaches (step E) guard .genesis tr s)
    (hk : res k = some f) (hnd : (vs.map Prod.fst).Nodup)
    (hheld : ∀ e ∈ vs, out e.1 = some e.2 ∧ e.2.reservedForRequestId = reservationKeyOf E k)
    (hlen : vs.length = f.reservedCount) :
    (amountsOf vs).sum = f.totalInputSats ∧ (∀ e ∈ vs, e.1.1 = k.1) ∧ 0 < f.totalInputSats := by
  have hall := h.whole hk hnd hheld hlen
  obtain ⟨st, hst, us, ⟨c, c', m, p, req, slot, -, -, rfl, hmark, -, -⟩, rfl, hnd', hiff⟩ :=
    h.sets k f hk
  have hperm : vs.Perm (reserveAll (reservationKeyOf E (req.storeKey m)) us) := by
    refine (List.perm_ext_iff_of_nodup hnd.of_map ?_).mpr fun e => (hall e).trans (hiff e).symm
    exact List.Nodup.of_map Prod.fst (by rwa [reserveAll_keys])
  have hsum : (amountsOf vs).sum = (amountsOf us).sum := by
    rw [amountsOf, (hperm.map _).sum_eq, reserveAll, List.map_map]
    rfl
  refine ⟨hsum, fun e he => ?_, ?_⟩
  · obtain ⟨d, hd, rfl⟩ := List.mem_map.mp (hperm.mem_iff.mp he)
    exact congrArg Prod.fst (hmark.reservation.keys d hd)
  · obtain ⟨tr', run'⟩ := run.reaches_pre hst
    have hfee := (admitted_of_reaches run' _ _ hmark.request).fee
    have hle := hmark.enough.2
    change 0 < (amountsOf us).sum
    unfold RedemptionRequest.requiredSats at hle
    omega

end Aside

/-- A step that changes the numbers and the records of one pool only. -/
lemma tallied_of_shift {f : Figures} (hI : ∀ m, Tallied (s.records.figures m) s m)
    (hfig : s'.records.figures = Function.update s.records.figures m f)
    (hout : ∀ m' ≠ m, ∀ w, s'.outputs w m' = s.outputs w m')
    (hreq : ∀ m' ≠ m, s'.requestCount m' = s.requestCount m')
    (hsh : ∀ m' ≠ m, s'.records.shieldedOf m' = s.records.shieldedOf m')
    (hm : Tallied f s' m) : ∀ m, Tallied (s'.records.figures m) s' m := by
  intro m'
  rw [hfig]
  rcases eq_or_ne m' m with rfl | hne
  · rw [Function.update_self]
    exact hm
  · rw [Function.update_of_ne hne]
    obtain ⟨h₁, h₂, h₃, h₄, h₅⟩ := hI m'
    refine ⟨?_, ?_, ?_, ?_, ?_⟩
    · rw [hout m' hne]
      exact h₁
    · rw [hout m' hne]
      exact h₂
    · rw [hreq m' hne]
      exact h₃
    · rw [hout m' hne]
      exact h₄
    · rw [hsh m' hne]
      exact h₅

/-- A step that changes none of the numbers. -/
lemma tallied_of_still (hI : ∀ m, Tallied (s.records.figures m) s m)
    (hfig : s'.records.figures = s.records.figures)
    (hout : s'.records.utxos = s.records.utxos)
    (hreq : ∀ m, s'.requestCount m = s.requestCount m)
    (hsh : ∀ m, s'.records.shieldedOf m = s.records.shieldedOf m) :
    ∀ m, Tallied (s'.records.figures m) s' m := by
  intro m
  obtain ⟨h₁, h₂, h₃, h₄, h₅⟩ := hI m
  rw [hfig]
  refine ⟨?_, ?_, ?_, ?_, ?_⟩
  · rw [outputs_congr hout]
    exact h₁
  · rw [outputs_congr hout]
    exact h₂
  · rw [hreq]
    exact h₃
  · rw [outputs_congr hout]
    exact h₄
  · rw [hsh]
    exact h₅

/-- What is shielded after the books of a token of a pool were written. -/
lemma shieldedOf_putTokenConfig (r : Records) (m mint : Addr) (tc : TokenConfig) (m' : Addr) :
    (r.putTokenConfig (.poolState m, mint) tc).shieldedOf m' =
      if m' = m ∧ mint = m then tc.totalShielded else r.shieldedOf m' := by
  unfold Records.shieldedOf Records.putTokenConfig
  dsimp only
  split_ifs with h
  · obtain ⟨rfl, rfl⟩ := h
    rw [Function.update_self, Option.elim_some]
  · rw [Function.update_of_ne]
    intro heq
    simp only [Prod.mk.injEq, Addr.poolState.injEq] at heq
    exact h ⟨heq.1, heq.2.symm.trans heq.1⟩

/-! ### The number of requests -/

def TokensBounded (r : Records) : Prop := ∀ a, balanceIn r.tokens a < 2 ^ 64

lemma Effect.tokensBounded (h : Effect E s l r') (hI : TokensBounded s.records) :
    TokensBounded r' := by
  cases h with
  | reconfigured h =>
    obtain ⟨m, p, p', -, -, rfl⟩ := h
    exact hI
  | tokensServed h => exact h.bounded hI
  | claimed config covered paid => exact paid.bounded hI
  | shielded keys h =>
    obtain ⟨_, -, -, _, _, _, -, -, hout⟩ := h.paid
    unfold Records.shield Records.putTotals
    split_ifs <;> exact hout.bounded hI
  | transacted decoded planned sound burnable outputs => cases outputs <;> exact hI
  | unshielded decoded planned h =>
    obtain ⟨_, hout, -⟩ := h.paid
    unfold Records.unshield Records.putTotals
    split_ifs <;> exact hout.bounded hI
  | @completed c c' m p req tc us tx txid leaf T burn revenue now decoded h =>
    cases c'.changeOutput <;> exact h.paid.bounded hI
  | deposited decoded kind input credited h => exact h.minted.bounded hI
  | _ => exact hI

lemma tokensBounded_of_reaches {tr : List (Step State Label)} {guard : State → Label → Prop}
    (run : Reaches (step E) guard .genesis tr s) : TokensBounded s.records :=
  run.inv (I := fun s => TokensBounded s.records) (fun _ => by simp [balanceIn])
    fun _ _ _ hI _ h => (step_effect h).tokensBounded hI

/-- The vault holds something for every request. -/
lemma requestCount_lt {tr : List (Step State Label)} {guard : State → Label → Prop}
    (run : Reaches (step E) guard .genesis tr s) (hs : Solvent s) (m : Addr) :
    s.requestCount m < 2 ^ 64 := by
  have hle : s.requestCount m ≤ s.asked m := Store.total_le_total fun k req hreq => by
    have hfee := (admitted_of_reaches run k req hreq).fee
    unfold ofPool
    dsimp only
    split_ifs <;> omega
  rcases Nat.eq_zero_or_pos (s.requestCount m) with hzero | hpos
  · omega
  obtain ⟨k, req, hreq, hcounts⟩ := Store.exists_of_total_pos hpos
  have hpool : k.1 = .poolState m := by
    by_contra hne
    simp [ofPool, hne] at hcounts
  obtain ⟨m', tc, hk, htc, -⟩ := (kept_of_reaches run).request k.1 k.2.1 k.2.2 req hreq
  obtain rfl : m' = m := by simpa using hk.symm.trans hpool
  have howed := hs m' m' tc htc
  rw [State.owed, if_pos (by simp [State.isOwnVault, htc])] at howed
  have hbound := tokensBounded_of_reaches run tc.vault
  omega

/-! ### One step -/

/-- No two tokens of a pool have the same id, and less was minted than a counter can hold. -/
structure Ordinary (r : Records) : Prop where
  apart : TokensApart r
  minted : ∀ m p, r.pools m = some p → p.totalMinted < 2 ^ 64 - 1

lemma NullifierAccounting.count_figures (n : ℕ) (p : PoolState) (a : NullifierAccounting) :
    (a.count n p).figures = p.figures := by
  cases a <;> rfl

section Step

variable {tr : List (Step State Label)} {guard : State → Label → Prop} {c c' : Call}

lemma tallied_of_shielded {p : PoolState} {tc : TokenConfig} {r₀ : Records} {now : ℤ}
    (hI : ∀ m, Tallied (s.records.figures m) s m) (hp : p.figures = s.records.figures m)
    (hmint : p.zkbtcMint = m) (hr : s'.records = r₀.putTotals m p tc now)
    (hfig : r₀.figures = s.records.figures)
    (hcfg : r₀.tokenConfigs = s.records.tokenConfigs) (hout : r₀.utxos = s.records.utxos)
    (hreq : r₀.redemptions = s.records.redemptions) :
    ∀ m, Tallied (s'.records.figures m) s' m := by
  have hutxos : s'.records.utxos = s.records.utxos := by
    rw [hr, ← hout]
    unfold Records.putTotals
    split_ifs <;> rfl
  have hredemptions : s'.records.redemptions = s.records.redemptions := by
    rw [hr, ← hreq]
    unfold Records.putTotals
    split_ifs <;> rfl
  have hsh : ∀ m', s'.records.shieldedOf m' =
      if m' = m ∧ tc.mint = m then tc.totalShielded else s.records.shieldedOf m' := by
    intro m'
    rw [hr]
    have hput := shieldedOf_putTokenConfig r₀ m tc.mint tc m'
    rw [show r₀.shieldedOf m' = s.records.shieldedOf m' by
      rw [Records.shieldedOf, Records.shieldedOf, hcfg]] at hput
    unfold Records.putTotals
    split_ifs at hput ⊢ <;> exact hput
  unfold Records.putTotals at hr
  split_ifs at hr with hown
  · have hown' : tc.mint = m := hown.trans hmint
    obtain ⟨h₁, h₂, h₃, h₄, -⟩ := hI m
    rw [← hp] at h₁ h₂ h₃ h₄
    refine tallied_of_shift (m := m) (f := (p.syncShielded tc.totalShielded now).figures) hI ?_
      (fun m' _ w => outputs_congr hutxos w m') (fun m' _ => requests_congr hredemptions _ m')
      (fun m' hne => ?_) ⟨?_, ?_, ?_, ?_, ?_⟩
    · rw [hr, figures_putPool]
      exact congrArg (Function.update · m _) hfig
    · rw [hsh, if_neg fun hand => hne hand.1]
    · rw [outputs_congr hutxos]
      exact h₁
    · rw [outputs_congr hutxos]
      exact h₂
    · exact h₃.trans (requests_congr hredemptions _ m).symm
    · rw [outputs_congr hutxos]
      exact h₄
    · rw [hsh, if_pos ⟨rfl, hown'⟩]
      rfl
  · refine tallied_of_still hI ?_ hutxos (requests_congr hredemptions _) fun m' => ?_
    · rw [hr]
      exact hfig
    · rw [hsh, if_neg fun hand => hown (hand.2.trans hmint.symm)]

lemma sum_of_unspent (us : List UtxoEntry) (h : ∀ e ∈ us, e.2.status = .Unspent) :
    (us.map fun e => e.2.unspentSats).sum = (amountsOf us).sum ∧
      (us.map fun e => e.2.unspentOne).sum = us.length := by
  have hone : (us.map fun e => e.2.unspentOne) = us.map fun _ => 1 :=
    List.map_congr_left fun e he => if_pos (h e he)
  refine ⟨congrArg List.sum (List.map_congr_left fun e he => if_pos (h e he)), ?_⟩
  rw [hone]
  simp

lemma sum_of_reserved (us : List UtxoEntry) (h : ∀ e ∈ us, e.2.status = .Reserved) :
    (us.map fun e => e.2.unspentSats).sum = 0 ∧ (us.map fun e => e.2.unspentOne).sum = 0 := by
  constructor <;> refine List.sum_eq_zero fun x hx => ?_ <;>
    obtain ⟨e, he, rfl⟩ := List.mem_map.mp hx
  · exact if_neg (by simp [h e he])
  · exact if_neg (by simp [h e he])

/-- Outputs that keep their amounts count as before. -/
lemma outputs_unchanged {w : UtxoRecord → ℕ} {n : ℕ} (h : ∀ m', s'.outputs w m' +
    (if m' = m then n else 0) = s.outputs w m' + if m' = m then n else 0) :
    s'.outputs w m = s.outputs w m :=
  Nat.add_right_cancel (h m)

lemma tallied_of_marked {p : PoolState} {req : RedemptionRequest} {us : List UtxoEntry} {slot : ℕ}
    (hI : ∀ m, Tallied (s.records.figures m) s m) (h : Marking s.records m p req us)
    (hr : s'.records = s.records.mark E m p req us slot) :
    ∀ m, Tallied (s'.records.figures m) s' m := by
  have hrecs : s'.utxos.recs = Store.updates s.utxos.recs (pickedEntries
      (fun u => some (u.reserve (reservationKeyOf E (req.storeKey m)))) us) :=
    show s'.records.utxos = _ by rw [hr]; rfl
  have hout : ∀ (w : UtxoRecord → ℕ) m', s'.outputs w m' +
      (if m' = m then (us.map fun e => w e.2).sum else 0) = s.outputs w m' +
        if m' = m then (us.map fun e => w (e.2.reserve (reservationKeyOf E (req.storeKey m)))).sum
          else 0 := fun w m' =>
    total_picked h.reservation.picked.recorded h.reservation.picked.nodup
      (fun e he => congrArg Prod.fst (h.reservation.keys e he)) hrecs m'
  have hq : s'.records.redemptions = Store.updates s.records.redemptions
      [(req.storeKey m, some (req.process E slot us))] := by rw [hr]; rfl
  have hreq : ∀ m', s'.requestCount m' = s.requestCount m' := requests_rewrite hq h.request rfl
  have hsh : ∀ m', s'.records.shieldedOf m' = s.records.shieldedOf m' := fun m' => by
    rw [hr]
    rfl
  obtain ⟨hsum, hlen⟩ := sum_of_unspent us h.reservation.unspent
  obtain ⟨hsum', hlen'⟩ := sum_of_reserved
    (reserveAll (reservationKeyOf E (req.storeKey m)) us) fun e he => by
      obtain ⟨d, -, rfl⟩ := List.mem_map.mp he
      rfl
  rw [reserveAll, List.map_map] at hsum' hlen'
  obtain ⟨h₁, h₂, h₃, h₄, h₅⟩ := hI m
  rw [figures_of_pool h.pool] at h₁ h₂ h₃ h₄ h₅
  obtain ⟨hheld, hcount⟩ := h.held
  refine tallied_of_shift (m := m) (f := (p.withhold (amountsOf us).sum us.length).figures) hI ?_
    (fun m' hne w => by simpa [hne] using hout w m') (fun m' _ => hreq m') (fun m' _ => hsh m')
    ⟨?_, ?_, ?_, ?_, ?_⟩
  · rw [hr]
    exact figures_putPool ..
  · have hw := hout UtxoRecord.unspentSats m
    rw [if_pos rfl, if_pos rfl, hsum] at hw
    have hzero : (us.map fun e => (e.2.reserve (reservationKeyOf E (req.storeKey m))).unspentSats).sum
        = 0 := hsum'
    rw [hzero] at hw
    change p.totalBtcHeld = _ at h₁
    change p.totalBtcHeld - _ = _
    omega
  · have hw := hout UtxoRecord.unspentOne m
    rw [if_pos rfl, if_pos rfl, hlen] at hw
    have hzero : (us.map fun e => (e.2.reserve (reservationKeyOf E (req.storeKey m))).unspentOne).sum
        = 0 := hlen'
    rw [hzero] at hw
    change p.utxoCount = _ at h₂
    change p.utxoCount - _ = _
    omega
  · exact h₃.trans (hreq m).symm
  · rw [outputs_unchanged (hout UtxoRecord.amountSats)]
    exact h₄
  · exact h₅.trans (hsh m).symm

lemma tallied_of_deposited {p : PoolState} {tc : TokenConfig} {t t' : CommitmentTree}
    {T : Addr → Option TokenAccount} {receipt : Hash × Option ℕ} {credit : Credit}
    {leaf : Option Hash} {commitment : Hash} {amount fee : ℕ} {now : ℤ}
    (hI : ∀ m, Tallied (s.records.figures m) s m)
    (h : Depositing E s.records m p tc t t' T receipt credit commitment amount fee)
    (hr : s'.records = s.records.deposit m p tc t t' T receipt credit leaf commitment amount fee now) :
    ∀ m, Tallied (s'.records.figures m) s' m := by
  have hrecs : s'.utxos.recs = Store.updates s.utxos.recs [((.poolState m, credit.outpoint),
      some (newUtxo credit.outpoint credit.amountSats leaf))] :=
    show s'.records.utxos = _ by rw [hr]; rfl
  have hout : ∀ (w : UtxoRecord → ℕ) m', s'.outputs w m' = s.outputs w m' +
      if m' = m then w (newUtxo credit.outpoint credit.amountSats leaf) else 0 := fun w m' =>
    total_credited h.unrecorded hrecs m'
  have hreq : ∀ m', s'.requestCount m' = s.requestCount m' :=
    requests_congr (by rw [hr]; rfl) _
  have hsh : ∀ m', s'.records.shieldedOf m' =
      if m' = m ∧ m = m then (tc.owe amount fee).totalShielded else s.records.shieldedOf m' :=
    fun m' => by
      rw [hr]
      exact shieldedOf_putTokenConfig s.records m m (tc.owe amount fee) m'
  obtain ⟨h₁, h₂, h₃, h₄, -⟩ := hI m
  rw [figures_of_pool h.pool] at h₁ h₂ h₃ h₄
  refine tallied_of_shift (m := m)
    (f := (p.deposited credit.amountSats (tc.owe amount fee).totalShielded now).figures) hI ?_
    (fun m' hne w => by simpa [hne] using hout w m') (fun m' _ => hreq m')
    (fun m' hne => by rw [hsh, if_neg fun hand => hne hand.1]) ⟨?_, ?_, ?_, ?_, ?_⟩
  · rw [hr]
    exact figures_putPool ..
  · rw [hout, if_pos rfl]
    exact congrArg (· + credit.amountSats) h₁
  · rw [hout, if_pos rfl]
    exact congrArg (· + 1) h₂
  · exact h₃.trans (hreq m).symm
  · rw [hout, if_pos rfl]
    change p.totalMinted = p.totalBurned + _ at h₄
    change p.totalMinted + credit.amountSats = p.totalBurned + (_ + credit.amountSats)
    omega
  · rw [hsh, if_pos ⟨rfl, rfl⟩]
    rfl

lemma tallied_of_cancelled {p : PoolState} {req : RedemptionRequest} {tc : TokenConfig}
    {t t' : CommitmentTree} {us : List UtxoEntry} {commitment : Hash} {now : ℤ}
    (run : Reaches (step E) guard .genesis tr s) (hap : TokensApart s.records)
    (hback : Backed E tr s.records.processing s.records.reserved)
    (hI : ∀ m, Tallied (s.records.figures m) s m)
    (h : Cancelling E s.records m p req tc t t' us commitment)
    (hr : s'.records = s.records.cancel m p req tc t t' us commitment now) :
    ∀ m, Tallied (s'.records.figures m) s' m := by
  have hown : tc.mint = m := h.own (kept_of_reaches run) hap
  -- outputs that come back are the pool's, and worth something if there are any
  obtain ⟨hpool, hworth⟩ : (∀ e ∈ us, e.1.1 = .poolState m) ∧
      ((amountsOf us).sum = 0 → us.length = 0) := by
    rcases h.state with ⟨-, rfl⟩ | ⟨hst, hlen⟩
    · exact ⟨by simp, fun _ => rfl⟩
    · obtain ⟨hsum, hkeys, hpos⟩ := hback.worth run (processing_of_processing h.request hst)
        h.held.picked.nodup h.held.aside hlen
      exact ⟨hkeys, fun hzero => by omega⟩
  have hrecs : s'.utxos.recs = Store.updates s.utxos.recs (pickedEntries
      (fun u => some u.free) us) := show s'.records.utxos = _ by rw [hr]; rfl
  have hout : ∀ (w : UtxoRecord → ℕ) m', s'.outputs w m' +
      (if m' = m then (us.map fun e => w e.2).sum else 0) = s.outputs w m' +
        if m' = m then (us.map fun e => w e.2.free).sum else 0 := fun w m' =>
    total_picked h.held.picked.recorded h.held.picked.nodup hpool hrecs m'
  have hreq : ∀ m', s'.requestCount m' + (if m' = m then 1 else 0) = s.requestCount m' :=
    requests_close (by rw [hr]; rfl) h.request
  have hsh : ∀ m', s'.records.shieldedOf m' = if m' = m ∧ tc.mint = m then
      (tc.owe req.amountSats 0).totalShielded else s.records.shieldedOf m' := fun m' => by
    rw [hr]
    exact shieldedOf_putTokenConfig s.records m tc.mint (tc.owe req.amountSats 0) m'
  obtain ⟨hsum, hlen⟩ := sum_of_reserved us fun e he => (h.held.reserved e he).1
  obtain ⟨hsum', hlen'⟩ := sum_of_unspent (us.map fun e => (e.1, e.2.free)) fun e he => by
    obtain ⟨d, -, rfl⟩ := List.mem_map.mp he
    rfl
  rw [List.map_map] at hsum' hlen'
  rw [amountsOf, List.map_map] at hsum'
  rw [List.length_map] at hlen'
  obtain ⟨h₁, h₂, h₃, h₄, -⟩ := hI m
  rw [figures_of_pool h.pool] at h₁ h₂ h₃ h₄
  refine tallied_of_shift (m := m) (f := (p.restore (amountsOf us).sum us.length
      (tc.owe req.amountSats 0).totalShielded now).figures) hI ?_
    (fun m' hne w => by simpa [hne] using hout w m')
    (fun m' hne => by simpa [hne] using hreq m')
    (fun m' hne => by rw [hsh, if_neg fun hand => hne hand.1]) ⟨?_, ?_, ?_, ?_, ?_⟩
  · rw [hr]
    exact figures_putPool ..
  · have hw := hout UtxoRecord.unspentSats m
    have hfree : (us.map fun e => e.2.free.unspentSats).sum = (amountsOf us).sum := hsum'
    rw [if_pos rfl, if_pos rfl, hsum, hfree] at hw
    change p.totalBtcHeld = _ at h₁
    change (if (amountsOf us).sum > 0 then _ else _) = _
    split_ifs <;> omega
  · have hw := hout UtxoRecord.unspentOne m
    have hfree : (us.map fun e => e.2.free.unspentOne).sum = us.length := hlen'
    rw [if_pos rfl, if_pos rfl, hlen, hfree] at hw
    change p.utxoCount = _ at h₂
    change (if (amountsOf us).sum > 0 then _ else _) = _
    split_ifs <;> omega
  · have hm := hreq m
    rw [if_pos rfl] at hm
    change p.pendingRedemptions = _ at h₃
    change p.pendingRedemptions - 1 = _
    omega
  · rw [outputs_unchanged (hout UtxoRecord.amountSats)]
    exact h₄
  · rw [hsh, if_pos ⟨rfl, hown⟩]
    rfl

lemma tallied_of_redeemed {plan : RedeemPlan} {p : PoolState} {tc : TokenConfig}
    {t t' : CommitmentTree} {now : ℤ} (hcount : s'.requestCount m < 2 ^ 64)
    (hI : ∀ m, Tallied (s.records.figures m) s m)
    (h : Redeeming E s.records c plan m p tc t t')
    (hr : s'.records = s.records.redeem plan m p tc t t' now) :
    ∀ m, Tallied (s'.records.figures m) s' m := by
  have hout : ∀ (w : UtxoRecord → ℕ) m', s'.outputs w m' = s.outputs w m' :=
    outputs_congr (by rw [hr]; rfl)
  have hreq : ∀ m', s'.requestCount m' =
      s.requestCount m' + if m' = m then plan.items.length else 0 := fun m' => by
    have hopen : s'.requests (fun _ => 1) m' = s.requests (fun _ => 1) m' +
        if m' = m then (plan.items.map fun _ => 1).sum else 0 :=
      requests_open h (by rw [hr]; rfl) m'
    simpa [State.requestCount] using hopen
  have hsh : ∀ m', s'.records.shieldedOf m' = if m' = m ∧ m = m then
      (tc.release plan.totalRedeem 0).totalShielded else s.records.shieldedOf m' := fun m' => by
    rw [hr]
    exact shieldedOf_putTokenConfig s.records m m (tc.release plan.totalRedeem 0) m'
  have hp : s.records.pools m = some p := h.sound.at_tree.pool
  obtain ⟨h₁, h₂, h₃, h₄, -⟩ := hI m
  rw [figures_of_pool hp] at h₁ h₂ h₃ h₄
  refine tallied_of_shift (m := m) (f := ((NullifierAccounting.ApplyNow.count
      plan.pre.nullifiers.length p).openRequests plan.items.length
        (tc.release plan.totalRedeem 0).totalShielded now).figures) hI ?_
    (fun m' _ w => hout w m') (fun m' hne => by rw [hreq, if_neg hne]; rfl)
    (fun m' hne => by rw [hsh, if_neg fun hand => hne hand.1]) ⟨?_, ?_, ?_, ?_, ?_⟩
  · rw [hr]
    refine (figures_putPool ..).trans ?_
    refine congrArg (Function.update · m _) ?_
    exact figures_putPool_same hp (NullifierAccounting.count_figures ..)
  · rw [hout]
    exact h₁
  · rw [hout]
    exact h₂
  · have hm := hreq m
    rw [if_pos rfl] at hm
    change p.pendingRedemptions = _ at h₃
    change min (p.pendingRedemptions + plan.items.length) (2 ^ 64 - 1) = _
    omega
  · rw [hout]
    exact h₄
  · rw [hsh, if_pos ⟨rfl, rfl⟩]
    rfl

/-- What is picked is at most what there is. -/
lemma amounts_le {us : List UtxoEntry} (hrec : ∀ e ∈ us, s.records.utxos e.1 = some e.2)
    (hnd : (us.map Prod.fst).Nodup) (hown : ∀ e ∈ us, e.1.1 = .poolState m) :
    (amountsOf us).sum ≤ s.outputs UtxoRecord.amountSats m := by
  obtain ⟨l', hl'⟩ := Store.exists_recs_updates s.utxos (pickedEntries (fun _ => none) us)
  have hex := total_picked (w := UtxoRecord.amountSats) hrec hnd hown hl' m
  rw [if_pos rfl, if_pos rfl] at hex
  have hzero : (us.map fun e => (none : Option UtxoRecord).elim 0 UtxoRecord.amountSats).sum = 0 :=
    List.sum_eq_zero fun x hx => by
      obtain ⟨e, -, rfl⟩ := List.mem_map.mp hx
      rfl
  rw [hzero] at hex
  exact (Nat.le_add_left ..).trans hex.le

/-- The outputs after the change came in. -/
lemma exists_changed {change : Option (Outpoint × ℕ)} (leaf : Option Hash)
    (hnone : ∀ o ∈ change, s.records.utxos (.poolState m, o.1) = none) :
    ∃ l₁ : Store (Addr × Outpoint) (Account UtxoRecord),
      l₁.recs = (s.records.creditChange (.poolState m) change leaf).utxos ∧
      ∀ (w : UtxoRecord → ℕ) m', l₁.total (ofPool (.poolState m') w) = s.outputs w m' +
        if m' = m then change.elim 0 fun o => w (newUtxo o.1 o.2 leaf) else 0 := by
  cases change with
  | none => exact ⟨s.utxos, rfl, fun w m' => by simp [State.outputs]⟩
  | some o =>
    obtain ⟨l₁, hl₁⟩ := Store.exists_recs_updates s.utxos
      [((.poolState m, o.1), some (newUtxo o.1 o.2 leaf))]
    exact ⟨l₁, hl₁, fun w m' => total_credited (hnone o rfl) hl₁ m'⟩

lemma tallied_of_completed {p : PoolState} {req : RedemptionRequest} {tc : TokenConfig}
    {us : List UtxoEntry} {tx : ParsedTransaction} {txid : Hash} {change : Option (Outpoint × ℕ)}
    {leaf : Option Hash} {T : Addr → Option TokenAccount} {burn revenue : ℕ} {now : ℤ}
    (run : Reaches (step E) guard .genesis tr s)
    (hback : Backed E tr s.records.processing s.records.reserved)
    (hminted : p.totalMinted < 2 ^ 64 - 1)
    (hnone : ∀ o ∈ change, s.records.utxos (.poolState m, o.1) = none)
    (hI : ∀ m, Tallied (s.records.figures m) s m)
    (h : Completing E s.records m p req tc us tx txid change leaf T burn revenue)
    (hr : s'.records = s.records.complete m p req tc us txid change leaf T burn revenue now) :
    ∀ m, Tallied (s'.records.figures m) s' m := by
  have hreserved := reserved_creditChange hnone leaf
  have haside := h.held.aside
  rw [hreserved] at haside
  obtain ⟨hworth, hpool, -⟩ := hback.worth run (processing_of_processing h.request h.processing)
    h.held.picked.nodup haside h.count
  change (amountsOf us).sum = req.totalInputSats at hworth
  obtain ⟨l₁, hl₁, htotal⟩ := exists_changed leaf hnone
  have hrecs : s'.utxos.recs = Store.updates l₁.recs (pickedEntries (fun _ => none) us) := by
    refine (show s'.records.utxos = _ by rw [hr]).trans ?_
    rw [hl₁]
    have hsame : (((s.records.putCompletionReceipt txid).setTokens T).creditChange (.poolState m)
        change leaf).utxos = (s.records.creditChange (.poolState m) change leaf).utxos :=
      @creditChange_utxos ((s.records.putCompletionReceipt txid).setTokens T) s.records rfl ..
    exact congrArg (Store.updates · _) hsame
  have hout : ∀ (w : UtxoRecord → ℕ) m', s'.outputs w m' +
      (if m' = m then (us.map fun e => w e.2).sum else 0) = s.outputs w m' +
        if m' = m then change.elim 0 fun o => w (newUtxo o.1 o.2 leaf) else 0 := fun w m' => by
    have hex := total_picked (w := w) (fun e he => by rw [hl₁]; exact h.held.picked.recorded e he)
      h.held.picked.nodup hpool hrecs m'
    rw [htotal] at hex
    simpa [State.outputs] using hex
  have hreqs : s'.records.redemptions = Store.updates s.records.redemptions
      [(req.storeKey m, none)] := by
    rw [hr]
    exact (complete_tokens ..).2.2
  have hreq : ∀ m', s'.requestCount m' + (if m' = m then 1 else 0) = s.requestCount m' :=
    requests_close hreqs h.request
  have hsh : ∀ m', s'.records.shieldedOf m' = s.records.shieldedOf m' := fun m' => by
    rw [hr, Records.shieldedOf, (complete_tokens ..).1]
    rcases eq_or_ne m' m with rfl | hne
    · rw [Function.update_self, Records.shieldedOf, h.config]
      rfl
    · rw [Function.update_of_ne (by simpa using hne), Records.shieldedOf]
  obtain ⟨hsum, hlen⟩ := sum_of_reserved us fun e he => (h.held.reserved e he).1
  obtain ⟨h₁, h₂, h₃, h₄, h₅⟩ := hI m
  rw [figures_of_pool h.pool] at h₁ h₂ h₃ h₄ h₅
  -- what was consumed was among the live outputs, so the sums did not leave the range
  have hle : (amountsOf us).sum ≤ s.outputs UtxoRecord.amountSats m :=
    amounts_le (fun e he => (reserved_eq_some.mp (haside e he).1).1) h.held.picked.nodup hpool
  change p.totalMinted = p.totalBurned + _ at h₄
  have hinputs := h.settlement.inputs (by omega)
  refine tallied_of_shift (m := m) (f := (p.settled burn revenue change now).figures) hI ?_
    (fun m' hne w => by simpa [hne] using hout w m')
    (fun m' hne => by simpa [hne] using hreq m') (fun m' _ => hsh m') ⟨?_, ?_, ?_, ?_, ?_⟩
  · rw [hr]
    cases change <;> exact figures_putPool ..
  · have hw := hout UtxoRecord.unspentSats m
    rw [if_pos rfl, if_pos rfl, hsum] at hw
    change p.totalBtcHeld = _ at h₁
    change p.totalBtcHeld + changeAmount change = _
    rw [h₁]
    cases change <;> exact hw.symm
  · have hw := hout UtxoRecord.unspentOne m
    rw [if_pos rfl, if_pos rfl, hlen] at hw
    change p.utxoCount = _ at h₂
    change p.utxoCount + _ = _
    rw [h₂]
    cases change <;> exact hw.symm
  · have hm := hreq m
    rw [if_pos rfl] at hm
    change p.pendingRedemptions = _ at h₃
    change p.pendingRedemptions - 1 = _
    omega
  · have hw := hout UtxoRecord.amountSats m
    rw [if_pos rfl, if_pos rfl] at hw
    have hch : (change.elim 0 fun o => (newUtxo o.1 o.2 leaf).amountSats) = changeAmount change := by
      cases change <;> rfl
    have hus : (us.map fun e => e.2.amountSats).sum = (amountsOf us).sum := rfl
    rw [hch, hus] at hw
    change p.totalMinted = p.totalBurned + burn + _
    omega
  · exact h₅.trans (hsh m).symm

theorem step_tallied (run : Reaches (step E) guard .genesis tr s) (hok : Ordinary s.records)
    (hkeys : KeysApart E (markedKeys E tr))
    (hchange : ChangeNew (presentations E tr ++ (l.presented E s).toList)) (hs : Solvent s)
    (hg : guard s l) (hstep : step E s l = .ok s') (hI : ∀ m, Tallied (s.records.figures m) s m) :
    ∀ m, Tallied (s'.records.figures m) s' m := by
  have hkept := kept_of_reaches run
  have hsolvent' : Solvent s' := step_solvent hstep hs hkept hok.apart
  have hcount := requestCount_lt (run.call hg hstep) hsolvent'
  have hback := backed_of_reaches run hkeys (List.pairwise_append.mp hchange).1
  obtain ⟨r', hr, heffect⟩ : ∃ r', s'.records = r' ∧ Effect E s l r' :=
    ⟨_, rfl, step_effect hstep⟩
  have still : r'.figures = s.records.figures → r'.utxos = s.records.utxos →
      r'.redemptions = s.records.redemptions →
      (∀ m, r'.shieldedOf m = s.records.shieldedOf m) →
      ∀ m, Tallied (s'.records.figures m) s' m := by
    subst hr
    exact fun hfig hout hreq hsh =>
      tallied_of_still hI hfig hout (requests_congr hreq _) hsh
  cases heffect with
  | quiet => exact still rfl rfl rfl fun _ => rfl
  | exitRegistered => exact still rfl rfl rfl fun _ => rfl
  | reconfigured h =>
    obtain ⟨m, p, p', hp, hsame, rfl⟩ := h
    refine still (figures_putPool_same hp ?_) rfl rfl fun _ => rfl
    obtain ⟨-, h₁, h₂, h₃, h₄, h₅, h₆, -, -⟩ := hsame
    rw [PoolState.figures, PoolState.figures, h₁, h₂, h₃, h₄, h₅, h₆]
  | tokensServed h => exact still rfl rfl rfl fun _ => rfl
  | @initialized c m p fresh new =>
    refine still ?_ rfl rfl fun _ => rfl
    refine (figures_putPool ..).trans ?_
    obtain ⟨-, h₁, h₂, h₃, h₄, h₅, h₆, -, -⟩ := new
    have hzero : p.figures = s.records.figures m := by
      rw [PoolState.figures, Records.figures, fresh, h₁, h₂, h₃, h₄, h₅, h₆]
      rfl
    rw [hzero]
    exact Function.update_eq_self ..
  | configured => exact still rfl rfl rfl fun _ => rfl
  | @registered c pool mint tc h =>
    obtain ⟨m, p, rfl, -⟩ := h.pool_exists
    refine still rfl rfl rfl fun m' => ?_
    rw [shieldedOf_putTokenConfig]
    split_ifs with hand
    · obtain ⟨rfl, rfl⟩ := hand
      rw [h.shielded, Records.shieldedOf, h.fresh]
      rfl
    · rfl
  | @relimited c k tc tc' config same =>
    obtain ⟨hmint, m, v, hpool, -, -⟩ := hkept.config k.1 k.2 _ config
    obtain rfl : k = (.poolState m, tc.mint) := Prod.ext hpool hmint.symm
    refine still rfl rfl rfl fun m' => ?_
    rw [shieldedOf_putTokenConfig]
    split_ifs with hand
    · obtain ⟨rfl, hown⟩ := hand
      rw [hown] at config
      rw [same.totalShielded, Records.shieldedOf, config]
      rfl
    · rfl
  | @claimed c m tc T amount config covered paid =>
    refine still rfl rfl rfl fun m' => ?_
    refine (shieldedOf_putTokenConfig (s.records.setTokens T) m tc.mint (tc.claim amount) m').trans ?_
    split_ifs with hand
    · obtain ⟨rfl, hown⟩ := hand
      rw [hown] at config
      rw [Records.shieldedOf, config]
      rfl
    · rfl
  | @shielded c c' m p tc t t' T commitment amount fee now keys h =>
    have hr' : s'.records = ((s.records.setTokens T).place (.poolState m) p.activeTreeIndex t t'
      [commitment]).putTotals m p (tc.owe amount fee) now := hr
    exact tallied_of_shielded hI (figures_of_pool h.pool).symm h.mint hr' rfl rfl rfl rfl
  | @transacted c c' plan m p t r' decoded planned sound burnable outputs =>
    have hfig := figures_putPool_same (r := s.records) sound.at_tree.pool
      (NullifierAccounting.count_figures plan.pre.nullifiers.length p plan.accounting)
    cases outputs <;> exact still hfig rfl rfl fun _ => rfl
  | @unshielded c c' plan m p tc t t' T amount fee now decoded planned h =>
    have hp := h.sound.at_tree.pool
    have hsame := NullifierAccounting.count_figures plan.pre.nullifiers.length p .ApplyNow
    have hr' : s'.records = (((s.records.burn m p plan.sourceTreeIndex plan.pre.nullifiers
      .ApplyNow).place (.poolState m) p.activeTreeIndex t t' plan.treeOutputs).setTokens T).putTotals
        m (NullifierAccounting.ApplyNow.count plan.pre.nullifiers.length p) (tc.release amount fee)
          now := hr
    exact tallied_of_shielded hI (hsame.trans (figures_of_pool hp).symm) h.sound.at_tree.mint hr'
      (figures_putPool_same hp hsame) rfl rfl rfl
  | @redeemed c c' plan m p tc t t' now decoded planned h =>
    exact tallied_of_redeemed (hcount m) hI h hr
  | marked decoded h => exact tallied_of_marked hI h hr
  | @approved c c' m req req' cfg us tx fee inputIndex decoded digest index h =>
    obtain ⟨fee', hreq'⟩ := h.approved.same
    have hq : s'.records.redemptions =
        Store.updates s.records.redemptions [(req.storeKey m, some req')] := by rw [hr]; rfl
    exact tallied_of_still hI (by rw [hr]; rfl) (by rw [hr]; rfl)
      (requests_rewrite hq h.request rfl) fun m => by rw [hr]; rfl
  | cancelled decoded h => exact tallied_of_cancelled run hok.apart hback hI h hr
  | @completed c c' m p req tc us tx txid leaf T burn revenue now decoded h named =>
    exact tallied_of_completed run hback (hok.minted m p h.pool)
      (change_unrecorded run decoded named h.new h.change_txid hchange) hI h hr
  | deposited decoded kind input credited h => exact tallied_of_deposited hI h hr
  | @merged c c' pool tree m p t t' leaves decoded at_tree nodup queued placed =>
    refine still ?_ rfl rfl fun _ => rfl
    refine figures_putPool_same (r := s.records) at_tree.pool ?_
    split_ifs <;> rfl
  | @rotated c c' m p t decoded mint pool tree full =>
    exact still (figures_putPool_same (r := s.records) pool rfl) rfl rfl fun _ => rfl

end Step

/-! ### Runs -/

namespace Regtest

lemma run_otherShielded : (trace (step env) (fun _ _ => true) .genesis
    (openBook ++ registerColliding ++ takenBackAs (.key collidingMint))).any (fun tr =>
      decide (ChangeNew (presentations env tr)) &&
        ((final .genesis tr).records.pools zkbtc).any fun p =>
          ((final .genesis tr).records.tokenConfigs (pool, zkbtc)).any fun tc =>
            p.totalShielded ≠ tc.totalShielded) = true := by
  decide +kernel

/-- At most one pool with one token, which minted little. -/
def smallBook (s : State) (l : Label) : Bool :=
  oneToken s l && decide (s.pools.dom ⊆ {zkbtc}) &&
    (s.records.pools zkbtc).all fun p => p.totalMinted < 2 ^ 64 - 1

lemma ordinary_of_smallBook {s : State} {l : Label} (h : smallBook s l = true) :
    Ordinary s.records := by
  simp only [smallBook, Bool.and_eq_true, decide_eq_true_eq] at h
  obtain ⟨⟨htokens, hpools⟩, hminted⟩ := h
  refine ⟨tokensApart_of_oneToken htokens, fun m p hp => ?_⟩
  obtain rfl : m = zkbtc := by
    by_contra hne
    have hout : m ∉ s.pools.dom := fun hmem => hne (Finset.mem_singleton.mp (hpools hmem))
    have hget : (s.pools.get m).rec? = some p := hp
    rw [s.pools.outside m hout] at hget
    exact absurd hget (by simp [Account.rec?])
  simpa [hp] using hminted

lemma run_paid : (trace (step env) smallBook .genesis (sweptTwice.take 9)).any
    (fun tr => decide (KeysApart env (markedKeys env tr)) &&
      (decide (ChangeNew (presentations env tr)) &&
        ((final .genesis tr).records.pools zkbtc).isSome)) = true := by
  decide +kernel

end Regtest

end Utxopia.Pool
