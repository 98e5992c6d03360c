import Utxopia.Pool.Origin
import Utxopia.Pool.Solvency

/-!
Pools do not disturb each other.

One program serves many pools, and every call names accounts of its own choice. A pool has a part of the
books: its record, and the records filed under its address. A step touches the part of one pool at most,
and takes tokens out of the vaults of no other.
-/

namespace Utxopia.Pool

open Utxopia.ByteString Utxopia.Check Utxopia.Run Utxopia.Runtime

variable {E : Env} {s s' : State} {l : Label} {r r' r'' : Records} {m m₀ : Addr}
  {tr : List (Step State Label)} {p : PoolState} {req : RedemptionRequest} {tc : TokenConfig}

/-- What a pool has on the books. -/
@[ext]
structure Part where
  pool : Option PoolState
  trees : ℕ → Option CommitmentTree
  tokenConfigs : Addr → Option TokenConfig
  poolConfig : Option PoolConfig
  utxos : Outpoint → Option UtxoRecord
  redemptions : Addr × ℕ → Option RedemptionRequest
  queuedLeaves : Hash → Option QueuedLeaf
  nullifiers : Option ℕ × Hash → Option Marker
  exitDestinations : ℕ × Hash → Option ExitDestination

def Records.part (r : Records) (m : Addr) : Part where
  pool := r.pools m
  trees i := r.trees (.poolState m, i)
  tokenConfigs mint := r.tokenConfigs (.poolState m, mint)
  poolConfig := r.poolConfigs (.poolState m)
  utxos o := r.utxos (.poolState m, o)
  redemptions k := r.redemptions (.poolState m, k)
  queuedLeaves hash := r.queuedLeaves (.poolState m, hash)
  nullifiers k := r.nullifiers (.poolState m, k)
  exitDestinations k := r.exitDestinations (.poolState m, k)

/-! ### Changes under another address -/

section Elsewhere

variable {a : Addr}

lemma apart_of_ne (h : m ≠ m₀) : Addr.poolState m ≠ .poolState m₀ := fun heq => h (Addr.poolState.inj heq)

/-- Records filed under another address were changed. -/
lemma updates_elsewhere {κ α : Type} [DecidableEq κ] {f : Addr × κ → Option α}
    {es : List ((Addr × κ) × Option α)} (h : ∀ e ∈ es, e.1.1 ≠ a) (k : κ) :
    Store.updates f es (a, k) = f (a, k) := by
  refine Store.updates_of_notMem fun hmem => ?_
  obtain ⟨e, he, heq⟩ := List.mem_map.mp hmem
  exact h e he (congrArg Prod.fst heq)

lemma update_elsewhere {κ α : Type} [DecidableEq κ] {f : Addr × κ → Option α} {k : Addr × κ}
    {v : Option α} (h : k.1 ≠ a) (i : κ) : Function.update f k v (a, i) = f (a, i) :=
  Function.update_of_ne (fun heq => h (congrArg Prod.fst heq).symm) ..

lemma part_putPool (h : m ≠ m₀) (p : PoolState) : (r.putPool m₀ p).part m = r.part m :=
  Part.ext (Function.update_of_ne h ..) rfl rfl rfl rfl rfl rfl rfl rfl

lemma part_putTree {k : Addr × ℕ} (h : k.1 ≠ .poolState m) (t : CommitmentTree) :
    (r.putTree k t).part m = r.part m :=
  Part.ext rfl (funext fun i => update_elsewhere h i) rfl rfl rfl rfl rfl rfl rfl

lemma part_putTokenConfig {k : Addr × Addr} (h : k.1 ≠ .poolState m) (tc : TokenConfig) :
    (r.putTokenConfig k tc).part m = r.part m :=
  Part.ext rfl rfl (funext fun i => update_elsewhere h i) rfl rfl rfl rfl rfl rfl

lemma part_putPoolConfig (h : a ≠ .poolState m) (cfg : PoolConfig) :
    (r.putPoolConfig a cfg).part m = r.part m :=
  Part.ext rfl rfl rfl (Function.update_of_ne h.symm ..) rfl rfl rfl rfl rfl

lemma part_putExitDestination {k : Addr × ℕ × Hash} (h : k.1 ≠ .poolState m) :
    (r.putExitDestination k).part m = r.part m :=
  Part.ext rfl rfl rfl rfl rfl rfl rfl rfl (funext fun i => update_elsewhere h i)

lemma part_updateUtxos {es : List ((Addr × Outpoint) × Option UtxoRecord)}
    (h : ∀ e ∈ es, e.1.1 ≠ .poolState m) : (r.updateUtxos es).part m = r.part m :=
  Part.ext rfl rfl rfl rfl (funext fun o => updates_elsewhere h o) rfl rfl rfl rfl

lemma part_updateRedemptions {es : List ((Addr × Addr × ℕ) × Option RedemptionRequest)}
    (h : ∀ e ∈ es, e.1.1 ≠ .poolState m) : (r.updateRedemptions es).part m = r.part m :=
  Part.ext rfl rfl rfl rfl rfl (funext fun k => updates_elsewhere h k) rfl rfl rfl

lemma part_updateQueue {es : List ((Addr × Hash) × Option QueuedLeaf)}
    (h : ∀ e ∈ es, e.1.1 ≠ .poolState m) : (r.updateQueue es).part m = r.part m :=
  Part.ext rfl rfl rfl rfl rfl rfl (funext fun hash => updates_elsewhere h hash) rfl rfl

lemma part_updateNullifiers {es : List ((Addr × Option ℕ × Hash) × Option Marker)}
    (h : ∀ e ∈ es, e.1.1 ≠ .poolState m) : (r.updateNullifiers es).part m = r.part m :=
  Part.ext rfl rfl rfl rfl rfl rfl rfl (funext fun k => updates_elsewhere h k) rfl

end Elsewhere

section Compound

variable (h : m ≠ m₀)

include h

lemma part_place (index : ℕ) (t t' : CommitmentTree) (hs : List Hash) :
    (r.place (.poolState m₀) index t t' hs).part m = r.part m :=
  part_putTree (r := r) (k := (.poolState m₀, index)) (apart_of_ne h).symm t'

lemma part_burn (p : PoolState) (tree : ℕ) (nfs : List Hash) (accounting : NullifierAccounting) :
    (r.burn m₀ p tree nfs accounting).part m = r.part m := by
  refine (part_putPool h _).trans (part_updateNullifiers (r := r) fun e he => ?_)
  obtain ⟨nf, -, rfl⟩ := List.mem_map.mp he
  exact (apart_of_ne h).symm

lemma part_putTotals (p : PoolState) (tc : TokenConfig) (now : ℤ) :
    (r.putTotals m₀ p tc now).part m = r.part m := by
  have hconfig := part_putTokenConfig (r := r) (k := (.poolState m₀, tc.mint)) (apart_of_ne h).symm tc
  unfold Records.putTotals
  split_ifs
  · exact (part_putPool h _).trans hconfig
  · exact hconfig

lemma part_creditChange (change : Option (Outpoint × ℕ)) (leaf : Option Hash) :
    (r.creditChange (.poolState m₀) change leaf).part m = r.part m := by
  cases change with
  | none => rfl
  | some o =>
    refine part_updateUtxos (r := r) fun e he => ?_
    rw [List.mem_singleton.mp he]
    exact (apart_of_ne h).symm

/-- The request and the outputs that were put aside for it. -/
lemma part_closed {f : UtxoRecord → Option UtxoRecord} {us : List UtxoEntry}
    (hus : ∀ e ∈ us, e.1.1 = .poolState m₀) : (r.updateUtxos (pickedEntries f us)).part m = r.part m := by
  refine part_updateUtxos fun e he => ?_
  obtain ⟨d, hd, rfl⟩ := List.mem_map.mp he
  rw [hus d hd]
  exact (apart_of_ne h).symm

lemma part_request (v : Option RedemptionRequest) :
    (r.updateRedemptions [(req.storeKey m₀, v)]).part m = r.part m := by
  refine part_updateRedemptions fun e he => ?_
  rw [List.mem_singleton.mp he]
  exact (apart_of_ne h).symm

end Compound

/-! ### The outputs of a request -/

/-- What is put aside for a request was put aside by a marking of its pool. -/
lemma held_own (hcov : Covered E tr r.processing r.reserved)
    (hreq : r.redemptions (req.storeKey m) = some req) (hst : req.status = .Processing)
    {e : UtxoEntry} (hrec : r.utxos e.1 = some e.2) (hres : e.2.status = .Reserved)
    (hkey : e.2.reservedForRequestId = reservationKeyOf E (req.storeKey m)) : e.1.1 = .poolState m := by
  obtain ⟨us₀, horigin⟩ := hcov.origin hreq hst
  have hmem := horigin.held e (reserved_eq_some.mpr ⟨hrec, hres⟩) hkey
  exact congrArg Prod.fst (horigin.filed_reserved hmem)

lemma Cancelling.held_own {t t' : CommitmentTree} {us : List UtxoEntry} {commitment : Hash}
    (h : Cancelling E r m p req tc t t' us commitment) (hcov : Covered E tr r.processing r.reserved) :
    ∀ e ∈ us, e.1.1 = .poolState m := by
  intro e he
  rcases h.state with ⟨-, rfl⟩ | ⟨hst, -⟩
  · exact absurd he (by simp)
  · obtain ⟨hres, hkey⟩ := h.held.reserved e he
    exact Pool.held_own hcov h.request hst (h.held.picked.recorded e he) hres hkey

lemma Completing.held_own {us : List UtxoEntry} {tx : ParsedTransaction} {txid : Hash}
    {change : Option (Outpoint × ℕ)} {leaf : Option Hash} {T : Addr → Option TokenAccount}
    {burn revenue : ℕ} (h : Completing E r m p req tc us tx txid change leaf T burn revenue)
    (hcov : Covered E tr r.processing r.reserved) : ∀ e ∈ us, e.1.1 = .poolState m := by
  intro e he
  obtain ⟨hres, hkey⟩ := h.held.reserved e he
  have hrec := h.held.picked.recorded e he
  by_contra hne
  -- the change is filed under the pool, so this output was there before
  have hold : r.utxos e.1 = some e.2 := by
    cases change with
    | none => exact hrec
    | some o => exact (Function.update_of_ne (fun heq => hne (congrArg Prod.fst heq)) ..).symm.trans hrec
  exact hne (Pool.held_own hcov h.request h.processing hold hres hkey)

/-! ### One step -/

/-- The part of a pool is as before, and its token accounts have at least what they had. -/
structure Spared (m : Addr) (r r' : Records) : Prop where
  part : r'.part m = r.part m
  tokens : ∀ a t, r.tokens a = some t → t.owner = .poolState m →
    ∃ t', r'.tokens a = some t' ∧ t.Like t' ∧ t.amount ≤ t'.amount

lemma Spared.of_tokens_eq (hpart : r'.part m = r.part m) (h : r'.tokens = r.tokens) : Spared m r r' :=
  ⟨hpart, fun a t ht _ => ⟨t, by rw [h]; exact ht, .refl t, le_rfl⟩⟩

/-- Tokens left an account that is not the pool's. -/
lemma Spared.of_outflow (src : Addr) (amount : ℕ) (hpart : r'.part m = r.part m)
    (h : Outflow src amount r.tokens r'.tokens)
    (hsrc : ∀ t, r.tokens src = some t → t.owner ≠ .poolState m) : Spared m r r' := by
  refine ⟨hpart, fun a t ht howner => ?_⟩
  have hne : a ≠ src := by
    rintro rfl
    exact hsrc t ht howner
  obtain ⟨t', ht', hlike⟩ := h.like a t ht
  have hle := h.least_of_ne hne
  rw [balanceIn_of_some ht, balanceIn_of_some ht'] at hle
  exact ⟨t', ht', hlike, hle⟩

/-- The vault of a token belongs to the token's pool. -/
lemma Kept.vault_owner (hk : Kept r) {mint : Addr} (htc : r.tokenConfigs (.poolState m₀, mint) = some tc)
    (h : m ≠ m₀) : ∀ t, r.tokens tc.vault = some t → t.owner ≠ .poolState m := by
  intro t ht howner
  obtain ⟨-, m₁, v, hm, hv, hvowner⟩ := hk.config _ _ _ htc
  obtain rfl : v = t := Option.some_inj.mp (hv.symm.trans ht)
  exact h (Addr.poolState.inj (howner.symm.trans hvowner))

/-- **A step is about one pool**: it spares every other. -/
theorem Effect.spares (h : Effect E s l r') (hk : Kept s.records)
    (hcov : Covered E tr s.records.processing s.records.reserved) :
    ∃ m₀, ∀ m, m ≠ m₀ → Spared m s.records r' := by
  have hpool : ∀ a : Addr, ∃ m₀, ∀ m, m ≠ m₀ → a ≠ .poolState m := by
    intro a
    cases a with
    | poolState m₀ => exact ⟨m₀, fun m hne => (apart_of_ne hne).symm⟩
    | _ => exact ⟨.cpiAuthority, fun m _ => by simp⟩
  cases h with
  | quiet => exact ⟨.cpiAuthority, fun m _ => .of_tokens_eq rfl rfl⟩
  | reconfigured h =>
    obtain ⟨m₀, p, p', -, -, rfl⟩ := h
    exact ⟨m₀, fun m hne => .of_tokens_eq (part_putPool hne _) rfl⟩
  | tokensServed h =>
    refine ⟨.cpiAuthority, fun m _ => ⟨rfl, fun a t ht howner => ?_⟩⟩
    exact h.kept a t ht (by rw [howner]; rfl)
  | @initialized c m₀ p fresh new =>
    refine ⟨m₀, fun m hne => .of_tokens_eq ((part_putPool hne _).trans ?_) rfl⟩
    exact part_putTree (k := (.poolState m₀, 0)) (apart_of_ne hne).symm _
  | @configured c c' pool decoded account h =>
    obtain ⟨m₀, hm₀⟩ := hpool pool.key
    exact ⟨m₀, fun m hne => .of_tokens_eq (part_putPoolConfig (hm₀ m hne) _) rfl⟩
  | @registered c pool mint tc h =>
    obtain ⟨m₀, hm₀⟩ := hpool pool
    exact ⟨m₀, fun m hne => .of_tokens_eq (part_putTokenConfig (hm₀ m hne) _) rfl⟩
  | @relimited c k tc tc' config same =>
    obtain ⟨m₀, hm₀⟩ := hpool k.1
    exact ⟨m₀, fun m hne => .of_tokens_eq (part_putTokenConfig (hm₀ m hne) _) rfl⟩
  | @claimed c m₀ tc T amount config covered paid =>
    refine ⟨m₀, fun m hne => .of_outflow tc.vault amount ?_ paid (hk.vault_owner config hne)⟩
    exact part_putTokenConfig (r := s.records.setTokens T) (k := (.poolState m₀, tc.mint))
      (apart_of_ne hne).symm _
  | @exitRegistered c k free =>
    obtain ⟨m₀, hm₀⟩ := hpool k.1
    exact ⟨m₀, fun m hne => .of_tokens_eq (part_putExitDestination (hm₀ m hne)) rfl⟩
  | @shielded c c' m₀ p tc t t' T commitment amount fee now keys h =>
    obtain ⟨user, huser, hsigner, src, u, n, hu, hallow, hout⟩ := h.paid
    refine ⟨m₀, fun m hne => .of_outflow src n ?_ ?_ fun t ht howner => ?_⟩
    · exact (part_putTotals hne _ _ _).trans (part_place (r := s.records.setTokens T) hne _ _ _ _)
    · rw [Records.shield, (putTotals_tokenConfigs ..).2.2]
      exact hout
    · exact not_vault_of_paid keys hk huser hsigner hu hallow ht (by rw [howner]; rfl) rfl
  | @transacted c c' plan m₀ p t r' decoded planned sound burnable outputs =>
    refine ⟨m₀, fun m hne => ?_⟩
    have hburn := part_burn (r := s.records) hne p plan.sourceTreeIndex plan.pre.nullifiers
      plan.accounting
    cases outputs with
    | inline => exact .of_tokens_eq ((part_place hne _ _ _ _).trans hburn) rfl
    | queue =>
      refine .of_tokens_eq (.trans (part_updateQueue (r := s.records.burn m₀ p plan.sourceTreeIndex
        plan.pre.nullifiers plan.accounting) fun e he => ?_) hburn) rfl
      obtain ⟨leaf, -, rfl⟩ := List.mem_map.mp he
      exact (apart_of_ne hne).symm
  | @unshielded c c' plan m₀ p tc t t' T amount fee now decoded planned h =>
    obtain ⟨out, hout, -⟩ := h.paid
    refine ⟨m₀, fun m hne => .of_outflow tc.vault out ?_ ?_
      (hk.vault_owner h.sound.at_token.config hne)⟩
    · exact (part_putTotals hne _ _ _).trans ((part_place (r := s.records.burn m₀ p
        plan.sourceTreeIndex plan.pre.nullifiers .ApplyNow) hne _ t _ plan.treeOutputs).trans
          (part_burn hne _ _ _ _))
    · rw [Records.unshield, (putTotals_tokenConfigs ..).2.2]
      exact hout
  | @redeemed c c' plan m₀ p tc t t' now decoded planned h =>
    refine ⟨m₀, fun m hne => .of_tokens_eq ((part_putPool hne _).trans
      ((part_putTokenConfig (k := (.poolState m₀, m₀)) (apart_of_ne hne).symm _).trans
        ((part_updateRedemptions fun e he => ?_).trans
          ((part_place hne _ _ _ _).trans (part_burn hne _ _ _ _))))) rfl⟩
    obtain ⟨item, -, rfl⟩ := List.mem_map.mp he
    exact (apart_of_ne hne).symm
  | @marked c c' m₀ p req us slot decoded h =>
    refine ⟨m₀, fun m hne => .of_tokens_eq ((part_request hne _).trans ((part_putPool hne _).trans
      (part_closed hne fun e he => ?_))) rfl⟩
    rw [h.reservation.keys e he]
  | @approved c c' m₀ req req' cfg us tx fee i decoded digest index h =>
    exact ⟨m₀, fun m hne => .of_tokens_eq (part_request (r := s.records) hne _) rfl⟩
  | @cancelled c c' m₀ p req tc t t' us commitment now decoded h =>
    exact ⟨m₀, fun m hne => .of_tokens_eq ((part_request hne _).trans ((part_putPool hne _).trans
      ((part_putTokenConfig (k := (.poolState m₀, tc.mint)) (apart_of_ne hne).symm _).trans
        ((part_place hne _ _ _ _).trans (part_closed hne (h.held_own hcov)))))) rfl⟩
  | @completed c c' m₀ p req tc us tx txid leaf T burn revenue now decoded h =>
    refine ⟨m₀, fun m hne => .of_outflow tc.vault burn ?_ ?_
      (hk.vault_owner h.config hne)⟩
    · exact (part_request hne _).trans
        ((part_putTokenConfig (k := (.poolState m₀, m₀)) (apart_of_ne hne).symm _).trans
          ((part_putPool hne _).trans ((part_closed hne (h.held_own hcov)).trans
            (part_creditChange (r := (s.records.putCompletionReceipt txid).setTokens T) hne _ _))))
    · rw [(complete_tokens ..).2.1]
      exact h.paid
  | @deposited c c' i tweaked ix binding m₀ p tc t t' T credit leaf commitment amount fee now decoded kind
      input credited h =>
    refine ⟨m₀, fun m hne => .of_outflow tc.vault 0 ?_ h.minted
      (hk.vault_owner h.config hne)⟩
    refine (part_putPool hne _).trans
      ((part_putTokenConfig (k := (.poolState m₀, m₀)) (apart_of_ne hne).symm _).trans
        ((part_updateUtxos (r := (s.records.putDepositReceipt _).place (.poolState m₀)
          p.activeTreeIndex t t' [commitment]) fun e he => ?_).trans
            (part_place (r := s.records.putDepositReceipt _) hne _ _ _ _)))
    rw [List.mem_singleton.mp he]
    exact (apart_of_ne hne).symm
  | @merged c c' pool tree m₀ p t t' leaves decoded at_tree =>
    refine ⟨m₀, fun m hne => .of_tokens_eq ((part_updateQueue fun e he => ?_).trans
      ((part_putPool hne _).trans
        (part_place (r := s.records) hne _ t _ (leaves.map QueuedLeaf.commitment)))) rfl⟩
    obtain ⟨leaf, -, rfl⟩ := List.mem_map.mp he
    exact (apart_of_ne hne).symm
  | @rotated c c' m₀ p t decoded mint pool =>
    refine ⟨m₀, fun m hne => .of_tokens_eq ((part_putPool hne _).trans ?_) rfl⟩
    exact part_putTree (k := (.poolState m₀, p.nextTreeIndex)) (apart_of_ne hne).symm _

/-- **Pools are apart**: of every call in every run there is one pool such that every other pool keeps
its record, its trees, its tokens, its wallet, its outputs, its requests, its queue, its nullifiers and
its exits, and keeps at least the tokens it has in every account. As long as no two marked requests have
one reservation key. -/
theorem pools_spared (run : Reaches (step E) (fun _ _ => True) .genesis tr s)
    (hkeys : KeysApart E (markedKeys E tr)) :
    ∀ st ∈ tr, ∃ m₀, ∀ m, m ≠ m₀ → Spared m st.pre.records st.post.records := by
  intro st hst
  obtain ⟨before, after, rfl⟩ := List.append_of_mem hst
  obtain ⟨hbefore, hstep⟩ := run.split rfl
  exact (step_effect hstep).spares (kept_of_reaches hbefore)
    (covered_of_reaches hbefore hkeys.of_append)

namespace Regtest

/-- A pool is paused after another one was opened. -/
def twoPools : List Label :=
  [openPool, openPoolOf otherMint, call 1 [writable pool, signer admin] [1] [] 0]

lemma run_twoPools : (trace (step env) (fun _ _ => true) .genesis twoPools).any
    (fun tr => decide (KeysApart env (markedKeys env tr)) &&
      tr.any fun st => (st.pre.records.pools otherMint).isSome) = true := by
  decide +kernel

end Regtest

open Regtest in
/-- Each call spares one of two pools at least. -/
theorem pools_spared_two : ∃ tr : List (Step State Label), tr.map Step.call = twoPools ∧
    (∃ st ∈ tr, (st.pre.records.pools otherMint).isSome = true) ∧
    ∀ st ∈ tr, ∃ m₀, ∀ m, m ≠ m₀ → Spared m st.pre.records st.post.records := by
  obtain ⟨tr, htr, hok⟩ := (Option.any_eq_true _ _).mp run_twoPools
  rw [Bool.and_eq_true, decide_eq_true_eq, List.any_eq_true] at hok
  obtain ⟨hcalls, hrun⟩ := reaches_of_trace (fun _ _ _ => trivial) htr
  exact ⟨tr, hcalls, hok.2, pools_spared hrun hok.1⟩

end Utxopia.Pool
