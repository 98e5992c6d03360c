import Utxopia.LightClient.Batching
import Utxopia.LightClient.Instances

/-!
Median time past on every fork.

A header must be later than the median of the last eleven times before it. The times are read
from ancestor accounts that the submitter names and carried along inside a batch; either way
they are those of the header's own lineage. Only the start block's time is taken on trust.
-/

namespace Utxopia.LightClient.MedianTime

open Utxopia.ByteString Utxopia.Check Utxopia.Run Utxopia.Runtime
open Utxopia.LightClient.Accounts Utxopia.LightClient.Initialize Utxopia.LightClient.Extend
open Utxopia.LightClient.Prune Utxopia.LightClient.VerifyTransaction Utxopia.LightClient.Chain
open Utxopia.LightClient.Batching

/-! ### The median -/

/-- The middle one of the last eleven times, as they stand when sorted. -/
def medianTimePast (times : List ℕ) : ℕ :=
  let sorted := (times.take 11).insertionSort (· ≤ ·)
  sorted.getD (sorted.length / 2) 0

section Sorting

variable {s : List ℕ} {i k m : ℕ}

lemma leastIndex_spec (hi : i < s.length) :
    i ≤ leastIndex s i ∧ leastIndex s i < s.length ∧
      ∀ j, i ≤ j → j < s.length → s.getD (leastIndex s i) 0 ≤ s.getD j 0 := by
  -- the positions looked at so far
  have hrun : ∀ n, i + 1 + n ≤ s.length →
      let m := (List.range' (i + 1) n).foldl (fun m j => if s.getD j 0 < s.getD m 0 then j else m) i
      i ≤ m ∧ m < s.length ∧ ∀ j, i ≤ j → j < i + 1 + n → s.getD m 0 ≤ s.getD j 0 := by
    intro n hn
    induction n with
    | zero =>
      refine ⟨le_rfl, hi, fun j hij hj => ?_⟩
      obtain rfl : j = i := by omega
      exact le_rfl
    | succ n ih =>
      obtain ⟨hle, hlt, hleast⟩ := ih (by omega)
      rw [List.range'_concat, List.foldl_append, List.foldl_cons, List.foldl_nil, one_mul]
      generalize (List.range' (i + 1) n).foldl
        (fun m j => if s.getD j 0 < s.getD m 0 then j else m) i = m at hle hlt hleast ⊢
      split_ifs with hless
      · refine ⟨by omega, by omega, fun j hij hj => ?_⟩
        rcases Nat.lt_or_ge j (i + 1 + n) with h | h
        · exact hless.le.trans (hleast j hij h)
        · rw [show j = i + 1 + n by omega]
      · refine ⟨hle, hlt, fun j hij hj => ?_⟩
        rcases Nat.lt_or_ge j (i + 1 + n) with h | h
        · exact hleast j hij h
        · rw [show j = i + 1 + n by omega]
          exact not_lt.mp hless
  obtain ⟨h1, h2, h3⟩ := hrun (s.length - (i + 1)) (by omega)
  exact ⟨h1, h2, fun j hij hj => h3 j hij (by omega)⟩

@[simp] lemma length_swap : (swap s i m).length = s.length := by simp [swap]

lemma swap_perm (hi : i < s.length) (hm : m < s.length) : (swap s i m).Perm s := by
  rw [swap, List.getD_eq_getElem _ _ hm, List.getD_eq_getElem _ _ hi]
  exact List.set_set_perm hi hm

lemma getD_swap (hi : i < s.length) (hm : m < s.length) (j : ℕ) :
    (swap s i m).getD j 0 =
      if j = m then s.getD i 0 else if j = i then s.getD m 0 else s.getD j 0 := by
  simp only [swap, List.getD_eq_getElem?_getD]
  by_cases hjm : j = m
  · subst hjm
    rw [if_pos rfl, List.getElem?_set_self (by simpa using hm), Option.getD_some]
  rw [if_neg hjm, List.getElem?_set_ne (Ne.symm hjm)]
  by_cases hji : j = i
  · subst hji
    rw [if_pos rfl, List.getElem?_set_self hi, Option.getD_some]
  · rw [if_neg hji, List.getElem?_set_ne (Ne.symm hji)]

/-- The first `k` are in their places. -/
def Placed (s : List ℕ) (k : ℕ) : Prop :=
  ∀ i j, i < k → i ≤ j → j < s.length → s.getD i 0 ≤ s.getD j 0

/-- One round of the sort puts the next one in its place. -/
lemma Placed.next (h : Placed s k) (hk : k < s.length) :
    Placed (swap s k (leastIndex s k)) (k + 1) := by
  obtain ⟨hle, hlt, hleast⟩ := leastIndex_spec hk
  intro i j hi hij hj
  rw [length_swap] at hj
  rw [getD_swap hk hlt, getD_swap hk hlt]
  rcases Nat.lt_or_ge i k with hik | hik
  · rw [if_neg (by omega), if_neg (by omega)]
    split_ifs
    · exact h i k hik hik.le hk
    · exact h i _ hik (by omega) hlt
    · exact h i j hik hij hj
  · obtain rfl : i = k := by omega
    have hhead : (if i = leastIndex s i then s.getD i 0 else s.getD (leastIndex s i) 0) =
        s.getD (leastIndex s i) 0 := by
      split_ifs with heq
      · rw [← heq]
      · rfl
    rw [if_pos rfl, hhead]
    split_ifs
    · exact hleast i le_rfl hk
    · exact le_rfl
    · exact hleast j hij hj

/-- Selection sort sorts. -/
lemma medianTimestamp_eq (s : List ℕ) :
    medianTimestamp s = (s.insertionSort (· ≤ ·)).getD (s.length / 2) 0 := by
  have hrun : ∀ n ≤ s.length,
      let t := (List.range n).foldl (fun s i => swap s i (leastIndex s i)) s
      t.Perm s ∧ Placed t n := by
    intro n hn
    induction n with
    | zero => exact ⟨.refl _, fun i j hi => absurd hi (Nat.not_lt_zero i)⟩
    | succ n ih =>
      obtain ⟨hperm, hplaced⟩ := ih (by omega)
      rw [List.range_succ, List.foldl_append, List.foldl_cons, List.foldl_nil]
      have hlt := hperm.length_eq ▸ Nat.lt_of_succ_le hn
      exact ⟨(swap_perm hlt (leastIndex_spec hlt).2.1).trans hperm, hplaced.next hlt⟩
  obtain ⟨hperm, hplaced⟩ := hrun s.length le_rfl
  have hsorted : ((List.range s.length).foldl (fun s i => swap s i (leastIndex s i)) s).Pairwise
      (· ≤ ·) := List.pairwise_iff_getElem.mpr fun i j hi hj hij => by
    have := hplaced i j (hperm.length_eq ▸ hi) hij.le hj
    rwa [List.getD_eq_getElem _ _ hi, List.getD_eq_getElem _ _ hj] at this
  have heq := (hperm.trans (List.perm_insertionSort (· ≤ ·) s).symm).eq_of_pairwise
    (fun _ _ _ _ => le_antisymm) hsorted (List.pairwise_insertionSort (· ≤ ·) s)
  rw [medianTimestamp, heq]

/-- The order in which the window lists the times is immaterial. -/
lemma medianTimestamp_reverse (times : List ℕ) :
    medianTimestamp (times.take 11).reverse = medianTimePast times := by
  have hsort : (times.take 11).reverse.insertionSort (· ≤ ·) =
      (times.take 11).insertionSort (· ≤ ·) :=
    ((List.perm_insertionSort _ _).trans ((List.reverse_perm _).trans
      (List.perm_insertionSort _ _).symm)).eq_of_pairwise (fun _ _ _ _ => le_antisymm)
      (List.pairwise_insertionSort _ _) (List.pairwise_insertionSort _ _)
  rw [medianTimestamp_eq, hsort, medianTimePast, List.length_reverse, List.length_insertionSort]

end Sorting

/-! ### The times of the predecessors -/

section Lineage

variable (E : Env) (U : RawHeader → Prop)

/-- The all-zero hash, the link of the start block's record, is no block's. -/
def NoZeroHash (genesis : Hash) : Prop :=
  genesis ≠ zeros 32 ∧ ∀ raw, U raw → blockHashOf E raw ≠ zeros 32

/-- The times of a block and of its predecessors down to the start block, latest first. -/
inductive Times (genesis : Hash) (start : ℕ) : Hash → List ℕ → Prop
  | genesis : Times genesis start genesis [start]
  | link {raw : RawHeader} {ts : List ℕ} (mem : U raw)
      (prev : Times genesis start raw.prevBlockHash ts) :
      Times genesis start (blockHashOf E raw) (raw.timestamp :: ts)

variable {E U} {genesis : Hash} {start : ℕ} {b : Hash} {ts us : List ℕ}

/-- As many times as the block is deep. -/
lemma Times.depth (h : Times E U genesis start b ts) : Depth E U genesis 1 b ts.length := by
  induction h with
  | genesis => exact .genesis
  | link mem _ ih => exact .link mem ih

/-- A block has one list of times. -/
theorem Times.unique (hcol : NoCollision E U) (hcyc : NoCycle E U)
    (h : Times E U genesis start b ts) (h' : Times E U genesis start b us) : ts = us := by
  induction h generalizing us with
  | genesis =>
    cases hlen : us with
    | nil => exact absurd h'.depth.start_le (by simp [hlen])
    | cons u vs =>
      have hone : us.length = 1 := h'.depth.unique hcol hcyc .genesis
      subst hlen
      obtain rfl := List.length_eq_zero_iff.mp (Nat.succ.inj hone)
      generalize hb : genesis = b at h'
      cases h' with
      | genesis => rfl
      | link mem prev => exact absurd prev.depth.start_le (by simp)
  | @link raw ts mem prev ih =>
    generalize hb : blockHashOf E raw = b at h'
    cases h' with
    | genesis => exact absurd hb (prev.depth.link_ne hcyc mem)
    | link mem' prev' =>
      obtain rfl := hcol _ _ mem mem' hb
      rw [ih prev']

/-- The times before a block: none where its link is the all-zero one. -/
def Before (E : Env) (U : RawHeader → Prop) (genesis : Hash) (start : ℕ) (prev : Hash)
    (ts : List ℕ) : Prop :=
  (prev = zeros 32 ∧ ts = []) ∨ Times E U genesis start prev ts

/-- A stored header has the time of its block and the link to its predecessor. -/
structure Timed (E : Env) (U : RawHeader → Prop) (genesis : Hash) (start : ℕ) (b : Hash)
    (hdr : BlockHeader) : Prop where
  hash : hdr.blockHash = b
  times : ∃ ts, Times E U genesis start b (hdr.timestamp :: ts) ∧
    Before E U genesis start hdr.prevBlockHash ts ∧ (b = genesis → ts = [])

def AllTimed (E : Env) (U : RawHeader → Prop) (genesis : Hash) (start : ℕ) (s : State) : Prop :=
  ∀ b hdr, s.header? b = some hdr → Timed E U genesis start b hdr

lemma Times.ne_zeros (hz : NoZeroHash E U genesis) (h : Times E U genesis start b ts) :
    b ≠ zeros 32 := by
  cases h with
  | genesis => exact hz.1
  | link mem _ => exact hz.2 _ mem

/-! ### The window of a batch -/

variable {s s' : State} {lc : BitcoinLightClient}

/-- One ancestor is the next predecessor. -/
lemma readAncestor_next (hcol : NoCollision E U) (hcyc : NoCycle E U) (hz : NoZeroHash E U genesis)
    (hall : AllTimed E U genesis start s) {prev last prev' last' : Hash} {read read' : List ℕ}
    {info : AccountInfo} (hbefore : Before E U genesis start prev ts)
    (h : readAncestor s (prev, last, read) info = .ok (prev', last', read')) :
    ∃ t rest, ts = t :: rest ∧ read' = t :: read ∧ Before E U genesis start prev' rest ∧
      (last' = genesis → rest = []) := by
  simp only [readAncestor, bind_eq_ok, require_eq_ok, orElse_eq_ok, exists_const, pure_eq_ok,
    Prod.mk.injEq] at h
  obtain ⟨-, hdr, hhdr, hlink, hkey, rfl, rfl, rfl⟩ := h
  rw [hkey] at hhdr
  obtain ⟨-, rest, htimes, hrest, hstop⟩ := hall _ _ hhdr
  have hts : Times E U genesis start hdr.blockHash ts := by
    rcases hbefore with ⟨hnull, -⟩ | h
    · exact absurd (hlink.trans hnull) (htimes.ne_zeros hz)
    · exact hlink ▸ h
  exact ⟨hdr.timestamp, rest, hts.unique hcol hcyc htimes, rfl, hrest, hstop⟩

/-- The ancestors are the predecessors one after the other; they end early only at the start
block. -/
lemma readLoop_before (hcol : NoCollision E U) (hcyc : NoCycle E U) (hz : NoZeroHash E U genesis)
    (hall : AllTimed E U genesis start s) {prev last prev' last' : Hash} {read read' : List ℕ}
    {infos : List AccountInfo} (hbefore : Before E U genesis start prev ts)
    (hstop : last = genesis → ts = [])
    (h : loop (readAncestor s) (prev, last, read) infos = .ok (prev', last', read')) :
    ∃ seen rest, ts = seen ++ rest ∧ seen.length = infos.length ∧ read' = seen.reverse ++ read ∧
      (last' = genesis → rest = []) := by
  induction infos generalizing prev last read ts with
  | nil =>
    simp only [loop_nil, Except.ok.injEq, Prod.mk.injEq] at h
    obtain ⟨rfl, rfl, rfl⟩ := h
    exact ⟨[], ts, rfl, rfl, rfl, hstop⟩
  | cons info infos ih =>
    obtain ⟨⟨prev₁, last₁, read₁⟩, hread, hloop⟩ := loop_cons_eq_ok.mp h
    obtain ⟨t, rest₁, rfl, rfl, hbefore₁, hstop₁⟩ :=
      readAncestor_next hcol hcyc hz hall hbefore hread
    obtain ⟨seen, rest, rfl, hlen, rfl, hlast⟩ := ih hbefore₁ hstop₁ hloop
    exact ⟨t :: seen, rest, rfl, by rw [List.length_cons, hlen, List.length_cons], by simp, hlast⟩

/-- **The window holds the last eleven times** of the parent's lineage, whatever accounts are
given. -/
theorem mtpWindow_times (hcol : NoCollision E U) (hcyc : NoCycle E U)
    (hz : NoZeroHash E U lc.genesisHash) (hall : AllTimed E U lc.genesisHash start s)
    (he : enforced lc.network) {parent : BlockHeader} {ancestors : List AccountInfo}
    {window : List ℕ} (hparent : s.header? parent.blockHash = some parent)
    (hten : ancestors.length ≤ 10) (h : mtpWindow s lc parent ancestors = .ok window) :
    ∃ ts, Times E U lc.genesisHash start parent.blockHash ts ∧ window = (ts.take 11).reverse := by
  simp only [mtpWindow, if_pos he, bind_eq_ok, require_eq_ok, exists_const, pure_eq_ok,
    Prod.exists] at h
  obtain ⟨prev, last, read, hloop, hfull, rfl⟩ := h
  obtain ⟨-, ts, htimes, hbefore, hstop⟩ := hall _ _ hparent
  obtain ⟨seen, rest, rfl, hlen, rfl, hlast⟩ := readLoop_before hcol hcyc hz hall hbefore hstop hloop
  refine ⟨_, htimes, ?_⟩
  have hseen : (seen ++ rest).take 10 = seen := by
    rcases Nat.lt_or_ge seen.length 10 with hlt | hge
    · have hgen : last = lc.genesisHash := not_not.mp fun hne => hfull ⟨hlen ▸ hlt, hne⟩
      rw [hlast hgen, List.append_nil, List.take_of_length_le hlt.le]
    · exact List.take_left' (by omega)
  rw [List.take_succ_cons, hseen]
  simp

/-- Sliding the window makes room for the next time. -/
lemma slide_times (t : ℕ) : slide (ts.take 11).reverse t = ((t :: ts).take 11).reverse := by
  rw [slide, List.length_reverse, List.length_take, List.take_succ_cons, List.reverse_cons]
  split
  · rw [List.take_of_length_le (by omega), List.take_of_length_le (by omega)]
  · rw [List.drop_reverse, List.length_take, List.take_take]
    congr 3
    omega

/-! ### A batch -/

variable {now : ℤ} {r r' : Running}

/-- The header is later than the median time of its predecessors. -/
def LaterThanMedian (E : Env) (U : RawHeader → Prop) (genesis : Hash) (start : ℕ)
    (raw : RawHeader) : Prop :=
  ∃ ts, Times E U genesis start raw.prevBlockHash ts ∧ medianTimePast ts < raw.timestamp

/-- The batch stands on a block whose last times its window holds. -/
def Running.timed (E : Env) (U : RawHeader → Prop) (genesis : Hash) (start : ℕ) (r : Running) : Prop :=
  ∃ ts, Times E U genesis start r.prevHash ts ∧ r.window = (ts.take 11).reverse

/-- One header: later than the median, and the window moves on to it. -/
lemma acceptHeader_timed (hcyc : NoCycle E U) (he : enforced lc.network) {item : RawHeader × AccountInfo}
    (mem : U item.1) (hall : AllTimed E U genesis start s) (hr : Running.timed E U genesis start r)
    (h : acceptHeader E lc now (s, r) item = .ok (s', r')) :
    LaterThanMedian E U genesis start item.1 ∧ AllTimed E U genesis start s' ∧
      Running.timed E U genesis start r' := by
  obtain ⟨raw, info⟩ := item
  obtain ⟨hcheck, rfl, hheader, -⟩ := acceptHeader_ok h
  obtain ⟨hprev, -, hmedian, -⟩ := checkHeader_ok hcheck
  obtain ⟨ts, htimes, hwindow⟩ := hr
  rw [← hprev] at htimes
  have hlink : Times E U genesis start (blockHashOf E raw) (raw.timestamp :: ts) := .link mem htimes
  refine ⟨⟨ts, htimes, ?_⟩, fun b hdr hb => ?_, _, hlink, ?_⟩
  · rw [← medianTimestamp_reverse, ← hwindow]
    exact (hmedian he).1
  · rw [hheader] at hb
    rcases update_eq_some.mp hb with ⟨rfl, rfl⟩ | ⟨-, hold⟩
    · exact ⟨rfl, ts, hlink, .inr htimes, fun hgen => absurd hgen (htimes.depth.link_ne hcyc mem)⟩
    · exact hall b hdr hold
  · rw [← slide_times, ← hwindow]
    exact if_pos he

theorem acceptLoop_timed (hcyc : NoCycle E U) (he : enforced lc.network)
    {items : List (RawHeader × AccountInfo)} (mem : ∀ i ∈ items, U i.1)
    (hall : AllTimed E U genesis start s) (hr : Running.timed E U genesis start r)
    (h : loop (acceptHeader E lc now) (s, r) items = .ok (s', r')) :
    (∀ i ∈ items, LaterThanMedian E U genesis start i.1) ∧ AllTimed E U genesis start s' := by
  obtain ⟨hlater, hall', -⟩ := loop_each
    (I := fun x : State × Running =>
      AllTimed E U genesis start x.1 ∧ Running.timed E U genesis start x.2)
    (P := fun i : RawHeader × AccountInfo => LaterThanMedian E U genesis start i.1)
    (fun x i x' hi hx hm => acceptHeader_timed hcyc he (mem i hi) hx.1 hx.2 hm) ⟨hall, hr⟩ h
  exact ⟨hlater, hall'⟩

end Lineage

/-! ### Every run -/

section Runs

variable {E : Env} {U : RawHeader → Prop} {genesis : Hash} {start : ℕ} {s s' s₀ s₁ : State}
  {lc : BitcoinLightClient} {accounts : List AccountInfo} {data : List UInt8} {now : ℤ}

/-- A batch with the window it read. -/
lemma processExtendBlockchain_window (h : processExtendBlockchain E s accounts data now = .ok s') :
    ∃ (lc lc' : BitcoinLightClient) (parent : BlockHeader) (ancestors : List AccountInfo)
      (window : List ℕ) (items : List (RawHeader × AccountInfo)) (s₁ : State) (r : Running),
      s.lc? = some lc ∧ s.header? parent.blockHash = some parent ∧ ancestors.length ≤ 10 ∧
      mtpWindow s lc parent ancestors = .ok window ∧ items.map Prod.fst = rawHeaders data ∧
      loop (acceptHeader E lc now) (s, startRunning lc parent window) items = .ok (s₁, r) ∧
      s'.header? = s₁.header? ∧ s'.lc? = some lc' ∧ lc'.network = lc.network ∧
      lc'.genesisHash = lc.genesisHash := by
  simp only [processExtendBlockchain, bind_eq_ok, require_eq_ok, exists_const] at h
  obtain ⟨-, -, -, hten, hlen, h⟩ := h
  split at h
  · rename_i lcInfo submitter sys parentInfo rest
    simp only [bind_eq_ok, require_eq_ok, orElse_eq_ok, exists_const, Prod.exists] at h
    obtain ⟨-, _, -, lc, parent, hpar, window, hwindow, s₁, r, hloop, h⟩ := h
    obtain ⟨hlc, hparent, -⟩ := readParent_ok hpar
    have hitems : ((rawHeaders data).zip (rest.take (numHeaders data))).map Prod.fst =
        rawHeaders data := by
      rw [List.map_fst_zip]
      simp only [List.length_take, rawHeaders, List.length_map, List.length_range,
        List.length_cons] at hlen ⊢
      omega
    have hshort : ((rest.drop (2 * numHeaders data)).take (numAncestors data)).length ≤ 10 := by
      rw [List.length_take]
      omega
    split at h
    · simp only [makeCanonical, bind_eq_ok, require_eq_ok, exists_const, pure_eq_ok,
        Prod.exists] at h
      obtain ⟨-, s₂, n₂, hiloop, -, rfl⟩ := h
      exact ⟨lc, _, parent, _, window, _, s₁, r, hlc, hparent, hshort, hwindow, hitems, hloop,
        (index_run hiloop).1, rfl, rfl, rfl⟩
    · simp only [bind_eq_ok, require_eq_ok, exists_const, pure_eq_ok] at h
      obtain ⟨-, rfl⟩ := h
      exact ⟨lc, _, parent, _, window, _, s₁, r, hlc, hparent, hshort, hwindow, hitems, hloop,
        rfl, rfl, rfl, rfl⟩
  · simp [throw_ne_ok] at h

/-- The headers submitted in a run. -/
def Submitted (tr : List (Step State Program.Call)) (raw : RawHeader) : Prop :=
  ∃ st ∈ tr, raw ∈ headersOf st.call

/-- A call that submits no header leaves the client as it is and stores no header. -/
lemma step_quiet {c : Program.Call} (hc : Finality.OneInstance s c)
    (h : Program.step E s c = .ok s') :
    (∃ accounts data now, c = .extend accounts data now) ∨
      (headersOf c = [] ∧ s'.lc? = s.lc? ∧ ∀ b hdr, s'.header? b = some hdr → s.header? b = some hdr) := by
  have same {t : State} (hlc : t.lc? = s.lc?) (hheader : t.header? = s.header?) :
      t.lc? = s.lc? ∧ ∀ b hdr, t.header? b = some hdr → s.header? b = some hdr :=
    ⟨hlc, fun b hdr hb => hheader ▸ hb⟩
  cases c with
  | extend accounts data now => exact .inl ⟨accounts, data, now, rfl⟩
  | prune accounts data =>
    obtain ⟨b, -, -, -, -, -, -, -, -, -, hheader, -, hlc⟩ := processPruneObsoleteBlocks_ok h
    refine .inr ⟨rfl, hlc, fun c hdr hb => ?_⟩
    rw [hheader] at hb
    rcases eq_or_ne c b with rfl | hne
    · exact absurd hb (by simp)
    · rwa [Function.update_of_ne hne] at hb
  | verify accounts data buffer now =>
    obtain ⟨-, -, -, -, -, hlc, hheader, -⟩ := processVerifyTransaction_ok h
    exact .inr ⟨rfl, same hlc hheader⟩
  | restart accounts data now =>
    exact absurd hc (by simp [Finality.OneInstance, Program.Call.restarts])
  | fund a lamports =>
    obtain rfl := Except.ok.inj h
    exact .inr ⟨rfl, same (credit_lc? ..) (credit_header? ..)⟩
  | reap a =>
    obtain rfl := Except.ok.inj h
    exact .inr ⟨rfl, same (reap_lc? ..) (reap_header? ..)⟩

/-- What every step shows of its own headers holds of all headers of the run. -/
lemma of_submitted {I : State → Prop} {P : RawHeader → Prop} {tr : List (Step State Program.Call)}
    (hstart : I s₁) (hrun : Reaches (Program.step E) Finality.OneInstance s₁ tr s)
    (hstep : ∀ s c s', I s → (∀ raw ∈ headersOf c, Submitted tr raw) → Finality.OneInstance s c →
      Program.step E s c = .ok s' → (∀ raw ∈ headersOf c, P raw) ∧ I s') :
    ∀ raw, Submitted tr raw → P raw := by
  have hrun' : Reaches (Program.step E) (fun s c => Finality.OneInstance s c ∧
      ∀ raw ∈ headersOf c, Submitted tr raw) s₁ tr s :=
    hrun.strengthen fun st hst hg => ⟨hg, fun raw hraw => ⟨st, hst, hraw⟩⟩
  refine (hrun'.history (I := fun past s => (∀ raw, Submitted past raw → P raw) ∧ I s)
    ⟨fun raw ⟨st, hst, _⟩ => absurd hst List.not_mem_nil, hstart⟩
    fun past s c s' _ ⟨hpast, hinv⟩ hg h => ?_).1
  obtain ⟨hnow, hinv'⟩ := hstep s c s' hinv hg.2 hg.1 h
  refine ⟨?_, hinv'⟩
  rintro raw ⟨st, hst, hraw⟩
  rcases List.mem_append.mp hst with hst | hst
  · exact hpast raw ⟨st, hst, hraw⟩
  · obtain rfl := List.mem_singleton.mp hst
    exact hnow raw hraw

/-- The client stays on its network and at its start block, and its headers are timed. -/
structure Inv (E : Env) (U : RawHeader → Prop) (genesis : Hash) (start : ℕ) (s : State) : Prop where
  client : ∃ lc, s.lc? = some lc ∧ enforced lc.network ∧ lc.genesisHash = genesis
  timed : AllTimed E U genesis start s

lemma initialize_inv (hs : Untouched s₀) (he : enforced (parseData data).network)
    (h : processInitialize E s₀ accounts data now = .ok s₁) :
    Inv E U (parseData data).startBlockHash (parseData data).startTimestamp s₁ := by
  obtain ⟨⟨payer, hlc⟩, hheader, -⟩ := processInitialize_ok h
  refine ⟨⟨_, hlc, he, rfl⟩, fun b hdr hb => ?_⟩
  rw [hheader] at hb
  rcases update_eq_some.mp hb with ⟨rfl, rfl⟩ | ⟨-, hold⟩
  · exact ⟨rfl, [], .genesis, .inl ⟨rfl, rfl⟩, fun _ => rfl⟩
  · exact absurd hold (by simp [hs.2.1 b])

section

variable (hcol : NoCollision E U) (hcyc : NoCycle E U) (hz : NoZeroHash E U genesis)
include hcol hcyc hz

/-- **One batch**: every header in it is later than the median. -/
theorem extend_inv (hinv : Inv E U genesis start s) (mem : ∀ raw ∈ rawHeaders data, U raw)
    (h : processExtendBlockchain E s accounts data now = .ok s') :
    (∀ raw ∈ rawHeaders data, LaterThanMedian E U genesis start raw) ∧
      Inv E U genesis start s' := by
  obtain ⟨⟨lc, hlc, he, rfl⟩, hall⟩ := hinv
  obtain ⟨lc₀, lc', parent, ancestors, window, items, s₁, r, hlc₀, hparent, hten, hwindow, hitems,
    hloop, hheader, hlc', hnetwork, hgenesis⟩ := processExtendBlockchain_window h
  obtain rfl := Option.some_inj.mp (hlc.symm.trans hlc₀)
  have hr : Running.timed E U lc.genesisHash start (startRunning lc parent window) :=
    mtpWindow_times hcol hcyc hz hall he hparent hten hwindow
  obtain ⟨hlater, hall₁⟩ := acceptLoop_timed hcyc he
    (fun i hi => mem _ (hitems ▸ List.mem_map_of_mem hi)) hall hr hloop
  refine ⟨fun raw hraw => ?_, ⟨lc', hlc', hnetwork ▸ he, hgenesis⟩, fun b hdr hb => ?_⟩
  · rw [← hitems] at hraw
    obtain ⟨i, hi, rfl⟩ := List.mem_map.mp hraw
    exact hlater i hi
  · exact hall₁ b hdr (hheader ▸ hb)

theorem step_inv {c : Program.Call} (hinv : Inv E U genesis start s)
    (mem : ∀ raw ∈ headersOf c, U raw) (hc : Finality.OneInstance s c)
    (h : Program.step E s c = .ok s') :
    (∀ raw ∈ headersOf c, LaterThanMedian E U genesis start raw) ∧ Inv E U genesis start s' := by
  obtain ⟨accounts, data, now, rfl⟩ | ⟨hnone, hlc, hheader⟩ := step_quiet hc h
  · exact extend_inv hcol hcyc hz hinv mem h
  · exact ⟨fun raw hraw => absurd (hnone ▸ hraw) List.not_mem_nil, hlc ▸ hinv.client,
      fun b hdr hb => hinv.timed b hdr (hheader b hdr hb)⟩

end

/-- **Median time past**: on mainnet and testnet4 every header of every batch of a run is later
than the median of the last eleven times of its lineage, down to the start block, which counts
with the time that initialize was given for it. -/
theorem median_time_past {tr : List (Step State Program.Call)} (hs : Untouched s₀)
    (hinit : processInitialize E s₀ accounts data now = .ok s₁)
    (he : enforced (parseData data).network)
    (hrun : Reaches (Program.step E) Finality.OneInstance s₁ tr s)
    (hcol : NoCollision E (Submitted tr)) (hcyc : NoCycle E (Submitted tr))
    (hz : NoZeroHash E (Submitted tr) (parseData data).startBlockHash) :
    ∀ raw, Submitted tr raw → ∃ ts,
      Times E (Submitted tr) (parseData data).startBlockHash (parseData data).startTimestamp
        raw.prevBlockHash ts ∧
      (∀ us, Times E (Submitted tr) (parseData data).startBlockHash (parseData data).startTimestamp
        raw.prevBlockHash us → us = ts) ∧
      medianTimePast ts < raw.timestamp := by
  have hlater := of_submitted (initialize_inv hs he hinit) hrun fun s c s' hinv mem hc h =>
    step_inv hcol hcyc hz hinv mem hc h
  intro raw hraw
  obtain ⟨ts, htimes, hmedian⟩ := hlater raw hraw
  exact ⟨ts, htimes, fun us hus => hus.unique hcol hcyc htimes, hmedian⟩

end Runs

/-! ### A start block without a time -/

namespace Regtest

open Chain.Regtest Instances.Regtest Finality.Regtest

/-- A child of the block `a1` a hundred seconds earlier than it. -/
def early : RawHeader := header hashA1 900 0x207fffff 1
def hashEarly : Hash := toLe 32 0x439b4a587c87151b488ff7118ce4d2e2b0a51fed610d9e0cd102072ad6142c11
def digestEarly : Hash := toLe 32 0x659315db0b4e5d43b6215eb8f58d0503b07474fcbb4662e229c130bce0370dec

def earlyEnv : Env where
  sha256 data :=
    ((digests ++ [(early.toList, digestEarly), (digestEarly.toList, hashEarly)]).lookup data).getD (zeros 32)
  minimumBalance len := 6960 * (len + 128)
  mainnet := false

/-- Initialize on testnet4 at the block `a1`, with bits and an epoch start, and perhaps more. -/
def testnet4Data (more : List UInt8) : List UInt8 :=
  (toLe 8 101).toList ++ hashA1.toList ++ [2] ++ (toLe 4 0x207fffff).toList ++ (toLe 4 1000).toList ++ more

def earlyBatch : Program.Call :=
  .extend [info .lightClient, wallet, info (.other (zeros 32)), info (.block hashA1),
    info (.block hashEarly), info (.heightIndex 102), info (.heightIndex 101)] (1 :: early.toList) 0

def runTestnet4 (E : Env) (more : List UInt8) (calls : List Program.Call) : Option State :=
  match processInitialize E emptyState (startAccountsAt 101 hashA1) (testnet4Data more) 0 with
  | .ok s => exec (Program.step E) (fun _ c => !c.restarts) s calls
  | .error _ => none

lemma run_early : (runTestnet4 earlyEnv [] [earlyBatch]).isSome = true := by decide +kernel

/-- The time of `a1` itself. -/
def startTime : List UInt8 := (toLe 4 1000).toList

def laterBatch : Program.Call := ofChain (batch hashA1 101 [a2, a3])

lemma run_later : (runTestnet4 env startTime [laterBatch]).isSome = true := by decide +kernel

/-- A run on testnet4 from the block `a1`. -/
lemma reaches_testnet4 {E : Env} {more : List UInt8} {calls : List Program.Call}
    (h : (runTestnet4 E more calls).isSome = true) : ∃ s₁ tr s,
    processInitialize E emptyState (startAccountsAt 101 hashA1) (testnet4Data more) 0 = .ok s₁ ∧
      tr.map Step.call = calls ∧ Reaches (Program.step E) Finality.OneInstance s₁ tr s := by
  obtain ⟨s, hs⟩ := Option.isSome_iff_exists.mp h
  unfold runTestnet4 at hs
  split at hs
  · rename_i s₁ hinit
    have hg : ∀ (s : State) (c : Program.Call), (!c.restarts) = true → Finality.OneInstance s c :=
      fun s c h => by simpa [Finality.OneInstance] using h
    obtain ⟨tr, htr, run⟩ := reaches_of_exec hg hs
    exact ⟨s₁, tr, s, hinit, htr, run⟩
  · exact absurd hs (by simp)

end Regtest

lemma submitted_iff {tr : List (Step State Program.Call)} {raw : RawHeader} :
    Submitted tr raw ↔ raw ∈ (tr.map Step.call).flatMap headersOf := by
  simp [Submitted]

open Chain.Regtest Instances.Regtest Regtest in
/-- **A skipped start time counts as zero**: a child of the start block is accepted that is
earlier than the start block. -/
theorem earlier_child_accepted : ∃ s₁ tr s,
    processInitialize earlyEnv emptyState (startAccountsAt 101 hashA1) (testnet4Data []) 0 = .ok s₁ ∧
    enforced (parseData (testnet4Data [])).network ∧
    (parseData (testnet4Data [])).startBlockHash = blockHashOf earlyEnv a1 ∧
    Reaches (Program.step earlyEnv) Finality.OneInstance s₁ tr s ∧
    NoCollision earlyEnv (Submitted tr) ∧ NoCycle earlyEnv (Submitted tr) ∧
    NoZeroHash earlyEnv (Submitted tr) (blockHashOf earlyEnv a1) ∧ Submitted tr early ∧
    Times earlyEnv (Submitted tr) (blockHashOf earlyEnv a1) a1.timestamp early.prevBlockHash
      [a1.timestamp] ∧
    ¬ medianTimePast [a1.timestamp] < early.timestamp := by
  obtain ⟨s₁, tr, s, hinit, htr, run⟩ := reaches_testnet4 run_early
  have hsub : ∀ raw, Submitted tr raw ↔ raw = early := fun raw => by
    rw [submitted_iff, htr, show [earlyBatch].flatMap headersOf = [early] by decide +kernel,
      List.mem_singleton]
  have hstart : early.prevBlockHash = blockHashOf earlyEnv a1 := by decide +kernel
  refine ⟨s₁, tr, s, hinit, by decide +kernel, by decide +kernel, run, ?_, ?_, ?_,
    (hsub early).mpr rfl, hstart ▸ .genesis, by decide +kernel⟩
  · intro a b ha hb _
    rw [(hsub a).mp ha, (hsub b).mp hb]
  · refine noCycle_of [hashA1, hashEarly] (fun raw h => List.mem_singleton.mpr ((hsub raw).mp h)) ?_
    decide +kernel
  · refine ⟨by decide +kernel, fun raw h => ?_⟩
    rw [(hsub raw).mp h]
    decide +kernel

open Chain.Regtest Instances.Regtest Regtest in
/-- Two blocks on the block `a1` with its time. -/
theorem median_time_past_testnet4 : ∃ tr : List (Step State Program.Call),
    (∀ raw ∈ [a2, a3], Submitted tr raw) ∧ ∀ raw, Submitted tr raw → ∃ ts,
      Times env (Submitted tr) hashA1 1000 raw.prevBlockHash ts ∧
      (∀ us, Times env (Submitted tr) hashA1 1000 raw.prevBlockHash us → us = ts) ∧
      medianTimePast ts < raw.timestamp := by
  obtain ⟨s₁, tr, s, hinit, htr, run⟩ := reaches_testnet4 run_later
  have hsub : ∀ raw, Submitted tr raw ↔ raw ∈ [a2, a3] := fun raw => by
    rw [submitted_iff, htr, show [laterBatch].flatMap headersOf = [a2, a3] by decide +kernel]
  have hmem : ∀ raw, Submitted tr raw → raw ∈ headers := fun raw h => by
    have := (hsub raw).mp h
    simp only [List.mem_cons, List.not_mem_nil, or_false] at this
    rcases this with rfl | rfl <;> simp [headers]
  have hhash : (parseData (testnet4Data startTime)).startBlockHash = hashA1 := by decide +kernel
  have htime : (parseData (testnet4Data startTime)).startTimestamp = 1000 := by decide +kernel
  have hz : NoZeroHash env (Submitted tr) (parseData (testnet4Data startTime)).startBlockHash := by
    refine ⟨by decide +kernel, fun raw h => ?_⟩
    have hall : ∀ raw ∈ [a2, a3], blockHashOf env raw ≠ zeros 32 := by decide +kernel
    exact hall raw ((hsub raw).mp h)
  have h := median_time_past untouched_emptyState hinit (by decide +kernel) run
    (noCollision_of hmem noCollision) (noCycle_of _ hmem noCycle) hz
  rw [hhash, htime] at h
  exact ⟨tr, fun raw hraw => (hsub raw).mpr hraw, h⟩

end Utxopia.LightClient.MedianTime
