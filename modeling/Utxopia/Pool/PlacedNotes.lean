import Utxopia.Pool.Mergeable

/-!
No placed note is lost.

Leaves are only ever appended, to the active tree, and the journal says where. The tree at every
index is the full tree over the leaves placed there. A rotation opens the tree at the next index
and leaves the others alone, so a placed leaf keeps a path to a root that the program accepts, in
the active tree or a frozen one. The index is 32 bits wide: after the last one a rotation opens
the first tree again.
-/

namespace Utxopia.Pool

open Utxopia.ByteString Utxopia.Check Utxopia.Run Utxopia.Runtime

variable {E : Env} {s s' : State} {c c' : Call} {l : Label} {r r' : Records}

/-! ### Placements -/

/-- The tree, the index and the leaf of a placement. -/
abbrev Placement := (Addr × ℕ) × ℕ × Hash

def Event.placement : Event → Option Placement
  | .inserted pool tree index commitment => some ((pool, tree), index, commitment)
  | _ => none

def Records.placements (r : Records) : List Placement := r.journal.filterMap Event.placement

/-- The leaves placed in a tree, in order. -/
def leavesAt (k : Addr × ℕ) (ps : List Placement) : List Hash :=
  (ps.filter fun q => q.1 = k).map fun q => q.2.2

def Records.leaves (r : Records) (k : Addr × ℕ) : List Hash := leavesAt k r.placements

/-- Leaves placed one after the other. -/
def placedFrom (k : Addr × ℕ) : ℕ → List Hash → List Placement
  | _, [] => []
  | first, h :: hs => (k, first, h) :: placedFrom k (first + 1) hs

@[simp] lemma leavesAt_append (k : Addr × ℕ) (ps qs : List Placement) :
    leavesAt k (ps ++ qs) = leavesAt k ps ++ leavesAt k qs := by
  simp [leavesAt]

lemma leavesAt_placedFrom (k k' : Addr × ℕ) (first : ℕ) (hs : List Hash) :
    leavesAt k' (placedFrom k first hs) = if k = k' then hs else [] := by
  induction hs generalizing first with
  | nil => simp [placedFrom, leavesAt]
  | cons h hs ih =>
    have hrest := ih (first + 1)
    rw [leavesAt] at hrest ⊢
    split_ifs at hrest ⊢ with hk
    · subst hk
      simp [placedFrom, hrest]
    · simp only [placedFrom, List.filter_cons, hk, decide_false, Bool.false_eq_true, if_false]
      exact hrest

lemma mem_placedFrom {k k' : Addr × ℕ} {first i : ℕ} {h : Hash} {hs : List Hash}
    (hmem : (k', i, h) ∈ placedFrom k first hs) : k' = k ∧ ∃ j, i = first + j ∧ hs[j]? = some h := by
  induction hs generalizing first with
  | nil => simp [placedFrom] at hmem
  | cons x hs ih =>
    rw [placedFrom, List.mem_cons] at hmem
    rcases hmem with heq | hmem
    · obtain ⟨rfl, rfl, rfl⟩ : k' = k ∧ i = first ∧ h = x := by simpa using heq
      exact ⟨rfl, 0, rfl, rfl⟩
    · obtain ⟨hk, j, hi, hj⟩ := ih hmem
      exact ⟨hk, j + 1, by omega, by simpa using hj⟩

lemma inserted_placements (pool : Addr) (tree first : ℕ) (hs : List Hash) :
    (insertedEvents pool tree first hs).filterMap Event.placement =
      placedFrom (pool, tree) first hs := by
  unfold insertedEvents
  induction hs generalizing first with
  | nil => rfl
  | cons h hs ih =>
    have hrest := ih (first + 1)
    simp only [Nat.add_assoc, Nat.add_comm 1] at hrest
    rw [List.mapIdx_cons, List.filterMap_cons]
    simp [Event.placement, placedFrom, hrest]

lemma placements_log (r : Records) (es : List Event) :
    (r.log es).placements = r.placements ++ es.filterMap Event.placement := List.filterMap_append

/-- Events of other kinds place nothing. -/
lemma placements_log_of_none {es : List Event} (hr : r'.placements = r.placements)
    (h : ∀ e ∈ es, e.placement = none) : (r'.log es).placements = r.placements := by
  rw [placements_log, List.filterMap_eq_nil_iff.mpr h, List.append_nil, hr]

lemma placements_place (r : Records) (pool : Addr) (index : ℕ) (t t' : CommitmentTree)
    (hs : List Hash) : (r.place pool index t t' hs).placements =
      r.placements ++ placedFrom (pool, index) t.nextIndex hs := by
  rw [← inserted_placements]
  exact placements_log ..

lemma placements_burn (r : Records) (m : Addr) (p : PoolState) (tree : ℕ) (nfs : List Hash)
    (accounting : NullifierAccounting) :
    (r.burn m p tree nfs accounting).placements = r.placements := by
  change ((r.updateNullifiers _).log _).placements = _
  refine placements_log_of_none rfl fun e he => ?_
  obtain ⟨nf, -, rfl⟩ := List.mem_map.mp he
  rfl

lemma placements_credit (r : Records) (pool : Addr) (o : Outpoint) (amount : ℕ)
    (leaf : Option Hash) : (r.credit pool o amount leaf).placements = r.placements :=
  placements_log_of_none rfl fun e he => by
    rw [List.mem_singleton.mp he]
    rfl

/-! ### One step -/

/-- What a step can do to the trees. -/
inductive TreeStep (E : Env) (r r' : Records) : Prop where
  | quiet (trees : r'.trees = r.trees) (placements : r'.placements = r.placements)
      (places : r'.places = r.places)
  | placed {m : Addr} {p : PoolState} {t t' : CommitmentTree} {hs : List Hash}
      (pool : r.pools m = some p) (tree : r.trees (.poolState m, p.activeTreeIndex) = some t)
      (appended : t.Appended E hs t')
      (trees : r'.trees = Function.update r.trees (.poolState m, p.activeTreeIndex) (some t'))
      (placements : r'.placements =
        r.placements ++ placedFrom (.poolState m, p.activeTreeIndex) t.nextIndex hs)
      (places : r'.places = r.places)
  | opened {m : Addr} {i : ℕ} (next : ∀ q, r.places m = some q → i = q.2 + 1)
      (first : r.places m = none → i = 0)
      (trees : r'.trees = Function.update r.trees (.poolState m, i) (some (.init i)))
      (placements : r'.placements = r.placements)
      (places : r'.places = Function.update r.places m (some (m, i)))

lemma TreeStep.putTotals {m : Addr} {p p₀ : PoolState} {tc : TokenConfig} {now : ℤ}
    (h : TreeStep E r r') (hp : r'.pools m = some p₀) (hplace : p.place = p₀.place) :
    TreeStep E r (r'.putTotals m p tc now) := by
  have hplaces : (r'.putTotals m p tc now).places = r'.places := by
    unfold Records.putTotals
    split_ifs
    · exact places_putPool hp rfl hplace
    · rfl
  have htrees : (r'.putTotals m p tc now).trees = r'.trees :=
    putTotals_view Records.trees (fun _ _ _ => rfl) ..
  have hjournal : (r'.putTotals m p tc now).placements = r'.placements :=
    putTotals_view Records.placements (fun _ _ _ => rfl) ..
  cases h with
  | quiet trees placements places =>
    exact .quiet (htrees.trans trees) (hjournal.trans placements) (hplaces.trans places)
  | placed pool tree appended trees placements places =>
    exact .placed pool tree appended (htrees.trans trees) (hjournal.trans placements)
      (hplaces.trans places)
  | opened next first trees placements places =>
    exact .opened next first (htrees.trans trees) (hjournal.trans placements) (hplaces.trans places)

/-- Only a rotation opens a tree beside the first one of a pool. -/
lemma Effect.treeStep (h : Effect E s l r')
    (hrotate : ¬ ∃ c c', l = .call c ∧ c.decode E = some (.RotateTree, c')) :
    TreeStep E s.records r' := by
  cases h with
  | rotated decoded => exact absurd ⟨_, _, rfl, decoded⟩ hrotate
  | reconfigured h =>
    obtain ⟨m, p, p', hp, hsame, rfl⟩ := h
    exact .quiet rfl rfl (places_putPool hp rfl (Prod.ext hsame.mint hsame.activeTreeIndex))
  | @initialized c m p fresh new =>
    have hnone : s.records.places m = none := by rw [Records.places, fresh, Option.map_none]
    refine .opened (fun q hq => absurd (hnone.symm.trans hq) (by simp)) (fun _ => rfl) rfl rfl ?_
    funext m'
    unfold Records.places
    change (Function.update s.records.pools m (some p) m').map _ = _
    rw [Function.update_apply, Function.update_apply]
    split_ifs
    · rw [Option.map_some, PoolState.place, new.mint, new.activeTreeIndex]
    · rfl
  | shielded keys h =>
    exact .putTotals (.placed h.pool h.tree h.appended rfl (placements_place ..) rfl) h.pool rfl
  | @transacted c c' plan m p t r' decoded planned sound burnable outputs =>
    have hp := sound.at_tree.pool
    have hburn := placements_burn s.records m p plan.sourceTreeIndex plan.pre.nullifiers
      plan.accounting
    cases outputs with
    | inline queued appended =>
      rw [sound.active]
      exact .placed hp sound.at_tree.tree appended rfl
        ((placements_place ..).trans (congrArg (· ++ _) hburn)) (places_burn hp)
    | queue =>
      refine .quiet rfl (placements_log_of_none hburn fun e he => ?_) (places_burn hp)
      obtain ⟨hash, -, rfl⟩ := List.mem_map.mp he
      rfl
  | @unshielded c c' plan m p tc t t' T amount fee now decoded planned h =>
    have hp := h.sound.at_tree.pool
    exact .putTotals (.placed hp h.sound.at_tree.tree h.appended rfl
      ((placements_place ..).trans (congrArg (· ++ _) (placements_burn ..))) (places_burn hp))
        (Function.update_self ..) rfl
  | @redeemed c c' plan m p tc t t' now decoded planned h =>
    have hp := h.sound.at_tree.pool
    have hburn : (s.records.burn m p plan.sourceTreeIndex plan.pre.nullifiers .ApplyNow).places =
        s.records.places := places_burn hp
    refine .placed hp h.sound.at_tree.tree h.appended rfl
      ((placements_place ..).trans (congrArg (· ++ _) (placements_burn ..))) ?_
    rw [← hburn]
    exact places_putPool (Function.update_self ..) rfl rfl
  | marked decoded h => exact .quiet rfl rfl (places_putPool h.pool rfl rfl)
  | cancelled decoded h =>
    exact .placed h.pool h.tree h.appended rfl (placements_place ..) (places_putPool h.pool rfl rfl)
  | @completed c c' m p req tc us tx txid leaf T burn revenue now decoded h =>
    have hquiet : ∀ change, TreeStep E s.records
        (s.records.complete m p req tc us txid change leaf T burn revenue now) := fun change => by
      cases change with
      | none => exact .quiet rfl rfl (places_putPool h.pool rfl rfl)
      | some o => exact .quiet rfl (placements_credit ..) (places_putPool h.pool rfl rfl)
    exact hquiet _
  | deposited decoded kind input credited h =>
    exact .placed h.pool h.tree h.appended rfl ((placements_credit ..).trans (placements_place ..))
      (places_putPool h.pool rfl rfl)
  | @merged c c' pool tree m p t t' leaves decoded at_tree nodup queued placed =>
    refine .placed at_tree.pool at_tree.tree (.inr placed) rfl ?_ (places_putPool at_tree.pool rfl ?_)
    · rw [← placements_place]
      refine placements_log_of_none rfl fun e he => ?_
      obtain ⟨i, hi, rfl⟩ := List.mem_mapIdx.mp he
      rfl
    · split_ifs <;> rfl
  | _ => exact .quiet rfl rfl rfl

/-! ### Rotations -/

/-- A rotation finds a next index to open. -/
def IndexLeft (E : Env) (s : State) (l : Label) : Prop :=
  ∀ c c' pool m p, l = .call c → c.decode E = some (.RotateTree, c') → c'.account 0 = .ok pool →
    pool.key = .poolState m → s.records.pools m = some p → p.activeTreeIndex + 1 < 2 ^ 32

theorem step_treeStep (h : step E s l = .ok s') (hok : IndexLeft E s l) :
    TreeStep E s.records s'.records := by
  by_cases hrotate : ∃ c c', l = .call c ∧ c.decode E = some (.RotateTree, c')
  · obtain ⟨c, c', rfl, hd⟩ := hrotate
    have hrun := h
    simp only [step, bind_eq_ok, exists_unit, require_eq_ok, processInstruction, hd] at hrun
    obtain ⟨pool, p, hpool, hkey, hp, hrec⟩ := rotate_ok hrun.2
    have hleft := hok c c' pool _ p rfl hd hpool hkey hp
    have hnext : p.nextTreeIndex = p.activeTreeIndex + 1 := Nat.mod_eq_of_lt hleft
    have hplace : s.records.places p.zkbtcMint = some p.place := by
      rw [Records.places, hp, Option.map_some]
    rw [hrec]
    refine .opened (i := p.nextTreeIndex) (fun q hq => ?_)
      (fun hnone => absurd (hnone.symm.trans hplace) (by simp)) rfl rfl ?_
    · rw [← Option.some_inj.mp (hplace.symm.trans hq)]
      exact hnext
    · funext m'
      unfold Records.places
      change (Function.update s.records.pools p.zkbtcMint _ m').map _ = _
      rw [Function.update_apply, Function.update_apply]
      split_ifs <;> rfl
  · exact (step_effect h).treeStep hrotate

/-! ### Every tree is the full tree over its leaves -/

/-- The trees of the pools, and what was placed in them. -/
structure NotesKept (E : Env) (r : Records) : Prop where
  mint : ∀ m q, r.places m = some q → q.1 = m
  opened : ∀ m q i, r.places m = some q → i ≤ q.2 → ∃ t, r.trees (.poolState m, i) = some t
  unopened : ∀ m i, (∀ q, r.places m = some q → q.2 < i) → r.leaves (.poolState m, i) = []
  holds : ∀ m i t, r.trees (.poolState m, i) = some t →
    t.Holds E (r.leaves (.poolState m, i)) ∧ t.treeIndex = i
  placed : ∀ k i h, (k, i, h) ∈ r.placements → (r.leaves k)[i]? = some h

lemma NotesKept.congr (h : NotesKept E r) (htrees : r'.trees = r.trees)
    (hplacements : r'.placements = r.placements) (hplaces : r'.places = r.places) :
    NotesKept E r' := by
  have hleaves : r'.leaves = r.leaves := by
    funext k
    rw [Records.leaves, hplacements]
    rfl
  constructor
  · rw [hplaces]
    exact h.mint
  · rw [hplaces, htrees]
    exact h.opened
  · rw [hplaces, hleaves]
    exact h.unopened
  · rw [htrees, hleaves]
    exact h.holds
  · rw [hplacements, hleaves]
    exact h.placed

lemma places_eq_place {m : Addr} {p : PoolState} (hp : r.pools m = some p) :
    r.places m = some p.place := by
  rw [Records.places, hp, Option.map_some]

/-- A batch was placed in the active tree. -/
lemma NotesKept.place (hE : PoseidonTotal E) (hz : ZeroLadder E) {m : Addr} {p : PoolState}
    {t t' : CommitmentTree} {hs : List Hash} (h : NotesKept E r) (hp : r.pools m = some p)
    (ht : r.trees (.poolState m, p.activeTreeIndex) = some t) (happ : t.Appended E hs t')
    (htrees : r'.trees = Function.update r.trees (.poolState m, p.activeTreeIndex) (some t'))
    (hplacements : r'.placements =
      r.placements ++ placedFrom (.poolState m, p.activeTreeIndex) t.nextIndex hs)
    (hplaces : r'.places = r.places) : NotesKept E r' := by
  have hleaves : ∀ k, r'.leaves k =
      r.leaves k ++ if (Addr.poolState m, p.activeTreeIndex) = k then hs else [] := fun k => by
    rw [Records.leaves, hplacements, leavesAt_append, leavesAt_placedFrom]
    rfl
  have hplace := places_eq_place hp
  obtain ⟨hholds, hindex⟩ := h.holds m _ t ht
  refine ⟨by rw [hplaces]; exact h.mint, fun m' q i hq hi => ?_, fun m' i hnot => ?_,
    fun m' i t₁ ht₁ => ?_, fun k i x hx => ?_⟩
  · rw [hplaces] at hq
    rw [htrees, Function.update_apply]
    split_ifs
    · exact ⟨t', rfl⟩
    · exact h.opened m' q i hq hi
  · rw [hplaces] at hnot
    rw [hleaves, h.unopened m' i hnot, if_neg]
    · rfl
    · -- the active tree is open
      rintro heq
      obtain ⟨hm, rfl⟩ := Prod.mk.inj heq
      obtain rfl := Addr.poolState.inj hm
      exact absurd (hnot _ hplace) (lt_irrefl _)
  · rw [htrees, Function.update_apply] at ht₁
    rw [hleaves]
    split_ifs at ht₁ with heq
    · obtain rfl := Option.some_inj.mp ht₁
      obtain ⟨hm, rfl⟩ := Prod.mk.inj heq
      obtain rfl := Addr.poolState.inj hm
      obtain ⟨hholds', hindex'⟩ := appended_holds hE hz hholds happ
      rw [if_pos rfl]
      exact ⟨hholds', hindex'.trans hindex⟩
    · rw [if_neg (Ne.symm heq), List.append_nil]
      exact h.holds m' i t₁ ht₁
  · rw [hplacements, List.mem_append] at hx
    rw [hleaves]
    rcases hx with hx | hx
    · have hold := h.placed k i x hx
      rwa [List.getElem?_append_left (List.getElem?_eq_some_iff.mp hold).1]
    · obtain ⟨rfl, j, rfl, hj⟩ := mem_placedFrom hx
      rw [if_pos rfl, hholds.grown.next, List.getElem?_append_right (Nat.le_add_right _ _),
        Nat.add_sub_cancel_left]
      exact hj

/-- The next tree was opened. -/
lemma NotesKept.open (hz : ZeroLadder E) {m : Addr} {i : ℕ} (h : NotesKept E r)
    (hnext : ∀ q, r.places m = some q → i = q.2 + 1) (hfirst : r.places m = none → i = 0)
    (htrees : r'.trees = Function.update r.trees (.poolState m, i) (some (.init i)))
    (hplacements : r'.placements = r.placements)
    (hplaces : r'.places = Function.update r.places m (some (m, i))) : NotesKept E r' := by
  have hleaves : r'.leaves = r.leaves := by
    funext k
    rw [Records.leaves, hplacements]
    rfl
  refine ⟨fun m' q hq => ?_, fun m' q j hq hj => ?_, fun m' j hnot => ?_, fun m' j t ht => ?_,
    by rw [hplacements, hleaves]; exact h.placed⟩
  · rw [hplaces, Function.update_apply] at hq
    split_ifs at hq with heq
    · rw [heq, ← Option.some_inj.mp hq]
    · exact h.mint m' q hq
  · rw [htrees, Function.update_apply]
    split_ifs with hnew
    · exact ⟨_, rfl⟩
    rw [hplaces, Function.update_apply] at hq
    split_ifs at hq with heq
    · obtain rfl := Option.some_inj.mp hq
      have hji : j < i := lt_of_le_of_ne hj fun hij => hnew (by rw [hij, heq])
      cases hplace : r.places m with
      | none => exact absurd (hfirst hplace) (by omega)
      | some q =>
        have hi := hnext q hplace
        rw [heq]
        exact h.opened m q j hplace (by omega)
    · exact h.opened m' q j hq hj
  · rw [hleaves]
    refine h.unopened m' j fun q hq => ?_
    by_cases heq : m' = m
    · subst heq
      have hlt := hnot (m', i) (by rw [hplaces, Function.update_self])
      have hi := hnext q hq
      dsimp only at hlt
      omega
    · exact hnot q (by rw [hplaces, Function.update_of_ne heq, hq])
  · rw [htrees, Function.update_apply] at ht
    rw [hleaves]
    split_ifs at ht with heq
    · obtain rfl := Option.some_inj.mp ht
      obtain ⟨hm, rfl⟩ := Prod.mk.inj heq
      obtain rfl := Addr.poolState.inj hm
      rw [h.unopened m' j fun q hq => by rw [hnext q hq]; exact Nat.lt_succ_self _]
      exact ⟨holds_init hz j, rfl⟩
    · exact h.holds m' j t ht

theorem TreeStep.notesKept (hE : PoseidonTotal E) (hz : ZeroLadder E) (h : TreeStep E r r')
    (hI : NotesKept E r) : NotesKept E r' := by
  cases h with
  | quiet trees placements places => exact hI.congr trees placements places
  | placed pool tree appended trees placements places =>
    exact hI.place hE hz pool tree appended trees placements places
  | opened next first trees placements places =>
    exact hI.open hz next first trees placements places

/-- A step leaves the trees behind the active one alone, and goes back to none of them. -/
theorem TreeStep.frozen (h : TreeStep E r r') {m : Addr} {q : Addr × ℕ} {i : ℕ}
    (hq : r.places m = some q) (hi : i < q.2) :
    r'.trees (.poolState m, i) = r.trees (.poolState m, i) ∧
      ∃ q', r'.places m = some q' ∧ q.2 ≤ q'.2 := by
  cases h with
  | quiet trees placements places => exact ⟨by rw [trees], q, by rw [places, hq], le_rfl⟩
  | @placed m₀ p t t' hs pool tree appended trees placements places =>
    refine ⟨?_, q, by rw [places, hq], le_rfl⟩
    rw [trees, Function.update_of_ne]
    intro heq
    obtain ⟨hm, rfl⟩ := Prod.mk.inj heq
    obtain rfl := Addr.poolState.inj hm
    rw [← Option.some_inj.mp ((places_eq_place pool).symm.trans hq)] at hi
    exact absurd hi (lt_irrefl _)
  | @opened m₀ j next first trees placements places =>
    rw [trees, places]
    rcases eq_or_ne m m₀ with rfl | hne
    · have hj := next q hq
      refine ⟨Function.update_of_ne (fun heq => ?_) .., (m, j), Function.update_self .., by
        dsimp only
        omega⟩
      have := (Prod.mk.inj heq).2
      omega
    · exact ⟨Function.update_of_ne (fun heq => hne (Addr.poolState.inj (Prod.mk.inj heq).1)) ..,
        q, by rw [Function.update_of_ne hne, hq], le_rfl⟩

/-- What was placed stays placed. -/
lemma TreeStep.placements_grow (h : TreeStep E r r') : r.placements <+: r'.placements := by
  cases h with
  | quiet trees placements => rw [placements]
  | placed pool tree appended trees placements =>
    rw [placements]
    exact List.prefix_append ..
  | opened next first trees placements => rw [placements]

/-! ### Runs -/

/-- The validation of a root for a tree of a pool accepts it: the active tree has it, or the check
of a frozen tree says so, whatever accounts are around. -/
def AcceptsRoot (E : Env) (s : State) (m : Addr) (i : ℕ) (root : Hash) : Prop :=
  ∃ p, s.records.pools m = some p ∧
    ((i = p.activeTreeIndex ∧ ∃ t, s.records.trees (.poolState m, i) = some t ∧
        t.isValidRoot root = true) ∨
      (i < p.activeTreeIndex ∧ ∀ (c : Call) (tree pool : AccountInfo), pool.key = .poolState m →
        tree.key = .commitmentTree (.poolState m) i →
          validateFrozenTree E s c tree pool p.activeTreeIndex root = .ok true))

lemma NotesKept.accepts (hE : PoseidonTotal E) (hne : PoseidonNonzero E) {m : Addr} {i j : ℕ}
    {h : Hash} (hI : NotesKept E s.records)
    (hplaced : ((.poolState m, i), j, h) ∈ s.records.placements) :
    ∃ siblings root, siblings.length = treeDepth ∧ computeMerkleRoot E h j siblings = .ok root ∧
      AcceptsRoot E s m i root := by
  have hleaf := hI.placed _ _ _ hplaced
  -- a tree with a leaf is open
  have hopen : ∃ q, s.records.places m = some q ∧ i ≤ q.2 := by
    by_contra hnot
    push Not at hnot
    rw [hI.unopened m i hnot] at hleaf
    exact absurd hleaf (by simp)
  obtain ⟨q, hq, hle⟩ := hopen
  obtain ⟨p, hp, rfl⟩ := Option.map_eq_some_iff.mp hq
  obtain ⟨t, ht⟩ := hI.opened m _ i hq hle
  obtain ⟨hholds, hindex⟩ := hI.holds m i t ht
  obtain ⟨siblings, hlen, hpath⟩ := exists_path hE hleaf hholds.grown.room
  have hvalid := hholds.isValidRoot (fullRoot_ne_zero hE hne _)
  refine ⟨siblings, _, hlen, hpath, p, hp, ?_⟩
  rcases hle.eq_or_lt with heq | hlt
  · exact .inl ⟨heq, t, ht, hvalid⟩
  · refine .inr ⟨hlt, fun c tree pool hpool htree => ?_⟩
    have hmint : p.zkbtcMint = m := hI.mint m _ hq
    have htreeRec := Account.rec?_eq_some.mp
      (show (s.trees.get (.poolState m, i)).rec? = some t from ht)
    have hpoolRec := Account.rec?_eq_some.mp (show (s.pools.get m).rec? = some p from hp)
    simp only [validateFrozenTree, readTree, validatePoolStatePda, readPool, bind_eq_ok,
      validateProgramOwner_ok, orElse_eq_ok, require_eq_ok, exists_unit, pure_eq_ok, htree, hpool]
    exact ⟨htreeRec.1, t, htreeRec.2, hindex ▸ hlt, ⟨hpoolRec.1, p, hpoolRec.2, by rw [hmint]⟩,
      by rw [hindex], hvalid⟩

theorem notesKept_of_reaches (hE : PoseidonTotal E) (hz : ZeroLadder E) {tr : List (Step State Label)}
    (run : Reaches (step E) (IndexLeft E) .genesis tr s) : NotesKept E s.records := by
  refine run.inv (I := fun s => NotesKept E s.records) ⟨?_, ?_, ?_, ?_, ?_⟩ fun s l s' hI hok hstep =>
    (step_treeStep hstep hok).notesKept hE hz hI
  · simp [Records.places]
  · simp [Records.places]
  · intro m i _
    rfl
  · simp
  · intro k i h hmem
    exact absurd hmem List.not_mem_nil

/-- **No placed note is lost** while rotations find a next index: the active tree is the full tree
over what was placed in it, the trees behind it never change, what was placed stays placed, and
every placed leaf has a path to a root that is accepted for its tree. -/
theorem placed_notes_kept (hE : PoseidonTotal E) (hne : PoseidonNonzero E) (hz : ZeroLadder E)
    {tr : List (Step State Label)} (run : Reaches (step E) (IndexLeft E) .genesis tr s) :
    (∀ m p, s.records.pools m = some p → ∃ t,
      s.records.trees (.poolState m, p.activeTreeIndex) = some t ∧
        t.nextIndex = (s.records.leaves (.poolState m, p.activeTreeIndex)).length ∧
        t.currentRoot = fullRoot E (s.records.leaves (.poolState m, p.activeTreeIndex))) ∧
    (∀ st ∈ tr, ∀ m p i, st.pre.records.pools m = some p → i < p.activeTreeIndex →
      st.post.records.trees (.poolState m, i) = st.pre.records.trees (.poolState m, i) ∧
        ∃ p', st.post.records.pools m = some p' ∧ p.activeTreeIndex ≤ p'.activeTreeIndex) ∧
    (∀ st ∈ tr, st.pre.records.placements <+: st.post.records.placements) ∧
    ∀ m i j h, ((.poolState m, i), j, h) ∈ s.records.placements →
      ∃ siblings root, siblings.length = treeDepth ∧ computeMerkleRoot E h j siblings = .ok root ∧
        AcceptsRoot E s m i root := by
  have hI := notesKept_of_reaches hE hz run
  have hsteps : ∀ st ∈ tr, TreeStep E st.pre.records st.post.records := by
    refine run.history (I := fun tr _ => ∀ st ∈ tr, TreeStep E st.pre.records st.post.records)
      (by simp) fun tr s l s' _ ih hok hstep st hst => ?_
    rcases List.mem_append.mp hst with hst | hst
    · exact ih st hst
    · rw [List.mem_singleton.mp hst]
      exact step_treeStep hstep hok
  refine ⟨fun m p hp => ?_, fun st hst m p i hp hi => ?_, fun st hst =>
    (hsteps st hst).placements_grow, fun m i j h hplaced => hI.accepts hE hne hplaced⟩
  · obtain ⟨t, ht⟩ := hI.opened m _ _ (places_eq_place hp) le_rfl
    obtain ⟨hholds, -⟩ := hI.holds m _ t ht
    exact ⟨t, ht, hholds.grown.next, hholds.root⟩
  · obtain ⟨hsame, q', hq', hle⟩ := (hsteps st hst).frozen (places_eq_place hp) hi
    obtain ⟨p', hp', rfl⟩ := Option.map_eq_some_iff.mp hq'
    exact ⟨hsame, p', hp', hle⟩

/-! ### Going round -/

namespace Regtest

/-- A hash with `ZERO_HASHES` as its ladder, and never zero. -/
def ladderHash (xs : List Hash) : Option Hash :=
  match (List.range treeDepth).find? fun l => xs = [zeroHash l, zeroHash l] with
  | some l => some (zeroHash (l + 1))
  | none => some (ofList 32 (1 :: toBe 31 (mix 9 (xs.flatMap Vector.toList))))

def ladderEnv : Env := withHash ladderHash

lemma ladderHash_isSome (xs : List Hash) : (ladderHash xs).isSome = true := by
  unfold ladderHash
  split <;> rfl

lemma zeroHash_ladder : ∀ l < treeDepth, reduceToFieldExact (zeroHash l) = zeroHash l ∧
    ladderHash [zeroHash l, zeroHash l] = some (zeroHash (l + 1)) ∧ zeroHash (l + 1) ≠ zeros 32 := by
  decide +kernel

lemma zeroLadder : ZeroLadder ladderEnv := by
  intro l hl
  obtain ⟨hreduced, hladder, -⟩ := zeroHash_ladder l hl
  rw [poseidon2Hash, hreduced]
  exact orElse_eq_ok.mpr hladder

lemma poseidonNonzero : PoseidonNonzero ladderEnv := by
  intro a b h
  have hzero : ladderHash [reduceToFieldExact a, reduceToFieldExact b] = some (zeros 32) :=
    orElse_eq_ok.mp h
  unfold ladderHash at hzero
  split at hzero
  · rename_i l hl
    have hlt : l < treeDepth := List.mem_range.mp (List.mem_of_find?_eq_some hl)
    exact (zeroHash_ladder l hlt).2.2 (Option.some_inj.mp hzero)
  · have hfirst := congrArg (fun v : Hash => v.toList.head?) (Option.some_inj.mp hzero)
    simp [ofList, zeros] at hfirst

lemma poseidonTotal_ladder : PoseidonTotal ladderEnv := fun _ _ => ladderHash_isSome _

/-- A token account of the user with more than enough to fill every tree. -/
def fillPurse : Label := .tokenChange purse (some ⟨.Token2022, zkbtc, user, none, 2 ^ 50⟩)

/-- A pool that takes deposits of a unit. -/
def openForUnits : List Label := [openPool, openVault, fillPurse, registerZkbtc]

/-- The pool has filled `i` trees and placed `n` leaves in the next; the first tree is full and
the trees after the active one were never touched. -/
structure GoneTo (s : State) (i n : ℕ) : Prop where
  working : Working s i n (i * maxLeaves + n)
  supplied : Supplied s (2 ^ 50) (i * maxLeaves + n)
  funded : (s.trees.get (pool, 0)).lamports ≠ 0
  full : 0 < i → ∃ t, s.records.trees (pool, 0) = some t ∧ t.nextIndex = maxLeaves
  fresh : ∀ j, i < j → s.trees.get (pool, j) = .fresh

/-- What has to be seen of a state to start. -/
def startsUnits (s : State) (p : PoolState) (tc : TokenConfig) (t : CommitmentTree) : Prop :=
  s.records.pools zkbtc = some p ∧ p.paused = false ∧ p.permissioned = false ∧
    p.zkbtcMint = zkbtc ∧ p.activeTreeIndex = 0 ∧ p.depositFeeBps = 0 ∧
  s.records.tokenConfigs (pool, zkbtc) = some tc ∧ tc.mint = zkbtc ∧ tc.vault = vault ∧
    tc.enabled = true ∧ tc.minDeposit = 1 ∧ 1 ≤ tc.maxDeposit ∧ tc.depositCap = 2 ^ 50 ∧
    tc.totalShielded ≤ 0 ∧ tc.accumulatedFees = 0 ∧
  s.records.trees (pool, 0) = some t ∧ t.nextIndex = 0 ∧
  (s.trees.get (pool, 0)).lamports ≠ 0 ∧ (∀ k ∈ s.trees.dom, k = (pool, 0)) ∧
  s.tokens purse = some ⟨.Token2022, zkbtc, user, none, 2 ^ 50⟩ ∧
  s.tokens vault = some ⟨.Token2022, zkbtc, pool, none, 0⟩

instance (s : State) (p : PoolState) (tc : TokenConfig) (t : CommitmentTree) :
    Decidable (startsUnits s p tc t) := inferInstanceAs (Decidable (_ ∧ _))

lemma run_openForUnits : ((exec (step ladderEnv) (fun _ _ => true) .genesis openForUnits).any fun s =>
    (s.records.pools zkbtc).any fun p => (s.records.tokenConfigs (pool, zkbtc)).any fun tc =>
      (s.records.trees (pool, 0)).any fun t => decide (startsUnits s p tc t)) = true := by
  decide +kernel

lemma gone_start : ∃ (tr : List (Step State Label)) (s : State),
    Reaches (step ladderEnv) (fun _ _ => True) .genesis tr s ∧ GoneTo s 0 0 := by
  obtain ⟨s, hs, h⟩ := (Option.any_eq_true _ _).mp run_openForUnits
  obtain ⟨p, -, h⟩ := (Option.any_eq_true _ _).mp h
  obtain ⟨tc, -, h⟩ := (Option.any_eq_true _ _).mp h
  obtain ⟨t, -, h⟩ := (Option.any_eq_true _ _).mp h
  obtain ⟨hp, hpaused, hperm, hmint, hactive, hbps, htc, hcm, hcv, hce, hmin, hmax, hcap, hshielded,
    hfees, ht, hnext, hfunded, hdom, hpurse, hvault⟩ := of_decide_eq_true h
  obtain ⟨tr, -, hrun⟩ := reaches_of_exec (fun _ _ _ => trivial) hs
  refine ⟨tr, s, hrun, ⟨⟨p, hp, hpaused, hperm, hmint, hactive, hbps⟩, ⟨tc, htc, hcm, hcv, hce, hmin,
    hmax, hcap, hshielded, hfees⟩, ⟨t, ht, hnext⟩⟩, ⟨⟨_, hpurse, Nat.le_add_right _ _⟩,
    ⟨_, hvault, le_rfl⟩⟩, hfunded, fun hpos => absurd hpos (lt_irrefl _), fun j hj => ?_⟩
  refine s.trees.outside (pool, j) fun hmem => ?_
  have hzero := (Prod.mk.inj (hdom _ hmem)).2
  omega

/-- One more leaf. -/
lemma GoneTo.unit {s : State} {i n : ℕ} (h : GoneTo s i n) (hi : i < 2 ^ 32) (hn : n < maxLeaves) :
    ∃ s', step ladderEnv s (.call (unitCall i)) = .ok s' ∧ GoneTo s' i (n + 1) := by
  have hsmall : i * maxLeaves + n < 2 ^ 50 := by
    rw [show maxLeaves = 65536 from rfl] at hn ⊢
    omega
  obtain ⟨s', hs', hworking, hsupplied, ⟨⟨t, htrees⟩, -⟩⟩ :=
    shield_unit ladderHash_isSome h.working h.supplied hn hsmall le_rfl
  rw [Nat.add_assoc] at hworking hsupplied
  refine ⟨s', (step_unit i s).trans hs', hworking, hsupplied, ?_, fun hpos => ?_, fun j hj => ?_⟩
  · rw [htrees, Store.get_set]
    split_ifs with heq
    · rw [← heq]
      exact h.funded
    · exact h.funded
  · obtain ⟨t₀, ht₀, hfull⟩ := h.full hpos
    refine ⟨t₀, ?_, hfull⟩
    have hne : ((pool, 0) : Addr × ℕ) ≠ (pool, i) := fun heq => hpos.ne (Prod.mk.inj heq).2
    change (s'.trees.get (pool, 0)).rec? = some t₀
    rw [htrees, Store.get_set_of_ne _ _ hne]
    exact ht₀
  · have hne : ((pool, j) : Addr × ℕ) ≠ (pool, i) := fun heq => hj.ne' (Prod.mk.inj heq).2
    rw [htrees, Store.get_set_of_ne _ _ hne]
    exact h.fresh j hj

/-- The next tree. -/
lemma GoneTo.next {s : State} {i : ℕ} (h : GoneTo s i maxLeaves) (hi : i + 1 < 2 ^ 32) :
    ∃ s', step ladderEnv s (.call (rotateInto i (i + 1))) = .ok s' ∧ GoneTo s' (i + 1) 0 := by
  obtain ⟨acc, hacc⟩ : ∃ acc, createOrClaim (s.trees.get (pool, i + 1)) (env.minimumBalance 8816)
      ProgramError.Cpi = .ok acc := by
    rw [h.fresh _ (Nat.lt_succ_self i)]
    exact ⟨_, rfl⟩
  obtain ⟨s', hs', hworking, htrees, htokens, -⟩ := rotate_unit (f := ladderHash) h.working
    (Nat.mod_eq_of_lt hi).symm hacc
  have hne : ((pool, 0) : Addr × ℕ) ≠ (pool, i + 1) := fun heq =>
    (Nat.succ_pos i).ne (Prod.mk.inj heq).2
  have htotal : (i + 1) * maxLeaves + 0 = i * maxLeaves + maxLeaves := by ring
  refine ⟨s', hs', ?_, ?_, ?_, fun _ => ?_, fun j hj => ?_⟩
  · rw [htotal]
    exact hworking
  · rw [htotal]
    exact ⟨by rw [htokens]; exact h.supplied.source, by rw [htokens]; exact h.supplied.held⟩
  · rw [htrees, Store.get_set_of_ne _ _ hne]
    exact h.funded
  · -- the first tree is the one just filled, or was full before
    have hfirst : ∃ t, s.records.trees (pool, 0) = some t ∧ t.nextIndex = maxLeaves := by
      rcases Nat.eq_zero_or_pos i with rfl | hpos
      · exact h.working.room
      · exact h.full hpos
    obtain ⟨t₀, ht₀, hfull⟩ := hfirst
    refine ⟨t₀, ?_, hfull⟩
    change (s'.trees.get (pool, 0)).rec? = some t₀
    rw [htrees, Store.get_set_of_ne _ _ hne]
    exact ht₀
  · have hne' : ((pool, j) : Addr × ℕ) ≠ (pool, i + 1) := fun heq => hj.ne' (Prod.mk.inj heq).2
    rw [htrees, Store.get_set_of_ne _ _ hne']
    exact h.fresh j (by omega)

/-- The trees are filled one after the other. -/
lemma gone_to (i : ℕ) (hi : i < 2 ^ 32) (n : ℕ) (hn : n ≤ maxLeaves) :
    ∃ (tr : List (Step State Label)) (s : State),
      Reaches (step ladderEnv) (fun _ _ => True) .genesis tr s ∧ GoneTo s i n := by
  induction i generalizing n with
  | zero =>
    induction n with
    | zero => exact gone_start
    | succ n ih =>
      obtain ⟨tr, s, hrun, h⟩ := ih (by omega)
      obtain ⟨s', hs', h'⟩ := h.unit hi (by omega)
      exact ⟨_, s', .call hrun trivial hs', h'⟩
  | succ i ihi =>
    induction n with
    | zero =>
      obtain ⟨tr, s, hrun, h⟩ := ihi (by omega) maxLeaves le_rfl
      obtain ⟨s', hs', h'⟩ := h.next hi
      exact ⟨_, s', .call hrun trivial hs', h'⟩
    | succ n ih =>
      obtain ⟨tr, s, hrun, h⟩ := ih (by omega)
      obtain ⟨s', hs', h'⟩ := h.unit hi (by omega)
      exact ⟨_, s', .call hrun trivial hs', h'⟩

/-- An account that the program owns and has paid for is claimed as it is. -/
lemma claim_owned {α ε : Type} {acc : Account α} {a : α} (h : acc.rec? = some a)
    (hfunded : acc.lamports ≠ 0) (rent : ℕ) (e : ε) :
    ∃ acc', createOrClaim acc rent e = .ok acc' := by
  obtain ⟨howner, hlive⟩ := Account.rec?_eq_some.mp h
  have hdata : acc.data = .live a := Data.live?_eq_some.mp hlive
  refine ⟨{ acc with lamports := max acc.lamports rent }, ?_⟩
  rw [createOrClaim, if_neg hfunded, allocateIfEmpty, hdata, Data.isEmpty_live]
  simp [bind, Except.bind, assignIfForeign, howner]

/-- A deposit of a unit. -/
def placeOne : List Label := openForUnits ++ [.call (unitCall 0)]

lemma indexLeft_of_noRotation (s : State) (l : Label) (h : noRotation s l = true) :
    IndexLeft ladderEnv s l := by
  rintro c c' pool m p rfl hd - - -
  have hd' : c.decode env = some (.RotateTree, c') := hd
  simp [noRotation, hd'] at h

lemma run_placeOne : ((exec (step ladderEnv) noRotation .genesis placeOne).any fun s =>
    s.records.placements.any fun q => decide (q.1 = (pool, 0) ∧ q.2.1 = 0)) = true := by
  decide +kernel

end Regtest

open Regtest in
/-- **Reopened**: deposits fill every tree up to the last index; the rotation after it opens the
first tree again, which was full. -/
theorem frozen_tree_reopened : PoseidonTotal ladderEnv ∧ PoseidonNonzero ladderEnv ∧
    ZeroLadder ladderEnv ∧ ∃ (tr : List (Step State Label)) (s : State) (st : Step State Label)
      (m : Addr) (p : PoolState) (i : ℕ),
      Reaches (step ladderEnv) (fun _ _ => True) .genesis tr s ∧ st ∈ tr ∧
        st.pre.records.pools m = some p ∧ i < p.activeTreeIndex ∧
          st.post.records.trees (.poolState m, i) ≠ st.pre.records.trees (.poolState m, i) := by
  refine ⟨poseidonTotal_ladder, poseidonNonzero, zeroLadder, ?_⟩
  obtain ⟨tr, s, hrun, h⟩ := gone_to (2 ^ 32 - 1) (by norm_num) maxLeaves le_rfl
  obtain ⟨t, ht, hfull⟩ := h.full (by norm_num)
  obtain ⟨acc, hacc⟩ := claim_owned (show (s.trees.get (pool, 0)).rec? = some t from ht) h.funded
    (env.minimumBalance 8816) ProgramError.Cpi
  obtain ⟨s', hs', hworking, -, -, -⟩ := rotate_unit (f := ladderHash) h.working (j := 0) rfl hacc
  obtain ⟨p, hp, -, -, -, hactive, -⟩ := h.working.running
  obtain ⟨t', ht', hempty⟩ := hworking.room
  refine ⟨_, s', ⟨s, _, s'⟩, zkbtc, p, 0, .call hrun trivial hs',
    List.mem_append_right _ (List.mem_singleton_self _), hp, ?_, ?_⟩
  · rw [hactive]
    norm_num
  · change s'.records.trees (pool, 0) ≠ s.records.trees (pool, 0)
    rw [ht', ht]
    intro heq
    rw [Option.some_inj.mp heq, hfull] at hempty
    exact absurd hempty (by decide)

open Regtest in
/-- A note that was placed, and its path. -/
theorem placed_notes_kept_unit : ∃ (tr : List (Step State Label)) (s : State) (h : Hash),
    tr.map Step.call = placeOne ∧ ((pool, 0), 0, h) ∈ s.records.placements ∧
      ∃ siblings root, siblings.length = treeDepth ∧
        computeMerkleRoot ladderEnv h 0 siblings = .ok root ∧ AcceptsRoot ladderEnv s zkbtc 0 root := by
  obtain ⟨s, hs, hplaced⟩ := (Option.any_eq_true _ _).mp run_placeOne
  obtain ⟨⟨k, i, h⟩, hmem, heq⟩ := List.any_eq_true.mp hplaced
  obtain ⟨rfl, rfl⟩ := of_decide_eq_true heq
  obtain ⟨tr, hcalls, hrun⟩ := reaches_of_exec indexLeft_of_noRotation hs
  exact ⟨tr, s, h, hcalls, hmem, (placed_notes_kept poseidonTotal_ladder poseidonNonzero zeroLadder
    hrun).2.2.2 zkbtc 0 0 h hmem⟩

end Utxopia.Pool
