import Mathlib.Algebra.GroupWithZero.Nat
import Utxopia.Lib.Runtime
import Utxopia.Lib.Store

/-!
A ledger: a store of accounts, read as the records the program owns.

An account counts as a record only while the program owns it and its bytes spell one. What a
program does to its accounts is then a change of a partial map, and totals over all records
follow the change.
-/

namespace Utxopia

open Utxopia.Runtime

variable {K α : Type}

/-- The record of an account of the program. -/
def Runtime.Account.rec? (acc : Account α) : Option α :=
  if acc.owner = .program then acc.live? else none

namespace Runtime

variable {acc acc' : Account α} {a : α}

lemma Account.rec?_eq_some : acc.rec? = some a ↔ acc.owner = .program ∧ acc.live? = some a := by
  simp [Account.rec?]

lemma Account.rec?_eq_none_of_live? (h : acc.live? = none) : acc.rec? = none := by
  simp [Account.rec?, h]

@[simp] lemma Account.rec?_default : (default : Account α).rec? = none := rfl

@[simp] lemma Account.rec?_close : (close acc).rec? = none := by
  simp [Account.rec?]

/-- An account the helper left is the program's. -/
lemma createOrClaim_owner {ε : Type} {lamports : ℕ} {e : ε}
    (h : createOrClaim acc lamports e = .ok acc') : acc'.owner = .program := by
  rw [createOrClaim_ok h]

lemma createOrClaimSized_owner {ε : Type} {fits : α → Bool} {lamports : ℕ} {e : ε}
    (h : createOrClaimSized fits acc lamports e = .ok acc') : acc'.owner = .program := by
  rw [createOrClaimSized_ok h]

end Runtime

namespace Store

/-- The records of a ledger. -/
def recs (l : Store K (Account α)) : K → Option α := fun k => (l.get k).rec?

@[simp] lemma recs_empty : recs (empty : Store K (Account α)) = fun _ => none := rfl

variable [DecidableEq K]

lemma recs_set (l : Store K (Account α)) (k : K) (acc : Account α) :
    recs (l.set k acc) = Function.update l.recs k acc.rec? := by
  funext j
  rw [recs, get_set, Function.update_apply]
  split <;> rfl

/-- A write that does not change the record changes nothing. -/
lemma recs_set_of_eq {l : Store K (Account α)} {k : K} {acc : Account α} (h : acc.rec? = l.recs k) :
    recs (l.set k acc) = l.recs := by
  rw [recs_set, h, Function.update_eq_self]

/-! ### Totals over all records -/

/-- What an entry contributes. -/
def value (f : K → α → ℕ) (k : K) (r : Option α) : ℕ := r.elim 0 (f k)

omit [DecidableEq K] in
@[simp] lemma value_none (f : K → α → ℕ) (k : K) : value f k none = 0 := rfl
omit [DecidableEq K] in
@[simp] lemma value_some (f : K → α → ℕ) (k : K) (a : α) : value f k (some a) = f k a := rfl

/-- The sum of a measure over all records. -/
def total (l : Store K (Account α)) (f : K → α → ℕ) : ℕ := l.sum fun k acc => value f k acc.rec?

omit [DecidableEq K] in
lemma measure_value (f : K → α → ℕ) :
    Measure fun k (acc : Account α) => value f k acc.rec? := fun _ => rfl

variable {l l' : Store K (Account α)} {f g : K → α → ℕ} {k : K}

omit [DecidableEq K] in
@[simp] lemma total_empty : total (empty : Store K (Account α)) f = 0 := rfl

/-- Ledgers with the same records have the same totals. -/
lemma total_congr (h : l'.recs = l.recs) : l'.total f = l.total f :=
  sum_congr (measure_value f) (measure_value f) fun k => by
    rw [show (l'.get k).rec? = (l.get k).rec? from congrFun h k]

/-- **Exchange**: one changed record trades its old contribution for its new one. -/
theorem total_update {r : Option α} (h : l'.recs = Function.update l.recs k r) :
    l'.total f + value f k (l.recs k) = l.total f + value f k r := by
  have hset := sum_set (measure_value f) l k (l'.get k)
  have hk : (l'.get k).rec? = r := by
    have := congrFun h k
    simpa [recs] using this
  have hcongr : l'.total f = (l.set k (l'.get k)).total f := by
    refine total_congr ?_
    rw [h, recs_set, hk]
  rw [hcongr, total, total, recs, ← hk]
  exact hset

/-- A record counts at most the total. -/
lemma le_total {a : α} (h : l.recs k = some a) : f k a ≤ l.total f := by
  have := le_sum (measure_value f) l k
  rw [show (l.get k).rec? = some a from h] at this
  exact this

omit [DecidableEq K] in
lemma total_le_total (h : ∀ k a, l.recs k = some a → f k a ≤ g k a) : l.total f ≤ l.total g := by
  refine sum_le_sum l fun k => ?_
  cases hr : (l.get k).rec? with
  | none => exact le_rfl
  | some a => exact h k a hr

omit [DecidableEq K] in
/-- A positive total has a record that counts. -/
lemma exists_of_total_pos (h : 0 < l.total f) : ∃ k a, l.recs k = some a ∧ 0 < f k a := by
  obtain ⟨k, hk⟩ := exists_of_sum_pos l h
  cases hr : (l.get k).rec? with
  | none => rw [hr] at hk; exact absurd hk (by simp)
  | some a => exact ⟨k, a, hr, by rw [hr] at hk; exact hk⟩

omit [DecidableEq K] in
lemma total_eq_zero (h : ∀ k a, l.recs k = some a → f k a = 0) : l.total f = 0 := by
  by_contra hne
  obtain ⟨k, a, hr, hpos⟩ := exists_of_total_pos (Nat.pos_of_ne_zero hne)
  have := h k a hr
  omega

/-! ### Several writes in a row -/

/-- Write the entries one after the other. -/
def updates (m : K → Option α) (es : List (K × Option α)) : K → Option α :=
  es.foldl (fun m e => Function.update m e.1 e.2) m

variable {m : K → Option α} {es : List (K × Option α)}

@[simp] lemma updates_nil : updates m [] = m := rfl

@[simp] lemma updates_cons (e : K × Option α) :
    updates m (e :: es) = updates (Function.update m e.1 e.2) es := rfl

lemma updates_append (es' : List (K × Option α)) :
    updates m (es ++ es') = updates (updates m es) es' := List.foldl_append ..

lemma updates_concat (e : K × Option α) :
    updates m (es ++ [e]) = Function.update (updates m es) e.1 e.2 := by
  rw [updates_append]
  rfl

lemma updates_of_notMem (h : k ∉ es.map Prod.fst) : updates m es k = m k := by
  induction es generalizing m with
  | nil => rfl
  | cons e es ih =>
    rw [List.map_cons, List.mem_cons, not_or] at h
    rw [updates_cons, ih h.2, Function.update_of_ne h.1]

/-- Whatever an entry becomes, one of the writes said so. -/
lemma updates_of_mem (h : k ∈ es.map Prod.fst) : ∃ r, (k, r) ∈ es ∧ updates m es k = r := by
  induction es generalizing m with
  | nil => simp at h
  | cons e es ih =>
    by_cases hk : k ∈ es.map Prod.fst
    · obtain ⟨r, hr, heq⟩ := ih hk (m := Function.update m e.1 e.2)
      exact ⟨r, List.mem_cons_of_mem _ hr, heq⟩
    · rw [List.map_cons, List.mem_cons, or_iff_left hk] at h
      refine ⟨e.2, List.mem_cons.mpr (.inl (Prod.ext h rfl)), ?_⟩
      rw [updates_cons, updates_of_notMem hk, h, Function.update_self]

/-- With distinct keys every write stays. -/
lemma updates_of_mem_nodup {r : Option α} (hnd : (es.map Prod.fst).Nodup) (h : (k, r) ∈ es) :
    updates m es k = r := by
  obtain ⟨r', hr', heq⟩ := updates_of_mem (m := m) (List.mem_map_of_mem (f := Prod.fst) h)
  rw [heq]
  have := (List.nodup_map_iff_inj_on hnd.of_map).mp hnd _ hr' _ h rfl
  exact congrArg Prod.snd this

/-- What every entry satisfies and every write does, every entry satisfies afterwards. -/
lemma forall_updates {P : K → α → Prop} (es : List (K × Option α))
    (hm : ∀ k a, m k = some a → P k a) (hes : ∀ e ∈ es, ∀ a, e.2 = some a → P e.1 a) : ∀ k a, updates m es k = some a → P k a := by
  intro k a ha
  by_cases hk : k ∈ es.map Prod.fst
  · obtain ⟨r, hr, heq⟩ := updates_of_mem (m := m) hk
    exact hes _ hr a (heq.symm.trans ha)
  · rw [updates_of_notMem hk] at ha
    exact hm k a ha

/-- Writing what is there changes nothing. -/
lemma updates_eq_self (h : ∀ e ∈ es, m e.1 = e.2) : updates m es = m := by
  induction es with
  | nil => rfl
  | cons e es ih =>
    rw [updates_cons, ← h e (List.mem_cons_self ..), Function.update_eq_self]
    exact ih fun d hd => h d (List.mem_cons_of_mem _ hd)

/-- The writes as a view of the entries sees them. -/
lemma updates_bind {β : Type} (f : α → Option β) :
    (fun k => (updates m es k).bind f) =
      updates (fun k => (m k).bind f) (es.map fun e => (e.1, e.2.bind f)) := by
  induction es generalizing m with
  | nil => rfl
  | cons e es ih =>
    rw [updates_cons, ih, List.map_cons, updates_cons]
    congr 1
    funext k
    rcases eq_or_ne k e.1 with rfl | hne
    · rw [Function.update_self, Function.update_self]
    · rw [Function.update_of_ne hne, Function.update_of_ne hne]

/-- Some ledger has the records after the writes. -/
lemma exists_recs_updates (l : Store K (Account α)) (es : List (K × Option α)) :
    ∃ l' : Store K (Account α), l'.recs = updates l.recs es := by
  induction es using List.reverseRecOn with
  | nil => exact ⟨l, rfl⟩
  | append_singleton es e ih =>
    obtain ⟨m, hm⟩ := ih
    refine ⟨m.set e.1 ⟨0, .program, e.2.elim .blank .live⟩, ?_⟩
    rw [recs_set, updates_concat, hm]
    congr 1
    cases e.2 <;> rfl

/-- **Exchange** for writes under distinct keys. -/
theorem total_updates (hnd : (es.map Prod.fst).Nodup) (h : l'.recs = updates l.recs es) :
    l'.total f + (es.map fun e => value f e.1 (l.recs e.1)).sum =
      l.total f + (es.map fun e => value f e.1 e.2).sum := by
  induction es using List.reverseRecOn generalizing l' with
  | nil => simp [total_congr (f := f) h]
  | append_singleton es e ih =>
    rw [List.map_append, List.nodup_append] at hnd
    obtain ⟨hnd, -, hne⟩ := hnd
    have hk : e.1 ∉ es.map Prod.fst := fun hmem => hne _ hmem e.1 (by simp) rfl
    obtain ⟨m, hm⟩ : ∃ m : Store K (Account α), m.recs = updates l.recs es :=
      exists_recs_updates l es
    rw [updates_concat, ← hm] at h
    have hlast := total_update (f := f) h
    have hinit := ih hnd hm
    have hold : m.recs e.1 = l.recs e.1 := by rw [hm, updates_of_notMem hk]
    rw [hold] at hlast
    simp only [List.map_append, List.sum_append, List.map_cons, List.map_nil, List.sum_cons,
      List.sum_nil]
    omega

/-- New records under new keys add what they count. -/
lemma total_updates_fresh (hnd : (es.map Prod.fst).Nodup) (hnew : ∀ e ∈ es, l.recs e.1 = none)
    (h : l'.recs = updates l.recs es) :
    l'.total f = l.total f + (es.map fun e => value f e.1 e.2).sum := by
  have hex := total_updates (f := f) hnd h
  have hz : (es.map fun e => value f e.1 (l.recs e.1)).sum = 0 :=
    List.sum_eq_zero fun x hx => by
      obtain ⟨e, he, rfl⟩ := List.mem_map.mp hx
      rw [hnew e he]
      rfl
  omega

/-- What the writes put over, when every one sees the writes before it. -/
def overwritten (f : K → α → ℕ) (m : K → Option α) : List (K × Option α) → ℕ
  | [] => 0
  | e :: es => value f e.1 (m e.1) + overwritten f (Function.update m e.1 e.2) es

/-- **Exchange** for writes in a row: what is written over is gone. -/
theorem total_updates_overwritten (h : l'.recs = updates l.recs es) :
    l'.total f + overwritten f l.recs es = l.total f + (es.map fun e => value f e.1 e.2).sum := by
  induction es generalizing l with
  | nil => simp [overwritten, total_congr (f := f) h]
  | cons e es ih =>
    obtain ⟨m, hm⟩ := exists_recs_updates l [e]
    rw [updates_cons, updates_nil] at hm
    rw [updates_cons, ← hm] at h
    have hhead := total_update (f := f) hm
    have htail := ih h
    rw [overwritten, ← hm, List.map_cons, List.sum_cons]
    omega

/-- Writes that count nothing put over what there was. -/
lemma overwritten_eq_zero (hes : ∀ e ∈ es, value f e.1 e.2 = 0) :
    overwritten f m es = 0 ↔ ∀ e ∈ es, value f e.1 (m e.1) = 0 := by
  induction es generalizing m with
  | nil => simp [overwritten]
  | cons e es ih =>
    rw [List.forall_mem_cons] at hes ⊢
    rw [overwritten, Nat.add_eq_zero_iff, ih hes.2]
    refine and_congr_right fun hhead => forall₂_congr fun e' _ => ?_
    rcases eq_or_ne e'.1 e.1 with hk | hk
    · rw [hk, Function.update_self, hes.1, hhead]
    · rw [Function.update_of_ne hk]

/-- One write that counts and others that do not put nothing over if the first stays and the
others put nothing over. -/
lemma overwritten_cons_eq_zero {e : K × Option α} (he : value f e.1 e.2 ≠ 0)
    (hes : ∀ e ∈ es, value f e.1 e.2 = 0) :
    overwritten f m (e :: es) = 0 ↔
      e.1 ∉ es.map Prod.fst ∧ ∀ k ∈ (e :: es).map Prod.fst, value f k (m k) = 0 := by
  rw [overwritten, Nat.add_eq_zero_iff, overwritten_eq_zero hes]
  constructor
  · rintro ⟨hhead, htail⟩
    have hnew : e.1 ∉ es.map Prod.fst := fun hmem => by
      obtain ⟨e', he', hk⟩ := List.mem_map.mp hmem
      have := htail e' he'
      rw [hk, Function.update_self] at this
      exact he this
    refine ⟨hnew, fun k hk => ?_⟩
    rw [List.map_cons, List.mem_cons] at hk
    rcases hk with rfl | hk
    · exact hhead
    · obtain ⟨e', he', rfl⟩ := List.mem_map.mp hk
      have := htail e' he'
      rwa [Function.update_of_ne fun heq : e'.1 = e.1 => hnew (heq ▸ hk)] at this
  · rintro ⟨hnew, hall⟩
    refine ⟨hall _ (by simp), fun e' he' => ?_⟩
    have hk : e'.1 ∈ es.map Prod.fst := List.mem_map_of_mem he'
    rw [Function.update_of_ne fun heq : e'.1 = e.1 => hnew (heq ▸ hk)]
    exact hall _ (List.mem_cons_of_mem _ hk)

end Store

end Utxopia
