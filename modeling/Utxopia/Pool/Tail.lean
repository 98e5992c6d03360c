import Utxopia.Pool.Joinsplit

/-!
The accounts after the fixed ones, as segments of the account list.

Which of the five groups a call has is declared by its flags and by the pool, and each starts where
the one before it ends. So the groups that are there tile the rest of the list, no account is in
two of them, and the buffer of the proof, the last group, is the last account.
-/

namespace Utxopia.Pool

open Utxopia.Check Utxopia.Runtime

/-! ### Segments -/

/-- Segments of the given lengths, one after another. -/
def segments : ℕ → List ℕ → List (List ℕ)
  | _, [] => []
  | start, n :: ns => List.range' start n :: segments (start + n) ns

lemma map_length_segments (ns : List ℕ) (start : ℕ) : (segments start ns).map List.length = ns := by
  induction ns generalizing start with
  | nil => rfl
  | cons n ns ih => rw [segments, List.map_cons, List.length_range', ih]

/-- Segments have no gap. -/
lemma flatten_segments (ns : List ℕ) (start : ℕ) :
    (segments start ns).flatten = List.range' start ns.sum := by
  induction ns generalizing start with
  | nil => rfl
  | cons n ns ih =>
    rw [segments, List.flatten_cons, ih, List.sum_cons, ← List.range'_append_1]

/-- Segments do not overlap. -/
lemma pairwise_segments (ns : List ℕ) (start : ℕ) : (segments start ns).Pairwise List.Disjoint := by
  have hnodup : (segments start ns).flatten.Nodup := by
    rw [flatten_segments]
    exact List.nodup_range'
  exact (List.nodup_flatten.mp hnodup).2

/-! ### The groups -/

/-- The first of `n` slots at the cursor, where there are any. -/
def firstSlot (cursor n : ℕ) : Option ℕ := if n = 0 then none else some cursor

/-- The `n` slots of a group, from its first. -/
def slotsFrom (first : Option ℕ) (n : ℕ) : List ℕ := first.elim [] fun i => List.range' i n

/-- The accounts that the tail names, group by group. -/
def JoinSplitTail.groups (t : JoinSplitTail) (policy : PolicyTail) (nOutputs : ℕ) : List (List ℕ) :=
  [slotsFrom t.relayer 1, slotsFrom t.sourceTree 1, slotsFrom t.policyStart policy.accountCount,
    slotsFrom t.queuedLeavesStart nOutputs, slotsFrom t.proofBuffer 1]

/-- How many accounts the flags and the pool require of each group. -/
def groupSizes (h : JoinSplitHeader) (policy : PolicyTail) (nOutputs : ℕ) : List ℕ :=
  [flagCount h Jsflags.RELAYER 1, flagCount h Jsflags.FROZEN_SOURCE_TREE 1, policy.accountCount,
    flagCount h Jsflags.QUEUED_LEAVES nOutputs, flagCount h Jsflags.PROOF_IN_BUFFER 1]

/-- The proof inline, or from the account of a slot. -/
def proofAt (E : Env) (c : Call) : Option ℕ → Except ProgramError (List UInt8)
  | none => .ok ((c.data.drop 4).take groth16ProofSize)
  | some i => do
    let buf ← c.account i
    require (c.ownedBy buf.key E.chadbufferId) .InvalidAccountOwner
    require (chadbufferAuthoritySize + groth16ProofSize ≤ (c.dataOf buf.key).length)
      .InvalidAccountData
    return ((c.dataOf buf.key).drop chadbufferAuthoritySize).take groth16ProofSize

/-- The groups have the required sizes, tile the accounts from the start of the tail to the end
without overlap, and end with the account that the proof is read from. -/
structure Tiles (h : JoinSplitHeader) (policy : PolicyTail) (tailStart nOutputs accountCount : ℕ)
    (t : JoinSplitTail) : Prop where
  sizes : (t.groups policy nOutputs).map List.length = groupSizes h policy nOutputs
  tile : (t.groups policy nOutputs).flatten = List.range' tailStart (accountCount - tailStart)
  disjoint : (t.groups policy nOutputs).Pairwise List.Disjoint
  inRange : ∀ i ∈ (t.groups policy nOutputs).flatten, tailStart ≤ i ∧ i < accountCount
  proofBuffer : t.proofBuffer = if h.proofInBuffer then some (accountCount - 1) else none
  parser : ∀ (E : Env) (c : Call), c.accounts.length = accountCount →
    readProof E c h = proofAt E c t.proofBuffer

section Tail

variable {h : JoinSplitHeader} {tailStart nOutputs accountCount cursor cursor' n m : ℕ}
  {policy : PolicyTail} {t : JoinSplitTail} {slot : Option ℕ}

lemma takeN_eq_ok : takeN accountCount cursor n = .ok (slot, cursor') ↔
    (n ≠ 0 → cursor + n ≤ accountCount) ∧ slot = firstSlot cursor n ∧ cursor' = cursor + n := by
  unfold takeN firstSlot
  split_ifs with hn
  · subst hn
    simp [eq_comm]
  · simp only [bind_eq_ok, exists_unit, require_eq_ok, pure_eq_ok, Prod.mk.injEq]
    simp [hn, eq_comm]

lemma firstSlot_eq_some {i : ℕ} : firstSlot cursor n = some i ↔ n ≠ 0 ∧ i = cursor := by
  unfold firstSlot
  split_ifs with hn <;> simp [hn, eq_comm]

/-- A group is there whole or not at all. -/
lemma slotsFrom_firstSlot (hn : n = 0 ∨ n = m) :
    slotsFrom (firstSlot cursor n) m = List.range' cursor n := by
  unfold slotsFrom firstSlot
  rcases hn with rfl | rfl
  · rfl
  · split_ifs with hzero
    · rw [hzero]
      rfl
    · rfl

lemma flagCount_cases (h : JoinSplitHeader) (flag n : ℕ) :
    flagCount h flag n = 0 ∨ flagCount h flag n = n := by
  unfold flagCount
  split_ifs
  · exact .inr rfl
  · exact .inl rfl

/-- The first slots of the groups, each where the group before it ends. -/
def tailLayout (h : JoinSplitHeader) (tailStart : ℕ) (policy : PolicyTail) (nOutputs : ℕ) :
    JoinSplitTail :=
  let sourceTree := tailStart + flagCount h Jsflags.RELAYER 1
  let policyStart := sourceTree + flagCount h Jsflags.FROZEN_SOURCE_TREE 1
  let queuedLeaves := policyStart + policy.accountCount
  let proofBuffer := queuedLeaves + flagCount h Jsflags.QUEUED_LEAVES nOutputs
  { relayer := firstSlot tailStart (flagCount h Jsflags.RELAYER 1)
    sourceTree := firstSlot sourceTree (flagCount h Jsflags.FROZEN_SOURCE_TREE 1)
    policyStart := firstSlot policyStart policy.accountCount
    queuedLeavesStart := firstSlot queuedLeaves (flagCount h Jsflags.QUEUED_LEAVES nOutputs)
    proofBuffer := firstSlot proofBuffer (flagCount h Jsflags.PROOF_IN_BUFFER 1) }

/-- The tail is resolved exactly if the list has the required length, and then in one way. -/
lemma resolveJoinsplitTail_eq_ok :
    resolveJoinsplitTail h tailStart policy nOutputs accountCount = .ok t ↔
      accountCount = tailStart + (groupSizes h policy nOutputs).sum ∧
        t = tailLayout h tailStart policy nOutputs := by
  simp only [resolveJoinsplitTail, bind_eq_ok, Prod.exists, require_eq_ok, exists_unit, pure_eq_ok,
    takeN_eq_ok]
  simp only [groupSizes, List.sum_cons, List.sum_nil, Nat.add_zero, tailLayout]
  constructor
  · rintro ⟨_, _, ⟨-, rfl, rfl⟩, _, _, ⟨-, rfl, rfl⟩, _, _, ⟨-, rfl, rfl⟩, _, _, ⟨-, rfl, rfl⟩,
      _, _, ⟨-, rfl, rfl⟩, hcount, rfl⟩
    exact ⟨by omega, rfl⟩
  · rintro ⟨hcount, rfl⟩
    exact ⟨_, _, ⟨fun _ => by omega, rfl, rfl⟩, _, _, ⟨fun _ => by omega, rfl, rfl⟩,
      _, _, ⟨fun _ => by omega, rfl, rfl⟩, _, _, ⟨fun _ => by omega, rfl, rfl⟩,
      _, _, ⟨fun _ => by omega, rfl, rfl⟩, by omega, rfl⟩

/-- The groups are segments from the start of the tail. -/
lemma groups_tailLayout (h : JoinSplitHeader) (tailStart : ℕ) (policy : PolicyTail) (nOutputs : ℕ) :
    (tailLayout h tailStart policy nOutputs).groups policy nOutputs =
      segments tailStart (groupSizes h policy nOutputs) := by
  simp only [JoinSplitTail.groups, tailLayout, groupSizes, segments,
    slotsFrom_firstSlot (flagCount_cases h _ _), slotsFrom_firstSlot (Or.inr rfl)]

/-- The buffer of the proof is the last account. -/
lemma proofBuffer_eq
    (hok : resolveJoinsplitTail h tailStart policy nOutputs accountCount = .ok t) :
    t.proofBuffer = if h.proofInBuffer then some (accountCount - 1) else none := by
  obtain ⟨hcount, rfl⟩ := resolveJoinsplitTail_eq_ok.mp hok
  simp only [groupSizes, List.sum_cons, List.sum_nil, Nat.add_zero] at hcount
  unfold JoinSplitHeader.proofInBuffer
  simp only [tailLayout, firstSlot]
  by_cases hbuffer : h.has Jsflags.PROOF_IN_BUFFER = true
  · have hone : flagCount h Jsflags.PROOF_IN_BUFFER 1 = 1 := if_pos hbuffer
    rw [hone] at hcount ⊢
    rw [if_neg (by decide), if_pos hbuffer]
    exact congrArg some (by omega)
  · have hzero : flagCount h Jsflags.PROOF_IN_BUFFER 1 = 0 := if_neg hbuffer
    rw [hzero, if_pos rfl, if_neg hbuffer]

/-- The parser of the prefix reads the proof from the slot of the buffer. -/
lemma readProof_eq {E : Env} {c : Call} (hlen : c.accounts.length = accountCount)
    (hi : slot = if h.proofInBuffer then some (accountCount - 1) else none) :
    readProof E c h = proofAt E c slot := by
  subst hi
  unfold readProof
  split_ifs
  · rw [proofAt, hlen]
  · rfl

/-- **The trailing accounts**: the tail is resolved exactly if the account list has the length that
the flags and the pool require, and then its groups tile the list from the start of the tail to the
end, the buffer of the proof last, where the parser of the prefix reads it. -/
theorem tail_layout (h : JoinSplitHeader) (policy : PolicyTail) (tailStart nOutputs accountCount : ℕ) :
    ((∃ t, resolveJoinsplitTail h tailStart policy nOutputs accountCount = .ok t) ↔
      accountCount = tailStart + (groupSizes h policy nOutputs).sum) ∧
    ∀ t, resolveJoinsplitTail h tailStart policy nOutputs accountCount = .ok t →
      Tiles h policy tailStart nOutputs accountCount t := by
  refine ⟨⟨?_, fun hcount => ⟨_, resolveJoinsplitTail_eq_ok.mpr ⟨hcount, rfl⟩⟩⟩, fun t hok => ?_⟩
  · rintro ⟨t, hok⟩
    exact (resolveJoinsplitTail_eq_ok.mp hok).1
  have hbuffer := proofBuffer_eq hok
  obtain ⟨hcount, rfl⟩ := resolveJoinsplitTail_eq_ok.mp hok
  have hsum : accountCount - tailStart = (groupSizes h policy nOutputs).sum := by omega
  refine ⟨?_, ?_, ?_, fun i hi => ?_, hbuffer, fun E c hlen => readProof_eq hlen hbuffer⟩
  · rw [groups_tailLayout, map_length_segments]
  · rw [groups_tailLayout, flatten_segments, hsum]
  · rw [groups_tailLayout]
    exact pairwise_segments ..
  · rw [groups_tailLayout, flatten_segments, List.mem_range'_1] at hi
    omega

/-- A queued spend of a permissioned pool, with every flag it may have. -/
theorem tail_layout_full :
    Tiles ⟨1, 2, 0, 31⟩ .Verified 6 2 13 ⟨some 6, some 7, some 8, some 10, some 12⟩ :=
  (tail_layout ⟨1, 2, 0, 31⟩ .Verified 6 2 13).2 _ rfl

end Tail

end Utxopia.Pool
