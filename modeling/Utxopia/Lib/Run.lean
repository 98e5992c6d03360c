import Mathlib.Tactic.Common

/-!
Runs of a program that takes one call after another.

A call either fails, and then nothing changed, or gives the next state. A run is the list
of the calls that succeeded, each with the state before and after it. A guard may restrict
the calls; an invariant that every guarded call keeps holds in every state of the run.
-/

namespace Utxopia.Run

variable {S L ε : Type}

/-- One successful call and the states around it. -/
structure Step (S L : Type) where
  pre : S
  call : L
  post : S

/-- The runs from `s₀` whose calls all succeed and meet the guard, latest call last. -/
inductive Reaches (step : S → L → Except ε S) (guard : S → L → Prop) (s₀ : S) :
    List (Step S L) → S → Prop
  | start : Reaches step guard s₀ [] s₀
  | call {tr : List (Step S L)} {s s' : S} {l : L} (run : Reaches step guard s₀ tr s)
      (ok : guard s l) (eq : step s l = .ok s') :
      Reaches step guard s₀ (tr ++ [⟨s, l, s'⟩]) s'

variable {step : S → L → Except ε S} {guard guard' : S → L → Prop} {s₀ s : S}
  {tr : List (Step S L)}

/-- **Invariant rule**: what holds at the start and is kept by every guarded call holds in
every state reached. -/
theorem Reaches.inv {I : S → Prop} (h : Reaches step guard s₀ tr s) (h0 : I s₀)
    (hstep : ∀ s l s', I s → guard s l → step s l = .ok s' → I s') : I s := by
  induction h with
  | start => exact h0
  | call run ok eq ih => exact hstep _ _ _ ih ok eq

/-- **History rule**: the invariant may speak of the calls made so far. -/
theorem Reaches.history {I : List (Step S L) → S → Prop} (h : Reaches step guard s₀ tr s)
    (h0 : I [] s₀)
    (hstep : ∀ tr s l s', Reaches step guard s₀ tr s → I tr s → guard s l → step s l = .ok s' →
      I (tr ++ [⟨s, l, s'⟩]) s') : I tr s := by
  induction h with
  | start => exact h0
  | call run ok eq ih => exact hstep _ _ _ _ run ih ok eq

/-- A weaker guard admits the run too. -/
theorem Reaches.mono (h : Reaches step guard s₀ tr s) (hg : ∀ s l, guard s l → guard' s l) :
    Reaches step guard' s₀ tr s := by
  induction h with
  | start => exact .start
  | call run ok eq ih => exact .call ih (hg _ _ ok) eq

/-- A guard that every call of the run happens to meet may be added. -/
theorem Reaches.strengthen (h : Reaches step guard s₀ tr s)
    (hg : ∀ st ∈ tr, guard st.pre st.call → guard' st.pre st.call) :
    Reaches step guard' s₀ tr s := by
  induction h with
  | start => exact .start
  | call run ok eq ih =>
    have hpast := ih fun st hst => hg st (by simp [hst])
    exact .call hpast (hg _ (List.mem_append_right _ (List.mem_singleton_self _)) ok) eq

/-- Every step of a run was made. -/
lemma Reaches.step_of_mem (h : Reaches step guard s₀ tr s) {st : Step S L} (hst : st ∈ tr) :
    step st.pre st.call = .ok st.post := by
  induction h with
  | start => exact absurd hst List.not_mem_nil
  | call run ok eq ih =>
    rcases List.mem_append.mp hst with hst | hst
    · exact ih hst
    · obtain rfl := List.mem_singleton.mp hst
      exact eq

/-- The state before a step of a run is reached too. -/
lemma Reaches.reaches_pre (h : Reaches step guard s₀ tr s) {st : Step S L} (hst : st ∈ tr) :
    ∃ tr', Reaches step guard s₀ tr' st.pre := by
  induction h with
  | start => exact absurd hst List.not_mem_nil
  | call run ok eq ih =>
    rcases List.mem_append.mp hst with hst | hst
    · exact ih hst
    · obtain rfl := List.mem_singleton.mp hst
      exact ⟨_, run⟩

/-- A run up to one of its steps, and that step. -/
lemma Reaches.split (h : Reaches step guard s₀ tr s) {before after : List (Step S L)}
    {st : Step S L} (htr : tr = before ++ st :: after) :
    Reaches step guard s₀ before st.pre ∧ step st.pre st.call = .ok st.post := by
  induction h generalizing after with
  | start => simp at htr
  | call run ok eq ih =>
    rcases List.eq_nil_or_concat after with rfl | ⟨init, last, rfl⟩
    · obtain ⟨rfl, hst⟩ := List.append_inj' htr rfl
      obtain rfl := (List.cons.inj hst).1
      exact ⟨run, eq⟩
    · rw [List.concat_eq_append, ← List.cons_append, ← List.append_assoc] at htr
      exact ih (List.append_inj' htr rfl).1

/-- What comes after a step of a run is a run from there. -/
lemma Reaches.after (h : Reaches step guard s₀ tr s) {before after : List (Step S L)} {st : Step S L}
    (htr : tr = before ++ st :: after) : Reaches step guard st.post after s := by
  induction h generalizing after with
  | start => simp at htr
  | call run ok eq ih =>
    rcases List.eq_nil_or_concat after with rfl | ⟨init, last, rfl⟩
    · obtain ⟨-, hst⟩ := List.append_inj' htr rfl
      obtain rfl := (List.cons.inj hst).1
      exact .start
    · rw [List.concat_eq_append, ← List.cons_append, ← List.append_assoc] at htr
      obtain ⟨hinit, hlast⟩ := List.append_inj' htr rfl
      obtain rfl := (List.cons.inj hlast).1
      rw [List.concat_eq_append]
      exact .call (ih hinit) ok eq

/-- Two runs one after the other. -/
theorem Reaches.trans {s₁ : S} {tr' : List (Step S L)} (h : Reaches step guard s₀ tr s₁)
    (h' : Reaches step guard s₁ tr' s) : Reaches step guard s₀ (tr ++ tr') s := by
  induction h' with
  | start => simpa using h
  | call run ok eq ih =>
    rw [← List.append_assoc]
    exact .call ih ok eq

/-- Make every call in turn while the calls are allowed and succeed. -/
def trace (step : S → L → Except ε S) (allowed : S → L → Bool) : S → List L → Option (List (Step S L))
  | _, [] => some []
  | s, l :: ls =>
    match allowed s l, step s l with
    | true, .ok s' => (trace step allowed s' ls).map (⟨s, l, s'⟩ :: ·)
    | _, _ => none

/-- Where the steps end. -/
def final (s : S) (tr : List (Step S L)) : S := (tr.getLast?.map Step.post).getD s

def exec (step : S → L → Except ε S) (allowed : S → L → Bool) (s : S) (ls : List L) : Option S :=
  (trace step allowed s ls).map (final s)

lemma final_cons (s : S) (st : Step S L) (tr : List (Step S L)) :
    final s (st :: tr) = final st.post tr := by
  cases tr with
  | nil => rfl
  | cons x xs => simp [final, List.getLast?_cons]

/-- Calls that all go through make a run. -/
theorem reaches_of_trace {allowed : S → L → Bool} {s : S} {ls : List L} {tr : List (Step S L)}
    (hg : ∀ s l, allowed s l = true → guard s l) (h : trace step allowed s ls = some tr) :
    tr.map Step.call = ls ∧ Reaches step guard s tr (final s tr) := by
  induction ls generalizing s tr with
  | nil =>
    simp only [trace, Option.some.injEq] at h
    exact h ▸ ⟨rfl, .start⟩
  | cons l ls ih =>
    simp only [trace] at h
    split at h
    · rename_i m ha hm
      obtain ⟨tr', htr', rfl⟩ := Option.map_eq_some_iff.mp h
      obtain ⟨hcalls, hr⟩ := ih htr'
      refine ⟨by rw [List.map_cons, hcalls], ?_⟩
      rw [final_cons]
      exact Reaches.trans (.call .start (hg _ _ ha) hm : Reaches step guard s [⟨s, l, m⟩] m) hr
    · exact absurd h (by simp)

lemma reaches_of_exec {allowed : S → L → Bool} {s s' : S} {ls : List L}
    (hg : ∀ s l, allowed s l = true → guard s l) (h : exec step allowed s ls = some s') :
    ∃ tr, tr.map Step.call = ls ∧ Reaches step guard s tr s' := by
  obtain ⟨tr, htr, rfl⟩ := Option.map_eq_some_iff.mp h
  exact ⟨tr, reaches_of_trace hg htr⟩

end Utxopia.Run
