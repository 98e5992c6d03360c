import Utxopia.Lib.ByteString

/-!
Byte strings made of a tag and fields of fixed length.

No separator stands between the parts. Such strings can still be read back: a tag that is no
beginning of another one ends where it has to, and a field ends after its length.
-/

namespace Utxopia.Encoding

open Utxopia.ByteString

variable {α F : Type}

/-- No tag is the beginning of another. -/
def PrefixFree (tag : F → List α) : Prop := ∀ f g, tag f <+: tag g → f = g

/-- **Tags end**: strings that begin with tags are equal only if the tags are. -/
theorem PrefixFree.append_inj {tag : F → List α} (h : PrefixFree tag) {f g : F} {a b : List α}
    (heq : tag f ++ a = tag g ++ b) : f = g ∧ a = b := by
  have hf : tag f <+: tag g ++ b := heq ▸ List.prefix_append _ _
  have hg : tag g <+: tag g ++ b := List.prefix_append _ _
  have hfg : f = g := by
    rcases List.prefix_or_prefix_of_prefix hf hg with hle | hle
    · exact h f g hle
    · exact (h g f hle).symm
  subst hfg
  exact ⟨rfl, List.append_cancel_left heq⟩

/-- **Fields end**: a field of fixed length is read back. -/
theorem toList_append_inj {n : ℕ} {v w : Vector α n} {a b : List α}
    (h : v.toList ++ a = w.toList ++ b) : v = w ∧ a = b := by
  obtain ⟨hv, hab⟩ := List.append_inj h (by simp)
  exact ⟨Vector.toList_inj.mp hv, hab⟩

/-- A number is read back from its bytes. -/
lemma leNat_leBytes (n v : ℕ) : leNat (leBytes n v) = v % 256 ^ n := by
  induction n generalizing v with
  | zero => simp [leBytes, leNat, Nat.mod_one]
  | succ n ih =>
    have hbyte : (UInt8.ofNat (v % 256)).toNat = v % 256 := by
      rw [UInt8.toNat_ofNat']
      omega
    have hrest : Nat.ofDigits 256 ((leBytes n (v / 256)).map UInt8.toNat) = v / 256 % 256 ^ n :=
      ih (v / 256)
    rw [leBytes, leNat, List.map_cons, Nat.ofDigits_cons, hbyte, hrest, Nat.pow_succ', Nat.mod_mul]

lemma leBytes_inj {n v w : ℕ} (hv : v < 256 ^ n) (hw : w < 256 ^ n) (h : leBytes n v = leBytes n w) :
    v = w := by
  have hnat := congrArg leNat h
  rwa [leNat_leBytes, leNat_leBytes, Nat.mod_eq_of_lt hv, Nat.mod_eq_of_lt hw] at hnat

lemma toLe_inj {n v w : ℕ} (hv : v < 256 ^ n) (hw : w < 256 ^ n) (h : toLe n v = toLe n w) :
    v = w := by
  refine leBytes_inj hv hw ?_
  have := congrArg Vector.toList h
  simpa [toLe, Vector.toList] using this

/-! ### Fields of one length, one after the other -/

lemma slice_flatMap {n : ℕ} {vs : List (Bytes n)} {i : ℕ} (h : i < vs.length) (d : List UInt8) :
    slice n (vs.flatMap Vector.toList ++ d) (i * n) = vs[i] := by
  induction vs generalizing i with
  | nil => simp at h
  | cons v vs ih =>
    rw [List.flatMap_cons, List.append_assoc]
    cases i with
    | zero =>
      rw [Nat.zero_mul]
      exact slice_toList_append ..
    | succ i =>
      have hoff : (i + 1) * n = v.toList.length + i * n := by
        rw [Vector.length_toList, Nat.succ_mul, Nat.add_comm]
      rw [hoff, slice_append]
      exact ih (by simpa using h)

lemma length_flatMap {n : ℕ} (vs : List (Bytes n)) :
    (vs.flatMap Vector.toList).length = vs.length * n := by
  induction vs with
  | nil => simp
  | cons v vs ih =>
    rw [List.flatMap_cons, List.length_append, ih, Vector.length_toList, List.length_cons,
      Nat.succ_mul, Nat.add_comm]

/-! ### Pieces that end by themselves -/

/-- Among the values with `P` the encoding of one ends before whatever follows it. -/
def Delimited (P : F → Prop) (enc : F → List α) : Prop :=
  ∀ ⦃f g : F⦄ ⦃a b : List α⦄, P f → P g → enc f ++ a = enc g ++ b → f = g ∧ a = b

section Delimited

variable {P : F → Prop} {enc : F → List α}

lemma Delimited.inj (h : Delimited P enc) {f g : F} (hf : P f) (hg : P g) (heq : enc f = enc g) :
    f = g := (h hf hg (congrArg (· ++ []) heq)).1

lemma delimited_toList {n : ℕ} : Delimited (fun _ : Vector α n => True) Vector.toList :=
  fun _ _ _ _ _ _ => toList_append_inj

lemma delimited_leBytes (n : ℕ) : Delimited (fun v => v < 256 ^ n) (leBytes n) := by
  intro v w a b hv hw h
  obtain ⟨hvw, hab⟩ := List.append_inj h (by simp)
  exact ⟨leBytes_inj hv hw hvw, hab⟩

/-- **Size and content**: a string behind its own length ends by itself if the length does. -/
theorem Delimited.sized {Q : ℕ → Prop} {size : ℕ → List α} (h : Delimited Q size) :
    Delimited (fun l : List α => Q l.length) fun l => size l.length ++ l := by
  intro l m a b hl hm heq
  rw [List.append_assoc, List.append_assoc] at heq
  obtain ⟨hlen, hrest⟩ := h hl hm heq
  exact List.append_inj hrest hlen

/-- **Pieces in a row**: as many pieces on both sides, and what follows them. -/
theorem Delimited.flatMap_append_inj (h : Delimited P enc) {fs gs : List F} {a b : List α}
    (hlen : fs.length = gs.length) (hfs : ∀ f ∈ fs, P f) (hgs : ∀ g ∈ gs, P g)
    (heq : fs.flatMap enc ++ a = gs.flatMap enc ++ b) : fs = gs ∧ a = b := by
  induction fs generalizing gs with
  | nil =>
    obtain rfl := List.length_eq_zero_iff.mp hlen.symm
    exact ⟨rfl, heq⟩
  | cons f fs ih =>
    cases gs with
    | nil => exact absurd hlen (by simp)
    | cons g gs =>
      rw [List.flatMap_cons, List.flatMap_cons, List.append_assoc, List.append_assoc] at heq
      obtain ⟨rfl, hrest⟩ := h (hfs f List.mem_cons_self) (hgs g List.mem_cons_self) heq
      obtain ⟨rfl, hab⟩ := ih (Nat.succ.inj hlen) (fun f hf => hfs f (List.mem_cons_of_mem _ hf))
        (fun g hg => hgs g (List.mem_cons_of_mem _ hg)) hrest
      exact ⟨rfl, hab⟩

/-- **Pieces to the end**: pieces that are not empty, and nothing behind them. -/
theorem Delimited.flatMap_inj (h : Delimited P enc) (hne : ∀ f, enc f ≠ []) {fs gs : List F}
    (hfs : ∀ f ∈ fs, P f) (hgs : ∀ g ∈ gs, P g) (heq : fs.flatMap enc = gs.flatMap enc) :
    fs = gs := by
  induction fs generalizing gs with
  | nil =>
    cases gs with
    | nil => rfl
    | cons g gs =>
      rw [List.flatMap_nil, List.flatMap_cons, List.nil_eq_append_iff] at heq
      exact absurd heq.1 (hne g)
  | cons f fs ih =>
    cases gs with
    | nil =>
      rw [List.flatMap_nil, List.flatMap_cons, List.append_eq_nil_iff] at heq
      exact absurd heq.1 (hne f)
    | cons g gs =>
      rw [List.flatMap_cons, List.flatMap_cons] at heq
      obtain ⟨rfl, hrest⟩ := h (hfs f List.mem_cons_self) (hgs g List.mem_cons_self) heq
      rw [ih (fun f hf => hfs f (List.mem_cons_of_mem _ hf))
        (fun g hg => hgs g (List.mem_cons_of_mem _ hg)) hrest]

end Delimited

end Utxopia.Encoding
