import Utxopia.Lib.While
import Utxopia.Pool.Tokens
import Utxopia.Pool.TxFormat

/-!
The extensions of a mint.

They follow the account one after the other, each with its type and the length of its value, and zeros
may follow the last one. A scan goes from header to header. It has to see all of them, since one that
takes fees or moves tokens away is enough to make the books of a vault wrong.
-/

namespace Utxopia.Pool

open Utxopia.ByteString Utxopia.While

variable {d rest : List UInt8} {off next extType len : ℕ}

/-! ### The scan as a loop -/

abbrev unsupportedExtensions : List ℕ := [extTransferFeeConfig, extPermanentDelegate, extTransferHook]

/-- What one pass does at an offset: it answers, or goes on behind the extension. -/
def scanPass (d : List UInt8) (off : ℕ) : Bool ⊕ ℕ :=
  if off + 4 ≤ d.length then
    if u16At d off = 0 then .inl false
    else if u16At d off ∈ unsupportedExtensions then .inl true
    else if off + 4 + u16At d (off + 2) ≤ d.length then .inr (off + 4 + u16At d (off + 2))
    else .inl true
  else .inl false

lemma scanExtensions_succ (d : List UInt8) (fuel off : ℕ) :
    scanExtensions d (fuel + 1) off = (scanPass d off).elim id (scanExtensions d fuel) := by
  simp only [scanExtensions, scanPass,
    apply_ite (Sum.elim id (scanExtensions d fuel)), Sum.elim_inl, Sum.elim_inr, id_eq]

/-- A pass that goes on goes forward, and not past the end. -/
lemma scanPass_next (h : scanPass d off = .inr next) : off < next ∧ next ≤ d.length := by
  unfold scanPass at h
  split_ifs at h with _ _ _ hfits
  obtain rfl := Sum.inr.inj h
  exact ⟨by omega, hfits⟩

/-- **The scan ends** on every byte string, with the answer of the program. -/
theorem scan_returns (d : List UInt8) : Returns (scanPass d) 166 (scanExtensions d d.length 166) := by
  rcases Nat.eq_zero_or_pos d.length with hempty | hpos
  · rw [hempty]
    exact .done (by rw [scanPass, if_neg (by omega), scanExtensions])
  · refine returns_of_measure (scanExtensions_succ d) (fun off => d.length - off) ?_ (by omega)
    intro off next hpass
    obtain ⟨hlt, hle⟩ := scanPass_next hpass
    omega

/-! ### Written extensions -/

/-- A type that is not the end mark, and a value whose length can be written. -/
structure MintExtension where
  extType : ℕ
  value : List UInt8
  type_ne_zero : extType ≠ 0
  type_lt : extType < 2 ^ 16
  length_lt : value.length < 2 ^ 16

def extensionHeader (extType len : ℕ) : List UInt8 := leBytes 2 extType ++ leBytes 2 len

namespace MintExtension

def bytes (e : MintExtension) : List UInt8 := extensionHeader e.extType e.value.length ++ e.value

/-- Transfer fees, a permanent delegate or a transfer hook. -/
def Unsupported (e : MintExtension) : Prop := e.extType ∈ unsupportedExtensions

instance (e : MintExtension) : Decidable e.Unsupported :=
  inferInstanceAs (Decidable (_ ∈ _))

end MintExtension

/-- A pass at a header. -/
lemma scanPass_header (hzero : extType ≠ 0) (htype : extType < 2 ^ 16) (hlen : len < 2 ^ 16)
    (h : d.drop off = extensionHeader extType len ++ rest) : scanPass d off =
      if extType ∈ unsupportedExtensions then .inl true
      else if len ≤ rest.length then .inr (off + 4 + len) else .inl true := by
  have hlength : d.length = off + 4 + rest.length := by
    have hdrop := congrArg List.length h
    simp only [extensionHeader, List.length_drop, List.length_append, length_leBytes] at hdrop
    omega
  have hfirst : u16At d off = extType := by
    refine leNat_slice_of_prefix ?_ htype
    rw [h, extensionHeader, List.append_assoc]
    exact List.prefix_append ..
  have hsecond : u16At d (off + 2) = len := by
    refine leNat_slice_of_prefix ?_ hlen
    rw [← List.drop_drop, h, extensionHeader, List.append_assoc, List.drop_left' (length_leBytes ..)]
    exact List.prefix_append ..
  unfold scanPass
  rw [if_pos (by omega), hfirst, hsecond, if_neg hzero]
  simp only [hlength, Nat.add_le_add_iff_left]

/-- A pass at an extension. -/
lemma scanPass_extension {e : MintExtension} (h : d.drop off = e.bytes ++ rest) : scanPass d off =
    if e.Unsupported then .inl true else .inr (off + e.bytes.length) := by
  rw [MintExtension.bytes, List.append_assoc] at h
  have hlen : off + e.bytes.length = off + 4 + e.value.length := by
    simp only [MintExtension.bytes, extensionHeader, List.length_append, length_leBytes]
    omega
  have hfits : e.value.length ≤ (e.value ++ rest).length := by
    rw [List.length_append]
    exact Nat.le_add_right ..
  rw [scanPass_header e.type_ne_zero e.type_lt e.length_lt h, hlen]
  simp only [if_pos hfits]
  rfl

/-- **Over a list**: the loop answers at the first one that is not supported, or it comes to what
follows the list. -/
theorem scan_extensions {es : List MintExtension} {answer : Bool}
    (h : d.drop off = es.flatMap MintExtension.bytes ++ rest)
    (hrest : Returns (scanPass d) (off + (es.flatMap MintExtension.bytes).length) answer) :
    Returns (scanPass d) off (es.any (fun e => e.Unsupported) || answer) := by
  induction es generalizing off with
  | nil => simpa using hrest
  | cons e es ih =>
    rw [List.flatMap_cons, List.append_assoc] at h
    rw [List.flatMap_cons, List.length_append, ← Nat.add_assoc] at hrest
    have hpass := scanPass_extension h
    by_cases hbad : e.Unsupported
    · rw [if_pos hbad] at hpass
      simpa [hbad] using Returns.done hpass
    · rw [if_neg hbad] at hpass
      have htail : d.drop (off + e.bytes.length) = es.flatMap MintExtension.bytes ++ rest := by
        rw [← List.drop_drop, h, List.drop_left]
      simpa [hbad] using Returns.next hpass (ih htail hrest)

/-- Zeros end the scan. -/
lemma scanPass_padding {n : ℕ} (h : d.drop off = List.replicate n 0) :
    scanPass d off = .inl false := by
  unfold scanPass
  by_cases hfits : off + 4 ≤ d.length
  · have hn : n = 2 + (n - 2) := by
      have hlen := congrArg List.length h
      rw [List.length_drop, List.length_replicate] at hlen
      omega
    have hzero : u16At d off = 0 := by
      refine leNat_slice_of_prefix (n := 2) ?_ (by decide)
      rw [h, hn, List.replicate_add]
      exact List.prefix_append ..
    rw [if_pos hfits, if_pos hzero]
  · rw [if_neg hfits]

/-! ### Mint accounts -/

lemma mint_iff {base : Bytes 166} (hbase : byteAt base.toList 165 = 1) {answer : Bool}
    (h : Returns (scanPass (base.toList ++ rest)) 166 answer) :
    mintHasUnsupportedPoolExtension (base.toList ++ rest) = answer := by
  have hlen : base.toList.length = 166 := by simp
  have htype : byteAt (base.toList ++ rest) 165 = 1 := by
    rw [byteAt, List.getD_append _ _ _ _ (by omega)]
    exact hbase
  unfold mintHasUnsupportedPoolExtension
  rw [if_neg (by rw [List.length_append]; omega)]
  exact h.unique (scan_returns _)

/-- **The filter of mints**: a mint is refused if and only if one of its extensions, wherever it is, is
not supported. An extension that says it is longer than what is left is refused. The scan ends on every
byte string. -/
theorem unsupported_iff :
    (∀ (base : Bytes 166) (es : List MintExtension) (padding : ℕ), byteAt base.toList 165 = 1 →
      (mintHasUnsupportedPoolExtension (base.toList ++
        (es.flatMap MintExtension.bytes ++ List.replicate padding 0)) = true ↔
          ∃ e ∈ es, e.Unsupported)) ∧
    (∀ (base : Bytes 166) (es : List MintExtension) (extType len : ℕ) (rest : List UInt8),
      byteAt base.toList 165 = 1 → extType ≠ 0 → extType < 2 ^ 16 → len < 2 ^ 16 →
      rest.length < len → mintHasUnsupportedPoolExtension (base.toList ++
        (es.flatMap MintExtension.bytes ++ (extensionHeader extType len ++ rest))) = true) ∧
    ∀ d : List UInt8, ∃ answer, Returns (scanPass d) 166 answer ∧ mintHasUnsupportedPoolExtension d =
      if d.length ≤ 165 ∨ byteAt d 165 ≠ 1 then false else answer := by
  have hdrop : ∀ (base : Bytes 166) (l : List UInt8), (base.toList ++ l).drop 166 = l :=
    fun base l => List.drop_left' (by simp)
  have hend : ∀ (base : Bytes 166) (l l' : List UInt8),
      (base.toList ++ (l ++ l')).drop (166 + l.length) = l' := by
    intro base l l'
    rw [← List.drop_drop, hdrop, List.drop_left]
  refine ⟨fun base es padding hbase => ?_, fun base es extType len rest hbase hzero htype hlen hlt => ?_,
    fun d => ⟨_, scan_returns d, rfl⟩⟩
  · have hpass := scanPass_padding (n := padding) (hend base (es.flatMap MintExtension.bytes) _)
    rw [mint_iff hbase (scan_extensions (hdrop base _) (.done hpass)), Bool.or_false]
    simp
  · have hpass := scanPass_header hzero htype hlen (hend base (es.flatMap MintExtension.bytes)
      (extensionHeader extType len ++ rest))
    rw [if_neg (not_le.mpr hlt), ite_self] at hpass
    rw [mint_iff hbase (scan_extensions (hdrop base _) (.done hpass)), Bool.or_true]

namespace Regtest

/-- A mint account with nothing set. -/
def mintBase : Bytes 166 := ofList 166 (List.replicate 165 0 ++ [1])

/-- An extension that is supported. -/
def metadataPointer : MintExtension := ⟨18, List.replicate 64 7, by decide, by decide, by simp⟩

def transferHook : MintExtension := ⟨extTransferHook, List.replicate 64 9, by decide, by decide, by simp⟩

end Regtest

open Regtest in
/-- A hook behind another extension, and the other extension alone. -/
theorem unsupported_iff_hooked :
    mintHasUnsupportedPoolExtension (mintBase.toList ++
      ([metadataPointer, transferHook].flatMap MintExtension.bytes ++ List.replicate 2 0)) = true ∧
    mintHasUnsupportedPoolExtension (mintBase.toList ++
      ([metadataPointer].flatMap MintExtension.bytes ++ List.replicate 2 0)) = false := by
  have hbase : byteAt mintBase.toList 165 = 1 := by decide +kernel
  refine ⟨(unsupported_iff.1 mintBase [metadataPointer, transferHook] 2 hbase).mpr
    ⟨transferHook, by simp, by decide⟩, ?_⟩
  rw [← Bool.not_eq_true, unsupported_iff.1 mintBase [metadataPointer] 2 hbase]
  rintro ⟨e, he, hbad⟩
  obtain rfl := List.mem_singleton.mp he
  exact absurd hbad (by decide)

end Utxopia.Pool
