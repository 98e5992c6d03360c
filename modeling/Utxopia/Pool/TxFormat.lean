import Utxopia.Lib.Positional
import Utxopia.Pool.Bitcoin

/-!
The wire format of Bitcoin transactions.

A count or a length takes one, three, five or nine bytes, and nothing says that it takes no more than
it needs. What the reader accepts at an offset is the bytes of an input, an output or a body with some
choice of forms, and it accepts all of them.
-/

namespace Utxopia.Pool

open Utxopia.ByteString Utxopia.Encoding Utxopia.Positional

/-! ### Compact sizes -/

/-- How many bytes a number takes. -/
inductive CompactForm where
  | one
  | three
  | five
  | nine
  deriving DecidableEq

namespace CompactForm

/-- The numbers that a form can hold. -/
def Fits : CompactForm → ℕ → Prop
  | one, v => v ≤ 0xfc
  | three, v => v < 2 ^ 16
  | five, v => v < 2 ^ 32
  | nine, v => v < 2 ^ 64

instance (form : CompactForm) (v : ℕ) : Decidable (form.Fits v) := by
  cases form <;> unfold Fits <;> infer_instance

def encode : CompactForm → ℕ → List UInt8
  | one, v => [UInt8.ofNat v]
  | three, v => 0xfd :: leBytes 2 v
  | five, v => 0xfe :: leBytes 4 v
  | nine, v => 0xff :: leBytes 8 v

end CompactForm

/-- Bytes at an offset are what a slice reads there. -/
lemma leNat_slice_of_prefix {n off v : ℕ} {d : List UInt8} (h : leBytes n v <+: d.drop off)
    (hv : v < 256 ^ n) : leNat (slice n d off).toList = v := by
  obtain ⟨rest, hrest⟩ := h
  have htoLe : leBytes n v = (toLe n v).toList := by simp [toLe, Vector.toList]
  have hslice : slice n d off = toLe n v := by
    have hread := slice_toList_append (toLe n v) rest
    rwa [← htoLe, hrest] at hread
  rw [hslice, ← htoLe, leNat_leBytes, Nat.mod_eq_of_lt hv]

/-- A number of the right length spells the bytes. -/
lemma leBytes_leNat (l : List UInt8) : leBytes l.length (leNat l) = l := by
  refine leNat_inj (length_leBytes ..) ?_
  rw [leNat_leBytes, Nat.mod_eq_of_lt (leNat_lt l)]

/-- **A compact size is read back**, in any form. -/
lemma readVarint_encode {form : CompactForm} {v : ℕ} (hfit : form.Fits v) {d : List UInt8}
    (h : form.encode v <+: d) : readVarint d = some (v, (form.encode v).length) := by
  obtain ⟨rest, rfl⟩ := h
  cases form with
  | one =>
    have hv : v ≤ 0xfc := hfit
    have hbyte : (UInt8.ofNat v).toNat = v := by
      rw [UInt8.toNat_ofNat']
      omega
    simp [CompactForm.encode, readVarint, hbyte, hv]
  | three =>
    have hread : u16At (0xfd :: (leBytes 2 v ++ rest)) 1 = v :=
      leNat_slice_of_prefix ⟨rest, rfl⟩ hfit
    have hmarked : readVarint (0xfd :: (leBytes 2 v ++ rest)) =
        some (u16At (0xfd :: (leBytes 2 v ++ rest)) 1, 3) := by
      simp [readVarint]
    rw [hread] at hmarked
    simpa [CompactForm.encode] using hmarked
  | five =>
    have hread : u32At (0xfe :: (leBytes 4 v ++ rest)) 1 = v :=
      leNat_slice_of_prefix ⟨rest, rfl⟩ hfit
    have hmarked : readVarint (0xfe :: (leBytes 4 v ++ rest)) =
        some (u32At (0xfe :: (leBytes 4 v ++ rest)) 1, 5) := by
      simp [readVarint]
    rw [hread] at hmarked
    simpa [CompactForm.encode] using hmarked
  | nine =>
    have hread : u64At (0xff :: (leBytes 8 v ++ rest)) 1 = v :=
      leNat_slice_of_prefix ⟨rest, rfl⟩ hfit
    have hmarked : readVarint (0xff :: (leBytes 8 v ++ rest)) =
        some (u64At (0xff :: (leBytes 8 v ++ rest)) 1, 9) := by
      simp [readVarint]
    rw [hread] at hmarked
    simpa [CompactForm.encode] using hmarked

/-- The number behind a marker is read from the bytes that it takes. -/
lemma marked_prefix {b : UInt8} {t : List UInt8} {n : ℕ} (hlen : n ≤ t.length) :
    b :: leBytes n (leNat (slice n (b :: t) 1).toList) <+: b :: t := by
  have hbytes : (slice n (b :: t) 1).toList = t.take n :=
    toList_slice (by simp only [List.length_cons]; omega)
  have htake : (t.take n).length = n := by
    rw [List.length_take]
    omega
  have hback : leBytes n (leNat (t.take n)) = t.take n := by
    have := leBytes_leNat (t.take n)
    rwa [htake] at this
  rw [hbytes, hback]
  exact List.cons_prefix_cons.mpr ⟨rfl, List.take_prefix n t⟩

lemma leNat_slice_lt (n off : ℕ) (d : List UInt8) : leNat (slice n d off).toList < 256 ^ n := by
  have := leNat_lt (slice n d off).toList
  rwa [Vector.length_toList] at this

/-- **What is read is a compact size** in some form. -/
lemma exists_form {d : List UInt8} {v n : ℕ} (h : readVarint d = some (v, n)) : ∃ form : CompactForm,
    form.Fits v ∧ form.encode v <+: d ∧ (form.encode v).length = n := by
  unfold readVarint at h
  split at h
  · exact absurd h (by simp)
  · rename_i b t
    split_ifs at h with h1 h2 h3 h4 h5 h6
    · obtain ⟨rfl, rfl⟩ := Prod.mk.inj (Option.some_inj.mp h)
      refine ⟨.one, h1, ?_, rfl⟩
      rw [CompactForm.encode, UInt8.ofNat_toNat]
      exact List.cons_prefix_cons.mpr ⟨rfl, List.nil_prefix⟩
    · obtain ⟨rfl, rfl⟩ := Prod.mk.inj (Option.some_inj.mp h)
      obtain rfl : b = 0xfd := UInt8.toNat_inj.mp h2
      exact ⟨.three, leNat_slice_lt 2 1 _, marked_prefix (by simp only [List.length_cons] at h3; omega),
        by simp [CompactForm.encode]⟩
    · obtain ⟨rfl, rfl⟩ := Prod.mk.inj (Option.some_inj.mp h)
      obtain rfl : b = 0xfe := UInt8.toNat_inj.mp h4
      exact ⟨.five, leNat_slice_lt 4 1 _, marked_prefix (by simp only [List.length_cons] at h5; omega),
        by simp [CompactForm.encode]⟩
    · obtain ⟨rfl, rfl⟩ := Prod.mk.inj (Option.some_inj.mp h)
      obtain rfl : b = 0xff := by
        have hlt := UInt8.toNat_lt b
        exact UInt8.toNat_inj.mp (show b.toNat = 255 by omega)
      exact ⟨.nine, leNat_slice_lt 8 1 _, marked_prefix (by simp only [List.length_cons] at h6; omega),
        by simp [CompactForm.encode]⟩

/-! ### Bytes at an offset -/

variable {d : List UInt8} {off : ℕ}

lemma append_prefix_drop {p q : List UInt8} :
    p ++ q <+: d.drop off ↔ p <+: d.drop off ∧ q <+: d.drop (off + p.length) := by
  constructor
  · rintro ⟨rest, hrest⟩
    refine ⟨⟨q ++ rest, by rw [← hrest, List.append_assoc]⟩, rest, ?_⟩
    rw [← List.drop_drop, ← hrest, List.append_assoc, List.drop_left]
  · rintro ⟨⟨r, hr⟩, t, ht⟩
    refine ⟨t, ?_⟩
    rw [← List.drop_drop, ← hr, List.drop_left] at ht
    rw [List.append_assoc, ht, hr]

lemma length_of_prefix {p : List UInt8} (h : p <+: d.drop off) (hp : p ≠ []) :
    off + p.length ≤ d.length := by
  have hle := h.length_le
  have hpos := List.length_pos_iff.mpr hp
  rw [List.length_drop] at hle
  omega

lemma toList_prefix_iff {n : ℕ} {v : Bytes n} (hn : 0 < n) :
    v.toList <+: d.drop off ↔ off + n ≤ d.length ∧ slice n d off = v := by
  constructor
  · intro h
    have hne : v.toList ≠ [] := List.length_pos_iff.mp (by rwa [Vector.length_toList])
    have hlen := length_of_prefix h hne
    obtain ⟨rest, hrest⟩ := h
    rw [Vector.length_toList] at hlen
    have hread := slice_toList_append v rest
    rw [hrest] at hread
    exact ⟨hlen, hread⟩
  · rintro ⟨hlen, rfl⟩
    rw [toList_slice hlen]
    exact List.take_prefix ..

lemma leBytes_prefix_iff {n v : ℕ} (hn : 0 < n) (hv : v < 256 ^ n) :
    leBytes n v <+: d.drop off ↔ off + n ≤ d.length ∧ leNat (slice n d off).toList = v := by
  have htoLe : leBytes n v = (toLe n v).toList := by simp [toLe, Vector.toList]
  constructor
  · intro h
    refine ⟨?_, leNat_slice_of_prefix h hv⟩
    rw [htoLe] at h
    exact ((toList_prefix_iff hn).mp h).1
  · rintro ⟨hlen, rfl⟩
    have hback := leBytes_leNat (slice n d off).toList
    rw [Vector.length_toList] at hback
    rw [hback, toList_slice hlen]
    exact List.take_prefix ..

lemma encode_ne_nil (form : CompactForm) (v : ℕ) : form.encode v ≠ [] := by
  cases form <;> simp [CompactForm.encode]

/-! ### Inputs, outputs and bodies -/

/-- An input as it is written. -/
structure WrittenInput where
  input : TxInput
  script : List UInt8
  form : CompactForm
  sequence : Bytes 4
  voutFits : input.prevVout < 2 ^ 32
  scriptFits : form.Fits script.length

def WrittenInput.bytes (f : WrittenInput) : List UInt8 :=
  f.input.prevTxid.toList ++ (leBytes 4 f.input.prevVout ++
    (f.form.encode f.script.length ++ (f.script ++ f.sequence.toList)))

/-- An output as it is written. -/
structure WrittenOutput where
  output : TxOutput
  form : CompactForm
  valueFits : output.value < 2 ^ 64
  scriptFits : form.Fits output.scriptPubkey.length

def WrittenOutput.bytes (f : WrittenOutput) : List UInt8 :=
  leBytes 8 f.output.value ++ (f.form.encode f.output.scriptPubkey.length ++ f.output.scriptPubkey)

lemma WrittenInput.length_bytes (f : WrittenInput) :
    f.bytes.length = 36 + (f.form.encode f.script.length).length + f.script.length + 4 := by
  simp only [bytes, List.length_append, Vector.length_toList, length_leBytes]
  omega

lemma WrittenOutput.length_bytes (f : WrittenOutput) : f.bytes.length =
    8 + (f.form.encode f.output.scriptPubkey.length).length + f.output.scriptPubkey.length := by
  simp only [bytes, List.length_append, length_leBytes]
  omega

/-- **An input is read exactly where one is written.** -/
lemma readInput_iff {i : TxInput} {e : ℕ} : readInput d off = some (i, e) ↔
    ∃ f : WrittenInput, f.input = i ∧ f.bytes <+: d.drop off ∧ off + f.bytes.length = e := by
  simp only [readInput, Option.bind_eq_bind, Option.bind_eq_some_iff, Option.guard_eq_some', exists_const,
    Option.pure_def, Option.some_inj, Prod.exists, Prod.mk.injEq]
  constructor
  · rintro ⟨hlen, scriptLen, size, hvar, hnext, rfl, rfl⟩
    obtain ⟨form, hfit, hprefix, hsize⟩ := exists_form hvar
    have hscript : ((d.drop (off + 36 + size)).take scriptLen).length = scriptLen := by
      rw [List.length_take, List.length_drop]
      omega
    refine ⟨⟨⟨slice 32 d off, u32At d (off + 32)⟩, (d.drop (off + 36 + size)).take scriptLen, form,
      slice 4 d (off + 36 + size + scriptLen), u32At_lt .., hscript.symm ▸ hfit⟩, rfl, ?_, ?_⟩
    · rw [WrittenInput.bytes]
      dsimp only
      rw [hscript, append_prefix_drop, append_prefix_drop, append_prefix_drop, append_prefix_drop,
        Vector.length_toList, length_leBytes, hsize, hscript]
      exact ⟨(toList_prefix_iff (by decide)).mpr ⟨by omega, rfl⟩,
        (leBytes_prefix_iff (by decide) (u32At_lt ..)).mpr ⟨by omega, rfl⟩, hprefix, List.take_prefix ..,
        (toList_prefix_iff (by decide)).mpr ⟨hnext, rfl⟩⟩
    · rw [WrittenInput.length_bytes]
      dsimp only
      rw [hscript, hsize]
      omega
  · rintro ⟨f, rfl, hprefix, rfl⟩
    rw [f.length_bytes]
    rw [WrittenInput.bytes, append_prefix_drop, append_prefix_drop, append_prefix_drop, append_prefix_drop,
      Vector.length_toList, length_leBytes] at hprefix
    obtain ⟨htxid, hvout, hform, -, hseq⟩ := hprefix
    obtain ⟨-, htxid⟩ := (toList_prefix_iff (by decide)).mp htxid
    obtain ⟨hlen, hvout⟩ := (leBytes_prefix_iff (by decide) f.voutFits).mp hvout
    obtain ⟨hnext, -⟩ := (toList_prefix_iff (by decide)).mp hseq
    exact ⟨by omega, _, _, readVarint_encode f.scriptFits hform, by omega, by rw [htxid, u32At, hvout], by omega⟩

/-- **An output is read exactly where one is written.** -/
lemma readOutput_iff {o : TxOutput} {e : ℕ} : readOutput d off = some (o, e) ↔
    ∃ f : WrittenOutput, f.output = o ∧ f.bytes <+: d.drop off ∧ off + f.bytes.length = e := by
  simp only [readOutput, Option.bind_eq_bind, Option.bind_eq_some_iff, Option.guard_eq_some', exists_const,
    Option.pure_def, Option.some_inj, Prod.exists, Prod.mk.injEq]
  constructor
  · rintro ⟨hlen, scriptLen, size, hvar, hnext, rfl, rfl⟩
    obtain ⟨form, hfit, hprefix, hsize⟩ := exists_form hvar
    have hscript : ((d.drop (off + 8 + size)).take scriptLen).length = scriptLen := by
      rw [List.length_take, List.length_drop]
      omega
    refine ⟨⟨⟨u64At d off, (d.drop (off + 8 + size)).take scriptLen⟩, form, u64At_lt ..,
      hscript.symm ▸ hfit⟩, rfl, ?_, ?_⟩
    · rw [WrittenOutput.bytes]
      dsimp only
      rw [hscript, append_prefix_drop, append_prefix_drop, length_leBytes, hsize]
      exact ⟨(leBytes_prefix_iff (by decide) (u64At_lt ..)).mpr ⟨by omega, rfl⟩, hprefix,
        List.take_prefix ..⟩
    · rw [WrittenOutput.length_bytes]
      dsimp only
      rw [hscript, hsize]
      omega
  · rintro ⟨f, rfl, hprefix, rfl⟩
    have hwhole := length_of_prefix hprefix (by simp [WrittenOutput.bytes, encode_ne_nil])
    rw [f.length_bytes] at hwhole ⊢
    rw [WrittenOutput.bytes, append_prefix_drop, append_prefix_drop, length_leBytes] at hprefix
    obtain ⟨hvalue, hform, hscript⟩ := hprefix
    obtain ⟨hlen, hvalue⟩ := (leBytes_prefix_iff (by decide) f.valueFits).mp hvalue
    have hread : (d.drop (off + 8 + (f.form.encode f.output.scriptPubkey.length).length)).take
        f.output.scriptPubkey.length = f.output.scriptPubkey :=
      (List.prefix_iff_eq_take.mp hscript).symm
    exact ⟨by omega, _, _, readVarint_encode f.scriptFits hform, by omega, by rw [u64At, hvalue, hread], by omega⟩

/-- **A list of items is read exactly where one is written**, if each item is. -/
lemma readMany_iff {α β : Type} {item : ℕ → Option (α × ℕ)} {val : β → α} {bytes : β → List UInt8}
    (hitem : ∀ {off a e}, item off = some (a, e) ↔
      ∃ f, val f = a ∧ bytes f <+: d.drop off ∧ off + (bytes f).length = e)
    {n e : ℕ} {as : List α} : readMany item n off = some (as, e) ↔
      ∃ fs : List β, fs.map val = as ∧ fs.length = n ∧ fs.flatMap bytes <+: d.drop off ∧
        off + (fs.flatMap bytes).length = e := by
  induction n generalizing off as with
  | zero =>
    simp only [readMany, Option.some_inj, Prod.mk.injEq, List.length_eq_zero_iff]
    constructor
    · rintro ⟨rfl, rfl⟩
      exact ⟨[], rfl, rfl, List.nil_prefix, rfl⟩
    · rintro ⟨fs, rfl, rfl, -, rfl⟩
      exact ⟨rfl, rfl⟩
  | succ n ih =>
    simp only [readMany, Option.bind_eq_bind, Option.bind_eq_some_iff, Option.pure_def, Option.some_inj,
      Prod.exists, Prod.mk.injEq]
    constructor
    · rintro ⟨a, off', ha, as', e', has, rfl, rfl⟩
      obtain ⟨f, rfl, hf, rfl⟩ := hitem.mp ha
      obtain ⟨fs, rfl, rfl, hfs, rfl⟩ := ih.mp has
      refine ⟨f :: fs, rfl, rfl, ?_, ?_⟩
      · rw [List.flatMap_cons, append_prefix_drop]
        exact ⟨hf, hfs⟩
      · rw [List.flatMap_cons, List.length_append, Nat.add_assoc]
    · rintro ⟨fs, rfl, hlen, hprefix, rfl⟩
      obtain ⟨f, fs, rfl⟩ := List.exists_cons_of_length_eq_add_one hlen
      rw [List.flatMap_cons, append_prefix_drop] at hprefix
      refine ⟨val f, _, hitem.mpr ⟨f, rfl, hprefix.1, rfl⟩, fs.map val, _,
        ih.mpr ⟨fs, rfl, by simpa using hlen, hprefix.2, ?_⟩, rfl, rfl⟩
      rw [List.flatMap_cons, List.length_append, Nat.add_assoc]

/-- The inputs and outputs of a transaction as they are written. -/
structure WrittenBody where
  inputs : List WrittenInput
  inputForm : CompactForm
  outputs : List WrittenOutput
  outputForm : CompactForm
  nonempty : inputs ≠ []
  inputsFit : inputForm.Fits inputs.length
  outputsFit : outputForm.Fits outputs.length

namespace WrittenBody

variable (b : WrittenBody)

def bytes : List UInt8 :=
  b.inputForm.encode b.inputs.length ++ (b.inputs.flatMap WrittenInput.bytes ++
    (b.outputForm.encode b.outputs.length ++ b.outputs.flatMap WrittenOutput.bytes))

def transaction : ParsedTransaction := ⟨b.inputs.map WrittenInput.input, b.outputs.map WrittenOutput.output⟩

end WrittenBody

/-- **A body is read exactly where one is written.** -/
theorem readBody_iff {tx : ParsedTransaction} {e : ℕ} : readBody d off = some (tx, e) ↔
    ∃ b : WrittenBody, b.transaction = tx ∧ b.bytes <+: d.drop off ∧ off + b.bytes.length = e := by
  simp only [readBody, Option.bind_eq_bind, Option.bind_eq_some_iff, Option.guard_eq_some', exists_const,
    Option.pure_def, Option.some_inj, Prod.exists, Prod.mk.injEq]
  constructor
  · rintro ⟨n, size, hn, hne, ins, off', hins, m, size', hm, outs, e', houts, rfl, rfl⟩
    obtain ⟨form, hfit, hform, rfl⟩ := exists_form hn
    obtain ⟨fs, rfl, rfl, hfs, rfl⟩ := (readMany_iff readInput_iff).mp hins
    obtain ⟨form', hfit', hform', rfl⟩ := exists_form hm
    obtain ⟨gs, rfl, rfl, hgs, rfl⟩ := (readMany_iff readOutput_iff).mp houts
    refine ⟨⟨fs, form, gs, form', fun h => hne (by simp [h]), hfit, hfit'⟩, rfl, ?_, ?_⟩
    · rw [WrittenBody.bytes, append_prefix_drop, append_prefix_drop, append_prefix_drop]
      exact ⟨hform, hfs, hform', hgs⟩
    · simp only [WrittenBody.bytes, List.length_append]
      omega
  · rintro ⟨b, rfl, hprefix, rfl⟩
    rw [WrittenBody.bytes, append_prefix_drop, append_prefix_drop, append_prefix_drop] at hprefix
    obtain ⟨hform, hins, hform', houts⟩ := hprefix
    refine ⟨_, _, readVarint_encode b.inputsFit hform, fun h => b.nonempty (List.length_eq_zero_iff.mp h),
      _, _, (readMany_iff readInput_iff).mpr ⟨b.inputs, rfl, rfl, hins, rfl⟩,
      _, _, readVarint_encode b.outputsFit hform',
      _, _, (readMany_iff readOutput_iff).mpr ⟨b.outputs, rfl, rfl, houts, rfl⟩, rfl, ?_⟩
    simp only [WrittenBody.bytes, List.length_append]
    omega

/-- A body does not begin with the marker of the witness format. -/
lemma WrittenBody.head_ne_zero (b : WrittenBody) (rest : List UInt8) :
    (b.bytes ++ rest).getD 0 0 ≠ 0 := by
  have hpos : b.inputs.length ≠ 0 := fun h => b.nonempty (List.length_eq_zero_iff.mp h)
  have hfit := b.inputsFit
  unfold WrittenBody.bytes
  cases hform : b.inputForm with
  | one =>
    rw [hform] at hfit
    have hle : b.inputs.length ≤ 0xfc := hfit
    intro hzero
    have hbyte : (UInt8.ofNat b.inputs.length).toNat = 0 := congrArg UInt8.toNat hzero
    rw [UInt8.toNat_ofNat'] at hbyte
    omega
  | three => exact (by decide : (0xfd : UInt8) ≠ 0)
  | five => exact (by decide : (0xfe : UInt8) ≠ 0)
  | nine => exact (by decide : (0xff : UInt8) ≠ 0)

lemma WrittenBody.length_bytes_ge (b : WrittenBody) : 41 ≤ b.bytes.length := by
  obtain ⟨f, fs, hf⟩ := List.exists_cons_of_ne_nil b.nonempty
  have hform := List.length_pos_iff.mpr (encode_ne_nil b.inputForm b.inputs.length)
  have hinput := f.length_bytes
  simp only [bytes, List.length_append, hf, List.flatMap_cons] at hform ⊢
  omega

/-- A transaction as it is written, without its witness. -/
structure WrittenTransaction where
  version : Bytes 4
  body : WrittenBody
  locktime : Bytes 4

namespace WrittenTransaction

variable (t : WrittenTransaction)

/-- Without marker, flag and witness, as the id is taken of it. -/
def stripped : List UInt8 := t.version.toList ++ (t.body.bytes ++ t.locktime.toList)

/-- With marker, flag and witness. -/
def segwit (witness : List UInt8) : List UInt8 :=
  t.version.toList ++ ([0x00, 0x01] ++ (t.body.bytes ++ (witness ++ t.locktime.toList)))

lemma length_stripped : t.stripped.length = t.body.bytes.length + 8 := by
  simp only [stripped, List.length_append, Vector.length_toList]
  omega

lemma length_segwit (witness : List UInt8) :
    (t.segwit witness).length = t.body.bytes.length + witness.length + 10 := by
  simp only [segwit, List.length_append, Vector.length_toList, List.length_cons, List.length_nil]
  omega

lemma isSegwit_stripped : isSegwit t.stripped = false := by
  have hhead := t.body.head_ne_zero t.locktime.toList
  have hbyte : t.stripped.getD 4 0 = (t.body.bytes ++ t.locktime.toList).getD 0 0 := by
    rw [stripped, List.getD_append_right _ _ _ _ (by simp), Vector.length_toList]
  unfold isSegwit
  rw [hbyte, decide_eq_false (fun h => hhead h.1)]

lemma isSegwit_segwit (witness : List UInt8) : isSegwit (t.segwit witness) = true := by
  have h4 : (t.segwit witness).getD 4 0 = 0x00 := by
    rw [segwit, List.getD_append_right _ _ _ _ (by simp), Vector.length_toList]
    rfl
  have h5 : (t.segwit witness).getD 5 0 = 0x01 := by
    rw [segwit, List.getD_append_right _ _ _ _ (by simp), Vector.length_toList]
    rfl
  unfold isSegwit
  rw [h4, h5]
  rfl

lemma body_stripped : t.body.bytes <+: t.stripped.drop 4 := by
  rw [stripped, List.drop_left' (by simp)]
  exact List.prefix_append ..

lemma body_segwit (witness : List UInt8) : t.body.bytes <+: (t.segwit witness).drop 6 := by
  have hsplit : t.segwit witness =
      (t.version.toList ++ [0x00, 0x01]) ++ (t.body.bytes ++ (witness ++ t.locktime.toList)) := by
    rw [segwit, List.append_assoc]
  rw [hsplit, List.drop_left' (by simp)]
  exact List.prefix_append ..

end WrittenTransaction

end Utxopia.Pool
