import MiyakoLink.CortexA.Registers
import MiyakoLink.CortexM.Registers
import MiyakoLink.Gdb.Faithful

/-!
# The packets `p` and `P`

The two branches of `gdb_main_loop` on a Cortex-M or a Cortex-A. `Answers` is what a packet for a
register is to do: a register that the target has is the only one accessed, and no more is copied
than there is, and one that it has not is answered with `EFF` and nothing is accessed.

A Cortex-M answers for every number: its tables are left for the number `0xFFFFFFFF`, or for an
index behind their end. A Cortex-A refuses with `-1`, which `p` takes as a length.

* `answers_iff`: the packets that are answered as they are to be.

`none` is an access outside of a table or a buffer.
-/

namespace MiyakoLink.Gdb

open Lib CortexM CortexA

/-- The target behind `tc->cur_target`. -/
inductive RegisterSet where
  | m (t : RegisterTarget)
  | a (t : CacheTarget)

namespace RegisterSet

/-- The number of its registers. -/
def count : RegisterSet → Nat
  | m t => t.regCount
  | a _ => cacheCount

/-- The bytes that register `n` takes. -/
def width : RegisterSet → Nat → Nat
  | m _, _ => 4
  | a _, n => (cacheReg n).width

/-- `target_reg_read`. A Cortex-A takes the number as an `int`. -/
def targetRegRead (max : Nat) : RegisterSet → UInt32 → Option (Int × List UInt8 × RegisterSet)
  | m t, reg => do
    let (s, val, t) ← cortexmRegRead t reg max
    return (s, val, m t)
  | a t, reg => do
    let (s, val, t) ← cortexaRegRead t reg.toInt32.toInt (UInt32.ofNat max)
    return (s, val, a t)

/-- `target_reg_write`. -/
def targetRegWrite : RegisterSet → UInt32 → List UInt8 → Option (Int × RegisterSet)
  | m t, reg, data => do
    let (s, t) ← cortexmRegWrite t reg data
    return (s, m t)
  | a t, reg, data => do
    let (s, t) ← cortexaRegWrite t reg.toInt32.toInt data (UInt32.ofNat data.length)
    return (s, a t)

/-- Between `s` and `s'` register `n` is read, and nothing else is accessed. -/
def Reads (n : Nat) (bytes : List UInt8) : RegisterSet → RegisterSet → Prop
  | m t, m t' => ∃ num, t.regnums[n]? = some num ∧ bytes = wordBytes (t.core.regs num) ∧
    t'.fp = t.fp ∧ t'.core.regs = t.core.regs ∧
      t'.core.touches = t.core.touches ++ [.dcrsr num, .dcrdrRead]
  | a t, a t' => bytes = (List.range (cacheReg n).width).map (t.regCache (cacheReg n)) ∧
    t'.regCache = t.regCache ∧ t'.touches = t.touches ++ [cacheReg n]
  | _, _ => False

/-- Between `s` and `s'` the bytes are written to register `n`, and nothing else is accessed. -/
def Writes (n : Nat) (bytes : List UInt8) : RegisterSet → RegisterSet → Prop
  | m t, m t' => ∃ num, t.regnums[n]? = some num ∧ t'.fp = t.fp ∧
    wordBytes (t'.core.regs num) = bytes ∧ (∀ k ≠ num, t'.core.regs k = t.core.regs k) ∧
      t'.core.touches =
        t.core.touches ++ [.dcrdrWrite (t'.core.regs num), .dcrsr (dcrsrRegWnR ||| num)]
  | a t, a t' => (List.range (cacheReg n).width).map (t'.regCache (cacheReg n)) = bytes ∧
    (∀ k ≠ cacheReg n, t'.regCache k = t.regCache k) ∧ t'.touches = t.touches ++ [cacheReg n]
  | _, _ => False

end RegisterSet

open RegisterSet

/-- What follows in `p` when the number is known. `val` has eight bytes. -/
def answerRead (t : RegisterSet) (reg : UInt32) : Option (List UInt8 × RegisterSet) := do
  let (s, val, t) ← targetRegRead 8 t reg
  -- `size_t s`
  let s := UInt32.ofInt s
  if s > 0 then
    if s ≤ 8 then return (hexify (val.take s.toNat), t) else none
  else return (ascii "EFF", t)

/-- What follows in `P` when the number and the bytes are known. -/
def answerWrite (t : RegisterSet) (reg : UInt32) (val : List UInt8) :
    Option (List UInt8 × RegisterSet) := do
  let (ret, t) ← targetRegWrite t reg val
  return (if 0 < ret then ascii "OK" else ascii "EFF", t)

/-- The branches for `p` and `P`. -/
def singleRegister (t : RegisterSet) (r : Received) (v : Locals) :
    Option (List UInt8 × RegisterSet) :=
  match r.letter with
  | .p =>
    let assigned := sscanf [.char Letter.p.char, .hex] 0 (cstr r.pbuf)
    answerRead t (numberAt assigned 0 v.reg)
  | .P =>
    let assigned := sscanf [.char Letter.P.char, .hex, .char 0x3D, .count] 0 (cstr r.pbuf)
    let n := intAt assigned 1 v.offset
    answerWrite t (numberAt assigned 0 v.reg) (r.unhexify n (r.strlen n / 2))
  | _ => some ([], t)

/-- What a packet for a single register is to do. -/
def Answers (t : RegisterSet) (op : Operation) (answer : Option (List UInt8 × RegisterSet)) :
    Prop :=
  match op with
  | .regRead reg =>
    if reg.toNat < t.count then
      ∃ bytes t', answer = some (hexify bytes, t') ∧ Reads reg.toNat bytes t t' ∧ bytes.length ≤ 8
    else answer = some (ascii "EFF", t)
  | .regWrite reg data =>
    if reg.toNat < t.count ∧ t.width reg.toNat ≤ data.length then
      ∃ t', answer = some (ascii "OK", t') ∧
        Writes reg.toNat (data.take (t.width reg.toNat)) t t'
    else answer = some (ascii "EFF", t)
  | _ => False

/-- The register exists, or it is written on a Cortex-A or with less than a word. -/
def Answerable (t : RegisterSet) : Operation → Prop
  | .regRead reg => reg.toNat < t.count
  | .regWrite reg data => reg.toNat < t.count ∨ data.length < 4 ∨ ∃ t', t = .a t'
  | _ => False

/-! ## The answers -/

section
variable {t t' : RegisterSet} {reg : UInt32} {val data : List UInt8}

/-- A register of at most eight bytes is printed. -/
theorem answerRead_copied {k : Nat} (h : targetRegRead 8 t reg = some ((k : Int), val, t'))
    (hk : k = 4 ∨ k = 8) (hval : val.length = k) : answerRead t reg = some (hexify val, t') := by
  unfold answerRead
  rw [h]
  rcases hk with rfl | rfl
  · show some (hexify (val.take 4), t') = _
    rw [List.take_of_length_le (by omega)]
  · show some (hexify (val.take 8), t') = _
    rw [List.take_of_length_le (by omega)]

/-- A refusal is not one for `p`. -/
theorem answerRead_refused (h : targetRegRead 8 t reg = some (-1, val, t')) :
    answerRead t reg = none := by
  unfold answerRead
  rw [h]
  rfl

theorem answerRead_none (h : targetRegRead 8 t reg = none) : answerRead t reg = none := by
  unfold answerRead
  rw [h]
  rfl

theorem answerWrite_copied {k : Nat} (h : targetRegWrite t reg data = some ((k : Int), t'))
    (hk : 0 < k) : answerWrite t reg data = some (ascii "OK", t') := by
  have hpos : (0 : Int) < k := Int.natCast_pos.mpr hk
  unfold answerWrite
  rw [h]
  show some (if (0 : Int) < k then _ else _, t') = _
  rw [if_pos hpos]

theorem answerWrite_refused (h : targetRegWrite t reg data = some (-1, t')) :
    answerWrite t reg data = some (ascii "EFF", t') := by
  unfold answerWrite
  rw [h]
  rfl

theorem answerWrite_none (h : targetRegWrite t reg data = none) :
    answerWrite t reg data = none := by
  unfold answerWrite
  rw [h]
  rfl

end

/-! ## Cortex-M -/

section
variable {t : RegisterTarget} {reg num : UInt32} {data : List UInt8}

theorem targetRegRead_m (hnum : dcrsrRegnum t reg = some num) :
    targetRegRead 8 (.m t) reg = some (4, wordBytes (t.core.writeDcrsr num).readDcrdr.1,
      .m { t with core := (t.core.writeDcrsr num).readDcrdr.2 }) := by
  unfold targetRegRead
  dsimp only
  rw [cortexmRegRead_eq (by decide) hnum]
  rfl

theorem targetRegWrite_m (hdata : 4 ≤ data.length) (hnum : dcrsrRegnum t reg = some num) :
    targetRegWrite (.m t) reg data = some (4, .m { t with
      core := (t.core.writeDcrdr (wordOf data)).writeDcrsr (dcrsrRegWnR ||| num) }) := by
  unfold targetRegWrite
  dsimp only
  rw [cortexmRegWrite_eq hdata hnum]
  rfl

/-- The number of a register that the target has. -/
theorem regnum_inside (h : reg.toNat < t.regCount) :
    ∃ num, t.regnums[reg.toNat]? = some num ∧ dcrsrRegnum t reg = some num ∧ num ∈ t.regnums := by
  have hget := List.getElem?_eq_getElem h
  exact ⟨_, hget, (dcrsrRegnum_inside t h).trans hget, List.getElem_mem h⟩

theorem answerRead_m (h : reg.toNat < t.regCount) : ∃ bytes t',
    answerRead (.m t) reg = some (hexify bytes, t') ∧ Reads reg.toNat bytes (.m t) t' ∧
      bytes.length ≤ 8 := by
  obtain ⟨num, hget, hnum, hmem⟩ := regnum_inside h
  obtain ⟨hfield, hread, -, -⟩ := regnums_field t hmem
  have hanswer := answerRead_copied (k := 4) (targetRegRead_m hnum) (Or.inl rfl)
    (wordBytes_length _)
  rw [read_transfer hfield hread] at hanswer
  exact ⟨_, _, hanswer, ⟨num, hget, rfl, rfl, rfl, rfl⟩, Nat.le_of_lt (by decide : 4 < 8)⟩

theorem answerWrite_m (h : reg.toNat < t.regCount) (hdata : 4 ≤ data.length) : ∃ t',
    answerWrite (.m t) reg data = some (ascii "OK", t') ∧
      Writes reg.toNat (data.take 4) (.m t) t' := by
  obtain ⟨num, hget, hnum, hmem⟩ := regnum_inside h
  obtain ⟨-, -, hfield, hwrite⟩ := regnums_field t hmem
  have hanswer := answerWrite_copied (k := 4) (targetRegWrite_m hdata hnum) (by decide)
  rw [write_transfer _ hfield hwrite] at hanswer
  refine ⟨_, hanswer, num, hget, rfl, ?_, ?_, ?_⟩
  · show wordBytes (Function.update t.core.regs num (wordOf data) num) = _
    rw [Function.update_self]
    exact wordBytes_wordOf hdata
  · exact fun k hk => Function.update_of_ne hk ..
  · show _ = t.core.touches ++ [.dcrdrWrite (Function.update t.core.regs num (wordOf data) num), _]
    rw [Function.update_self]

theorem answerWrite_m_short (hdata : data.length < 4) :
    answerWrite (.m t) reg data = some (ascii "EFF", .m t) := by
  apply answerWrite_refused
  unfold targetRegWrite
  dsimp only
  rw [cortexmRegWrite_short hdata]
  rfl

/-- Outside of the set a Cortex-M does not refuse. -/
theorem answerRead_m_outside (h : t.regCount ≤ reg.toNat) :
    answerRead (.m t) reg ≠ some (ascii "EFF", .m t) := by
  intro heq
  rcases dcrsrRegnum_outside t h with hnone | hsome
  · have hread : targetRegRead 8 (.m t) reg = none := by
      unfold targetRegRead
      dsimp only
      rw [cortexmRegRead_none (by decide) hnone]
      rfl
    rw [answerRead_none hread] at heq
    contradiction
  · rw [answerRead_copied (k := 4) (targetRegRead_m hsome) (Or.inl rfl) (wordBytes_length _)] at heq
    -- The answer is a word.
    have hlength := congrArg List.length (Prod.mk.inj (Option.some.inj heq)).1
    have hword : ∀ v, (hexify (wordBytes v)).length = 8 := fun v => rfl
    rw [hword] at hlength
    exact absurd hlength (by decide)

theorem answerWrite_m_outside (h : t.regCount ≤ reg.toNat) (hdata : 4 ≤ data.length) :
    answerWrite (.m t) reg data ≠ some (ascii "EFF", .m t) := by
  intro heq
  rcases dcrsrRegnum_outside t h with hnone | hsome
  · have hwrite : targetRegWrite (.m t) reg data = none := by
      unfold targetRegWrite
      dsimp only
      rw [cortexmRegWrite_none hdata hnone]
      rfl
    rw [answerWrite_none hwrite] at heq
    contradiction
  · rw [answerWrite_copied (k := 4) (targetRegWrite_m hdata hsome) (by decide)] at heq
    exact absurd (Prod.mk.inj (Option.some.inj heq)).1 (by decide)

end

/-! ## Cortex-A -/

section
variable {t : CacheTarget} {reg : UInt32} {data : List UInt8}

/-- A number of the set is the same as an `int`, and another one is none of it. -/
theorem number_int (reg : UInt32) :
    (reg.toNat < cacheCount → reg.toInt32.toInt = (reg.toNat : Int)) ∧
      (cacheCount ≤ reg.toNat → reg.toInt32.toInt < 0 ∨ 34 ≤ reg.toInt32.toInt) := by
  have hint : reg.toInt32.toInt = if 2 * reg.toNat < 2 ^ 32 then (reg.toNat : Int)
      else (reg.toNat : Int) - (2 ^ 32 : Nat) := by
    show reg.toBitVec.toInt = _
    rw [BitVec.toInt_eq_toNat_cond]
    rfl
  have hlt := reg.toNat_lt
  have hcount : cacheCount = 34 := rfl
  constructor
  · intro h
    rw [hint, if_pos (by omega)]
  · intro h
    rw [hint]
    split
    · omega
    · omega

theorem answerRead_a (h : reg.toNat < cacheCount) : ∃ bytes t',
    answerRead (.a t) reg = some (hexify bytes, t') ∧ Reads reg.toNat bytes (.a t) t' ∧
      bytes.length ≤ 8 := by
  have hwidth := width_cases (cacheReg reg.toNat)
  have hle : (cacheReg reg.toNat).width ≤ 8 := by omega
  have hread : targetRegRead 8 (.a t) reg = some (((cacheReg reg.toNat).width : Int),
      (List.range (cacheReg reg.toNat).width).map (t.regCache (cacheReg reg.toNat)),
      .a { t with touches := t.touches ++ [cacheReg reg.toNat] }) := by
    unfold targetRegRead
    dsimp only
    have hmax : (cacheReg reg.toNat).width ≤ (UInt32.ofNat 8).toNat := hle
    rw [(number_int reg).1 h, cortexaRegRead_inside t h hmax]
    rfl
  have hlength : ((List.range (cacheReg reg.toNat).width).map
      (t.regCache (cacheReg reg.toNat))).length = (cacheReg reg.toNat).width := by
    rw [List.length_map, List.length_range]
  exact ⟨_, _, answerRead_copied hread hwidth hlength, ⟨rfl, rfl, rfl⟩,
    hlength.trans_le hle⟩

theorem answerRead_a_outside (h : cacheCount ≤ reg.toNat) : answerRead (.a t) reg = none := by
  have hread : targetRegRead 8 (.a t) reg = some (-1, [], .a t) := by
    unfold targetRegRead
    dsimp only
    rw [cortexaRegRead_outside t ((number_int reg).2 h) (by decide)]
    rfl
  exact answerRead_refused hread

theorem answerWrite_a (h : reg.toNat < cacheCount) (hfits : data.length < 2 ^ 32)
    (hdata : (cacheReg reg.toNat).width ≤ data.length) : ∃ t',
    answerWrite (.a t) reg data = some (ascii "OK", t') ∧
      Writes reg.toNat (data.take (cacheReg reg.toNat).width) (.a t) t' := by
  have hwidth := width_cases (cacheReg reg.toNat)
  have hsize : (UInt32.ofNat data.length).toNat = data.length := UInt32.toNat_ofNat_of_lt' hfits
  have hwrite : targetRegWrite (.a t) reg data = some (((cacheReg reg.toNat).width : Int),
      .a ⟨Function.update t.regCache (cacheReg reg.toNat) (fun k =>
        if k < (cacheReg reg.toNat).width then data.getD k 0
        else t.regCache (cacheReg reg.toNat) k), t.touches ++ [cacheReg reg.toNat]⟩) := by
    unfold targetRegWrite
    dsimp only
    rw [(number_int reg).1 h, cortexaRegWrite_inside t data h (by rw [hsize]; exact hdata)]
    rfl
  refine ⟨_, answerWrite_copied hwrite (by omega), ?_, ?_, rfl⟩
  · show (List.range _).map (Function.update t.regCache (cacheReg reg.toNat) _ _) = _
    rw [Function.update_self]
    apply List.ext_getElem
    · rw [List.length_map, List.length_range, List.length_take]
      omega
    · intro k hk hk'
      rw [List.length_map, List.length_range] at hk
      rw [List.getElem_map, List.getElem_range, if_pos hk, List.getElem_take,
        List.getD_eq_getElem _ _ (by omega)]
  · exact fun k hk => Function.update_of_ne hk ..

theorem answerWrite_a_refused (hfits : data.length < 2 ^ 32 - 1)
    (h : reg.toNat < cacheCount → data.length < (cacheReg reg.toNat).width) :
    answerWrite (.a t) reg data = some (ascii "EFF", .a t) := by
  have hsize : (UInt32.ofNat data.length).toNat = data.length :=
    UInt32.toNat_ofNat_of_lt' (Nat.lt_of_lt_of_le hfits (by decide))
  apply answerWrite_refused
  unfold targetRegWrite
  dsimp only
  by_cases hin : reg.toNat < cacheCount
  · rw [(number_int reg).1 hin, cortexaRegWrite_short t data hin (by rw [hsize]; exact h hin)]
    rfl
  · have hmax : UInt32.ofNat data.length < 0xFFFFFFFF := by
      apply UInt32.lt_iff_toNat_lt.mpr
      rw [hsize]
      exact hfits
    rw [cortexaRegWrite_outside t data ((number_int reg).2 (Nat.le_of_not_lt hin)) hmax]
    rfl

end

/-! ## The packets -/

/-- The number and the bytes of a packet. -/
theorem singleRegister_means {regsSize : Nat} (t : RegisterSet) {r : Received} (v : Locals)
    {op : Operation} (hmeans : Means regsSize r.letter r.body op)
    (hletter : r.letter = .p ∨ r.letter = .P) :
    (∃ reg, op = .regRead reg ∧ singleRegister t r v = answerRead t reg) ∨
      ∃ reg data, op = .regWrite reg data ∧ data.length < 2 ^ 32 - 1 ∧
        singleRegister t r v = answerWrite t reg data := by
  obtain ⟨letter, body, fits, behind, elsewhere, elsewhereLength⟩ := r
  -- Any target: what is asked for does not depend on it.
  let any : Target := ⟨regsSize, fun _ _ => none, fun _ _ => true, fun _ => [], fun _ _ => 0,
    fun _ _ _ => 0, fun _ _ _ => 0⟩
  rcases hletter with hp | hP
  · obtain rfl : letter = .p := hp
    cases hmeans with
    | p hn =>
      have hasked := readRegister_means (t := any) (v := v)
        (r := ⟨.p, body, fits, behind, elsewhere, elsewhereLength⟩) rfl hn
      refine Or.inl ⟨_, rfl, ?_⟩
      have hreg := Operation.regRead.inj (List.cons.inj hasked).1
      exact congrArg (answerRead t) hreg
  · obtain rfl : letter = .P := hP
    cases hmeans with
    | @P n d bytes hn hd hbytes =>
      have hasked := writeRegister_means (t := any) (v := v)
        (r := ⟨.P, n ++ 0x3D :: d, fits, behind, elsewhere, elsewhereLength⟩) rfl rfl hn hd
      refine Or.inr ⟨_, _, rfl, ?_, ?_⟩
      · have hlength := hexData_length hd
        have hfits : (n ++ 0x3D :: d).length < 1024 := fits
        rw [List.length_append, List.length_cons] at hfits
        omega
      · obtain ⟨hreg, hdata⟩ := Operation.regWrite.inj (List.cons.inj hasked).1
        exact congrArg₂ (answerWrite t) hreg hdata

/-- A packet for a single register is answered as it is to be, if and only if the target has the
register, or it is a write to a Cortex-A or one of less than a word. -/
theorem answers_iff {regsSize : Nat} (t : RegisterSet) (r : Received) (v : Locals) (op : Operation)
    (hmeans : Means regsSize r.letter r.body op) (hletter : r.letter = .p ∨ r.letter = .P) :
    Answers t op (singleRegister t r v) ↔ Answerable t op := by
  rcases singleRegister_means t v hmeans hletter with
    ⟨reg, rfl, hanswer⟩ | ⟨reg, data, rfl, hfits, hanswer⟩
  · rw [hanswer]
    unfold Answers Answerable
    dsimp only
    by_cases hin : reg.toNat < t.count
    · rw [if_pos hin]
      refine iff_of_true ?_ hin
      cases t with
      | m t => exact answerRead_m hin
      | a t => exact answerRead_a hin
    · rw [if_neg hin]
      refine iff_of_false ?_ hin
      have hout := Nat.le_of_not_lt hin
      cases t with
      | m t => exact answerRead_m_outside hout
      | a t =>
        rw [answerRead_a_outside hout]
        exact nofun
  · rw [hanswer]
    unfold Answers Answerable
    dsimp only
    cases t with
    | m t =>
      by_cases hshort : data.length < 4
      · rw [if_neg fun h => absurd h.2 (Nat.not_le.mpr hshort)]
        exact iff_of_true (answerWrite_m_short hshort) (Or.inr (Or.inl hshort))
      have hdata := Nat.le_of_not_lt hshort
      by_cases hin : reg.toNat < t.regCount
      · rw [if_pos ⟨hin, hdata⟩]
        exact iff_of_true (answerWrite_m hin hdata) (Or.inl hin)
      · rw [if_neg fun h => hin h.1]
        refine iff_of_false (answerWrite_m_outside (Nat.le_of_not_lt hin) hdata) ?_
        rintro (h | h | ⟨t', h⟩)
        · exact hin h
        · exact hshort h
        · contradiction
    | a t =>
      refine iff_of_true ?_ (Or.inr (Or.inr ⟨t, rfl⟩))
      split
      · rename_i hin
        exact answerWrite_a hin.1 (Nat.lt_of_lt_of_le hfits (by decide)) hin.2
      · rename_i hnot
        exact answerWrite_a_refused hfits fun hin => Nat.lt_of_not_le fun hle => hnot ⟨hin, hle⟩

/-- The register of the packet `pf`. -/
theorem means_pc : Means 80 Letter.p [0x66] (.regRead 15) :=
  .p ⟨⟨by decide, List.forall_mem_singleton.mpr (by decide)⟩, by decide⟩

/-- A Cortex-M without the extension for floating point. -/
def plainM : RegisterSet := .m ⟨false, ⟨fun n => n, 0, []⟩⟩

/-- The packet `pf`. -/
def pcPacket : Received := ⟨.p, [0x66], by decide, [], fun _ => 0, fun _ => 0⟩

/-- The packet `p14`, the number of the first register that is none of the set. -/
def behindPacket : Received := ⟨.p, [0x31, 0x34], by decide, [], fun _ => 0, fun _ => 0⟩

theorem answers_pc :
    Answers plainM (.regRead 15) (singleRegister plainM pcPacket ⟨0, 0, 0, 0, 0⟩) :=
  (answers_iff plainM pcPacket _ _ means_pc (Or.inl rfl)).mpr
    (show (15 : UInt32).toNat < plainM.count by decide)

/-- The register behind the last one is read. -/
theorem absent_answered :
    ¬∀ (t : RegisterSet) (r : Received) (v : Locals) (op : Operation),
      Means 80 r.letter r.body op → r.letter = .p ∨ r.letter = .P →
        Answers t op (singleRegister t r v) := by
  intro h
  have hmeans : Means 80 behindPacket.letter behindPacket.body (.regRead 20) :=
    .p ⟨⟨by decide, List.forall_mem_cons.mpr
      ⟨by decide, List.forall_mem_singleton.mpr (by decide)⟩⟩, by decide⟩
  have hanswer := h plainM behindPacket ⟨0, 0, 0, 0, 0⟩ _ hmeans (Or.inl rfl)
  unfold Answers at hanswer
  dsimp only at hanswer
  rw [if_neg (by decide)] at hanswer
  have hread : (singleRegister plainM behindPacket ⟨0, 0, 0, 0, 0⟩).map Prod.fst =
      some (hexify [0, 0, 0, 0]) := by decide
  rw [hanswer] at hread
  exact absurd hread (by decide)

end MiyakoLink.Gdb
