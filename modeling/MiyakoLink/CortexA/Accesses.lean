import MiyakoLink.CortexA.Breakpoints

/-!
# What the memory accesses of a Cortex-A breakpoint do

A store puts the bytes before an abort to memory; `stored` is how many these are. `setSoft_eq` and
`clearSoft_eq` say what the driver's functions do for a software breakpoint, whatever aborts.
-/

namespace MiyakoLink.CortexA

open Lib

/-- How many bytes a store by bytes gets to memory before one aborts. -/
def storedBytes (bus : Bus) : UInt32 → Nat → Nat
  | _, 0 => 0
  | dest, n + 1 => if bus.storeAborts dest then 0 else storedBytes bus (dest + 1) n + 1

/-- How many bytes a store by words gets to memory before one aborts. -/
def storedWords (bus : Bus) : UInt32 → Nat → Nat
  | _, 0 => 0
  | dest, n + 1 => if bus.storeAborts dest then 0 else storedWords bus (dest + 4) n + 4

/-- How many of `n` bytes a store gets to memory. -/
def stored (bus : Bus) (dest : UInt32) (n : Nat) : Nat :=
  if dest &&& 3 ≠ 0 ∨ n % 4 ≠ 0 then storedBytes bus dest n else storedWords bus dest (n / 4)

/-- Whether a load of `n` bytes aborts. -/
def loadAborts (bus : Bus) (src : UInt32) (n : Nat) : Bool :=
  bus.loadAborts (src &&& ~~~3) ((n + (src &&& 3).toNat + 3) / 4)

variable {bus : Bus} {t : BreakTarget}

@[simp] theorem leBytes_length (v : UInt32) (n : Nat) : (leBytes v n).length = n := by
  rw [leBytes, List.length_map, List.length_range]

theorem leBytes_ofLanes {n : Nat} (h : n ≤ 4) (f : Nat → UInt8) :
    leBytes (ofLanes fun k => if k < n then f k else 0) n = (List.range n).map f := by
  apply List.map_congr_left
  intro k hk
  rw [List.mem_range] at hk
  rw [lane_ofLanes _ (by omega), if_pos hk]

/-- An address is the word it is in and its offset there. -/
theorem word_add_offset (a : UInt32) : (a &&& ~~~3) + (a &&& 3) = a := by
  apply UInt32.toBitVec_inj.mp
  show (a.toBitVec &&& ~~~3#32) + (a.toBitVec &&& 3#32) = a.toBitVec
  rw [BitVec.add_eq_or_of_and_eq_zero]
  · ext i hi
    simp only [BitVec.getElem_or, BitVec.getElem_and, BitVec.getElem_not]
    cases a.toBitVec[i] <;> simp
  · ext i hi
    simp only [BitVec.getElem_and, BitVec.getElem_not]
    cases a.toBitVec[i] <;> simp

theorem cortexaSlowMemRead_eq (src : UInt32) (n : Nat) : cortexaSlowMemRead bus t src n =
    if loadAborts bus src n then (bus.junk, { t with mmuFault := true })
    else (fun k => t.mem (src + UInt32.ofNat k), t) := by
  unfold cortexaSlowMemRead loadAborts
  dsimp only
  congr 2
  funext k
  rw [UInt32.ofNat_add, UInt32.ofNat_toNat, ← UInt32.add_assoc, word_add_offset]

theorem cortexaSlowMemWriteBytes_eq (dest : UInt32) {src : List UInt8} (h : src.length ≤ 2 ^ 32) :
    cortexaSlowMemWriteBytes bus t dest src = { t with
      mem := overlay t.mem dest (src.take (storedBytes bus dest src.length))
      mmuFault := t.mmuFault || decide (storedBytes bus dest src.length ≠ src.length) } := by
  induction src generalizing t dest with
  | nil => simp [cortexaSlowMemWriteBytes, storedBytes, overlay_nil]
  | cons b src ih =>
    rw [List.length_cons] at h ⊢
    rw [cortexaSlowMemWriteBytes, storedBytes]
    by_cases habort : bus.storeAborts dest
    · simp [habort, overlay_nil]
    · rw [if_neg habort, if_neg habort, ih _ (by omega), List.take_succ_cons,
        overlay_update t.mem dest b (by rw [List.length_take]; omega)]
      simp

theorem storeWords_eq (dest : UInt32) {src : List UInt8} (h : src.length ≤ 2 ^ 32)
    (hwords : src.length % 4 = 0) :
    storeWords bus t dest src = { t with
      mem := overlay t.mem dest (src.take (storedWords bus dest (src.length / 4)))
      mmuFault := t.mmuFault ||
        decide (storedWords bus dest (src.length / 4) ≠ src.length) } := by
  fun_induction storeWords bus t dest src with
  | case1 t dest b0 b1 b2 b3 src habort =>
    have hlen : (b0 :: b1 :: b2 :: b3 :: src).length / 4 = src.length / 4 + 1 := by
      simp only [List.length_cons]
      omega
    rw [hlen, storedWords, if_pos habort]
    simp [overlay_nil]
  | case2 t dest b0 b1 b2 b3 src habort ih =>
    have hlen : (b0 :: b1 :: b2 :: b3 :: src).length / 4 = src.length / 4 + 1 := by
      simp only [List.length_cons]
      omega
    simp only [List.length_cons] at h hwords
    rw [ih (by omega) (by omega), hlen, storedWords, if_neg habort]
    simp only [List.take_succ_cons, List.length_cons]
    rw [overlay_append (c := [b0, b1, b2, b3]) (n := 4) rfl (by simp; omega)]
    simp
  | case3 src t dest hshort =>
    have hnil : src = [] := by
      match src, hwords, hshort with
      | [], _, _ => rfl
      | [_], h, _ => simp at h
      | [_, _], h, _ => simp at h
      | [_, _, _], h, _ => simp at h
      | b0 :: b1 :: b2 :: b3 :: src, _, h => exact absurd rfl (h b0 b1 b2 b3 src)
    subst hnil
    simp [storedWords, overlay_nil]

/-- A store puts the bytes before an abort to memory. -/
theorem cortexaSlowMemWrite_eq (dest : UInt32) {src : List UInt8} (h : src.length ≤ 2 ^ 32) :
    cortexaSlowMemWrite bus t dest src = { t with
      mem := overlay t.mem dest (src.take (stored bus dest src.length))
      mmuFault := t.mmuFault || decide (stored bus dest src.length ≠ src.length) } := by
  unfold cortexaSlowMemWrite stored
  by_cases hnil : src.length = 0
  · rw [if_pos hnil, List.length_eq_zero_iff.mp hnil]
    simp [storedBytes, storedWords, overlay_nil]
  · rw [if_neg hnil]
    by_cases hbytes : dest &&& 3 ≠ 0 ∨ src.length % 4 ≠ 0
    · rw [if_pos hbytes, if_pos hbytes]
      exact cortexaSlowMemWriteBytes_eq dest h
    · rw [if_neg hbytes, if_neg hbytes]
      exact storeWords_eq dest h (by omega)

theorem targetMemRead_eq (bus : Bus) (t : BreakTarget) {n : Nat} (hn : n ≤ 4) (src : UInt32) :
    ∃ v, targetMemRead bus t n src =
        (v, { t with mmuFault := t.mmuFault || loadAborts bus src n }) ∧
      (loadAborts bus src n = false → leBytes v n = readBytes t.mem src n) := by
  unfold targetMemRead
  rw [cortexaSlowMemRead_eq]
  cases loadAborts bus src n with
  | true => exact ⟨ofLanes fun k => if k < n then bus.junk k else 0, by simp, nofun⟩
  | false => exact ⟨_, by simp, fun _ => leBytes_ofLanes hn _⟩

/-! ## Software breakpoints -/

/-- What `cortexa_breakwatch_set` does for a software breakpoint. -/
theorem setSoft_eq (bus : Bus) (t : BreakTarget) {n : Nat} (hn : n ≤ 4) (bw : Breakwatch)
    (instr : UInt32) :
    ∃ v, setSoft bus t bw n instr =
      (if t.mmuFault = false ∧ loadAborts bus bw.addr n = false ∧ stored bus bw.addr n = n
        then 0 else 1,
        { t with
          mem := overlay t.mem bw.addr ((leBytes instr n).take (stored bus bw.addr n))
          mmuFault := false },
        { bw with reserved := v }) ∧
      (loadAborts bus bw.addr n = false → leBytes v n = readBytes t.mem bw.addr n) := by
  obtain ⟨v, hread, hv⟩ := targetMemRead_eq bus t hn bw.addr
  refine ⟨v, ?_, hv⟩
  unfold setSoft targetMemWrite cortexaCheckError
  rw [hread]
  dsimp only
  rw [cortexaSlowMemWrite_eq _ (by rw [leBytes_length]; omega), leBytes_length]
  cases t.mmuFault <;> cases loadAborts bus bw.addr n <;>
    by_cases hstored : stored bus bw.addr n = n <;> simp [hstored]

theorem clearSoft_eq {n : Nat} (hn : n ≤ 4) (bw : Breakwatch) :
    clearSoft bus t bw n =
      (if t.mmuFault = false ∧ stored bus bw.addr n = n then 0 else 1,
        { t with
          mem := overlay t.mem bw.addr ((leBytes bw.reserved n).take (stored bus bw.addr n))
          mmuFault := false }) := by
  unfold clearSoft targetMemWrite cortexaCheckError
  rw [cortexaSlowMemWrite_eq _ (by rw [leBytes_length]; omega), leBytes_length]
  cases t.mmuFault <;> by_cases hstored : stored bus bw.addr n = n <;> simp [hstored]

end MiyakoLink.CortexA
