import MiyakoLink.Erase.Sectors

/-!
# The erase function of the KE04 parts

`ke04_command` waits for the controller, writes a command to FCCOB, starts it and waits for its
end, and `ke04_flash_erase` gives it one sector after the other until the length is used up.
-/

namespace MiyakoLink.Erase

open Flash Lib

/-- What the controller answers around the `k`th command: `FCLKDIV`, and `FSTAT` in the `i`th turn
of the three loops that wait for `CCIF`. -/
structure Ke04 where
  fclkdiv : Nat → UInt8
  beforeClock : Nat → Nat → UInt8
  beforeStart : Nat → Nat → UInt8
  behindStart : Nat → Nat → UInt8

/-- A write to a register of the controller; a start with the contents of FCCOB. -/
inductive FtmreWrite where
  | fclkdiv (val : UInt8)
  | clearErrors
  | fccob (ix : Nat) (val : UInt16)
  | start (fccob : List UInt16)
  deriving DecidableEq

abbrev fstatCcif : UInt8 := 0x80

/-- `ACCERR` and `FPVIOL`. -/
abbrev fstatErrors : UInt8 := 0x30

abbrev cmdProgramFlash32 : UInt8 := 0x00

abbrev cmdProgramFlash : UInt8 := 0x06

abbrev cmdEraseFlashSector : UInt8 := 0x0A

abbrev ke04SectorSize : UInt32 := 0x200

/-- Length in 16bit words of flash commands. -/
def cmdLen : List Nat := [4, 1, 2, 3, 6, 0, 6, 6, 1, 2, 2, 1, 5, 3, 3]

/-- What `ke04_command` writes to FCCOB. -/
def fccobWords (cmd : UInt8) (addr : UInt32) (data : List UInt16) : List UInt16 :=
  let addr := addr &&& 0x00FFFFFF
  let cmdL := cmdLen.getD cmd.toNat 0
  let cmd := if cmd = cmdProgramFlash32 then cmdProgramFlash else cmd
  let cmdV := cmd.toUInt16 <<< 8 ||| (addr >>> 16).toUInt16
  [cmdV] ++ (if cmdL ≥ 1 then [(addr &&& 0xFFFF).toUInt16] else []) ++ data.take (cmdL - 2)

/-- The sector that a write erases: the one of the address in FCCOB. -/
def FtmreWrite.erased : FtmreWrite → Option UInt32
  | .start (cmdV :: low :: _) =>
    if cmdV >>> 8 = cmdEraseFlashSector.toUInt16 then
      some ((cmdV &&& 0xFF).toUInt32 <<< 16 ||| low.toUInt32)
    else none
  | _ => none

namespace Ke04

variable (C : Ke04)

/-- A turn of a loop that waits for `CCIF` to be high. -/
def waitTurn (fstat : Nat → UInt8) (i : Nat) : Option Unit :=
  if fstat i &&& fstatCcif = 0 then none else some ()

/-- A turn of the loop that waits for execution to complete. -/
def turn (k i : Nat) : Option Bool :=
  if C.behindStart k i &&& fstatErrors ≠ 0 then some false
  else if C.behindStart k i &&& fstatCcif = 0 then none else some true

/-- `FCLKDIV` has to be set to 0x17 for 24MHz. -/
def setsClock (k : Nat) : Bool := C.fclkdiv k &&& 0x1F != 0x17

/-- `ke04_command`, which is the `k`th one. -/
def command (fuel k : Nat) (cmd : UInt8) (addr : UInt32) (data : List UInt16) :
    List FtmreWrite × Option Bool :=
  if C.setsClock k ∧ poll (waitTurn (C.beforeClock k)) fuel = none then ([], none)
  else
    let log := (if C.setsClock k then [.fclkdiv 0x17] else []) ++ [.clearErrors]
    if poll (waitTurn (C.beforeStart k)) fuel = none then (log, none)
    else
      let words := fccobWords cmd addr data
      (log ++ (words.mapIdx fun ix w => .fccob ix w) ++ [.start words], poll (C.turn k) fuel)

def eraseSector (fuel : Nat) (s : Nat × UInt32) : List FtmreWrite × Option Bool :=
  C.command fuel s.1 cmdEraseFlashSector s.2 []

/-- `ke04_flash_erase`: the writes, and the result if it has come back. -/
def flashErase (fuel : Nat) (addr len : UInt32) : List FtmreWrite × Option Ret :=
  let s := sweep (wrapping ke04SectorSize) (advance ke04SectorSize) (C.eraseSector fuel) fuel
    len (0, addr)
  (s.1, s.2.map fun ok => if ok then 0 else 1)

/-- The sectors it erases, and its result. -/
def run (addr len : UInt32) (fuel : Nat) : List Nat × Option Ret :=
  (((C.flashErase fuel addr len).1.filterMap FtmreWrite.erased).map (sectorOf 0 ke04SectorSize),
    (C.flashErase fuel addr len).2)

/-- The controller gets ready for the `k`th command, which ends in this way. -/
structure Outcome (k : Nat) (ok : Bool) : Prop where
  clock : C.setsClock k = true → Leaves (waitTurn (C.beforeClock k)) ()
  idle : Leaves (waitTurn (C.beforeStart k)) ()
  done : Leaves (C.turn k) ok

end Ke04

/-- The address of an erase command can be read back from FCCOB. -/
theorem erased_start {addr : UInt32} (h : addr.toNat < 2 ^ 24) :
    (FtmreWrite.start (fccobWords cmdEraseFlashSector addr [])).erased = some addr := by
  have htrim : addr &&& 0x00FFFFFF = addr := by
    apply UInt32.toNat_inj.mp
    rw [UInt32.toNat_and]
    exact (Nat.and_two_pow_sub_one_eq_mod addr.toNat 24).trans (Nat.mod_eq_of_lt h)
  have hhigh : (addr >>> 16).toNat = addr.toNat / 65536 := by
    rw [UInt32.toNat_shiftRight]
    exact Nat.shiftRight_eq_div_pow _ 16
  have hlow : (addr &&& 0xFFFF).toNat = addr.toNat % 65536 := by
    rw [UInt32.toNat_and]
    exact Nat.and_two_pow_sub_one_eq_mod addr.toNat 16
  have hcmd : (cmdEraseFlashSector.toUInt16 <<< 8 ||| (addr >>> 16).toUInt16).toNat =
      0x0A00 + addr.toNat / 65536 := by
    have hcut : ((addr >>> 16).toUInt16).toNat = addr.toNat / 65536 := by
      rw [UInt32.toNat_toUInt16, hhigh]
      omega
    rw [UInt16.toNat_or, hcut]
    exact (Nat.two_pow_add_eq_or_of_lt (i := 8) (show addr.toNat / 65536 < 2 ^ 8 by omega) 10).symm
  generalize hv : cmdEraseFlashSector.toUInt16 <<< 8 ||| (addr >>> 16).toUInt16 = cmdV at hcmd
  have hwords : fccobWords cmdEraseFlashSector addr [] = [cmdV, (addr &&& 0xFFFF).toUInt16] := by
    unfold fccobWords
    rw [htrim, ← hv]
    rfl
  have hcode : cmdV >>> 8 = cmdEraseFlashSector.toUInt16 := by
    apply UInt16.toNat_inj.mp
    rw [UInt16.toNat_shiftRight, hcmd]
    show (0x0A00 + addr.toNat / 65536) >>> 8 = 10
    rw [Nat.shiftRight_eq_div_pow]
    omega
  rw [hwords]
  show (if cmdV >>> 8 = _ then some _ else none) = some addr
  rw [if_pos hcode]
  congr 1
  apply UInt32.toNat_inj.mp
  have hbank : ((cmdV &&& 0xFF).toUInt32 <<< 16).toNat = 2 ^ 16 * (addr.toNat / 65536) := by
    have hand : (cmdV &&& 0xFF).toUInt32.toNat = addr.toNat / 65536 := by
      rw [UInt16.toNat_toUInt32, UInt16.toNat_and, hcmd]
      refine (Nat.and_two_pow_sub_one_eq_mod _ 8).trans ?_
      omega
    rw [UInt32.toNat_shiftLeft, hand]
    show (addr.toNat / 65536) <<< 16 % 2 ^ 32 = _
    rw [Nat.shiftLeft_eq]
    omega
  have hrest : ((addr &&& 0xFFFF).toUInt16.toUInt32).toNat = addr.toNat % 65536 := by
    rw [UInt16.toNat_toUInt32, UInt32.toNat_toUInt16, hlow]
    omega
  rw [UInt32.toNat_or, hbank, hrest,
    ← Nat.two_pow_add_eq_or_of_lt (show addr.toNat % 65536 < 2 ^ 16 by omega)]
  omega

namespace Ke04

variable {C : Ke04}

/-- What is written in front of the start erases nothing. -/
theorem quiet (k : Nat) (words : List UInt16) :
    ((if C.setsClock k then [FtmreWrite.fclkdiv 0x17] else []) ++ [FtmreWrite.clearErrors] ++
      words.mapIdx fun ix w => FtmreWrite.fccob ix w).filterMap FtmreWrite.erased = [] := by
  apply List.filterMap_eq_nil_iff.mpr
  intro w hw
  rcases List.mem_append.mp hw with hw | hw
  · rcases List.mem_append.mp hw with hw | hw
    · split at hw
      · rw [List.mem_singleton.mp hw]
        rfl
      · exact absurd hw List.not_mem_nil
    · rw [List.mem_singleton.mp hw]
      rfl
  · obtain ⟨ix, hix, rfl⟩ := List.mem_mapIdx.mp hw
    rfl

/-- A command that has been started, and what it erases. -/
theorem eraseSector_cases (fuel k : Nat) {a : UInt32} (ha : a.toNat < 2 ^ 24) :
    ((C.eraseSector fuel (k, a)).1.filterMap FtmreWrite.erased = [] ∧
      (C.eraseSector fuel (k, a)).2 = none) ∨
    ((C.eraseSector fuel (k, a)).1.filterMap FtmreWrite.erased = [a] ∧
      (C.setsClock k = true → poll (waitTurn (C.beforeClock k)) fuel ≠ none) ∧
      poll (waitTurn (C.beforeStart k)) fuel ≠ none) := by
  unfold eraseSector command
  split
  · exact Or.inl ⟨rfl, rfl⟩
  · next hclock =>
    have hclock : C.setsClock k = true → poll (waitTurn (C.beforeClock k)) fuel ≠ none :=
      fun hset hnone => hclock ⟨hset, hnone⟩
    dsimp only
    split
    · refine Or.inl ⟨?_, rfl⟩
      have hquiet := quiet (C := C) k []
      rw [List.mapIdx_nil, List.append_nil] at hquiet
      exact hquiet
    · next hidle =>
      refine Or.inr ⟨?_, hclock, hidle⟩
      rw [List.filterMap_append, quiet, List.nil_append,
        List.filterMap_cons_some (erased_start ha), List.filterMap_nil]

theorem eraseSector_snd {fuel k : Nat} {a : UInt32}
    (hclock : C.setsClock k = true → poll (waitTurn (C.beforeClock k)) fuel ≠ none)
    (hidle : poll (waitTurn (C.beforeStart k)) fuel ≠ none) :
    (C.eraseSector fuel (k, a)).2 = poll (C.turn k) fuel := by
  unfold eraseSector command
  rw [if_neg fun h => hclock h.1 h.2]
  dsimp only
  rw [if_neg hidle]

theorem leaves_of_ne {turn : Nat → Option Unit} {fuel : Nat} (h : poll turn fuel ≠ none) :
    Leaves turn () := by
  obtain ⟨u, hu⟩ := Option.ne_none_iff_exists'.mp h
  exact Leaves.of_poll hu

theorem commands : Commands (2 ^ 24) FtmreWrite.erased C.eraseSector C.Outcome where
  only fuel k a ha x hx := by
    rcases eraseSector_cases (C := C) fuel k ha with ⟨hnil, -⟩ | ⟨hone, -⟩
    · rw [hnil] at hx
      exact absurd hx List.not_mem_nil
    · rw [hone] at hx
      exact List.mem_singleton.mp hx
  once fuel k a b ha hb := by
    rcases eraseSector_cases (C := C) fuel k ha with ⟨-, hnone⟩ | ⟨hone, -⟩
    · rw [hnone] at hb
      contradiction
    · exact hone
  sound fuel k a b hb := by
    have hready : (C.setsClock k = true → poll (waitTurn (C.beforeClock k)) fuel ≠ none) ∧
        poll (waitTurn (C.beforeStart k)) fuel ≠ none := by
      by_contra hnot
      have hnone : (C.eraseSector fuel (k, a)).2 = none := by
        unfold eraseSector command
        split
        · rfl
        · next hclock =>
          dsimp only
          split
          · rfl
          · next hidle => exact absurd ⟨fun hset hnone => hclock ⟨hset, hnone⟩, hidle⟩ hnot
      rw [hnone] at hb
      contradiction
    rw [eraseSector_snd hready.1 hready.2] at hb
    exact ⟨fun hset => leaves_of_ne (hready.1 hset), leaves_of_ne hready.2, Leaves.of_poll hb⟩
  enough k b h := by
    have hclock : ∃ n, ∀ fuel, n ≤ fuel → C.setsClock k = true →
        poll (waitTurn (C.beforeClock k)) fuel = some () := by
      by_cases hset : C.setsClock k = true
      · obtain ⟨n, hn⟩ := (h.clock hset).poll
        exact ⟨n, fun fuel hfuel _ => hn fuel hfuel⟩
      · exact ⟨0, fun _ _ hset' => absurd hset' hset⟩
    obtain ⟨n, hn⟩ := hclock
    obtain ⟨n', hn'⟩ := h.idle.poll
    obtain ⟨n'', hn''⟩ := h.done.poll
    refine ⟨max n (max n' n''), fun fuel hfuel a => ?_⟩
    rw [eraseSector_snd]
    · exact hn'' fuel (by omega)
    · intro hset
      rw [hn fuel (by omega) hset]
      exact Option.some_ne_none ()
    · rw [hn' fuel (by omega)]
      exact Option.some_ne_none ()

/-- A sector of the range is refused, or all are taken and the length is a multiple of the sector
size. -/
theorem erasesWell_iff {length : UInt32} (r : Span 0 length ke04SectorSize)
    (hlength : length.toNat ≤ 0x20000) :
    ErasesWell r (C.run r.addr r.len) ↔
      (∃ k < r.count, (∀ j < k, C.Outcome j true) ∧ C.Outcome k false) ∨
      512 ∣ r.len.toNat ∧ ∀ j < r.count, C.Outcome j true := by
  have hbelow : Below (2 ^ 24) 0 length ke04SectorSize := by
    have hsize : ke04SectorSize.toNat = 512 := rfl
    refine ⟨by decide, ?_, by decide⟩
    rw [hsize, UInt32.toNat_zero]
    omega
  exact wrapping_iff (r := r) (e := 1) commands (by decide) hbelow ⟨2 ^ 23, rfl⟩

end Ke04

end MiyakoLink.Erase
