import Mathlib.Data.List.Basic
import MiyakoLink.Pages.Drivers

/-!
# The regions that the probe functions add

What `samd_probe`, `samx5x_probe`, `efm32_probe` and `sam3x_probe` register, by what they read from
the part.

* `Part.fits`: the sizes and the bounds of every region fit its driver.
-/

namespace MiyakoLink.Pages

open Flash Lib Erase

def samdProbe : List PageFlash := [samdAddFlash 0 0x40000]

/-- The switch of `samx5x_probe`. -/
def samx5xProbe (mem : UInt8) : List PageFlash :=
  let length := if mem = 20 then 0x100000 else if mem = 19 then 0x80000 else 0x40000
  [samx5xAddFlash 0 length samx5xBlockSize samx5xPageSize]

/-! ## EFM32 -/

/-- `efm32_device_t`, without what only names a device. -/
structure Efm32Device where
  familyId : UInt8
  flashPageSize : UInt32
  mscAddr : UInt32
  userDataSize : UInt32
  bootloaderSize : UInt32

def efm32Devices : List Efm32Device :=
  [⟨71, 512, 0x400c0000, 512, 0⟩, ⟨72, 2048, 0x400c0000, 4096, 0⟩, ⟨73, 512, 0x400c0000, 512, 0⟩,
   ⟨74, 2048, 0x400c0000, 2048, 0⟩, ⟨75, 2048, 0x400c0000, 2048, 0⟩,
   ⟨76, 1024, 0x400c0000, 1024, 0⟩, ⟨77, 1024, 0x400c0000, 1024, 0⟩,
   ⟨120, 2048, 0x400c0000, 2048, 0⟩, ⟨121, 2048, 0x400c0000, 2048, 0⟩,
   ⟨122, 1024, 0x400c0000, 1024, 0⟩, ⟨81, 2048, 0x400e0000, 2048, 10240⟩,
   ⟨83, 2048, 0x400e0000, 2048, 10240⟩, ⟨85, 2048, 0x400e0000, 2048, 32768⟩,
   ⟨87, 2048, 0x400e0000, 2048, 32768⟩, ⟨100, 4096, 0x40000000, 4096, 32768⟩,
   ⟨103, 2048, 0x40000000, 2048, 18432⟩, ⟨106, 2048, 0x40000000, 2048, 32768⟩,
   ⟨16, 2048, 0x400e0000, 2048, 10240⟩, ⟨17, 2048, 0x400e0000, 2048, 10240⟩,
   ⟨18, 2048, 0x400e0000, 2048, 10240⟩, ⟨19, 2048, 0x400e0000, 2048, 10240⟩,
   ⟨20, 2048, 0x400e0000, 2048, 10240⟩, ⟨21, 2048, 0x400e0000, 2048, 10240⟩,
   ⟨25, 2048, 0x400e0000, 2048, 10240⟩, ⟨26, 2048, 0x400e0000, 2048, 10240⟩,
   ⟨27, 2048, 0x400e0000, 2048, 10240⟩, ⟨28, 2048, 0x400e0000, 2048, 32768⟩,
   ⟨29, 2048, 0x400e0000, 2048, 32768⟩, ⟨30, 2048, 0x400e0000, 2048, 32768⟩,
   ⟨31, 2048, 0x400e0000, 2048, 32768⟩, ⟨32, 2048, 0x400e0000, 2048, 32768⟩,
   ⟨33, 2048, 0x400e0000, 2048, 32768⟩, ⟨37, 2048, 0x400e0000, 2048, 32768⟩,
   ⟨38, 2048, 0x400e0000, 2048, 32768⟩, ⟨39, 2048, 0x400e0000, 2048, 32768⟩,
   ⟨40, 2048, 0x400e0000, 2048, 16384⟩, ⟨41, 2048, 0x400e0000, 2048, 16384⟩,
   ⟨42, 2048, 0x400e0000, 2048, 16384⟩, ⟨43, 2048, 0x400e0000, 2048, 16384⟩,
   ⟨44, 2048, 0x400e0000, 2048, 16384⟩, ⟨45, 2048, 0x400e0000, 2048, 16384⟩,
   ⟨49, 2048, 0x400e0000, 2048, 16384⟩, ⟨50, 2048, 0x400e0000, 2048, 16384⟩,
   ⟨51, 2048, 0x400e0000, 2048, 16384⟩, ⟨52, 2048, 0x400e0000, 2048, 16384⟩,
   ⟨53, 2048, 0x400e0000, 2048, 16384⟩, ⟨54, 2048, 0x400e0000, 2048, 16384⟩,
   ⟨55, 2048, 0x400e0000, 2048, 16384⟩, ⟨56, 2048, 0x400e0000, 2048, 16384⟩,
   ⟨57, 2048, 0x400e0000, 2048, 16384⟩, ⟨61, 2048, 0x400e0000, 2048, 16384⟩,
   ⟨62, 2048, 0x400e0000, 2048, 16384⟩, ⟨63, 2048, 0x400e0000, 2048, 16384⟩]

def efm32Probe (partFamily : UInt8) (flashKib : UInt16) : List PageFlash :=
  match efm32Devices.find? fun d => d.familyId == partFamily with
  | none => []
  | some d =>
    efm32AddFlash d.mscAddr 0 (flashKib.toUInt32 * 0x400) d.flashPageSize ::
      ((if d.userDataSize ≠ 0 then
          [efm32AddFlash d.mscAddr 0x0fe00000 d.userDataSize d.flashPageSize] else []) ++
        if d.bootloaderSize ≠ 0 then
          [efm32AddFlash d.mscAddr 0x0fe10000 d.bootloaderSize d.flashPageSize] else [])

/-! ## SAM3X/4 -/

/-- `sam_flash_size`, by `CHIPID_CIDR_NVPSIZ_MASK`. -/
def samFlashSize (cidr : UInt32) : UInt32 :=
  match (cidr >>> 8 &&& 0x0F).toNat with
  | 0x01 => 0x2000
  | 0x02 => 0x4000
  | 0x03 => 0x8000
  | 0x05 => 0x10000
  | 0x07 => 0x20000
  | 0x09 => 0x40000
  | 0x0A => 0x80000
  | 0x0C => 0x100000
  | 0x0E => 0x200000
  | _ => 0

/-- `CHIPID_CIDR_ARCH_MASK` and `CHIPID_CIDR_EPROC_MASK`. -/
def cidrArch (cidr : UInt32) : UInt32 := cidr >>> 20 &&& 0xFF
def cidrEproc (cidr : UInt32) : UInt32 := cidr >>> 5 &&& 0x07

/-- `CHIPID_CIDR_EPROC_CM3` and `CHIPID_CIDR_EPROC_CM4`. -/
abbrev eprocCm3 : UInt32 := 0x03
abbrev eprocCm4 : UInt32 := 0x07

/-- `sam3x_probe`, with what it reads from `SAM3X_CHIPID_CIDR` and `SAM34NSU_CHIPID_CIDR`. -/
def sam3xProbe (cidr cidr' : UInt32) : List PageFlash :=
  let size := samFlashSize cidr
  if cidrArch cidr ∈ [0x84, 0x85, 0x86] ∧ cidrEproc cidr = eprocCm3 then
    [sam3AddFlash 0x400E0A00 0x80000 (size / 2),
      sam3AddFlash 0x400E0C00 (0x80000 + size / 2) (size / 2)]
  else
    let size := samFlashSize cidr'
    if cidrArch cidr' ∈ [0x93, 0x94, 0x95, 0x88, 0x89, 0x8A] ∧ cidrEproc cidr' = eprocCm3 then
      [sam3AddFlash 0x400E0A00 0x400000 size]
    else if cidrArch cidr' ∈ [0x80, 0x81] ∧ cidrEproc cidr' = eprocCm3 then
      sam3AddFlash 0x400E0800 0x80000 (min32 size 0x80000) ::
        if size ≥ 0x80000 then [sam3AddFlash 0x400E0A00 0x100000 0x80000] else []
    else if cidrArch cidr' ∈ [0x88, 0x89, 0x8A, 0x99, 0x9A] ∧ cidrEproc cidr' = eprocCm4 then
      if size ≤ 0x80000 then [sam4AddFlash 0x400E0A00 0x400000 size]
      else
        [sam4AddFlash 0x400E0A00 0x400000 (size / 2),
          sam4AddFlash 0x400E0C00 (0x400000 + size / 2) (size / 2)]
    else []

/-! ## All of them -/

/-- A part, by what its probe function reads. -/
inductive Part where
  | samd
  | samx5x (mem : UInt8)
  | efm32 (partFamily : UInt8) (flashKib : UInt16)
  | sam3x (cidr cidr' : UInt32)

def Part.probe : Part → List PageFlash
  | samd => samdProbe
  | samx5x mem => samx5xProbe mem
  | efm32 partFamily flashKib => efm32Probe partFamily flashKib
  | sam3x cidr cidr' => sam3xProbe cidr cidr'

/-- The sizes are those of the driver, and the pages of a bank can be told apart by 16 bits. -/
def PageFlash.Sized (F : PageFlash) : Prop :=
  match F.driver with
  | .samd => F.blocksize = samdRowSize ∧ F.bufSize = samdPageSize
  | .samx5x => F.blocksize = samx5xBlockSize ∧ F.bufSize = samx5xPageSize
  | .efm32 _ => F.blocksize = F.bufSize ∧ F.bufSize ∈ [512, 1024, 2048, 4096]
  | .sam3 _ => F.bufSize = sam3PageSize ∧ 0x1000 ∣ F.start.toNat ∧ F.length.toNat ≤ 0x200000
  | .sam4 _ => F.blocksize = sam4PageSize * 8 ∧ F.bufSize = sam4PageSize ∧
      0x1000 ∣ F.start.toNat ∧ F.length.toNat ≤ 0x200000

structure PageFlash.Fits (F : PageFlash) : Prop where
  sized : F.Sized
  top : F.start.toNat + F.length.toNat ≤ 2 ^ 32

theorem samx5x_fits {mem : UInt8} {F : PageFlash} (h : F ∈ samx5xProbe mem) : F.Fits := by
  obtain rfl := List.mem_singleton.mp h
  refine ⟨⟨rfl, rfl⟩, ?_⟩
  show (0 : UInt32).toNat +
    (if mem = 20 then 0x100000 else if mem = 19 then 0x80000 else 0x40000 : UInt32).toNat ≤ _
  split
  · decide
  · split
    · decide
    · decide

theorem efm32Devices_sized : ∀ d ∈ efm32Devices, d.flashPageSize ∈ [512, 1024, 2048, 4096] ∧
    d.userDataSize ≤ 0x10000 ∧ d.bootloaderSize ≤ 0x10000 := by
  decide +kernel

theorem efm32_fits {partFamily : UInt8} {flashKib : UInt16} {F : PageFlash}
    (h : F ∈ efm32Probe partFamily flashKib) : F.Fits := by
  unfold efm32Probe at h
  split at h
  · exact absurd h List.not_mem_nil
  · next d hd =>
    obtain ⟨hpage, huser, hboot⟩ := efm32Devices_sized d (List.mem_of_find?_eq_some hd)
    rw [List.mem_cons, List.mem_append] at h
    rcases h with rfl | h | h
    · exact ⟨⟨rfl, hpage⟩, by rw [efm32AddFlash, UInt32.toNat_zero, Nat.zero_add]
                              exact Nat.le_of_lt (UInt32.toNat_lt _)⟩
    · split at h
      · obtain rfl := List.mem_singleton.mp h
        refine ⟨⟨rfl, hpage⟩, ?_⟩
        have huser := UInt32.le_iff_toNat_le.mp huser
        have hmax : (0x10000 : UInt32).toNat = 0x10000 := rfl
        show 0x0fe00000 + d.userDataSize.toNat ≤ _
        omega
      · exact absurd h List.not_mem_nil
    · split at h
      · obtain rfl := List.mem_singleton.mp h
        refine ⟨⟨rfl, hpage⟩, ?_⟩
        have hboot := UInt32.le_iff_toNat_le.mp hboot
        have hmax : (0x10000 : UInt32).toNat = 0x10000 := rfl
        show 0x0fe10000 + d.bootloaderSize.toNat ≤ _
        omega
      · exact absurd h List.not_mem_nil

theorem samFlashSize_sized (cidr : UInt32) :
    0x2000 ∣ (samFlashSize cidr).toNat ∧ (samFlashSize cidr).toNat ≤ 0x200000 := by
  unfold samFlashSize
  split
  all_goals decide

/-- A bank. -/
theorem bank_fits {start length : UInt32} (base : UInt32) (hstart : 0x1000 ∣ start.toNat)
    (hlow : start.toNat ≤ 0x800000) (hlength : length.toNat ≤ 0x200000) :
    (sam3AddFlash base start length).Fits ∧ (sam4AddFlash base start length).Fits := by
  have htop : start.toNat + length.toNat ≤ 2 ^ 32 := by omega
  exact ⟨⟨⟨rfl, hstart, hlength⟩, htop⟩, ⟨⟨rfl, rfl, hstart, hlength⟩, htop⟩⟩

/-- The second one of two banks. -/
theorem second_bank (start : UInt32) {size : UInt32} (hstart : 0x1000 ∣ start.toNat)
    (hlow : start.toNat ≤ 0x400000) (hdvd : 0x2000 ∣ size.toNat) (hsize : size.toNat ≤ 0x200000) :
    0x1000 ∣ (start + size / 2).toNat ∧ (start + size / 2).toNat ≤ 0x800000 ∧
      (size / 2).toNat ≤ 0x200000 := by
  have hhalf : (size / 2).toNat = size.toNat / 2 := UInt32.toNat_div size 2
  have hsum : (start + size / 2).toNat = start.toNat + size.toNat / 2 := by
    rw [UInt32.toNat_add, hhalf]
    omega
  rw [hsum, hhalf]
  omega

theorem sam3x_fits {cidr cidr' : UInt32} {F : PageFlash} (h : F ∈ sam3xProbe cidr cidr') :
    F.Fits := by
  obtain ⟨hdvd, hsize⟩ := samFlashSize_sized cidr
  obtain ⟨hdvd', hsize'⟩ := samFlashSize_sized cidr'
  have hlow : (0x80000 : UInt32).toNat = 0x80000 := rfl
  have hhigh : (0x400000 : UInt32).toNat = 0x400000 := rfl
  unfold sam3xProbe at h
  dsimp only at h
  generalize samFlashSize cidr = size at *
  generalize samFlashSize cidr' = size' at *
  split at h
  · obtain ⟨hstart, hmax, hlength⟩ := second_bank 0x80000 ⟨0x80, rfl⟩ (by decide) hdvd
      hsize
    rcases List.mem_pair.mp h with rfl | rfl
    · exact (bank_fits _ ⟨0x80, rfl⟩ (by decide) hlength).1
    · exact (bank_fits _ hstart hmax hlength).1
  · split at h
    · obtain rfl := List.mem_singleton.mp h
      exact (bank_fits _ ⟨0x400, rfl⟩ (by decide) hsize').1
    · split at h
      · rcases List.mem_cons.mp h with rfl | h
        · refine (bank_fits _ ⟨0x80, rfl⟩ (by decide) ?_).1
          rw [min32_toNat]
          omega
        · split at h
          · obtain rfl := List.mem_singleton.mp h
            exact (bank_fits _ ⟨0x100, rfl⟩ (by decide) (by decide)).1
          · exact absurd h List.not_mem_nil
      · split at h
        · split at h
          · obtain rfl := List.mem_singleton.mp h
            exact (bank_fits _ ⟨0x400, rfl⟩ (by decide) hsize').2
          · obtain ⟨hstart, hmax, hlength⟩ := second_bank 0x400000 ⟨0x400, rfl⟩
              (by decide) hdvd' hsize'
            rcases List.mem_pair.mp h with rfl | rfl
            · exact (bank_fits _ ⟨0x400, rfl⟩ (by decide) hlength).2
            · exact (bank_fits _ hstart hmax hlength).2
        · exact absurd h List.not_mem_nil

theorem Part.fits {p : Part} {F : PageFlash} (h : F ∈ p.probe) : F.Fits := by
  cases p with
  | samd =>
    obtain rfl := List.mem_singleton.mp h
    exact ⟨⟨rfl, rfl⟩, by decide⟩
  | samx5x mem => exact samx5x_fits h
  | efm32 partFamily flashKib => exact efm32_fits h
  | sam3x cidr cidr' => exact sam3x_fits h

end MiyakoLink.Pages
