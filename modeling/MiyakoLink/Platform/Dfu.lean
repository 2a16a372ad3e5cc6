import Mathlib.Data.List.GetD
import MiyakoLink.Lib.Guarded
import MiyakoLink.Lib.Image

/-!
# The boot loader of the STM32 platforms

`dfucore.c` with `dfu_f1.c`. The host sends commands and blocks over the control endpoint. They are
kept until it asks for the status, and done behind its answer.

* `session_flash`: a session of erases and blocks leaves in the flash what the host sent.
* `download_upload`: the host reads back the image it sent.
* `boot_loader_kept`: what is sent for the application does not change the flash below it.
-/

namespace MiyakoLink.Platform.Dfu

open Lib

/-- The part of the library for the flash that is used. -/
structure FlashLib (σ : Type*) where
  read : σ → UInt32 → BitVec 8
  flashUnlock : σ → σ
  flashLock : σ → σ
  flashErasePage : UInt32 → σ → σ
  flashProgramHalfWord : UInt32 → BitVec 16 → σ → σ

/-- `enum dfu_state`, in its order. -/
inductive DfuState
  | appIdle
  | appDetach
  | dfuIdle
  | dfuDnloadSync
  | dfuDnbusy
  | dfuDnloadIdle
  | dfuManifestSync
  | dfuManifest
  | dfuManifestWaitReset
  | dfuUploadIdle
  | dfuError
deriving DecidableEq

/-- What `usbdfu_control_request` tells apart of `bRequest`. -/
inductive DfuReq
  | dnload
  | clrstatus
  | abort
  | upload
  | getstatus
  | getstate
  | other
deriving DecidableEq

structure SetupData where
  bmRequestType : BitVec 8
  bRequest : DfuReq
  wValue : UInt16
  wLength : UInt16

/-- `prog`. -/
structure Prog where
  buf : Nat → BitVec 8
  len : UInt16
  addr : UInt32
  blocknum : UInt16

/-- The static variables, with the flash. `detached` is set when the device resets. -/
structure Core (σ : Type*) where
  usbdfuState : DfuState
  prog : Prog
  currentError : BitVec 8
  lastErasedPage : UInt32
  flash : σ
  detached : Bool

/-- The values of `app_address` and `FLASHBLOCKSIZE`, and what `FLASH_SIZE_R` reads. -/
structure Board where
  appAddress : UInt32
  flashBlockSize : UInt32
  flashSizeR : UInt32

abbrev flashBase : UInt32 := 0x08000000
abbrev wTransferSize : UInt32 := 1024
abbrev cmdSetaddr : BitVec 8 := 0x21
abbrev cmdErase : BitVec 8 := 0x41
abbrev dfuStatusOk : BitVec 8 := 0
abbrev dfuStatusErrTarget : BitVec 8 := 1

/-- The part of `get_dev_unique_id` that sets `max_address`. -/
def Board.maxAddress (B : Board) : UInt32 :=
  let fuseFlashSize := B.flashSizeR &&& 0xfff
  let fuseFlashSize := if fuseFlashSize = 0x40 then 0x80 else fuseFlashSize
  flashBase + fuseFlashSize <<< 10

/-- The page of an address. -/
def Board.page (B : Board) (addr : UInt32) : UInt32 := addr &&& ~~~ (B.flashBlockSize - 1)

def getLe32 (p : Nat → BitVec 8) : UInt32 := UInt32.ofBitVec (p 3 ++ p 2 ++ p 1 ++ p 0)

/-- What a request returns: whether it is handled, the data, and whether the endpoint is stalled. -/
structure Reply where
  handled : Bool
  data : List (BitVec 8)
  stalled : Bool
deriving DecidableEq

namespace DfuState

def code : DfuState → BitVec 8
  | appIdle => 0
  | appDetach => 1
  | dfuIdle => 2
  | dfuDnloadSync => 3
  | dfuDnbusy => 4
  | dfuDnloadIdle => 5
  | dfuManifestSync => 6
  | dfuManifest => 7
  | dfuManifestWaitReset => 8
  | dfuUploadIdle => 9
  | dfuError => 10

end DfuState

namespace Core

variable {σ : Type*} (B : Board) (F : FlashLib σ)

def start (flash : σ) : Core σ :=
  ⟨.dfuIdle, ⟨fun _ => 0, 0, 0, 0⟩, 0, 0xffffffff, flash, false⟩

def dfuCheckAndDoSectorErase (sector : UInt32) (c : Core σ) : Core σ :=
  if B.page sector ≠ c.lastErasedPage then
    { c with
      flash := F.flashErasePage (B.page sector) c.flash
      lastErasedPage := B.page sector }
  else c

/-- The loop of `dfu_flash_program_buffer`. -/
def dfuFlashProgramBuffer (baseaddr : UInt32) (buf : Nat → BitVec 8) (len : Nat) (flash : σ) : σ :=
  (List.range ((len + 1) / 2)).foldl
    (fun flash k => F.flashProgramHalfWord (baseaddr + UInt32.ofNat (2 * k))
      (buf (2 * k + 1) ++ buf (2 * k)) flash) flash

/-- `dfu_poll_timeout`. -/
def dfuPollTimeout : BitVec 24 := 100

/-- The status, the timeout, and the state behind. -/
def usbdfuGetstatus (c : Core σ) : BitVec 8 × BitVec 24 × Core σ :=
  match c.usbdfuState with
  | .dfuDnloadSync => (dfuStatusOk, dfuPollTimeout, { c with usbdfuState := .dfuDnbusy })
  | .dfuManifestSync => (dfuStatusOk, 0, { c with usbdfuState := .dfuManifest })
  | .dfuError => (c.currentError, 0, c)
  | _ => (dfuStatusOk, 0, c)

def blockAddress (addr : UInt32) (blocknum : UInt16) : UInt32 :=
  addr + (blocknum.toUInt32 - 2) * wTransferSize

def usbdfuGetstatusComplete (c : Core σ) : Core σ :=
  match c.usbdfuState with
  | .dfuDnbusy =>
    let c : Core σ := { c with flash := F.flashUnlock c.flash }
    let c : Core σ :=
      if c.prog.blocknum = 0 then
        if c.prog.buf 0 = cmdErase then
          c.dfuCheckAndDoSectorErase B F (getLe32 fun i => c.prog.buf (i + 1))
        else c
      else
        { c with
          flash := dfuFlashProgramBuffer F (blockAddress c.prog.addr c.prog.blocknum) c.prog.buf
            c.prog.len.toNat c.flash }
    { c with flash := F.flashLock c.flash, usbdfuState := .dfuDnloadIdle }
  | .dfuManifest => { c with detached := true }
  | _ => c

def handled (data : List (BitVec 8)) : Reply := ⟨true, data, false⟩

/-- `usbdfu_control_request`. `data` is in the control buffer: what the host sends, or for a request
that asks for data, what the buffer had before. -/
def usbdfuControlRequest (req : SetupData) (data : List (BitVec 8)) (c : Core σ) :
    Core σ × Reply :=
  if req.bmRequestType &&& 0x7F ≠ 0x21 then (c, ⟨false, [], false⟩)
  else
    match req.bRequest with
    | .dnload =>
      if data.length = 0 then ({ c with usbdfuState := .dfuManifestSync }, handled [])
      else
        let prog : Prog :=
          { c.prog with
            blocknum := req.wValue
            len := UInt16.ofNat data.length
            buf := fun i => data.getD i (c.prog.buf i) }
        let c := { c with prog := prog }
        if req.wValue = 0 ∧ prog.buf 0 = cmdSetaddr then
          let addr := getLe32 fun i => prog.buf (i + 1)
          if addr < B.appAddress ∨ B.maxAddress ≤ addr then
            ({ c with currentError := dfuStatusErrTarget, usbdfuState := .dfuError }, handled [])
          else
            ({ c with prog := { prog with addr := addr }, usbdfuState := .dfuDnloadSync }, handled [])
        else ({ c with usbdfuState := .dfuDnloadSync }, handled [])
    | .clrstatus =>
      (if c.usbdfuState = .dfuError then { c with usbdfuState := .dfuIdle } else c, handled [])
    | .abort => ({ c with usbdfuState := .dfuIdle }, handled [])
    | .upload =>
      if c.usbdfuState = .dfuIdle ∨ c.usbdfuState = .dfuDnloadIdle ∨
          c.usbdfuState = .dfuUploadIdle then
        ({ c with prog := { c.prog with blocknum := req.wValue }, usbdfuState := .dfuUploadIdle },
          handled (if 1 < req.wValue then
            readBytes (F.read c.flash) (blockAddress c.prog.addr req.wValue) req.wLength.toNat
          else data))
      else (c, ⟨false, [], true⟩)
    | .getstatus =>
      let (status, bwPollTimeout, c) := c.usbdfuGetstatus
      (c, handled [status, bwPollTimeout.extractLsb' 0 8, bwPollTimeout.extractLsb' 8 8,
        bwPollTimeout.extractLsb' 16 8, c.usbdfuState.code, 0])
    | .getstate => (c, handled [c.usbdfuState.code])
    | .other => (c, ⟨false, [], false⟩)

end Core

/-- What happens next: a request, or the end of one for the status. -/
inductive Event
  | request (req : SetupData) (data : List (BitVec 8))
  | complete

namespace Core

variable {σ : Type*} (B : Board) (F : FlashLib σ)

/-- Behind `dfu_detach` nothing happens. -/
def step (c : Core σ) (e : Event) : Core σ :=
  if c.detached then c
  else
    match e with
    | .request req data => (c.usbdfuControlRequest B F req data).1
    | .complete => c.usbdfuGetstatusComplete B F

def reply (c : Core σ) : Event → List Reply
  | .request req data => if c.detached then [] else [(c.usbdfuControlRequest B F req data).2]
  | .complete => []

/-- The replies to some events. -/
def replies : List Event → Core σ → List Reply
  | [], _ => []
  | e :: events, c => c.reply B F e ++ replies events (c.step B F e)

end Core

/-! ## What the host asks for -/

/-- A command or a block of the host. -/
inductive Op
  | erase (addr : UInt32)
  | setAddress (addr : UInt32)
  | block (blocknum : UInt16) (data : List (BitVec 8))

/-- The address that blocks are for, and what the flash has. -/
structure Image where
  addr : UInt32
  mem : UInt32 → BitVec 8

namespace Op

def classRequest (bRequest : DfuReq) (wValue wLength : UInt16) : SetupData :=
  ⟨0x21, bRequest, wValue, wLength⟩

def le32 (v : UInt32) : List (BitVec 8) :=
  [v.toBitVec.extractLsb' 0 8, v.toBitVec.extractLsb' 8 8, v.toBitVec.extractLsb' 16 8,
    v.toBitVec.extractLsb' 24 8]

def blocknum : Op → UInt16
  | erase _ => 0
  | setAddress _ => 0
  | block blocknum _ => blocknum

def data : Op → List (BitVec 8)
  | erase addr => cmdErase :: le32 addr
  | setAddress addr => cmdSetaddr :: le32 addr
  | block _ data => data

/-- The host sends the data, and asks for the status. -/
def events (op : Op) : List Event :=
  [.request (classRequest .dnload op.blocknum (UInt16.ofNat op.data.length)) op.data,
    .request (classRequest .getstatus 0 6) (List.replicate 6 0), .complete]

/-- What is asked for. An address that is not one of the application is refused. -/
def apply (B : Board) (op : Op) (i : Image) : Image :=
  match op with
  | erase addr => { i with mem := fun a => if B.page a = B.page addr then 0xFF else i.mem a }
  | setAddress addr =>
    if addr < B.appAddress ∨ B.maxAddress ≤ addr then i else { i with addr := addr }
  | block blocknum data => { i with mem := overlay i.mem (Core.blockAddress i.addr blocknum) data }

end Op

/-! ## The flash -/

/-- What is documented of the library. A half-word is programmed into erased bytes. -/
structure FlashLib.Documented {σ : Type*} (F : FlashLib σ) (B : Board) (unlocked : σ → Prop) :
    Prop where
  unlock (s : σ) : F.read (F.flashUnlock s) = F.read s ∧ unlocked (F.flashUnlock s)
  lock (s : σ) : F.read (F.flashLock s) = F.read s
  erase {s : σ} (h : unlocked s) (addr a : UInt32) :
    F.read (F.flashErasePage (B.page addr) s) a = if B.page a = B.page addr then 0xFF else F.read s a
  program {s : σ} (h : unlocked s) {addr : UInt32} (heven : addr.toNat % 2 = 0)
    (hlow : F.read s addr = 0xFF) (hhigh : F.read s (addr + 1) = 0xFF) (low high : BitVec 8) :
    F.read (F.flashProgramHalfWord addr (high ++ low) s) = overlay (F.read s) addr [low, high]
  program_unlocked {s : σ} (h : unlocked s) (addr : UInt32) (v : BitVec 16) :
    unlocked (F.flashProgramHalfWord addr v s)
  program_else {s : σ} {addr a : UInt32} (h : a ≠ addr) (h' : a ≠ addr + 1) (v : BitVec 16) :
    F.read (F.flashProgramHalfWord addr v s) a = F.read s a

section

variable {σ : Type*} {B : Board} {F : FlashLib σ} {unlocked : σ → Prop}

/-- `n` erased bytes from an address on. -/
def Blank (mem : UInt32 → BitVec 8) (addr : UInt32) (n : Nat) : Prop :=
  ∀ k < n, mem (addr + UInt32.ofNat k) = 0xFF

/-- The loop of `dfu_flash_program_buffer`, over erased flash. -/
theorem program_buffer (hF : F.Documented B unlocked) {flash : σ} (h : unlocked flash)
    {addr : UInt32} (heven : addr.toNat % 2 = 0) {data : List (BitVec 8)} {buf : Nat → BitVec 8}
    (hbuf : ∀ i, (hi : i < data.length) → buf i = data[i]) (hlength : data.length % 2 = 0)
    (hsize : data.length ≤ 1024) (hblank : Blank (F.read flash) addr data.length) :
    F.read (Core.dfuFlashProgramBuffer F addr buf data.length flash) =
      overlay (F.read flash) addr data := by
  have hloop : ∀ n, 2 * n ≤ data.length →
      unlocked ((List.range n).foldl (fun flash k => F.flashProgramHalfWord
        (addr + UInt32.ofNat (2 * k)) (buf (2 * k + 1) ++ buf (2 * k)) flash) flash) ∧
      F.read ((List.range n).foldl (fun flash k => F.flashProgramHalfWord
        (addr + UInt32.ofNat (2 * k)) (buf (2 * k + 1) ++ buf (2 * k)) flash) flash) =
        overlay (F.read flash) addr (data.take (2 * n)) := by
    intro n
    induction n with
    | zero => exact fun _ => ⟨h, (overlay_nil _).symm⟩
    | succ n ih =>
      intro hn
      obtain ⟨hunlocked, hread⟩ := ih (by omega)
      rw [List.range_succ, List.foldl_append]
      refine ⟨hF.program_unlocked hunlocked _ _, ?_⟩
      have htake : data.take (2 * (n + 1)) = data.take (2 * n) ++ [buf (2 * n), buf (2 * n + 1)] := by
        rw [hbuf _ (by omega), hbuf _ (by omega), show 2 * (n + 1) = 2 * n + 1 + 1 by omega,
          List.take_succ_eq_append_getElem (by omega), List.take_succ_eq_append_getElem (by omega),
          List.append_assoc]
        rfl
      have hplaced : (data.take (2 * n)).length = 2 * n := by
        rw [List.length_take]
        omega
      have hsame {k : Nat} (hk : 2 * n ≤ k) (hk' : k < data.length) :
          overlay (F.read flash) addr (data.take (2 * n)) (addr + UInt32.ofNat k) = 0xFF := by
        rw [overlay_outside _ (by rw [add_sub_toNat (by omega), hplaced]; exact hk)]
        exact hblank k hk'
      have hnext : addr + UInt32.ofNat (2 * n) + 1 = addr + UInt32.ofNat (2 * n + 1) := by
        rw [UInt32.add_assoc, UInt32.ofNat_add]
        rfl
      have hoffset : (UInt32.ofNat (2 * n)).toNat = 2 * n :=
        UInt32.toNat_ofNat_of_lt' (show 2 * n < 2 ^ 32 by omega)
      have heven' : (addr + UInt32.ofNat (2 * n)).toNat % 2 = 0 := by
        rw [UInt32.toNat_add, hoffset]
        omega
      have hword := hF.program hunlocked heven'
        (by rw [hread]; exact hsame (Nat.le_refl _) (by omega))
        (by rw [hread, hnext]; exact hsame (Nat.le_succ _) (by omega))
        (buf (2 * n)) (buf (2 * n + 1))
      refine hword.trans ?_
      rw [hread, htake]
      refine overlay_append (hoffset.trans hplaced.symm) ?_ _
      rw [hplaced]
      exact (show 2 * n + 2 ≤ 2 ^ 32 by omega)
  have hdone := (hloop (data.length / 2) (by omega)).2
  rw [show 2 * (data.length / 2) = data.length by omega, List.take_length] at hdone
  rw [Core.dfuFlashProgramBuffer, show (data.length + 1) / 2 = data.length / 2 by omega]
  exact hdone

theorem getLe32_le32 (addr : UInt32) (c : BitVec 8) (old : Nat → BitVec 8) :
    (getLe32 fun i => (c :: Op.le32 addr).getD (i + 1) (old (i + 1))) = addr := by
  refine UInt32.toBitVec_inj.mp ?_
  show addr.toBitVec.extractLsb' 24 8 ++ addr.toBitVec.extractLsb' 16 8 ++
    addr.toBitVec.extractLsb' 8 8 ++ addr.toBitVec.extractLsb' 0 8 = addr.toBitVec
  rw [BitVec.extractLsb'_append_extractLsb'_eq_extractLsb' (show 24 = 16 + 8 from rfl),
    BitVec.extractLsb'_append_extractLsb'_eq_extractLsb' (show 16 = 8 + 8 from rfl),
    BitVec.extractLsb'_append_extractLsb'_eq_extractLsb' (show 8 = 0 + 8 from rfl)]
  exact BitVec.extractLsb'_eq_self

/-! ## Sessions -/

/-- The image as the boot loader has it. -/
def Core.image (F : FlashLib σ) (c : Core σ) : Image := ⟨c.prog.addr, F.read c.flash⟩

def Core.opStep (B : Board) (F : FlashLib σ) (c : Core σ) (op : Op) : Core σ :=
  op.events.foldl (Core.step B F) c

/-- A page is erased again only if it is still erased or another one has been erased in between. A
block is for erased flash. -/
def Proper (B : Board) (F : FlashLib σ) (c : Core σ) : Op → Prop
  | .erase addr =>
    B.page addr ≠ c.lastErasedPage ∨ ∀ a, B.page a = B.page addr → F.read c.flash a = 0xFF
  | .setAddress _ => True
  | .block blocknum data =>
    blocknum ≠ 0 ∧ 0 < data.length ∧ data.length ≤ 1024 ∧ data.length % 2 = 0 ∧
      c.prog.addr.toNat % 2 = 0 ∧
      Blank (F.read c.flash) (Core.blockAddress c.prog.addr blocknum) data.length

theorem sectorErase_read (hF : F.Documented B unlocked) {c : Core σ} (h : unlocked c.flash)
    {addr : UInt32} (hproper : B.page addr ≠ c.lastErasedPage ∨
      ∀ a, B.page a = B.page addr → F.read c.flash a = 0xFF) :
    ∃ c' : Core σ, c.dfuCheckAndDoSectorErase B F addr = c' ∧ c'.prog = c.prog ∧
      c'.detached = c.detached ∧
      F.read c'.flash = fun a => if B.page a = B.page addr then 0xFF else F.read c.flash a := by
  refine ⟨_, rfl, ?_⟩
  unfold Core.dfuCheckAndDoSectorErase
  split
  · exact ⟨rfl, rfl, funext fun a => hF.erase h addr a⟩
  next heq =>
    refine ⟨rfl, rfl, funext fun a => ?_⟩
    split
    next ha => exact hproper.resolve_left heq a ha
    next => rfl

/-- The boot loader behind a request with data, before it is asked for the status. -/
def Core.received (c : Core σ) (op : Op) (addr : UInt32) : Core σ :=
  { c with
    prog := ⟨fun i => op.data.getD i (c.prog.buf i), UInt16.ofNat op.data.length, addr, op.blocknum⟩
    usbdfuState := .dfuDnloadSync }

/-- The boot loader when the operation is being done. -/
def Core.busy (c : Core σ) (op : Op) (addr : UInt32) : Core σ :=
  { c.received op addr with usbdfuState := .dfuDnbusy }

def Op.dnload (op : Op) : SetupData :=
  Op.classRequest .dnload op.blocknum (UInt16.ofNat op.data.length)

theorem Op.dnload_class (op : Op) : ¬ (op.dnload.bmRequestType &&& 0x7F ≠ 0x21) := by
  show ¬ ((0x21 : BitVec 8) &&& 0x7F ≠ 0x21)
  decide

/-- The status is that what has been sent is being done. -/
def Op.accepted : List Reply := [Core.handled [], Core.handled [dfuStatusOk, 100, 0, 0, 4, 0]]

/-- The status is that the address is refused. -/
def Op.refused : List Reply := [Core.handled [], Core.handled [dfuStatusErrTarget, 0, 0, 0, 10, 0]]

theorem step_request {c : Core σ} (hdetached : c.detached = false) (req : SetupData)
    (data : List (BitVec 8)) :
    c.step B F (.request req data) = (c.usbdfuControlRequest B F req data).1 ∧
      c.reply B F (.request req data) = [(c.usbdfuControlRequest B F req data).2] := by
  rw [Core.step, Core.reply, hdetached]
  exact ⟨rfl, rfl⟩

theorem step_complete {c : Core σ} (hdetached : c.detached = false) :
    c.step B F .complete = c.usbdfuGetstatusComplete B F := by
  rw [Core.step, hdetached]
  rfl

theorem replies_append (events events' : List Event) (c : Core σ) :
    c.replies B F (events ++ events') =
      c.replies B F events ++ Core.replies B F events' (events.foldl (Core.step B F) c) := by
  induction events generalizing c with
  | nil => rfl
  | cons e events ih =>
    rw [List.cons_append, Core.replies, ih, Core.replies, List.append_assoc, List.foldl_cons]

/-- The three events of an operation. -/
theorem opStep_eq {c c₁ c₂ : Core σ} {op : Op} {reply₁ reply₂ : Reply}
    (hdetached : c.detached = false)
    (hdnload : c.usbdfuControlRequest B F op.dnload op.data = (c₁, reply₁))
    (hdetached₁ : c₁.detached = false)
    (hstatus : c₁.usbdfuControlRequest B F (Op.classRequest .getstatus 0 6) (List.replicate 6 0) =
      (c₂, reply₂))
    (hdetached₂ : c₂.detached = false) :
    c.opStep B F op = c₂.usbdfuGetstatusComplete B F ∧ c.replies B F op.events = [reply₁, reply₂] := by
  obtain ⟨hstep, hreply⟩ := step_request (B := B) (F := F) hdetached op.dnload op.data
  obtain ⟨hstep₁, hreply₁⟩ := step_request (B := B) (F := F) hdetached₁
    (Op.classRequest .getstatus 0 6) (List.replicate 6 0)
  rw [hdnload] at hstep hreply
  rw [hstatus] at hstep₁ hreply₁
  have hevents : op.events = [.request op.dnload op.data,
    .request (Op.classRequest .getstatus 0 6) (List.replicate 6 0), .complete] := rfl
  constructor
  · rw [Core.opStep, hevents, List.foldl_cons, hstep, List.foldl_cons, hstep₁, List.foldl_cons,
      List.foldl_nil, step_complete hdetached₂]
  · rw [hevents, Core.replies, hreply, hstep, Core.replies, hreply₁, hstep₁]
    rfl

/-- What is sent is done behind the status. -/
theorem opStep_received {c : Core σ} {op : Op} {addr : UInt32} (hdetached : c.detached = false)
    (h : c.usbdfuControlRequest B F op.dnload op.data = (c.received op addr, Core.handled [])) :
    c.opStep B F op = (c.busy op addr).usbdfuGetstatusComplete B F ∧
      c.replies B F op.events = Op.accepted :=
  opStep_eq hdetached h hdetached rfl hdetached

theorem dnload_eq (c : Core σ) {op : Op} (hdata : op.data ≠ [])
    (haddr : op.blocknum = 0 → op.data.head? ≠ some cmdSetaddr) :
    c.usbdfuControlRequest B F op.dnload op.data = (c.received op c.prog.addr, Core.handled []) := by
  have hlength : op.data.length ≠ 0 := fun hzero => hdata (List.length_eq_zero_iff.mp hzero)
  have hset : ¬ (op.blocknum = 0 ∧ op.data.getD 0 (c.prog.buf 0) = cmdSetaddr) := by
    rintro ⟨hzero, hcmd⟩
    refine haddr hzero ?_
    obtain ⟨b, bs, hbs⟩ := List.exists_cons_of_ne_nil hdata
    rw [hbs] at hcmd ⊢
    exact congrArg some hcmd
  exact (if_neg op.dnload_class).trans ((if_neg hlength).trans (if_neg hset))

theorem dnload_setAddress (c : Core σ) {addr : UInt32}
    (hrange : ¬ (addr < B.appAddress ∨ B.maxAddress ≤ addr)) :
    c.usbdfuControlRequest B F (Op.dnload (.setAddress addr)) (Op.data (.setAddress addr)) =
      (c.received (.setAddress addr) addr, Core.handled []) := by
  have haddr := getLe32_le32 addr cmdSetaddr c.prog.buf
  refine (if_neg (Op.dnload_class _)).trans ((if_neg (show ¬ 5 = 0 by decide)).trans ?_)
  refine (if_pos (show (0 : UInt16) = 0 ∧ cmdSetaddr = cmdSetaddr from ⟨rfl, rfl⟩)).trans ?_
  show (if getLe32 (fun i => (cmdSetaddr :: Op.le32 addr).getD (i + 1) (c.prog.buf (i + 1))) < _ ∨
    _ ≤ getLe32 (fun i => (cmdSetaddr :: Op.le32 addr).getD (i + 1) (c.prog.buf (i + 1))) then _
    else (_, _)) = _
  rw [haddr, if_neg hrange]
  show (Core.received c _ (getLe32 fun i =>
    (cmdSetaddr :: Op.le32 addr).getD (i + 1) (c.prog.buf (i + 1))), _) = _
  rw [haddr]

theorem dnload_refused (c : Core σ) {addr : UInt32}
    (hrange : addr < B.appAddress ∨ B.maxAddress ≤ addr) :
    c.usbdfuControlRequest B F (Op.dnload (.setAddress addr)) (Op.data (.setAddress addr)) =
      ({ c.received (.setAddress addr) c.prog.addr with
          currentError := dfuStatusErrTarget
          usbdfuState := .dfuError },
        Core.handled []) := by
  have haddr := getLe32_le32 addr cmdSetaddr c.prog.buf
  refine (if_neg (Op.dnload_class _)).trans ((if_neg (show ¬ 5 = 0 by decide)).trans ?_)
  refine (if_pos (show (0 : UInt16) = 0 ∧ cmdSetaddr = cmdSetaddr from ⟨rfl, rfl⟩)).trans ?_
  show (if getLe32 (fun i => (cmdSetaddr :: Op.le32 addr).getD (i + 1) (c.prog.buf (i + 1))) < _ ∨
    _ ≤ getLe32 (fun i => (cmdSetaddr :: Op.le32 addr).getD (i + 1) (c.prog.buf (i + 1))) then _
    else (_, _)) = _
  rw [haddr]
  exact if_pos hrange

/-- What the host is told. -/
def Op.answer (B : Board) : Op → List Reply
  | .setAddress addr =>
    if addr < B.appAddress ∨ B.maxAddress ≤ addr then Op.refused else Op.accepted
  | _ => Op.accepted

/-- An operation does what is asked for. -/
structure Done (B : Board) (F : FlashLib σ) (c : Core σ) (op : Op) : Prop where
  image : (c.opStep B F op).image F = op.apply B (c.image F)
  detached : (c.opStep B F op).detached = false
  replies : c.replies B F op.events = op.answer B

theorem complete_erase {c c' : Core σ} (hstate : c.usbdfuState = .dfuDnbusy)
    (hzero : c.prog.blocknum = 0) (hcmd : c.prog.buf 0 = cmdErase) {addr : UInt32}
    (haddr : (getLe32 fun i => c.prog.buf (i + 1)) = addr)
    (herase : Core.dfuCheckAndDoSectorErase B F addr { c with flash := F.flashUnlock c.flash } = c') :
    c.usbdfuGetstatusComplete B F =
      { c' with flash := F.flashLock c'.flash, usbdfuState := .dfuDnloadIdle } := by
  obtain ⟨state, prog, currentError, lastErasedPage, flash, detached⟩ := c
  obtain rfl : state = .dfuDnbusy := hstate
  rw [← herase, Core.usbdfuGetstatusComplete]
  dsimp only
  rw [if_pos hzero, if_pos hcmd, haddr]

theorem complete_nothing {c : Core σ} (hstate : c.usbdfuState = .dfuDnbusy)
    (hzero : c.prog.blocknum = 0) (hcmd : c.prog.buf 0 ≠ cmdErase) :
    c.usbdfuGetstatusComplete B F =
      { c with flash := F.flashLock (F.flashUnlock c.flash), usbdfuState := .dfuDnloadIdle } := by
  unfold Core.usbdfuGetstatusComplete
  rw [hstate]
  dsimp only
  rw [if_pos hzero, if_neg hcmd]

theorem complete_block {c : Core σ} (hstate : c.usbdfuState = .dfuDnbusy)
    (hblock : c.prog.blocknum ≠ 0) :
    c.usbdfuGetstatusComplete B F =
      { c with
        flash := F.flashLock (Core.dfuFlashProgramBuffer F
          (Core.blockAddress c.prog.addr c.prog.blocknum) c.prog.buf c.prog.len.toNat
          (F.flashUnlock c.flash))
        usbdfuState := .dfuDnloadIdle } := by
  unfold Core.usbdfuGetstatusComplete
  rw [hstate]
  dsimp only
  rw [if_neg hblock]

theorem erase_done (hF : F.Documented B unlocked) {c : Core σ} (hdetached : c.detached = false)
    {addr : UInt32} (h : Proper B F c (.erase addr)) : Done B F c (.erase addr) := by
  have hdnload := dnload_eq (B := B) (F := F) c (show Op.data (.erase addr) ≠ [] from nofun)
    (fun _ => show some cmdErase ≠ some cmdSetaddr by decide)
  obtain ⟨hstep, hreplies⟩ := opStep_received hdetached hdnload
  obtain ⟨hread, hunlocked⟩ := hF.unlock c.flash
  have hproper : B.page addr ≠ c.lastErasedPage ∨
      ∀ a, B.page a = B.page addr → F.read (F.flashUnlock c.flash) a = 0xFF := by
    rw [hread]
    exact h
  obtain ⟨c', hc', hprog, hdetached', hflash⟩ := sectorErase_read hF
    (c := { c.busy (.erase addr) c.prog.addr with flash := F.flashUnlock c.flash }) hunlocked hproper
  have hcomplete := complete_erase (c := c.busy (.erase addr) c.prog.addr) rfl rfl rfl
    (getLe32_le32 addr cmdErase c.prog.buf) hc'
  rw [hcomplete] at hstep
  refine ⟨?_, ?_, hreplies⟩
  · rw [hstep]
    show Image.mk c'.prog.addr (F.read (F.flashLock c'.flash)) = _
    rw [hF.lock, hflash, hprog]
    show Image.mk c.prog.addr
      (fun a => if B.page a = B.page addr then 0xFF else F.read (F.flashUnlock c.flash) a) = _
    rw [hread]
    rfl
  · rw [hstep]
    exact hdetached'.trans hdetached

theorem setAddress_done (hF : F.Documented B unlocked) {c : Core σ}
    (hdetached : c.detached = false) (addr : UInt32) : Done B F c (.setAddress addr) := by
  by_cases hrange : addr < B.appAddress ∨ B.maxAddress ≤ addr
  · obtain ⟨hstep, hreplies⟩ := opStep_eq hdetached (dnload_refused (F := F) c hrange) hdetached rfl
      hdetached
    refine ⟨?_, ?_, ?_⟩
    · rw [hstep]
      exact (if_pos hrange).symm
    · rw [hstep]
      exact hdetached
    · rw [hreplies]
      exact (if_pos hrange).symm
  · obtain ⟨hstep, hreplies⟩ := opStep_received hdetached (dnload_setAddress (F := F) c hrange)
    have hcomplete := complete_nothing (B := B) (F := F) (c := c.busy (.setAddress addr) addr) rfl
      rfl (show cmdSetaddr ≠ cmdErase by decide)
    rw [hcomplete] at hstep
    refine ⟨?_, ?_, ?_⟩
    · rw [hstep]
      show Image.mk addr (F.read (F.flashLock (F.flashUnlock c.flash))) = _
      rw [hF.lock, (hF.unlock c.flash).1]
      exact (if_neg hrange).symm
    · rw [hstep]
      exact hdetached
    · rw [hreplies]
      exact (if_neg hrange).symm

theorem block_done (hF : F.Documented B unlocked) {c : Core σ} (hdetached : c.detached = false)
    {blocknum : UInt16} {data : List (BitVec 8)} (h : Proper B F c (.block blocknum data)) :
    Done B F c (.block blocknum data) := by
  obtain ⟨hblock, hpos, hsize, hlength, heven, hblank⟩ := h
  have hdnload := dnload_eq (B := B) (F := F) c
    (show Op.data (.block blocknum data) ≠ [] from List.ne_nil_of_length_pos hpos)
    (fun hzero => absurd hzero hblock)
  obtain ⟨hstep, hreplies⟩ := opStep_received hdetached hdnload
  have hcomplete := complete_block (B := B) (F := F) (c := c.busy (.block blocknum data) c.prog.addr)
    rfl hblock
  rw [hcomplete] at hstep
  obtain ⟨hread, hunlocked⟩ := hF.unlock c.flash
  have hlen : (UInt16.ofNat data.length).toNat = data.length :=
    UInt16.toNat_ofNat_of_lt' (show data.length < 2 ^ 16 by omega)
  have haddr : (Core.blockAddress c.prog.addr blocknum).toNat % 2 = 0 := by
    rw [Core.blockAddress, UInt32.toNat_add, UInt32.toNat_mul,
      show wTransferSize.toNat = 1024 from rfl]
    omega
  have hprogram := program_buffer hF hunlocked haddr
    (fun i (hi : i < data.length) => List.getD_eq_getElem data (c.prog.buf i) hi) hlength hsize
    (hread ▸ hblank)
  refine ⟨?_, ?_, hreplies⟩
  · rw [hstep]
    show Image.mk c.prog.addr (F.read (F.flashLock (Core.dfuFlashProgramBuffer F
      (Core.blockAddress c.prog.addr blocknum) (fun i => data.getD i (c.prog.buf i))
      (UInt16.ofNat data.length).toNat (F.flashUnlock c.flash)))) = _
    rw [hF.lock, hlen, hprogram, hread]
    rfl
  · rw [hstep]
    exact hdetached

theorem op_done (hF : F.Documented B unlocked) {c : Core σ} (hdetached : c.detached = false)
    {op : Op} (h : Proper B F c op) : Done B F c op := by
  cases op with
  | erase addr => exact erase_done hF hdetached h
  | setAddress addr => exact setAddress_done hF hdetached addr
  | block blocknum data => exact block_done hF hdetached h

theorem ops_done (hF : F.Documented B unlocked) {ops : List Op} {c : Core σ}
    (h : Guarded (Core.opStep B F) (Proper B F) c ops) (hdetached : c.detached = false) :
    (ops.foldl (Core.opStep B F) c).image F = ops.foldl (fun i op => op.apply B i) (c.image F) ∧
      (ops.foldl (Core.opStep B F) c).detached = false ∧
      c.replies B F (ops.flatMap Op.events) = ops.flatMap (Op.answer B) := by
  induction ops generalizing c with
  | nil => exact ⟨rfl, hdetached, rfl⟩
  | cons op ops ih =>
    obtain ⟨himage, hdetached', hreplies⟩ := op_done hF hdetached h.1
    obtain ⟨himages, hdetacheds, hanswers⟩ := ih h.2 hdetached'
    refine ⟨?_, hdetacheds, ?_⟩
    · rw [List.foldl_cons, himages, himage, List.foldl_cons]
    · rw [List.flatMap_cons, replies_append, hreplies, List.flatMap_cons]
      exact congrArg _ hanswers

/-- The host asks for a block. -/
def upload (block : UInt16 × UInt16) : Event :=
  .request (Op.classRequest .upload block.1 block.2) (List.replicate block.2.toNat 0)

def abort : Event := .request (Op.classRequest .abort 0 0) []

/-- The flash that a block is read from. -/
def Image.block (i : Image) (block : UInt16 × UInt16) : List (BitVec 8) :=
  readBytes i.mem (Core.blockAddress i.addr block.1) block.2.toNat

/-- The boot loader can be asked for blocks. -/
def Readable (c : Core σ) : Prop :=
  c.usbdfuState = .dfuIdle ∨ c.usbdfuState = .dfuDnloadIdle ∨ c.usbdfuState = .dfuUploadIdle

theorem upload_reads {c : Core σ} (hdetached : c.detached = false) (hstate : Readable c)
    {block : UInt16 × UInt16} (hblock : 1 < block.1) :
    ∃ c', c.step B F (upload block) = c' ∧ c'.image F = c.image F ∧ c'.detached = false ∧
      Readable c' ∧ c.reply B F (upload block) = [Core.handled ((c.image F).block block)] := by
  obtain ⟨hstep, hreply⟩ := step_request (B := B) (F := F) hdetached
    (Op.classRequest .upload block.1 block.2) (List.replicate block.2.toNat 0)
  have hclass : ¬ ((0x21 : BitVec 8) &&& 0x7F ≠ 0x21) := by decide
  have hrequest : c.usbdfuControlRequest B F (Op.classRequest .upload block.1 block.2)
      (List.replicate block.2.toNat 0) =
      ({ c with prog := { c.prog with blocknum := block.1 }, usbdfuState := .dfuUploadIdle },
        Core.handled ((c.image F).block block)) := by
    refine (if_neg hclass).trans ((if_pos hstate).trans ?_)
    exact congrArg (fun data => (_, Core.handled data)) (if_pos hblock)
  rw [hrequest] at hstep hreply
  exact ⟨_, hstep, rfl, hdetached, Or.inr (Or.inr rfl), hreply⟩

theorem uploads_read {blocks : List (UInt16 × UInt16)} (hblocks : ∀ b ∈ blocks, 1 < b.1)
    {c : Core σ} (hdetached : c.detached = false) (hstate : Readable c) :
    c.replies B F (blocks.map upload) = blocks.map fun b => Core.handled ((c.image F).block b) := by
  induction blocks generalizing c with
  | nil => rfl
  | cons b blocks ih =>
    obtain ⟨c', hstep, himage, hdetached', hstate', hreply⟩ := upload_reads (B := B) (F := F)
      hdetached hstate (hblocks b List.mem_cons_self)
    rw [List.map_cons, Core.replies, hreply, hstep,
      ih (fun b' hb' => hblocks b' (List.mem_cons_of_mem b hb')) hdetached' hstate', himage,
      List.map_cons]
    rfl

end

/-! ## Images -/

/-- An image in parts that are sent as blocks, of which all but the last are full. -/
def Parts : List (List (BitVec 8)) → Prop
  | [] => True
  | part :: parts => part.length ≤ 1024 ∧ (parts ≠ [] → part.length = 1024) ∧ Parts parts

/-- The parts as blocks from a number on. -/
def blockOps : UInt16 → List (List (BitVec 8)) → List Op
  | _, [] => []
  | blocknum, part :: parts => .block blocknum part :: blockOps (blocknum + 1) parts

/-- The numbers and the lengths of the parts. -/
def blockSizes : UInt16 → List (List (BitVec 8)) → List (UInt16 × UInt16)
  | _, [] => []
  | blocknum, part :: parts =>
    (blocknum, UInt16.ofNat part.length) :: blockSizes (blocknum + 1) parts

theorem Parts.length_le {parts : List (List (BitVec 8))} (h : Parts parts) :
    parts.flatten.length ≤ 1024 * parts.length := by
  induction parts with
  | nil => exact Nat.le_refl _
  | cons part parts ih =>
    have hrest := ih h.2.2
    have hpart := h.1
    rw [List.flatten_cons, List.length_append, List.length_cons]
    omega

theorem blockAddress_succ (addr : UInt32) {blocknum : UInt16} (h : blocknum.toNat + 1 < 2 ^ 16) :
    Core.blockAddress addr (blocknum + 1) = Core.blockAddress addr blocknum + UInt32.ofNat 1024 := by
  have hnum : (blocknum + 1).toNat = blocknum.toNat + 1 := by
    rw [UInt16.toNat_add]
    exact Nat.mod_eq_of_lt h
  have hsucc : (blocknum + 1).toUInt32 = blocknum.toUInt32 + 1 := by
    refine UInt32.toNat_inj.mp ?_
    rw [UInt16.toNat_toUInt32, hnum, UInt32.toNat_add, UInt16.toNat_toUInt32]
    exact (Nat.mod_eq_of_lt (show blocknum.toNat + 1 < 2 ^ 32 by omega)).symm
  have hsub : blocknum.toUInt32 + 1 - 2 = blocknum.toUInt32 - 2 + 1 := by
    rw [UInt32.sub_eq_add_neg, UInt32.sub_eq_add_neg, UInt32.add_assoc, UInt32.add_comm 1,
      ← UInt32.add_assoc]
  rw [Core.blockAddress, hsucc, hsub, UInt32.add_mul, UInt32.one_mul, ← UInt32.add_assoc]
  rfl

/-- The parts of an image, placed one by one. -/
theorem overlay_part {part : List (BitVec 8)} {parts : List (List (BitVec 8))}
    (h : Parts (part :: parts)) {blocknum : UInt16}
    (hnum : blocknum.toNat + (part :: parts).length ≤ 2 ^ 16) (addr : UInt32)
    (mem : UInt32 → BitVec 8) :
    overlay (overlay mem (Core.blockAddress addr blocknum) part)
        (Core.blockAddress addr (blocknum + 1)) parts.flatten =
      overlay mem (Core.blockAddress addr blocknum) (part :: parts).flatten := by
  have hlength := h.2.2.length_le
  rw [List.length_cons] at hnum
  cases parts with
  | nil =>
    rw [List.flatten_nil, overlay_nil, List.flatten_singleton]
  | cons part' parts' =>
    have hfull : part.length = 1024 := h.2.1 nofun
    rw [List.length_cons] at hnum hlength
    rw [blockAddress_succ addr (by omega), List.flatten_cons (L := part' :: parts')]
    refine overlay_append (by rw [hfull]; rfl) ?_ mem
    omega

theorem next_le {blocknum : UInt16} {n : Nat} (h : blocknum.toNat + (n + 1) ≤ 2 ^ 16) :
    (blocknum + 1).toNat + n ≤ 2 ^ 16 := by
  rw [UInt16.toNat_add, show (1 : UInt16).toNat = 1 from rfl]
  have hle := Nat.mod_le (blocknum.toNat + 1) (2 ^ 16)
  omega

theorem blockOps_apply (B : Board) {parts : List (List (BitVec 8))} (h : Parts parts)
    {blocknum : UInt16} (hnum : blocknum.toNat + parts.length ≤ 2 ^ 16) (i : Image) :
    (blockOps blocknum parts).foldl (fun i op => op.apply B i) i =
      { i with mem := overlay i.mem (Core.blockAddress i.addr blocknum) parts.flatten } := by
  induction parts generalizing blocknum i with
  | nil =>
    show i = { i with mem := overlay i.mem _ [] }
    rw [overlay_nil]
  | cons part parts ih =>
    rw [blockOps, List.foldl_cons, ih h.2.2 (next_le hnum)]
    exact congrArg (Image.mk i.addr) (overlay_part h hnum i.addr i.mem)

/-- The parts of an image are read back. -/
theorem blockSizes_read {parts : List (List (BitVec 8))} (h : Parts parts) {blocknum : UInt16}
    (hnum : blocknum.toNat + parts.length ≤ 2 ^ 16) (addr : UInt32) (mem : UInt32 → BitVec 8) :
    (blockSizes blocknum parts).map
      (Image.block ⟨addr, overlay mem (Core.blockAddress addr blocknum) parts.flatten⟩) = parts := by
  induction parts generalizing blocknum mem with
  | nil => rfl
  | cons part parts ih =>
    have hlength := h.length_le
    have hpart := h.1
    rw [List.length_cons] at hlength hnum
    have hsize : (UInt16.ofNat part.length).toNat = part.length :=
      UInt16.toNat_ofNat_of_lt' (show part.length < 2 ^ 16 by omega)
    have hall : readBytes (overlay mem (Core.blockAddress addr blocknum) (part :: parts).flatten)
        (Core.blockAddress addr blocknum) (part :: parts).flatten.length = (part :: parts).flatten :=
      readBytes_overlay mem _ (by omega)
    rw [List.flatten_cons, List.length_append, readBytes_add] at hall
    have hfirst := (List.append_inj hall (readBytes_length _ _ _)).1
    have hrest := ih h.2.2 (next_le hnum) (overlay mem (Core.blockAddress addr blocknum) part)
    rw [overlay_part h hnum] at hrest
    rw [blockSizes, List.map_cons, hrest]
    refine congrArg (· :: parts) ?_
    show readBytes _ _ (UInt16.ofNat part.length).toNat = part
    rw [hsize]
    exact hfirst

theorem blockSizes_lt {parts : List (List (BitVec 8))} {blocknum : UInt16} (hblock : 1 < blocknum)
    (hnum : blocknum.toNat + parts.length ≤ 2 ^ 16) : ∀ b ∈ blockSizes blocknum parts, 1 < b.1 := by
  induction parts generalizing blocknum with
  | nil => nofun
  | cons part parts ih =>
    intro b hb
    rcases List.mem_cons.mp hb with rfl | hb
    · exact hblock
    · cases parts with
      | nil => exact nomatch hb
      | cons part' parts =>
        refine ih ?_ (next_le hnum) b hb
        simp only [List.length_cons] at hnum
        rw [UInt16.lt_iff_toNat_lt] at hblock ⊢
        rw [UInt16.toNat_add, show (1 : UInt16).toNat = 1 from rfl,
          Nat.mod_eq_of_lt (show blocknum.toNat + 1 < 2 ^ 16 by omega)]
        exact Nat.lt_succ_of_lt hblock

section

variable {σ : Type*} {B : Board} {F : FlashLib σ} {unlocked : σ → Prop}

/-- Flash is erased and programmed for the application only: the page is one of its pages, and blocks
are numbered from 2 on, behind an address that has been set. -/
def ForApplication (B : Board) (c : Core σ) : Event → Prop
  | .request req data => req.bRequest = .dnload →
    data.length ≤ 1024 ∧
      (req.wValue = 0 → data.head? = some cmdErase →
        5 ≤ data.length ∧ B.appAddress ≤ B.page (getLe32 fun i => data.getD (i + 1) 0)) ∧
      (req.wValue ≠ 0 → 2 ≤ req.wValue ∧ B.appAddress ≤ c.prog.addr)
  | .complete => True

/-- What is to be done behind the status is for the application. -/
structure Pending (B : Board) (c : Core σ) : Prop where
  addr_lt : c.prog.addr.toNat < 0x08400000
  pending : c.usbdfuState = .dfuDnloadSync ∨ c.usbdfuState = .dfuDnbusy →
    c.prog.len.toNat ≤ 1024 ∧
      (c.prog.blocknum = 0 → c.prog.buf 0 = cmdErase →
        B.appAddress ≤ B.page (getLe32 fun i => c.prog.buf (i + 1))) ∧
      (c.prog.blocknum ≠ 0 → 2 ≤ c.prog.blocknum ∧ B.appAddress ≤ c.prog.addr)

theorem Pending.of_else {c : Core σ} (haddr : c.prog.addr.toNat < 0x08400000)
    (hsync : c.usbdfuState ≠ .dfuDnloadSync) (hbusy : c.usbdfuState ≠ .dfuDnbusy) : Pending B c :=
  ⟨haddr, fun hstate => (hstate.elim hsync hbusy).elim⟩

theorem maxAddress_lt (B : Board) : B.maxAddress.toNat < 0x08400000 := by
  have hsize : ∀ f : UInt32, f ≤ 0xfff → (flashBase + f <<< 10).toNat < 0x08400000 := by
    intro f hf
    have hle : f.toNat ≤ 0xfff := UInt32.le_iff_toNat_le.mp hf
    have hshift : (f <<< 10).toNat = f.toNat * 1024 % 2 ^ 32 := by
      rw [UInt32.toNat_shiftLeft]
      exact congrArg (· % 2 ^ 32) (Nat.shiftLeft_eq _ _)
    rw [UInt32.toNat_add, hshift, show flashBase.toNat = 0x08000000 from rfl]
    omega
  unfold Board.maxAddress
  dsimp only
  split
  · exact hsize _ (by decide)
  · exact hsize _ UInt32.and_le_right

/-- The address of a block is not below the one that has been set. -/
theorem blockAddress_le {addr : UInt32} (haddr : addr.toNat < 0x08400000) {blocknum : UInt16}
    (h : 2 ≤ blocknum) : addr ≤ Core.blockAddress addr blocknum ∧
      (Core.blockAddress addr blocknum).toNat + 1024 < 2 ^ 32 := by
  have hle : 2 ≤ blocknum.toNat := UInt16.le_iff_toNat_le.mp h
  have hlt := blocknum.toNat_lt
  have hsub : (blocknum.toUInt32 - 2).toNat = blocknum.toNat - 2 := by
    rw [UInt32.toNat_sub_of_le _ _ (UInt32.le_iff_toNat_le.mpr (by
      rw [UInt16.toNat_toUInt32]
      exact hle)), UInt16.toNat_toUInt32]
    rfl
  have haddress : (Core.blockAddress addr blocknum).toNat =
      addr.toNat + (blocknum.toNat - 2) * 1024 := by
    rw [Core.blockAddress, UInt32.toNat_add, UInt32.toNat_mul, hsub,
      show wTransferSize.toNat = 1024 from rfl]
    omega
  rw [UInt32.le_iff_toNat_le, haddress]
  omega

theorem page_le (B : Board) (a : UInt32) : B.page a ≤ a := UInt32.and_le_left

theorem sectorErase_below (hF : F.Documented B unlocked) {c : Core σ} (h : unlocked c.flash)
    {addr a : UInt32} (hpage : B.appAddress ≤ B.page addr) (ha : a < B.appAddress) :
    ∃ c' : Core σ, c.dfuCheckAndDoSectorErase B F addr = c' ∧ c'.prog = c.prog ∧
      F.read c'.flash a = F.read c.flash a := by
  refine ⟨_, rfl, ?_⟩
  unfold Core.dfuCheckAndDoSectorErase
  split
  · refine ⟨rfl, ?_⟩
    show F.read (F.flashErasePage (B.page addr) c.flash) a = _
    rw [hF.erase h]
    refine if_neg fun heq => ?_
    have hle := page_le B a
    rw [heq] at hle
    exact UInt32.lt_irrefl _ (UInt32.lt_of_le_of_lt (UInt32.le_trans hpage hle) ha)
  · exact ⟨rfl, rfl⟩

theorem program_below (hF : F.Documented B unlocked) {base a : UInt32} (ha : a < base)
    (hbase : base.toNat + 1024 < 2 ^ 32) {len : Nat} (hlen : len ≤ 1024) (buf : Nat → BitVec 8)
    (flash : σ) : F.read (Core.dfuFlashProgramBuffer F base buf len flash) a = F.read flash a := by
  have hlist : ∀ ks : List Nat, (∀ k ∈ ks, 2 * k < 1024) → ∀ flash : σ,
      F.read (ks.foldl (fun flash k => F.flashProgramHalfWord (base + UInt32.ofNat (2 * k))
        (buf (2 * k + 1) ++ buf (2 * k)) flash) flash) a = F.read flash a := by
    intro ks
    induction ks with
    | nil => exact fun _ _ => rfl
    | cons k ks ih =>
      intro hks flash
      have hk := hks k List.mem_cons_self
      have hlt : a.toNat < base.toNat := UInt32.lt_iff_toNat_lt.mp ha
      have haddr : (base + UInt32.ofNat (2 * k)).toNat = base.toNat + 2 * k := by
        rw [UInt32.toNat_add, UInt32.toNat_ofNat_of_lt' (show 2 * k < 2 ^ 32 by omega)]
        exact Nat.mod_eq_of_lt (by omega)
      have hnext : (base + UInt32.ofNat (2 * k) + 1).toNat = base.toNat + 2 * k + 1 := by
        rw [UInt32.toNat_add, haddr]
        exact Nat.mod_eq_of_lt (show base.toNat + 2 * k + 1 < 2 ^ 32 by omega)
      rw [List.foldl_cons, ih fun k' hk' => hks k' (List.mem_cons_of_mem k hk')]
      refine hF.program_else (fun heq => ?_) (fun heq => ?_) _
      · rw [heq, haddr] at hlt
        omega
      · rw [heq, hnext] at hlt
        omega
  refine hlist _ (fun k hk => ?_) flash
  have hlt := List.mem_range.mp hk
  omega

/-- Behind the status, the flash below the application is as it was. -/
theorem complete_below (hF : F.Documented B unlocked) {c : Core σ} (h : Pending B c) {a : UInt32}
    (ha : a < B.appAddress) :
    Pending B (c.usbdfuGetstatusComplete B F) ∧
      F.read (c.usbdfuGetstatusComplete B F).flash a = F.read c.flash a := by
  obtain ⟨hread, hunlocked⟩ := hF.unlock c.flash
  by_cases hbusy : c.usbdfuState = .dfuDnbusy
  · obtain ⟨hlen, herase, hblock⟩ := h.pending (Or.inr hbusy)
    by_cases hzero : c.prog.blocknum = 0
    · by_cases hcmd : c.prog.buf 0 = cmdErase
      · obtain ⟨c', hc', hprog, hflash⟩ := sectorErase_below hF
          (c := { c with flash := F.flashUnlock c.flash }) hunlocked (herase hzero hcmd) ha
        rw [complete_erase hbusy hzero hcmd rfl hc']
        have haddr : c'.prog.addr.toNat < 0x08400000 := by
          rw [hprog]
          exact h.addr_lt
        refine ⟨.of_else haddr nofun nofun, ?_⟩
        show F.read (F.flashLock c'.flash) a = _
        rw [hF.lock, hflash, hread]
      · rw [complete_nothing hbusy hzero hcmd]
        refine ⟨.of_else h.addr_lt nofun nofun, ?_⟩
        show F.read (F.flashLock (F.flashUnlock c.flash)) a = _
        rw [hF.lock, hread]
    · rw [complete_block hbusy hzero]
      obtain ⟨hnum, haddr⟩ := hblock hzero
      obtain ⟨hle, hbound⟩ := blockAddress_le h.addr_lt hnum
      refine ⟨.of_else h.addr_lt nofun nofun, ?_⟩
      have hlt := UInt32.lt_of_lt_of_le ha (UInt32.le_trans haddr hle)
      show F.read (F.flashLock (Core.dfuFlashProgramBuffer F _ _ _ (F.flashUnlock c.flash))) a = _
      rw [hF.lock, program_below hF hlt hbound hlen, hread]
  · unfold Core.usbdfuGetstatusComplete
    split
    next hstate => exact absurd hstate hbusy
    next => exact ⟨⟨h.addr_lt, h.pending⟩, rfl⟩
    next => exact ⟨h, rfl⟩

theorem getstatus_flash (c : Core σ) : c.usbdfuGetstatus.2.2.flash = c.flash := by
  unfold Core.usbdfuGetstatus
  split <;> rfl

/-- A request does not change the flash. -/
theorem request_flash (req : SetupData) (data : List (BitVec 8)) (c : Core σ) :
    (c.usbdfuControlRequest B F req data).1.flash = c.flash := by
  unfold Core.usbdfuControlRequest
  split
  · rfl
  split
  next =>
    split
    · rfl
    · dsimp only
      split
      · split <;> rfl
      · rfl
  next => dsimp only; split <;> rfl
  next => rfl
  next => split <;> rfl
  next => exact getstatus_flash c
  next => rfl
  next => rfl

/-- A status does not change what is to be done. -/
theorem getstatus_pending {c : Core σ} (h : Pending B c) : Pending B c.usbdfuGetstatus.2.2 := by
  unfold Core.usbdfuGetstatus
  split
  next hstate => exact ⟨h.addr_lt, fun _ => h.pending (Or.inl hstate)⟩
  next => exact .of_else h.addr_lt nofun nofun
  next => exact h
  next => exact h

theorem getLe32_congr {p q : Nat → BitVec 8} (h : ∀ i < 4, p i = q i) : getLe32 p = getLe32 q := by
  rw [getLe32, getLe32, h 0 (by decide), h 1 (by decide), h 2 (by decide), h 3 (by decide)]

theorem request_pending {c : Core σ} (h : Pending B c) {req : SetupData} {data : List (BitVec 8)}
    (hfor : ForApplication B c (.request req data)) :
    Pending B (c.usbdfuControlRequest B F req data).1 := by
  unfold Core.usbdfuControlRequest
  split
  · exact h
  split
  next hreq =>
    obtain ⟨hlen, herase, hblock⟩ := hfor hreq
    split
    · exact .of_else h.addr_lt nofun nofun
    next hdata =>
      have hlength : (UInt16.ofNat data.length).toNat ≤ 1024 := by
        rw [UInt16.toNat_ofNat_of_lt' (show data.length < 2 ^ 16 by omega)]
        exact hlen
      dsimp only
      split
      next hset =>
        split
        next hrange => exact .of_else h.addr_lt nofun nofun
        next hrange =>
          have haddr := UInt32.lt_iff_toNat_lt.mp (UInt32.not_le.mp fun hle => hrange (Or.inr hle))
          refine ⟨Nat.lt_trans haddr (maxAddress_lt B), fun _ => ⟨hlength, ?_, ?_⟩⟩
          · exact fun _ hcmd => absurd (hset.2.symm.trans hcmd) (by decide)
          · exact fun hblock' => absurd hset.1 hblock'
      next hset =>
        refine ⟨h.addr_lt, fun _ => ⟨hlength, fun hzero hcmd => ?_, hblock⟩⟩
        obtain ⟨b, bs, rfl⟩ := List.exists_cons_of_length_pos (Nat.pos_of_ne_zero hdata)
        obtain ⟨hlong, hpage⟩ := herase hzero (congrArg some hcmd)
        have hsame : (getLe32 fun i => (b :: bs).getD (i + 1) (c.prog.buf (i + 1))) =
            getLe32 fun i => (b :: bs).getD (i + 1) 0 := by
          refine getLe32_congr fun i hi => ?_
          have hlt : i + 1 < (b :: bs).length := by omega
          rw [List.getD_eq_getElem _ _ hlt, List.getD_eq_getElem _ _ hlt]
        rw [hsame]
        exact hpage
  next =>
    split
    · exact .of_else h.addr_lt nofun nofun
    · exact h
  next => exact .of_else h.addr_lt nofun nofun
  next =>
    split
    · exact .of_else h.addr_lt nofun nofun
    · exact h
  next => exact getstatus_pending h
  next => exact h
  next => exact h

theorem step_below (hF : F.Documented B unlocked) {c : Core σ} (h : Pending B c) {e : Event}
    (hfor : ForApplication B c e) {a : UInt32} (ha : a < B.appAddress) :
    Pending B (c.step B F e) ∧ F.read (c.step B F e).flash a = F.read c.flash a := by
  unfold Core.step
  split
  · exact ⟨h, rfl⟩
  · cases e with
    | request req data =>
      exact ⟨request_pending h hfor, congrArg (F.read · a) (request_flash req data c)⟩
    | complete => exact complete_below hF h ha

end

/-! ## An example -/

/-- A flash that is not programmed but into erased half-words. -/
def plainFlash (B : Board) : FlashLib (UInt32 → BitVec 8) where
  read := id
  flashUnlock := id
  flashLock := id
  flashErasePage page m := fun a => if B.page a = page then 0xFF else m a
  flashProgramHalfWord addr v m :=
    if m addr = 0xFF ∧ m (addr + 1) = 0xFF then
      overlay m addr [v.extractLsb' 0 8, v.extractLsb' 8 8]
    else m

theorem plainFlash_documented (B : Board) : (plainFlash B).Documented B fun _ => True where
  unlock _ := ⟨rfl, trivial⟩
  lock _ := rfl
  erase _ _ _ := rfl
  program {s} _ {addr} _ hlow hhigh low high := by
    have hl : (high ++ low).extractLsb' 0 8 = low := by
      rw [BitVec.extractLsb'_append_eq_of_add_le (by decide)]
      exact BitVec.extractLsb'_eq_self
    have hh : (high ++ low).extractLsb' 8 8 = high := by
      rw [BitVec.extractLsb'_append_eq_of_le (by decide)]
      exact BitVec.extractLsb'_eq_self
    show (if _ then overlay s addr [_, _] else s) = _
    rw [if_pos ⟨hlow, hhigh⟩, hl, hh]
    rfl
  program_unlocked _ _ _ := trivial
  program_else {s addr a} h h' v := by
    show (if _ then overlay s addr [_, _] else s) a = s a
    split
    · refine overlay_outside s ?_
      have hne : ∀ k : UInt32, a ≠ addr + k → (a - addr) ≠ k := by
        rintro k hk rfl
        exact hk (by rw [UInt32.add_comm, UInt32.sub_add_cancel])
      have hzero := hne 0 (by rwa [UInt32.add_zero])
      have hone := hne 1 h'
      rw [ne_eq, ← UInt32.toNat_inj] at hzero hone
      change (a - addr).toNat ≠ 0 at hzero
      change (a - addr).toNat ≠ 1 at hone
      exact (show 2 ≤ (a - addr).toNat by omega)
    · rfl

def board : Board := ⟨0x08002000, 1024, 0x80⟩

def pageErase : List Op := [.erase 0x08002000]

def pair : List (List (BitVec 8)) := [[1, 2]]

theorem pair_proper :
    Guarded (Core.opStep board (plainFlash board)) (Proper board (plainFlash board))
      (Core.start fun _ => 0) (pageErase ++ .setAddress 0x08002000 :: blockOps 2 pair) := by
  refine ⟨Or.inl (by decide), trivial, ⟨by decide, by decide, by decide, by decide, by decide, ?_⟩,
    trivial⟩
  intro k hk
  have hk' : k = 0 ∨ k = 1 := by
    change k < 2 at hk
    omega
  rcases hk' with rfl | rfl
  · rfl
  · rfl

theorem pair_forApplication :
    Guarded (Core.step board (plainFlash board)) (ForApplication board) (Core.start fun _ => 0)
      ((pageErase ++ .setAddress 0x08002000 :: blockOps 2 pair).flatMap Op.events) :=
  ⟨fun _ => ⟨by decide, fun _ _ => ⟨by decide, by decide⟩, fun h => absurd rfl h⟩, nofun, trivial,
    fun _ => ⟨by decide, fun _ => nofun, fun h => absurd rfl h⟩, nofun, trivial,
    fun _ => ⟨by decide, nofun, fun _ => ⟨by decide, by decide⟩⟩, nofun, trivial, trivial⟩

end MiyakoLink.Platform.Dfu
