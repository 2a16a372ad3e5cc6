import MiyakoLink.Adiv5.RoundTrip

/-!
# The reads that `firmware_mem_read` makes on the bus

A read of `DRW` is posted: it reads the bus at the transfer address and returns the result of
the read before it. `Traced` keeps the reads of an access port on the bus. The loop of
`firmware_mem_read` fetches one unit ahead. Where the pointer enters the next page of 1 KiB, the
unit ahead has been fetched at an address past the increment before the transfer address is
loaded, and it is fetched again.

* `firmwareMemRead_forget`: without the trace it is the function of the module before.
* `staysInside_iff`: the reads on the bus are those of the request, each once and in order, if
  and only if the request does not cross a page.
-/

namespace MiyakoLink.Adiv5

open Lib

/-- An access port, with the address and the width of each read it has made on the bus. -/
structure Traced where
  port : MemAp
  reads : List (UInt32 × UInt32)

section
variable (H : Hw) (ap : Ap)

def Traced.lowWrite (apsel : UInt8) (addr : UInt16) (value : UInt32) (t : Traced) : Traced :=
  ⟨t.port.lowWrite H apsel addr value, t.reads⟩

/-- Only a read of `DRW` reads on the bus. -/
def Traced.lowRead (apsel : UInt8) (addr : UInt16) (t : Traced) : UInt32 × Traced :=
  let (value, port) := t.port.lowRead H apsel addr
  if addr = apDrw ∧ t.port.select = apsel.toUInt32 <<< 24 then
    (value, ⟨port, t.reads ++ [(t.port.unit, t.port.width)]⟩)
  else (value, ⟨port, t.reads⟩)

/-- The state of the loop of `firmware_mem_read`. -/
structure TracedRead where
  ram : Mem32
  dest : UInt32
  src : UInt32
  osrc : UInt32
  ap : Traced

/-- The body of the loop. -/
def tracedTurn (align : Align) (s : TracedRead) : TracedRead :=
  let (tmp, t) := s.ap.lowRead H ap.apsel apDrw
  let (ram, dest) := extract s.ram s.dest s.src tmp align
  let src := s.src + align.step
  -- Check for 10 bit address overflow
  if (src ^^^ s.osrc) &&& pageMask ≠ 0 then
    let t := t.lowWrite H ap.apsel apTar src
    let (_, t) := t.lowRead H ap.apsel apDrw
    ⟨ram, dest, src, src, t⟩
  else
    ⟨ram, dest, src, s.osrc, t⟩

/-- `firmware_mem_read`. -/
def firmwareMemRead (dest src len : UInt32) (ram : Mem32) (t : Traced) : Mem32 × Traced :=
  let align := minAlign (alignof src) (alignof len)
  if len = 0 then (ram, t)
  else
    let len := len >>> align.code
    let t : Traced := ⟨apMemAccessSetup H ap src align t.port, t.reads⟩
    let (_, t) := t.lowRead H ap.apsel apDrw
    -- `while (--len)`
    let s := (tracedTurn H ap align)^[(len - 1).toNat] ⟨ram, dest, src, src, t⟩
    let (tmp, t) := s.ap.lowRead H ap.apsel dpRdbuff
    ((extract s.ram s.dest s.src tmp align).1, t)

end

/-- The cells are aligned to their width, and lie one after the other from `src` on, up to its
distance `len`. -/
def Tiles : UInt32 → Nat → List (UInt32 × UInt32) → Prop
  | _, len, [] => len = 0
  | src, len, (addr, width) :: rest =>
    addr = src ∧ 0 < width.toNat ∧ addr.toNat % width.toNat = 0 ∧ width.toNat ≤ len ∧
      Tiles (src + width) (len - width.toNat) rest

instance : (src : UInt32) → (len : Nat) → (cells : List (UInt32 × UInt32)) →
    Decidable (Tiles src len cells)
  | _, _, [] => inferInstanceAs (Decidable (_ = _))
  | src, len, (_, width) :: rest =>
    haveI := instDecidableTiles (src + width) (len - width.toNat) rest
    inferInstanceAs (Decidable (_ ∧ _ ∧ _ ∧ _ ∧ _))

/-- A read of the bytes from `src` on reads the cells of these bytes on the bus, each once and in
order, and fills the buffer with them. -/
def StaysInside (H : Hw) (ap : Ap) (m : MemAp) (ram : Mem32) (dest src len : UInt32) : Prop :=
  Tiles src len.toNat (firmwareMemRead H ap dest src len ram ⟨m, []⟩).2.reads ∧
    (firmwareMemRead H ap dest src len ram ⟨m, []⟩).1 =
      overlay ram dest (readBytes m.mem src len.toNat)

/-! ## Cells -/

theorem Tiles.append {src width : UInt32} {len : Nat} {cells : List (UInt32 × UInt32)}
    (h : Tiles src len cells) (hpos : 0 < width.toNat)
    (haligned : (src + UInt32.ofNat len).toNat % width.toNat = 0) :
    Tiles src (len + width.toNat) (cells ++ [(src + UInt32.ofNat len, width)]) := by
  induction cells generalizing src len with
  | nil =>
    obtain rfl : len = 0 := h
    have hsrc : src + UInt32.ofNat 0 = src := UInt32.add_zero src
    refine ⟨hsrc, hpos, haligned, by omega, ?_⟩
    show 0 + width.toNat - width.toNat = 0
    omega
  | cons c cells ih =>
    obtain ⟨addr, w⟩ := c
    obtain ⟨haddr, hw, ha, hle, hrest⟩ := h
    have hnext : src + w + UInt32.ofNat (len - w.toNat) = src + UInt32.ofNat len := by
      rw [UInt32.add_assoc, ← @UInt32.ofNat_toNat w, ← UInt32.ofNat_add, UInt32.toNat_ofNat',
        Nat.mod_eq_of_lt w.toNat_lt, Nat.add_sub_cancel' hle]
    refine ⟨haddr, hw, ha, by omega, ?_⟩
    have hcells := ih hrest (by rw [hnext]; exact haligned)
    rw [hnext] at hcells
    rw [show len + width.toNat - w.toNat = len - w.toNat + width.toNat by omega]
    exact hcells

/-- Cells of one width are counted by the length. -/
theorem Tiles.length {src width : UInt32} {len : Nat} {cells : List (UInt32 × UInt32)}
    (h : Tiles src len cells) (hwidth : ∀ c ∈ cells, c.2 = width) :
    cells.length * width.toNat = len := by
  induction cells generalizing src len with
  | nil =>
    obtain rfl : len = 0 := h
    exact Nat.zero_mul _
  | cons c cells ih =>
    obtain ⟨addr, w⟩ := c
    obtain ⟨-, -, -, hle, hrest⟩ := h
    obtain rfl : w = width := hwidth _ (List.mem_cons_self ..)
    have hcount := ih hrest fun c hc => hwidth c (List.mem_cons_of_mem _ hc)
    rw [List.length_cons, Nat.succ_mul, hcount]
    omega

/-! ## Without the trace -/

section
variable {H : Hw} {ap : Ap} {align : Align}

def TracedRead.forget (s : TracedRead) : ReadState := ⟨s.ram, s.dest, s.src, s.osrc, s.ap.port⟩

theorem lowRead_drw_traced {t : Traced} (h : t.port.select = ap.apsel.toUInt32 <<< 24) :
    t.lowRead H ap.apsel apDrw = (t.port.rdbuff, ⟨(t.port.lowRead H ap.apsel apDrw).2,
      t.reads ++ [(t.port.unit, t.port.width)]⟩) := by
  rw [Traced.lowRead, MemAp.lowRead_drw h]
  exact if_pos ⟨rfl, h⟩

theorem lowRead_rdbuff_traced {t : Traced} :
    t.lowRead H ap.apsel dpRdbuff = (t.port.rdbuff, t) := by
  rw [Traced.lowRead, MemAp.lowRead_rdbuff]
  exact if_neg fun h => absurd h.1 (by decide)

variable (H ap) in
theorem lowRead_forget (addr : UInt16) (t : Traced) :
    (t.lowRead H ap.apsel addr).1 = (t.port.lowRead H ap.apsel addr).1 ∧
      (t.lowRead H ap.apsel addr).2.port = (t.port.lowRead H ap.apsel addr).2 := by
  unfold Traced.lowRead
  dsimp only
  split
  · exact ⟨rfl, rfl⟩
  · exact ⟨rfl, rfl⟩

theorem tracedTurn_forget (s : TracedRead) :
    (tracedTurn H ap align s).forget = readTurn H ap align s.forget := by
  obtain ⟨ram, dest, src, osrc, t⟩ := s
  obtain ⟨hvalue, hport⟩ := lowRead_forget H ap apDrw t
  obtain ⟨-, hagain⟩ := lowRead_forget H ap apDrw
    ((t.lowRead H ap.apsel apDrw).2.lowWrite H ap.apsel apTar (src + align.step))
  rw [Traced.lowWrite, hport] at hagain
  unfold tracedTurn readTurn TracedRead.forget
  dsimp only
  rw [hvalue]
  by_cases hcross : (src + align.step ^^^ osrc) &&& pageMask = 0
  · rw [if_neg (not_not.mpr hcross), if_neg (not_not.mpr hcross)]
    dsimp only
    rw [hport]
  · rw [if_pos hcross, if_pos hcross]
    dsimp only
    rw [Traced.lowWrite, hport, hagain]

variable (H ap align) in
theorem tracedTurns_forget (n : Nat) (s : TracedRead) :
    ((tracedTurn H ap align)^[n] s).forget = (readTurn H ap align)^[n] s.forget := by
  induction n with
  | zero => rfl
  | succ n ih =>
    rw [Function.iterate_succ_apply', Function.iterate_succ_apply', tracedTurn_forget, ih]

variable (H ap) in
/-- The trace changes nothing. -/
theorem firmwareMemRead_forget (dest src len : UInt32) (ram : Mem32) (t : Traced) :
    ((firmwareMemRead H ap dest src len ram t).1, (firmwareMemRead H ap dest src len ram t).2.port) =
      memRead H ap dest src len ram t.port := by
  unfold firmwareMemRead memRead
  dsimp only
  split
  · rfl
  · generalize minAlign (alignof src) (alignof len) = align
    obtain ⟨-, hfirst⟩ := lowRead_forget H ap apDrw
      ⟨apMemAccessSetup H ap src align t.port, t.reads⟩
    have hturns := tracedTurns_forget H ap align
      (len >>> align.code - 1).toNat ⟨ram, dest, src, src, (Traced.lowRead H ap.apsel apDrw
        ⟨apMemAccessSetup H ap src align t.port, t.reads⟩).2⟩
    rw [TracedRead.forget, TracedRead.forget, hfirst] at hturns
    rw [lowRead_rdbuff_traced, MemAp.lowRead_rdbuff, ← hturns]

/-! ## The reads of a run -/

/-- Within a page a turn reads the unit behind the one that is stored. -/
theorem turn_reads_same {s : TracedRead} (h : Reading ap align s.forget) (halign : align ≠ .dword)
    (hsame : (s.src + align.step) &&& pageMask = s.src &&& pageMask) :
    (tracedTurn H ap align s).ap.reads = s.ap.reads ++ [(s.src + align.step, align.step)] := by
  obtain ⟨hready, -, htar, haligned, hpage⟩ := h
  have htar : s.ap.port.tar = s.src + align.step := htar hsame
  have hunit : s.ap.port.unit = s.src + align.step := by
    have hat : (s.src + align.step).toNat % align.step.toNat = 0 :=
      add_step_aligned halign haligned
    rw [← htar] at hat ⊢
    exact hready.unit halign hat
  have hwidth : s.ap.port.width = align.step := hready.width
  have hosrc : (s.src + align.step ^^^ s.osrc) &&& pageMask = 0 :=
    (xor_and_eq_zero _ _ _).mpr (hsame.trans hpage)
  unfold tracedTurn
  rw [lowRead_drw_traced hready.select]
  dsimp only
  rw [if_neg (not_not.mpr hosrc), hunit, hwidth]

/-- Where the next unit is in another page, a turn reads twice. -/
theorem turn_reads_cross {s : TracedRead} (h : Reading ap align s.forget)
    (hcross : (s.src + align.step) &&& pageMask ≠ s.src &&& pageMask) :
    ∃ surplus again, (tracedTurn H ap align s).ap.reads =
      s.ap.reads ++ [(surplus, align.step), (again, align.step)] := by
  obtain ⟨hready, -, -, -, hpage⟩ := h
  have hselect : s.ap.port.select = ap.apsel.toUInt32 <<< 24 := hready.select
  have hwidth : s.ap.port.width = align.step := hready.width
  have hosrc : (s.src + align.step ^^^ s.osrc) &&& pageMask ≠ 0 := fun heq =>
    hcross (((xor_and_eq_zero _ _ _).mp heq).trans hpage.symm)
  let t : Traced := (s.ap.lowRead H ap.apsel apDrw).2.lowWrite H ap.apsel apTar (s.src + align.step)
  have hport : t.port = { s.ap.port with
      rdbuff := s.ap.port.fetch H
      tar := s.src + align.step } := by
    show ((s.ap.lowRead H ap.apsel apDrw).2.lowWrite H ap.apsel apTar _).port = _
    rw [lowRead_drw_traced hselect, MemAp.lowRead_drw hselect]
    apply MemAp.lowWrite_tar
    exact hselect
  have hreads : t.reads = s.ap.reads ++ [(s.ap.port.unit, s.ap.port.width)] := by
    show ((s.ap.lowRead H ap.apsel apDrw).2.lowWrite H ap.apsel apTar _).reads = _
    rw [lowRead_drw_traced hselect]
    rfl
  have hselect' : t.port.select = ap.apsel.toUInt32 <<< 24 := by
    rw [hport]
    exact hselect
  have hagain : t.port.width = align.step := by
    rw [hport]
    exact hwidth
  refine ⟨s.ap.port.unit, t.port.unit, ?_⟩
  unfold tracedTurn
  dsimp only
  rw [if_pos hosrc]
  show (t.lowRead H ap.apsel apDrw).2.reads = _
  rw [lowRead_drw_traced hselect', hreads, hagain, hwidth, List.append_assoc]
  rfl

/-- The reads after `n` turns of the loop that began at `src`. -/
structure Counted (align : Align) (src : UInt32) (n : Nat) (s : TracedRead) : Prop where
  width : ∀ c ∈ s.ap.reads, c.2 = align.step
  least : n + 1 ≤ s.ap.reads.length
  exact : s.ap.reads.length = n + 1 ↔ s.src.toNat / 1024 = src.toNat / 1024
  tiles : s.src.toNat / 1024 = src.toNat / 1024 →
    Tiles src ((n + 1) * align.step.toNat) s.ap.reads

theorem Counted.turn {src : UInt32} {n : Nat} {s : TracedRead} (h : Counted align src n s)
    (hreading : Reading ap align s.forget) (halign : align ≠ .dword)
    (hsrc : s.src = src + UInt32.ofNat (n * align.step.toNat))
    (hwrap : src.toNat + (n + 1) * align.step.toNat < 2 ^ 32) :
    Counted align src (n + 1) (tracedTurn H ap align s) := by
  have hmul : (n + 1) * align.step.toNat = n * align.step.toNat + align.step.toNat :=
    Nat.succ_mul ..
  have hpos := step_pos align
  have hat : s.src.toNat = src.toNat + n * align.step.toNat := by
    rw [hsrc, UInt32.toNat_add, UInt32.toNat_ofNat']
    omega
  have hnext : (s.src + align.step).toNat = src.toNat + (n + 1) * align.step.toNat := by
    rw [UInt32.toNat_add, hat]
    omega
  have hforget : (tracedTurn H ap align s).src = s.src + align.step := by
    show (tracedTurn H ap align s).forget.src = _
    rw [tracedTurn_forget]
    exact (hreading.turn halign).2.1
  by_cases hsame : (s.src + align.step) &&& pageMask = s.src &&& pageMask
  · have hreads := turn_reads_same (H := H) hreading halign hsame
    have hpage := (page_iff _ _).mp hsame
    constructor
    case width =>
      rw [hreads]
      intro c hc
      rcases List.mem_append.mp hc with hc | hc
      · exact h.width c hc
      · rw [List.mem_singleton.mp hc]
    case least =>
      rw [hreads, List.length_append]
      exact Nat.succ_le_succ h.least
    case exact =>
      rw [hreads, List.length_append, hforget, hpage, ← h.exact, List.length_singleton]
      omega
    case tiles =>
      rw [hforget, hpage, hreads]
      intro hfirst
      have hcell : s.src + align.step = src + UInt32.ofNat ((n + 1) * align.step.toNat) := by
        rw [hsrc, hmul, UInt32.ofNat_add, UInt32.ofNat_toNat, UInt32.add_assoc]
      have haligned := add_step_aligned halign hreading.aligned
      rw [show s.forget.src = s.src from rfl, hcell] at haligned
      rw [hcell, Nat.succ_mul (n + 1)]
      exact (h.tiles hfirst).append hpos haligned
  · obtain ⟨surplus, again, hreads⟩ := turn_reads_cross (H := H) hreading hsame
    have hlength : (tracedTurn H ap align s).ap.reads.length = s.ap.reads.length + 2 := by
      rw [hreads, List.length_append]
      rfl
    have hleast := h.least
    -- Pages only grow, so this one is not the first one again.
    have hleft : (s.src + align.step).toNat / 1024 ≠ src.toNat / 1024 := by
      have hpage : (s.src + align.step).toNat / 1024 ≠ s.src.toNat / 1024 := fun heq =>
        hsame ((page_iff _ _).mpr heq)
      omega
    constructor
    case width =>
      rw [hreads]
      intro c hc
      rcases List.mem_append.mp hc with hc | hc
      · exact h.width c hc
      · rcases List.mem_cons.mp hc with rfl | hc
        · rfl
        · rw [List.mem_singleton.mp hc]
    case least => omega
    case exact =>
      rw [hforget]
      constructor
      · intro heq
        omega
      · exact fun heq => absurd heq hleft
    case tiles =>
      rw [hforget]
      exact fun heq => absurd heq hleft

theorem Counted.run {src : UInt32} {s : TracedRead} (h : Counted align src 0 s)
    (hreading : Reading ap align s.forget) (halign : align ≠ .dword) (hsrc : s.src = src) (n : Nat)
    (hwrap : src.toNat + n * align.step.toNat < 2 ^ 32) :
    Counted align src n ((tracedTurn H ap align)^[n] s) := by
  induction n with
  | zero => exact h
  | succ n ih =>
    rw [Nat.succ_mul] at hwrap
    obtain ⟨hinv, hat, -⟩ := hreading.run (H := H) halign n (by omega)
    rw [← tracedTurns_forget] at hinv hat
    rw [Function.iterate_succ_apply']
    apply (ih (by omega)).turn hinv halign
    · rw [← hsrc]
      exact hat
    · rw [Nat.succ_mul]
      exact hwrap

/-- The loop begins with the first unit read. -/
theorem Counted.start {src dest : UInt32} {m : MemAp} {ram : Mem32} (hready : Ready ap align m)
    (halign : align ≠ .dword) (htar : m.tar = src) (haligned : src.toNat % align.step.toNat = 0) :
    Counted align src 0
      ⟨ram, dest, src, src, (Traced.lowRead H ap.apsel apDrw ⟨m, []⟩).2⟩ := by
  have hunit : m.unit = src := by
    rw [← htar] at haligned ⊢
    exact hready.unit halign haligned
  have hreads : (Traced.lowRead H ap.apsel apDrw ⟨m, []⟩).2.reads = [(src, align.step)] := by
    rw [lowRead_drw_traced hready.select]
    show [] ++ [(m.unit, m.width)] = _
    rw [hunit, hready.width]
    rfl
  constructor
  case width =>
    rw [hreads]
    intro c hc
    rw [List.mem_singleton.mp hc]
  case least => exact Nat.le_of_eq (congrArg List.length hreads).symm
  case exact => exact iff_of_true (congrArg List.length hreads) rfl
  case tiles =>
    intro _
    rw [hreads]
    refine ⟨rfl, step_pos align, haligned, Nat.le_of_eq ?_, ?_⟩
    · rw [Nat.zero_add, Nat.one_mul]
    · rw [Nat.zero_add, Nat.one_mul]
      exact Nat.sub_self _

/-- The last unit is in the page of the last byte. -/
theorem last_page {src len : Nat} (halign : align ≠ .dword) (hsrc : src % align.step.toNat = 0)
    {n : Nat} (hn : n * align.step.toNat + align.step.toNat = len) :
    (src + n * align.step.toNat) / 1024 = (src + len - 1) / 1024 := by
  rcases step_cases halign with h | h | h
  · rw [h, show (1 : UInt32).toNat = 1 from rfl] at hsrc hn ⊢
    omega
  · rw [h, show (2 : UInt32).toNat = 2 from rfl] at hsrc hn ⊢
    omega
  · rw [h, show (4 : UInt32).toNat = 4 from rfl] at hsrc hn ⊢
    omega

variable (H ap) in
/-- The cells that a run of `firmware_mem_read` has read. -/
theorem firmwareMemRead_counted (m : MemAp) (ram : Mem32) (dest : UInt32) {src len : UInt32} (hne : len ≠ 0)
    (hwrap : src.toNat + len.toNat ≤ 2 ^ 32) :
    let align := minAlign (alignof src) (alignof len)
    ∃ s : TracedRead,
      (firmwareMemRead H ap dest src len ram ⟨m, []⟩).2.reads = s.ap.reads ∧
      s.src.toNat / 1024 = (src.toNat + len.toNat - 1) / 1024 ∧
      Counted align src (len >>> align.code - 1).toNat s := by
  intro align
  have halign : align ≠ .dword := minAlign_ne_dword src len
  obtain ⟨haddr, hlen⟩ := minAlign_spec src len
  have hlast := last_unit halign hne hlen
  obtain ⟨hready, htar, -⟩ := @setup_spec H ap align m halign src
  let first : TracedRead := ⟨ram, dest, src, src,
    (Traced.lowRead H ap.apsel apDrw ⟨apMemAccessSetup H ap src align m, []⟩).2⟩
  have hreading : Reading ap align first.forget := by
    have hfirst : first.forget = ⟨ram, dest, src, src,
        ((apMemAccessSetup H ap src align m).lowRead H ap.apsel apDrw).2⟩ :=
      congrArg (ReadState.mk ram dest src src) (lowRead_forget H ap apDrw _).2
    rw [hfirst, MemAp.lowRead_drw hready.select]
    exact hready.reading halign htar haddr rfl rfl
  have hpos := step_pos align
  have hstart : Counted align src 0 first := Counted.start hready halign htar haddr
  have hcounted := hstart.run (H := H) hreading halign rfl (len >>> align.code - 1).toNat (by omega)
  have hsrc : ((tracedTurn H ap align)^[(len >>> align.code - 1).toNat] first).src.toNat =
      src.toNat + (len >>> align.code - 1).toNat * align.step.toNat := by
    obtain ⟨-, hat, -⟩ := hreading.run (H := H) halign (len >>> align.code - 1).toNat (by omega)
    rw [← tracedTurns_forget] at hat
    have hat : ((tracedTurn H ap align)^[(len >>> align.code - 1).toNat] first).src = _ := hat
    rw [hat, UInt32.toNat_add, UInt32.toNat_ofNat']
    show (src.toNat + _) % _ = _
    omega
  refine ⟨(tracedTurn H ap align)^[(len >>> align.code - 1).toNat] first, ?_, ?_, hcounted⟩
  · unfold firmwareMemRead
    dsimp only
    rw [if_neg hne, lowRead_rdbuff_traced]
  · rw [hsrc]
    exact last_page halign haddr hlast

/-- The reads of a request on the bus are its cells if and only if it is within one page. The
buffer is filled in any case. -/
theorem staysInside_iff (H : Hw) (ap : Ap) (m : MemAp) (ram : Mem32) (dest src len : UInt32)
    (hlen : 1 ≤ len.toNat) (hwrap : src.toNat + len.toNat ≤ 2 ^ 32) :
    StaysInside H ap m ram dest src len ↔
      src.toNat / 1024 = (src.toNat + len.toNat - 1) / 1024 := by
  have hne : len ≠ 0 := by
    rintro rfl
    exact absurd hlen (by decide)
  have halign := minAlign_ne_dword src len
  have hlast := last_unit halign hne (minAlign_spec src len).2
  obtain ⟨s, hreads, hpage, hcounted⟩ :=
    firmwareMemRead_counted H ap m ram dest hne hwrap
  rw [StaysInside, hreads, ← hpage]
  constructor
  · rintro ⟨htiles, -⟩
    -- As many cells as units.
    have hlength := htiles.length hcounted.width
    rw [← hlast, ← Nat.succ_mul] at hlength
    exact (hcounted.exact.mp (Nat.eq_of_mul_eq_mul_right (step_pos _) hlength)).symm
  · intro hsame
    have htiles := hcounted.tiles hsame.symm
    rw [Nat.succ_mul, hlast] at htiles
    refine ⟨htiles, ?_⟩
    have hforget := congrArg Prod.fst
      (firmwareMemRead_forget H ap dest src len ram ⟨m, []⟩)
    exact hforget.trans memRead_spec.1

/-- Eight bytes within a page. -/
theorem staysInside_page :
    StaysInside wrappingHw ⟨0, 0x23000040, by decide⟩ ⟨0, 0, 0, 0, fun _ => 0xFF⟩ (fun _ => 0)
      0x20000100 0x3F8 8 :=
  (staysInside_iff _ _ _ _ _ _ _ (by decide) (by decide)).mpr (by decide)

/-- Before the second page is read, the begin of the first one is. -/
theorem crossing_surplus :
    ¬∀ (ap : Ap) (m : MemAp) (ram : Mem32) (dest src len : UInt32), 1 ≤ len.toNat →
      src.toNat + len.toNat ≤ 2 ^ 32 → StaysInside wrappingHw ap m ram dest src len := by
  intro h
  have htiles := (h ⟨0, 0x23000040, by decide⟩ ⟨0, 0, 0, 0, fun _ => 0xFF⟩ (fun _ => 0) 0x20000100
    0x3FC 8 (by decide) (by decide)).1
  have hreads : (firmwareMemRead wrappingHw ⟨0, 0x23000040, by decide⟩ 0x20000100 0x3FC 8
      (fun _ => 0) ⟨⟨0, 0, 0, 0, fun _ => 0xFF⟩, []⟩).2.reads =
      [(0x3FC, 4), (0, 4), (0x400, 4)] := by decide
  rw [hreads] at htiles
  revert htiles
  decide

end

end MiyakoLink.Adiv5
