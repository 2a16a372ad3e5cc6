import MiyakoLink.Rp.Buffer

/-!
# Flash sessions of the RP2040

A session erases ranges, writes others and ends with `vFlashDone`. What is read behind a session
whose packets have all been answered `OK` follows from its packets and from what was read before
it (`read_final`).

* `sound_iff`: the condition under which this is what the session was for.
-/

namespace MiyakoLink.Rp

open Flash Lib

variable {R : Rom} {length : UInt32} {f : TargetFlash Env Tagged} {B : Buffer}

/-- The heap. -/
def heap (R : Rom) : Heap Env Tagged where
  zero := (0, none)
  alloc _ s := (R.room s.allocs, { s with allocs := s.allocs + 1 })
  free := id

theorem writeBuffered_represents {w : World Env Tagged} (h : Represents R length f w.env B)
    {i : Nat} {dest len : UInt32} {src : List Tagged} (hsrc : len.toNat ≤ src.length)
    (hret : (targetFlashWriteBuffered (heap R) i f dest src len w).1 = 0) :
    Represents R length (targetFlashWriteBuffered (heap R) i f dest src len w).2.1
      (targetFlashWriteBuffered (heap R) i f dest src len w).2.2.env
      ((placed dest ((src.take len.toNat).map Prod.fst)).foldl store B) :=
  represents_iff.mpr (Paged.writeBuffered_represents (fun _ _ _ => rfl) (represents_iff.mp h) hsrc
    (fun _ _ => trivial) hret)

/-! ## The only region -/

theorem flashForAddr_singleton (f : TargetFlash Env Tagged) (a : UInt32) :
    flashForAddr [f] a = if f.covers a then some ⟨0, Nat.zero_lt_one⟩ else none := by
  unfold flashForAddr
  by_cases h : f.covers a = true
  · rw [if_pos h]
    simp [List.findFinIdx?, List.findFinIdx?.go, h]
  · rw [if_neg h]
    simp [List.findFinIdx?, List.findFinIdx?.go, h]

theorem flashForAddr_eq {a : UInt32} {i : Fin [f].length} (h : flashForAddr [f] a = some i) :
    f.covers a = true := by
  rw [flashForAddr_singleton] at h
  by_contra hc
  rw [if_neg hc] at h
  contradiction

/-- What a turn of a loop over the regions leaves is nothing, or is behind the only region. -/
theorem tmplen_rest (f : FlashRegion Env Tagged) (addr len : UInt32) :
    len - f.tmplen addr len = 0 ∨ f.covers (addr + f.tmplen addr len) = false := by
  unfold FlashRegion.tmplen min32
  split
  · left
    rw [UInt32.add_comm, UInt32.add_sub_cancel, UInt32.sub_self]
  · right
    rw [UInt32.add_comm addr, UInt32.sub_add_cancel]
    simp [FlashRegion.covers]

theorem eraseLoop_stop {ret : Ret} {addr len : UInt32} {w : World Env Tagged}
    (h : len = 0 ∨ f.covers addr = false) :
    targetFlashEraseLoop [f] ret addr len w = (ret, w) := by
  rw [targetFlashEraseLoop]
  split
  · rfl
  · rename_i hne
    split
    · rfl
    · rename_i i hi
      have hcovers := flashForAddr_eq hi
      rw [h.resolve_left hne] at hcovers
      contradiction

theorem tmplen_zero {addr : UInt32} (h : f.covers addr = true) : f.tmplen addr 0 = 0 := by
  have hlt : addr < f.start + f.length := by
    simp only [FlashRegion.covers, Bool.and_eq_true, decide_eq_true_eq] at h
    exact h.2
  rw [FlashRegion.tmplen, UInt32.add_zero, min32, if_pos hlt, UInt32.sub_self]

theorem eraseLoop_one {ret : Ret} {addr len : UInt32} {w : World Env Tagged} (hlen : len ≠ 0)
    (h : f.covers addr = true) :
    targetFlashEraseLoop [f] ret addr len w =
      let r := w.call 0 (.erase addr (f.tmplen addr len)) (f.erase addr (f.tmplen addr len) w.env)
      (ret ||| r.1, r.2) := by
  rw [targetFlashEraseLoop, dif_neg hlen]
  split
  · rename_i hnone
    rw [flashForAddr_singleton, if_pos h] at hnone
    contradiction
  · rename_i i hi
    obtain rfl : i = ⟨0, Nat.zero_lt_one⟩ := Fin.ext (Nat.lt_one_iff.mp i.2)
    exact eraseLoop_stop (tmplen_rest f.toFlashRegion addr len)

/-- An erase that succeeds. -/
theorem erase_read (h : f.toFlashRegion = rpAddFlash R xipFlashStart length) {addr len : UInt32}
    {w : World Env Tagged} (hret : (targetFlashErase [f] addr len w).1 = 0) (a : UInt32) :
    (targetFlashErase [f] addr len w).2.env.read a =
      if f.covers addr = true ∧ a - addr < eraseLength (f.tmplen addr len) then 0xFF
      else w.env.read a := by
  unfold targetFlashErase at hret ⊢
  by_cases hstop : len = 0 ∨ f.covers addr = false
  · rw [eraseLoop_stop hstop, if_neg]
    rintro ⟨hcovers, hlt⟩
    rcases hstop with rfl | hstop
    · rw [tmplen_zero hcovers] at hlt
      exact UInt32.not_lt_zero hlt
    · rw [hstop] at hcovers
      contradiction
  · obtain ⟨hlen, hcovers⟩ := not_or.mp hstop
    rw [Bool.not_eq_false] at hcovers
    have herase : f.erase = rpFlashErase R := congrArg FlashRegion.erase h
    rw [eraseLoop_one hlen hcovers] at hret ⊢
    simp only [World.call_ret, World.call_env, herase] at hret ⊢
    rw [rpFlashErase_read (or_eq_zero.mp hret).2]
    simp only [hcovers, true_and]

theorem writeLoop_one {H : Heap Env Tagged} {ret : Ret} {dest len : UInt32} {src : List Tagged}
    {w : World Env Tagged} (hlen : len ≠ 0) (h : f.covers dest = true) :
    targetFlashWriteLoop H [f] ret dest src len w =
      let r := targetFlashWriteBuffered H 0 f dest src (f.tmplen dest len) w
      targetFlashWriteLoop H [r.2.1] (ret ||| r.1) (dest + f.tmplen dest len)
        (src.drop (f.tmplen dest len).toNat) (len - f.tmplen dest len) r.2.2 := by
  rw [targetFlashWriteLoop, dif_neg hlen]
  split
  · rename_i hnone
    rw [flashForAddr_singleton, if_pos h] at hnone
    contradiction
  · rename_i i hi
    obtain rfl : i = ⟨0, Nat.zero_lt_one⟩ := Fin.ext (Nat.lt_one_iff.mp i.2)
    rfl

/-- A write that reaches an address outside of the region fails. -/
theorem writeLoop_outside {H : Heap Env Tagged} {ret : Ret} {dest len : UInt32}
    {src : List Tagged} {w : World Env Tagged} (h : f.covers dest = false)
    (hret : (targetFlashWriteLoop H [f] ret dest src len w).1 = 0) : len = 0 := by
  by_contra hlen
  rw [targetFlashWriteLoop, dif_neg hlen] at hret
  split at hret
  · exact absurd hret (show (1 : Ret) ≠ 0 by decide)
  · rename_i i hi
    rw [flashForAddr_eq hi] at h
    contradiction

theorem writeLoop_nil {H : Heap Env Tagged} {flash : List (TargetFlash Env Tagged)} {ret : Ret}
    {dest : UInt32} {src : List Tagged} {w : World Env Tagged} :
    targetFlashWriteLoop H flash ret dest src 0 w = (ret, flash, w) := by
  rw [targetFlashWriteLoop, dif_pos rfl]

/-- A write that succeeds stores its bytes. -/
theorem write_represents {w : World Env Tagged} (h : Represents R length f w.env B)
    {dest len : UInt32} {src : List Tagged} (hsrc : len.toNat = src.length)
    (hret : (targetFlashWrite (heap R) [f] dest src len w).1 = 0) :
    ∃ f', (targetFlashWrite (heap R) [f] dest src len w).2.1 = [f'] ∧
      Represents R length f' (targetFlashWrite (heap R) [f] dest src len w).2.2.env
        ((placed dest (src.map Prod.fst)).foldl store B) := by
  unfold targetFlashWrite at hret ⊢
  by_cases hlen : len = 0
  · subst hlen
    rw [UInt32.toNat_zero] at hsrc
    obtain rfl := List.length_eq_zero_iff.mp hsrc.symm
    rw [writeLoop_nil]
    exact ⟨f, rfl, h⟩
  · have hcovers : f.covers dest = true := by
      by_contra hne
      exact hlen (writeLoop_outside (Bool.not_eq_true _ ▸ hne) hret)
    rw [writeLoop_one hlen hcovers] at hret ⊢
    have hsame := targetFlashWriteBuffered_region (heap R) 0 f dest src (f.tmplen dest len) w
    have hrest : len - f.tmplen dest len = 0 := by
      rcases tmplen_rest f.toFlashRegion dest len with hzero | hout
      · exact hzero
      · exact writeLoop_outside (by rw [hsame]; exact hout) hret
    have hall : f.tmplen dest len = len := by
      have hsum := UInt32.sub_add_cancel len (f.tmplen dest len)
      rw [hrest, UInt32.zero_add] at hsum
      exact hsum
    simp only [hall, UInt32.sub_self, writeLoop_nil] at hret ⊢
    have hstored := writeBuffered_represents h (Nat.le_of_eq hsrc) (or_eq_zero.mp hret).2
    rw [List.take_of_length_le (Nat.le_of_eq hsrc.symm)] at hstored
    exact ⟨_, rfl, hstored⟩

theorem doneBuffered_read {w : World Env Tagged} (h : Represents R length f w.env B) {i : Nat}
    (hret : (targetFlashDoneBuffered (heap R) i f w).1 = 0) (a : UInt32) :
    (targetFlashDoneBuffered (heap R) i f w).2.2.env.read a = B.written a :=
  Paged.doneBuffered_read (fun _ _ => rfl) (represents_iff.mp h) hret a

/-- The end of a session that succeeds. -/
theorem done_read {w : World Env Tagged} (h : Represents R length f w.env B)
    (hret : (targetFlashDone (heap R) [f] w).1 = 0) (a : UInt32) :
    (targetFlashDone (heap R) [f] w).2.2.env.read a = B.written a := by
  unfold targetFlashDone targetFlashDoneFrom at hret ⊢
  have hregion := targetFlashDoneBuffered_region (heap R) 0 f w
  have hread := fun hd => doneBuffered_read h (i := 0) hd a
  generalize targetFlashDoneBuffered (heap R) 0 f w = d at *
  have hnone : d.2.1.done = none := congrArg FlashRegion.done (hregion.trans h.region)
  by_cases hd : d.1 = 0
  · simp only [hd, TargetFlash.callDone, hnone, ne_eq, not_true_eq_false, if_false,
      targetFlashDoneFrom]
    exact hread hd
  · simp only [ne_eq, hd, not_false_eq_true, if_true] at hret

/-! ## Packets -/

/-- The code below the packets. A reset of the target leaves the flash as it is. -/
def probe (R : Rom) : Probe Env := ⟨heap R, id⟩

/-- The answers to packets, and the state behind them. -/
def run (R : Rom) : FlashState Env → List VFlash → List String × FlashState Env
  | s, [] => ([], s)
  | s, v :: l =>
    let r := (probe R).handle s (.vFlash v)
    let rest := run R r.2 l
    (r.1 :: rest.1, rest.2)

/-- All packets are answered `OK`. -/
def AllOk (R : Rom) (s : FlashState Env) (l : List VFlash) : Prop := ∀ x ∈ (run R s l).1, x = "OK"

theorem run_append (s : FlashState Env) (l l' : List VFlash) :
    run R s (l ++ l') =
      ((run R s l).1 ++ (run R (run R s l).2 l').1, (run R (run R s l).2 l').2) := by
  induction l generalizing s with
  | nil => rfl
  | cons v l ih =>
    show (_ :: (run R _ (l ++ l')).1, (run R _ (l ++ l')).2) = _
    rw [ih]
    rfl

theorem AllOk.of_append {s : FlashState Env} {l l' : List VFlash} (h : AllOk R s (l ++ l')) :
    AllOk R s l ∧ AllOk R (run R s l).2 l' := by
  unfold AllOk at *
  rw [run_append] at h
  exact ⟨fun x hx => h x (List.mem_append_left _ hx), fun x hx => h x (List.mem_append_right _ hx)⟩

theorem AllOk.of_cons {s : FlashState Env} {v : VFlash} {l : List VFlash}
    (h : AllOk R s (v :: l)) :
    ((probe R).handle s (.vFlash v)).1 = "OK" ∧
      AllOk R ((probe R).handle s (.vFlash v)).2 l :=
  ⟨h _ List.mem_cons_self, fun x hx => h x (List.mem_cons_of_mem _ hx)⟩

theorem AllOk.cons {s s' : FlashState Env} {v : VFlash} {l : List VFlash}
    (h : (probe R).handle s (.vFlash v) = ("OK", s')) (hl : AllOk R s' l) :
    AllOk R s (v :: l) := by
  intro x hx
  rcases List.mem_cons.mp hx with rfl | hx
  · rw [h]
  · rw [h] at hx
    exact hl x hx

/-- What erase packets that succeed have erased. -/
def erasedBy (r : FlashRegion Env Tagged) (es : List (UInt32 × UInt32)) (a : UInt32) : Bool :=
  es.any fun e => r.covers e.1 && decide (a - e.1 < eraseLength (r.tmplen e.1 e.2))

theorem erases_read {s : FlashState Env} (hs : s.flash = [f])
    (h : f.toFlashRegion = rpAddFlash R xipFlashStart length) (es : List (UInt32 × UInt32))
    (hok : AllOk R s (es.map fun e => .erase e.1 e.2)) :
    (run R s (es.map fun e => .erase e.1 e.2)).2.flash = [f] ∧
      ∀ a, (run R s (es.map fun e => .erase e.1 e.2)).2.world.env.read a =
        if erasedBy f.toFlashRegion es a then 0xFF else s.world.env.read a := by
  induction es generalizing s with
  | nil => exact ⟨hs, fun _ => rfl⟩
  | cons e es ih =>
    obtain ⟨hanswer, hrest⟩ := hok.of_cons
    have hworld : (probe R).eraseWorld s = s.world := by
      unfold Probe.eraseWorld
      split
      · rfl
      · rfl
    show (run R ((probe R).handle s (.vFlash (.erase e.1 e.2))).2 _).2.flash = [f] ∧
      ∀ a, (run R ((probe R).handle s (.vFlash (.erase e.1 e.2))).2 _).2.world.env.read a = _
    rw [Probe.handle_erase, hworld, hs] at hanswer hrest ⊢
    by_cases hret : (targetFlashErase [f] e.1 e.2 s.world).1 = 0
    · simp only [if_pos hret] at hrest ⊢
      obtain ⟨hflash, hread⟩ := ih rfl hrest
      refine ⟨hflash, fun a => ?_⟩
      rw [hread, erase_read h hret]
      have hcons : erasedBy f.toFlashRegion (e :: es) a =
          (f.covers e.1 && decide (a - e.1 < eraseLength (f.tmplen e.1 e.2)) ||
            erasedBy f.toFlashRegion es a) := List.any_cons
      rw [hcons]
      cases erasedBy f.toFlashRegion es a with
      | false => simp
      | true => simp
    · simp only [if_neg hret] at hanswer
      exact absurd hanswer (by simp)

/-- The bytes of writes in their order. -/
def bytesOf (ws : List (UInt32 × List UInt8)) : List (UInt32 × UInt8) :=
  ws.flatMap fun w => placed w.1 w.2

theorem writes_represents {s : FlashState Env} (hs : s.flash = [f])
    (h : Represents R length f s.world.env B) (ws : List (UInt32 × List UInt8))
    (hfits : ∀ w ∈ ws, w.2.length ≤ 1024)
    (hok : AllOk R s (ws.map fun w => .write w.1 w.2)) :
    ∃ f', (run R s (ws.map fun w => .write w.1 w.2)).2.flash = [f'] ∧
      Represents R length f' (run R s (ws.map fun w => .write w.1 w.2)).2.world.env
        ((bytesOf ws).foldl store B) := by
  induction ws generalizing s f B with
  | nil => exact ⟨f, hs, h⟩
  | cons w ws ih =>
    obtain ⟨hanswer, hrest⟩ := hok.of_cons
    have hfit := hfits w List.mem_cons_self
    show ∃ f', (run R ((probe R).handle s (.vFlash (.write w.1 w.2))).2 _).2.flash = [f'] ∧
      Represents R length f' (run R ((probe R).handle s (.vFlash (.write w.1 w.2))).2 _).2.world.env
        _
    rw [Probe.handle_write, hs] at hanswer hrest ⊢
    by_cases hret : (targetFlashWrite (probe R).heap [f] w.1
        (w.2.map fun x => (x, some s.world.session)) (UInt32.ofNat w.2.length) s.world).1 = 0
    · simp only [if_pos hret] at hrest ⊢
      obtain ⟨f', hf', hstored⟩ := write_represents h (by
        rw [List.length_map]
        exact UInt32.toNat_ofNat_of_lt' (show w.2.length < 2 ^ 32 by omega)) hret
      have hbytes : (w.2.map fun x => (x, some s.world.session)).map Prod.fst = w.2 := by
        rw [List.map_map]
        exact List.map_id w.2
      rw [hbytes] at hstored
      obtain ⟨f'', hf'', hall⟩ :=
        ih hf' hstored (fun w' hw' => hfits w' (List.mem_cons_of_mem w hw'))
        hrest
      refine ⟨f'', hf'', ?_⟩
      rw [bytesOf, List.flatMap_cons, List.foldl_append]
      exact hall
    · simp only [if_neg hret] at hanswer
      exact absurd hanswer (by simp)

theorem done_packet_read {s : FlashState Env} (hs : s.flash = [f])
    (h : Represents R length f s.world.env B) (hok : AllOk R s [.done]) (a : UInt32) :
    (run R s [.done]).2.world.env.read a = B.written a := by
  obtain ⟨hanswer, -⟩ := hok.of_cons
  show ((probe R).handle s (.vFlash .done)).2.world.env.read a = _
  rw [Probe.handle_done, hs] at hanswer ⊢
  refine done_read h ?_ a
  by_contra hne
  exact absurd ((if_pos hne).symm.trans hanswer) (by simp)

/-! ## Sessions -/

/-- An address is in one of the ranges. -/
def InRanges (es : List (UInt32 × UInt32)) (a : UInt32) : Prop := ∃ e ∈ es, a - e.1 < e.2

/-- The erase packets and the write packets of a session; `gdb_getpacket` has room for so many
bytes. The writes are disjoint and stay inside of the ranges that are erased. -/
structure Session where
  erases : List (UInt32 × UInt32)
  writes : List (UInt32 × List UInt8)
  aligned : ∀ e ∈ erases, e.1.toNat % 0x1000 = 0
  fits : ∀ w ∈ writes, w.2.length ≤ 1024
  disjoint : ((bytesOf writes).map Prod.fst).Nodup
  inside : ∀ w ∈ bytesOf writes, InRanges erases w.1

namespace Session

variable (S : Session)

def bytes : List (UInt32 × UInt8) := bytesOf S.writes

def packets : List VFlash :=
  (S.erases.map fun e => .erase e.1 e.2) ++ ((S.writes.map fun w => .write w.1 w.2) ++ [.done])

/-- The sector of an address. -/
abbrev sector (a : UInt32) : Nat := a.toNat / 0x1000

/-- What a session is for. -/
structure Sound (before after : UInt32 → UInt8) : Prop where
  erased : ∀ a, InRanges S.erases a → (∀ w ∈ S.bytes, w.1 ≠ a) → after a = 0xFF
  written : ∀ w ∈ S.bytes, after w.1 = w.2
  outside : ∀ a, (∀ b, InRanges S.erases b → sector b ≠ sector a) → after a = before a

/-- A byte that is not written shares no block with one that is, and it has been erased or was so
before. A byte that is written is 0; or its block is written without a break, and the byte has
been erased or had all of its bits before. -/
structure Meets (r : FlashRegion Env Tagged) (before : UInt32 → UInt8) : Prop where
  unwritten : ∀ a, InRanges S.erases a → (∀ w ∈ S.bytes, w.1 ≠ a) →
    (∀ w ∈ S.bytes, blockOf w.1 ≠ blockOf a) ∧ (erasedBy r S.erases a = true ∨ before a = 0xFF)
  written : ∀ w ∈ S.bytes, w.2 = 0 ∨
    SideBySide (fun w' => decide (blockOf w'.1 = blockOf w.1)) S.bytes ∧
      (erasedBy r S.erases w.1 = true ∨ before w.1 &&& w.2 = w.2)

end Session

/-- The flash when `rp_probe` has added its region. -/
def start (R : Rom) (words : UInt32 → List UInt32) (s : Env) : FlashState Env :=
  ⟨[⟨rpAddFlash R xipFlashStart (rpProbeLength words), 0, none⟩], false, ⟨s, [], 0⟩⟩

theorem represents_empty (s : Env) :
    Represents R length ⟨rpAddFlash R xipFlashStart length, 0, none⟩ s ⟨s.read, none⟩ :=
  ⟨rfl, fun _ => rfl, fun _ => Or.inl rfl, fun _ _ hB => (nomatch hB)⟩

theorem read_final {words : UInt32 → List UInt32} {s : Env} (S : Session)
    (hok : AllOk R (start R words s) S.packets) (a : UInt32) :
    (run R (start R words s) S.packets).2.world.env.read a =
      settled blockOf (· &&& ·) 0 a
        (if erasedBy (rpAddFlash R xipFlashStart (rpProbeLength words)) S.erases a then 0xFF
          else s.read a, none) S.bytes := by
  obtain ⟨herases, hrest⟩ := hok.of_append
  obtain ⟨hwrites, hdone⟩ := hrest.of_append
  obtain ⟨hflash, hread⟩ := erases_read (f := ⟨rpAddFlash R xipFlashStart (rpProbeLength words),
    0, none⟩) rfl rfl S.erases herases
  obtain ⟨f', hf', hstored⟩ :=
    writes_represents hflash (represents_empty _) S.writes S.fits hwrites
  unfold Session.packets
  rw [run_append, run_append, done_packet_read hf' hstored hdone, Buffer.written,
    BlockBuffer.flushed_foldl]
  exact congrArg (fun m => settled blockOf (· &&& ·) 0 a (m, none) S.bytes) (hread a)

/-! ## The sectors of the ranges -/

theorem mirrorLoop_le (words : UInt32 → List UInt32) (size : UInt32) :
    (mirrorLoop words size).toNat ≤ size.toNat := by
  fun_induction mirrorLoop words size with
  | case1 => exact Nat.le_refl _
  | case2 size => exact Nat.le_refl _
  | case3 size hne hsame ih =>
    refine Nat.le_trans ih ?_
    rw [UInt32.toNat_shiftRight]
    exact Nat.div_le_self _ _

/-- The flash has at most 16 MiB. -/
theorem rpProbeLength_le (words : UInt32 → List UInt32) :
    (rpProbeLength words).toNat ≤ 0x1000000 := by
  have hshift : ∀ size : UInt32, size.toNat ≤ 0x800000 → (size <<< 1).toNat ≤ 0x1000000 := by
    intro size hsize
    rw [UInt32.toNat_shiftLeft]
    show size.toNat <<< 1 % 2 ^ 32 ≤ _
    rw [Nat.shiftLeft_eq]
    omega
  unfold rpProbeLength
  dsimp only
  split
  · exact hshift 0x800000 (Nat.le_refl _)
  · exact hshift _ (mirrorLoop_le words 0x800000)

theorem sectorLength_toNat_le (len : UInt32) :
    (sectorLength len).toNat ≤ (len.toNat + 0xFFF) / 0x1000 * 0x1000 := by
  unfold sectorLength
  split
  · rw [and_not_toNat (k := 12) (m := 20) _ rfl rfl, UInt32.toNat_add]
    show 0x1000 * ((len.toNat + 0xFFF) % 2 ^ 32 / 0x1000) ≤ _
    omega
  · rename_i hmask
    have hmod : len.toNat % 0x1000 = 0 := by
      have hand := congrArg UInt32.toNat (not_not.mp hmask)
      rw [UInt32.toNat_and] at hand
      exact (Nat.and_two_pow_sub_one_eq_mod len.toNat 12).symm.trans hand
    omega

/-- What is erased is in a sector of the ranges. -/
theorem inRanges_of_erasedBy {words : UInt32 → List UInt32} {es : List (UInt32 × UInt32)}
    (haligned : ∀ e ∈ es, e.1.toNat % 0x1000 = 0) {a : UInt32}
    (h : erasedBy (rpAddFlash R xipFlashStart (rpProbeLength words)) es a = true) :
    ∃ b, InRanges es b ∧ Session.sector b = Session.sector a := by
  obtain ⟨e, he, hcond⟩ := List.any_eq_true.mp h
  rw [Bool.and_eq_true, decide_eq_true_eq] at hcond
  obtain ⟨hcovers, hlt⟩ := hcond
  have hsize := rpProbeLength_le words
  have halign := haligned e he
  obtain ⟨hlow, hhigh, htop⟩ := covers_toNat hcovers
  have hhigh : e.1.toNat < 0x10000000 + (rpProbeLength words).toNat := hhigh
  have hlen : ((rpAddFlash R xipFlashStart (rpProbeLength words)).tmplen e.1 e.2).toNat ≤
      e.2.toNat := by
    by_cases hzero : e.2 = 0
    · refine Nat.le_of_eq (congrArg UInt32.toNat ?_)
      rw [hzero, tmplen_zero (f := ⟨rpAddFlash R xipFlashStart (rpProbeLength words), 0, none⟩)
        hcovers]
    · exact (tmplen_bounds hcovers hzero).2
  generalize (rpAddFlash R xipFlashStart (rpProbeLength words)).tmplen e.1 e.2 = t at *
  have hle := UInt32.le_iff_toNat_le.mp (eraseLength_le t)
  have hsector := sectorLength_toNat_le t
  have hmin : (eraseLength t).toNat ≤ (sectorLength t).toNat := by
    unfold eraseLength
    split
    · rename_i hbig
      exact Nat.le_of_lt (UInt32.lt_iff_toNat_lt.mp hbig)
    · exact Nat.le_refl _
  have hlt := UInt32.lt_iff_toNat_lt.mp hlt
  have hle : (eraseLength t).toNat ≤ 0x200000 := hle
  have hdist : a.toNat = e.1.toNat + (a - e.1).toNat := by
    have ha := a.toNat_lt
    rw [UInt32.toNat_sub] at hlt ⊢
    omega
  -- The address, or the last one of the range if the sector goes beyond it.
  generalize (a - e.1).toNat = d at *
  have hk : min d (e.2.toNat - 1) < 2 ^ 32 := by omega
  refine ⟨e.1 + UInt32.ofNat (min d (e.2.toNat - 1)), ⟨e, he, ?_⟩, ?_⟩
  · rw [UInt32.lt_iff_toNat_lt, add_sub_toNat hk]
    omega
  · have hb : (e.1 + UInt32.ofNat (min d (e.2.toNat - 1))).toNat =
        e.1.toNat + min d (e.2.toNat - 1) := by
      rw [UInt32.toNat_add, UInt32.toNat_ofNat_of_lt' hk]
      omega
    show (e.1 + UInt32.ofNat (min d (e.2.toNat - 1))).toNat / 0x1000 = a.toNat / 0x1000
    omega

/-! ## What a session achieves -/

theorem ones_and (v : UInt8) : 0xFF &&& v = v := by
  apply UInt8.toNat_inj.mp
  rw [UInt8.toNat_and, Nat.and_comm]
  exact (Nat.and_two_pow_sub_one_eq_mod v.toNat 8).trans (Nat.mod_eq_of_lt v.toNat_lt)

namespace Session

variable {S : Session} {before after : UInt32 → UInt8} {erased : UInt32 → Bool}
  (hfinal : ∀ a, after a =
    settled blockOf (· &&& ·) 0 a (if erased a then 0xFF else before a, none) S.bytes)
include hfinal

/-- A byte that is not written. -/
theorem unwritten_iff {a : UInt32} (hun : ∀ w ∈ S.bytes, w.1 ≠ a) :
    after a = 0xFF ↔
      (∀ w ∈ S.bytes, blockOf w.1 ≠ blockOf a) ∧ (erased a = true ∨ before a = 0xFF) := by
  rw [hfinal]
  by_cases hapart : ∀ w ∈ S.bytes, blockOf w.1 ≠ blockOf a
  · rw [settled_of_apart hapart, and_iff_right hapart]
    cases erased a with
    | false => simp
    | true => simp
  · have hvisited : ∃ w ∈ S.bytes, blockOf w.1 = blockOf a := by simpa using hapart
    rw [settled_of_unwritten (fun _ => UInt8.and_zero) hun hvisited]
    exact ⟨fun h => absurd h (by decide), fun h => absurd h.1 hapart⟩

/-- A byte that is written. -/
theorem written_iff {w : UInt32 × UInt8} (hw : w ∈ S.bytes) :
    after w.1 = w.2 ↔ w.2 = 0 ∨
      SideBySide (fun w' : UInt32 × UInt8 => decide (blockOf w'.1 = blockOf w.1)) S.bytes ∧
        (erased w.1 = true ∨ before w.1 &&& w.2 = w.2) := by
  have hnodup : (S.bytes.map Prod.fst).Nodup := S.disjoint
  rw [hfinal]
  by_cases hside : SideBySide
      (fun w' : UInt32 × UInt8 => decide (blockOf w'.1 = blockOf w.1)) S.bytes
  · rw [settled_of_once hnodup hw hside]
    cases erased w.1 with
    | false =>
      by_cases hzero : w.2 = 0
      · simp [hzero]
      · simp [hzero, hside]
    | true => simp [ones_and, hside]
  · rw [settled_of_again (fun _ => UInt8.zero_and) (fun _ => UInt8.and_zero) hnodup hside]
    exact ⟨fun h => Or.inl h.symm, fun h => (h.resolve_right fun h => hside h.1).symm⟩

/-- A byte outside of the sectors of the ranges stays as it is. -/
theorem outside_same (herased : ∀ a, erased a = true →
      ∃ b, InRanges S.erases b ∧ sector b = sector a) {a : UInt32}
    (ha : ∀ b, InRanges S.erases b → sector b ≠ sector a) : after a = before a := by
  have hapart : ∀ w ∈ S.bytes, blockOf w.1 ≠ blockOf a := by
    intro w hw hblock
    have hblock : w.1.toNat / 0x800 = a.toNat / 0x800 := hblock
    exact ha w.1 (S.inside w hw) (show w.1.toNat / 0x1000 = a.toNat / 0x1000 by omega)
  rw [hfinal, settled_of_apart hapart, if_neg]
  intro h
  obtain ⟨b, hb, hsector⟩ := herased a h
  exact ha b hb hsector

end Session

/-- Behind a session whose packets are all answered `OK` the flash is what the session was for, if
and only if no byte is lost to the padding of its block, and every byte has been erased that has
to be. -/
theorem sound_iff (R : Rom) (words : UInt32 → List UInt32) (s : Env) (S : Session)
    (hok : AllOk R (start R words s) S.packets) :
    S.Sound s.read (run R (start R words s) S.packets).2.world.env.read ↔
      S.Meets (rpAddFlash R xipFlashStart (rpProbeLength words)) s.read := by
  have hfinal := read_final S hok
  constructor
  · intro h
    exact ⟨fun a ha hun => (Session.unwritten_iff hfinal hun).mp (h.erased a ha hun),
      fun w hw => (Session.written_iff hfinal hw).mp (h.written w hw)⟩
  · intro h
    exact ⟨fun a ha hun => (Session.unwritten_iff hfinal hun).mpr (h.unwritten a ha hun),
      fun w hw => (Session.written_iff hfinal hw).mpr (h.written w hw),
      fun a ha => Session.outside_same hfinal (fun a' h' => inRanges_of_erasedBy S.aligned h') ha⟩

/-! ## A session of one byte -/

/-- All calls come back. -/
def steadyRom : Rom := ⟨fun _ => false, fun _ flash => flash, fun _ => true⟩

def blankEnv : Env := ⟨fun _ => 0xFF, [], [], false, 0⟩

theorem steady_rpRomCall (c : RomCall) (timeout : UInt32) (s : Env) :
    (rpRomCall steadyRom c timeout s).1 = false := by
  simp [rpRomCall, steadyRom]

theorem steady_rpFlashErase {addr : UInt32} (h : addr &&& 0xFFF = 0) (len : UInt32) (s : Env) :
    (rpFlashErase steadyRom addr len s).1 = 0 := by
  have hloop : ∀ (a l : UInt32) (s : Env), (eraseLoop steadyRom a l s).1 = false := by
    intro a l s
    fun_induction eraseLoop steadyRom a l s with
    | case1 => rfl
    | case2 => exact steady_rpRomCall _ _ _
    | case3 => exact steady_rpRomCall _ _ _
    | case4 => assumption
    | case5 => exact steady_rpRomCall _ _ _
    | case6 => assumption
    | case7 => exact steady_rpRomCall _ _ _
  simp [rpFlashErase, h, hloop]

theorem steady_rpFlashWrite {dest : UInt32} (h : dest &&& 0xFF = 0) (src : List UInt8) (s : Env) :
    (rpFlashWrite steadyRom dest src 0x800 s).1 = 0 := by
  have hloop : ∀ (d l : UInt32) (b : List UInt8) (s : Env),
      (writeLoop steadyRom d b l s).1 = false := by
    intro d l b s
    fun_induction writeLoop steadyRom d b l s with
    | case1 => rfl
    | case2 => exact steady_rpRomCall _ _ _
    | case3 => assumption
  have hlen : (0x800 : UInt32) &&& 0xFF = 0 := by decide
  rw [rpFlashWrite, if_neg (by rw [h, hlen, not_or]; exact ⟨not_not.mpr rfl, not_not.mpr rfl⟩)]
  dsimp only
  rw [hloop]
  rfl

/-- Erase the first sector, write its first byte. -/
def oneByte : Session where
  erases := [(0x10000000, 0x1000)]
  writes := [(0x10000000, [0x12])]
  aligned := by simp
  fits := by decide
  disjoint := by decide
  inside := by
    intro w hw
    rw [show bytesOf _ = [((0x10000000 : UInt32), (0x12 : UInt8))] from rfl,
      List.mem_singleton] at hw
    rw [hw]
    exact ⟨_, List.mem_singleton_self _, by decide⟩

/-- The region behind `rp_probe`. -/
abbrev probed : TargetFlash Env Tagged := ⟨rpAddFlash steadyRom xipFlashStart 0x1000000, 0, none⟩

theorem oneByte_erase (w : World Env Tagged) :
    (targetFlashErase [probed] 0x10000000 0x1000 w).1 = 0 := by
  rw [targetFlashErase, eraseLoop_one (by decide) (by rfl)]
  exact or_eq_zero.mpr ⟨rfl, steady_rpFlashErase (by decide) _ _⟩

theorem oneByte_write (x : Tagged) (w : World Env Tagged) :
    (targetFlashWrite (heap steadyRom) [probed] 0x10000000 [x] 1 w).1 = 0 := by
  have hbuffered :
      (targetFlashWriteBuffered (heap steadyRom) 0 probed 0x10000000 [x] 1 w).1 = 0 := by
    unfold targetFlashWriteBuffered
    show (writeBufferedLoop 0 ⟨rpAddFlash steadyRom xipFlashStart 0x1000000, invalidAddr, _⟩
      0x10000000 [x] 1 _).1 = 0
    rw [writeBufferedLoop, dif_neg (by decide)]
    refine or_eq_zero.mpr ⟨?_, ?_⟩
    · rw [loadBlock, if_pos (by decide)]
      exact congrArg Prod.fst (if_neg (not_not.mpr rfl))
    · rw [show (1 : UInt32) - min32 ((rpAddFlash steadyRom xipFlashStart 0x1000000).bufSize -
        0x10000000 % (rpAddFlash steadyRom xipFlashStart 0x1000000).bufSize) 1 = 0 from rfl,
        writeBufferedLoop, dif_pos rfl]
  rw [targetFlashWrite, writeLoop_one (by decide) (by rfl)]
  rw [show probed.tmplen 0x10000000 1 = 1 from rfl]
  dsimp only
  rw [UInt32.sub_self, writeLoop_nil]
  exact or_eq_zero.mpr ⟨rfl, hbuffered⟩

theorem oneByte_done {f : TargetFlash Env Tagged} {B : Buffer} {w : World Env Tagged}
    (h : Represents steadyRom 0x1000000 f w.env B) :
    (targetFlashDone (heap steadyRom) [f] w).1 = 0 := by
  have hflush : (targetFlashDoneBuffered (heap steadyRom) 0 f w).1 = 0 := by
    unfold targetFlashDoneBuffered
    by_cases hp : f.Pending
    · simp only [if_pos hp]
      have haligned : f.bufAddr &&& 0xFF = 0 := by
        cases hB : B.held with
        | none => exact absurd (h.empty hB) (not_or.mpr hp)
        | some kc =>
          have haddr := (h.held kc.1 kc.2 hB).1
          apply UInt32.toNat_inj.mp
          rw [UInt32.toNat_and]
          refine (Nat.and_two_pow_sub_one_eq_mod f.bufAddr.toNat 8).trans ?_
          show f.bufAddr.toNat % 256 = 0
          omega
      rw [TargetFlash.writeBlock, World.call_ret, h.region]
      exact steady_rpFlashWrite haligned _ _
    · rw [if_neg hp]
  have hregion := targetFlashDoneBuffered_region (heap steadyRom) 0 f w
  unfold targetFlashDone targetFlashDoneFrom
  generalize targetFlashDoneBuffered (heap steadyRom) 0 f w = d at *
  have hnone : d.2.1.done = none := congrArg FlashRegion.done (hregion.trans h.region)
  simp only [hflush, TargetFlash.callDone, hnone, ne_eq, not_true_eq_false, if_false,
    targetFlashDoneFrom]

theorem oneByte_allOk :
    AllOk steadyRom (start steadyRom (fun _ => [0]) blankEnv) oneByte.packets := by
  obtain ⟨w, herase⟩ : ∃ w, (probe steadyRom).handle (start steadyRom (fun _ => [0]) blankEnv)
      (.vFlash (.erase 0x10000000 0x1000)) = ("OK", ⟨[probed], true, w⟩) :=
    ⟨_, by rw [Probe.handle_erase]; exact if_pos (oneByte_erase _)⟩
  have hret := oneByte_write (0x12, some w.session) w
  obtain ⟨f, hf, hstored⟩ := write_represents (represents_empty w.env) rfl hret
  obtain ⟨w', B, hwrite, hstored⟩ : ∃ w' B, (probe steadyRom).handle ⟨[probed], true, w⟩
        (.vFlash (.write 0x10000000 [0x12])) = ("OK", ⟨[f], true, w'⟩) ∧
      Represents steadyRom 0x1000000 f w'.env B :=
    ⟨_, _, by rw [Probe.handle_write, ← hf]; exact if_pos hret, hstored⟩
  obtain ⟨s, hdone⟩ : ∃ s, (probe steadyRom).handle ⟨[f], true, w'⟩ (.vFlash .done) = ("OK", s) :=
    ⟨_, by rw [Probe.handle_done]; exact Prod.ext (if_neg (not_not.mpr (oneByte_done hstored))) rfl⟩
  exact .cons herase (.cons hwrite (.cons hdone fun x hx => absurd hx List.not_mem_nil))

/-- The bytes behind the one that is written are erased no more. -/
theorem oneByte_not_sound : ¬ ∀ (R : Rom) (words : UInt32 → List UInt32) (s : Env) (S : Session),
    AllOk R (start R words s) S.packets →
      S.Sound s.read (run R (start R words s) S.packets).2.world.env.read := by
  intro h
  have hsound := h steadyRom (fun _ => [0]) blankEnv oneByte oneByte_allOk
  have herased := hsound.erased 0x10000001 ⟨_, List.mem_singleton_self _, by decide⟩
  have hmeets := (Session.unwritten_iff (read_final oneByte oneByte_allOk) ?_).mp (herased ?_)
  · exact hmeets.1 (0x10000000, 0x12) (List.mem_singleton_self _) rfl
  all_goals
    intro w hw
    rw [show oneByte.bytes = [((0x10000000 : UInt32), (0x12 : UInt8))] from rfl,
      List.mem_singleton] at hw
    rw [hw]
    decide

theorem oneByte_sound_iff : oneByte.Sound blankEnv.read
      (run steadyRom (start steadyRom (fun _ => [0]) blankEnv) oneByte.packets).2.world.env.read ↔
    oneByte.Meets (rpAddFlash steadyRom xipFlashStart (rpProbeLength fun _ => [0])) blankEnv.read :=
  sound_iff steadyRom (fun _ => [0]) blankEnv oneByte oneByte_allOk

end MiyakoLink.Rp
