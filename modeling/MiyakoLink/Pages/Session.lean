import MiyakoLink.Pages.Calls

/-!
# Sessions of a region that is written page by page

A session erases ranges of a region, writes to others and ends with the flush of the write cache.
What the flash is behind a session whose calls have all succeeded follows from the bytes in the
order of their writes, and from what it was before (`Session.run_flash`).

* `Session.sound_iff_meets`: the condition under which this is what the session was for.
-/

namespace MiyakoLink.Pages

open Flash Lib Erase

variable {T : Target}

theorem bufSize_ne_zero {F : PageFlash} (hF : F.Fits) : F.bufSize ≠ 0 :=
  ne_zero_of_toNat (Nat.ne_of_gt (Nat.lt_of_succ_lt (bufSize_facts hF).1))

/-- The region as a buffer of a page in front of the flash. -/
def paged {F : PageFlash} (hF : F.Fits) (T : Target) (fuel : Nat) : Paged Env UInt8 where
  region := F.region T fuel (bufSize_ne_zero hF)
  val := id
  read s := s.flash
  prog := F.prog
  size := F.bufSize.toNat
  inside a := F.start.toNat ≤ a.toNat ∧ a.toNat < F.start.toNat + F.length.toNat
  bufSize_eq := rfl
  size_gt := (bufSize_facts hF).1
  size_dvd := (bufSize_facts hF).2.1
  write_read := by
    rintro dest src s hdest ⟨x, ⟨hlow, hhigh⟩, hx⟩ hsrc hret a
    have hcall : (F.region T fuel (bufSize_ne_zero hF)).write dest src
        (F.region T fuel (bufSize_ne_zero hF)).bufSize s =
        T.settle s (F.write T s.calls fuel dest src F.bufSize) := rfl
    rw [hcall] at hret ⊢
    rw [settle_flash hret]
    exact PageFlash.write_flash hF hdest hlow hhigh hx hsrc (settle_eq_zero hret) s.flash a

/-- The heap. -/
def heap (T : Target) : Heap Env UInt8 where
  zero := 0
  alloc _ s := (T.room s.allocs, { s with allocs := s.allocs + 1 })
  free := id

/-! ## The calls of a session -/

/-- `f->erase` for one range after the other: all have succeeded, and the target behind them. -/
def eraseAll (f : FlashRegion Env UInt8) : List (UInt32 × UInt32) → Env → Bool × Env
  | [], s => (true, s)
  | e :: l, s =>
    let r := f.erase e.1 e.2 s
    let rest := eraseAll f l r.2
    (decide (r.1 = 0) && rest.1, rest.2)

/-- `target_flash_write_buffered` for one write after the other. -/
def writeAll (H : Heap Env UInt8) (i : Nat) :
    List (UInt32 × List UInt8) → TargetFlash Env UInt8 → World Env UInt8 →
      Bool × TargetFlash Env UInt8 × World Env UInt8
  | [], f, w => (true, f, w)
  | (dest, src) :: l, f, w =>
    let r := targetFlashWriteBuffered H i f dest src (UInt32.ofNat src.length) w
    let rest := writeAll H i l r.2.1 r.2.2
    (decide (r.1 = 0) && rest.1, rest.2)

/-- The ranges that are erased and the writes of a session, which are disjoint. All of them are
inside of the region. -/
structure Session (F : PageFlash) where
  erases : List (UInt32 × UInt32)
  writes : List (UInt32 × List UInt8)
  erases_inside : ∀ e ∈ erases, F.start.toNat ≤ e.1.toNat ∧
    e.1.toNat + e.2.toNat ≤ F.start.toNat + F.length.toNat
  writes_inside : ∀ w ∈ writes, F.start.toNat ≤ w.1.toNat ∧
    w.1.toNat + w.2.length ≤ F.start.toNat + F.length.toNat
  disjoint : ((writes.flatMap fun w => placed w.1 w.2).map Prod.fst).Nodup

namespace Session

variable {F : PageFlash} (S : Session F)

/-- The bytes of the writes in their order. -/
def bytes : List (UInt32 × UInt8) := S.writes.flatMap fun w => placed w.1 w.2

/-- The calls have all succeeded, and the target behind them. No block is held at the begin. -/
def run (T : Target) (hF : F.Fits) (fuel i : Nat) (bufAddr : UInt32) (w : World Env UInt8) :
    Bool × Env :=
  let region := F.region T fuel (bufSize_ne_zero hF)
  let e := eraseAll region S.erases w.env
  let r := writeAll (heap T) i S.writes ⟨region, bufAddr, none⟩ { w with env := e.2 }
  let d := targetFlashDoneBuffered (heap T) i r.2.1 r.2.2
  (e.1 && (r.1 && decide (d.1 = 0)), d.2.2.env)

/-- What a session is for. -/
structure Sound (after : UInt32 → UInt8) : Prop where
  written : ∀ w ∈ S.bytes, after w.1 = w.2
  erased : ∀ e ∈ S.erases, ∀ a : UInt32, e.1.toNat ≤ a.toNat → a.toNat < e.1.toNat + e.2.toNat →
    (∀ w ∈ S.bytes, w.1 ≠ a) → after a = 0xFF

/-- What the erase function has erased. -/
def erased (a : UInt32) : Bool := S.erases.any fun e => F.erases e a

/-- The page of an address. -/
abbrev page (F : PageFlash) (a : UInt32) : Nat := a.toNat / F.bufSize.toNat

/-- What is asked for a byte that is not 0. A SAM3 must not come back to the page behind it. Any
other part must not come back to the page at all, and the byte has been erased or had all of its
bits before. -/
def Stays (before : UInt32 → UInt8) (w : UInt32 × UInt8) : Prop :=
  let inPage : UInt32 × UInt8 → Bool := fun w' => decide (page F w'.1 = page F w.1)
  match F.driver with
  | .sam3 _ => SideBySideFrom (fun w' => decide (w'.1 = w.1)) inPage S.bytes
  | _ => SideBySide inPage S.bytes ∧ (S.erased w.1 = true ∨ before w.1 &&& w.2 = w.2)

/-- A byte that is written is 0 or stays. A byte that is not written shares no page with one that
is, and it has been erased or was so before. -/
structure Meets (before : UInt32 → UInt8) : Prop where
  written : ∀ w ∈ S.bytes, w.2 = 0 ∨ S.Stays before w
  unwritten : ∀ e ∈ S.erases, ∀ a : UInt32, e.1.toNat ≤ a.toNat →
    a.toNat < e.1.toNat + e.2.toNat → (∀ w ∈ S.bytes, w.1 ≠ a) →
    (∀ w ∈ S.bytes, page F w.1 ≠ page F a) ∧ (S.erased a = true ∨ before a = 0xFF)

end Session

variable {F : PageFlash} (hF : F.Fits) {fuel i : Nat}

theorem eraseAll_flash {es : List (UInt32 × UInt32)} {s : Env}
    (hinside : ∀ e ∈ es, F.start.toNat ≤ e.1.toNat ∧
      e.1.toNat + e.2.toNat ≤ F.start.toNat + F.length.toNat)
    (hok : (eraseAll (F.region T fuel (bufSize_ne_zero hF)) es s).1 = true) (a : UInt32) :
    (eraseAll (F.region T fuel (bufSize_ne_zero hF)) es s).2.flash a =
      if es.any fun e => F.erases e a then 0xFF else s.flash a := by
  induction es generalizing s with
  | nil => rfl
  | cons e es ih =>
    obtain ⟨hret, hrest⟩ := Bool.and_eq_true_iff.mp hok
    have hret := of_decide_eq_true hret
    obtain ⟨hlow, hhigh⟩ := hinside e List.mem_cons_self
    have hcall : (F.region T fuel (bufSize_ne_zero hF)).erase e.1 e.2 s =
        T.settle s (F.erase T s.calls fuel e.1 e.2) := rfl
    show (eraseAll _ es _).2.flash a = _
    rw [ih (fun e' he' => hinside e' (List.mem_cons_of_mem e he')) hrest]
    rw [hcall] at hret ⊢
    rw [settle_flash hret, PageFlash.erase_flash hF hlow hhigh (settle_eq_zero hret),
      List.any_cons]
    cases es.any fun e => F.erases e a with
    | false => simp
    | true => simp

theorem writeAll_represents {ws : List (UInt32 × List UInt8)} {f : TargetFlash Env UInt8}
    {w : World Env UInt8} {B : Buffer} (h : (paged hF T fuel).Represents f w.env B)
    (hinside : ∀ x ∈ ws, F.start.toNat ≤ x.1.toNat ∧
      x.1.toNat + x.2.length ≤ F.start.toNat + F.length.toNat)
    (hok : (writeAll (heap T) i ws f w).1 = true) :
    (paged hF T fuel).Represents (writeAll (heap T) i ws f w).2.1
      (writeAll (heap T) i ws f w).2.2.env
      ((ws.flatMap fun w => placed w.1 w.2).foldl (paged hF T fuel).store B) := by
  induction ws generalizing f w B with
  | nil => exact h
  | cons x ws ih =>
    obtain ⟨dest, src⟩ := x
    obtain ⟨hret, hrest⟩ := Bool.and_eq_true_iff.mp hok
    obtain ⟨hlow, hhigh⟩ : F.start.toNat ≤ dest.toNat ∧
        dest.toNat + src.length ≤ F.start.toNat + F.length.toNat :=
      hinside (dest, src) List.mem_cons_self
    have htop := hF.top
    have hbound := F.length.toNat_lt
    have hlen : (UInt32.ofNat src.length).toNat = src.length :=
      UInt32.toNat_ofNat_of_lt' (show src.length < 2 ^ 32 by omega)
    have hall : ∀ k < (UInt32.ofNat src.length).toNat,
        (paged hF T fuel).inside (dest + UInt32.ofNat k) := by
      intro k hk
      have hnat : (dest + UInt32.ofNat k).toNat = dest.toNat + k := by
        rw [UInt32.toNat_add, UInt32.toNat_ofNat_of_lt' (show k < 2 ^ 32 by omega)]
        exact Nat.mod_eq_of_lt (by omega)
      show F.start.toNat ≤ (dest + UInt32.ofNat k).toNat ∧
        (dest + UInt32.ofNat k).toNat < F.start.toNat + F.length.toNat
      rw [hnat]
      omega
    have hstored := Paged.writeBuffered_represents (H := heap T) (fun _ _ _ => rfl) h
      (Nat.le_of_eq hlen) hall (of_decide_eq_true hret)
    rw [List.flatMap_cons, List.foldl_append]
    rw [hlen, List.take_of_length_le (Nat.le_refl _)] at hstored
    rw [show src.map (paged hF T fuel).val = src from List.map_id src] at hstored
    exact ih hstored (fun x hx => hinside x (List.mem_cons_of_mem _ hx)) hrest

namespace Session

variable (S : Session F) {bufAddr : UInt32} {w : World Env UInt8}

theorem nodup : (S.bytes.map Prod.fst).Nodup := S.disjoint

/-- The flash behind a session whose calls have all succeeded. -/
theorem run_flash (hok : (S.run T hF fuel i bufAddr w).1 = true) (a : UInt32) :
    (S.run T hF fuel i bufAddr w).2.flash a =
      settled (page F) F.prog 0 a (if S.erased a then 0xFF else w.env.flash a, none) S.bytes := by
  obtain ⟨herase, hrest⟩ := Bool.and_eq_true_iff.mp hok
  obtain ⟨hwrite, hdone⟩ := Bool.and_eq_true_iff.mp hrest
  have hstart : (paged hF T fuel).Represents ⟨F.region T fuel (bufSize_ne_zero hF), bufAddr, none⟩
      (eraseAll (F.region T fuel (bufSize_ne_zero hF)) S.erases w.env).2
      ⟨(eraseAll (F.region T fuel (bufSize_ne_zero hF)) S.erases w.env).2.flash, none⟩ :=
    ⟨rfl, fun _ => rfl, fun _ => Or.inl rfl, fun _ _ hB => (nomatch hB)⟩
  have hstored := writeAll_represents hF hstart S.writes_inside hwrite
  have hread := Paged.doneBuffered_read (H := heap T) (fun _ _ => rfl) hstored
    (of_decide_eq_true hdone) a
  refine hread.trans ?_
  rw [Paged.written, BlockBuffer.flushed_foldl]
  exact congrArg (fun m => settled (page F) F.prog 0 a (m, none) S.bytes)
    (eraseAll_flash hF S.erases_inside herase a)

/-! ## What a session achieves -/

theorem prog_zero (F : PageFlash) (v : UInt8) : F.prog v 0 = 0 := by
  unfold PageFlash.prog
  split
  · rfl
  · exact UInt8.and_zero

section

variable {S} {before after : UInt32 → UInt8} (hfinal : ∀ a, after a =
  settled (page F) F.prog 0 a (if S.erased a then 0xFF else before a, none) S.bytes)
include hfinal

/-- A byte that is not written. -/
theorem unwritten_iff {a : UInt32} (hun : ∀ w ∈ S.bytes, w.1 ≠ a) :
    after a = 0xFF ↔ (∀ w ∈ S.bytes, page F w.1 ≠ page F a) ∧
      (S.erased a = true ∨ before a = 0xFF) := by
  rw [hfinal]
  by_cases hapart : ∀ w ∈ S.bytes, page F w.1 ≠ page F a
  · rw [settled_of_apart hapart, and_iff_right hapart]
    cases S.erased a with
    | false => simp
    | true => simp
  · have hvisited : ∃ w ∈ S.bytes, page F w.1 = page F a := by simpa using hapart
    rw [settled_of_unwritten (prog_zero F) hun hvisited]
    exact ⟨fun h => absurd h (by decide), fun h => absurd h.1 hapart⟩

/-- A byte that is written to a SAM3. -/
theorem replaced_iff {base : UInt32} (hdriver : F.driver = .sam3 base) {w : UInt32 × UInt8}
    (hw : w ∈ S.bytes) : after w.1 = w.2 ↔ w.2 = 0 ∨ S.Stays before w := by
  have hprog : ∀ m v, F.prog m v = v := by
    intro m v
    unfold PageFlash.prog
    rw [hdriver]
  have hstays : S.Stays before w ↔ SideBySideFrom (fun w' => decide (w'.1 = w.1))
      (fun w' => decide (page F w'.1 = page F w.1)) S.bytes := by
    unfold Stays
    rw [hdriver]
  rw [hfinal, hstays]
  by_cases hside : SideBySideFrom (fun w' : UInt32 × UInt8 => decide (w'.1 = w.1))
      (fun w' => decide (page F w'.1 = page F w.1)) S.bytes
  · rw [(settled_replaced hprog S.nodup hw _).1 hside]
    exact iff_of_true rfl (Or.inr hside)
  · rw [(settled_replaced hprog S.nodup hw _).2 hside]
    exact ⟨fun h => Or.inl h.symm, fun h => (h.resolve_right hside).symm⟩

/-- A byte that is programmed. -/
theorem programmed_iff (hdriver : ∀ base, F.driver ≠ .sam3 base) {w : UInt32 × UInt8}
    (hw : w ∈ S.bytes) : after w.1 = w.2 ↔ w.2 = 0 ∨ S.Stays before w := by
  have hprog : F.prog = fun old new => old &&& new := by
    funext old new
    unfold PageFlash.prog
    split
    · next base h => exact absurd h (hdriver base)
    · rfl
  have hstays : S.Stays before w ↔
      SideBySide (fun w' => decide (page F w'.1 = page F w.1)) S.bytes ∧
        (S.erased w.1 = true ∨ before w.1 &&& w.2 = w.2) := by
    unfold Stays
    split
    · next base h => exact absurd h (hdriver base)
    · rfl
  rw [hfinal, hstays, hprog]
  by_cases hside : SideBySide (fun w' : UInt32 × UInt8 => decide (page F w'.1 = page F w.1)) S.bytes
  · rw [settled_of_once S.nodup hw hside, and_iff_right hside]
    cases S.erased w.1 with
    | false =>
      by_cases hzero : w.2 = 0
      · simp [hzero]
      · simp [hzero]
    | true => exact iff_of_true UInt8.neg_one_and (Or.inr (Or.inl rfl))
  · rw [settled_of_again (fun _ => UInt8.zero_and) (fun _ => UInt8.and_zero) S.nodup hside]
    exact ⟨fun h => Or.inl h.symm, fun h => (h.resolve_right fun h => hside h.1).symm⟩

theorem written_iff {w : UInt32 × UInt8} (hw : w ∈ S.bytes) :
    after w.1 = w.2 ↔ w.2 = 0 ∨ S.Stays before w := by
  cases hdriver : F.driver with
  | sam3 base => exact replaced_iff hfinal hdriver hw
  | _ => exact programmed_iff hfinal (fun base h => by rw [hdriver] at h; contradiction) hw

end

end Session

/-- Behind a session whose calls have all succeeded the flash of a region of any of the parts is
what the session was for, if and only if no byte is lost to the zeros its page is padded with, and
every byte has been erased that has to be. -/
theorem sound_iff_meets {p : Part} {F : PageFlash} (h : F ∈ p.probe) (T : Target)
    (S : Session F) (fuel i : Nat) (bufAddr : UInt32) (w : World Env UInt8)
    (hok : (S.run T (Part.fits h) fuel i bufAddr w).1 = true) :
    S.Sound (S.run T (Part.fits h) fuel i bufAddr w).2.flash ↔ S.Meets w.env.flash := by
  have hfinal := S.run_flash (Part.fits h) hok
  constructor
  · intro hsound
    exact ⟨fun w hw => (Session.written_iff hfinal hw).mp (hsound.written w hw),
      fun e he a hlow hhigh hun =>
        (Session.unwritten_iff hfinal hun).mp (hsound.erased e he a hlow hhigh hun)⟩
  · intro hmeets
    exact ⟨fun w hw => (Session.written_iff hfinal hw).mpr (hmeets.written w hw),
      fun e he a hlow hhigh hun =>
        (Session.unwritten_iff hfinal hun).mpr (hmeets.unwritten e he a hlow hhigh hun)⟩

/-! ## A session of one byte -/

/-- A target that takes every command at once. -/
def steady : Target where
  status _ _ _ := 1
  fault _ _ _ := false
  sr _ _ := 1
  nvmc _ := ⟨0, 1, 0xFFFFFFFF, 1, fun _ _ => 1, fun _ _ => false, fun _ _ => 0, by decide⟩
  stub _ := 0
  broken _ flash := flash
  room _ := true

/-- Erase the first row of a SAM D, write its first byte. -/
def oneByte : Session (samdAddFlash 0 0x40000) where
  erases := [(0, 0x100)]
  writes := [(0, [0x12])]
  erases_inside := by
    intro e he
    obtain rfl := List.mem_singleton.mp he
    decide
  writes_inside := by
    intro w hw
    obtain rfl := List.mem_singleton.mp hw
    decide
  disjoint := by decide

theorem samd_mem : samdAddFlash 0 0x40000 ∈ Part.samd.probe := List.mem_singleton_self _

theorem steady_turn (call k i : Nat) : steady.turn samdReady call k i = some true :=
  if_pos (show samdReady 1 = true by decide)

theorem steady_poll (call k : Nat) : poll (steady.turn samdReady call k) 2 = some true :=
  poll_iff.mpr ⟨0, by decide, steady_turn call k 0, fun j hj => absurd hj (Nat.not_lt_zero j)⟩

theorem steady_command (call k : Nat) (cmd address : UInt32) :
    (samdCommand steady call k 2 cmd address).2 = some true := by
  unfold samdCommand
  rw [steady_poll]

theorem steady_erase (call : Nat) : (samdFlashErase steady call 2 0 0x100).2 = some 0 := by
  have hrow (s : Nat × UInt32) : (samdEraseRow steady call 2 s).2 = some true :=
    steady_command call s.1 samdCmdEraserow (s.2 >>> 1)
  unfold samdFlashErase
  dsimp only
  rw [sweep_finish (n := 1) ⟨fun j hj => ?_, fun j _ => hrow _⟩ (by decide) (by decide)]
  · rfl
  · obtain rfl := Nat.lt_one_iff.mp hj
    decide

abbrev samdRegion : FlashRegion Env UInt8 :=
  (samdAddFlash 0 0x40000).region steady 2 (bufSize_ne_zero (Part.fits samd_mem))

/-- A call that has come back with 0. -/
theorem settle_ret (s : Env) {r : List Effect × Option Ret} (h : r.2 = some 0) :
    (steady.settle s r).1 = 0 := by
  rw [Target.settle, h]
  rfl

theorem oneByte_erase (s : Env) : (samdRegion.erase 0 0x100 s).1 = 0 :=
  settle_ret s (steady_erase s.calls)

theorem steady_write (dest : UInt32) (src : List UInt8) (s : Env) :
    (samdRegion.write dest src 64 s).1 = 0 :=
  settle_ret s (congrArg retOf (steady_command s.calls 0 samdCmdWritepage (dest >>> 1)))

theorem oneByte_write (w : World Env UInt8) :
    (targetFlashWriteBuffered (heap steady) 0 ⟨samdRegion, 0, none⟩ 0 [0x12] 1 w).1 = 0 := by
  show (writeBufferedLoop 0 ⟨samdRegion, invalidAddr, _⟩ 0 [0x12] 1 _).1 = 0
  rw [writeBufferedLoop, dif_neg (by decide)]
  refine or_eq_zero.mpr ⟨?_, ?_⟩
  · rw [loadBlock, if_pos (by decide)]
    exact congrArg Prod.fst (if_neg (not_not.mpr rfl))
  · rw [show (1 : UInt32) - min32 (samdRegion.bufSize - 0 % samdRegion.bufSize) 1 = 0 from rfl,
      writeBufferedLoop, dif_pos rfl]

theorem steady_done {f : TargetFlash Env UInt8} (h : f.toFlashRegion = samdRegion)
    (w : World Env UInt8) : (targetFlashDoneBuffered (heap steady) 0 f w).1 = 0 := by
  unfold targetFlashDoneBuffered
  split
  · rw [TargetFlash.writeBlock, World.call_ret, h]
    exact steady_write _ _ _
  · rfl

/-- An erased flash. -/
def blank : World Env UInt8 := ⟨⟨fun _ => 0xFF, 0, 0⟩, [], 0⟩

theorem oneByte_ok : (oneByte.run steady (Part.fits samd_mem) 2 0 0 blank).1 = true := by
  have herase : (eraseAll samdRegion oneByte.erases blank.env).1 = true := by
    show (eraseAll samdRegion [(0, 0x100)] blank.env).1 = true
    simp only [eraseAll, oneByte_erase, decide_true, Bool.and_self]
  have hwrite (w : World Env UInt8) :
      (writeAll (heap steady) 0 oneByte.writes ⟨samdRegion, 0, none⟩ w).1 = true :=
    Bool.and_eq_true_iff.mpr ⟨decide_eq_true (oneByte_write _), rfl⟩
  unfold Session.run
  dsimp only
  rw [herase, hwrite]
  exact decide_eq_true
    (steady_done (targetFlashWriteBuffered_region (heap steady) 0 _ _ _ _ _) _)

theorem oneByte_sound_iff_meets :
    oneByte.Sound (oneByte.run steady (Part.fits samd_mem) 2 0 0 blank).2.flash ↔
      oneByte.Meets blank.env.flash :=
  sound_iff_meets samd_mem steady oneByte 2 0 0 blank oneByte_ok

/-- The bytes behind the one that is written are erased no more. -/
theorem oneByte_padding : ¬ ∀ (p : Part) (F : PageFlash) (h : F ∈ p.probe) (T : Target)
    (S : Session F) (fuel i : Nat) (bufAddr : UInt32) (w : World Env UInt8),
    (S.run T (Part.fits h) fuel i bufAddr w).1 = true →
      S.Sound (S.run T (Part.fits h) fuel i bufAddr w).2.flash := by
  intro h
  have hsound := h .samd _ samd_mem steady oneByte 2 0 0 blank oneByte_ok
  have hbytes : oneByte.bytes = [((0 : UInt32), (0x12 : UInt8))] := rfl
  have hun : ∀ w ∈ oneByte.bytes, w.1 ≠ 1 := by
    intro w hw
    rw [hbytes, List.mem_singleton] at hw
    rw [hw]
    decide
  have herased := hsound.erased (0, 0x100) (List.mem_singleton_self _) 1 (by decide) (by decide)
    hun
  have hapart := ((Session.unwritten_iff
    (oneByte.run_flash (Part.fits samd_mem) oneByte_ok) hun).mp herased).1
  exact hapart (0, 0x12) (hbytes ▸ List.mem_singleton_self _) rfl

end MiyakoLink.Pages
