import MiyakoLink.Lib.Guarded
import MiyakoLink.Kinetis.Regions

/-!
# The security byte

A part is locked when the byte at 0x40C is not 0xFE at its next reset. `kl_gen_flash_write`
replaces the byte in the block at 0x400, and `kl_gen_flash_done` programs it at the end of a
session.

* `writeLoop_safe`: the commands of a write put nothing but 0xFE there, as long as the data does.
* `doneFrom_byte`: when `vFlashDone` succeeds the byte reads 0xFE, if it can be programmed and one
  of the commands that do so is accepted.
* `never_locked`: a session without another block over the security byte keeps the part unlocked.
-/

namespace MiyakoLink.Kinetis

open Flash Lib

/-- What the command programs into the security byte, if anything, is 0xFE. -/
def Command.Unlocks (C : Chip) (c : Command) : Prop :=
  ∀ k < c.cmd.size, C.location (c.addr + UInt32.ofNat k) = flashSecurityByteAddress →
    (c.data.getD []).getD k 0xFF = flashSecurityByteUnsecured

/-- The commands from one state to another leave the part unlocked. -/
structure Safe (C : Chip) (s s' : Env) : Prop where
  commands : ∃ new, s'.commands = s.commands ++ new ∧ ∀ c ∈ new, c.Unlocks C
  unsafeEnabled : s'.unsafeEnabled = s.unsafeEnabled

/-- The security byte has not been changed but by programming 0xFE. -/
def Clears (s s' : Env) : Prop :=
  s'.mem flashSecurityByteAddress = s.mem flashSecurityByteAddress ∨
    s'.mem flashSecurityByteAddress =
      s.mem flashSecurityByteAddress &&& flashSecurityByteUnsecured

variable {C : Chip} {L : Layout}

theorem Safe.refl (s : Env) : Safe C s s :=
  ⟨⟨[], (List.append_nil _).symm, fun _ hc => absurd hc List.not_mem_nil⟩, rfl⟩

theorem Safe.trans {s s' s'' : Env} (h : Safe C s s') (h' : Safe C s' s'') : Safe C s s'' := by
  obtain ⟨new, hnew, hunlocks⟩ := h.commands
  obtain ⟨new', hnew', hunlocks'⟩ := h'.commands
  refine ⟨⟨new ++ new', by rw [hnew', hnew, List.append_assoc], fun c hc => ?_⟩,
    h'.unsafeEnabled.trans h.unsafeEnabled⟩
  rcases List.mem_append.mp hc with hc | hc
  · exact hunlocks c hc
  · exact hunlocks' c hc

theorem and_and_self (v m : UInt8) : v &&& m &&& m = v &&& m := by
  rw [UInt8.and_assoc, UInt8.and_self]

theorem Clears.trans {s s' s'' : Env} (h : Clears s s') (h' : Clears s' s'') : Clears s s'' := by
  unfold Clears at *
  rcases h with h | h <;> rcases h' with h' | h'
  · exact Or.inl (h'.trans h)
  · exact Or.inr (h'.trans (by rw [h]))
  · exact Or.inr (h'.trans h)
  · exact Or.inr (h'.trans (by rw [h, and_and_self]))

/-! ## One command -/

/-- Programming the same value again and again clears its bits once. -/
theorem foldl_and {p : Nat → Prop} [DecidablePred p] {d : Nat → UInt8} {m : UInt8} (v : UInt8)
    {l : List Nat} (h : ∀ k ∈ l, p k → d k = m) :
    l.foldl (fun v k => if p k then v &&& d k else v) v = if ∃ k ∈ l, p k then v &&& m else v := by
  induction l generalizing v with
  | nil => simp
  | cons k l ih =>
    rw [List.foldl_cons, ih _ fun k' hk' => h k' (List.mem_cons_of_mem _ hk')]
    by_cases hk : p k
    · have hd := h k List.mem_cons_self hk
      simp [hk, hd, and_and_self]
    · simp [hk]

theorem execute_byte {c : Command} (hcmd : c.cmd ≠ .eraseSector) (hc : c.Unlocks C)
    (mem : UInt32 → UInt8) :
    C.execute c mem flashSecurityByteAddress =
      if ∃ k ∈ List.range c.cmd.size,
        C.location (c.addr + UInt32.ofNat k) = flashSecurityByteAddress
      then mem flashSecurityByteAddress &&& flashSecurityByteUnsecured
      else mem flashSecurityByteAddress := by
  have hfold := foldl_and (p := fun k =>
      C.location (c.addr + UInt32.ofNat k) = flashSecurityByteAddress)
    (mem flashSecurityByteAddress) fun k hk => hc k (List.mem_range.mp hk)
  obtain ⟨cmd, addr, data⟩ := c
  cases cmd with
  | eraseSector => exact absurd rfl hcmd
  | programLongword => exact hfold
  | programPhrase => exact hfold

theorem klGenCommand_fst (cmd : Cmd) (addr : UInt32) (data : Option (List UInt8)) (s : Env) :
    (C.klGenCommand cmd addr data s).1 = !C.refuses s.commands.length := by
  unfold Chip.klGenCommand
  dsimp only
  split <;> simp_all

theorem klGenCommand_safe {cmd : Cmd} {addr : UInt32} {data : Option (List UInt8)}
    (h : Command.Unlocks C ⟨cmd, addr &&& 0xFFFFFF, data⟩) (s : Env) :
    Safe C s (C.klGenCommand cmd addr data s).2 := by
  refine ⟨⟨_, klGenCommand_commands cmd addr data s, ?_⟩, ?_⟩
  · intro c hc
    rw [List.mem_singleton.mp hc]
    exact h
  · unfold Chip.klGenCommand
    dsimp only
    split
    · rfl
    · rfl

/-- A program command that is accepted clears bits of the security byte if it covers it. -/
theorem klGenCommand_byte {cmd : Cmd} (hcmd : cmd ≠ .eraseSector) {addr : UInt32}
    {data : Option (List UInt8)} (h : Command.Unlocks C ⟨cmd, addr &&& 0xFFFFFF, data⟩) (s : Env) :
    (C.klGenCommand cmd addr data s).2.mem flashSecurityByteAddress =
      if C.refuses s.commands.length = false ∧ ∃ k ∈ List.range cmd.size,
        C.location ((addr &&& 0xFFFFFF) + UInt32.ofNat k) = flashSecurityByteAddress
      then s.mem flashSecurityByteAddress &&& flashSecurityByteUnsecured
      else s.mem flashSecurityByteAddress := by
  have hbyte := execute_byte (c := ⟨cmd, addr &&& 0xFFFFFF, data⟩) hcmd h s.mem
  unfold Chip.klGenCommand
  by_cases hrefuses : C.refuses s.commands.length = true
  · simp [hrefuses]
  · rw [Bool.not_eq_true] at hrefuses
    simp only [hrefuses, Bool.false_eq_true, if_false, true_and]
    exact hbyte

theorem klGenCommand_clears {cmd : Cmd} (hcmd : cmd ≠ .eraseSector) {addr : UInt32}
    {data : Option (List UInt8)} (h : Command.Unlocks C ⟨cmd, addr &&& 0xFFFFFF, data⟩) (s : Env) :
    Clears s (C.klGenCommand cmd addr data s).2 := by
  unfold Clears
  rw [klGenCommand_byte hcmd h]
  split
  · exact Or.inr rfl
  · exact Or.inl rfl

/-! ## The commands of a write -/

/-- What every region of a part has in common. -/
def Layout.Regular (L : Layout) : Prop :=
  L.Placed ∧ L.start.toNat % 0x400 = 0 ∧ 0x800 ≤ L.length.toNat ∧ 0x400 ≤ L.erasesize ∧
    (L.writeLen = klWriteLen ∨ L.writeLen = k64WriteLen)

instance (L : Layout) : Decidable L.Regular :=
  inferInstanceAs (Decidable ((_ ∨ _ ∧ _) ∧ _ ∧ _ ∧ _ ∧ (_ ∨ _)))

theorem kinetisProbe_regular {sdid fcfg1 : UInt32} {regions : List Layout}
    (h : kinetisProbe sdid fcfg1 = some regions) : ∀ L ∈ regions, L.Regular := by
  unfold kinetisProbe klGenAddFlashes at h
  dsimp only at h
  repeat' split at h
  all_goals first
    | contradiction
    | (rw [← Option.some.inj h]; decide)

/-- The address in the program flash that a command for an address carries. -/
abbrev folded (a : UInt32) : UInt32 := a &&& 0xFFFFFF

theorem Layout.Regular.size_writeCmd (h : L.Regular) : L.writeCmd.size = L.writeLen.toNat := by
  obtain ⟨-, -, -, -, hlen | hlen⟩ := h
  · rw [Layout.writeCmd, hlen]
    rfl
  · rw [Layout.writeCmd, hlen]
    rfl

theorem Layout.writeCmd_ne : L.writeCmd ≠ .eraseSector := by
  unfold Layout.writeCmd
  split
  · exact Cmd.noConfusion
  · exact Cmd.noConfusion

theorem Layout.Regular.writeLen_le (h : L.Regular) : L.writeLen.toNat ≤ 8 := by
  obtain ⟨-, -, -, -, hlen | hlen⟩ := h
  · rw [hlen]
    show 4 ≤ 8
    omega
  · rw [hlen]
    exact Nat.le_refl 8

theorem dataAt_getD (src : List UInt8) {k : Nat} (hk : k < 8) :
    (dataAt C src).getD k 0xFF = src.getD k (C.behind k) := by
  simp [dataAt, List.getD_eq_getElem?_getD, List.getElem?_range hk]

/-- The bytes at an address leave the part unlocked. -/
def Spares (dest : UInt32) (src : List UInt8) (len : Nat) : Prop :=
  ∀ k < len, (folded dest).toNat + k = 0x40C → src[k]? = some flashSecurityByteUnsecured

theorem add_ofNat_toNat {a : UInt32} {k : Nat} (h : a.toNat + k < 2 ^ 32) :
    (a + UInt32.ofNat k).toNat = a.toNat + k := by
  rw [UInt32.toNat_add, UInt32.toNat_ofNat_of_lt' (show k < 2 ^ 32 by omega)]
  omega

/-- A command of the program flash is for the location it carries. -/
theorem location_eq_iff {a : UInt32} {k : Nat} (h : (folded a).toNat + k < 0x800000) :
    C.location (folded a + UInt32.ofNat k) = flashSecurityByteAddress ↔
      (folded a).toNat + k = 0x40C := by
  have hadd : (folded a + UInt32.ofNat k).toNat = (folded a).toNat + k :=
    add_ofNat_toNat (by omega)
  rw [C.program_flash _ (UInt32.lt_iff_toNat_lt.mpr (by rw [hadd]; exact h)),
    ← UInt32.toNat_inj, hadd]
  rfl

theorem unlocks_of_spares (hL : L.Regular) {dest : UInt32} {src : List UInt8} {len : Nat}
    (hlen : L.writeLen.toNat ≤ len) (htop : (folded dest).toNat + len ≤ 0x800000)
    (h : Spares dest src len) :
    Command.Unlocks C ⟨L.writeCmd, folded dest, some (dataAt C src)⟩ := by
  intro k hk hlocation
  have hk : k < L.writeLen.toNat := hL.size_writeCmd ▸ hk
  have hsmall := hL.writeLen_le
  rw [location_eq_iff (by omega)] at hlocation
  show (dataAt C src).getD k 0xFF = _
  rw [dataAt_getD src (by omega), List.getD_eq_getElem?_getD, h k (by omega) hlocation]
  rfl

/-- What a write leaves behind: nothing else at the security byte than 0xFE, and if it succeeds a
command for every longword or phrase. -/
structure Writes (C : Chip) (L : Layout) (s : Env) (r : Ret × Env) (dest : UInt32) (len : Nat) :
    Prop where
  safe : Safe C s r.2
  clears : Clears s r.2
  commands : r.1 = 0 → r.2.commands.length = s.commands.length + len / L.writeLen.toNat
  byte : r.1 = 0 → (folded dest).toNat ≤ 0x40C → 0x40C < (folded dest).toNat + len →
    r.2.mem flashSecurityByteAddress =
      s.mem flashSecurityByteAddress &&& flashSecurityByteUnsecured
  refused : (∃ m < len / L.writeLen.toNat, C.refuses (s.commands.length + m) = true) → r.1 ≠ 0

theorem folded_add {dest n : UInt32} (h : (folded dest).toNat + n.toNat < 0x1000000) :
    (folded (dest + n)).toNat = (folded dest).toNat + n.toNat := by
  rw [and_mask_toNat] at h ⊢
  rw [and_mask_toNat, UInt32.toNat_add]
  omega

theorem one_ne_zero : (1 : Ret) ≠ 0 := by decide

theorem writeLoop_safe (hL : L.Regular) {dest len : UInt32} {src : List UInt8} {s : Env}
    (hdvd : L.writeLen.toNat ∣ len.toNat) (htop : (folded dest).toNat + len.toNat ≤ 0x800000)
    (h : Spares dest src len.toNat) :
    Writes C L s (writeLoop C L dest src len s) dest len.toNat := by
  have hpos := toNat_pos L.writeLen_ne_zero
  fun_induction writeLoop C L dest src len s with
  | case1 dest src s =>
    refine ⟨.refl s, Or.inl rfl, fun _ => ?_, fun _ hlow hhigh => ?_, fun hrefused => ?_⟩
    · simp
    · rw [UInt32.toNat_zero] at hhigh
      omega
    · simp at hrefused
  | case2 dest src len s hlen r hr ih =>
    obtain ⟨q, hq⟩ := hdvd
    have hlenpos := toNat_pos hlen
    have hqpos : 0 < q := Nat.pos_of_ne_zero fun h0 => by
      rw [h0, Nat.mul_zero] at hq
      omega
    obtain ⟨q, rfl⟩ : ∃ n, q = n + 1 := ⟨q - 1, by omega⟩
    have hmul : L.writeLen.toNat * (q + 1) = L.writeLen.toNat * q + L.writeLen.toNat :=
      Nat.mul_succ _ _
    have hleft := left_toNat len L.writeLen
    have hsmall := hL.writeLen_le
    have hunlocks : Command.Unlocks C ⟨L.writeCmd, folded dest, some (dataAt C src)⟩ :=
      unlocks_of_spares hL (by omega) htop h
    have hadd : (folded (dest + L.writeLen)).toNat = (folded dest).toNat + L.writeLen.toNat :=
      folded_add (by omega)
    have hcount : r.2.commands.length = s.commands.length + 1 := by
      rw [show r.2.commands = _ from klGenCommand_commands _ _ _ _, List.length_append]
      rfl
    have hrefuses : C.refuses s.commands.length = false := by
      have hfst : r.1 = !C.refuses s.commands.length := klGenCommand_fst _ _ _ _
      rw [hr] at hfst
      simpa using hfst.symm
    have hdiv : len.toNat / L.writeLen.toNat = (left len L.writeLen).toNat / L.writeLen.toNat + 1 := by
      rw [hleft, hq, hmul, Nat.add_sub_cancel, Nat.mul_div_cancel_left _ hpos, ← hmul,
        Nat.mul_div_cancel_left _ hpos]
    have hrest := ih ⟨q, by omega⟩ (by omega) fun k hk hkeq => by
      rw [List.getElem?_drop]
      exact h _ (by omega) (by omega)
    refine ⟨(klGenCommand_safe hunlocks s).trans hrest.safe,
      (klGenCommand_clears L.writeCmd_ne hunlocks s).trans hrest.clears, fun hret => ?_,
      fun hret hlow hhigh => ?_, ?_⟩
    · rw [hrest.commands hret, hcount, hdiv]
      omega
    · by_cases hhere : 0x40C < (folded dest).toNat + L.writeLen.toNat
      · have hbyte := klGenCommand_byte L.writeCmd_ne hunlocks s
        rw [if_pos ⟨hrefuses, 0x40C - (folded dest).toNat, List.mem_range.mpr
          (by rw [hL.size_writeCmd]; omega), (location_eq_iff (by omega)).mpr (by omega)⟩] at hbyte
        rcases hrest.clears with hsame | hsame
        · rw [hsame]
          exact hbyte
        · rw [hsame, show r.2.mem flashSecurityByteAddress = _ from hbyte, and_and_self]
      · rw [hrest.byte hret (by omega) (by omega)]
        have hbyte := klGenCommand_byte L.writeCmd_ne hunlocks s
        rw [if_neg] at hbyte
        · rw [show r.2.mem flashSecurityByteAddress = _ from hbyte]
        · rintro ⟨-, k, hk, hlocation⟩
          rw [List.mem_range, hL.size_writeCmd] at hk
          rw [location_eq_iff (by omega)] at hlocation
          omega
    · rintro ⟨m, hm, hm'⟩
      cases m with
      | zero =>
        rw [Nat.add_zero, hrefuses] at hm'
        contradiction
      | succ m => exact hrest.refused ⟨m, by omega, by rw [hcount, Nat.add_assoc, Nat.add_comm 1]; exact hm'⟩
  | case3 dest src len s hlen r hr =>
    have hunlocks : Command.Unlocks C ⟨L.writeCmd, folded dest, some (dataAt C src)⟩ :=
      unlocks_of_spares hL (Nat.le_of_dvd (toNat_pos hlen) hdvd) htop h
    exact ⟨klGenCommand_safe hunlocks s, klGenCommand_clears L.writeCmd_ne hunlocks s,
      fun hret => absurd hret one_ne_zero, fun hret => absurd hret one_ne_zero,
      fun _ => one_ne_zero⟩

/-! ## The buffer of a region -/

/-- The block whose commands carry the addresses of the block of the security byte. -/
abbrev foldedBlock : UInt32 := 0x10000400

/-- The bytes of a block: 0xFE where the folded block covers the security byte. -/
def SparesBlock (base : UInt32) (b : List Tagged) : Prop :=
  b.length = 0x400 ∧ (base = foldedBlock → (b[0xC]?).map Prod.fst = some flashSecurityByteUnsecured)

/-- An address of the region at which a block begins. -/
def Layout.Block (L : Layout) (base : UInt32) : Prop := base.toNat % 0x400 = 0 ∧ L.Holds base

theorem folded_toNat (hL : L.Regular) {base : UInt32} (h : L.Block base) :
    (folded base).toNat + 0x400 ≤ 0x800000 ∧ (folded base).toNat % 0x400 = 0 ∧
      ((folded base).toNat = 0x400 → base = flashSecurityByteAddress - 0xC ∨ base = foldedBlock) := by
  obtain ⟨hplaced, hstart, hlength, -⟩ := hL
  obtain ⟨halign, hlow, hhigh⟩ := h
  have hmask : (folded base).toNat = base.toNat % 0x1000000 := and_mask_toNat base
  refine ⟨?_, ?_, fun h => ?_⟩
  · rcases hplaced with h | ⟨h, h'⟩
    · omega
    · omega
  · omega
  · rcases hplaced with hp | ⟨hp, hp'⟩
    · exact Or.inl (UInt32.toNat_inj.mp (show base.toNat = 0x400 by omega))
    · exact Or.inr (UInt32.toNat_inj.mp (show base.toNat = 0x10000400 by omega))

theorem guardSecurityByte_spares (hL : L.Regular) {base : UInt32} (hbase : L.Block base)
    {b : List Tagged} (hb : SparesBlock base b) :
    Spares base (guardSecurityByte false base (b.map Prod.fst) 0x400) 0x400 := by
  obtain ⟨htop, halign, hwhich⟩ := folded_toNat hL hbase
  obtain ⟨hlength, hbyte⟩ := hb
  intro k hk hkeq
  obtain rfl : k = 0xC := by omega
  unfold guardSecurityByte
  rcases hwhich (by omega) with rfl | rfl
  · rw [if_pos (by decide)]
    exact List.getElem?_set_self (by rw [List.length_map, hlength]; decide)
  · rw [if_neg (by decide), List.getElem?_map]
    exact hbyte rfl

/-- A block is written safely. -/
theorem klGenFlashWrite_writes (hL : L.Regular) {base : UInt32} (hbase : L.Block base)
    {b : List Tagged} (hb : SparesBlock base b) {s : Env} (hdisabled : s.unsafeEnabled = false) :
    Writes C L s (klGenFlashWrite C L base (b.map Prod.fst) 0x400 s) base 0x400 := by
  unfold klGenFlashWrite
  rw [hdisabled]
  refine writeLoop_safe hL ?_ (folded_toNat hL hbase).1 (guardSecurityByte_spares hL hbase hb)
  obtain ⟨-, -, -, -, hlen | hlen⟩ := hL
  · rw [hlen]
    exact ⟨0x100, rfl⟩
  · rw [hlen]
    exact ⟨0x80, rfl⟩

/-- A region whose buffer, if it is to be written, leaves the part unlocked. -/
structure RegionSafe (C : Chip) (L : Layout) (f : TargetFlash Env Tagged) : Prop where
  region : f.toFlashRegion = L.region C
  length : ∀ b, f.buf = some b → b.length = 0x400
  block : f.Pending → L.Block f.bufAddr
  spares : ∀ b, f.buf = some b → f.bufAddr ≠ invalidAddr → SparesBlock f.bufAddr b

theorem Layout.Regular.bufSize (hL : L.Regular) : (L.region C).bufSize = 0x400 := by
  apply UInt32.toNat_inj.mp
  have := UInt32.le_iff_toNat_le.mp hL.2.2.2.1
  show (min32 L.erasesize 0x400).toNat = _
  rw [min32_toNat]
  exact Nat.min_eq_right this

theorem RegionSafe.bufSize (hL : L.Regular) {f : TargetFlash Env Tagged} (h : RegionSafe C L f) :
    f.bufSize = 0x400 := by
  rw [h.region]
  exact hL.bufSize

/-- The write of the block in the buffer. -/
theorem RegionSafe.writeBlock (hL : L.Regular) {f : TargetFlash Env Tagged}
    (h : RegionSafe C L f) (hp : f.Pending) (i : Nat) {w : World Env Tagged}
    (hdisabled : w.env.unsafeEnabled = false) :
    Writes C L w.env ((f.writeBlock i w).1, (f.writeBlock i w).2.env) f.bufAddr 0x400 := by
  obtain ⟨b, hb⟩ := Option.ne_none_iff_exists'.mp hp.1
  have hwrites := klGenFlashWrite_writes (C := C) hL (h.block hp) (h.spares b hb hp.2) hdisabled
  have hcall : (f.write f.bufAddr (f.buf.getD []) f.bufSize w.env) =
      klGenFlashWrite C L f.bufAddr (b.map Prod.fst) 0x400 w.env := by
    rw [h.bufSize hL, hb, h.region]
    rfl
  rw [TargetFlash.writeBlock, World.call_ret, World.call_env, hcall]
  exact hwrites

/-! ## The writes of a session -/

/-- A range has a byte in the folded block. -/
def Touches (dest : UInt32) (len : Nat) : Prop :=
  0 < len ∧ dest.toNat < 0x10000800 ∧ 0x10000400 < dest.toNat + len

/-- A write keeps 0xFE in the folded block: it brings this byte along, or it begins in the block
and leaves the byte in the buffer as it is. -/
def Provides (f : TargetFlash Env Tagged) (dest : UInt32) (src : List Tagged) (len : Nat) : Prop :=
  Touches dest len →
    (∃ k < len, dest.toNat + k = 0x1000040C ∧
      (src[k]?).map Prod.fst = some flashSecurityByteUnsecured) ∨
    ((∀ k < len, dest.toNat + k ≠ 0x1000040C) ∧ 0x10000400 ≤ dest.toNat ∧
      f.buf ≠ none ∧ f.bufAddr = foldedBlock)

theorem loadBlock_safe (hL : L.Regular) {f : TargetFlash Env Tagged} (h : RegionSafe C L f)
    (hbuf : f.buf ≠ none) (i : Nat) (base : UInt32) {w : World Env Tagged}
    (hdisabled : w.env.unsafeEnabled = false) :
    ∃ b, (loadBlock i base f w).2.1.buf = some b ∧ b.length = 0x400 ∧
      (loadBlock i base f w).2.1.bufAddr = base ∧ (base = f.bufAddr → f.buf = some b) ∧
      Safe C w.env (loadBlock i base f w).2.2.env := by
  unfold loadBlock
  by_cases hsame : base ≠ f.bufAddr
  · rw [if_pos hsame]
    refine ⟨_, rfl, ?_, rfl, fun h => absurd h hsame, ?_⟩
    · rw [List.length_replicate, h.bufSize hL]
      rfl
    · dsimp only
      split
      · rename_i hvalid
        exact (h.writeBlock hL ⟨hbuf, hvalid⟩ i hdisabled).safe
      · exact .refl w.env
  · rw [if_neg hsame]
    obtain ⟨b, hb⟩ := Option.ne_none_iff_exists'.mp hbuf
    exact ⟨b, hb, h.length b hb, (not_not.mp hsame).symm, fun _ => hb, .refl w.env⟩

/-- Where a turn of the loop is: in the block at `dest - dest % f.bufSize`. -/
theorem block_toNat (dest : UInt32) :
    (dest - dest % 0x400).toNat = dest.toNat - dest.toNat % 0x400 := by
  have hmod : (dest % 0x400).toNat = dest.toNat % 0x400 := UInt32.toNat_mod dest 0x400
  rw [UInt32.toNat_sub_of_le _ _ (UInt32.le_iff_toNat_le.mpr (by rw [hmod]; omega)), hmod]

theorem sectlen_toNat (dest len : UInt32) :
    (min32 (0x400 - dest % 0x400) len).toNat = min (0x400 - dest.toNat % 0x400) len.toNat := by
  rw [min32_toNat, sub_offset_toNat (by decide)]
  rfl

/-- A turn of the loop. -/
theorem turn_safe (hL : L.Regular) {f : TargetFlash Env Tagged} (h : RegionSafe C L f)
    (hbuf : f.buf ≠ none) (i : Nat) {dest len : UInt32} (hlen : len ≠ 0) {src : List Tagged}
    {w : World Env Tagged} (hdisabled : w.env.unsafeEnabled = false)
    (hlow : L.start.toNat ≤ dest.toNat)
    (hhigh : dest.toNat + len.toNat ≤ L.start.toNat + L.length.toNat)
    (hsrc : len.toNat ≤ src.length) (hprovides : Provides f dest src len.toNat) :
    RegionSafe C L ((loadBlock i (dest - dest % 0x400) f w).2.1.copyChunk (dest % 0x400)
        (src.take (min32 (0x400 - dest % 0x400) len).toNat)) ∧
      Safe C w.env (loadBlock i (dest - dest % 0x400) f w).2.2.env := by
  obtain ⟨b, hb, hlength, haddr, hsame, hsafe⟩ :=
    loadBlock_safe hL h hbuf i (dest - dest % 0x400) hdisabled
  have hregion := loadBlock_region i (dest - dest % 0x400) f w
  have hpos := toNat_pos hlen
  have hbase := block_toNat dest
  have hsect := sectlen_toNat dest len
  have hoff : (dest % 0x400).toNat = dest.toNat % 0x400 := UInt32.toNat_mod dest 0x400
  generalize (min32 (0x400 - dest % 0x400) len).toNat = sectlen at *
  generalize dest % 0x400 = offset at *
  have htake : (src.take sectlen).length = sectlen := by
    rw [List.length_take]
    omega
  have hfits : offset.toNat + (src.take sectlen).length ≤ b.length := by
    rw [htake, hlength]
    omega
  have hblock : L.Block (dest - offset) := by
    have hstart := hL.2.1
    refine ⟨?_, ?_, ?_⟩
    · omega
    · omega
    · omega
  generalize loadBlock i (dest - offset) f w = l at *
  have hcopy : (l.2.1.copyChunk offset (src.take sectlen)).buf =
      some (patch b offset.toNat (src.take sectlen)) := by
    rw [TargetFlash.copyChunk, hb]
    rfl
  refine ⟨⟨hregion.trans h.region, fun b' hb' => ?_, fun _ => haddr ▸ hblock, fun b' hb' _ => ?_⟩,
    hsafe⟩
  · rw [hcopy] at hb'
    rw [← Option.some.inj hb', length_patch hfits, hlength]
  · rw [hcopy] at hb'
    rw [← Option.some.inj hb']
    refine ⟨by rw [length_patch hfits, hlength], fun hfolded => ?_⟩
    have hfolded : dest - offset = foldedBlock := haddr.symm.trans hfolded
    have hnat : (dest - offset).toNat = 0x10000400 := by
      rw [hfolded]
      rfl
    rw [getElem?_patch hfits, htake]
    rcases hprovides ⟨hpos, by omega, by omega⟩ with ⟨k, hk, hkeq, hbyte⟩ | ⟨hout, hbegin, -, hold⟩
    · rw [if_pos ⟨by omega, by omega⟩, show 0xC - offset.toNat = k by omega,
        List.getElem?_take_of_lt (by omega)]
      exact hbyte
    · rw [if_neg]
      · have hspares := h.spares b (hsame (hfolded.trans hold.symm)) (by rw [hold]; decide)
        exact hspares.2 hold
      · rintro ⟨hge, hlt⟩
        exact hout (0xC - offset.toNat) (by omega) (by omega)

theorem writeBufferedLoop_safe (hL : L.Regular) {f : TargetFlash Env Tagged}
    (h : RegionSafe C L f) (hbuf : f.buf ≠ none) {i : Nat} {dest len : UInt32} {src : List Tagged}
    {w : World Env Tagged} (hdisabled : w.env.unsafeEnabled = false)
    (hlow : L.start.toNat ≤ dest.toNat)
    (hhigh : dest.toNat + len.toNat ≤ L.start.toNat + L.length.toNat)
    (hsrc : len.toNat ≤ src.length) (hprovides : Provides f dest src len.toNat) :
    RegionSafe C L (writeBufferedLoop i f dest src len w).2.1 ∧
      Safe C w.env (writeBufferedLoop i f dest src len w).2.2.env := by
  fun_induction writeBufferedLoop i f dest src len w with
  | case1 f dest src w => exact ⟨h, .refl w.env⟩
  | case2 f dest src len w hlen offset base l sectlen r ih =>
    have hsize := h.bufSize hL
    obtain ⟨hregion, hsafe⟩ := turn_safe hL h hbuf i hlen hdisabled hlow hhigh hsrc hprovides
    have hsect := sectlen_toNat dest len
    have hpos := toNat_pos hlen
    simp only [sectlen, l, base, offset, r, hsize] at ih ⊢
    generalize min32 (0x400 - dest % 0x400) len = n at *
    have hadd : (dest + n).toNat = dest.toNat + n.toNat := by
      have hplaced := hL.1
      rw [UInt32.toNat_add]
      rcases hplaced with hp | ⟨hp, hp'⟩
      · omega
      · omega
    have hsub : (len - n).toNat = len.toNat - n.toNat :=
      UInt32.toNat_sub_of_le _ _ (UInt32.le_iff_toNat_le.mpr (by omega))
    -- What is left touches the folded block only if this turn was before it.
    have hrest : ∀ g, Provides g (dest + n) (src.drop n.toNat) (len - n).toNat := by
      rintro g ⟨htouch, htouch', htouch''⟩
      rcases hprovides ⟨hpos, by omega, by omega⟩ with ⟨k, hk, hkeq, hbyte⟩ | ⟨-, hbegin, -⟩
      · refine Or.inl ⟨k - n.toNat, by omega, by omega, ?_⟩
        rw [List.getElem?_drop, Nat.add_sub_of_le (by omega)]
        exact hbyte
      · omega
    obtain ⟨hregion', hsafe'⟩ := ih hregion (copyChunk_buf (loadBlock_buf hbuf _ _ _) _ _)
      (hsafe.unsafeEnabled.trans hdisabled) (by omega) (by omega)
      (by rw [List.length_drop]; omega) (hrest _)
    exact ⟨hregion', hsafe.trans hsafe'⟩

/-- The heap. A region's buffer is an allocation. -/
def heap (C : Chip) : Heap Env Tagged where
  zero := (0, none)
  alloc _ s := (C.room s.allocs, { s with allocs := s.allocs + 1 })
  free := id

theorem writeBuffered_safe (hL : L.Regular) {f : TargetFlash Env Tagged}
    (h : RegionSafe C L f) (i : Nat) {dest : UInt32} (len : UInt32) (src : List Tagged)
    {w : World Env Tagged} (hdisabled : w.env.unsafeEnabled = false)
    (hlow : L.start.toNat ≤ dest.toNat)
    (hhigh : dest.toNat + len.toNat ≤ L.start.toNat + L.length.toNat)
    (hsrc : len.toNat ≤ src.length) (hprovides : Provides f dest src len.toNat) :
    RegionSafe C L (targetFlashWriteBuffered (heap C) i f dest src len w).2.1 ∧
      Safe C w.env (targetFlashWriteBuffered (heap C) i f dest src len w).2.2.env := by
  unfold targetFlashWriteBuffered
  split
  · rename_i b hb
    exact writeBufferedLoop_safe hL h (by rw [hb]; exact Option.some_ne_none b) hdisabled hlow hhigh
      hsrc hprovides
  · rename_i hnone
    have halloc : Safe C w.env ((heap C).alloc f.bufSize w.env).2 :=
      ⟨⟨[], (List.append_nil _).symm, fun _ hc => absurd hc List.not_mem_nil⟩, rfl⟩
    dsimp only
    split
    · have hfresh : RegionSafe C L { f with
          bufAddr := invalidAddr, buf := some (List.replicate f.bufSize.toNat (heap C).zero) } := by
        refine ⟨h.region, fun b hb => ?_, fun hp => absurd rfl hp.2, fun _ _ hv => absurd rfl hv⟩
        rw [← Option.some.inj hb, List.length_replicate, h.bufSize hL]
        rfl
      obtain ⟨hregion, hsafe⟩ := writeBufferedLoop_safe hL hfresh (Option.some_ne_none _) (i := i)
        (w := (w.call i (.alloc f.bufSize) (0, ((heap C).alloc f.bufSize w.env).2)).2)
        (halloc.unsafeEnabled.trans hdisabled) hlow hhigh hsrc fun htouch =>
          (hprovides htouch).imp_right fun hp => absurd hnone hp.2.2.1
      exact ⟨hregion, halloc.trans hsafe⟩
    · exact ⟨h, halloc⟩

/-- Every buffer leaves the part unlocked. -/
def FlashSafe (C : Chip) (regions : List Layout) (flash : List (TargetFlash Env Tagged)) : Prop :=
  List.Forall₂ (RegionSafe C) regions flash

theorem FlashSafe.exists_of_mem {regions : List Layout} {flash : List (TargetFlash Env Tagged)}
    (h : FlashSafe C regions flash) {f : TargetFlash Env Tagged} (hf : f ∈ flash) :
    ∃ L ∈ regions, RegionSafe C L f := by
  induction h with
  | nil => exact absurd hf List.not_mem_nil
  | cons hL _ ih =>
    rcases List.mem_cons.mp hf with rfl | hf
    · exact ⟨_, List.mem_cons_self, hL⟩
    · obtain ⟨L, hmem, hL'⟩ := ih hf
      exact ⟨L, List.mem_cons_of_mem _ hmem, hL'⟩

/-- One region moves on. -/
theorem FlashSafe.set {regions : List Layout} {flash : List (TargetFlash Env Tagged)}
    (h : FlashSafe C regions flash) (i : Fin flash.length) :
    ∃ L ∈ regions, RegionSafe C L (flash.get i) ∧
      ∀ f', RegionSafe C L f' → FlashSafe C regions (flash.set i f') := by
  obtain ⟨i, hi⟩ := i
  induction h generalizing i with
  | nil => exact absurd hi (Nat.not_lt_zero i)
  | cons hL hrest ih =>
    cases i with
    | zero => exact ⟨_, List.mem_cons_self, hL, fun f' hf' => .cons hf' hrest⟩
    | succ i =>
      obtain ⟨L, hmem, hL', hset⟩ := ih i (Nat.lt_of_succ_lt_succ hi)
      exact ⟨L, List.mem_cons_of_mem _ hmem, hL', fun f' hf' => .cons hL (hset f' hf')⟩

theorem RegionSafe.covers_toNat {f : TargetFlash Env Tagged} (h : RegionSafe C L f) {a : UInt32}
    (hc : f.covers a = true) :
    L.start.toNat ≤ a.toNat ∧ a.toNat < L.start.toNat + L.length.toNat := by
  rw [h.region] at hc
  obtain ⟨hlow, hhigh, -⟩ := Flash.covers_toNat hc
  exact ⟨hlow, hhigh⟩

/-- A region with a byte up to the end of the folded block contains the block, if it is not in
front of it. -/
theorem Layout.Regular.covers_folded (hL : L.Regular) {f : TargetFlash Env Tagged}
    (h : RegionSafe C L f) (hend : 0x10000400 < L.start.toNat + L.length.toNat) :
    f.covers foldedBlock = true ∧ 0x10000800 ≤ L.start.toNat + L.length.toNat := by
  obtain ⟨hplaced, -, hlength, -⟩ := hL
  rcases hplaced with hp | ⟨hp, hp'⟩
  · omega
  · rw [h.region, covers_iff]
    have hblock : foldedBlock.toNat = 0x10000400 := rfl
    have hstart : (L.region C).start = L.start := rfl
    have hlen : (L.region C).length = L.length := rfl
    rw [hblock, hstart, hlen]
    refine ⟨⟨?_, ?_⟩, ?_⟩
    · omega
    · omega
    · omega

theorem writeLoop_flashSafe {regions : List Layout} (hregions : ∀ L ∈ regions, L.Regular)
    {flash : List (TargetFlash Env Tagged)} (h : FlashSafe C regions flash) (ret : Ret)
    (dest len : UInt32) (src : List Tagged) {w : World Env Tagged}
    (hdisabled : w.env.unsafeEnabled = false) (hsrc : len.toNat ≤ src.length)
    (hnowrap : ∀ f ∈ flash, f.covers dest = true → dest.toNat + len.toNat < 2 ^ 32)
    (hprovides : ∀ f ∈ flash, f.covers foldedBlock = true → Provides f dest src len.toNat) :
    FlashSafe C regions (targetFlashWriteLoop (heap C) flash ret dest src len w).2.1 ∧
      Safe C w.env (targetFlashWriteLoop (heap C) flash ret dest src len w).2.2.env := by
  fun_induction targetFlashWriteLoop (heap C) flash ret dest src len w with
  | case1 flash ret dest src w => exact ⟨h, .refl w.env⟩
  | case2 flash ret dest src len w => exact ⟨h, .refl w.env⟩
  | case3 flash ret dest src len w hlen i hfind f tmplen r ih =>
    have hcovers : f.covers dest = true := flashForAddr_eq_some hfind
    have hmem : f ∈ flash := List.get_mem flash i
    have hnowrap := hnowrap f hmem hcovers
    obtain ⟨L, hLmem, hL, hset⟩ := h.set i
    have hregular := hregions L hLmem
    obtain ⟨hlow, hhigh⟩ := hL.covers_toNat hcovers
    have htmp : tmplen.toNat = min len.toNat (L.start.toNat + L.length.toNat - dest.toNat) := by
      have hstart : f.start = L.start := congrArg FlashRegion.start hL.region
      have hlength : f.length = L.length := congrArg FlashRegion.length hL.region
      rw [← hstart, ← hlength]
      exact tmplen_toNat hcovers hnowrap
    have hpos := toNat_pos hlen
    have hblock : foldedBlock.toNat = 0x10000400 := rfl
    obtain ⟨hregion, hsafe⟩ := writeBuffered_safe hregular hL i tmplen src hdisabled hlow
      (by omega) (by omega) fun htouch => by
        obtain ⟨hcovers', hend⟩ := hregular.covers_folded hL (by have := htouch.2.2; omega)
        have htouch' : Touches dest len.toNat :=
          ⟨hpos, htouch.2.1, by have := htouch.2.2; omega⟩
        rcases hprovides f hmem hcovers' htouch' with ⟨k, hk, hkeq, hbyte⟩ | ⟨hout, hrest⟩
        · exact Or.inl ⟨k, by omega, hkeq, hbyte⟩
        · exact Or.inr ⟨fun k hk => hout k (by omega), hrest⟩
    have hadd : (dest + tmplen).toNat = dest.toNat + tmplen.toNat := by
      rw [UInt32.toNat_add]
      omega
    have hsub : (len - tmplen).toNat = len.toNat - tmplen.toNat :=
      UInt32.toNat_sub_of_le _ _ (UInt32.le_iff_toNat_le.mpr (by omega))
    obtain ⟨hflash, hsafe'⟩ := ih (hset _ hregion) (hsafe.unsafeEnabled.trans hdisabled)
      (by rw [List.length_drop]; omega) (fun _ _ _ => by omega) (by
        rintro g hg hgcovers ⟨htouch, htouch', htouch''⟩
        -- The region of this turn is in front of the folded block.
        have hfront : ¬ 0x10000400 < L.start.toNat + L.length.toNat := fun hend => by
          have := (hregular.covers_folded hL hend).2
          omega
        have hgmem : g ∈ flash := by
          rcases List.mem_or_eq_of_mem_set hg with hg | rfl
          · exact hg
          · have := hregion.covers_toNat hgcovers
            omega
        rcases hprovides g hgmem hgcovers ⟨hpos, by omega, by omega⟩ with
          ⟨k, hk, hkeq, hbyte⟩ | ⟨-, hbegin, -⟩
        · refine Or.inl ⟨k - tmplen.toNat, by omega, by omega, ?_⟩
          rw [List.getElem?_drop, Nat.add_sub_of_le (by omega)]
          exact hbyte
        · omega)
    exact ⟨hflash, hsafe.trans hsafe'⟩

/-! ## Erasing -/

theorem erase_unlocks (addr : UInt32) (data : Option (List UInt8)) :
    Command.Unlocks C ⟨.eraseSector, addr, data⟩ := fun k hk => absurd hk (Nat.not_lt_zero k)

theorem klGenFlashErase_safe {addr len : UInt32} {s : Env} :
    Safe C s (klGenFlashErase C L addr len s).2 := by
  fun_induction klGenFlashErase C L addr len s with
  | case1 addr s => exact .refl s
  | case2 addr len s hlen r hr ih =>
    exact (klGenCommand_safe (erase_unlocks _ _) s).trans ih
  | case3 addr len s hlen r hr => exact klGenCommand_safe (erase_unlocks _ _) s

theorem eraseLoop_safe {regions : List Layout} {flash : List (TargetFlash Env Tagged)}
    (h : FlashSafe C regions flash) (ret : Ret) (addr len : UInt32) (w : World Env Tagged) :
    Safe C w.env (targetFlashEraseLoop flash ret addr len w).2.env := by
  fun_induction targetFlashEraseLoop flash ret addr len w with
  | case1 ret addr w => exact .refl w.env
  | case2 ret addr len w => exact .refl w.env
  | case3 ret addr len w hlen i hfind f tmplen r ih =>
    obtain ⟨L, -, hL, -⟩ := h.set i
    have hcall : Safe C w.env r.2.env := by
      show Safe C w.env (f.erase addr tmplen w.env).2
      rw [show f.toFlashRegion = L.region C from hL.region]
      exact klGenFlashErase_safe
    exact hcall.trans ih

/-! ## The end of a session -/

theorem securityData_unlocks (mem : UInt32 → UInt8) :
    Command.Unlocks C ⟨.programPhrase, folded (flashSecurityByteAddress - 4),
      some (securityData mem true)⟩ ∧
    Command.Unlocks C ⟨.programLongword, folded flashSecurityByteAddress,
      some (securityData mem false)⟩ := by
  have hphrase : (folded (flashSecurityByteAddress - 4)).toNat = 0x408 := by decide
  have hlong : (folded flashSecurityByteAddress).toNat = 0x40C := by decide
  refine ⟨fun k hk hlocation => ?_, fun k hk hlocation => ?_⟩
  · have hk : k < 8 := hk
    rw [location_eq_iff (by omega)] at hlocation
    obtain rfl : k = 4 := by omega
    rfl
  · have hk : k < 4 := hk
    rw [location_eq_iff (by omega)] at hlocation
    obtain rfl : k = 0 := by omega
    rfl

/-- A command over the security byte programs it unless it is refused. -/
theorem klGenCommand_repairs {cmd : Cmd} (hcmd : cmd ≠ .eraseSector) {addr : UInt32}
    {data : Option (List UInt8)} (h : Command.Unlocks C ⟨cmd, folded addr, data⟩)
    (hlow : (folded addr).toNat ≤ 0x40C) (hhigh : 0x40C < (folded addr).toNat + cmd.size)
    (s : Env) :
    (C.klGenCommand cmd addr data s).2.commands.length = s.commands.length + 1 ∧
      (C.klGenCommand cmd addr data s).2.mem flashSecurityByteAddress =
        if C.refuses s.commands.length = false then
          s.mem flashSecurityByteAddress &&& flashSecurityByteUnsecured
        else s.mem flashSecurityByteAddress := by
  constructor
  · rw [klGenCommand_commands, List.length_append]
    rfl
  · have hcovers : ∃ k ∈ List.range cmd.size,
        C.location (folded addr + UInt32.ofNat k) = flashSecurityByteAddress :=
      ⟨0x40C - (folded addr).toNat, List.mem_range.mpr (by omega),
        (location_eq_iff (by omega)).mpr (by omega)⟩
    rw [klGenCommand_byte hcmd h]
    simp only [hcovers, and_true]

/-- `kl_gen_flash_done` finds 0xFE, or issues a command that programs it. -/
theorem klGenFlashDone_effect {s : Env} (hdisabled : s.unsafeEnabled = false) :
    (klGenFlashDone C L s).1 = 0 ∧ Safe C s (klGenFlashDone C L s).2 ∧
      (s.mem flashSecurityByteAddress = flashSecurityByteUnsecured →
        (klGenFlashDone C L s).2 = s) ∧
      (s.mem flashSecurityByteAddress ≠ flashSecurityByteUnsecured →
        (klGenFlashDone C L s).2.commands.length = s.commands.length + 1 ∧
        (klGenFlashDone C L s).2.mem flashSecurityByteAddress =
          if C.refuses s.commands.length = false then
            s.mem flashSecurityByteAddress &&& flashSecurityByteUnsecured
          else s.mem flashSecurityByteAddress) := by
  obtain ⟨hphrase, hlong⟩ := securityData_unlocks (C := C) s.mem
  unfold klGenFlashDone
  rw [if_neg (by rw [hdisabled]; exact Bool.false_ne_true)]
  split
  · rename_i hbyte
    exact ⟨rfl, .refl s, fun _ => rfl, fun hne => absurd hbyte hne⟩
  · rename_i hbyte
    split
    · exact ⟨rfl, klGenCommand_safe hphrase s, fun h => absurd h hbyte,
        fun _ => klGenCommand_repairs Cmd.noConfusion hphrase (by decide) (by decide) s⟩
    · exact ⟨rfl, klGenCommand_safe hlong s, fun h => absurd h hbyte,
        fun _ => klGenCommand_repairs Cmd.noConfusion hlong (by decide) (by decide) s⟩

/-- How many commands the block in the buffer takes. -/
def flushCommands (L : Layout) (f : TargetFlash Env Tagged) : Nat :=
  if f.Pending then 0x400 / L.writeLen.toNat else 0

/-- The flush at the end of a session. -/
theorem doneBuffered_safe (hL : L.Regular) {f : TargetFlash Env Tagged} (h : RegionSafe C L f)
    (i : Nat) {w : World Env Tagged} (hdisabled : w.env.unsafeEnabled = false) :
    RegionSafe C L (targetFlashDoneBuffered (heap C) i f w).2.1 ∧
      Writes C L w.env ((targetFlashDoneBuffered (heap C) i f w).1,
        (targetFlashDoneBuffered (heap C) i f w).2.2.env) f.bufAddr
        (if f.Pending then 0x400 else 0) := by
  unfold targetFlashDoneBuffered
  by_cases hp : f.Pending
  · simp only [if_pos hp]
    have hempty : RegionSafe C L { f with bufAddr := invalidAddr, buf := none } :=
      ⟨h.region, fun _ hb => (nomatch hb), fun hp => absurd rfl hp.1, fun _ hb => (nomatch hb)⟩
    exact ⟨hempty, h.writeBlock hL hp i hdisabled⟩
  · simp only [if_neg hp]
    refine ⟨h, .refl _, Or.inl rfl, fun _ => ?_, fun _ hlow hhigh => ?_, fun hrefused => ?_⟩
    · simp
    · omega
    · simp at hrefused

theorem RegionSafe.callDone {f : TargetFlash Env Tagged} (h : RegionSafe C L f) (i : Nat)
    (w : World Env Tagged) : f.callDone i w = w.call i .done (klGenFlashDone C L w.env) := by
  have hdone : f.done = some (klGenFlashDone C L) := congrArg FlashRegion.done h.region
  rw [TargetFlash.callDone, hdone]

theorem doneFrom_safe {regions : List Layout} (hregions : ∀ L ∈ regions, L.Regular)
    {fs : List (TargetFlash Env Tagged)} (h : FlashSafe C regions fs) {i : Nat}
    {w : World Env Tagged} (hdisabled : w.env.unsafeEnabled = false) :
    FlashSafe C regions (targetFlashDoneFrom (heap C) i fs w).2.1 ∧
      Safe C w.env (targetFlashDoneFrom (heap C) i fs w).2.2.env := by
  induction h generalizing i w with
  | nil => exact ⟨.nil, .refl w.env⟩
  | cons hL hrest ih =>
    rename_i L f regions fs
    obtain ⟨hflush, hwrites⟩ :=
      doneBuffered_safe (hregions L List.mem_cons_self) hL i (w := w) hdisabled
    rw [targetFlashDoneFrom]
    generalize targetFlashDoneBuffered (heap C) i f w = d at *
    have hdisabled' := hwrites.safe.unsafeEnabled.trans hdisabled
    obtain ⟨hzero, hsafe, -⟩ := klGenFlashDone_effect (C := C) (L := L) hdisabled'
    dsimp only
    rw [hflush.callDone, World.call_ret, hzero]
    split
    · exact ⟨.cons hflush hrest, hwrites.safe⟩
    · rw [if_neg (not_not.mpr rfl)]
      obtain ⟨hflash, hsafe'⟩ := ih (fun L hL => hregions L (List.mem_cons_of_mem _ hL))
        (i := i + 1) (w := (d.2.2.call i .done (klGenFlashDone C L d.2.2.env)).2)
        (hsafe.unsafeEnabled.trans hdisabled')
      exact ⟨.cons hflush hflash, hwrites.safe.trans (hsafe.trans hsafe')⟩

/-- Commands that are refused make `vFlashDone` fail, or a command that is accepted puts 0xFE
into a byte that is erased: that of the block at 0x400, or the one of `kl_gen_flash_done`. A
region behind others follows their commands, all of which `kl_gen_flash_done` has needed. -/
def Repairs (C : Chip) (byte : UInt8) :
    List Layout → List (TargetFlash Env Tagged) → Nat → Prop
  | L :: regions, f :: fs, n =>
    (∃ m < flushCommands L f, C.refuses (n + m) = true) ∨
    byte = 0xFF ∧ (f.Pending ∧ (folded f.bufAddr).toNat = 0x400 ∨
      C.refuses (n + flushCommands L f) = false) ∨
    Repairs C byte regions fs (n + flushCommands L f + 1)
  | _, _, _ => False

/-- A byte that is not erased makes `vFlashDone` fail by its commands only. -/
theorem Repairs.of_ne {byte byte' : UInt8} (hbyte : byte ≠ 0xFF) {regions : List Layout}
    {fs : List (TargetFlash Env Tagged)} {n : Nat} (h : Repairs C byte regions fs n) :
    Repairs C byte' regions fs n := by
  induction regions generalizing fs n with
  | nil => exact h.elim
  | cons L regions ih =>
    cases fs with
    | nil => exact h.elim
    | cons f fs =>
      rcases h with h | ⟨h, -⟩ | h
      · exact Or.inl h
      · exact absurd h hbyte
      · exact Or.inr (Or.inr (ih h))

theorem erased_and : (0xFF : UInt8) &&& flashSecurityByteUnsecured = flashSecurityByteUnsecured := by
  decide

theorem unsecured_and :
    flashSecurityByteUnsecured &&& flashSecurityByteUnsecured = flashSecurityByteUnsecured :=
  UInt8.and_self

/-- What is left of `Repairs` when the byte has been programmed or not. -/
theorem Repairs.step {byte byte' : UInt8} {regions : List Layout}
    {fs : List (TargetFlash Env Tagged)} {n : Nat} (h : Repairs C byte regions fs n)
    (hbyte : byte' = byte ∨ byte' = byte &&& flashSecurityByteUnsecured) :
    byte' = flashSecurityByteUnsecured ∨ Repairs C byte' regions fs n := by
  rcases hbyte with rfl | rfl
  · exact Or.inr h
  · by_cases hff : byte = 0xFF
    · rw [hff]
      exact Or.inl erased_and
    · exact Or.inr (h.of_ne hff)

theorem Clears.unsecured {s s' : Env} (h : Clears s s')
    (hs : s.mem flashSecurityByteAddress = flashSecurityByteUnsecured) :
    s'.mem flashSecurityByteAddress = flashSecurityByteUnsecured := by
  rcases h with h | h
  · exact h.trans hs
  · rw [h, hs, unsecured_and]

/-- A region whose flush succeeds, and its `kl_gen_flash_done`. -/
theorem Repairs.done {f : TargetFlash Env Tagged} {regions : List Layout}
    {fs : List (TargetFlash Env Tagged)} {s s' : Env} (hdisabled : s'.unsafeEnabled = false)
    (hwrites : Writes C L s (0, s') f.bufAddr (if f.Pending then 0x400 else 0))
    (h : s.mem flashSecurityByteAddress = flashSecurityByteUnsecured ∨
      Repairs C (s.mem flashSecurityByteAddress) (L :: regions) (f :: fs) s.commands.length) :
    (klGenFlashDone C L s').2.mem flashSecurityByteAddress = flashSecurityByteUnsecured ∨
      Repairs C ((klGenFlashDone C L s').2.mem flashSecurityByteAddress) regions fs
        (klGenFlashDone C L s').2.commands.length := by
  obtain ⟨-, -, hsame, hdone⟩ := klGenFlashDone_effect (C := C) (L := L) hdisabled
  have hcommands : (if f.Pending then 0x400 else 0) / L.writeLen.toNat = flushCommands L f := by
    unfold flushCommands
    split
    · rfl
    · exact Nat.zero_div _
  have hcount : s'.commands.length = s.commands.length + flushCommands L f := by
    rw [← hcommands]
    exact hwrites.commands rfl
  by_cases hnow : s'.mem flashSecurityByteAddress = flashSecurityByteUnsecured
  · rw [hsame hnow]
    exact Or.inl hnow
  · obtain ⟨hnext, hmem⟩ := hdone hnow
    rw [hnext, hcount, hmem]
    rcases h.resolve_left fun h => hnow (hwrites.clears.unsecured h) with
      hrefused | ⟨hff, hhere⟩ | hlater
    · rw [← hcommands] at hrefused
      exact absurd rfl (hwrites.refused hrefused)
    · have hkept : s'.mem flashSecurityByteAddress = 0xFF := by
        rcases hwrites.clears with hkept | hkept
        · exact hkept.trans hff
        · exact absurd (hkept.trans (by rw [hff, erased_and])) hnow
      rcases hhere with ⟨hp, hblock⟩ | haccepted
      · have hover := hwrites.byte rfl (by rw [hblock]; decide) (by rw [hblock, if_pos hp]; decide)
        rw [hff, erased_and] at hover
        exact absurd hover hnow
      · rw [hcount, if_pos haccepted, hkept]
        exact Or.inl erased_and
    · rcases hlater.step hwrites.clears with h | h
      · exact absurd h hnow
      · refine h.step ?_
        split
        · exact Or.inr rfl
        · exact Or.inl rfl

theorem doneFrom_byte {regions : List Layout} (hregions : ∀ L ∈ regions, L.Regular)
    {fs : List (TargetFlash Env Tagged)} (h : FlashSafe C regions fs) {i : Nat}
    {w : World Env Tagged} (hdisabled : w.env.unsafeEnabled = false)
    (hbyte : w.env.mem flashSecurityByteAddress = flashSecurityByteUnsecured ∨
      Repairs C (w.env.mem flashSecurityByteAddress) regions fs w.env.commands.length)
    (hret : (targetFlashDoneFrom (heap C) i fs w).1 = 0) :
    (targetFlashDoneFrom (heap C) i fs w).2.2.env.mem flashSecurityByteAddress =
      flashSecurityByteUnsecured := by
  induction h generalizing i w with
  | nil => exact hbyte.resolve_right fun h => h
  | cons hL hrest ih =>
    rename_i L f regions fs
    obtain ⟨hflush, hwrites⟩ :=
      doneBuffered_safe (hregions L List.mem_cons_self) hL i (w := w) hdisabled
    rw [targetFlashDoneFrom] at hret ⊢
    generalize targetFlashDoneBuffered (heap C) i f w = d at *
    have hd : d.1 = 0 := by
      by_contra hne
      rw [if_pos hne] at hret
      exact hne hret
    have hdisabled' : d.2.2.env.unsafeEnabled = false := hwrites.safe.unsafeEnabled.trans hdisabled
    obtain ⟨hzero, hsafe, -⟩ := klGenFlashDone_effect (C := C) (L := L) hdisabled'
    rw [hd] at hwrites
    simp only [hflush.callDone, hd, World.call_ret, hzero, ne_eq, not_true_eq_false,
      if_false] at hret ⊢
    exact ih (fun L hL => hregions L (List.mem_cons_of_mem _ hL))
      (hsafe.unsafeEnabled.trans hdisabled') (Repairs.done hdisabled' hwrites hbyte) hret

/-! ## Sessions -/

/-- The session on a Kinetis part. The flash is what it was behind a reset of the target. -/
def probe (C : Chip) : Probe Env := ⟨heap C, id⟩

/-- The state in which a session begins. -/
def start (C : Chip) (regions : List Layout) (env : Env) : FlashState Env :=
  ⟨regions.map fun L => ⟨L.region C, 0, none⟩, false, ⟨env, [], 0⟩⟩

/-- The flash packets; `gdb_getpacket` has room for so many bytes. -/
abbrev SessionPacket := { v : VFlash // ∀ addr data, v = .write addr data → data.length ≤ 1024 }

def handle (C : Chip) (s : FlashState Env) (v : SessionPacket) : String × FlashState Env :=
  (probe C).handle s (.vFlash v.1)

def step (C : Chip) (s : FlashState Env) (v : SessionPacket) : FlashState Env := (handle C s v).2

/-- What a packet shall do: it issues no command that locks the part, and `vFlashDone` answers
`OK` only if the security byte reads 0xFE. -/
structure Unlocked (C : Chip) (s : FlashState Env) (v : SessionPacket) : Prop where
  commands : ∀ c ∈ (step C s v).world.env.commands.drop s.world.env.commands.length, c.Unlocks C
  done : v.1 = .done → (handle C s v).1 = "OK" →
    (step C s v).world.env.mem flashSecurityByteAddress = flashSecurityByteUnsecured

/-- The packets that do not lock the part. A `vFlashWrite` into the block of the FlexNVM that is
folded onto the security byte has 0xFE for it, or leaves it to the 0xFE in the buffer. At a
`vFlashDone` the byte reads 0xFE, or it is erased and gets programmed. -/
def Careful (C : Chip) (regions : List Layout) (s : FlashState Env) (v : SessionPacket) : Prop :=
  match v.1 with
  | .erase _ _ => True
  | .write addr data => ∀ f ∈ s.flash, f.covers foldedBlock = true →
      Provides f addr (data.map fun x => (x, some s.world.session)) data.length
  | .done => s.world.env.mem flashSecurityByteAddress = flashSecurityByteUnsecured ∨
      Repairs C (s.world.env.mem flashSecurityByteAddress) regions s.flash
        s.world.env.commands.length

/-- The states of a session. -/
structure Good (C : Chip) (regions : List Layout) (s : FlashState Env) : Prop where
  flash : FlashSafe C regions s.flash
  unsafeEnabled : s.world.env.unsafeEnabled = false

theorem Safe.drop {s s' : Env} (h : Safe C s s') :
    ∀ c ∈ s'.commands.drop s.commands.length, c.Unlocks C := by
  obtain ⟨new, hnew, hunlocks⟩ := h.commands
  rw [hnew, List.drop_left]
  exact hunlocks

theorem step_good {regions : List Layout} (hregions : ∀ L ∈ regions, L.Regular)
    {s : FlashState Env} (h : Good C regions s) {v : SessionPacket}
    (hcareful : Careful C regions s v) :
    FlashSafe C regions (step C s v).flash ∧ Safe C s.world.env (step C s v).world.env ∧
      (v.1 = .done → (handle C s v).1 = "OK" →
        (step C s v).world.env.mem flashSecurityByteAddress = flashSecurityByteUnsecured) := by
  obtain ⟨v, hfits⟩ := v
  unfold step handle
  cases v with
  | erase addr len =>
    have hworld : (probe C).eraseWorld s = s.world := by
      unfold Probe.eraseWorld
      split
      · rfl
      · rfl
    have hsafe := eraseLoop_safe h.flash 0 addr len s.world
    rw [Probe.handle_erase, hworld]
    dsimp only
    split
    · exact ⟨h.flash, hsafe, fun hv => (nomatch hv)⟩
    · exact ⟨h.flash, hsafe, fun hv => (nomatch hv)⟩
  | write addr data =>
    have hfits : data.length ≤ 1024 := hfits addr data rfl
    have hlen : (UInt32.ofNat data.length).toNat = data.length :=
      UInt32.toNat_ofNat_of_lt' (show data.length < 2 ^ 32 by omega)
    obtain ⟨hflash, hsafe⟩ := writeLoop_flashSafe hregions h.flash 0 addr
      (UInt32.ofNat data.length) (data.map fun x => (x, some s.world.session)) h.unsafeEnabled
      (Nat.le_of_eq (by rw [hlen, List.length_map]))
      (fun f hf hcovers => by
        obtain ⟨L, hL, hsafe⟩ := h.flash.exists_of_mem hf
        obtain ⟨-, hhigh⟩ := hsafe.covers_toNat hcovers
        rcases (hregions L hL).1 with hp | ⟨hp, hp'⟩
        · omega
        · omega)
      (by rw [hlen]; exact hcareful)
    rw [Probe.handle_write]
    dsimp only
    split
    · exact ⟨hflash, hsafe, fun hv => (nomatch hv)⟩
    · exact ⟨hflash, hsafe, fun hv => (nomatch hv)⟩
  | done =>
    obtain ⟨hflash, hsafe⟩ := doneFrom_safe hregions h.flash (i := 0) h.unsafeEnabled
    rw [Probe.handle_done]
    refine ⟨hflash, hsafe, fun _ hok => ?_⟩
    refine doneFrom_byte hregions h.flash h.unsafeEnabled hcareful ?_
    by_contra hne
    exact absurd ((if_pos hne).symm.trans hok) (by simp)

theorem start_flashSafe (C : Chip) (regions : List Layout) (env : Env) :
    FlashSafe C regions (start C regions env).flash := by
  induction regions with
  | nil => exact .nil
  | cons L regions ih =>
    exact .cons ⟨rfl, fun _ hb => (nomatch hb), fun hp => absurd rfl hp.1,
      fun _ hb => (nomatch hb)⟩ ih

def done : SessionPacket := ⟨.done, nofun⟩

/-- Four bytes of the block of the security byte. -/
def writeZeros : SessionPacket := ⟨.write 0x400 [0, 0, 0, 0], fun _ _ h => by cases h; decide⟩

/-- The controller refuses the command of `kl_gen_flash_done`, and `vFlashDone` answers `OK`. -/
def refusingChip : Chip := { flexChip with refuses := fun _ => true }

end MiyakoLink.Kinetis
