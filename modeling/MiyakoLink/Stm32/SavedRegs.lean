import MiyakoLink.Lib.Guarded
import MiyakoLink.Stm32.L4

/-!
# The debug registers that an attach changes

`stm32g0_attach` and `stm32l4_attach` keep the clocks running and the watchdogs stopped while the
core is halted, and save what the registers were. `stm32g0` keeps the values in storage from its
probe, `stm32l4` in storage it allocates at every attach. The functions of `cortexm.c` around them
do not touch these registers; allocations do not fail.

* `savedRegs_iff`: which runs of attach, reset and detach give the registers back, and lose no
  storage.
-/

namespace MiyakoLink.Stm32.SavedRegs

open Lib

/-- The registers of the target, the storage of `σ` that is allocated, and `target_storage`. -/
structure Device (σ : Type) where
  regs : UInt32 → UInt32
  heap : Nat → Option σ
  next : Nat
  targetStorage : Option Nat

namespace Device

variable {σ : Type}

/-- `target_mem_write32`. -/
def write (d : Device σ) (a v : UInt32) : Device σ := { d with regs := Function.update d.regs a v }

/-- `MemManager_Alloc`, and `t->target_storage` for the new block. -/
def alloc (d : Device σ) (v : σ) : Device σ :=
  { d with
    heap := Function.update d.heap d.next (some v)
    next := d.next + 1
    targetStorage := some d.next }

/-- `*ps` for `ps = t->target_storage`; `none` if there is no such block. -/
def storage (d : Device σ) : Option σ := d.targetStorage.bind d.heap

/-- `*ps = v`. -/
def store (d : Device σ) (v : σ) : Option (Device σ) :=
  match d.targetStorage with
  | none => none
  | some ps =>
    if (d.heap ps).isSome then some { d with heap := Function.update d.heap ps (some v) } else none

end Device

/-- The functions of a driver. `saved` are the registers whose values `attach` saves, `changed`
those for debugging and clocks that it changes; `restores` are the writes of `detach`. -/
structure Driver (σ : Type) where
  saved : List UInt32
  changed : List UInt32
  attach : Device σ → Option (Device σ)
  restores : Device σ → Option (List (UInt32 × UInt32))

/-! ## The STM32G0 -/

abbrev rccApbenr1 : UInt32 := 0x4002103C

abbrev rccApbenr1Dbgen : UInt32 := (1 : UInt32) <<< 27

abbrev dbgCr : UInt32 := 0x40015804

/-- `DBG_CR_DBG_STANDBY | DBG_CR_DBG_STOP`. -/
abbrev dbgCrStandbyStop : UInt32 := (1 : UInt32) <<< 2 ||| (1 : UInt32) <<< 1

abbrev dbgApbFz1 : UInt32 := 0x40015808

/-- `DBG_APB_FZ1_DBG_IWDG_STOP | DBG_APB_FZ1_DBG_WWDG_STOP`. -/
abbrev dbgApbFz1Watchdogs : UInt32 := (1 : UInt32) <<< 12 ||| (1 : UInt32) <<< 11

/-- `struct stm32g0_saved_regs_s`. -/
structure G0SavedRegs where
  rccApbenr1 : UInt32
  dbgCr : UInt32
  dbgApbFz1 : UInt32
  deriving DecidableEq

/-- `struct stm32g0_priv_s`. -/
structure G0Priv where
  savedRegs : G0SavedRegs
  irreversibleEnabled : Bool
  deriving DecidableEq

/-- `stm32g0_attach` behind `cortexm_attach`. -/
def stm32g0Attach (d : Device G0Priv) : Option (Device G0Priv) := do
  let ps ← d.storage
  let rcc := d.regs rccApbenr1
  let d := d.write rccApbenr1 (rcc ||| rccApbenr1Dbgen)
  let cr := d.regs dbgCr
  let d := d.write dbgCr (cr ||| dbgCrStandbyStop)
  let fz := d.regs dbgApbFz1
  let d := d.write dbgApbFz1 (fz ||| dbgApbFz1Watchdogs)
  d.store { ps with savedRegs := ⟨rcc, cr, fz⟩ }

/-- What `stm32g0_detach` writes. -/
def stm32g0Restores (d : Device G0Priv) : Option (List (UInt32 × UInt32)) := do
  let ps ← d.storage
  some [(dbgApbFz1, ps.savedRegs.dbgApbFz1), (dbgCr, ps.savedRegs.dbgCr),
    (rccApbenr1, ps.savedRegs.rccApbenr1)]

def stm32g0 : Driver G0Priv where
  saved := [rccApbenr1, dbgCr, dbgApbFz1]
  changed := [rccApbenr1, dbgCr, dbgApbFz1]
  attach := stm32g0Attach
  restores := stm32g0Restores

/-- After `stm32g0_probe`; the saved registers are not initialised. -/
def g0Probed (regs : UInt32 → UInt32) (savedRegs : G0SavedRegs) : Device G0Priv :=
  Device.alloc ⟨regs, fun _ => none, 0, none⟩ ⟨savedRegs, false⟩

/-! ## The STM32L4 and its relatives -/

abbrev stm32l4DbgmcuIdcodePhys : UInt32 := 0xE0042000

abbrev stm32l5DbgmcuIdcodePhys : UInt32 := 0xE0044000

def dbgmcuCr (dbgmcureg : UInt32) : UInt32 := dbgmcureg + 4

/-- `DBGMCU_CR_DBG_SLEEP | DBGMCU_CR_DBG_STANDBY | DBGMCU_CR_DBG_STOP`. -/
abbrev dbgmcuCrDbg : UInt32 := (1 : UInt32) <<< 0 ||| (1 : UInt32) <<< 2 ||| (1 : UInt32) <<< 1

abbrev l5RccApb1enr1 : UInt32 := 0x50021058

abbrev l5RccApb1enr1Pwren : UInt32 := (1 : UInt32) <<< 28

abbrev l5PwrCr1 : UInt32 := 0x50007000

abbrev l5PwrCr1Vos : UInt32 := (3 : UInt32) <<< 9

/-- `stm32l5_flash_enable`. -/
def stm32l5FlashEnable (d : Device UInt32) : Device UInt32 :=
  let d := d.write l5RccApb1enr1 l5RccApb1enr1Pwren
  d.write l5PwrCr1 (d.regs l5PwrCr1 &&& ~~~l5PwrCr1Vos)

/-- `idcodereg` of `stm32l4_attach`. -/
def idcodereg : L4Family → UInt32
  | .l55x => stm32l5DbgmcuIdcodePhys
  | _ => stm32l4DbgmcuIdcodePhys

/-- `stm32l4_attach` behind `cortexm_attach`, up to the memory map. `struct stm32l4_priv_s` holds
one register. -/
def stm32l4Attach (family : L4Family) (d : Device UInt32) : Option (Device UInt32) :=
  let d := if family = .l55x then stm32l5FlashEnable d else d
  let d := d.alloc (d.regs (dbgmcuCr (idcodereg family)))
  some (d.write (dbgmcuCr (idcodereg family)) dbgmcuCrDbg)

/-- What `stm32l4_detach` writes. -/
def stm32l4Restores (d : Device UInt32) : Option (List (UInt32 × UInt32)) := do
  let ps ← d.storage
  some [(dbgmcuCr stm32l4DbgmcuIdcodePhys, ps)]

def stm32l4 (family : L4Family) : Driver UInt32 where
  saved := [dbgmcuCr (idcodereg family)]
  changed := dbgmcuCr (idcodereg family) :: if family = .l55x then [l5RccApb1enr1] else []
  attach := stm32l4Attach family
  restores := stm32l4Restores

/-- After `stm32l4_probe`. -/
def l4Probed (regs : UInt32 → UInt32) : Device UInt32 := ⟨regs, fun _ => none, 0, none⟩

/-! ## Runs -/

/-- `current` says that the target is `cur_target`. From the first attach on, `before` is what the
registers were, until a detach. -/
structure Connection (σ : Type) where
  dev : Device σ
  current : Bool
  before : Option (UInt32 → UInt32)

/-- `attach` has the result of `cortexm_attach`, and comes with or without a detach before;
`reset` has what the registers are afterwards. -/
inductive Event where
  | attach (ok : Bool)
  | reset (regs : UInt32 → UInt32)
  | detach

/-- The registers after the writes of a detach. -/
def restored (regs : UInt32 → UInt32) (ws : List (UInt32 × UInt32)) : UInt32 → UInt32 :=
  ws.foldl (fun regs w => Function.update regs w.1 w.2) regs

variable {σ : Type}

/-- A step; `none` is an access to storage that is not allocated. -/
def Driver.step (D : Driver σ) (c : Connection σ) : Event → Option (Connection σ)
  | .attach ok =>
    if ok then (D.attach c.dev).map fun d => ⟨d, true, c.before.or (some c.dev.regs)⟩
    else some { c with current := false }
  | .reset regs => some { c with dev.regs := regs }
  | .detach =>
    if c.current then
      (D.restores c.dev).map fun ws =>
        ⟨{ c.dev with regs := restored c.dev.regs ws }, false, none⟩
    else some c

/-- A detach is possible and writes only to registers that were saved, and the registers that were
changed are as before the connection after it. -/
def Driver.GivesBack (D : Driver σ) (c : Connection σ) : Prop :=
  ∃ ws, D.restores c.dev = some ws ∧ (∀ w ∈ ws, w.1 ∈ D.saved) ∧
    ∀ regs ∈ c.before, ∀ a ∈ D.changed, restored c.dev.regs ws a = regs a

/-- No storage is lost, and a detach gives the registers back. -/
def Driver.Sound (D : Driver σ) (c : Connection σ) : Prop :=
  (∀ b, (c.dev.heap b).isSome → c.dev.targetStorage = some b) ∧
    (c.current = true → D.GivesBack c)

/-! ## Storage -/

/-- Block `b` is the storage of the target, it holds `v`, and nothing else is allocated. -/
structure Device.Holds (d : Device σ) (b : Nat) (v : σ) : Prop where
  pointer : d.targetStorage = some b
  heap : d.heap = Function.update (fun _ => none) b (some v)

namespace Device.Holds

variable {d : Device σ} {b : Nat} {v : σ}

theorem heap_self (h : d.Holds b v) : d.heap b = some v := by
  rw [h.heap, Function.update_self]

theorem storage (h : d.Holds b v) : d.storage = some v := by
  unfold Device.storage
  rw [h.pointer]
  exact h.heap_self

theorem unshared (h : d.Holds b v) (c : Nat) (hc : (d.heap c).isSome) :
    d.targetStorage = some c := by
  by_cases hne : c = b
  · rw [hne, h.pointer]
  · rw [h.heap, Function.update_of_ne hne] at hc
    cases hc

theorem store (h : d.Holds b v) (w : σ) :
    ∃ d', d.store w = some d' ∧ d'.Holds b w := by
  refine ⟨{ d with heap := Function.update d.heap b (some w) }, ?_, h.pointer, ?_⟩
  · unfold Device.store
    rw [h.pointer]
    dsimp only
    rw [h.heap_self]
    rfl
  · show Function.update d.heap b (some w) = _
    rw [h.heap, Function.update_idem]

theorem write (h : d.Holds b v) (a w : UInt32) : (d.write a w).Holds b v := ⟨h.pointer, h.heap⟩

end Device.Holds

theorem Device.alloc_holds {d : Device σ} (h : d.heap = fun _ => none) (v : σ) :
    (d.alloc v).Holds d.next v := by
  refine ⟨rfl, ?_⟩
  show Function.update d.heap d.next (some v) = _
  rw [h]

theorem Device.write_of_ne {d : Device σ} {a x : UInt32} (h : x ≠ a) (w : UInt32) :
    (d.write a w).regs x = d.regs x := by
  unfold Device.write
  exact Function.update_of_ne h _ _

/-! ## The STM32G0 in runs -/

/-- An attach finds the registers as they were before the connection. -/
def G0Guard (c : Connection G0Priv) : Event → Prop
  | .attach true => ∀ regs ∈ c.before, ∀ a ∈ stm32g0.saved, c.dev.regs a = regs a
  | _ => True

def G0SavedRegs.of (regs : UInt32 → UInt32) : G0SavedRegs :=
  ⟨regs Stm32.SavedRegs.rccApbenr1, regs Stm32.SavedRegs.dbgCr, regs Stm32.SavedRegs.dbgApbFz1⟩

/-- During a connection the storage has the registers from before. -/
def G0Inv (c : Connection G0Priv) : Prop :=
  ∃ b v, c.dev.Holds b v ∧
    (c.current = true → ∃ regs, c.before = some regs ∧ v.savedRegs = .of regs)

theorem stm32g0Attach_eq {d : Device G0Priv} {b : Nat} {v : G0Priv} (h : d.Holds b v) :
    ∃ d', stm32g0Attach d = some d' ∧ d'.Holds b { v with savedRegs := .of d.regs } := by
  have hcr : (d.write rccApbenr1 (d.regs rccApbenr1 ||| rccApbenr1Dbgen)).regs dbgCr =
      d.regs dbgCr := Device.write_of_ne (by decide) _
  have hfz (x y : UInt32) : ((d.write rccApbenr1 x).write dbgCr y).regs dbgApbFz1 =
      d.regs dbgApbFz1 := by
    rw [Device.write_of_ne (by decide), Device.write_of_ne (by decide)]
  unfold stm32g0Attach
  rw [h.storage, Option.bind_eq_bind, Option.bind_some]
  dsimp only
  rw [hcr, hfz]
  exact (((h.write _ _).write _ _).write _ _).store _

theorem stm32g0Restores_eq {d : Device G0Priv} {b : Nat} {v : G0Priv} (h : d.Holds b v) :
    stm32g0Restores d = some [(dbgApbFz1, v.savedRegs.dbgApbFz1), (dbgCr, v.savedRegs.dbgCr),
      (rccApbenr1, v.savedRegs.rccApbenr1)] := by
  unfold stm32g0Restores
  rw [h.storage]
  rfl

/-- What a detach leaves in the registers. -/
theorem g0_restored (regs saved : UInt32 → UInt32) : ∀ a ∈ stm32g0.changed,
    restored regs [(dbgApbFz1, saved dbgApbFz1), (dbgCr, saved dbgCr),
      (rccApbenr1, saved rccApbenr1)] a = saved a := by
  intro a ha
  have ha : a ∈ [rccApbenr1, dbgCr, dbgApbFz1] := ha
  unfold restored
  simp only [List.foldl_cons, List.foldl_nil]
  rcases List.mem_cons.mp ha with rfl | ha
  · exact Function.update_self ..
  rcases List.mem_cons.mp ha with rfl | ha
  · rw [Function.update_of_ne (by decide)]
    exact Function.update_self ..
  · obtain rfl := List.mem_singleton.mp ha
    rw [Function.update_of_ne (by decide), Function.update_of_ne (by decide)]
    exact Function.update_self ..

/-- A detach gives back what was saved. -/
theorem g0_givesBack_iff {c : Connection G0Priv} {b : Nat} {v : G0Priv}
    {saved : UInt32 → UInt32} (h : c.dev.Holds b v) (hv : v.savedRegs = .of saved) :
    stm32g0.GivesBack c ↔ ∀ regs ∈ c.before, ∀ a ∈ stm32g0.changed, saved a = regs a := by
  have hws := stm32g0Restores_eq h
  rw [hv] at hws
  constructor
  · rintro ⟨ws, hrestores, _, hback⟩ regs hregs a ha
    obtain rfl := Option.some.inj (hws.symm.trans hrestores)
    rw [← g0_restored c.dev.regs saved a ha]
    exact hback regs hregs a ha
  · intro hback
    refine ⟨_, hws, ?_, ?_⟩
    · intro w hw
      have haddr : w.1 ∈ [dbgApbFz1, dbgCr, rccApbenr1] := List.mem_map_of_mem hw
      have hperm : ∀ a ∈ [dbgApbFz1, dbgCr, rccApbenr1], a ∈ [rccApbenr1, dbgCr, dbgApbFz1] := by
        intro a ha
        simp only [List.mem_cons, List.not_mem_nil, or_false] at ha ⊢
        exact or_left_comm.mp (or_rotate.mp ha)
      exact hperm _ haddr
    · intro regs hregs a ha
      rw [← hback regs hregs a ha]
      exact g0_restored c.dev.regs saved a ha

theorem G0Inv.sound {c : Connection G0Priv} (h : G0Inv c) : stm32g0.Sound c := by
  obtain ⟨b, v, hholds, hcurrent⟩ := h
  refine ⟨hholds.unshared, fun hc => ?_⟩
  obtain ⟨regs, hbefore, hv⟩ := hcurrent hc
  rw [g0_givesBack_iff hholds hv, hbefore]
  rintro _ ⟨⟩ a _
  rfl

theorem G0Inv.step {c : Connection G0Priv} {e : Event} (h : G0Inv c) (hguard : G0Guard c e) :
    ∃ c', stm32g0.step c e = some c' ∧ G0Inv c' := by
  obtain ⟨b, v, hholds, hcurrent⟩ := h
  cases e with
  | reset regs => exact ⟨_, rfl, b, v, ⟨hholds.pointer, hholds.heap⟩, hcurrent⟩
  | attach ok =>
    cases ok with
    | false => exact ⟨_, rfl, b, v, hholds, nofun⟩
    | true =>
      obtain ⟨d', hd', hholds'⟩ := stm32g0Attach_eq hholds
      have hstep : stm32g0.step c (.attach true) =
          (stm32g0Attach c.dev).map fun d => ⟨d, true, c.before.or (some c.dev.regs)⟩ := rfl
      rw [hstep, hd']
      refine ⟨_, rfl, b, _, hholds', fun _ => ?_⟩
      cases hbefore : c.before with
      | none => exact ⟨c.dev.regs, rfl, rfl⟩
      | some regs =>
        have hsame := hguard regs hbefore
        refine ⟨regs, rfl, ?_⟩
        show G0SavedRegs.of c.dev.regs = .of regs
        unfold G0SavedRegs.of
        rw [hsame _ (List.mem_cons_self), hsame dbgCr (by decide), hsame dbgApbFz1 (by decide)]
  | detach =>
    cases hc : c.current with
    | false =>
      refine ⟨c, ?_, b, v, hholds, hcurrent⟩
      unfold Driver.step
      rw [hc]
      rfl
    | true =>
      have hstep : stm32g0.step c .detach = (stm32g0Restores c.dev).map fun ws =>
          ⟨{ c.dev with regs := restored c.dev.regs ws }, false, none⟩ := by
        unfold Driver.step
        rw [hc]
        rfl
      rw [hstep, stm32g0Restores_eq hholds]
      exact ⟨_, rfl, b, v, ⟨hholds.pointer, hholds.heap⟩, nofun⟩

/-- A second attach that finds other registers saves those. -/
theorem G0Inv.not_sound {c : Connection G0Priv} {e : Event} (h : G0Inv c)
    (hguard : ¬ G0Guard c e) : ∀ c', stm32g0.step c e = some c' → ¬ stm32g0.Sound c' := by
  obtain ⟨b, v, hholds, _⟩ := h
  cases e with
  | reset regs => exact absurd trivial hguard
  | detach => exact absurd trivial hguard
  | attach ok =>
    cases ok with
    | false => exact absurd trivial hguard
    | true =>
      rintro c' hc' ⟨_, hback⟩
      obtain ⟨d', hd', hholds'⟩ := stm32g0Attach_eq hholds
      have hstep : stm32g0.step c (.attach true) =
          (stm32g0Attach c.dev).map fun d => ⟨d, true, c.before.or (some c.dev.regs)⟩ := rfl
      rw [hstep, hd'] at hc'
      obtain rfl := Option.some.inj hc'
      apply hguard
      intro regs hregs a ha
      have hbefore : c.before.or (some c.dev.regs) = some regs := by
        rw [show c.before = some regs from hregs]
        rfl
      exact (@g0_givesBack_iff _ _ _ c.dev.regs hholds' rfl).mp (hback rfl) regs hbefore a ha

/-! ## The STM32L4 in runs -/

/-- There is one attach, and not to an STM32L5. -/
def L4Guard (family : L4Family) (c : Connection UInt32) : Event → Prop
  | .attach true => c.dev.targetStorage = none ∧ family ≠ .l55x
  | _ => True

/-- Before the first attach nothing is allocated. After it the storage has the register from before
the connection. -/
def L4Inv (family : L4Family) (c : Connection UInt32) : Prop :=
  (c.dev.targetStorage = none ∧ c.dev.heap = (fun _ => none) ∧ c.current = false ∧
      c.before = none) ∨
    ∃ b v, c.dev.Holds b v ∧ b < c.dev.next ∧ family ≠ .l55x ∧
      (c.current = true → ∃ regs, c.before = some regs ∧
        v = regs (dbgmcuCr stm32l4DbgmcuIdcodePhys))

theorem idcodereg_eq {family : L4Family} (h : family ≠ .l55x) :
    idcodereg family = stm32l4DbgmcuIdcodePhys := by
  cases family <;> first | rfl | contradiction

theorem stm32l4Attach_holds (family : L4Family) {d : Device UInt32}
    (h : d.heap = fun _ => none) :
    ∃ d' v, stm32l4Attach family d = some d' ∧ d'.Holds d.next v ∧ d.next < d'.next ∧
      (family ≠ .l55x → v = d.regs (dbgmcuCr stm32l4DbgmcuIdcodePhys)) := by
  unfold stm32l4Attach
  by_cases hfamily : family = .l55x
  · rw [if_pos hfamily]
    exact ⟨_, _, rfl, (Device.alloc_holds (d := stm32l5FlashEnable d) h _).write _ _,
      Nat.lt_succ_self _, fun hne => absurd hfamily hne⟩
  · rw [if_neg hfamily, idcodereg_eq hfamily]
    exact ⟨_, _, rfl, (Device.alloc_holds h _).write _ _, Nat.lt_succ_self _, fun _ => rfl⟩

theorem stm32l4Restores_eq {d : Device UInt32} {b : Nat} {v : UInt32} (h : d.Holds b v) :
    stm32l4Restores d = some [(dbgmcuCr stm32l4DbgmcuIdcodePhys, v)] := by
  unfold stm32l4Restores
  rw [h.storage]
  rfl

theorem L4Inv.sound {family : L4Family} {c : Connection UInt32} (h : L4Inv family c) :
    (stm32l4 family).Sound c := by
  rcases h with ⟨_, hheap, hidle, _⟩ | ⟨b, v, hholds, _, hfamily, hcurrent⟩
  · refine ⟨fun b hb => ?_, fun hc => ?_⟩
    · rw [hheap] at hb
      cases hb
    · rw [hidle] at hc
      cases hc
  · refine ⟨hholds.unshared, fun hc => ?_⟩
    obtain ⟨regs, hbefore, hv⟩ := hcurrent hc
    have hsaved : (stm32l4 family).saved = [dbgmcuCr stm32l4DbgmcuIdcodePhys] :=
      congrArg (fun r => [dbgmcuCr r]) (idcodereg_eq hfamily)
    have hchanged : (stm32l4 family).changed = [dbgmcuCr stm32l4DbgmcuIdcodePhys] := by
      unfold stm32l4
      rw [idcodereg_eq hfamily, if_neg hfamily]
    refine ⟨_, stm32l4Restores_eq hholds, ?_, ?_⟩
    · intro w hw
      rw [hsaved, List.mem_singleton.mp hw]
      exact List.mem_singleton_self _
    · rw [hbefore, hchanged]
      rintro _ ⟨⟩ a ha
      rw [List.mem_singleton.mp ha, hv]
      exact Function.update_self (dbgmcuCr stm32l4DbgmcuIdcodePhys) _ c.dev.regs

theorem L4Inv.step {family : L4Family} {c : Connection UInt32} {e : Event} (h : L4Inv family c)
    (hguard : L4Guard family c e) :
    ∃ c', (stm32l4 family).step c e = some c' ∧ L4Inv family c' := by
  cases e with
  | reset regs =>
    refine ⟨_, rfl, ?_⟩
    rcases h with hfresh | ⟨b, v, hholds, hrest⟩
    · exact .inl hfresh
    · exact .inr ⟨b, v, ⟨hholds.pointer, hholds.heap⟩, hrest⟩
  | attach ok =>
    cases ok with
    | false =>
      refine ⟨_, rfl, ?_⟩
      rcases h with ⟨hnone, hheap, _, hbefore⟩ | ⟨b, v, hholds, hlt, hfamily, _⟩
      · exact .inl ⟨hnone, hheap, rfl, hbefore⟩
      · exact .inr ⟨b, v, hholds, hlt, hfamily, nofun⟩
    | true =>
      obtain ⟨hnone, hfamily⟩ := hguard
      rcases h with ⟨_, hheap, _, hbefore⟩ | ⟨b, v, hholds, _⟩
      · obtain ⟨d', v, hd', hholds, hlt, hv⟩ := stm32l4Attach_holds family hheap
        have hstep : (stm32l4 family).step c (.attach true) =
            (stm32l4Attach family c.dev).map fun d =>
              ⟨d, true, c.before.or (some c.dev.regs)⟩ := rfl
        rw [hstep, hd', hbefore]
        exact ⟨_, rfl, .inr ⟨_, v, hholds, hlt, hfamily, fun _ => ⟨c.dev.regs, rfl, hv hfamily⟩⟩⟩
      · rw [hholds.pointer] at hnone
        cases hnone
  | detach =>
    cases hc : c.current with
    | false =>
      refine ⟨c, ?_, h⟩
      unfold Driver.step
      rw [hc]
      rfl
    | true =>
      rcases h with ⟨_, _, hidle, _⟩ | ⟨b, v, hholds, hlt, hfamily, _⟩
      · rw [hidle] at hc
        cases hc
      · have hstep : (stm32l4 family).step c .detach = (stm32l4Restores c.dev).map fun ws =>
            ⟨{ c.dev with regs := restored c.dev.regs ws }, false, none⟩ := by
          unfold Driver.step
          rw [hc]
          rfl
        rw [hstep, stm32l4Restores_eq hholds]
        exact ⟨_, rfl, .inr ⟨b, v, ⟨hholds.pointer, hholds.heap⟩, hlt, hfamily, nofun⟩⟩

/-- A second attach loses the storage of the first one, and a detach of an STM32L5 writes to
another register than the one that was saved. -/
theorem L4Inv.not_sound {family : L4Family} {c : Connection UInt32} {e : Event}
    (h : L4Inv family c) (hguard : ¬ L4Guard family c e) :
    ∀ c', (stm32l4 family).step c e = some c' → ¬ (stm32l4 family).Sound c' := by
  cases e with
  | reset regs => exact absurd trivial hguard
  | detach => exact absurd trivial hguard
  | attach ok =>
    cases ok with
    | false => exact absurd trivial hguard
    | true =>
      rintro c' hc' ⟨hunshared, hback⟩
      have hstep : (stm32l4 family).step c (.attach true) =
          (stm32l4Attach family c.dev).map fun d =>
            ⟨d, true, c.before.or (some c.dev.regs)⟩ := rfl
      rw [hstep] at hc'
      rcases h with ⟨hnone, hheap, _, _⟩ | ⟨b, v, hholds, hlt, hfamily, _⟩
      · have hfamily : family = .l55x := by
          by_contra hne
          exact hguard ⟨hnone, hne⟩
        obtain ⟨d', v, hd', hholds, _⟩ := stm32l4Attach_holds family hheap
        rw [hd'] at hc'
        obtain rfl := Option.some.inj hc'
        obtain ⟨ws, hws, hsaved, _⟩ := hback rfl
        obtain rfl := Option.some.inj ((stm32l4Restores_eq hholds).symm.trans hws)
        have hmem := hsaved _ (List.mem_singleton_self _)
        rw [hfamily] at hmem
        have hother : dbgmcuCr stm32l4DbgmcuIdcodePhys ∉ [dbgmcuCr stm32l5DbgmcuIdcodePhys] := by
          decide
        exact hother hmem
      · unfold stm32l4Attach at hc'
        rw [if_neg hfamily] at hc'
        obtain rfl := Option.some.inj hc'
        have hkept : (Function.update c.dev.heap c.dev.next
            (some (c.dev.regs (dbgmcuCr (idcodereg family)))) b).isSome := by
          rw [Function.update_of_ne (Nat.ne_of_lt hlt), hholds.heap_self]
          rfl
        have hsame := Option.some.inj (hunshared b hkept)
        exact Nat.ne_of_gt hlt hsame

/-! ## All runs -/

theorem g0Probed_inv (regs : UInt32 → UInt32) (garbage : G0SavedRegs) :
    G0Inv ⟨g0Probed regs garbage, false, none⟩ :=
  ⟨0, ⟨garbage, false⟩, Device.alloc_holds rfl _, fun hc => absurd hc Bool.false_ne_true⟩

theorem g0_runs_iff (regs : UInt32 → UInt32) (garbage : G0SavedRegs) (events : List Event) :
    Runs stm32g0.step stm32g0.Sound ⟨g0Probed regs garbage, false, none⟩ events ↔
      KeepsTo stm32g0.step G0Guard ⟨g0Probed regs garbage, false, none⟩ events :=
  runs_iff_keepsTo (fun _ => G0Inv.sound) (fun _ _ => G0Inv.step) (fun _ _ => G0Inv.not_sound)
    (g0Probed_inv regs garbage) events

theorem l4_runs_iff (family : L4Family) (regs : UInt32 → UInt32) (events : List Event) :
    Runs (stm32l4 family).step (stm32l4 family).Sound ⟨l4Probed regs, false, none⟩ events ↔
      KeepsTo (stm32l4 family).step (L4Guard family) ⟨l4Probed regs, false, none⟩ events :=
  runs_iff_keepsTo (fun _ => L4Inv.sound) (fun _ _ => L4Inv.step) (fun _ _ => L4Inv.not_sound)
    (.inl ⟨rfl, rfl, rfl, rfl⟩) events

/-- The runs whose states are all sound: on an STM32G0 each attach finds the registers as they were
before the connection, on the others there is at most one attach, on an STM32L5 none. -/
theorem savedRegs_iff (regs : UInt32 → UInt32) (garbage : G0SavedRegs) (family : L4Family)
    (events : List Event) :
    (Runs stm32g0.step stm32g0.Sound ⟨g0Probed regs garbage, false, none⟩ events ↔
      KeepsTo stm32g0.step G0Guard ⟨g0Probed regs garbage, false, none⟩ events) ∧
    (Runs (stm32l4 family).step (stm32l4 family).Sound ⟨l4Probed regs, false, none⟩ events ↔
      KeepsTo (stm32l4 family).step (L4Guard family) ⟨l4Probed regs, false, none⟩ events) :=
  ⟨g0_runs_iff regs garbage events, l4_runs_iff family regs events⟩

/-- Two attaches in a row on an STM32G0 whose registers are zero. -/
theorem reattach_not_sound :
    ¬ ∀ regs garbage events,
      Runs stm32g0.step stm32g0.Sound ⟨g0Probed regs garbage, false, none⟩ events := by
  intro h
  have hrun := h (fun _ => 0) ⟨0, 0, 0⟩ [.attach true, .attach true]
  obtain ⟨_, hkeeps⟩ := (g0_runs_iff _ _ _).mp hrun
  have hzero := (hkeeps _ rfl).1 (fun _ => 0) rfl rccApbenr1 List.mem_cons_self
  revert hzero
  decide

end MiyakoLink.Stm32.SavedRegs
