import MiyakoLink.Scan.Ownership

/-!
# What a scan leaves in the pool

`NoLeak` says that the targets on the list account for every debug port and access port, `Freed`
that `target_list_free` gives back every block. `scans_iff`: both hold after any scans exactly if
none of the answers that were used is one of those that are not `harmless`.

A scan leaks when an exception leaves `adiv5_dp_init`, when there is no block for the private data
of a Cortex-M or for the rescue port of an RP2040, with every Cortex-A, whose private data go to
`free`, and with the name of an EFM32 access port.
-/

namespace MiyakoLink.Scan

open Lib

/-- The answers after which nothing is lost. -/
def harmless : Answer → Bool
  | .access (some _) => false
  | .ctrlstat (some .error) => false
  | .block .priv given => given
  | .block .rescueAp given => given
  | .block .rescueTarget given => given
  | .block .cortexaTarget given => !given
  | .block .aapStorage given => !given
  | _ => true

/-- The access port that the private data of a target hold. -/
def Priv.port : Priv → Ptr
  | .cortexm _ a => a
  | .cortexa _ a => a
  | .ap a => a

def Target.port (u : Target) : Option Ptr := u.priv.map Priv.port

/-- The debug port of an access port. -/
def dpOf : Option Block → Option Ptr
  | some (.ap _ d) => some d
  | _ => none

/-- The access ports that are in the pool and on a debug port. -/
def World.portsOn (w : World) (d : Ptr) : Finset Ptr :=
  (Finset.range w.next).filter fun a => dpOf (w.blocks a) = some d

/-- The debug ports and access ports are reachable from the list and counted right. -/
structure NoLeak (w : World) : Prop where
  ap : ∀ a n d, w.blocks a = some (.ap n d) →
    n = w.targets.countP (fun u => u.port = some a) ∧ ∃ u ∈ w.targets, u.port = some a
  dp : ∀ d n, w.blocks d = some (.dp n) →
    n = (w.portsOn d).card ∧ ∃ u ∈ w.targets, ∃ a ∈ w.portsOn d, u.port = some a

/-- `target_list_free` gives every block back, none of them twice. -/
def Freed (w : World) : Prop :=
  ∃ w', targetListFree w = .ok () w' ∧ ∀ p, w'.blocks p = none

def start (script : List Answer) : World where
  blocks _ := none
  next := 0
  targets := []
  script := script
  answered := []

/-! ## What the targets hold -/

def plains (ps : List Ptr) : Holding := (ps.map (one .plain)).sum

def Priv.holding : Priv → Holding
  | .cortexm block a => one .ap a + one .plain block
  | .cortexa block a => one .ap a + one .plain block
  | .ap a => one .ap a

def privHolding : Option Priv → Holding
  | some priv => priv.holding
  | none => 0

def flashBlocks (flash : List (Ptr × Option Ptr)) : List Ptr :=
  flash.flatMap fun f => f.2.toList ++ [f.1]

def Target.holding (u : Target) : Holding :=
  privHolding u.priv + (plains u.commands + (plains u.storage.toList + (plains u.ram +
    (plains (flashBlocks u.flash) + (plains u.bwList + one .plain u.block)))))

def holdings (ts : List Target) : Holding := (ts.map Target.holding).sum

def IsCortexa (u : Target) : Prop := ∃ block ap, u.priv = some (.cortexa block ap)

/-- Something is lost, or will be when the list is freed. -/
def Spoiled (K : Holding) (ts : List Target) : Prop := K ≠ 0 ∨ ∃ u ∈ ts, IsCortexa u

/-- An answer was not harmless. -/
def Lost (w : World) : Prop := ∃ a ∈ w.answered, harmless a = false

/-- The program holds `L` and the targets `ts` what hangs on them; the rest of the pool is lost.
If it is `settled`, something is lost exactly if an answer was not harmless; otherwise there was
such an answer and the loss may be to come. The list in the state is `all`. -/
structure Inv (settled : Bool) (L : Holding) (ts all : List Target) (w : World) : Prop where
  targets : w.targets = all
  owned : ∃ K, Owned (L + (K + holdings ts)) w ∧
    if settled then (Spoiled K ts ↔ Lost w) else Lost w

theorem add_ne_zero {X : Holding} (h : X ≠ 0) (Y : Holding) : X + Y ≠ 0 := by
  intro hzero
  apply h
  funext k
  have hk : X k + Y k = 0 := congrFun hzero k
  exact Multiset.le_zero.mp (hk ▸ Multiset.le_add_right (X k) (Y k))

variable {m : Bool} {L L' : Holding} {ts ts' all : List Target} {w w' : World}

namespace Inv

variable {a : Answer}

theorem kept (h : Inv (m && harmless a) L ts all w) (ha : harmless a = true) :
    Inv m L ts all w := by
  rwa [ha, Bool.and_true] at h

theorem harmed (h : Inv (m && harmless a) L ts all w) (ha : harmless a = false) :
    Inv false L ts all w := by
  rwa [ha, Bool.and_false] at h

theorem step (h : Inv m L ts all w) (howned : ∀ X, Owned (L + X) w → Owned (L' + X) w')
    (htargets : w'.targets = w.targets) (hanswered : w'.answered = w.answered) :
    Inv m L' ts all w' := by
  obtain ⟨K, hK, hm⟩ := h.owned
  have hlost : Lost w' ↔ Lost w := by rw [Lost, Lost, hanswered]
  refine ⟨htargets.trans h.targets, K, howned _ hK, ?_⟩
  rw [hlost]
  exact hm

/-- Blocks pass between the program and the targets. -/
theorem regroup {M : Holding} {s : List Target} (h : Inv m L ts all w)
    (hsum : L + holdings ts = M + holdings s)
    (hcortexa : m = true → ((∃ u ∈ ts, IsCortexa u) ↔ ∃ u ∈ s, IsCortexa u)) :
    Inv m M s all w := by
  obtain ⟨K, hK, hm⟩ := h.owned
  refine ⟨h.targets, K, ?_, ?_⟩
  · rw [add_left_comm, ← hsum, add_left_comm]
    exact hK
  · cases m with
    | false => exact hm
    | true =>
      rw [if_pos rfl, Spoiled, ← hcortexa rfl]
      exact hm

/-- After an answer that is not harmless what the program holds may be lost. -/
theorem drop (h : Inv false (L' + L) ts all w) : Inv false L ts all w := by
  obtain ⟨K, hK, hm⟩ := h.owned
  refine ⟨h.targets, L' + K, ?_, hm⟩
  rw [add_assoc, add_left_comm, ← add_assoc]
  exact hK

theorem abandon (h : Inv false (L' + L) ts all w) (hne : L' ≠ 0) : Inv true L ts all w := by
  obtain ⟨K, hK, hm⟩ := h.owned
  refine ⟨h.targets, L' + K, ?_, ?_⟩
  · rw [add_assoc, add_left_comm, ← add_assoc]
    exact hK
  · exact iff_of_true (Or.inl (add_ne_zero hne K)) hm

/-- With a Cortex-A on the list there was an answer that is not harmless. -/
theorem unsettle (h : Inv true L ts all w) (hcortexa : ∃ u ∈ ts, IsCortexa u) :
    Inv false L ts all w := by
  obtain ⟨K, hK, hm⟩ := h.owned
  exact ⟨h.targets, K, hK, hm.mp (Or.inr hcortexa)⟩

theorem settle (h : Inv false L ts all w) (hcortexa : ∃ u ∈ ts, IsCortexa u) :
    Inv true L ts all w := by
  obtain ⟨K, hK, hm⟩ := h.owned
  exact ⟨h.targets, K, hK, iff_of_true (Or.inr hcortexa) hm⟩

end Inv

/-! ## Answers and blocks -/

/-- A program may be left by an exception, with `R` in the state, by the use of a null pointer or
for want of an answer, but not by a wrong use of the pool. -/
def Exits (R : World → Prop) : Abort → World → Prop
  | .exception _, w => R w
  | .useAfterFree, _ => False
  | .doubleFree, _ => False
  | .nullDeref, _ => True
  | .stuck, _ => True

theorem Exits.mono {R R' : World → Prop} (h : ∀ w, R w → R' w) (e : Abort) (w : World)
    (hexits : Exits R e w) : Exits R' e w := by
  cases e with
  | exception e => exact h w hexits
  | _ => exact hexits

/-- What is left when a program that held `L` is unwound. -/
def Owe (L : Holding) (w : World) : Prop := ∃ ts, Inv false L ts ts w

theorem ask_spec {R : World → Prop} :
    Triple (Inv m L ts all) ask (fun a => Inv (m && harmless a) L ts all) (Exits R) := by
  intro w hw
  cases hs : w.script with
  | nil =>
    rw [ask_nil hs]
    trivial
  | cons a rest =>
    rw [ask_cons hs]
    obtain ⟨K, hK, hm⟩ := hw.owned
    have hlost : Lost { w with script := rest, answered := w.answered ++ [a] } ↔
        Lost w ∨ harmless a = false := by
      simp [Lost, or_and_right, exists_or]
    refine ⟨hw.targets, K, ⟨hK.aps, hK.dps, hK.plain, hK.fresh⟩, ?_⟩
    rw [hlost]
    cases m with
    | false => exact Or.inl hm
    | true =>
      cases ha : harmless a with
      | false => exact Or.inr rfl
      | true => simpa using hm

theorem ask_keeps {R : World → Prop} {p : Ptr} {o : Option Block} :
    Triple (fun w => w.blocks p = o) ask (fun _ w => w.blocks p = o) (Exits R) := by
  intro w hw
  cases hs : w.script with
  | nil =>
    rw [ask_nil hs]
    trivial
  | cons a rest =>
    rw [ask_cons hs]
    exact hw

theorem mem_holdings {u : Target} {k : Kind} {p : Ptr} (hu : u ∈ ts) (hp : p ∈ u.holding k) :
    p ∈ holdings ts k := by
  induction ts with
  | nil => exact absurd hu List.not_mem_nil
  | cons v ts ih =>
    show p ∈ v.holding k + holdings ts k
    rcases List.mem_cons.mp hu with rfl | hu
    · exact Multiset.mem_add.mpr (Or.inl hp)
    · exact Multiset.mem_add.mpr (Or.inr (ih hu))

/-- The blocks of targets are in the pool. -/
theorem Inv.target_block (h : Inv m L ts all w) {u : Target} (hu : u ∈ ts) :
    w.blocks u.block = some .plain := by
  obtain ⟨K, hK, -⟩ := h.owned
  apply hK.plain_block
  have hblock : u.block ∈ u.holding .plain := by
    simp [Target.holding]
  show u.block ∈ L .plain + (K .plain + holdings ts .plain)
  simp [mem_holdings hu hblock]

/-- A block is given, or not. -/
theorem alloc_spec {R : World → Prop} {u : Use} {b : Block} (hb : b.Unused) :
    Triple (Inv m L ts all) (alloc u b) (fun r w =>
      match r with
      | none => Inv (m && harmless (.block u false)) L ts all w
      | some p => Inv (m && harmless (.block u true)) (one b.kind p + L) ts all w ∧
          w.blocks p = some b ∧ ∀ v ∈ ts, v.block ≠ p) (Exits R) := by
  refine Triple.bind ask_spec fun a => ?_
  cases a with
  | block u' given =>
    refine Triple.ite (fun hu => ?_) fun _ => Triple.throw fun _ _ => trivial
    subst hu
    cases given with
    | false => exact Triple.pure fun _ h => h
    | true =>
      intro w hw
      refine ⟨?_, ?_, ?_⟩
      · refine hw.step (fun X hX => ?_) rfl rfl
        rw [add_assoc]
        exact hX.alloc hb
      · exact Function.update_self _ _ _
      · intro v hv heq
        obtain ⟨K, hK, -⟩ := hw.owned
        have hlive := hw.target_block hv
        rw [heq, hK.fresh _ (Nat.le_refl _)] at hlive
        exact nomatch hlive
  | _ => exact Triple.throw fun _ _ => trivial

/-- The other blocks stay. -/
theorem alloc_keeps {R : World → Prop} {u : Use} {b b' : Block} {a : Ptr} :
    Triple (fun w => Inv m L ts all w ∧ w.blocks a = some b') (alloc u b)
      (fun _ w => w.blocks a = some b') (Exits R) := by
  refine Triple.bind (Q := fun a' w => Inv (m && harmless a') L ts all w ∧ w.blocks a = some b')
    ((ask_spec.and (ask_keeps (R := R))).conseq (fun _ h => h) (fun _ _ h => h) fun _ _ h => h.1)
    fun a' => ?_
  cases a' with
  | block u' given =>
    refine Triple.ite (fun hu => ?_) fun _ => Triple.throw fun _ _ => trivial
    cases given with
    | false => exact Triple.pure fun _ h => h.2
    | true =>
      rintro w ⟨hw, hblock⟩
      obtain ⟨K, hK, -⟩ := hw.owned
      show Function.update w.blocks w.next (some b) a = some b'
      rw [Function.update_of_ne (Nat.ne_of_lt (hK.lt_next hblock)), hblock]
  | _ => exact Triple.throw fun _ _ => trivial

/-- A program that takes one answer, which may be an exception. -/
theorem access_spec : Triple (Inv m L ts ts) access (fun _ => Inv m L ts ts) (Exits (Owe L)) := by
  refine Triple.bind ask_spec fun a => ?_
  cases a with
  | access e =>
    cases e with
    | none => exact Triple.pure fun _ h => h.kept rfl
    | some e => exact Triple.throw fun _ h => ⟨ts, h.harmed rfl⟩
  | _ => exact Triple.throw fun _ _ => trivial


/-- Before there is a debug port an exception loses nothing. -/
theorem line_spec : Triple (Inv m L ts all) line (fun _ => Inv m L ts all)
    (Exits (Inv m L ts all)) := by
  refine Triple.bind ask_spec fun a => ?_
  cases a with
  | line e =>
    cases e with
    | none => exact Triple.pure fun _ h => h.kept rfl
    | some e => exact Triple.throw fun _ h => h.kept rfl
  | _ => exact Triple.throw fun _ _ => trivial

theorem acknowledged_spec {R : World → Prop} :
    Triple (Inv m L ts all) acknowledged (fun _ => Inv m L ts all) (Exits R) := by
  refine Triple.bind ask_spec fun a => ?_
  cases a with
  | acknowledged b => exact Triple.pure fun _ h => h.kept rfl
  | _ => exact Triple.throw fun _ _ => trivial

theorem expired_spec {R : World → Prop} :
    Triple (Inv m L ts all) expired (fun _ => Inv m L ts all) (Exits R) := by
  refine Triple.bind ask_spec fun a => ?_
  cases a with
  | expired b => exact Triple.pure fun _ h => h.kept rfl
  | _ => exact Triple.throw fun _ _ => trivial

/-- Behind the first read of `CTRLSTAT`, which may time out. -/
def ctrlstatExits (m : Bool) (L : Holding) (ts : List Target) : Abort → World → Prop
  | .exception .timeout, w => Inv m L ts ts w
  | .exception .error, w => Owe L w
  | e, w => Exits (fun _ => False) e w

/-- The first read of `CTRLSTAT` may time out, and is then tried again. -/
theorem ctrlstat_spec : Triple (Inv m L ts ts)
    (catching (· = .timeout) ctrlstat fun _ => access) (fun _ => Inv m L ts ts)
    (Exits (Owe L)) := by
  have hread : Triple (Inv m L ts ts) ctrlstat (fun _ => Inv m L ts ts)
      (ctrlstatExits m L ts) := by
    refine Triple.bind ((ask_spec (R := fun _ => False)).conseq (fun _ h => h) (fun _ _ h => h)
      fun e _ h => ?_) fun a => ?_
    · cases e with
      | exception e => exact h.elim
      | _ => exact h
    cases a with
    | ctrlstat e =>
      cases e with
      | none => exact Triple.pure fun _ h => h.kept rfl
      | some e =>
        cases e with
        | error => exact Triple.throw fun _ h => ⟨ts, h.harmed rfl⟩
        | timeout => exact Triple.throw fun _ h => h.kept rfl
    | _ => exact Triple.throw fun _ _ => trivial
  refine Triple.tryCatch hread fun e => ?_
  cases e with
  | exception e =>
    cases e with
    | error => exact Triple.throw fun _ h => h
    | timeout => exact access_spec
  | _ => exact Triple.throw fun _ h => h

/-! ## References -/

theorem freePlain_spec {E : Abort → World → Prop} {p : Ptr} :
    Triple (Inv m (one .plain p + L) ts all) (free p) (fun _ => Inv m L ts all) E := by
  intro w hw
  obtain ⟨K, hK, -⟩ := hw.owned
  rw [free_ok (hK.plain_block (p := p) (by simp))]
  refine hw.step (fun X hX => ?_) rfl rfl
  rw [add_assoc] at hX
  exact hX.freePlain

theorem freeNewDp_spec {E : Abort → World → Prop} {d : Ptr} :
    Triple (Inv m (one .newDp d + L) ts all) (free d) (fun _ => Inv m L ts all) E := by
  intro w hw
  obtain ⟨K, hK, -⟩ := hw.owned
  rw [add_assoc] at hK
  rw [free_ok hK.newDp_block]
  refine hw.step (fun X hX => ?_) rfl rfl
  rw [add_assoc] at hX
  exact hX.freeNewDp

theorem freeNewAp_spec {E : Abort → World → Prop} {a : Ptr} :
    Triple (Inv m (one .newAp a + L) ts all) (free a) (fun _ => Inv m L ts all) E := by
  intro w hw
  obtain ⟨K, hK, -⟩ := hw.owned
  rw [add_assoc] at hK
  obtain ⟨d, hb⟩ := hK.newAp_block
  rw [free_ok hb]
  refine hw.step (fun X hX => ?_) rfl rfl
  rw [add_assoc] at hX
  exact hX.freeNewAp

theorem dpRef_spec {E : Abort → World → Prop} {d : Ptr} :
    Triple (Inv m (one .newDp d + L) ts all) (dpRef d) (fun _ => Inv m (one .dp d + L) ts all) E := by
  intro w hw
  obtain ⟨K, hK, -⟩ := hw.owned
  rw [add_assoc] at hK
  show Ends _ _ ((getDp d >>= fun refcnt => setBlock d (.dp (refcnt + 1))) w)
  rw [bind_ok (getDp_ok hK.newDp_block)]
  refine hw.step (fun X hX => ?_) rfl rfl
  rw [add_assoc] at hX ⊢
  exact hX.dpFirst

theorem dpUnref_spec {E : Abort → World → Prop} {d : Ptr} :
    Triple (Inv m (one .dp d + L) ts all) (dpUnref d) (fun _ => Inv m L ts all) E := by
  intro w hw
  obtain ⟨K, hK, -⟩ := hw.owned
  obtain ⟨n, hb, -⟩ := hK.dp_block (d := d) (by simp)
  show Ends _ _ ((getDp d >>= fun refcnt => setBlock d (.dp (refcnt - 1)) >>= fun _ =>
    if refcnt - 1 = 0 then free d else pure ()) w)
  rw [bind_ok (getDp_ok hb)]
  by_cases hn : n = 1
  · subst hn
    have hlast : Inv m (one .newDp d + L) ts all (w.setBlock d (.dp 0)) := by
      refine hw.step (fun X hX => ?_) rfl rfl
      rw [add_assoc] at hX ⊢
      exact hX.dpLast hb
    exact freeNewDp_spec _ hlast
  · have hne : ¬ n - 1 = 0 := by omega
    have hset : setBlock d (.dp (n - 1)) w = .ok () (w.setBlock d (.dp (n - 1))) := rfl
    rw [bind_ok hset, if_neg hne]
    refine hw.step (fun X hX => ?_) rfl rfl
    rw [add_assoc] at hX
    exact hX.dpUnref hb hn

theorem apUnref_spec {E : Abort → World → Prop} {a : Ptr} :
    Triple (Inv m (one .ap a + L) ts all) (apUnref a) (fun _ => Inv m L ts all) E := by
  intro w hw
  obtain ⟨K, hK, -⟩ := hw.owned
  obtain ⟨n, d, hb, hpos⟩ := hK.ap_block (a := a) (by simp)
  show Ends _ _ ((getAp a >>= fun ap => setBlock a (.ap (ap.1 - 1) ap.2) >>= fun _ =>
    if ap.1 - 1 = 0 then dpUnref ap.2 >>= fun _ => free a else pure ()) w)
  rw [bind_ok (getAp_ok hb)]
  by_cases hn : n = 1
  · subst hn
    have hlast : Inv m (one .dp d + (one .newAp a + L)) ts all (w.setBlock a (.ap 0 d)) := by
      refine hw.step (fun X hX => ?_) rfl rfl
      rw [add_assoc] at hX
      have := hX.apLast hb
      rwa [add_left_comm, ← add_assoc, ← add_assoc, add_assoc (one .dp d)] at this
    exact Triple.bind dpUnref_spec (fun _ => freeNewAp_spec) _ hlast
  · have hne : ¬ n - 1 = 0 := by omega
    have hset : setBlock a (.ap (n - 1) d) w = .ok () (w.setBlock a (.ap (n - 1) d)) := rfl
    rw [bind_ok hset, if_neg hne]
    refine hw.step (fun X hX => ?_) rfl rfl
    rw [add_assoc] at hX
    exact hX.apUnref hb hn hpos

/-- Another reference. -/
theorem apRef_spec {E : Abort → World → Prop} {a : Ptr} (ha : a ∈ L .ap) :
    Triple (Inv m L ts all) (apRef a) (fun _ => Inv m (one .ap a + L) ts all) E := by
  intro w hw
  obtain ⟨K, hK, -⟩ := hw.owned
  obtain ⟨n, d, hb, hpos⟩ := hK.ap_block (a := a) (by simp [ha])
  have hne : ¬ n = 0 := by omega
  show Ends _ _ ((getAp a >>= fun ap => if ap.1 = 0 then getDp ap.2 >>= fun refcnt =>
    setBlock ap.2 (.dp (refcnt + 1)) >>= fun _ => setBlock a (.ap (ap.1 + 1) ap.2)
    else setBlock a (.ap (ap.1 + 1) ap.2)) w)
  rw [bind_ok (getAp_ok hb), if_neg hne]
  refine hw.step (fun X hX => ?_) rfl rfl
  rw [add_assoc]
  exact hX.apRef (by simp [ha]) hb

theorem apRef_first {a d : Ptr} {n : Int} (ha : w.blocks a = some (.ap 0 d))
    (hd : w.blocks d = some (.dp n)) :
    apRef a w = .ok () ((w.setBlock d (.dp (n + 1))).setBlock a (.ap 1 d)) := by
  show (getAp a >>= fun ap => if ap.1 = 0 then getDp ap.2 >>= fun refcnt =>
    setBlock ap.2 (.dp (refcnt + 1)) >>= fun _ => setBlock a (.ap (ap.1 + 1) ap.2)
    else setBlock a (.ap (ap.1 + 1) ap.2)) w = _
  rw [bind_ok (getAp_ok ha), if_pos rfl, bind_ok (getDp_ok hd)]
  rfl

/-- The debug port is another block than the access port. -/
theorem setBlock_apart {a d : Ptr} {n : Int} {b : Block} (ha : w.blocks a = some (.ap 0 d))
    (hd : w.blocks d = some (.dp n)) : (w.setBlock d b).blocks a = some (.ap 0 d) := by
  have hne : a ≠ d := by
    intro heq
    rw [heq, hd] at ha
    exact nomatch ha
  show Function.update w.blocks d (some b) a = _
  rw [Function.update_of_ne hne, ha]

/-- The first reference to an access port of a debug port that is held. -/
theorem apFirst_spec {E : Abort → World → Prop} {a d : Ptr} (hd : d ∈ L .dp) :
    Triple (fun w => Inv m (one .newAp a + L) ts all w ∧ w.blocks a = some (.ap 0 d)) (apRef a)
      (fun _ => Inv m (one .ap a + L) ts all) E := by
  rintro w ⟨hw, ha⟩
  obtain ⟨K, hK, -⟩ := hw.owned
  obtain ⟨n, hb, -⟩ := hK.dp_block (d := d) (by simp [hd])
  rw [apRef_first ha hb]
  refine hw.step (fun X hX => ?_) rfl rfl
  have href := hX.dpRef (by simp [hd]) hb
  rw [add_assoc, add_left_comm] at href
  rw [add_assoc]
  exact href.apFirst (setBlock_apart ha hb)

/-- The first reference to the only access port of a debug port. -/
theorem apFirst_newDp_spec {E : Abort → World → Prop} {a d : Ptr} :
    Triple (fun w => Inv m (one .newAp a + (one .newDp d + L)) ts all w ∧
      w.blocks a = some (.ap 0 d)) (apRef a) (fun _ => Inv m (one .ap a + L) ts all)
      E := by
  rintro w ⟨hw, ha⟩
  obtain ⟨K, hK, -⟩ := hw.owned
  have hswap : ∀ X : Holding, one .newAp a + (one .newDp d + L) + X =
      one .newDp d + (one .newAp a + (L + X)) := by
    intro X
    rw [add_assoc, add_assoc, add_left_comm]
  have hb : w.blocks d = some (.dp 0) := by
    rw [hswap] at hK
    exact hK.newDp_block
  rw [apRef_first ha hb]
  refine hw.step (fun X hX => ?_) rfl rfl
  rw [hswap] at hX
  have href := hX.dpFirst
  rw [add_left_comm] at href
  rw [add_assoc]
  exact href.apFirst (setBlock_apart ha hb)

/-! ## Targets -/

theorem holdings_append (ts ts' : List Target) :
    holdings (ts ++ ts') = holdings ts + holdings ts' := by
  simp [holdings]

theorem holdings_singleton (u : Target) : holdings [u] = u.holding := by
  simp [holdings]

theorem holdings_cons (u : Target) (ts : List Target) :
    holdings (u :: ts) = u.holding + holdings ts := rfl

theorem plains_cons (p : Ptr) (ps : List Ptr) : plains (p :: ps) = one .plain p + plains ps := rfl

theorem plains_append (ps qs : List Ptr) : plains (ps ++ qs) = plains ps + plains qs := by
  simp [plains]

theorem targetNew_spec {R : World → Prop} {use : Use} :
    Triple (Inv m L ts ts) (targetNew use) (fun r w =>
      match r with
      | none => Inv (m && harmless (.block use false)) L ts ts w
      | some t => (∀ v ∈ ts, v.block ≠ t) ∧ Inv (m && harmless (.block use true)) L
          (ts ++ [{ block := t }]) (ts ++ [{ block := t }]) w) (Exits R) := by
  refine Triple.bind (alloc_spec trivial) fun r => ?_
  cases r with
  | none => exact Triple.pure fun _ h => h
  | some t =>
    rintro w ⟨hw, -, hfresh⟩
    refine ⟨hfresh, ?_⟩
    have hregroup := hw.regroup (M := L) (s := ts ++ [{ block := t }]) ?_ ?_
    · obtain ⟨K, hK, hm⟩ := hregroup.owned
      refine ⟨?_, K, ⟨hK.aps, hK.dps, hK.plain, hK.fresh⟩, hm⟩
      show w.targets ++ _ = _
      rw [hw.targets]
    · have hnew : ({ block := t } : Target).holding = one .plain t := by
        simp [Target.holding, privHolding, plains, flashBlocks]
      rw [holdings_append, holdings_singleton, hnew, add_assoc, add_left_comm, add_comm (holdings ts)]
      rfl
    · simp [IsCortexa]

theorem targetNew_keeps {R : World → Prop} {use : Use} {a : Ptr} {b' : Block} :
    Triple (fun w => Inv m L ts all w ∧ w.blocks a = some b') (targetNew use)
      (fun _ w => w.blocks a = some b') (Exits R) := by
  refine Triple.bind alloc_keeps fun r => ?_
  cases r with
  | none => exact Triple.pure fun _ h => h
  | some t => exact fun _ h => h

/-- The list gets what the newest target has become. -/
theorem modifyTarget_list {R : World → Prop} {u : Target} {f : Target → Target}
    (hu : ∀ v ∈ ts, v.block ≠ u.block) :
    Triple (Inv m L (ts ++ [f u]) (ts ++ [u])) (modifyTarget u.block f)
      (fun _ => Inv m L (ts ++ [f u]) (ts ++ [f u])) (Exits R) := by
  intro w hw
  obtain ⟨K, hK, hm⟩ := hw.owned
  refine ⟨?_, K, ⟨hK.aps, hK.dps, hK.plain, hK.fresh⟩, hm⟩
  have hrest : ts.map (fun v => if v.block = u.block then f v else v) = ts :=
    (List.map_congr_left fun v hv => if_neg (hu v hv)).trans (List.map_id' ts)
  show w.targets.map _ = _
  rw [hw.targets, List.map_append, List.map_singleton, if_pos rfl, hrest]

/-- Something is hung on the newest target. -/
theorem modifyTarget_spec {R : World → Prop} {u : Target} {f : Target → Target}
    (hu : ∀ v ∈ ts, v.block ≠ u.block) (hsum : L + u.holding = L' + (f u).holding)
    (hcortexa : m = true → (IsCortexa u ↔ IsCortexa (f u))) :
    Triple (Inv m L (ts ++ [u]) (ts ++ [u])) (modifyTarget u.block f)
      (fun _ => Inv m L' (ts ++ [f u]) (ts ++ [f u])) (Exits R) := by
  refine (modifyTarget_list hu).pre fun w hw => hw.regroup ?_ fun hm => ?_
  · rw [holdings_append, holdings_append, holdings_singleton, holdings_singleton, add_left_comm,
      hsum, add_left_comm]
  · simp [hcortexa hm]

/-- What the probe functions leave as it is. -/
structure Like (u u' : Target) : Prop where
  block : u'.block = u.block
  priv : u'.priv = u.priv
  storage : u'.storage = u.storage

theorem Like.cortexa {u u' : Target} (h : Like u u') : IsCortexa u ↔ IsCortexa u' := by
  rw [IsCortexa, IsCortexa, h.priv]

theorem Like.trans {u u' u'' : Target} (h : Like u u') (h' : Like u' u'') : Like u u'' :=
  ⟨h'.block.trans h.block, h'.priv.trans h.priv, h'.storage.trans h.storage⟩

/-- A block that is hung on the newest target if it is given. -/
theorem hang_spec {R : World → Prop} {u : Target} {use : Use} {f : Ptr → Target → Target}
    (hu : ∀ v ∈ ts, v.block ≠ u.block) (huse : ∀ b, harmless (.block use b) = true)
    (hlike : ∀ p, Like u (f p u)) (hsum : ∀ p, (f p u).holding = one .plain p + u.holding) :
    Triple (Inv m L (ts ++ [u]) (ts ++ [u]))
      (do match ← alloc use .plain with
          | none => pure ()
          | some p => modifyTarget u.block (f p))
      (fun _ w => ∃ u', Like u u' ∧ Inv m L (ts ++ [u']) (ts ++ [u']) w) (Exits R) := by
  refine Triple.bind (alloc_spec trivial) fun r => ?_
  cases r with
  | none => exact Triple.pure fun w h => ⟨u, ⟨rfl, rfl, rfl⟩, h.kept (huse false)⟩
  | some p =>
    refine (modifyTarget_spec (L := one .plain p + L) (f := f p) hu ?_
      fun _ => (hlike p).cortexa).conseq ?_ (fun _ w h => ⟨f p u, hlike p, h⟩) fun _ _ h => h
    · rw [hsum, add_right_comm, add_comm L]
    · rintro w ⟨h, -, -⟩
      exact h.kept (huse true)

theorem targetAddCommands_spec {R : World → Prop} {u : Target}
    (hu : ∀ v ∈ ts, v.block ≠ u.block) :
    Triple (Inv m L (ts ++ [u]) (ts ++ [u])) (targetAddCommands u.block)
      (fun _ w => ∃ u', Like u u' ∧ Inv m L (ts ++ [u']) (ts ++ [u']) w) (Exits R) := by
  refine hang_spec hu (fun _ => rfl) (fun _ => ⟨rfl, rfl, rfl⟩) fun p => ?_
  have hplain : plains [p] = one .plain p := by simp [plains]
  simp only [Target.holding, plains_append, hplain]
  ac_rfl

theorem targetAddRam_spec {R : World → Prop} {u : Target} (hu : ∀ v ∈ ts, v.block ≠ u.block) :
    Triple (Inv m L (ts ++ [u]) (ts ++ [u])) (targetAddRam u.block)
      (fun _ w => ∃ u', Like u u' ∧ Inv m L (ts ++ [u']) (ts ++ [u']) w) (Exits R) := by
  refine hang_spec hu (fun _ => rfl) (fun _ => ⟨rfl, rfl, rfl⟩) fun p => ?_
  simp only [Target.holding, plains_cons]
  ac_rfl

theorem addFlash_spec {R : World → Prop} {u : Target} (hu : ∀ v ∈ ts, v.block ≠ u.block) :
    Triple (Inv m L (ts ++ [u]) (ts ++ [u])) (addFlash u.block)
      (fun _ w => ∃ u', Like u u' ∧ Inv m L (ts ++ [u']) (ts ++ [u']) w) (Exits R) := by
  refine hang_spec hu (fun _ => rfl) (fun _ => ⟨rfl, rfl, rfl⟩) fun p => ?_
  have hflash : flashBlocks ((p, none) :: u.flash) = p :: flashBlocks u.flash := rfl
  simp only [Target.holding, hflash, plains_cons]
  ac_rfl

/-! ## Giving blocks back -/

theorem freeOpt_spec {E : Abort → World → Prop} {o : Option Ptr} :
    Triple (Inv m (plains o.toList + L) ts all) (freeOpt o) (fun _ => Inv m L ts all) E := by
  cases o with
  | none =>
    refine Triple.pure fun w h => ?_
    have hnone : plains (Option.toList none) = 0 := rfl
    rwa [hnone, zero_add] at h
  | some p =>
    have hsome : plains (Option.toList (some p)) = one .plain p := by simp [plains]
    rw [hsome]
    exact freePlain_spec

theorem freeAll_spec {E : Abort → World → Prop} {ps : List Ptr} :
    Triple (Inv m (plains ps + L) ts all) (freeAll ps) (fun _ => Inv m L ts all) E := by
  induction ps with
  | nil =>
    refine Triple.pure fun w h => ?_
    have hnil : plains [] = 0 := rfl
    rwa [hnil, zero_add] at h
  | cons p ps ih =>
    rw [plains_cons, add_assoc]
    exact Triple.bind freePlain_spec fun _ => ih

theorem freeFlash_spec {E : Abort → World → Prop} {flash : List (Ptr × Option Ptr)} :
    Triple (Inv m (plains (flashBlocks flash) + L) ts all) (freeFlash flash)
      (fun _ => Inv m L ts all) E := by
  induction flash with
  | nil =>
    refine Triple.pure fun w h => ?_
    have hnil : plains (flashBlocks []) = 0 := rfl
    rwa [hnil, zero_add] at h
  | cons f flash ih =>
    have hcons : plains (flashBlocks (f :: flash)) + L =
        plains f.2.toList + (one .plain f.1 + (plains (flashBlocks flash) + L)) := by
      have hf : flashBlocks (f :: flash) = f.2.toList ++ ([f.1] ++ flashBlocks flash) := by
        simp [flashBlocks]
      rw [hf, plains_append, List.singleton_append, plains_cons, add_assoc, add_assoc]
    rw [hcons]
    exact Triple.bind freeOpt_spec fun _ => Triple.bind freePlain_spec fun _ => ih

theorem freeMap_spec {E : Abort → World → Prop} {u : Target} :
    Triple (Inv m (plains u.ram + (plains (flashBlocks u.flash) + L)) ts all) (freeMap u)
      (fun _ => Inv m L ts all) E :=
  Triple.bind freeAll_spec fun _ => freeFlash_spec

theorem find_newest {u : Target} (hu : ∀ v ∈ ts, v.block ≠ u.block) :
    (ts ++ [u]).find? (fun v => v.block = u.block) = some u := by
  have hrest : ts.find? (fun v => decide (v.block = u.block)) = none := by
    simpa using hu
  rw [List.find?_append, hrest]
  simp

theorem targetMemMapFree_spec {R : World → Prop} {u : Target}
    (hu : ∀ v ∈ ts, v.block ≠ u.block) :
    Triple (Inv m L (ts ++ [u]) (ts ++ [u])) (targetMemMapFree u.block)
      (fun _ w => ∃ u', Like u u' ∧ Inv m L (ts ++ [u']) (ts ++ [u']) w) (Exits R) := by
  intro w hw
  let u' : Target := { u with ram := [], flash := [] }
  have hfind : w.targets.find? (fun v => v.block = u.block) = some u := by
    rw [hw.targets]
    exact find_newest hu
  have heq := targetMemMapFree_ok hfind
  have hsplit : u.holding = plains u.ram + (plains (flashBlocks u.flash) + u'.holding) := by
    have hnil : plains u'.ram = 0 := rfl
    have hnil' : plains (flashBlocks u'.flash) = 0 := rfl
    simp only [Target.holding, hnil, hnil', zero_add]
    ac_rfl
  have hopen := hw.regroup (M := plains u.ram + (plains (flashBlocks u.flash) + L))
    (s := ts ++ [u']) ?_ ?_
  · rw [heq]
    refine Triple.bind freeMap_spec (fun _ => ?_) w hopen
    exact (modifyTarget_list (f := fun v => { v with ram := [], flash := [] }) hu).post
      fun _ _ h => ⟨u', ⟨rfl, rfl, rfl⟩, h⟩
  · rw [holdings_append, holdings_append, holdings_singleton, holdings_singleton, hsplit]
    ac_rfl
  · intro _
    simp [IsCortexa, u']

/-! ## Probing -/

/-- Between the steps of a scan. -/
def Settled (L : Holding) (w : World) : Prop := ∃ ts, Inv true L ts ts w

/-- While the newest target is filled in. -/
def Filling (L : Holding) (ts : List Target) (u : Target) (w : World) : Prop :=
  ∃ u', Like u u' ∧ Inv true L (ts ++ [u']) (ts ++ [u']) w

theorem Filling.settled {u : Target} (h : Filling L ts u w) : Settled L w := by
  obtain ⟨u', -, hw⟩ := h
  exact ⟨_, hw⟩

theorem Inv.filling {u : Target} (h : Inv true L (ts ++ [u]) (ts ++ [u]) w) : Filling L ts u w :=
  ⟨u, ⟨rfl, rfl, rfl⟩, h⟩

/-- A step on the newest target, whatever has been hung on it. -/
theorem filling_step {R : World → Prop} {u : Target} {p : Ptr → M Unit}
    (hu : ∀ v ∈ ts, v.block ≠ u.block)
    (hp : ∀ u' : Target, (∀ v ∈ ts, v.block ≠ u'.block) →
      Triple (Inv true L (ts ++ [u']) (ts ++ [u'])) (p u'.block)
        (fun _ w => ∃ u'', Like u' u'' ∧ Inv true L (ts ++ [u'']) (ts ++ [u'']) w) (Exits R)) :
    Triple (Filling L ts u) (p u.block) (fun _ => Filling L ts u) (Exits R) := by
  refine Triple.exists_pre fun u' => Triple.and_pre fun hlike => ?_
  have hstep := hp u' (hlike.block ▸ hu)
  rw [hlike.block] at hstep
  exact hstep.post fun _ w ⟨u'', hlike', hw⟩ => ⟨u'', hlike.trans hlike', hw⟩

theorem filling_access {u : Target} :
    Triple (Filling L ts u) access (fun _ => Filling L ts u) (Exits (Owe L)) := by
  refine Triple.exists_pre fun u' => Triple.and_pre fun hlike => ?_
  exact access_spec.post fun _ w hw => ⟨u', hlike, hw⟩

theorem filling_ask {R : World → Prop} {u : Target} :
    Triple (Filling L ts u) ask (fun a w => ∃ u', Like u u' ∧
      Inv (harmless a) L (ts ++ [u']) (ts ++ [u']) w) (Exits R) := by
  refine Triple.exists_pre fun u' => Triple.and_pre fun hlike => ?_
  exact ask_spec.post fun a w hw => ⟨u', hlike, by simpa using hw⟩

/-- A block for the probe function. -/
theorem filling_alloc {R : World → Prop} {u : Target} {use : Use}
    (huse : ∀ b, harmless (.block use b) = true) :
    Triple (Filling L ts u) (alloc use .plain) (fun r w =>
      match r with
      | none => Filling L ts u w
      | some p => Filling (one .plain p + L) ts u w) (Exits R) := by
  refine Triple.exists_pre fun u' => Triple.and_pre fun hlike => ?_
  refine (alloc_spec (b := .plain) trivial).post fun r w hw => ?_
  cases r with
  | none => exact ⟨u', hlike, hw.kept (huse false)⟩
  | some p => exact ⟨u', hlike, hw.1.kept (huse true)⟩

theorem Owe.drop (h : Owe (L' + L) w) : Owe L w := by
  obtain ⟨ts, hw⟩ := h
  exact ⟨ts, hw.drop⟩

/-- The newest target gets its storage. -/
theorem storage_spec {R : World → Prop} {u : Target} {p : Ptr} (hu : ∀ v ∈ ts, v.block ≠ u.block)
    (hnone : u.storage = none) :
    Triple (Filling (one .plain p + L) ts u)
      (modifyTarget u.block fun u => { u with storage := some p })
      (fun _ => Filling L ts { u with storage := some p }) (Exits R) := by
  refine Triple.exists_pre fun u' => Triple.and_pre fun hlike => ?_
  have hsum : one .plain p + L + u'.holding = L + Target.holding { u' with storage := some p } := by
    have hnone' : plains u'.storage.toList = 0 := by
      rw [hlike.storage, hnone]
      rfl
    have hsome : plains (Option.toList (some p)) = one .plain p := by simp [plains]
    simp only [Target.holding, hnone', hsome, zero_add]
    ac_rfl
  have hset := modifyTarget_spec (R := R) (m := true) (f := fun u => { u with storage := some p })
    (hlike.block ▸ hu) hsum fun _ => Iff.rfl
  have hsame : modifyTarget u.block (fun u => { u with storage := some p }) =
      modifyTarget u'.block fun u => { u with storage := some p } := by
    rw [hlike.block]
  rw [hsame]
  exact hset.post fun _ w hw =>
    ⟨{ u' with storage := some p }, ⟨hlike.block, hlike.priv, rfl⟩, hw⟩

theorem driverProbe_spec {n : Nat} {stored : Bool} {u : Target}
    (hu : ∀ v ∈ ts, v.block ≠ u.block) (hstored : stored = false → u.storage = none) :
    Triple (Filling L ts u) (driverProbe u.block n stored) (fun _ => Settled L)
      (Exits (Owe L)) := by
  induction n generalizing stored u with
  | zero => exact Triple.throw fun _ _ => trivial
  | succ n ih =>
    refine Triple.bind filling_ask fun a => ?_
    cases a with
    | step s =>
      refine Triple.pre (P := Filling L ts u) ?_ fun w h => h
      cases s with
      | access => exact Triple.bind filling_access fun _ => ih hu hstored
      | addCommands =>
        exact Triple.bind (filling_step hu fun _ => targetAddCommands_spec) fun _ => ih hu hstored
      | addRam =>
        exact Triple.bind (filling_step hu fun _ => targetAddRam_spec) fun _ => ih hu hstored
      | addFlash =>
        exact Triple.bind (filling_step hu fun _ => addFlash_spec) fun _ => ih hu hstored
      | mapFree =>
        exact Triple.bind (filling_step hu fun _ => targetMemMapFree_spec) fun _ => ih hu hstored
      | storage =>
        refine Triple.ite (fun _ => Triple.throw fun _ _ => trivial) fun hfree => ?_
        refine Triple.bind (filling_alloc fun _ => rfl) fun r => ?_
        cases r with
        | none => exact Triple.throw fun _ _ => trivial
        | some p =>
          refine Triple.bind (filling_access.conseq (fun _ h => h) (fun _ _ h => h)
            (Exits.mono fun _ => Owe.drop)) fun _ => ?_
          refine Triple.bind (storage_spec hu (hstored (Bool.eq_false_iff.mpr hfree))) fun _ => ?_
          exact ih (u := { u with storage := some p }) hu fun h => nomatch h
      | scratch =>
        refine Triple.bind (filling_alloc fun _ => rfl) fun r => ?_
        cases r with
        | none => exact ih hu hstored
        | some p =>
          refine Triple.bind (filling_access.conseq (fun _ h => h) (fun _ _ h => h)
            (Exits.mono fun _ => Owe.drop)) fun _ => ?_
          refine Triple.bind (Q := fun _ => Filling L ts u) ?_ fun _ => ih hu hstored
          refine Triple.exists_pre fun u' => Triple.and_pre fun hlike => ?_
          exact freePlain_spec.post fun _ w hw => ⟨u', hlike, hw⟩
      | done => exact Triple.pure fun _ h => h.settled
    | _ => exact Triple.throw fun _ _ => trivial

/-- A program that keeps `L` and may be left by an exception. -/
def Stays (L : Holding) (p : M Unit) : Prop :=
  Triple (Settled L) p (fun _ => Settled L) (Exits (Owe L))

theorem settled_access : Stays L access := by
  refine Triple.exists_pre fun ts => ?_
  exact access_spec.post fun _ w hw => ⟨ts, hw⟩

theorem fuel_spec {R : World → Prop} {P : World → Prop} :
    Triple P fuel (fun _ => P) (Exits R) := fun _ h => h

/-- The newest target gets its private data. -/
theorem priv_spec {R : World → Prop} {t : Ptr} {q : Priv} (hu : ∀ v ∈ ts, v.block ≠ t)
    (hcortexa : m = true → ∀ block ap, q ≠ .cortexa block ap) :
    Triple (Inv m (q.holding + L) (ts ++ [{ block := t }]) (ts ++ [{ block := t }]))
      (modifyTarget t fun u => { u with priv := some q })
      (fun _ => Inv m L (ts ++ [{ block := t, priv := some q }])
        (ts ++ [{ block := t, priv := some q }])) (Exits R) := by
  refine modifyTarget_spec (u := { block := t }) (f := fun u => { u with priv := some q }) hu
    ?_ fun hm => ?_
  · have hnone : privHolding none = 0 := rfl
    have hsome : privHolding (some q) = q.holding := rfl
    simp only [Target.holding, hnone, hsome, zero_add]
    ac_rfl
  · simp [IsCortexa, hcortexa hm]

theorem cortexmProbe_spec {a : Ptr} (ha : a ∈ L .ap) : Stays L (cortexmProbe a) := by
  refine Triple.exists_pre fun ts => Triple.bind targetNew_spec fun r => ?_
  cases r with
  | none => exact Triple.pure fun w hw => ⟨ts, hw⟩
  | some t =>
    refine Triple.and_pre fun hu => Triple.bind (apRef_spec ha) fun _ => ?_
    refine Triple.bind (alloc_spec (b := .plain) trivial) fun r => ?_
    cases r with
    | none => exact Triple.pure fun w hw => ⟨_, hw.abandon (one_ne_zero .ap a)⟩
    | some priv =>
      refine Triple.bind (Q := fun _ => Filling L ts { block := t, priv := some (.cortexm priv a) })
        ?_ fun _ => ?_
      · refine (priv_spec (m := true) (q := .cortexm priv a) hu fun _ _ _ h => nomatch h).conseq
          ?_ (fun _ w h => h.filling) fun _ _ h => h
        rintro w ⟨hw, -, -⟩
        have hsum : (Priv.cortexm priv a).holding + L = one .plain priv + (one .ap a + L) := by
          simp only [Priv.holding]
          ac_rfl
        rw [hsum]
        exact hw
      · refine Triple.bind filling_access fun _ => ?_
        refine Triple.bind (filling_step (u := { block := t, priv := some (.cortexm priv a) }) hu
          fun _ => targetAddCommands_spec) fun _ => ?_
        refine Triple.bind filling_access fun _ => Triple.bind fuel_spec fun n => ?_
        exact Triple.bind (driverProbe_spec (u := { block := t, priv := some (.cortexm priv a) })
          hu fun _ => rfl) fun _ => settled_access

theorem cortexaProbe_spec {a : Ptr} (ha : a ∈ L .ap) : Stays L (cortexaProbe a) := by
  refine Triple.exists_pre fun ts => Triple.bind targetNew_spec fun r => ?_
  cases r with
  | none => exact Triple.pure fun w hw => ⟨ts, hw⟩
  | some t =>
    refine Triple.and_pre fun hu => Triple.bind (apRef_spec ha) fun _ => ?_
    refine Triple.bind (alloc_spec (b := .plain) trivial) fun r => ?_
    cases r with
    | none => exact Triple.pure fun w hw => ⟨_, hw.abandon (one_ne_zero .ap a)⟩
    | some priv =>
      refine Triple.bind (Q := fun _ => Inv false L
        (ts ++ [{ block := t, priv := some (.cortexa priv a) }])
        (ts ++ [{ block := t, priv := some (.cortexa priv a) }])) ?_ fun _ => ?_
      · refine (priv_spec (m := false) (q := .cortexa priv a) hu fun h => nomatch h).pre ?_
        rintro w ⟨hw, -, -⟩
        have hsum : (Priv.cortexa priv a).holding + L = one .plain priv + (one .ap a + L) := by
          simp only [Priv.holding]
          ac_rfl
        rw [hsum]
        exact hw
      · refine access_spec.post fun _ w hw => ⟨_, hw.settle ?_⟩
        exact ⟨_, List.mem_append_right ts (List.mem_singleton_self _), priv, a, rfl⟩

/-- The probe functions of the access ports begin alike. -/
theorem portProbe_spec {a t : Ptr} {k : M Unit} (ha : a ∈ L .ap) (hu : ∀ v ∈ ts, v.block ≠ t)
    (hk : Triple (Filling L ts { block := t, priv := some (.ap a) }) k (fun _ => Settled L)
      (Exits (Owe L))) :
    Triple (Inv true L (ts ++ [{ block := t }]) (ts ++ [{ block := t }]))
      (apRef a >>= fun _ => modifyTarget t (fun u => { u with priv := some (.ap a) }) >>= fun _ => k)
      (fun _ => Settled L) (Exits (Owe L)) := by
  refine Triple.bind (apRef_spec ha) fun _ => Triple.bind ?_ fun _ => hk
  exact (priv_spec (q := .ap a) hu fun _ _ _ h => nomatch h).post fun _ _ h => h.filling

theorem filling_addCommands {R : World → Prop} {u : Target} (hu : ∀ v ∈ ts, v.block ≠ u.block) :
    Triple (Filling L ts u) (targetAddCommands u.block) (fun _ => Settled L) (Exits R) :=
  (filling_step hu fun _ => targetAddCommands_spec).post fun _ _ h => h.settled

theorem kinetisMdmProbe_spec {a : Ptr} (ha : a ∈ L .ap) : Stays L (kinetisMdmProbe a) := by
  refine Triple.exists_pre fun ts => Triple.bind targetNew_spec fun r => ?_
  cases r with
  | none => exact Triple.pure fun w hw => ⟨ts, hw⟩
  | some t =>
    refine Triple.and_pre fun hu => portProbe_spec ha hu ?_
    exact filling_addCommands (u := { block := t, priv := some (.ap a) }) hu

theorem nrf51MdmProbe_spec {a : Ptr} (ha : a ∈ L .ap) : Stays L (nrf51MdmProbe a) := by
  refine Triple.exists_pre fun ts => Triple.bind targetNew_spec fun r => ?_
  cases r with
  | none => exact Triple.pure fun w hw => ⟨ts, hw⟩
  | some t =>
    refine Triple.and_pre fun hu => portProbe_spec ha hu ?_
    refine Triple.bind filling_access fun _ => ?_
    exact filling_addCommands (u := { block := t, priv := some (.ap a) }) hu

/-- The name of the driver is lost. -/
theorem efm32AapProbe_spec {a : Ptr} (ha : a ∈ L .ap) : Stays L (efm32AapProbe a) := by
  refine Triple.exists_pre fun ts => Triple.bind targetNew_spec fun r => ?_
  cases r with
  | none => exact Triple.throw fun _ _ => trivial
  | some t =>
    refine Triple.and_pre fun hu => portProbe_spec ha hu ?_
    refine Triple.bind filling_access fun _ => ?_
    refine Triple.exists_pre fun u' => Triple.and_pre fun hlike => ?_
    refine Triple.bind (alloc_spec (b := .plain) trivial) fun r => ?_
    cases r with
    | none => exact Triple.throw fun _ _ => trivial
    | some name =>
      have hu' : ∀ v ∈ ts, v.block ≠ u'.block := hlike.block ▸ hu
      have hadd := filling_addCommands (R := Owe L) (L := L) hu'
      rw [hlike.block] at hadd
      refine hadd.pre ?_
      rintro w ⟨hw, -, -⟩
      exact (hw.abandon (one_ne_zero .plain name)).filling

theorem idrProbe_spec {a : Ptr} {idr : Idr} (ha : a ∈ L .ap) : Stays L (idrProbe a idr) := by
  cases idr with
  | kinetisMdm => exact kinetisMdmProbe_spec ha
  | nrf51Mdm => exact nrf51MdmProbe_spec ha
  | efm32Aap => exact efm32AapProbe_spec ha
  | other => exact Triple.pure fun _ h => h

/-- Between the steps an answer is taken. -/
theorem settled_ask {R : World → Prop} :
    Triple (Settled L) ask (fun a w => ∃ ts, Inv (harmless a) L ts ts w) (Exits R) := by
  refine Triple.exists_pre fun ts => ?_
  exact ask_spec.post fun a w hw => ⟨ts, by simpa using hw⟩

theorem romTable_spec {probe : M Unit} (hprobe : Stays L probe) (n : Nat) :
    Stays L (romTable probe n) := by
  induction n with
  | zero => exact Triple.pure fun _ h => h
  | succ n ih =>
    refine Triple.bind settled_access fun _ => Triple.bind settled_ask fun a => ?_
    cases a with
    | entry e =>
      cases e with
      | last => exact Triple.pure fun _ h => h
      | notPresent => exact ih
      | present => exact Triple.bind hprobe fun _ => ih
    | _ => exact Triple.throw fun _ _ => trivial

theorem componentProbe_spec {a : Ptr} (ha : a ∈ L .ap) (n : Nat) :
    Stays L (componentProbe a n) := by
  induction n with
  | zero => exact Triple.throw fun _ _ => trivial
  | succ n ih =>
    refine Triple.bind settled_access fun _ => Triple.bind settled_ask fun a => ?_
    cases a with
    | component c =>
      cases c with
      | nothing => exact Triple.pure fun _ h => h
      | romTable => exact romTable_spec ih 960
      | protectedSamx5x => exact cortexmProbe_spec ha
      | cortexm => exact cortexmProbe_spec ha
      | cortexa => exact cortexaProbe_spec ha
    | _ => exact Triple.throw fun _ _ => trivial

/-- Dropping a reference. -/
theorem settled_apUnref {R : World → Prop} {a : Ptr} :
    Triple (Settled (one .ap a + L)) (apUnref a) (fun _ => Settled L) (Exits R) := by
  refine Triple.exists_pre fun ts => ?_
  exact apUnref_spec.post fun _ w hw => ⟨ts, hw⟩

theorem settled_dpUnref {R : World → Prop} {d : Ptr} :
    Triple (Settled (one .dp d + L)) (dpUnref d) (fun _ => Settled L) (Exits R) := by
  refine Triple.exists_pre fun ts => ?_
  exact dpUnref_spec.post fun _ w hw => ⟨ts, hw⟩

theorem apProbe_spec {a : Ptr} {idr : Idr} :
    Triple (Settled (one .ap a + L)) (apProbe a idr) (fun _ => Settled L) (Exits (Owe L)) := by
  have ha : a ∈ (one .ap a + L) .ap := by simp
  have hdrop : ∀ {p : M Unit}, Stays (one .ap a + L) p → Triple (Settled (one .ap a + L)) p
      (fun _ => Settled (one .ap a + L)) (Exits (Owe L)) :=
    fun hp => hp.conseq (fun _ h => h) (fun _ _ h => h) (Exits.mono fun _ => Owe.drop)
  refine Triple.bind (hdrop (idrProbe_spec ha)) fun _ => ?_
  refine Triple.bind (hdrop settled_access) fun _ => Triple.bind fuel_spec fun n => ?_
  exact Triple.bind (hdrop (componentProbe_spec ha n)) fun _ => settled_apUnref

theorem newAp_spec {d : Ptr} (hd : d ∈ L .dp) :
    Triple (Settled L) (newAp d) (fun r w =>
      match r with
      | none => Settled L w
      | some r => Settled (one .ap r.1 + L) w) (Exits (Owe L)) := by
  refine Triple.bind settled_access fun _ => Triple.bind settled_ask fun a => ?_
  cases a with
  | accessPort r =>
    cases r with
    | none => exact Triple.pure fun _ h => h
    | some r =>
      refine Triple.exists_pre fun ts => Triple.bind (alloc_spec (b := .ap 0 d) rfl) fun p => ?_
      cases p with
      | none => exact Triple.pure fun w hw => ⟨ts, hw⟩
      | some a =>
        refine Triple.bind (Q := fun _ => Settled (one .ap a + L)) ?_ fun _ =>
          Triple.pure fun _ h => h
        refine (apFirst_spec hd).conseq ?_ (fun _ w hw => ⟨ts, hw⟩) fun _ _ h => h
        rintro w ⟨hw, hblock, -⟩
        exact ⟨hw, hblock⟩
  | _ => exact Triple.throw fun _ _ => trivial

/-! ## Debug ports -/

/-- When a program that holds a block is unwound, the block is lost. -/
theorem Owe.abandon {k : Kind} {p : Ptr} (h : Owe (one k p + L) w) : Settled L w := by
  obtain ⟨ts, hw⟩ := h
  exact ⟨ts, hw.abandon (one_ne_zero k p)⟩

theorem lost {α : Type} {k : Kind} {p : Ptr} {q : M α} {P : World → Prop} {Q : α → World → Prop}
    (h : Triple P q Q (Exits (Owe (one k p + L)))) : Triple P q Q (Exits (Settled L)) :=
  h.conseq (fun _ h => h) (fun _ _ h => h) (Exits.mono fun _ => Owe.abandon)

theorem settled_ctrlstat : Triple (Settled L) (catching (· = .timeout) ctrlstat fun _ => access)
    (fun _ => Settled L) (Exits (Owe L)) := by
  refine Triple.exists_pre fun ts => ?_
  exact ctrlstat_spec.post fun _ w hw => ⟨ts, hw⟩

theorem settled_acknowledged {R : World → Prop} :
    Triple (Settled L) acknowledged (fun _ => Settled L) (Exits R) := by
  refine Triple.exists_pre fun ts => ?_
  exact acknowledged_spec.post fun _ w hw => ⟨ts, hw⟩

theorem settled_expired {R : World → Prop} :
    Triple (Settled L) expired (fun _ => Settled L) (Exits R) := by
  refine Triple.exists_pre fun ts => ?_
  exact expired_spec.post fun _ w hw => ⟨ts, hw⟩

theorem waitAck_spec (n : Nat) :
    Triple (Settled L) (waitAck n) (fun _ => Settled L) (Exits (Owe L)) := by
  induction n with
  | zero => exact Triple.throw fun _ _ => trivial
  | succ n ih =>
    refine Triple.bind settled_access fun _ => Triple.bind settled_acknowledged fun b => ?_
    refine Triple.ite (fun _ => Triple.pure fun _ h => h) fun _ => ?_
    refine Triple.bind settled_expired fun b => ?_
    exact Triple.ite (fun _ => Triple.pure fun _ h => h) fun _ => ih

theorem resumeAll_spec (us : List Target) : Stays L (resumeAll us) := by
  induction us with
  | nil => exact Triple.pure fun _ h => h
  | cons u us ih => exact Triple.bind settled_access fun _ => ih

/-- The loop gives the reference to the debug port back when it returns from the function. -/
theorem probeAps_spec {d : Ptr} (n i voidAps : Nat) (lastBase : UInt32) :
    Triple (Settled (one .dp d + L)) (probeAps d n i voidAps lastBase)
      (fun r => if r then Settled (one .dp d + L) else Settled L)
      (Exits (Owe (one .dp d + L))) := by
  induction n generalizing i voidAps lastBase with
  | zero => exact Triple.pure fun _ h => h
  | succ n ih =>
    unfold probeAps
    refine Triple.ite (fun _ => ?_) fun _ => Triple.pure fun _ h => h
    refine Triple.bind (newAp_spec (by simp)) fun r => ?_
    cases r with
    | none =>
      refine Triple.ite (fun _ => ?_) fun _ => ih _ _ _
      exact Triple.bind settled_dpUnref fun _ => Triple.pure fun _ h => h
    | some r =>
      refine Triple.ite (fun _ => ?_) fun _ => ?_
      · refine Triple.bind settled_apUnref fun _ => ?_
        exact Triple.bind settled_dpUnref fun _ => Triple.pure fun _ h => h
      · exact Triple.bind apProbe_spec fun _ => ih _ _ _

theorem dpProbe_spec {d : Ptr} :
    Triple (Settled (one .newDp d + L)) (dpProbe d) (fun _ => Settled L) (Exits (Settled L)) := by
  refine Triple.bind (lost settled_access) fun _ => Triple.bind fuel_spec fun n => ?_
  refine Triple.bind (lost (waitAck_spec n)) fun _ => ?_
  refine Triple.bind (Q := fun _ => Settled (one .dp d + L)) ?_ fun _ => ?_
  · refine Triple.exists_pre fun ts => ?_
    exact dpRef_spec.post fun _ w hw => ⟨ts, hw⟩
  · refine Triple.bind (lost (probeAps_spec 256 0 0 0)) fun r => ?_
    cases r with
    | false => exact Triple.pure fun _ h => h
    | true =>
      refine Triple.bind (Q := fun _ => Settled (one .dp d + L)) (fun _ h => h) fun w => ?_
      exact Triple.bind (lost (resumeAll_spec w.targets)) fun _ => settled_dpUnref

/-- Without a block for the access port or its target both ports are lost. -/
theorem rescueSetup_spec {R : World → Prop} {d : Ptr} :
    Triple (Settled (one .newDp d + L)) (rescueSetup d) (fun _ => Settled L) (Exits R) := by
  refine Triple.exists_pre fun ts => Triple.bind (alloc_spec (b := .ap 0 d) rfl) fun r => ?_
  cases r with
  | none => exact Triple.pure fun w hw => ⟨ts, hw.abandon (one_ne_zero .newDp d)⟩
  | some a =>
    have hkeeps : Triple (fun w => Inv true (one .newAp a + (one .newDp d + L)) ts ts w ∧
        w.blocks a = some (.ap 0 d)) (targetNew .rescueTarget)
        (fun _ w => w.blocks a = some (.ap 0 d)) (Exits R) := targetNew_keeps
    have hnew := (@targetNew_spec true (one .newAp a + (one .newDp d + L)) ts R
      .rescueTarget).and hkeeps
    refine Triple.bind (hnew.conseq (fun w hw => ⟨hw.1, hw.1, hw.2.1⟩) (fun _ _ h => h)
      fun _ _ h => h.1) fun r => ?_
    cases r with
    | none =>
      refine Triple.pure fun w hw => ⟨ts, ?_⟩
      have howe : Inv false (one .newAp a + (one .newDp d + L)) ts ts w := hw.1
      exact howe.drop.abandon (one_ne_zero .newDp d)
    | some t =>
      let u : Target := { block := t }
      refine Triple.pre (P := fun w => (∀ v ∈ ts, v.block ≠ t) ∧
        (Inv true (one .newAp a + (one .newDp d + L)) (ts ++ [u]) (ts ++ [u]) w ∧
          w.blocks a = some (.ap 0 d))) ?_ fun w hw => ⟨hw.1.1, hw.1.2, hw.2⟩
      refine Triple.and_pre fun hu => Triple.bind apFirst_newDp_spec fun _ => ?_
      exact (priv_spec (q := .ap a) hu fun _ _ _ h => nomatch h).post fun _ _ h => ⟨_, h⟩

theorem dpInit_spec {d : Ptr} {idcode : UInt32} :
    Triple (Settled (one .newDp d + L)) (dpInit d idcode) (fun _ => Settled L)
      (Exits (Settled L)) := by
  have hfree : Triple (Settled (one .newDp d + L)) (free d) (fun _ => Settled L)
      (Exits (Settled L)) := by
    refine Triple.exists_pre fun ts => ?_
    exact freeNewDp_spec.post fun _ w hw => ⟨ts, hw⟩
  refine Triple.ite (fun _ => hfree) fun _ => Triple.ite (fun _ => rescueSetup_spec) fun _ => ?_
  refine Triple.bind (lost settled_ctrlstat) fun _ => ?_
  refine Triple.bind (lost settled_access) fun _ => Triple.bind fuel_spec fun n => ?_
  refine Triple.bind (lost (waitAck_spec n)) fun b => ?_
  exact Triple.ite (fun _ => dpProbe_spec) fun _ => hfree

/-! ## The scans -/

theorem settled_line :
    Triple (Settled L) line (fun _ => Settled L) (Exits (Settled L)) := by
  refine Triple.exists_pre fun ts => ?_
  exact line_spec.conseq (fun _ h => h) (fun _ w hw => ⟨ts, hw⟩) (Exits.mono fun _ hw => ⟨ts, hw⟩)

theorem dpNew_spec (idcode : UInt32) :
    Triple (Settled L) (dpNew idcode) (fun _ => Settled L) (Exits (Settled L)) := by
  refine Triple.exists_pre fun ts => Triple.bind (alloc_spec (b := .dp 0) rfl) fun r => ?_
  cases r with
  | none => exact Triple.pure fun w hw => ⟨ts, hw⟩
  | some d => exact dpInit_spec.pre fun w hw => ⟨ts, hw.1⟩

theorem scanDps_spec (n : Nat) :
    Triple (Settled L) (scanDps n) (fun _ => Settled L) (Exits (Settled L)) := by
  induction n with
  | zero => exact Triple.pure fun _ h => h
  | succ n ih =>
    refine Triple.bind settled_line fun _ => Triple.bind settled_ask fun a => ?_
    cases a with
    | idcode r =>
      cases r with
      | none => exact ih
      | some idcode => exact Triple.bind (dpNew_spec idcode) fun _ => ih
    | _ => exact Triple.throw fun _ _ => trivial

theorem scanDevices_spec (n : Nat) :
    Triple (Settled L) (scanDevices n) (fun _ => Settled L) (Exits (Settled L)) := by
  induction n with
  | zero => exact Triple.pure fun _ h => h
  | succ n ih =>
    refine Triple.bind settled_ask fun a => ?_
    cases a with
    | idcode r =>
      cases r with
      | none => exact Triple.throw fun _ _ => trivial
      | some idcode => exact Triple.bind (dpNew_spec idcode) fun _ => ih
    | _ => exact Triple.throw fun _ _ => trivial

/-- What hangs on a target is given back, but for the private data of a Cortex-A. -/
theorem targetFree_spec {E : Abort → World → Prop} {u : Target} :
    Triple (Inv true L (u :: ts) all) (targetFree u) (fun _ => Inv true L ts all) E := by
  have hrest : ∀ m L', Triple (Inv m (plains u.commands + (plains u.storage.toList +
      (plains u.ram + (plains (flashBlocks u.flash) + (plains u.bwList +
        (one .plain u.block + L')))))) ts all)
      (freeAll u.commands >>= fun _ => freeOpt u.storage >>= fun _ => freeMap u >>= fun _ =>
        freeAll u.bwList >>= fun _ => free u.block) (fun _ => Inv m L' ts all) E :=
    fun m L' => Triple.bind freeAll_spec fun _ => Triple.bind freeOpt_spec fun _ =>
      Triple.bind freeMap_spec fun _ => Triple.bind freeAll_spec fun _ => freePlain_spec
  have hopen : ∀ {m L' w}, Inv m L (u :: ts) all w → (m = true → ¬ IsCortexa u) →
      L' = privHolding u.priv + (plains u.commands + (plains u.storage.toList +
        (plains u.ram + (plains (flashBlocks u.flash) + (plains u.bwList +
          (one .plain u.block + L)))))) → Inv m L' ts all w := by
    intro m L' w hw hcortexa heq
    refine hw.regroup ?_ fun hm => by simp [hcortexa hm]
    rw [heq, holdings_cons]
    simp only [Target.holding]
    ac_rfl
  unfold targetFree
  cases hpriv : u.priv with
  | none =>
    refine (hrest true L).pre fun w hw => ?_
    refine hopen hw (fun _ => by simp [IsCortexa, hpriv]) ?_
    rw [hpriv]
    exact (zero_add _).symm
  | some priv =>
    cases priv with
    | cortexm block a =>
      refine Triple.bind (Triple.bind (Triple.pre apUnref_spec fun w hw => ?_) fun _ =>
        freePlain_spec) fun _ => hrest true L
      refine hopen hw (fun _ => by simp [IsCortexa, hpriv]) ?_
      rw [hpriv]
      exact (add_assoc _ _ _).symm
    | cortexa block a =>
      refine Triple.bind (Q := fun _ => Inv false (plains u.commands + (plains u.storage.toList +
        (plains u.ram + (plains (flashBlocks u.flash) + (plains u.bwList +
          (one .plain u.block + (one .ap a + (one .plain block + L)))))))) ts all)
        (Triple.pure fun w hw => ?_) fun _ => (hrest false _).post fun _ w hw => ?_
      · refine hopen (hw.unsettle ⟨u, List.mem_cons_self, block, a, hpriv⟩)
          (fun h => nomatch h) ?_
        rw [hpriv]
        show _ = (one .ap a + one .plain block) + _
        ac_rfl
      · rw [← add_assoc] at hw
        exact hw.abandon (add_ne_zero (one_ne_zero .ap a) _)
    | ap a =>
      refine Triple.bind (Triple.pre apUnref_spec fun w hw => ?_) fun _ => hrest true L
      refine hopen hw (fun _ => by simp [IsCortexa, hpriv]) ?_
      rw [hpriv]
      rfl

theorem freeTargets_spec {E : Abort → World → Prop} :
    Triple (Inv true L ts all) (freeTargets ts) (fun _ => Inv true L [] all) E := by
  induction ts with
  | nil => exact Triple.pure fun _ h => h
  | cons u ts ih => exact Triple.bind targetFree_spec fun _ => ih

theorem targetListFree_spec {E : Abort → World → Prop} :
    Triple (Settled L) targetListFree (fun _ => Inv true L [] []) E := by
  refine Triple.exists_pre fun ts w hw => ?_
  have hfree : Triple (Inv true L ts ts) (freeTargets ts >>= fun _ =>
      modify fun w => { w with targets := [] }) (fun _ => Inv true L [] []) E := by
    refine Triple.bind freeTargets_spec fun _ w hw => ?_
    obtain ⟨K, hK, hm⟩ := hw.owned
    exact ⟨rfl, K, ⟨hK.aps, hK.dps, hK.plain, hK.fresh⟩, hm⟩
  have hlist : targetListFree w =
      (freeTargets ts >>= fun _ => modify fun w => { w with targets := [] }) w := by
    rw [← hw.targets]
    rfl
  rw [hlist]
  exact hfree w hw

theorem swdpScan_spec :
    Triple (Settled L) swdpScan (fun _ => Settled L) (Exits (Settled L)) := by
  refine Triple.bind (Q := fun _ => Settled L) (targetListFree_spec.post fun _ w hw => ⟨[], hw⟩)
    fun _ => Triple.bind settled_line fun _ => Triple.bind settled_ask fun a => ?_
  cases a with
  | dpFound r =>
    cases r with
    | none => exact Triple.pure fun _ h => h
    | some multidrop => exact scanDps_spec _
  | _ => exact Triple.throw fun _ _ => trivial

theorem jtagScan_spec :
    Triple (Settled L) jtagScan (fun _ => Settled L) (Exits (Settled L)) := by
  refine Triple.bind (Q := fun _ => Settled L) (targetListFree_spec.post fun _ w hw => ⟨[], hw⟩)
    fun _ => Triple.bind settled_ask fun a => ?_
  cases a with
  | devices n => exact scanDevices_spec n
  | _ => exact Triple.throw fun _ _ => trivial

/-- Every exception is caught. -/
theorem caught {p : M Unit} (hp : Triple (Settled L) p (fun _ => Settled L) (Exits (Settled L))) :
    Triple (Settled L) (catching (fun _ => true) p fun _ => pure ()) (fun _ => Settled L)
      (Exits fun _ => False) := by
  refine Triple.tryCatch hp fun e => ?_
  cases e with
  | exception e => exact Triple.pure fun _ h => h
  | _ => exact Triple.throw fun _ h => h

theorem scans_spec (wires : List Wire) :
    Triple (Settled L) (scans wires) (fun _ => Settled L) (Exits fun _ => False) := by
  induction wires with
  | nil => exact Triple.pure fun _ h => h
  | cons wire wires ih =>
    refine Triple.bind (Q := fun _ => Settled L) ?_ fun _ => ih
    cases wire with
    | swd => exact caught swdpScan_spec
    | jtag => exact caught jtagScan_spec

/-! ## What is left -/

/-- A program that takes no answers. -/
def Silent {α : Type} (p : M α) : Prop :=
  ∀ as : List Answer, Triple (fun w => w.answered = as) p (fun _ w => w.answered = as)
    fun _ _ => True

theorem Silent.bind {α β : Type} {p : M α} {f : α → M β} (hp : Silent p)
    (hf : ∀ a, Silent (f a)) : Silent (p >>= f) :=
  fun as => Triple.bind (hp as) fun a => hf a as

theorem Silent.pure {α : Type} (a : α) : Silent (Pure.pure a : M α) := fun _ _ h => h

theorem Silent.ite {α : Type} {c : Prop} [Decidable c] {p q : M α} (hp : Silent p)
    (hq : Silent q) : Silent (if c then p else q) := by
  split
  · exact hp
  · exact hq

theorem silent_free (p : Ptr) : Silent (free p) := by
  intro as w hw
  cases hb : w.blocks p with
  | none =>
    rw [free_gone hb]
    trivial
  | some b =>
    rw [free_ok hb]
    exact hw

theorem silent_freeOpt (o : Option Ptr) : Silent (freeOpt o) := by
  cases o with
  | none => exact Silent.pure ()
  | some p => exact silent_free p

theorem silent_freeAll (ps : List Ptr) : Silent (freeAll ps) := by
  induction ps with
  | nil => exact Silent.pure ()
  | cons p ps ih => exact (silent_free p).bind fun _ => ih

theorem silent_freeFlash (flash : List (Ptr × Option Ptr)) : Silent (freeFlash flash) := by
  induction flash with
  | nil => exact Silent.pure ()
  | cons f flash ih => exact (silent_freeOpt f.2).bind fun _ => (silent_free f.1).bind fun _ => ih

theorem silent_setBlock (p : Ptr) (b : Block) : Silent (setBlock p b) := fun _ _ h => h

theorem silent_getDp (d : Ptr) : Silent (getDp d) := by
  intro as w hw
  rcases getDp_cases d w with ⟨n, heq⟩ | heq
  · rw [heq]
    exact hw
  · rw [heq]
    trivial

theorem silent_getAp (a : Ptr) : Silent (getAp a) := by
  intro as w hw
  rcases getAp_cases a w with ⟨ap, heq⟩ | heq
  · rw [heq]
    exact hw
  · rw [heq]
    trivial

theorem silent_dpUnref (d : Ptr) : Silent (dpUnref d) :=
  (silent_getDp d).bind fun _ => (silent_setBlock d _).bind fun _ =>
    Silent.ite (silent_free d) (Silent.pure ())

theorem silent_apUnref (a : Ptr) : Silent (apUnref a) :=
  (silent_getAp a).bind fun ap => (silent_setBlock a _).bind fun _ =>
    Silent.ite ((silent_dpUnref ap.2).bind fun _ => silent_free a) (Silent.pure ())

theorem silent_targetFree (u : Target) : Silent (targetFree u) := by
  have hrest : Silent (freeAll u.commands >>= fun _ => freeOpt u.storage >>= fun _ =>
      freeMap u >>= fun _ => freeAll u.bwList >>= fun _ => free u.block) :=
    (silent_freeAll _).bind fun _ => (silent_freeOpt _).bind fun _ =>
      ((silent_freeAll _).bind fun _ => silent_freeFlash _).bind fun _ =>
        (silent_freeAll _).bind fun _ => silent_free _
  unfold targetFree
  cases u.priv with
  | none => exact hrest
  | some priv =>
    cases priv with
    | cortexm block a =>
      exact ((silent_apUnref a).bind fun _ => silent_free block).bind fun _ => hrest
    | cortexa block a => exact (Silent.pure ()).bind fun _ => hrest
    | ap a => exact (silent_apUnref a).bind fun _ => hrest

theorem silent_targetListFree : Silent targetListFree := by
  have hfree : ∀ us : List Target, Silent (freeTargets us) := by
    intro us
    induction us with
    | nil => exact Silent.pure ()
    | cons u us ih => exact (silent_targetFree u).bind fun _ => ih
  exact Silent.bind (fun _ _ h => h) fun w => (hfree w.targets).bind fun _ _ _ h => h

theorem plains_of_ne {k : Kind} (hk : k ≠ .plain) (ps : List Ptr) : plains ps k = 0 := by
  induction ps with
  | nil => rfl
  | cons p ps ih =>
    rw [plains_cons]
    simp [hk, ih]

/-- Targets hold references to access ports, and blocks. -/
theorem holdings_of_ne {k : Kind} (hk : k ≠ .plain) (hk' : k ≠ .ap) (ts : List Target) :
    holdings ts k = 0 := by
  induction ts with
  | nil => rfl
  | cons u ts ih =>
    have hpriv : privHolding u.priv k = 0 := by
      rcases u.priv with _ | _ | _ | _
      all_goals simp [privHolding, Priv.holding, hk, hk']
    rw [holdings_cons]
    simp [Target.holding, hpriv, plains_of_ne hk, hk, ih]

theorem count_holdings (ts : List Target) (a : Ptr) :
    (holdings ts .ap).count a = ts.countP fun u => u.port = some a := by
  induction ts with
  | nil => rfl
  | cons u ts ih =>
    have hpriv : (privHolding u.priv .ap).count a = if u.port = some a then 1 else 0 := by
      unfold Target.port
      rcases u.priv with _ | _ | _ | _
      all_goals simp [privHolding, Priv.holding, Priv.port, Multiset.count_singleton, eq_comm]
    have hplain : ∀ ps, plains ps .ap = 0 := plains_of_ne (by simp)
    rw [holdings_cons, List.countP_cons, ← ih]
    simp [Target.holding, hplain, hpriv, add_comm]

/-- Each access port on a debug port is one reference to it. -/
theorem count_apDps (w : World) (hpos : ∀ a n d, w.blocks a = some (.ap n d) → n ≠ 0) (d : Ptr) :
    w.apDps.count d = (w.portsOn d).card := by
  rw [World.apDps, Multiset.count_sum', World.portsOn, Finset.card_filter]
  refine Finset.sum_congr rfl fun a _ => ?_
  cases hb : w.blocks a with
  | none => rfl
  | some b =>
    cases b with
    | ap n d' =>
      simp [Scan.apDps, dpOf, hpos a n d' hb, Multiset.count_singleton, eq_comm]
    | _ => rfl

theorem Owned.noLeak (h : Owned (holdings ts) w) (hts : w.targets = ts) : NoLeak w := by
  have haps := h.aps
  rw [holdings_of_ne (k := .newAp) (by simp) (by simp)] at haps
  have hdps := h.dps
  rw [holdings_of_ne (k := .newDp) (by simp) (by simp),
    holdings_of_ne (k := .dp) (by simp) (by simp), zero_add] at hdps
  have hap : ∀ a n d, w.blocks a = some (.ap n d) →
      n = w.targets.countP (fun u => u.port = some a) ∧ ∃ u ∈ w.targets, u.port = some a := by
    intro a n d hb
    obtain ⟨hmem, hn⟩ := haps.of_some (congrArg apCount hb)
    have hpos := Multiset.count_pos.mpr hmem
    rw [count_holdings] at hn hpos
    rw [hts]
    obtain ⟨u, hu, hport⟩ := List.countP_pos_iff.mp hpos
    exact ⟨hn, u, hu, by simpa using hport⟩
  have hne : ∀ a n d, w.blocks a = some (.ap n d) → n ≠ 0 := by
    intro a n d hb hzero
    obtain ⟨hn, u, hu, hport⟩ := hap a n d hb
    have hpos : 0 < w.targets.countP fun u => u.port = some a :=
      List.countP_pos_iff.mpr ⟨u, hu, by simpa using hport⟩
    omega
  refine ⟨hap, fun d n hb => ?_⟩
  obtain ⟨hmem, hn⟩ := hdps.of_some (congrArg dpCount hb)
  have hpos := Multiset.count_pos.mpr hmem
  rw [count_apDps w hne] at hn hpos
  obtain ⟨a, ha⟩ := Finset.card_pos.mp hpos
  have hdp : dpOf (w.blocks a) = some d := (Finset.mem_filter.mp ha).2
  have hport : ∃ n', w.blocks a = some (.ap n' d) := by
    rcases ho : w.blocks a with _ | _ | ⟨n', d'⟩ | _
    all_goals rw [ho] at hdp
    all_goals cases hdp
    exact ⟨n', rfl⟩
  obtain ⟨n', hport⟩ := hport
  obtain ⟨-, u, hu, huport⟩ := hap a n' d hport
  exact ⟨hn, u, hu, a, ha, huport⟩

/-- Without holdings the pool has every block. -/
theorem Owned.blocks_none (h : Owned 0 w) (p : Ptr) : w.blocks p = none := by
  have hnone : ∀ a n d, w.blocks a ≠ some (.ap n d) := fun a n d hb =>
    Multiset.notMem_zero a (h.aps.of_some (congrArg apCount hb)).1
  have hdps : w.apDps = 0 := by
    refine Finset.sum_eq_zero fun a _ => ?_
    rcases ho : w.blocks a with _ | _ | ⟨n, d⟩ | _
    case some.ap => exact absurd ho (hnone a n d)
    all_goals rfl
  rcases ho : w.blocks p with _ | _ | ⟨n, d⟩ | n
  · rfl
  · exact absurd (h.plain.of_some (congrArg plainCount ho)).1 (Multiset.notMem_zero p)
  · exact absurd ho (hnone p n d)
  · have hcount := h.dps
    rw [hdps] at hcount
    exact absurd (hcount.of_some (congrArg dpCount ho)).1 (Multiset.notMem_zero p)

/-- What is held is in the pool. -/
theorem Owned.blocks_some {X : Holding} (h : Owned X w) (hX : X ≠ 0) : ∃ p, w.blocks p ≠ none := by
  obtain ⟨k, hk⟩ : ∃ k, X k ≠ 0 := by
    by_contra hall
    exact hX (funext fun k => not_not.mp (not_exists.mp hall k))
  obtain ⟨p, hp⟩ := Multiset.exists_mem_of_ne_zero hk
  refine ⟨p, fun hb => ?_⟩
  have hap := h.aps.free_iff.mp (congrArg apCount hb)
  have hdp := h.dps.free_iff.mp (congrArg dpCount hb)
  have hplain := h.plain.free_iff.mp (congrArg plainCount hb)
  cases k with
  | ap => exact hap.2 hp
  | dp => exact hdp.2 (Multiset.mem_add.mpr (Or.inl hp))
  | newAp => exact hap.1 hp
  | newDp => exact hdp.1 hp
  | plain => exact hplain.2 hp

theorem settled_start (script : List Answer) : Settled 0 (start script) := by
  refine ⟨[], rfl, 0, ?_, ?_⟩
  · have hzero : (0 : Holding) + (0 + holdings []) = 0 := rfl
    rw [hzero]
    exact ⟨Counted.nothing, Counted.nothing, Counted.nothing, fun _ _ => rfl⟩
  · simp [Spoiled, Lost, start]

/-- Scans use the pool rightly: no block is used after it has been freed, or freed twice. -/
theorem scans_safe (wires : List Wire) (script : List Answer) (w : World) :
    scans wires (start script) ≠ .error .useAfterFree w ∧
      scans wires (start script) ≠ .error .doubleFree w := by
  have hend := scans_spec wires (start script) (settled_start script)
  constructor
  all_goals
    intro h
    rw [h] at hend
    exact hend

/-- A Cortex-M is found on the only access port. -/
def cortexmFound : List Answer :=
  [Answer.line none, .dpFound (some false), .line none, .idcode (some 0x2BA01477), .block .dp true,
    .ctrlstat none, .access none, .access none, .acknowledged true, .access none, .access none,
    .acknowledged true, .access none, .accessPort (some (0xE00FF003, .other)), .block .ap true,
    .access none, .access none, .component .cortexm, .block .target true, .block .priv true,
    .access none, .block .commands true, .access none, .step .done, .access none] ++
  (List.replicate 8 [Answer.access none, .accessPort none]).flatten ++ [.access none]

/-- The scans come to their end, with answers as told by `p`. -/
def endsWith (p : Answer → Bool) (wires : List Wire) (script : List Answer) : Bool :=
  match scans wires (start script) with
  | .ok _ w => w.answered.all p
  | .error _ _ => false

theorem endsWith_elim {p : Answer → Bool} {wires : List Wire} {script : List Answer}
    (h : endsWith p wires script = true) :
    ∃ w, scans wires (start script) = .ok () w ∧ ∀ a ∈ w.answered, p a = true := by
  unfold endsWith at h
  cases hrun : scans wires (start script) with
  | ok _ w =>
    rw [hrun] at h
    exact ⟨w, rfl, List.all_eq_true.mp h⟩
  | error e w =>
    rw [hrun] at h
    exact nomatch h

/-- The debug port stops to answer while it is initialised. -/
def dpLost : List Answer :=
  [.line none, .dpFound (some false), .line none, .idcode (some 0x2BA01477), .block .dp true,
    .ctrlstat none, .access (some .error)]

end MiyakoLink.Scan
