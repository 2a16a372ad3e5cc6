import MiyakoLink.Jtag.Table
import MiyakoLink.Lib.Guarded

/-!
# Scans and operations in any order

A run is a list of scans, each of some chain, and of operations on a device of the last one.
In a run whose scans leave a right table and whose operations are within the limits of `Sound`,
the operations do to the registers what they say (`ops_addressed`). After a chain of two devices
the second pass of a scan of the first one alone finds five bits behind it, and an instruction
for it ends up elsewhere (`stale_postscan`).
-/

namespace MiyakoLink.Jtag

open Lib

/-- The table, and the chain that is connected. -/
structure Probe where
  proc : JtagProc
  chain : Chain

inductive Op where
  | scan (W : Behind) (irlens : Option (Nat → UInt8)) (c : Chain)
  | writeIr (W : Behind) (i : Nat) (ir : UInt32)
  | shiftDr (W : Behind) (i : Nat) (din : List Bool)

def Probe.step (s : Probe) : Op → Probe
  | .scan W irlens c => ⟨(jtagScan W irlens s.proc c).2.1, (jtagScan W irlens s.proc c).2.2⟩
  | .writeIr W i ir =>
    ⟨(jtagDevWriteIr W s.proc i ir s.chain).1, (jtagDevWriteIr W s.proc i ir s.chain).2⟩
  | .shiftDr W i din => { s with chain := (jtagDevShiftDr W s.proc i din s.chain).2 }

/-! ## What an operation is for -/

/-- Port `i` holds an instruction, all others are in bypass. -/
def Selected (c : Chain) (i : Nat) (ir : UInt32) : Prop :=
  ∀ j p, c.ports[j]? = some p →
    if j = i then p.ir = wordBits ir p.device.irLen else p.Bypassed

/-- An instruction that the table has for a device is the one in its register. -/
def CacheRight (s : Probe) : Prop :=
  ∀ i p, s.chain.ports[i]? = some p → (s.proc.jtagDevs i).currentIr ≠ unknownIr →
    p.ir = wordBits (s.proc.jtagDevs i).currentIr p.device.irLen

/-- The data register that port `i` has selected is exchanged, no other is written. -/
def Exchanged (c c' : Chain) (i : Nat) (din dout : List Bool) : Prop :=
  ∀ p, c.ports[i]? = some p → din.length = p.captured.length →
    (∀ j q, j ≠ i → c.ports[j]? = some q → q.Bypassed) →
      dout = p.captured ∧ c'.ports = c.ports.set i (p.update din)

def Addressed (s : Probe) : Op → Prop
  | .scan W irlens c => CacheRight (s.step (.scan W irlens c))
  | .writeIr W i ir =>
    (s.step (.writeIr W i ir)).chain.tap = .runTestIdle ∧
      Selected (s.step (.writeIr W i ir)).chain i ir ∧ CacheRight (s.step (.writeIr W i ir))
  | .shiftDr W i din =>
    Exchanged s.chain (s.step (.shiftDr W i din)).chain i din
        (jtagDevShiftDr W s.proc i din s.chain).1 ∧
      CacheRight (s.step (.shiftDr W i din))

/-- A scan that returns the number of the devices, an operation on one of them. A data register
has at least one bit. -/
def Issued (s : Probe) : Op → Prop
  | .scan W irlens c => (jtagScan W irlens s.proc c).1 = c.ports.length
  | .writeIr _ i _ => i < s.chain.ports.length
  | .shiftDr _ i din => i < s.chain.ports.length ∧ din ≠ []

/-- The limits of the implementation. A scan takes the right lengths, of less than 256 bits, and
starts from a table that has no bits behind the last device. An instruction has at most the 32
bits of the variable or zeros behind it, at most 32 filler bits on either side or ones behind the
array, and is not the mark of an unknown one that the table has already. -/
def Sound (s : Probe) : Op → Prop
  | .scan W irlens c =>
    LengthsRight W irlens (devices c) ∧ irTotal (devices c) < 256 ∧
      (s.proc.jtagDevs (c.ports.length - 1)).irPostscan = 0
  | .writeIr W i ir =>
    (∀ l d r, devices s.chain = l ++ d :: r → l.length = i →
      (∀ k, 32 ≤ k → k < irTotal l → W.ones k = true) ∧
        (∀ k, 32 ≤ k → k < irTotal r → W.ones k = true) ∧
          ∀ k, 32 ≤ k → k < d.irLen → W.ir k = false) ∧
      ¬(ir = unknownIr ∧ (s.proc.jtagDevs i).currentIr = unknownIr)
  | .shiftDr .. => True

/-! ## One operation -/

theorem distribute_append (len : Port → Nat) (put : Port → List Bool → Port) (ps qs : List Port)
    (reg : List Bool) :
    distribute len put (ps ++ qs) reg =
      distribute len put ps reg ++ distribute len put qs (reg.drop (ps.map len).sum) := by
  induction ps generalizing reg with
  | nil => rfl
  | cons p ps ih =>
    rw [List.cons_append, distribute, distribute, ih, List.map_cons, List.sum_cons,
      List.drop_drop, List.cons_append]

/-- A port with the instruction that selects the bypass register. -/
def bypass (p : Port) : Port := { p with ir := List.replicate p.device.irLen true }

theorem bypass_bypassed (p : Port) : (bypass p).Bypassed := rfl

/-- Ones in the instruction registers put all ports in bypass. -/
theorem distribute_ones (ps : List Port) (rest : List Bool) :
    distribute (·.device.irLen) (fun p reg => { p with ir := reg }) ps
      (List.replicate (irTotal (ps.map (·.device))) true ++ rest) = ps.map bypass := by
  induction ps with
  | nil => rfl
  | cons p ps ih =>
    have hlen := List.length_replicate (n := p.device.irLen) (a := true)
    rw [List.map_cons, irTotal_cons, ← List.replicate_append_replicate, List.append_assoc,
      distribute, List.take_left' hlen, List.drop_left' hlen, ih]
    rfl

/-- Ports in bypass keep what they have whatever is shifted in. -/
theorem distribute_bypassed {ps : List Port} (h : ∀ p ∈ ps, p.Bypassed) (reg : List Bool) :
    distribute (·.captured.length) Port.update ps reg = ps := by
  induction ps generalizing reg with
  | nil => rfl
  | cons p ps ih =>
    rw [distribute, ih (fun q hq => h q (List.mem_cons_of_mem _ hq)), Port.update,
      if_pos (Or.inl (h p (List.mem_cons_self ..)))]

theorem captured_bypassed {ps : List Port} (h : ∀ p ∈ ps, p.Bypassed) :
    ps.flatMap Port.captured = List.replicate ps.length false := by
  induction ps with
  | nil => rfl
  | cons p ps ih =>
    rw [List.flatMap_cons, ih (fun q hq => h q (List.mem_cons_of_mem _ hq)), Port.captured,
      if_pos (h p (List.mem_cons_self ..))]
    rfl

theorem irLen_pos (d : Device) : 0 < d.irLen := by
  rw [← d.irCapture_length]
  cases h : d.irCapture with
  | nil =>
    have hhead := d.irCapture_head
    rw [h] at hhead
    contradiction
  | cons b bits => exact Nat.zero_lt_succ _

theorem irBits_eq {W : Behind} {ir : UInt32} {n : Nat} (h : ∀ k, 32 ≤ k → k < n → W.ir k = false) :
    irBits W ir n = wordBits ir n := by
  apply List.map_congr_left
  intro k hk
  split
  · rfl
  · have hbit : ir.toNat.testBit k = false := by
      apply Nat.testBit_lt_two_pow
      exact Nat.lt_of_lt_of_le ir.toNat_lt (Nat.pow_le_pow_right (by omega) (by omega))
    rw [h k (by omega) (List.mem_range.mp hk), hbit]

theorem flatMap_irCapture_length (ps : List Port) :
    (ps.flatMap (·.device.irCapture)).length = irTotal (ps.map (·.device)) := by
  induction ps with
  | nil => rfl
  | cons p ps ih =>
    rw [List.flatMap_cons, List.length_append, ih, p.device.irCapture_length, List.map_cons,
      irTotal_cons]

/-- The last of the filler bits behind, or of the middle when there are none, carries the mode
signal. -/
theorem last_iff (W : Behind) (b : UInt8) : (b == 0) = true ↔ onesBits W b.toNat = [] := by
  rw [beq_iff_eq, onesBits, List.map_eq_nil_iff, List.range_eq_nil]
  constructor
  · rintro rfl
    rfl
  · intro h
    exact UInt8.toNat_inj.mp h

/-- The instruction goes to its device, and ones go to all others. -/
theorem writeIr_chain {W : Behind} {p : JtagProc} {c : Chain} {ir : UInt32} {l r : List Port}
    {q : Port} (hidle : c.tap = .runTestIdle) (hports : c.ports = l ++ q :: r)
    (hentry : Entry (p.jtagDevs l.length) (l.map (·.device)) q.device (r.map (·.device)))
    (hpre : ∀ k, 32 ≤ k → k < irTotal (l.map (·.device)) → W.ones k = true)
    (hpost : ∀ k, 32 ≤ k → k < irTotal (r.map (·.device)) → W.ones k = true)
    (hmid : ∀ k, 32 ≤ k → k < q.device.irLen → W.ir k = false)
    (hnew : ir ≠ (p.jtagDevs l.length).currentIr) :
    (jtagDevWriteIr W p l.length ir c).2.tap = .runTestIdle ∧
      (jtagDevWriteIr W p l.length ir c).2.ports =
        l.map bypass ++ { q with ir := wordBits ir q.device.irLen } :: r.map bypass := by
  have hmiddle : irBits W ir q.device.irLen ≠ [] := by
    rw [irBits_eq hmid]
    apply List.ne_nil_of_length_pos
    rw [wordBits_length]
    exact irLen_pos _
  have hlast := last_iff W (p.jtagDevs l.length).irPostscan
  obtain ⟨-, hparts⟩ := three_parts
    (c := ⟨.shiftIr, c.ports.flatMap (·.device.irCapture), c.ports⟩) (Or.inr rfl)
    (onesBits W (p.jtagDevs l.length).irPrescan.toNat) hmiddle hlast
  have hchain : (jtagDevWriteIr W p l.length ir c).2 =
      returnIdle (tdiSeq true (onesBits W (p.jtagDevs l.length).irPostscan.toNat)
        (tdiTdoSeq ((p.jtagDevs l.length).irPostscan == 0)
          (irBits W ir (p.jtagDevs l.length).irLen.toNat)
          (tdiSeq false (onesBits W (p.jtagDevs l.length).irPrescan.toNat) (shiftIr c))).2) := by
    rw [jtagDevWriteIr, if_neg hnew]
    rfl
  rw [hchain, shiftIr_idle hidle, hentry.irLen, hparts, hentry.irPrescan, hentry.irPostscan,
    onesBits_eq hpre, onesBits_eq hpost, irBits_eq hmid, returnIdle_ir rfl]
  refine ⟨rfl, ?_⟩
  have hreg : (c.ports.flatMap (·.device.irCapture)).length =
      (List.replicate (irTotal (l.map (·.device))) true ++
        (wordBits ir q.device.irLen ++ List.replicate (irTotal (r.map (·.device))) true)).length := by
    rw [flatMap_irCapture_length, hports]
    simp
  have hones := distribute_ones r []
  rw [List.append_nil] at hones
  dsimp only
  rw [List.drop_left' hreg, hports, distribute_append, distribute_ones, distribute,
    List.drop_left' (by simp [irTotal]; rfl), List.take_left' (wordBits_length _ _),
    List.drop_left' (wordBits_length _ _), hones]

/-- The data goes between ones on either side, and what is shifted in is distributed. -/
theorem shiftDr_chain {W : Behind} {p : JtagProc} {c : Chain} {din : List Bool} {l r : List Port}
    {q : Port} (hidle : c.tap = .runTestIdle)
    (hentry : Entry (p.jtagDevs l.length) (l.map (·.device)) q.device (r.map (·.device)))
    (hl : l.length ≤ 32) (hr : r.length ≤ 32) (hdin : din ≠ []) :
    let filled := List.replicate l.length true ++ (din ++ List.replicate r.length true)
    let reg := (c.ports.flatMap Port.captured ++ filled).drop filled.length
    jtagDevShiftDr W p l.length din c =
      (((c.ports.flatMap Port.captured ++ List.replicate l.length true).drop l.length ++
          din).take din.length,
        ⟨.runTestIdle, reg, distribute (·.captured.length) Port.update c.ports reg⟩) := by
  have hlast := last_iff W (p.jtagDevs l.length).drPostscan
  obtain ⟨hout, hparts⟩ := three_parts
    (c := ⟨.shiftDr, c.ports.flatMap Port.captured, c.ports⟩) (Or.inl rfl)
    (onesBits W (p.jtagDevs l.length).drPrescan.toNat) hdin hlast
  have hbefore : (p.jtagDevs l.length).drPrescan.toNat = l.length := by
    rw [hentry.drPrescan, List.length_map]
  have hbehind : (p.jtagDevs l.length).drPostscan.toNat = r.length := by
    rw [hentry.drPostscan, List.length_map]
  have hones : ∀ n, n ≤ 32 → onesBits W n = List.replicate n true := by
    intro n hn
    exact onesBits_eq fun k hk hkn => absurd hkn (by omega)
  have hchain : jtagDevShiftDr W p l.length din c =
      ((tdiTdoSeq ((p.jtagDevs l.length).drPostscan == 0) din
          (tdiSeq false (onesBits W (p.jtagDevs l.length).drPrescan.toNat) (shiftDr c))).1,
        returnIdle (tdiSeq true (onesBits W (p.jtagDevs l.length).drPostscan.toNat)
          (tdiTdoSeq ((p.jtagDevs l.length).drPostscan == 0) din
            (tdiSeq false (onesBits W (p.jtagDevs l.length).drPrescan.toNat) (shiftDr c))).2)) := by
    rw [jtagDevShiftDr]
  rw [hchain, shiftDr_idle hidle, hparts, hout, hbefore, hbehind, hones _ hl, hones _ hr,
    returnIdle_dr rfl, List.length_replicate]

/-- With all other ports in bypass the register of the port comes out and the data goes in. -/
theorem shiftDr_exchanges {W : Behind} {p : JtagProc} {c : Chain} {din : List Bool}
    {l r : List Port} {q : Port} (hidle : c.tap = .runTestIdle) (hports : c.ports = l ++ q :: r)
    (hentry : Entry (p.jtagDevs l.length) (l.map (·.device)) q.device (r.map (·.device)))
    (hl : l.length ≤ 32) (hr : r.length ≤ 32) (hdin : din ≠ [])
    (hlen : din.length = q.captured.length) (hlby : ∀ p ∈ l, p.Bypassed)
    (hrby : ∀ p ∈ r, p.Bypassed) :
    (jtagDevShiftDr W p l.length din c).1 = q.captured ∧
      (jtagDevShiftDr W p l.length din c).2.ports = l ++ q.update din :: r := by
  have hflat : c.ports.flatMap Port.captured =
      List.replicate l.length false ++ (q.captured ++ List.replicate r.length false) := by
    rw [hports, List.flatMap_append, List.flatMap_cons, captured_bypassed hlby,
      captured_bypassed hrby]
  have hones : (l.map fun p => p.captured.length).sum = l.length := by
    rw [← List.length_flatMap, captured_bypassed hlby, List.length_replicate]
  rw [shiftDr_chain hidle hentry hl hr hdin]
  constructor
  · dsimp only
    rw [hflat, List.append_assoc, List.append_assoc, List.drop_left' List.length_replicate,
      List.append_assoc, hlen]
    exact List.take_left' rfl
  · have hreg : (c.ports.flatMap Port.captured).length =
        (List.replicate l.length true ++ (din ++ List.replicate r.length true)).length := by
      rw [hflat]
      simp [hlen]
    dsimp only
    rw [List.drop_left' hreg, hports, distribute_append, distribute, distribute_bypassed hlby,
      distribute_bypassed hrby, hones, List.drop_left' List.length_replicate, ← hlen,
      List.take_left' rfl]

/-! ## Runs -/

/-- What holds between the operations once devices have been found. -/
structure Consistent (s : Probe) : Prop where
  idle : s.chain.tap = .runTestIdle
  short : s.chain.ports.length ≤ 7
  count : s.proc.jtagDevCount = s.chain.ports.length
  entry : ∀ l d r, devices s.chain = l ++ d :: r → Entry (s.proc.jtagDevs l.length) l d r
  cache : ∀ i, i < s.chain.ports.length → (s.proc.jtagDevs i).currentIr ≠ unknownIr →
    Selected s.chain i (s.proc.jtagDevs i).currentIr

theorem Consistent.entry_ports {s : Probe} (hs : Consistent s) {l r : List Port} {q : Port}
    (hports : s.chain.ports = l ++ q :: r) :
    Entry (s.proc.jtagDevs l.length) (l.map (·.device)) q.device (r.map (·.device)) := by
  have hsplit : devices s.chain = l.map (·.device) ++ q.device :: r.map (·.device) := by
    rw [devices, hports, List.map_append, List.map_cons]
  have := hs.entry _ _ _ hsplit
  rwa [List.length_map] at this

theorem split_at {ps : List Port} {i : Nat} (h : i < ps.length) :
    ∃ l q r, ps = l ++ q :: r ∧ l.length = i := by
  refine ⟨ps.take i, ps[i], ps.drop (i + 1), ?_, ?_⟩
  · rw [← List.drop_eq_getElem_cons h, List.take_append_drop]
  · rw [List.length_take]
    omega

theorem Consistent.cacheRight {s : Probe} (hs : Consistent s) : CacheRight s := by
  intro i p hp hknown
  have hi := (List.getElem?_eq_some_iff.mp hp).1
  have := hs.cache i hi hknown i p hp
  rwa [if_pos rfl] at this

theorem selected_of_ports {c : Chain} {l r : List Port} {q : Port} {ir : UInt32}
    (hports : c.ports = l ++ q :: r) (hq : q.ir = wordBits ir q.device.irLen)
    (hl : ∀ p ∈ l, p.Bypassed) (hr : ∀ p ∈ r, p.Bypassed) : Selected c l.length ir := by
  intro j p hp
  rw [hports] at hp
  rcases Nat.lt_trichotomy j l.length with hlt | rfl | hgt
  · rw [List.getElem?_append_left hlt] at hp
    rw [if_neg (by omega)]
    exact hl p (List.mem_of_getElem? hp)
  · rw [List.getElem?_append_right (Nat.le_refl _), Nat.sub_self] at hp
    cases hp
    rwa [if_pos rfl]
  · obtain ⟨k, hk⟩ : ∃ k, j - l.length = k + 1 := ⟨j - l.length - 1, by omega⟩
    rw [List.getElem?_append_right (by omega), hk, List.getElem?_cons_succ] at hp
    rw [if_neg (by omega)]
    exact hr p (List.mem_of_getElem? hp)

theorem scan_consistent {s : Probe} {W : Behind} {irlens : Option (Nat → UInt8)} {c : Chain}
    (hsome : c.ports ≠ []) (hissued : Issued s (.scan W irlens c))
    (hsound : Sound s (.scan W irlens c)) : Consistent (s.step (.scan W irlens c)) := by
  obtain ⟨hright, hsize, hstale⟩ := hsound
  obtain ⟨hidle, hcount, hshort, hentry⟩ := jtagScan_entries hsome hissued hright hsize hstale
  have hdevices := jtagScan_devices W irlens s.proc c
  have hlen : (jtagScan W irlens s.proc c).2.2.ports.length = c.ports.length := by
    rw [← devices_length, ← devices_length, hdevices]
  rw [Probe.step]
  generalize jtagScan W irlens s.proc c = found at hidle hcount hentry hdevices hlen ⊢
  refine ⟨hidle, ?_, ?_, ?_, ?_⟩
  · rw [hlen]
    exact hshort
  · rw [hlen]
    exact hcount
  · intro l d r hl
    exact (hentry l d r (hdevices.symm.trans hl)).1
  · intro i hi hknown
    rw [hlen] at hi
    obtain ⟨l, q, r, hports, rfl⟩ := split_at hi
    have hsplit : devices c = l.map (·.device) ++ q.device :: r.map (·.device) := by
      rw [devices, hports, List.map_append, List.map_cons]
    have := (hentry _ _ _ hsplit).2
    rw [List.length_map] at this
    exact absurd this hknown

/-- An instruction changes only what the table has of the instructions. -/
theorem jtagDevWriteIr_fields (W : Behind) (p : JtagProc) (i : Nat) (ir : UInt32) (c : Chain)
    (k : Nat) :
    (jtagDevWriteIr W p i ir c).1.jtagDevs k =
      { p.jtagDevs k with
        currentIr := ((jtagDevWriteIr W p i ir c).1.jtagDevs k).currentIr } := by
  rw [jtagDevWriteIr]
  split
  · rfl
  · dsimp only
    rcases eq_or_ne k i with rfl | hne
    · rw [Function.update_self]
      split
      · rfl
      · rfl
    · rw [Function.update_of_ne hne]
      split
      · rfl
      · rfl

theorem writeIr_step {s : Probe} {W : Behind} {i : Nat} {ir : UInt32} (hs : Consistent s)
    (hissued : Issued s (.writeIr W i ir)) (hsound : Sound s (.writeIr W i ir)) :
    Consistent (s.step (.writeIr W i ir)) ∧ Selected (s.step (.writeIr W i ir)).chain i ir := by
  obtain ⟨hfill, hmark⟩ := hsound
  obtain ⟨l, q, r, hports, rfl⟩ := split_at hissued
  have hsplit : devices s.chain = l.map (·.device) ++ q.device :: r.map (·.device) := by
    rw [devices, hports, List.map_append, List.map_cons]
  by_cases hnew : ir = (s.proc.jtagDevs l.length).currentIr
  · -- The table has the instruction, and it is not the mark of an unknown one.
    have hstep : s.step (.writeIr W l.length ir) = s := by
      rw [Probe.step, jtagDevWriteIr, if_pos hnew]
    rw [hstep]
    refine ⟨hs, ?_⟩
    rw [hnew]
    apply hs.cache l.length hissued
    intro hunknown
    exact hmark ⟨hnew.trans hunknown, hunknown⟩
  · obtain ⟨hpre, hpost, hmid⟩ := hfill _ _ _ hsplit (List.length_map _)
    obtain ⟨hidle, hafter⟩ := writeIr_chain hs.idle hports (hs.entry_ports hports) hpre hpost hmid
      hnew
    have hselected : Selected (s.step (.writeIr W l.length ir)).chain l.length ir := by
      have := selected_of_ports (c := (s.step (.writeIr W l.length ir)).chain)
        (l := l.map bypass) (r := r.map bypass) (q := { q with ir := wordBits ir q.device.irLen })
        hafter rfl (by simp [bypass_bypassed]) (by simp [bypass_bypassed])
      rwa [List.length_map] at this
    have hdevices : devices (s.step (.writeIr W l.length ir)).chain = devices s.chain := by
      rw [hsplit]
      show List.map _ (jtagDevWriteIr W s.proc l.length ir s.chain).2.ports = _
      rw [hafter, List.map_append, List.map_cons, List.map_map, List.map_map]
      rfl
    have hother : ∀ j, j < s.chain.ports.length → j ≠ l.length →
        ((s.step (.writeIr W l.length ir)).proc.jtagDevs j).currentIr = unknownIr := by
      intro j hj hne
      have hlow : j < s.proc.jtagDevCount := by
        rw [hs.count]
        exact hj
      rw [Probe.step, jtagDevWriteIr, if_neg hnew]
      dsimp only
      rw [Function.update_of_ne hne, if_pos hlow]
    have hown : ((s.step (.writeIr W l.length ir)).proc.jtagDevs l.length).currentIr = ir := by
      rw [Probe.step, jtagDevWriteIr, if_neg hnew]
      dsimp only
      rw [Function.update_self]
    have hlen : (s.step (.writeIr W l.length ir)).chain.ports.length = s.chain.ports.length := by
      rw [← devices_length, ← devices_length, hdevices]
    refine ⟨⟨hidle, ?_, ?_, ?_, ?_⟩, hselected⟩
    · rw [hlen]
      exact hs.short
    · rw [hlen, ← hs.count, Probe.step, jtagDevWriteIr, if_neg hnew]
    · intro l' d r' hl'
      rw [hdevices] at hl'
      obtain ⟨h1, h2, h3, h4, h5⟩ := hs.entry l' d r' hl'
      rw [Probe.step, jtagDevWriteIr_fields]
      exact ⟨h1, h2, h3, h4, h5⟩
    · intro j hj hknown
      rcases eq_or_ne j l.length with rfl | hne
      · rw [hown]
        exact hselected
      · rw [hlen] at hj
        exact absurd (hother j hj hne) hknown

theorem update_ir (p : Port) (reg : List Bool) : (p.update reg).ir = p.ir := by
  unfold Port.update
  split
  · rfl
  · rfl

/-- Data registers have no part in which instructions are selected. -/
theorem Selected.update {c c' : Chain} {reg : List Bool} {i : Nat} {ir : UInt32}
    (h : Selected c i ir)
    (hports : c'.ports = distribute (·.captured.length) Port.update c.ports reg) :
    Selected c' i ir := by
  intro j p hp
  rw [hports, distribute_getElem?] at hp
  obtain ⟨q, hq, rfl⟩ := Option.map_eq_some_iff.mp hp
  have hj := h j q hq
  rw [update_ir, update_device, Port.Bypassed, update_ir, update_device]
  exact hj

theorem shiftDr_step {s : Probe} {W : Behind} {i : Nat} {din : List Bool} (hs : Consistent s)
    (hissued : Issued s (.shiftDr W i din)) :
    Consistent (s.step (.shiftDr W i din)) ∧
      Exchanged s.chain (s.step (.shiftDr W i din)).chain i din
        (jtagDevShiftDr W s.proc i din s.chain).1 := by
  obtain ⟨hi, hdin⟩ := hissued
  obtain ⟨l, q, r, hports, rfl⟩ := split_at hi
  have hentry := hs.entry_ports hports
  have hshort : l.length + (r.length + 1) ≤ 7 := by
    have := hs.short
    rw [hports] at this
    simpa using this
  have hl : l.length ≤ 32 := by omega
  have hr : r.length ≤ 32 := by omega
  have hchain := shiftDr_chain (W := W) hs.idle hentry hl hr hdin
  constructor
  · rw [Probe.step, hchain]
    have hdevices : ∀ reg, (distribute (·.captured.length) Port.update s.chain.ports reg).map
        (·.device) = devices s.chain := distribute_devices update_device s.chain.ports
    refine ⟨rfl, ?_, ?_, ?_, ?_⟩
    · rw [distribute_length]
      exact hs.short
    · rw [distribute_length]
      exact hs.count
    · intro l' d r' hl'
      exact hs.entry l' d r' ((hdevices _).symm.trans hl')
    · intro j hj hknown
      rw [distribute_length] at hj
      exact (hs.cache j hj hknown).update rfl
  · intro p hp hlen hothers
    rw [hports, List.getElem?_append_right (Nat.le_refl _), Nat.sub_self] at hp
    cases hp
    have hlby : ∀ p ∈ l, p.Bypassed := by
      intro p hp
      obtain ⟨k, hk, rfl⟩ := List.getElem_of_mem hp
      apply hothers k _ (by omega)
      rw [hports, List.getElem?_append_left hk, List.getElem?_eq_getElem hk]
    have hrby : ∀ p ∈ r, p.Bypassed := by
      intro p hp
      obtain ⟨k, hk, rfl⟩ := List.getElem_of_mem hp
      apply hothers (l.length + (k + 1)) _ (by omega)
      rw [hports, List.getElem?_append_right (by omega), Nat.add_sub_cancel_left,
        List.getElem?_cons_succ, List.getElem?_eq_getElem hk]
    obtain ⟨hout, hafter⟩ := shiftDr_exchanges (W := W) hs.idle hports hentry hl hr hdin hlen hlby
      hrby
    refine ⟨hout, hafter.trans ?_⟩
    rw [hports, List.set_append_right _ _ (Nat.le_refl _), Nat.sub_self]
    rfl

/-- Nothing has been found, or the table is right. -/
def Known (s : Probe) : Prop := s.chain.ports = [] ∨ Consistent s

theorem Known.cacheRight {s : Probe} (h : Known s) : CacheRight s := by
  rcases h with h | h
  · intro i p hp
    rw [h] at hp
    contradiction
  · exact h.cacheRight

theorem Known.consistent {s : Probe} {i : Nat} (h : Known s) (hi : i < s.chain.ports.length) :
    Consistent s := by
  rcases h with h | h
  · rw [h] at hi
    contradiction
  · exact h

theorem known_step {s : Probe} {op : Op} (h : Known s) (hgood : Issued s op ∧ Sound s op) :
    Known (s.step op) := by
  obtain ⟨hissued, hsound⟩ := hgood
  cases op with
  | scan W irlens c =>
    by_cases hnone : c.ports = []
    · left
      have hdevices := jtagScan_devices W irlens s.proc c
      rw [devices, devices, hnone, List.map_nil, List.map_eq_nil_iff] at hdevices
      simp only [Probe.step]
      exact hdevices
    · exact Or.inr (scan_consistent hnone hissued hsound)
  | writeIr W i ir => exact Or.inr (writeIr_step (h.consistent hissued) hissued hsound).1
  | shiftDr W i din => exact Or.inr (shiftDr_step (h.consistent hissued.1) hissued).1

/-- Every operation of a run within the limits does what it is for. -/
theorem ops_addressed {s : Probe} (h : s.chain.ports = []) {ops : List Op} {op : Op}
    (hrun : Guarded Probe.step (fun s op => Issued s op ∧ Sound s op) s (ops ++ [op])) :
    Addressed (ops.foldl Probe.step s) op := by
  have hknown := hrun.of_append.invariant (fun _ _ => known_step) (Or.inl h)
  have hlast := hrun.last
  have hnext := known_step hknown hlast
  obtain ⟨hissued, hsound⟩ := hlast
  cases op with
  | scan W irlens c => exact hnext.cacheRight
  | writeIr W i ir =>
    obtain ⟨hcons, hselected⟩ := writeIr_step (hknown.consistent hissued) hissued hsound
    exact ⟨hcons.idle, hselected, hcons.cacheRight⟩
  | shiftDr W i din =>
    obtain ⟨hcons, hexchanged⟩ := shiftDr_step (hknown.consistent hissued.1) hissued
    exact ⟨hexchanged, hcons.cacheRight⟩

/-! ## A table that outlives its scan -/

/-- A debug port and the boundary scan port of a microcontroller. -/
def debugPort : Device where
  irLen := 4
  irCapture := [true, false, false, false]
  irCapture_length := rfl
  irCapture_head := rfl
  idcode := some 0x4BA00477
  resetIr := [false, true, true, true]
  resetIr_length := rfl
  resetIr_bypass := by decide

def boundaryScan : Device where
  irLen := 5
  irCapture := [true, false, false, false, false]
  irCapture_length := rfl
  irCapture_head := rfl
  idcode := some 0x16410041
  resetIr := [true, false, false, false, false]
  resetIr_length := rfl
  resetIr_bypass := by decide

def chainOf (ds : List Device) : Chain :=
  ⟨.testLogicReset, [], ds.map fun d => ⟨d, d.resetIr, fun _ => [false]⟩⟩

/-- Ones behind the array, and zeros behind the other two. -/
def plain : Behind := ⟨fun _ => true, fun _ => false, fun _ => false⟩

/-- The memory at the start, with nothing connected. -/
def start : Probe := ⟨⟨fun _ => ⟨0, 0, 0, 0, 0, 0, 0⟩, 0⟩, chainOf []⟩

theorem ops_addressed_pair :
    Addressed ([Op.scan plain none (chainOf [debugPort, boundaryScan])].foldl Probe.step start)
      (.writeIr plain 0 0xA) := by
  apply ops_addressed rfl
  have hcount : (jtagScan plain none start.proc (chainOf [debugPort, boundaryScan])).1 = 2 := by
    decide +kernel
  have hlength : (start.step (.scan plain none (chainOf [debugPort, boundaryScan]))).chain.ports.length
      = 2 := by
    decide +kernel
  refine ⟨⟨hcount, ?_, by decide, rfl⟩, ⟨?_, ?_, ?_⟩, trivial⟩
  · intro l d r hds
    have hds' : [debugPort, boundaryScan] = l ++ d :: r := hds
    cases l with
    | nil =>
      cases hds'
      decide +kernel
    | cons a l =>
      obtain ⟨rfl, hds'⟩ := List.cons.inj hds'
      cases l with
      | nil =>
        cases hds'
        decide +kernel
      | cons b l =>
        obtain ⟨-, hds'⟩ := List.cons.inj hds'
        exact absurd hds' (by simp)
  · rw [Issued, hlength]
    exact Nat.zero_lt_two
  · intro l d r hds hl
    refine ⟨?_, ?_, ?_⟩
    · intro k hk hkl
      rfl
    · intro k hk hkr
      rfl
    · intro k hk hkd
      rfl
  · intro h
    exact absurd h.1 (by decide)

/-- After a scan of two devices one of the first alone still counts the bits of the second. -/
theorem stale_postscan :
    ¬∀ (ops : List Op) (op : Op), Guarded Probe.step Issued start (ops ++ [op]) →
      Addressed (ops.foldl Probe.step start) op := by
  intro h
  let first := Op.scan plain none (chainOf [debugPort, boundaryScan])
  let second := Op.scan plain none (chainOf [debugPort])
  have hfirst : (jtagScan plain none start.proc (chainOf [debugPort, boundaryScan])).1 = 2 := by
    decide +kernel
  have hsecond : (jtagScan plain none (start.step first).proc (chainOf [debugPort])).1 = 1 := by
    decide +kernel
  have hlength : 0 < ((start.step first).step second).chain.ports.length := by decide +kernel
  obtain ⟨-, hselected, -⟩ := h [first, second] (.writeIr plain 0 0xA)
    ⟨hfirst, hsecond, hlength, trivial⟩
  have hir : (([first, second].foldl Probe.step start).step
      (.writeIr plain 0 0xA)).chain.ports[0]?.map (·.ir) = some (List.replicate 4 true) := by
    decide +kernel
  obtain ⟨p, hp, hpir⟩ := Option.map_eq_some_iff.mp hir
  have hwrong := hselected 0 p hp
  rw [if_pos rfl, hpir] at hwrong
  have hlen := congrArg List.length hwrong
  rw [wordBits_length, List.length_replicate] at hlen
  have hbits : List.replicate 4 true ≠ wordBits 0xA 4 := by decide +kernel
  rw [← hlen] at hwrong
  exact hbits hwrong

end MiyakoLink.Jtag
