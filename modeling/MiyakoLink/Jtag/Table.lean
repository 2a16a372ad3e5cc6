import MiyakoLink.Jtag.Sequences

/-!
# The table of a scan

A scan that ends well leaves an entry for every device, numbered from the data output, with the
numbers of bits that lie before and behind its own (`scanned_entries`). It does so when the
lengths it expects are those of the devices, the instruction registers have less than 256 bits
together, and the entry of the last device had no bits behind it before the scan: the second
pass starts from that field and does not set it.
-/

namespace MiyakoLink.Jtag

open Lib

/-- The number of instruction bits of some devices. -/
def irTotal (ds : List Device) : Nat := (ds.map (·.irLen)).sum

@[simp] theorem irTotal_nil : irTotal [] = 0 := rfl

@[simp] theorem irTotal_cons (d : Device) (ds : List Device) :
    irTotal (d :: ds) = d.irLen + irTotal ds := List.sum_cons

@[simp] theorem irTotal_append (ds es : List Device) :
    irTotal (ds ++ es) = irTotal ds + irTotal es := by
  unfold irTotal
  rw [List.map_append, List.sum_append]

/-- What `ir_chain` holds after the first pass. -/
def irChainBits (ds : List Device) : List Bool :=
  (ds.flatMap (·.irCapture) ++ List.replicate 512 true).take 512

/-- The lengths that the scan takes are those of the devices. -/
def LengthsRight (W : Behind) (irlens : Option (Nat → UInt8)) (ds : List Device) : Prop :=
  ∀ l d r, ds = l ++ d :: r →
    expectedIrlen W (irChainBits ds) irlens l.length (1 + irTotal l) (d.idcode.getD 0) = d.irLen

/-- The entry of a device between those of `l` and those of `r`. -/
structure Entry (e : JtagDev) (l : List Device) (d : Device) (r : List Device) : Prop where
  irLen : e.irLen.toNat = d.irLen
  irPrescan : e.irPrescan.toNat = irTotal l
  irPostscan : e.irPostscan.toNat = irTotal r
  drPrescan : e.drPrescan.toNat = l.length
  drPostscan : e.drPostscan.toNat = r.length

/-! ## The first pass -/

theorem tdiTdoSeq_devices (final : Bool) (di : List Bool) (c : Chain) :
    devices (tdiTdoSeq final di c).2 = devices c := clocks_devices _ _

theorem readIrChain_succ (n : Nat) (c : Chain) :
    readIrChain (n + 1) c =
      ((tdiTdoSeq (n == 0) (List.replicate 32 true) c).1 ++
          (readIrChain n (tdiTdoSeq (n == 0) (List.replicate 32 true) c).2).1,
        (readIrChain n (tdiTdoSeq (n == 0) (List.replicate 32 true) c).2).2) := by
  rw [readIrChain]

theorem readIrChain_devices (n : Nat) (c : Chain) : devices (readIrChain n c).2 = devices c := by
  induction n generalizing c with
  | zero => rfl
  | succ n ih =>
    rw [readIrChain_succ]
    exact (ih _).trans (tdiTdoSeq_devices _ _ _)

theorem shiftZeros_devices (n : Nat) (c : Chain) : devices (shiftZeros n c) = devices c := by
  induction n generalizing c with
  | zero => rfl
  | succ n ih => exact (ih _).trans (clocks_devices _ _)

theorem countDevices_zero (c : Chain) : countDevices 0 c = (0, (c.clock false true).2) :=
  ite_self _

theorem countDevices_succ (n : Nat) (c : Chain) :
    countDevices (n + 1) c =
      if (c.clock false true).1 then (0, (c.clock false true).2)
      else ((countDevices n (c.clock false true).2).1 + 1,
        (countDevices n (c.clock false true).2).2) :=
  rfl

theorem countDevices_devices (n : Nat) (c : Chain) : devices (countDevices n c).2 = devices c := by
  induction n generalizing c with
  | zero =>
    rw [countDevices_zero]
    exact clock_devices _ _ _
  | succ n ih =>
    rw [countDevices_succ]
    split
    · exact clock_devices _ _ _
    · exact (ih _).trans (clock_devices _ _ _)

theorem countDevices_le (n : Nat) (c : Chain) : (countDevices n c).1 ≤ n := by
  induction n generalizing c with
  | zero =>
    exact Nat.le_of_eq (congrArg Prod.fst (countDevices_zero c))
  | succ n ih =>
    rw [countDevices_succ]
    split
    · exact Nat.zero_le _
    · exact Nat.succ_le_succ (ih _)

/-- The words read are what the registers captured, followed by the ones shifted in. -/
theorem readIrChain_bits (n : Nat) {c : Chain} (h : c.tap = .shiftIr) :
    (readIrChain n c).1 = (c.reg ++ List.replicate (32 * n) true).take (32 * n) := by
  induction n generalizing c with
  | zero => rfl
  | succ n ih =>
    have hshift := tdiTdoSeq_shift (Or.inr h) (n == 0) (List.replicate 32 true)
    have hlen : 32 ≤ (c.reg ++ List.replicate 32 true).length := by simp
    rw [readIrChain_succ, hshift, List.length_replicate]
    cases n with
    | zero => exact List.append_nil _
    | succ n =>
      have htap : c.tap.next (n + 1 == 0) = .shiftIr := by
        rw [h]
        rfl
      have hsum : 32 * (n + 1 + 1) = 32 + 32 * (n + 1) := by omega
      rw [ih (by simpa using htap)]
      dsimp only
      rw [hsum, List.take_add, ← List.replicate_append_replicate, ← List.append_assoc,
        List.take_append_of_le_length hlen, List.drop_append_of_le_length hlen]

theorem foldr_testBit (v n : Nat) :
    ((List.range n).map v.testBit).foldr (fun b m => b.toNat + 2 * m) 0 = v % 2 ^ n := by
  induction n generalizing v with
  | zero => rw [Nat.pow_zero, Nat.mod_one]; rfl
  | succ n ih =>
    have hhalf : (List.range n).map (v.testBit ∘ Nat.succ) = (List.range n).map (v / 2).testBit := by
      apply List.map_congr_left
      intro k _
      exact Nat.testBit_succ v k
    rw [List.range_succ_eq_map, List.map_cons, List.map_map, hhalf, List.foldr_cons, ih,
      Nat.pow_succ', Nat.mod_mul, Nat.testBit_zero]
    rcases Nat.mod_two_eq_zero_or_one v with hv | hv
    · simp [hv]
    · simp [hv]

@[simp] theorem wordBits_length (v : UInt32) (n : Nat) : (wordBits v n).length = n := by
  rw [wordBits, List.length_map, List.length_range]

theorem ofBits_wordBits (v : UInt32) : ofBits (wordBits v 32) = v := by
  rw [ofBits, wordBits, foldr_testBit, Nat.mod_eq_of_lt v.toNat_lt]
  exact UInt32.ofNat_toNat

/-- After a reset the register of a device with an identification holds it, and one without
holds a zero. -/
theorem captured_reset {p : Port} (h : p.ir = p.device.resetIr) :
    p.captured =
      match p.device.idcode with
      | some v => wordBits v 32
      | none => [false] := by
  have hbypass : p.Bypassed ↔ p.device.idcode = none := by
    rw [Port.Bypassed, h]
    exact p.device.resetIr_bypass
  cases hid : p.device.idcode with
  | none => rw [Port.captured, if_pos (hbypass.mpr hid)]
  | some v =>
    have hno : ¬p.Bypassed := by
      rw [hbypass, hid]
      simp
    rw [Port.captured, if_neg hno, hid]
    exact if_pos h

/-- What the pass over the devices writes into an entry. -/
def scannedEntry (numDevices : Nat) (old : JtagDev) (i j : Nat) (d : Device) : JtagDev :=
  { old with
    irLen := UInt8.ofNat d.irLen
    irPrescan := UInt8.ofNat j
    drPrescan := UInt8.ofNat i
    jdIdcode := d.idcode.getD 0
    drPostscan := UInt8.ofNat (numDevices - i - 1)
    currentIr := unknownIr }

theorem scanDevs_succ (W : Behind) (bits : List Bool) (irlens : Option (Nat → UInt8))
    (numDevices n i irbit j : Nat) (devs : Nat → JtagDev) {c c' : Chain} {id : List Bool}
    (hid : tdiTdoSeq false (List.replicate 32 true) c = (id, c')) :
    scanDevs W bits irlens numDevices (n + 1) i irbit j devs c =
      if id.headD false = false then (false, devs, c')
      else if designer (ofBits id) = designerXilinx ∧ irlens.isNone then (false, devs, c')
      else
        scanDevs W bits irlens numDevices n (i + 1)
          (irbit + expectedIrlen W bits irlens i irbit (ofBits id))
          (j + expectedIrlen W bits irlens i irbit (ofBits id))
          (Function.update devs i { devs i with
            irLen := UInt8.ofNat (expectedIrlen W bits irlens i irbit (ofBits id))
            irPrescan := UInt8.ofNat j
            drPrescan := UInt8.ofNat i
            jdIdcode := ofBits id
            drPostscan := UInt8.ofNat (numDevices - i - 1)
            currentIr := unknownIr }) c' := by
  rw [scanDevs, hid]

theorem scanDevs_devices (W : Behind) (bits : List Bool) (irlens : Option (Nat → UInt8))
    (numDevices n i irbit j : Nat) (devs : Nat → JtagDev) (c : Chain) :
    devices (scanDevs W bits irlens numDevices n i irbit j devs c).2.2 = devices c := by
  induction n generalizing i irbit j devs c with
  | zero => rfl
  | succ n ih =>
    have hkeep := tdiTdoSeq_devices false (List.replicate 32 true) c
    rw [scanDevs_succ W bits irlens numDevices n i irbit j devs rfl]
    split
    · exact hkeep
    · split
      · exact hkeep
      · exact (ih _ _ _ _ _).trans hkeep

/-- A pass over `rest`, behind `pre`, that reaches its end. -/
theorem scanDevs_spec {W : Behind} {irlens : Option (Nat → UInt8)} {numDevices : Nat}
    {ds : List Device} (hright : LengthsRight W irlens ds) {rest : List Port}
    (hrest : ∀ p ∈ rest, p.ir = p.device.resetIr) (pre : List Device)
    (hds : ds = pre ++ rest.map (·.device)) {tail : List Bool} {ports : List Port}
    {devs T : Nat → JtagDev} {c' : Chain}
    (h : scanDevs W (irChainBits ds) irlens numDevices rest.length pre.length (1 + irTotal pre)
      (irTotal pre) devs ⟨.shiftDr, rest.flatMap Port.captured ++ tail, ports⟩ = (true, T, c')) :
    (∀ k, k < pre.length → T k = devs k) ∧
      ∀ l d r, rest.map (·.device) = l ++ d :: r →
        T (pre.length + l.length) = scannedEntry numDevices (devs (pre.length + l.length))
          (pre.length + l.length) (irTotal (pre ++ l)) d := by
  induction rest generalizing pre tail devs with
  | nil =>
    cases h
    refine ⟨fun _ _ => rfl, ?_⟩
    intro l d r hl
    cases l with
    | nil => contradiction
    | cons a l => contradiction
  | cons p rest ih =>
    have hreset := captured_reset (hrest p (List.mem_cons_self ..))
    have hshift := tdiTdoSeq_shift
      (c := ⟨.shiftDr, (p :: rest).flatMap Port.captured ++ tail, ports⟩) (Or.inl rfl) false
      (List.replicate 32 true)
    rw [List.length_cons] at h
    cases hid : p.device.idcode with
    | none =>
      rw [hid] at hreset
      rw [scanDevs_succ _ _ _ _ _ _ _ _ _ hshift, List.flatMap_cons, hreset] at h
      simp at h
    | some v =>
      rw [hid] at hreset
      have hbits : ((p :: rest).flatMap Port.captured ++ tail ++ List.replicate 32 true).take 32 =
          wordBits v 32 := by
        rw [List.flatMap_cons, hreset, List.append_assoc, List.append_assoc]
        exact List.take_left' (wordBits_length v 32)
      have hleft : ((p :: rest).flatMap Port.captured ++ tail ++ List.replicate 32 true).drop 32 =
          rest.flatMap Port.captured ++ (tail ++ List.replicate 32 true) := by
        rw [List.flatMap_cons, hreset, List.append_assoc, List.append_assoc]
        exact List.drop_left' (wordBits_length v 32)
      have hexpected : expectedIrlen W (irChainBits ds) irlens pre.length (1 + irTotal pre) v =
          p.device.irLen := by
        have hsplit : ds = pre ++ p.device :: rest.map (·.device) := hds
        have := hright _ _ _ hsplit
        rwa [hid] at this
      rw [scanDevs_succ _ _ _ _ _ _ _ _ _ hshift] at h
      dsimp only at h
      rw [List.length_replicate, hbits, hleft, ofBits_wordBits, hexpected] at h
      split at h
      · cases h
      · split at h
        · cases h
        · have hlen : (pre ++ [p.device]).length = pre.length + 1 := by simp
          have htotal : irTotal (pre ++ [p.device]) = irTotal pre + p.device.irLen := by simp
          rw [← hlen, Nat.add_assoc, ← htotal] at h
          obtain ⟨hbelow, hrows⟩ := ih (fun q hq => hrest q (List.mem_cons_of_mem _ hq)) _
            (by rw [hds]; simp) h
          constructor
          · intro k hk
            rw [hbelow k (by omega), Function.update_of_ne (by omega)]
          · intro l d r hl
            cases l with
            | nil =>
              obtain ⟨rfl, rfl⟩ := List.cons.inj hl
              rw [List.length_nil, Nat.add_zero, List.append_nil, hbelow _ (by omega),
                Function.update_self, scannedEntry, hid]
              rfl
            | cons a l =>
              obtain ⟨rfl, htail⟩ := List.cons.inj hl
              have hrow := hrows l d r htail
              have hindex : (pre ++ [p.device]).length + l.length =
                  pre.length + (p.device :: l).length := by
                simp
                omega
              rw [hindex, Function.update_of_ne (by simp), List.append_assoc] at hrow
              exact hrow

/-! ## The second pass -/

theorem fillPostscan_succ (n : Nat) (devs : Nat → JtagDev) :
    fillPostscan (n + 1) devs =
      fillPostscan n (Function.update devs n { devs n with
        irPostscan := (devs (n + 1)).irPostscan + (devs (n + 1)).irLen }) :=
  rfl

theorem fillPostscan_above {n k : Nat} (h : n ≤ k) (devs : Nat → JtagDev) :
    fillPostscan n devs k = devs k := by
  induction n generalizing devs with
  | zero => rfl
  | succ n ih =>
    rw [fillPostscan_succ, ih (by omega), Function.update_of_ne (by omega)]

/-- Only the numbers of bits behind are filled in. -/
theorem fillPostscan_fields (n k : Nat) (devs : Nat → JtagDev) :
    fillPostscan n devs k =
      { devs k with irPostscan := (fillPostscan n devs k).irPostscan } := by
  induction n generalizing devs with
  | zero => rfl
  | succ n ih =>
    rw [fillPostscan_succ, ih]
    rcases eq_or_ne k n with rfl | hne
    · rw [Function.update_self]
    · rw [Function.update_of_ne hne]

theorem fillPostscan_step {n k : Nat} (h : k < n) (devs : Nat → JtagDev) :
    (fillPostscan n devs k).irPostscan =
      (fillPostscan n devs (k + 1)).irPostscan + (fillPostscan n devs (k + 1)).irLen := by
  induction n generalizing devs with
  | zero => omega
  | succ n ih =>
    rw [fillPostscan_succ]
    rcases Nat.lt_succ_iff_lt_or_eq.mp h with hlt | rfl
    · exact ih hlt _
    · rw [fillPostscan_above (Nat.le_refl k), fillPostscan_above (Nat.le_succ k),
        Function.update_self, Function.update_of_ne (by omega)]

/-- When the entry of the last device has no bits behind it, every entry gets the number of
those of the devices behind its own. -/
theorem fillPostscan_spec {T : Nat → JtagDev} {ds : List Device}
    (hstale : (T (ds.length - 1)).irPostscan = 0)
    (hlen : ∀ l d r, ds = l ++ d :: r → (T l.length).irLen = UInt8.ofNat d.irLen)
    {l : List Device} {d : Device} {r : List Device} (hds : ds = l ++ d :: r) :
    (fillPostscan (ds.length - 1) T l.length).irPostscan = UInt8.ofNat (irTotal r) := by
  induction r generalizing l d with
  | nil =>
    have hlast : ds.length - 1 = l.length := by
      rw [hds]
      simp
    rw [fillPostscan_above (Nat.le_of_eq hlast), ← hlast, hstale]
    rfl
  | cons e r ih =>
    have hsplit : ds = (l ++ [d]) ++ e :: r := by
      rw [hds]
      simp
    have hnext : (l ++ [d]).length = l.length + 1 := by simp
    have hbehind := ih hsplit
    have hown := hlen _ _ _ hsplit
    rw [hnext] at hbehind hown
    have hlt : l.length < ds.length - 1 := by
      rw [hds]
      simp
    rw [fillPostscan_step hlt, hbehind, fillPostscan_fields, hown, irTotal_cons, Nat.add_comm,
      UInt8.ofNat_add]

/-! ## The scan -/

/-- The registers are reset and `ir_chain` is read. -/
def irPass (c : Chain) : List Bool × Chain := readIrChain loops (shiftIr (softReset (jtagtapInit c)))

/-- Every device is put in bypass and the zeros are counted. -/
def countPass (c : Chain) : Nat × Chain := countDevices 7 (shiftZeros loops (shiftDr (returnIdle c)))

theorem irPass_eq (c : Chain) : ∃ bits b, irPass c = (bits, b) := ⟨_, _, (Prod.eta _).symm⟩

theorem countPass_eq (c : Chain) : ∃ n d, countPass c = (n, d) := ⟨_, _, (Prod.eta _).symm⟩

theorem jtagScan_eq (W : Behind) (irlens : Option (Nat → UInt8)) (p : JtagProc) {c b d : Chain}
    {bits : List Bool} {n : Nat} (hir : irPass c = (bits, b)) (hcount : countPass b = (n, d)) :
    jtagScan W irlens p c =
      if bits.headD false = false then (0, p, b)
      else if n = 0 then (0, { p with jtagDevCount := n }, shiftDr (softReset d))
      else
        match scanDevs W bits irlens n n 0 1 0 p.jtagDevs (shiftDr (softReset d)) with
        | (false, devs, c) => (0, { jtagDevs := devs, jtagDevCount := n }, c)
        | (true, devs, c) =>
          (n, { jtagDevs := fillPostscan (n - 1) devs, jtagDevCount := n }, softReset c) := by
  rw [irPass] at hir
  rw [countPass] at hcount
  rw [jtagScan, hir]
  dsimp only
  rewrite [hcount]
  generalize scanDevs W bits irlens n n 0 1 0 p.jtagDevs (shiftDr (softReset d)) = r
  obtain ⟨ok, devs, c⟩ := r
  cases ok with
  | false => rfl
  | true => rfl

theorem softReset_devices (c : Chain) : devices (softReset c) = devices c := clocks_devices _ _

theorem shiftDr_devices (c : Chain) : devices (shiftDr c) = devices c := clocks_devices _ _

theorem returnIdle_devices (c : Chain) : devices (returnIdle c) = devices c := clocks_devices _ _

theorem jtagtapInit_devices (c : Chain) : devices (jtagtapInit c) = devices c := by
  unfold jtagtapInit
  dsimp only
  rw [softReset_devices]
  exact (clocks_devices _ _).trans (clocks_devices _ _)

/-- The first pass reads what the instruction registers capture. -/
theorem irPass_spec (c : Chain) :
    (irPass c).1 = irChainBits (devices c) ∧ devices (irPass c).2 = devices c := by
  obtain ⟨htap, hdevices, -⟩ := softReset_spec (jtagtapInit c)
  have hshift := shiftIr_idle htap
  rw [jtagtapInit_devices] at hdevices
  unfold irPass
  constructor
  · have hbits := readIrChain_bits loops (c := shiftIr (softReset (jtagtapInit c))) (by rw [hshift])
    have hloops : 32 * loops = 512 := rfl
    rw [hbits, hloops, hshift, irChainBits, ← hdevices, devices, List.flatMap_map]
  · rw [readIrChain_devices, ← hdevices]
    exact clocks_devices _ _

theorem countPass_devices (c : Chain) : devices (countPass c).2 = devices c := by
  unfold countPass
  rw [countDevices_devices, shiftZeros_devices, shiftDr_devices, returnIdle_devices]

theorem countPass_le (c : Chain) : (countPass c).1 ≤ 7 := countDevices_le 7 _

theorem jtagScan_devices (W : Behind) (irlens : Option (Nat → UInt8)) (p : JtagProc) (c : Chain) :
    devices (jtagScan W irlens p c).2.2 = devices c := by
  obtain ⟨-, hb⟩ := irPass_spec c
  obtain ⟨bits, b, hir⟩ := irPass_eq c
  obtain ⟨n, d, hcount⟩ := countPass_eq b
  have hd := countPass_devices b
  rw [hir] at hb
  rw [hcount] at hd
  have hstart : devices (shiftDr (softReset d)) = devices c := by
    rw [shiftDr_devices, softReset_devices]
    exact hd.trans hb
  have hscan := scanDevs_devices W bits irlens n n 0 1 0 p.jtagDevs (shiftDr (softReset d))
  rw [jtagScan_eq W irlens p hir hcount]
  split
  · exact hb
  · split
    · exact hstart
    · split
      · next heq =>
        rw [heq] at hscan
        exact hscan.trans hstart
      · next heq =>
        rw [heq] at hscan
        dsimp only
        rw [softReset_devices]
        exact hscan.trans hstart

theorem toNat_ofNat_of_lt {n : Nat} (h : n < 256) : (UInt8.ofNat n).toNat = n := by
  rw [UInt8.toNat_ofNat', Nat.mod_eq_of_lt h]

/-- The entries of a whole pass, with the second pass over them. -/
theorem filled_entries (devs : Nat → JtagDev) {T : Nat → JtagDev} {ds : List Device} (hshort : ds.length ≤ 7)
    (hsize : irTotal ds < 256) (hstale : (devs (ds.length - 1)).irPostscan = 0)
    (hrows : ∀ l d r, ds = l ++ d :: r →
      T l.length = scannedEntry ds.length (devs l.length) l.length (irTotal l) d)
    {l : List Device} {d : Device} {r : List Device} (hds : ds = l ++ d :: r) :
    Entry (fillPostscan (ds.length - 1) T l.length) l d r ∧
      (fillPostscan (ds.length - 1) T l.length).currentIr = unknownIr := by
  have hlast : (T (ds.length - 1)).irPostscan = 0 := by
    obtain ⟨e, last, hlast⟩ : ∃ e last, ds = e ++ [last] :=
      ⟨ds.dropLast, ds.getLast (by rw [hds]; simp), (List.dropLast_concat_getLast _).symm⟩
    have hindex : ds.length - 1 = e.length := by
      rw [hlast]
      simp
    rw [hindex] at hstale ⊢
    rw [hrows e last [] hlast]
    exact hstale
  have hbehind := fillPostscan_spec hlast
    (fun l d r h => by rw [hrows l d r h, scannedEntry]) hds
  have htotal : irTotal l + (d.irLen + irTotal r) < 256 := by
    rw [hds, irTotal_append, irTotal_cons] at hsize
    exact hsize
  have hcount : ds.length = l.length + (r.length + 1) := by
    rw [hds]
    simp
  rw [fillPostscan_fields, hbehind, hrows l d r hds, scannedEntry]
  refine ⟨⟨?_, ?_, ?_, ?_, ?_⟩, rfl⟩
  · exact toNat_ofNat_of_lt (by omega)
  · exact toNat_ofNat_of_lt (by omega)
  · exact toNat_ofNat_of_lt (by omega)
  · exact toNat_ofNat_of_lt (by omega)
  · dsimp only
    rw [toNat_ofNat_of_lt (by omega)]
    omega

/-- A scan that returns the number of the devices, at least one. -/
theorem jtagScan_entries {W : Behind} {irlens : Option (Nat → UInt8)} {p : JtagProc} {c : Chain}
    (hsome : c.ports ≠ []) (hcount : (jtagScan W irlens p c).1 = c.ports.length)
    (hright : LengthsRight W irlens (devices c)) (hsize : irTotal (devices c) < 256)
    (hstale : (p.jtagDevs (c.ports.length - 1)).irPostscan = 0) :
    (jtagScan W irlens p c).2.2.tap = .runTestIdle ∧
      (jtagScan W irlens p c).2.1.jtagDevCount = c.ports.length ∧ c.ports.length ≤ 7 ∧
      ∀ l d r, devices c = l ++ d :: r →
        Entry ((jtagScan W irlens p c).2.1.jtagDevs l.length) l d r ∧
          ((jtagScan W irlens p c).2.1.jtagDevs l.length).currentIr = unknownIr := by
  obtain ⟨hbits, hb⟩ := irPass_spec c
  obtain ⟨bits, b, hir⟩ := irPass_eq c
  obtain ⟨n, d, hnum⟩ := countPass_eq b
  have hd := countPass_devices b
  have hseven := countPass_le b
  rw [hir] at hb hbits
  rw [hnum] at hd hseven
  dsimp only at hbits hseven
  obtain ⟨htap, hdevices, hreset⟩ := softReset_spec d
  have hpos : 0 < c.ports.length := List.length_pos_iff.mpr hsome
  rw [jtagScan_eq W irlens p hir hnum] at hcount ⊢
  split at hcount
  · exact absurd hcount (by omega)
  · next hone =>
    rw [if_neg hone]
    split at hcount
    · exact absurd hcount (by omega)
    · next hzero =>
      rw [if_neg hzero]
      have hlen : c.ports.length = (softReset d).ports.length := by
        rw [← devices_length, ← devices_length, hdevices, hd, hb]
      have hds : devices c = (softReset d).ports.map (·.device) := by
        rw [← devices, hdevices, hd, hb]
      split at hcount
      · exact absurd hcount (by omega)
      · next devs c' hscan =>
        dsimp only at hcount
        have hreg : shiftDr (softReset d) =
            ⟨.shiftDr, (softReset d).ports.flatMap Port.captured ++ [], (softReset d).ports⟩ := by
          rw [shiftDr_idle htap, List.append_nil]
        rw [hbits, hreg, hcount, hlen] at hscan
        dsimp only
        obtain ⟨-, hrows⟩ := scanDevs_spec hright hreset [] hds hscan
        refine ⟨(softReset_spec c').1, hcount, by omega, ?_⟩
        intro l dev r hl
        rw [hcount, ← devices_length]
        apply filled_entries p.jtagDevs
        · rw [devices_length]
          omega
        · exact hsize
        · rw [devices_length]
          exact hstale
        · intro l dev r hl
          have hrow := hrows l dev r (hds.symm.trans hl)
          rw [List.length_nil, Nat.zero_add, List.nil_append, ← hlen, ← devices_length] at hrow
          exact hrow
        · exact hl

end MiyakoLink.Jtag
