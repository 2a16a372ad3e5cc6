import MiyakoLink.Jtag.Table

/-!
# What `jtag_scan` accesses

The scan over any bits on TDO, with the elements of its arrays that it reads and writes. Only the
bits that it looks at are counted: those of `ir_chain`, those of the count, and the identification
codes. The loop that guesses a length runs on fuel. `cmd_jtag_scan` passes the lengths typed behind
the command and a zero (`irlensOf`).

* `tdoScan_of_chain`: on the bits that a chain answers, it is the scan of that chain.
* `staysInside_iff_fits`: the bits and the lists for which the scan stays inside of its arrays and of the
  list, and gives no accepted device the length zero.
-/

namespace MiyakoLink.Jtag

open Lib

abbrev jtagMaxDevs : Nat := 32

/-- An element of `ir_chain`, `jd_handlers`, `jtag_devs` or of the list of lengths. -/
inductive Element where
  | irChain (k : Nat)
  | jdHandlers (k : Nat)
  | jtagDevs (k : Nat)
  | irlens (k : Nat)
  deriving DecidableEq

/-- Is it inside of the array? The list has its zero at `n`. -/
def Element.Inside (n : Nat) : Element → Prop
  | .irChain k => k < 64
  | .jdHandlers k => k < jtagMaxDevs
  | .jtagDevs k => k < jtagMaxDevs + 1
  | .irlens k => k ≤ n

instance (n : Nat) : (e : Element) → Decidable (e.Inside n)
  | .irChain k => inferInstanceAs (Decidable (k < 64))
  | .jdHandlers k => inferInstanceAs (Decidable (k < jtagMaxDevs))
  | .jtagDevs k => inferInstanceAs (Decidable (k < jtagMaxDevs + 1))
  | .irlens k => inferInstanceAs (Decidable (k ≤ n))

/-! ## The bits on TDO -/

/-- The bits on TDO that the scan looks at, in order. -/
abbrev Tdo := Nat → Bool

namespace Tdo

def take (t : Tdo) (n : Nat) : List Bool := (List.range n).map t

def drop (t : Tdo) (n : Nat) : Tdo := fun k => t (n + k)

def idcode (t : Tdo) : UInt32 := ofBits (t.take 32)

/-- The zeros before the first one, which ends the loop, as does the eighth zero. -/
def countDevices : Nat → Tdo → Nat × Tdo
  | 0, t => (0, t.drop 1)
  | i + 1, t =>
    if t 0 then (0, t.drop 1)
    else
      let (n, t) := countDevices i (t.drop 1)
      (n + 1, t)

end Tdo

/-! ## The scan -/

/-- What the loop that guesses a length reads, and the length. -/
def guess (W : Behind) (irChain : List Bool) : Nat → Nat → Option (List Element × Nat)
  | 0, _ => none
  | fuel + 1, advance =>
    if chainBit W irChain advance ∨ 512 ≤ advance + 1 then some ([.irChain (advance / 8)], 1)
    else do
      let (reads, guessed) ← guess W irChain fuel (advance + 1)
      return (.irChain (advance / 8) :: reads, guessed + 1)

structure Scanned where
  accesses : List Element
  accepted : Bool
  devs : Nat → JtagDev

/-- Is a handler set for the device? -/
def handled (idcode : UInt32) : Bool := designer idcode == 0x43B && product idcode == 0xBA0

/-- `expected_irlen` in the end, for a guess. -/
def lengthFrom (irlens : Option (Nat → UInt8)) (i : Nat) (idcode : UInt32) (guessed : Nat) : Nat :=
  -- Allow to overwrite from the command line!
  let expected := match irlens with
    | some irlens => (irlens i).toNat
    | none => knownIrlen idcode
  if expected = 0 then guessed else expected

/-- The entry for device `i`. -/
def devEntry (numDevices i j expected : Nat) (idcode : UInt32) (old : JtagDev) : JtagDev :=
  { old with
    irLen := UInt8.ofNat expected
    irPrescan := UInt8.ofNat j
    drPrescan := UInt8.ofNat i
    jdIdcode := idcode
    drPostscan := UInt8.ofNat (numDevices - i - 1)
    currentIr := unknownIr }

/-- What is accessed for device `i`, in whose turn the guess reads `reads`. -/
def deviceAccesses (given : Bool) (i : Nat) (idcode : UInt32) (reads : List Element) :
    List Element :=
  (if handled idcode then [.jtagDevs i, .jdHandlers i] else [.jtagDevs i]) ++ reads ++
    (if given then [.irlens i] else []) ++ [.jtagDevs i, .jdHandlers i]

def scanTdo (W : Behind) (irChain : List Bool) (irlens : Option (Nat → UInt8))
    (numDevices fuel : Nat) : Nat → Nat → Nat → Nat → (Nat → JtagDev) → Tdo → Option Scanned
  | 0, _, _, _, devs, _ => some ⟨[], true, devs⟩
  | n + 1, i, irbit, j, devs, t =>
    let idcode := t.idcode
    if t 0 = false then some ⟨[], false, devs⟩
    else if designer idcode = designerXilinx ∧ irlens.isNone then some ⟨[], false, devs⟩
    else do
      let (reads, guessed) ← guess W irChain fuel irbit
      let expected := lengthFrom irlens i idcode guessed
      let devs := Function.update devs i (devEntry numDevices i j expected idcode (devs i))
      let rest ← scanTdo W irChain irlens numDevices fuel n (i + 1) (irbit + expected)
        (j + expected) devs (t.drop 32)
      return { rest with
        accesses := deviceAccesses irlens.isSome i idcode reads ++ rest.accesses }

/-- The elements for the loop over the `ir_postscan` fields. -/
def postscanAccesses : Nat → List Element
  | 0 => []
  | i + 1 => [.jtagDevs i, .jtagDevs (i + 1)] ++ postscanAccesses i

def handlerAccesses (numDevices : Nat) : List Element :=
  (List.range numDevices).flatMap fun i => [.jdHandlers i, .jtagDevs i]

/-- A scan: what it accesses, the number it returns and the table. -/
structure Scan where
  accesses : List Element
  returned : Nat
  proc : JtagProc

/-- `jtag_scan`. -/
def tdoScan (W : Behind) (irlens : Option (Nat → UInt8)) (fuel : Nat) (p : JtagProc) (t : Tdo) :
    Option Scan :=
  let irChain := t.take 512
  let first := (List.range 64).map .irChain ++ [.irChain 0]
  if t 0 = false then some ⟨first, 0, p⟩
  else
    let (numDevices, t) := (t.drop 512).countDevices 7
    let p := { p with jtagDevCount := numDevices }
    if numDevices = 0 then some ⟨first, 0, p⟩
    else do
      let r ← scanTdo W irChain irlens numDevices fuel numDevices 0 1 0 p.jtagDevs t
      if r.accepted then
        return ⟨first ++ r.accesses ++ postscanAccesses (numDevices - 1) ++
          handlerAccesses numDevices, numDevices,
          { p with jtagDevs := fillPostscan (numDevices - 1) r.devs }⟩
      else return ⟨first ++ r.accesses, 0, { p with jtagDevs := r.devs }⟩

/-- `irlens` of `cmd_jtag_scan`, for the values of the words behind the command. It is an array of
as many elements and one for the zero. -/
def irlensOf (behind : Nat → UInt8) (typed : List Int) : Option (Nat → UInt8) :=
  if typed = [] then none
  else
    some fun i =>
      if i = typed.length then 0 else ((typed[i]?).map UInt8.ofInt).getD (behind i)

/-- `cmd_jtag_scan`, which scans with the list or without one. -/
def cmdJtagScan (W : Behind) (behind : Nat → UInt8) (typed : List Int) (fuel : Nat) (p : JtagProc)
    (t : Tdo) : Option Scan := do
  let r ← tdoScan W (irlensOf behind typed) fuel p t
  return { r with
    accesses := (if typed = [] then [] else (List.range (typed.length + 1)).map .irlens) ++ r.accesses }

/-! ## The condition -/

/-- The scan ends, accesses nothing outside of its arrays and of the list, and every device that
it accepts has a length of at least 1. -/
def StaysInside (W : Behind) (behind : Nat → UInt8) (typed : List Int) (p : JtagProc) (t : Tdo) :
    Prop :=
  ∃ r : Scan, (∀ fuel, 512 ≤ fuel → cmdJtagScan W behind typed fuel p t = some r) ∧
    (∀ e ∈ r.accesses, e.Inside typed.length) ∧
    ∀ i < r.returned, 1 ≤ (r.proc.jtagDevs i).irLen.toNat

/-- What the bits say of a chain: what `ir_chain` holds, the number of devices, which is that of
the zeros if the first scan is answered, and the identification codes. -/
structure Answers where
  irChain : List Bool
  count : Nat
  ids : Nat → UInt32

def Tdo.answers (t : Tdo) : Answers where
  irChain := t.take 512
  count := if t 0 then ((t.drop 512).countDevices 7).1 else 0
  ids k := (((t.drop 512).countDevices 7).2.drop (32 * k)).idcode

/-- The bits from `start` to the next one, or to the end of `ir_chain`. -/
def captureLength (irChain : List Bool) (start : Nat) : Nat :=
  min (((irChain.drop start).takeWhile fun bit => !bit).length + 1) (512 - start)

namespace Answers

variable (A : Answers) (typed : List Int)

/-- The length of device `i`, whose capture begins before bit `start`: the one typed, that of a
known device if there is no list, or the bits up to the next one. -/
def irLength (i start : Nat) : Nat :=
  let known := if typed = [] then knownIrlen (A.ids i) else ((typed.getD i 0) % 256).toNat
  if known = 0 then captureLength A.irChain start else known

/-- The bit of `ir_chain` behind the first one of device `i`. -/
def irStart : Nat → Nat
  | 0 => 1
  | i + 1 => irStart i + A.irLength typed i (irStart i)

/-- The device has an identification, and one of Xilinx comes with a list. -/
def Identified (i : Nat) : Prop :=
  (A.ids i).toNat % 2 = 1 ∧ (designer (A.ids i) = designerXilinx → typed ≠ [])

/-- The scan gets to a length for device `i`. -/
def Reached (i : Nat) : Prop := i < A.count ∧ ∀ k ≤ i, A.Identified typed k

/-- The devices that the scan reaches begin inside of `ir_chain`, and are at most one more than
the values typed. If it reaches all, no length is 256. -/
structure Fits : Prop where
  start : ∀ i, A.Reached typed i → A.irStart typed i < 512
  list : typed ≠ [] → ∀ i, A.Reached typed i → i ≤ typed.length
  length : (∀ i < A.count, A.Identified typed i) →
    ∀ i < A.count, A.irLength typed i (A.irStart typed i) ≠ 256

end Answers

/-! ## Guessing a length -/

theorem captureLength_one {bits : List Bool} {k : Nat} (hlen : bits.length = 512) (hk : k < 512)
    (hbit : bits[k] = true) : captureLength bits k = 1 := by
  unfold captureLength
  rw [List.drop_eq_getElem_cons (by omega), hbit, List.takeWhile_cons_of_neg (by simp)]
  show min 1 (512 - k) = 1
  omega

theorem captureLength_last {bits : List Bool} : captureLength bits 511 = 1 := by
  unfold captureLength
  omega

theorem captureLength_zero {bits : List Bool} {k : Nat} (hlen : bits.length = 512) (hk : k < 511)
    (hbit : bits[k] = false) :
    captureLength bits k = captureLength bits (k + 1) + 1 := by
  unfold captureLength
  rw [List.drop_eq_getElem_cons (by omega), hbit, List.takeWhile_cons_of_pos (by rfl),
    List.length_cons]
  omega

/-- The length that the loop finds from bit `k`. It looks at one bit at least. -/
def guessLength (bits : List Bool) (k : Nat) : Nat := if k < 512 then captureLength bits k else 1

/-- The loop ends, after the bits of the capture. -/
theorem guess_ends (W : Behind) {bits : List Bool} (hlen : bits.length = 512) {fuel k : Nat}
    (hfuel : 0 < fuel) (hend : 512 ≤ fuel + k) :
    guess W bits fuel k =
      some ((List.range (guessLength bits k)).map fun m => .irChain ((k + m) / 8),
        guessLength bits k) := by
  induction fuel generalizing k with
  | zero => omega
  | succ fuel ih =>
    unfold guess
    by_cases hin : k < 512
    · have hbit : chainBit W bits k = bits[k] := by
        unfold chainBit
        rw [if_pos hin, List.getD_eq_getElem?_getD, List.getElem?_eq_getElem (by omega), Option.getD_some]
      cases hb : bits[k] with
      | true =>
        have hone : guessLength bits k = 1 := by
          rw [guessLength, if_pos hin, captureLength_one hlen hin hb]
        rw [if_pos (Or.inl (hbit.trans hb)), hone]
        rfl
      | false =>
        by_cases hlast : k = 511
        · have hone : guessLength bits k = 1 := by
            rw [guessLength, if_pos hin, hlast, captureLength_last]
          rw [if_pos (Or.inr (by omega)), hone]
          rfl
        · have hsucc : guessLength bits k = guessLength bits (k + 1) + 1 := by
            rw [guessLength, guessLength, if_pos hin, if_pos (by omega),
              captureLength_zero hlen (by omega) hb]
          have hgo : ¬(chainBit W bits k = true ∨ 512 ≤ k + 1) := by
            rw [hbit, hb]
            exact not_or.mpr ⟨nofun, by omega⟩
          rw [if_neg hgo, ih (by omega) (by omega), hsucc, List.range_succ_eq_map, List.map_cons,
            List.map_map]
          have hreads : (fun m => Element.irChain ((k + 1 + m) / 8)) =
              (fun m => Element.irChain ((k + m) / 8)) ∘ Nat.succ := by
            funext m
            show Element.irChain ((k + 1 + m) / 8) = Element.irChain ((k + (m + 1)) / 8)
            rw [Nat.add_right_comm k 1 m, Nat.add_assoc]
          rw [← hreads]
          rfl
    · have hone : guessLength bits k = 1 := by rw [guessLength, if_neg hin]
      rw [if_pos (Or.inr (by omega)), hone]
      rfl

/-- Its reads are inside of `ir_chain` if and only if the first one is. -/
theorem guess_inside {bits : List Bool} {k n : Nat} :
    (∀ e ∈ (List.range (guessLength bits k)).map fun m => Element.irChain ((k + m) / 8),
      e.Inside n) ↔ k < 512 := by
  constructor
  · intro h
    by_contra hout
    have hzero : 0 < guessLength bits k := by
      rw [guessLength, if_neg hout]
      omega
    have hfirst : (k + 0) / 8 < 64 :=
      h (.irChain ((k + 0) / 8)) (List.mem_map.mpr ⟨0, List.mem_range.mpr hzero, rfl⟩)
    omega
  · intro hin e he
    obtain ⟨m, hm, rfl⟩ := List.mem_map.mp he
    have hlt := List.mem_range.mp hm
    rw [guessLength, if_pos hin] at hlt
    show (k + m) / 8 < 64
    unfold captureLength at hlt
    omega

/-! ## The loop over the devices -/

theorem idcode_odd (t : Tdo) : t.idcode.toNat % 2 = 1 ↔ t 0 = true := by
  have hbits : t.take 32 = t 0 :: (List.range 31).map (t ∘ Nat.succ) := by
    unfold Tdo.take
    rw [List.range_succ_eq_map, List.map_cons, List.map_map]
  unfold Tdo.idcode ofBits
  rw [hbits, List.foldr_cons, UInt32.toNat_ofNat']
  generalize List.foldr _ _ _ = rest
  cases t 0 with
  | true =>
    have hmod : ((true).toNat + 2 * rest) % 2 ^ 32 % 2 = 1 := by
      rw [Bool.toNat_true]
      omega
    exact iff_of_true hmod rfl
  | false =>
    have hmod : ((false).toNat + 2 * rest) % 2 ^ 32 % 2 = 0 := by
      rw [Bool.toNat_false]
      omega
    exact iff_of_false (by omega) nofun

theorem irlensOf_isSome (behind : Nat → UInt8) (typed : List Int) :
    (irlensOf behind typed).isSome = true ↔ typed ≠ [] := by
  unfold irlensOf
  by_cases h : typed = []
  · rw [if_pos h]
    exact iff_of_false nofun (not_not_intro h)
  · rw [if_neg h]
    exact iff_of_true rfl h

/-- The length that the scan takes, up to the zero of the list. -/
theorem lengthFrom_eq (A : Answers) (behind : Nat → UInt8) {typed : List Int} {i : Nat}
    (hlist : typed ≠ [] → i ≤ typed.length) (start : Nat) :
    lengthFrom (irlensOf behind typed) i (A.ids i) (captureLength A.irChain start) =
      A.irLength typed i start := by
  unfold lengthFrom Answers.irLength irlensOf
  by_cases h : typed = []
  · rw [if_pos h]
    simp only [h, if_true]
  · rw [if_neg h]
    have hvalue : (if i = typed.length then 0
        else ((typed[i]?).map UInt8.ofInt).getD (behind i) : UInt8).toNat =
          (typed.getD i 0 % 256).toNat := by
      rcases Nat.lt_or_eq_of_le (hlist h) with hlt | heq
      · rw [if_neg (by omega), List.getD_eq_getElem?_getD, List.getElem?_eq_getElem hlt]
        show (UInt8.ofNat (typed[i] % 256).toNat).toNat = (typed[i] % 256).toNat
        exact UInt8.toNat_ofNat_of_lt' (show (typed[i] % 256).toNat < 256 by omega)
      · rw [if_pos heq, List.getD_eq_getElem?_getD, List.getElem?_eq_none (by omega)]
        rfl
    simp only [hvalue, if_neg h]

/-- The accesses for a device in its turn. -/
theorem deviceAccesses_inside {bits : List Bool} {given : Bool} {i n irbit : Nat} (idcode : UInt32)
    (hi : i < 7) :
    (∀ e ∈ deviceAccesses given i idcode
        ((List.range (guessLength bits irbit)).map fun m => .irChain ((irbit + m) / 8)),
      e.Inside n) ↔ irbit < 512 ∧ (given = true → i ≤ n) := by
  have hdev : (Element.jtagDevs i).Inside n := show i < 33 by omega
  have hhandler : (Element.jdHandlers i).Inside n := show i < 32 by omega
  have hfirst : ∀ e ∈ (if handled idcode then [Element.jtagDevs i, .jdHandlers i]
      else [.jtagDevs i]), e.Inside n := by
    cases handled idcode with
    | true => exact List.forall_mem_cons.mpr ⟨hdev, List.forall_mem_singleton.mpr hhandler⟩
    | false => exact List.forall_mem_singleton.mpr hdev
  have hlast : ∀ e ∈ [Element.jtagDevs i, .jdHandlers i], e.Inside n :=
    List.forall_mem_cons.mpr ⟨hdev, List.forall_mem_singleton.mpr hhandler⟩
  have hgiven : (∀ e ∈ (if given = true then [Element.irlens i] else []), e.Inside n) ↔
      (given = true → i ≤ n) := by
    cases given with
    | true => exact List.forall_mem_singleton.trans ⟨fun h _ => h, fun h => h rfl⟩
    | false => exact iff_of_true (fun _ he => absurd he (List.not_mem_nil)) nofun
  unfold deviceAccesses
  rw [List.forall_mem_append, List.forall_mem_append, List.forall_mem_append, guess_inside, hgiven]
  exact ⟨fun h => ⟨h.1.1.2, h.1.2⟩, fun h => ⟨⟨⟨hfirst, h.1⟩, h.2⟩, hlast⟩⟩

/-- What holds of the devices reached holds of the first one and of those reached behind it. -/
theorem forall_reached_succ {I O : Nat → Prop} {i n : Nat} (hi : I i) :
    (∀ m < n + 1, (∀ k ≤ m, I (i + k)) → O (i + m)) ↔
      O i ∧ ∀ m < n, (∀ k ≤ m, I (i + 1 + k)) → O (i + 1 + m) := by
  constructor
  · intro h
    refine ⟨h 0 (by omega) fun k hk => ?_, fun m hm hreach => ?_⟩
    · rw [Nat.le_zero.mp hk]
      exact hi
    · rw [Nat.add_assoc, Nat.add_comm 1 m]
      refine h (m + 1) (by omega) fun k hk => ?_
      cases k with
      | zero => exact hi
      | succ k =>
        have := hreach k (by omega)
        rwa [Nat.add_assoc, Nat.add_comm 1 k] at this
  · rintro ⟨hfirst, hrest⟩ m hm hreach
    cases m with
    | zero => exact hfirst
    | succ m =>
      have := hrest m (by omega) fun k hk => by
        have := hreach (k + 1) (by omega)
        rwa [Nat.add_assoc, Nat.add_comm 1 k]
      rwa [Nat.add_assoc, Nat.add_comm 1 m] at this

/-- What a scan from device `i` on has done. `irbit` is where its capture begins. -/
structure ScannedFrom (A : Answers) (typed : List Int) (n i irbit : Nat) (devs : Nat → JtagDev)
    (r : Scanned) : Prop where
  accepted : r.accepted = true ↔ ∀ m < n, A.Identified typed (i + m)
  inside : irbit = A.irStart typed i → ((∀ e ∈ r.accesses, e.Inside typed.length) ↔
    ∀ m < n, (∀ k ≤ m, A.Identified typed (i + k)) →
      A.irStart typed (i + m) < 512 ∧ (typed ≠ [] → i + m ≤ typed.length))
  lengths : irbit = A.irStart typed i → (∀ e ∈ r.accesses, e.Inside typed.length) →
    r.accepted = true → ∀ m < n, (r.devs (i + m)).irLen =
      UInt8.ofNat (A.irLength typed (i + m) (A.irStart typed (i + m)))
  below : ∀ k < i, r.devs k = devs k

/-- The scan leaves at a device without identification. -/
theorem scannedFrom_left {A : Answers} {typed : List Int} {i : Nat}
    (h : ¬A.Identified typed i) (n irbit : Nat) (devs : Nat → JtagDev) :
    ScannedFrom A typed (n + 1) i irbit devs ⟨[], false, devs⟩ where
  accepted := iff_of_false nofun fun hall => h (hall 0 (by omega))
  inside _ := iff_of_true (fun _ he => absurd he List.not_mem_nil)
    fun _ _ hreach => absurd (hreach 0 (by omega)) h
  lengths _ _ := nofun
  below _ _ := rfl

/-- A device with identification before those of the rest. -/
theorem scannedFrom_cons {A : Answers} {behind : Nat → UInt8} {typed : List Int} {n i irbit : Nat}
    {devs : Nat → JtagDev} {d : JtagDev} {rest : Scanned} (h : A.Identified typed i) (hi : i < 7)
    (hlen : d.irLen = UInt8.ofNat
      (lengthFrom (irlensOf behind typed) i (A.ids i) (guessLength A.irChain irbit)))
    (hrest : ScannedFrom A typed n (i + 1)
      (irbit + lengthFrom (irlensOf behind typed) i (A.ids i) (guessLength A.irChain irbit))
      (Function.update devs i d) rest) :
    ScannedFrom A typed (n + 1) i irbit devs
      { rest with
        accesses := deviceAccesses (irlensOf behind typed).isSome i (A.ids i)
          ((List.range (guessLength A.irChain irbit)).map fun m => .irChain ((irbit + m) / 8)) ++
            rest.accesses } := by
  have hdevice := @deviceAccesses_inside A.irChain (irlensOf behind typed).isSome i typed.length
    irbit (A.ids i) hi
  rw [irlensOf_isSome] at hdevice
  have hnext : irbit = A.irStart typed i → irbit < 512 ∧ (typed ≠ [] → i ≤ typed.length) →
      lengthFrom (irlensOf behind typed) i (A.ids i) (guessLength A.irChain irbit) =
          A.irLength typed i (A.irStart typed i) ∧
        irbit + lengthFrom (irlensOf behind typed) i (A.ids i) (guessLength A.irChain irbit) =
          A.irStart typed (i + 1) := by
    rintro rfl ⟨hstart, hlist⟩
    have hlength := lengthFrom_eq A behind hlist (A.irStart typed i)
    rw [guessLength, if_pos hstart]
    exact ⟨hlength, by rw [hlength, Answers.irStart]⟩
  have hentry : rest.devs i = d := by
    rw [hrest.below i (by omega), Function.update_self]
  refine ⟨?_, fun hstart => ?_, fun hstart hin hacc => ?_, fun k hk => ?_⟩
  · refine hrest.accepted.trans ⟨fun hall m hm => ?_, fun hall m hm => ?_⟩
    · cases m with
      | zero => exact h
      | succ m =>
        have := hall m (by omega)
        rwa [Nat.add_assoc, Nat.add_comm 1 m] at this
    · have := hall (m + 1) (by omega)
      rwa [Nat.add_assoc, Nat.add_comm 1 m]
  · rw [forall_reached_succ (O := fun k => A.irStart typed k < 512 ∧
      (typed ≠ [] → k ≤ typed.length)) h, List.forall_mem_append, hdevice, ← hstart]
    exact and_congr_right fun hok => hrest.inside (hnext hstart hok).2
  · rw [List.forall_mem_append, hdevice] at hin
    obtain ⟨hlength, hstep⟩ := hnext hstart hin.1
    intro m hm
    cases m with
    | zero =>
      show (rest.devs i).irLen = _
      rw [hentry, hlen, hlength]
      rfl
    | succ m =>
      have := hrest.lengths hstep hin.2 hacc m (by omega)
      rwa [Nat.add_assoc, Nat.add_comm 1 m] at this
  · show rest.devs k = devs k
    rw [hrest.below k (by omega), Function.update_of_ne (by omega)]

/-- The scan is over with a device that has no identification, or one of Xilinx without a list. -/
theorem scanTdo_left (W : Behind) (bits : List Bool) {irlens : Option (Nat → UInt8)}
    (numDevices fuel n i irbit j : Nat) (devs : Nat → JtagDev) {t : Tdo}
    (h : t 0 = true → designer t.idcode = designerXilinx ∧ irlens.isNone) :
    scanTdo W bits irlens numDevices fuel (n + 1) i irbit j devs t = some ⟨[], false, devs⟩ := by
  by_cases hbit : t 0 = false
  · exact if_pos hbit
  · exact (if_neg hbit).trans (if_pos (h (Bool.not_eq_false _ ▸ hbit)))

theorem scanTdo_goes {W : Behind} {bits : List Bool} {irlens : Option (Nat → UInt8)}
    {numDevices fuel n i irbit j guessed : Nat} {devs : Nat → JtagDev} {t : Tdo}
    {reads : List Element} {rest : Scanned} (hbit : t 0 = true)
    (hxilinx : ¬(designer t.idcode = designerXilinx ∧ irlens.isNone))
    (hguess : guess W bits fuel irbit = some (reads, guessed))
    (hrest : scanTdo W bits irlens numDevices fuel n (i + 1)
      (irbit + lengthFrom irlens i t.idcode guessed) (j + lengthFrom irlens i t.idcode guessed)
      (Function.update devs i
        (devEntry numDevices i j (lengthFrom irlens i t.idcode guessed) t.idcode (devs i)))
      (t.drop 32) = some rest) :
    scanTdo W bits irlens numDevices fuel (n + 1) i irbit j devs t =
      some { rest with
        accesses := deviceAccesses irlens.isSome i t.idcode reads ++ rest.accesses } := by
  refine (if_neg (Bool.not_eq_false _ ▸ hbit)).trans ((if_neg hxilinx).trans ?_)
  simp only [hguess, hrest, Option.bind_eq_bind, Option.bind_some]
  rfl

theorem scanTdo_spec (W : Behind) (behind : Nat → UInt8) (typed : List Int) {A : Answers}
    (hlen : A.irChain.length = 512) (numDevices : Nat) {n i : Nat} (hseven : i + n ≤ 7) {t : Tdo}
    (hids : ∀ k, A.ids (i + k) = (t.drop (32 * k)).idcode) (irbit j : Nat) (devs : Nat → JtagDev) :
    ∃ r, (∀ fuel, 512 ≤ fuel → scanTdo W A.irChain (irlensOf behind typed) numDevices fuel n i
        irbit j devs t = some r) ∧ ScannedFrom A typed n i irbit devs r := by
  induction n generalizing i t irbit j devs with
  | zero =>
    refine ⟨⟨[], true, devs⟩, fun _ _ => rfl, ?_, ?_, ?_, ?_⟩
    · exact iff_of_true rfl nofun
    · exact fun _ => iff_of_true (fun _ he => absurd he List.not_mem_nil) nofun
    · exact fun _ _ _ => nofun
    · exact fun _ _ => rfl
  | succ n ih =>
    have hid : A.ids i = t.idcode := by
      refine (hids 0).trans (congrArg Tdo.idcode (funext fun m => ?_))
      show t (32 * 0 + m) = t m
      rw [Nat.mul_zero, Nat.zero_add]
    have hgiven : (irlensOf behind typed).isNone = true ↔ typed = [] := by
      rw [Option.isNone_iff_eq_none, ← Option.not_isSome_iff_eq_none, irlensOf_isSome, not_not]
    have hodd : A.Identified typed i ↔
        t 0 = true ∧ ¬(designer t.idcode = designerXilinx ∧ (irlensOf behind typed).isNone) := by
      unfold Answers.Identified
      rw [hid, idcode_odd, hgiven, not_and]
    by_cases h : A.Identified typed i
    · obtain ⟨hbit, hxilinx⟩ := hodd.mp h
      have hids' : ∀ k, A.ids (i + 1 + k) = ((t.drop 32).drop (32 * k)).idcode := by
        intro k
        rw [Nat.add_assoc, hids (1 + k)]
        refine congrArg Tdo.idcode (funext fun m => congrArg t ?_)
        omega
      obtain ⟨rest, hrun, hrest⟩ := ih (by omega) hids'
        (irbit + lengthFrom (irlensOf behind typed) i t.idcode (guessLength A.irChain irbit))
        (j + lengthFrom (irlensOf behind typed) i t.idcode (guessLength A.irChain irbit))
        (Function.update devs i (devEntry numDevices i j
          (lengthFrom (irlensOf behind typed) i t.idcode (guessLength A.irChain irbit)) t.idcode
          (devs i)))
      refine ⟨_, fun fuel hfuel => ?_, scannedFrom_cons h (by omega) ?_ (hid ▸ hrest)⟩
      · have hguess := guess_ends W hlen (by omega : 0 < fuel) (by omega : 512 ≤ fuel + irbit)
        rw [hid]
        exact scanTdo_goes hbit hxilinx hguess (hrun fuel hfuel)
      · rw [hid]
        rfl
    · refine ⟨⟨[], false, devs⟩, fun fuel _ => ?_, scannedFrom_left h n irbit devs⟩
      refine scanTdo_left W _ numDevices fuel n i irbit j devs fun hbit => ?_
      by_contra hnot
      exact h (hodd.mpr ⟨hbit, hnot⟩)

/-! ## The whole scan -/

theorem tdoCount_le (n : Nat) (t : Tdo) : (t.countDevices n).1 ≤ n := by
  induction n generalizing t with
  | zero => exact Nat.le_refl 0
  | succ n ih =>
    unfold Tdo.countDevices
    cases t 0 with
    | true => exact Nat.zero_le _
    | false => exact Nat.succ_le_succ (ih _)

theorem postscanAccesses_inside {i : Nat} (hi : i < 7) (n : Nat) :
    ∀ e ∈ postscanAccesses i, e.Inside n := by
  induction i with
  | zero => exact fun _ he => absurd he List.not_mem_nil
  | succ i ih =>
    refine List.forall_mem_append.mpr ⟨?_, ih (by omega)⟩
    exact List.forall_mem_cons.mpr
      ⟨show i < 33 by omega, List.forall_mem_singleton.mpr (show i + 1 < 33 by omega)⟩

theorem handlerAccesses_inside {numDevices : Nat} (h : numDevices ≤ 7) (n : Nat) :
    ∀ e ∈ handlerAccesses numDevices, e.Inside n := by
  intro e he
  obtain ⟨i, hi, hmem⟩ := List.mem_flatMap.mp he
  have hlt := List.mem_range.mp hi
  have hboth : ∀ e ∈ [Element.jdHandlers i, .jtagDevs i], e.Inside n :=
    List.forall_mem_cons.mpr
      ⟨show i < 32 by omega, List.forall_mem_singleton.mpr (show i < 33 by omega)⟩
  exact hboth e hmem

/-- The accesses of the first scan. -/
theorem first_inside (n : Nat) :
    ∀ e ∈ (List.range 64).map Element.irChain ++ [.irChain 0], e.Inside n := by
  refine List.forall_mem_append.mpr
    ⟨fun e he => ?_, List.forall_mem_singleton.mpr (show 0 < 64 by omega)⟩
  obtain ⟨k, hk, rfl⟩ := List.mem_map.mp he
  exact List.mem_range.mp hk

/-- Those of the copy of the words. -/
theorem words_inside (typed : List Int) :
    ∀ e ∈ (if typed = [] then [] else (List.range (typed.length + 1)).map Element.irlens),
      e.Inside typed.length := by
  intro e he
  by_cases h : typed = []
  · rw [if_pos h] at he
    exact absurd he List.not_mem_nil
  · rw [if_neg h] at he
    obtain ⟨k, hk, rfl⟩ := List.mem_map.mp he
    exact Nat.lt_succ_iff.mp (List.mem_range.mp hk)

theorem irStart_pos (A : Answers) (typed : List Int) (i : Nat) : 1 ≤ A.irStart typed i := by
  induction i with
  | zero => exact Nat.le_refl 1
  | succ i ih => exact Nat.le_trans ih (Nat.le_add_right _ _)

theorem knownIrlen_le (idcode : UInt32) : knownIrlen idcode ≤ 5 := by
  unfold knownIrlen
  repeat' split
  all_goals omega

theorem irLength_bounds (A : Answers) (typed : List Int) (i : Nat) {start : Nat}
    (hpos : 1 ≤ start) (hstart : start < 512) :
    1 ≤ A.irLength typed i start ∧ A.irLength typed i start < 512 := by
  have hcapture : 1 ≤ captureLength A.irChain start ∧ captureLength A.irChain start < 512 := by
    unfold captureLength
    omega
  have hknown := knownIrlen_le (A.ids i)
  have htyped : (typed.getD i 0 % 256).toNat < 256 := by omega
  unfold Answers.irLength
  dsimp only
  by_cases h : typed = []
  · rw [if_pos h]
    by_cases hzero : knownIrlen (A.ids i) = 0
    · rw [if_pos hzero]
      exact hcapture
    · rw [if_neg hzero]
      omega
  · rw [if_neg h]
    by_cases hzero : (typed.getD i 0 % 256).toNat = 0
    · rw [if_pos hzero]
      exact hcapture
    · rw [if_neg hzero]
      omega

/-- A length as the table has it. -/
theorem length_stored {A : Answers} {typed : List Int} {i : Nat}
    (hstart : A.irStart typed i < 512) :
    1 ≤ (UInt8.ofNat (A.irLength typed i (A.irStart typed i))).toNat ↔
      A.irLength typed i (A.irStart typed i) ≠ 256 := by
  have hbounds := irLength_bounds A typed i (irStart_pos A typed i) hstart
  rw [UInt8.toNat_ofNat']
  omega

/-- The condition, for what a scan over the devices has done. -/
theorem fits_iff {A : Answers} {typed : List Int} {devs : Nat → JtagDev} {r : Scanned}
    (h : ScannedFrom A typed A.count 0 1 devs r) :
    A.Fits typed ↔ (∀ e ∈ r.accesses, e.Inside typed.length) ∧
      (r.accepted = true → ∀ i < A.count, 1 ≤ (r.devs i).irLen.toNat) := by
  have hinside := h.inside rfl
  have hlengths := h.lengths rfl
  have haccepted := h.accepted
  simp only [Nat.zero_add] at hinside hlengths haccepted
  have hstored : (∀ e ∈ r.accesses, e.Inside typed.length) → r.accepted = true →
      ∀ i < A.count, (1 ≤ (r.devs i).irLen.toNat ↔
        A.irLength typed i (A.irStart typed i) ≠ 256) := by
    intro hin hacc i hi
    rw [hlengths hin hacc i hi]
    refine length_stored (hinside.mp hin i hi fun k hk => ?_).1
    exact haccepted.mp hacc k (by omega)
  constructor
  · intro hfits
    have hin : ∀ e ∈ r.accesses, e.Inside typed.length :=
      hinside.mpr fun i hi hreach =>
        ⟨hfits.start i ⟨hi, hreach⟩, fun hlist => hfits.list hlist i ⟨hi, hreach⟩⟩
    refine ⟨hin, fun hacc i hi => (hstored hin hacc i hi).mpr ?_⟩
    exact hfits.length (haccepted.mp hacc) i hi
  · rintro ⟨hin, hpos⟩
    refine ⟨fun i hi => (hinside.mp hin i hi.1 hi.2).1,
      fun hlist i hi => (hinside.mp hin i hi.1 hi.2).2 hlist, fun hall i hi => ?_⟩
    have hacc := haccepted.mpr hall
    exact (hstored hin hacc i hi).mp (hpos hacc i hi)

theorem tdoTake_length (t : Tdo) (n : Nat) : (t.take n).length = n := by
  unfold Tdo.take
  rw [List.length_map, List.length_range]

theorem answers_irChain (t : Tdo) : t.answers.irChain = t.take 512 := by rw [Tdo.answers]

theorem fits_of_none {A : Answers} (h : A.count = 0) (typed : List Int) : A.Fits typed where
  start i hi := absurd hi.1 (by omega)
  list _ i hi := absurd hi.1 (by omega)
  length _ i hi := absurd hi (by omega)

theorem fillPostscan_irLen (n i : Nat) (devs : Nat → JtagDev) :
    (fillPostscan n devs i).irLen = (devs i).irLen := by
  rw [fillPostscan_fields]

/-- What the property says of a scan that has been run. -/
theorem staysInside_run {W : Behind} {behind : Nat → UInt8} {typed : List Int} {p : JtagProc}
    {t : Tdo} {r : Scan}
    (h : ∀ fuel, 512 ≤ fuel → tdoScan W (irlensOf behind typed) fuel p t = some r) :
    StaysInside W behind typed p t ↔ (∀ e ∈ r.accesses, e.Inside typed.length) ∧
      ∀ i < r.returned, 1 ≤ (r.proc.jtagDevs i).irLen.toNat := by
  have hrun : ∀ fuel, 512 ≤ fuel → cmdJtagScan W behind typed fuel p t = some
      { r with accesses := (if typed = [] then []
        else (List.range (typed.length + 1)).map .irlens) ++ r.accesses } := by
    intro fuel hfuel
    unfold cmdJtagScan
    rw [h fuel hfuel]
    rfl
  constructor
  · rintro ⟨r', hr', hin, hlens⟩
    have heq := Option.some.inj ((hr' 512 (Nat.le_refl _)).symm.trans (hrun 512 (Nat.le_refl _)))
    rw [heq] at hin hlens
    exact ⟨(List.forall_mem_append.mp hin).2, hlens⟩
  · rintro ⟨hin, hlens⟩
    exact ⟨_, hrun, List.forall_mem_append.mpr ⟨words_inside typed, hin⟩, hlens⟩

theorem tdoScan_unanswered (W : Behind) (irlens : Option (Nat → UInt8)) (fuel : Nat) (p : JtagProc)
    {t : Tdo} (h : t 0 = false) :
    tdoScan W irlens fuel p t =
      some ⟨(List.range 64).map Element.irChain ++ [.irChain 0], 0, p⟩ :=
  if_pos h

theorem tdoScan_empty (W : Behind) (irlens : Option (Nat → UInt8)) (fuel : Nat) (p : JtagProc)
    {t : Tdo} (hbit : t 0 = true) (hcount : ((t.drop 512).countDevices 7).1 = 0) :
    tdoScan W irlens fuel p t =
      some ⟨(List.range 64).map Element.irChain ++ [.irChain 0], 0,
        { p with jtagDevCount := 0 }⟩ := by
  unfold tdoScan
  simp only [hbit, Bool.true_eq_false, if_false, hcount, if_true]

theorem tdoScan_found {W : Behind} {irlens : Option (Nat → UInt8)} {fuel n : Nat} {p : JtagProc}
    {t t' : Tdo} {r : Scanned} (hbit : t 0 = true) (hcount : (t.drop 512).countDevices 7 = (n, t'))
    (hn : n ≠ 0) (hr : scanTdo W (t.take 512) irlens n fuel n 0 1 0 p.jtagDevs t' = some r) :
    tdoScan W irlens fuel p t = some
      (if r.accepted then
        ⟨(List.range 64).map Element.irChain ++ [.irChain 0] ++ r.accesses ++
          postscanAccesses (n - 1) ++ handlerAccesses n, n, ⟨fillPostscan (n - 1) r.devs, n⟩⟩
      else ⟨(List.range 64).map Element.irChain ++ [.irChain 0] ++ r.accesses, 0, ⟨r.devs, n⟩⟩) := by
  unfold tdoScan
  simp only [hbit, Bool.true_eq_false, if_false, hcount, hn, hr, Option.bind_eq_bind,
    Option.bind_some]
  cases r.accepted with
  | true => rfl
  | false => rfl

/-- A scan that finds no device. -/
theorem staysInside_of_none {t : Tdo} (h : t.answers.count = 0) (W : Behind)
    (behind : Nat → UInt8) (typed : List Int) (p : JtagProc) : StaysInside W behind typed p t := by
  by_cases hbit : t 0 = true
  · have hcount : ((t.drop 512).countDevices 7).1 = 0 := (if_pos hbit).symm.trans h
    exact (staysInside_run fun fuel _ => tdoScan_empty W _ fuel p hbit hcount).mpr
      ⟨first_inside _, nofun⟩
  · have hfalse : t 0 = false := Bool.not_eq_true _ ▸ hbit
    exact (staysInside_run fun fuel _ => tdoScan_unanswered W _ fuel p hfalse).mpr
      ⟨first_inside _, nofun⟩

/-- A scan that finds devices. -/
theorem staysInside_of_some {t : Tdo} (h : t.answers.count ≠ 0) (W : Behind)
    (behind : Nat → UInt8) (typed : List Int) (p : JtagProc) :
    StaysInside W behind typed p t ↔ t.answers.Fits typed := by
  have hbit : t 0 = true := by
    by_contra hbit
    exact h (if_neg hbit)
  have hcount : t.answers.count = ((t.drop 512).countDevices 7).1 := if_pos hbit
  have hseven := tdoCount_le 7 (t.drop 512)
  rw [← hcount] at hseven
  have hids : ∀ k, t.answers.ids (0 + k) =
      (((t.drop 512).countDevices 7).2.drop (32 * k)).idcode := by
    intro k
    rw [Nat.zero_add, Tdo.answers]
  have hlen : t.answers.irChain.length = 512 := by
    rw [answers_irChain, tdoTake_length]
  obtain ⟨r, hr, hscanned⟩ := scanTdo_spec W behind typed hlen t.answers.count
    (by omega : 0 + t.answers.count ≤ 7) hids 1 0 p.jtagDevs
  have hcounted : (t.drop 512).countDevices 7 =
      (t.answers.count, ((t.drop 512).countDevices 7).2) := Prod.ext hcount.symm rfl
  rw [answers_irChain] at hr
  rw [fits_iff hscanned,
    staysInside_run fun fuel hfuel => tdoScan_found hbit hcounted h (hr fuel hfuel)]
  cases r.accepted with
  | true =>
    simp only [if_true, fillPostscan_irLen]
    rw [List.forall_mem_append, List.forall_mem_append, List.forall_mem_append]
    constructor
    · rintro ⟨⟨⟨⟨-, hin⟩, -⟩, -⟩, hlens⟩
      exact ⟨hin, fun _ => hlens⟩
    · rintro ⟨hin, hlens⟩
      exact ⟨⟨⟨⟨first_inside _, hin⟩, postscanAccesses_inside (by omega) _⟩,
        handlerAccesses_inside hseven _⟩, hlens trivial⟩
  | false =>
    simp only [Bool.false_eq_true, if_false]
    rw [List.forall_mem_append]
    constructor
    · rintro ⟨⟨-, hin⟩, -⟩
      exact ⟨hin, nofun⟩
    · rintro ⟨hin, -⟩
      exact ⟨⟨first_inside _, hin⟩, nofun⟩

/-- The bits of three debug ports with registers of four bits. -/
def threePorts : Tdo := fun k =>
  if k < 512 then k % 4 == 0 || 12 ≤ k
  else if k < 516 then k == 515
  else Nat.testBit 0x4BA00477 ((k - 516) % 32)

theorem chain_clocks_length (c : Chain) (s : List (Bool × Bool)) :
    (c.clocks s).1.length = s.length := by
  induction s generalizing c with
  | nil => rfl
  | cons a s ih => exact congrArg (· + 1) (ih _)

theorem withMode_length (final : Bool) (bits : List Bool) :
    (withMode final bits).length = bits.length := by
  induction bits with
  | nil => rfl
  | cons b bits ih =>
    cases bits with
    | nil => rfl
    | cons b' bits => exact congrArg (· + 1) ih

theorem tdiTdoSeq_length (final : Bool) (di : List Bool) (c : Chain) :
    (tdiTdoSeq final di c).1.length = di.length :=
  (chain_clocks_length c _).trans (withMode_length final di)

theorem readIrChain_length (n : Nat) (c : Chain) : (readIrChain n c).1.length = 32 * n := by
  induction n generalizing c with
  | zero => rfl
  | succ n ih =>
    rw [readIrChain_succ, List.length_append, tdiTdoSeq_length, ih, List.length_replicate]
    omega

/-- Some bits, and then those of `t`. -/
def Tdo.behind (bits : List Bool) (t : Tdo) : Tdo := fun k => (bits[k]?).getD (t (k - bits.length))

theorem Tdo.take_behind (bits : List Bool) (t : Tdo) {n : Nat} (hn : bits.length = n) :
    (t.behind bits).take n = bits := by
  subst hn
  show (List.range bits.length).map (fun k => (bits[k]?).getD (t (k - bits.length))) = bits
  refine List.ext_getElem (by rw [List.length_map, List.length_range]) fun k _ hk => ?_
  rw [List.getElem_map, List.getElem_range, List.getElem?_eq_getElem hk, Option.getD_some]

theorem Tdo.drop_behind (bits : List Bool) (t : Tdo) {n : Nat} (hn : bits.length = n) :
    (t.behind bits).drop n = t := by
  subst hn
  funext k
  unfold Tdo.drop Tdo.behind
  rw [List.getElem?_eq_none (by omega), Option.getD_none, Nat.add_sub_cancel_left]

theorem Tdo.behind_head (bits : List Bool) (t : Tdo) (h : bits ≠ []) :
    t.behind bits 0 = bits.headD false := by
  cases bits with
  | nil => exact absurd rfl h
  | cons b bits => rfl

theorem guess_guessIrlen (W : Behind) (bits : List Bool) {fuel k n : Nat} {reads : List Element}
    (h : guess W bits fuel k = some (reads, n)) : guessIrlen W bits fuel k = n := by
  induction fuel generalizing k n reads with
  | zero => exact absurd h nofun
  | succ fuel ih =>
    unfold guess at h
    unfold guessIrlen
    by_cases hend : chainBit W bits k = true ∨ 512 ≤ k + 1
    · rw [if_pos hend] at h ⊢
      exact congrArg Prod.snd (Option.some.inj h)
    · rw [if_neg hend] at h ⊢
      cases hrest : guess W bits fuel (k + 1) with
      | none =>
        rw [hrest] at h
        exact absurd h nofun
      | some rest =>
        obtain ⟨reads', n'⟩ := rest
        rw [hrest] at h
        rw [ih hrest]
        exact congrArg Prod.snd (Option.some.inj h)

/-- The bits of the count. -/
theorem countDevices_bits (n : Nat) (c : Chain) :
    ∃ bits, ∀ t : Tdo, (t.behind bits).countDevices n = ((countDevices n c).1, t) := by
  have hdrop : ∀ (t : Tdo) (b : Bool) (bits : List Bool),
      (t.behind (b :: bits)).drop 1 = t.behind bits := by
    intro t b bits
    funext k
    unfold Tdo.drop Tdo.behind
    rw [Nat.add_comm 1 k, List.getElem?_cons_succ, List.length_cons, Nat.add_sub_add_right]
  induction n generalizing c with
  | zero =>
    refine ⟨[(c.clock false true).1], fun t => ?_⟩
    rw [countDevices_zero, Tdo.countDevices, hdrop]
    rfl
  | succ n ih =>
    rw [countDevices_succ]
    obtain ⟨bits, hbits⟩ := ih (c.clock false true).2
    cases hbit : (c.clock false true).1 with
    | true =>
      refine ⟨[true], fun t => ?_⟩
      rw [Tdo.countDevices, hdrop]
      rfl
    | false =>
      refine ⟨false :: bits, fun t => ?_⟩
      rw [Tdo.countDevices, hdrop, hbits t]
      rfl

/-- The bits of the identification codes. -/
theorem scanDevs_bits (W : Behind) {bits : List Bool} (hlen : bits.length = 512)
    (irlens : Option (Nat → UInt8)) (numDevices n i irbit j : Nat) (devs : Nat → JtagDev)
    (c : Chain) :
    ∃ (t : Tdo) (r : Scanned), (∀ fuel, 512 ≤ fuel →
        scanTdo W bits irlens numDevices fuel n i irbit j devs t = some r) ∧
      r.accepted = (scanDevs W bits irlens numDevices n i irbit j devs c).1 ∧
      r.devs = (scanDevs W bits irlens numDevices n i irbit j devs c).2.1 := by
  induction n generalizing i irbit j devs c with
  | zero => exact ⟨fun _ => false, ⟨[], true, devs⟩, fun _ _ => rfl, rfl, rfl⟩
  | succ n ih =>
    cases hid : tdiTdoSeq false (List.replicate 32 true) c with
    | mk id c' =>
      have hidlen : id.length = 32 := by
        have := tdiTdoSeq_length false (List.replicate 32 true) c
        rwa [hid, List.length_replicate] at this
      have hne : id ≠ [] := by
        rintro rfl
        exact absurd hidlen (by decide)
      rw [scanDevs_succ W bits irlens numDevices n i irbit j devs hid]
      have hlength : expectedIrlen W bits irlens i irbit (ofBits id) =
          lengthFrom irlens i (ofBits id) (guessLength bits irbit) := by
        rw [← guess_guessIrlen W bits (guess_ends W hlen (by omega : 0 < 512)
          (by omega : 512 ≤ 512 + irbit))]
        rfl
      rw [hlength]
      obtain ⟨t, r, hr, hacc, hdevs⟩ := ih (i + 1)
        (irbit + lengthFrom irlens i (ofBits id) (guessLength bits irbit))
        (j + lengthFrom irlens i (ofBits id) (guessLength bits irbit))
        (Function.update devs i (devEntry numDevices i j
          (lengthFrom irlens i (ofBits id) (guessLength bits irbit)) (ofBits id) (devs i))) c'
      have hcode : (t.behind id).idcode = ofBits id := by
        rw [Tdo.idcode, Tdo.take_behind id t hidlen]
      have hhead := Tdo.behind_head id t hne
      refine ⟨t.behind id, ?_⟩
      by_cases hbit : id.headD false = false
      · refine ⟨⟨[], false, devs⟩, fun fuel _ => ?_, ?_⟩
        · exact scanTdo_left W bits numDevices fuel n i irbit j devs fun hone =>
            absurd (hone.symm.trans (hhead.trans hbit)) nofun
        · rw [if_pos hbit]
          exact ⟨rfl, rfl⟩
      · by_cases hxilinx : designer (ofBits id) = designerXilinx ∧ irlens.isNone = true
        · refine ⟨⟨[], false, devs⟩, fun fuel _ => ?_, ?_⟩
          · exact scanTdo_left W bits numDevices fuel n i irbit j devs fun _ => hcode ▸ hxilinx
          · rw [if_neg hbit, if_pos hxilinx]
            exact ⟨rfl, rfl⟩
        · refine ⟨{ r with
            accesses := deviceAccesses irlens.isSome i (ofBits id)
              ((List.range (guessLength bits irbit)).map fun m => .irChain ((irbit + m) / 8)) ++
                r.accesses }, fun fuel hfuel => ?_, ?_⟩
          · have hguess := guess_ends W hlen (by omega : 0 < fuel) (by omega : 512 ≤ fuel + irbit)
            have hdrop := Tdo.drop_behind id t hidlen
            rw [← hcode] at hxilinx hr ⊢
            exact scanTdo_goes (hhead.trans (Bool.not_eq_false _ ▸ hbit)) hxilinx hguess
              (hdrop.symm ▸ hr fuel hfuel)
          · rw [if_neg hbit, if_neg hxilinx]
            exact ⟨hacc, hdevs⟩

/-- The scan of a chain is the scan of the bits that it answers. -/
theorem tdoScan_of_chain (W : Behind) (irlens : Option (Nat → UInt8)) (p : JtagProc) (c : Chain) :
    ∃ (t : Tdo) (r : Scan), (∀ fuel, 512 ≤ fuel → tdoScan W irlens fuel p t = some r) ∧
      r.returned = (jtagScan W irlens p c).1 ∧ r.proc = (jtagScan W irlens p c).2.1 := by
  obtain ⟨bits, b, hir⟩ := irPass_eq c
  obtain ⟨n, d, hcount⟩ := countPass_eq b
  rw [jtagScan_eq W irlens p hir hcount]
  have hlen : bits.length = 512 := by
    have := readIrChain_length loops (shiftIr (softReset (jtagtapInit c)))
    rwa [← irPass, hir] at this
  have hne : bits ≠ [] := by
    rintro rfl
    exact absurd hlen (by decide)
  obtain ⟨zeros, hzeros⟩ := countDevices_bits 7 (shiftZeros loops (shiftDr (returnIdle b)))
  have hn : (countDevices 7 (shiftZeros loops (shiftDr (returnIdle b)))).1 = n :=
    congrArg Prod.fst hcount
  rw [hn] at hzeros
  obtain ⟨t, r, hr, hacc, hdevs⟩ := scanDevs_bits W hlen irlens n n 0 1 0 p.jtagDevs
    (shiftDr (softReset d))
  have htake : ((t.behind zeros).behind bits).take 512 = bits := Tdo.take_behind bits _ hlen
  have hdrop : ((t.behind zeros).behind bits).drop 512 = t.behind zeros :=
    Tdo.drop_behind bits _ hlen
  have hhead : (t.behind zeros).behind bits 0 = bits.headD false := Tdo.behind_head bits _ hne
  refine ⟨(t.behind zeros).behind bits, ?_⟩
  by_cases hbit : bits.headD false = false
  · refine ⟨⟨(List.range 64).map .irChain ++ [.irChain 0], 0, p⟩, fun fuel _ => ?_, ?_⟩
    · exact tdoScan_unanswered W irlens fuel p (hhead.trans hbit)
    · rw [if_pos hbit]
      exact ⟨rfl, rfl⟩
  · have hone : (t.behind zeros).behind bits 0 = true := hhead.trans (Bool.not_eq_false _ ▸ hbit)
    have hcounted : (((t.behind zeros).behind bits).drop 512).countDevices 7 = (n, t) := by
      rw [hdrop, hzeros]
    rw [if_neg hbit]
    by_cases hnone : n = 0
    · refine ⟨⟨(List.range 64).map .irChain ++ [.irChain 0], 0, { p with jtagDevCount := n }⟩,
        fun fuel _ => ?_, ?_⟩
      · subst hnone
        exact tdoScan_empty W irlens fuel p hone (congrArg Prod.fst hcounted)
      · rw [if_pos hnone]
        exact ⟨rfl, rfl⟩
    · rw [if_neg hnone]
      generalize scanDevs W bits irlens n n 0 1 0 p.jtagDevs (shiftDr (softReset d)) = found
        at hacc hdevs ⊢
      obtain ⟨ok, devs, c'⟩ := found
      rw [← htake] at hr
      refine ⟨_, fun fuel hfuel => tdoScan_found hone hcounted hnone (hr fuel hfuel), ?_⟩
      dsimp only at hacc hdevs
      rw [hacc, hdevs]
      cases ok with
      | false => exact ⟨rfl, rfl⟩
      | true => exact ⟨rfl, rfl⟩

end MiyakoLink.Jtag
