import Mathlib.Algebra.Group.Nat.Defs
import MiyakoLink.Lib.Bus
import MiyakoLink.Monitor.Command
import MiyakoLink.Packet.Send

/-!
# The option bytes of the STM32G0 parts

`monitor option` writes option bytes, and with a protection level of 2 in them the part can never be
debugged again. Such a request is carried out only after `monitor irreversible enable`. The commands
are called any number of times with any arguments, against any device.

* `session_options`: the protection level is not set to 2 unless the last message about it has said
  that irreversible operations are enabled, and an option register is written with what one of the
  commands asks for it.
* `cmdOption_write`: with a device that gets ready, `option write` is refused before anything is
  written, or writes the last value for each register that the part has, once and in the order of
  the table.
-/

namespace MiyakoLink.Stm32.G0Options

open Lib Monitor

abbrev flashKeyr : UInt32 := 0x40022008

abbrev flashKeyrKey1 : UInt32 := 0x45670123

abbrev flashKeyrKey2 : UInt32 := 0xCDEF89AB

abbrev flashOptkeyr : UInt32 := 0x4002200C

abbrev flashOptkeyrKey1 : UInt32 := 0x08192A3B

abbrev flashOptkeyrKey2 : UInt32 := 0x4C5D6E7F

abbrev flashSr : UInt32 := 0x40022010

/-- `FLASH_SR_BSY2 | FLASH_SR_BSY1`. -/
abbrev flashSrBsyMask : UInt32 := (1 : UInt32) <<< 17 ||| (1 : UInt32) <<< 16

/-- `FLASH_SR_ERROR_MASK`. -/
abbrev flashSrErrorMask : UInt32 := 0xC3FA

abbrev flashCr : UInt32 := 0x40022014

abbrev flashCrLock : UInt32 := (1 : UInt32) <<< 31

abbrev flashCrOblLaunch : UInt32 := (1 : UInt32) <<< 27

abbrev flashCrOptstrt : UInt32 := (1 : UInt32) <<< 17

abbrev flashCrStrt : UInt32 := (1 : UInt32) <<< 16

abbrev flashCrMer2 : UInt32 := (1 : UInt32) <<< 15

abbrev flashCrMer1 : UInt32 := (1 : UInt32) <<< 2

abbrev flashOptr : UInt32 := 0x40022020

abbrev flashOptrRdpMask : UInt32 := 0xFF

/-- `struct registers_s`. -/
structure Register where
  addr : UInt32
  val : UInt32
  deriving DecidableEq

/-- `options_def`, in the order of `enum option_bytes_registers`. -/
def optionsDef : List Register :=
  [⟨flashOptr, 0xFFFFFEAA⟩, ⟨0x40022024, 0xFFFFFFFF⟩, ⟨0x40022028, 0⟩, ⟨0x4002202C, 0xFF⟩,
    ⟨0x40022030, 0xFF⟩, ⟨0x40022034, 0xFFFFFFFF⟩, ⟨0x40022038, 0⟩, ⟨0x40022044, 0xFFFFFFFF⟩,
    ⟨0x40022048, 0⟩, ⟨0x4002204C, 0xFF⟩, ⟨0x40022050, 0xFF⟩, ⟨0x40022054, 0xFFFFFFFF⟩,
    ⟨0x40022058, 0⟩, ⟨0x40022080, 0⟩]

/-! ## Arguments -/

/-- `add_reg_value`: the changed table, unless it has no such register. -/
def addRegValue (addr val : UInt32) : List Register → List Register → Option (List Register)
  | r :: regReq, d :: regDef =>
    if addr = d.addr then some (⟨addr, val⟩ :: regReq)
    else (addRegValue addr val regReq regDef).map (r :: ·)
  | _, _ => none

/-- The loop of `parse_cmdline_registers` from index `i` on, where `validRegsNb` registers are
known. It does not end when the index wraps. -/
def parseFrom (args : List Text) (regDef : List Register) :
    Nat → UInt8 → List Register → UInt8 → Option (Bool × List Register)
  | fuel, i, regReq, validRegsNb =>
    if args.length ≤ i.toNat then some (0 < validRegsNb, regReq)
    else
      match fuel with
      | 0 => none
      | fuel + 1 =>
        let addr := strtoul 0 (args.getD i.toNat [])
        let val := strtoul 0 (args.getD (i.toNat + 1) [])
        match addRegValue addr val regReq regDef with
        | some regReq => parseFrom args regDef fuel (i + 2) regReq (validRegsNb + 1)
        | none => parseFrom args regDef fuel (i + 2) regReq validRegsNb

/-- `%08"PRIX32"`. -/
def printfHex8 (n : UInt32) : Text :=
  (List.range 8).map fun k => Packet.hexUpper (n.toNat / 16 ^ (7 - k) % 16)

/-! ## Commands -/

section

variable {δ : Type} (B : BusDevice δ) (fuel : Nat)

/-- The private storage is `irreversible_enabled`. -/
abbrev Driver (δ : Type) := BusM δ Bool

def stm32g0FlashUnlock : Driver δ Unit := do
  B.writeWord flashKeyr flashKeyrKey1
  B.writeWord flashKeyr flashKeyrKey2

def stm32g0FlashLock : Driver δ Unit := do
  let cr ← B.readWord flashCr
  B.writeWord flashCr (cr ||| flashCrLock)

def stm32g0FlashOptionUnlock : Driver δ Unit := do
  B.writeWord flashOptkeyr flashOptkeyrKey1
  B.writeWord flashOptkeyr flashOptkeyrKey2

/-- A turn of `write_registers`. -/
def writeRegister (r : Register) : Driver δ Unit :=
  if 0 < r.addr then B.writeWord r.addr r.val else pure ()

/-- `write_registers`. -/
def writeRegisters (regs : List Register) : Driver δ Unit := regs.forM (writeRegister B)

def stm32g0OptionWrite (optionsReq : List Register) : Driver δ Bool := do
  stm32g0FlashUnlock B
  stm32g0FlashOptionUnlock B
  if ← B.poll flashSr flashSrBsyMask fuel then
    writeRegisters B optionsReq
    B.writeWord flashCr flashCrOptstrt
    if ← B.poll flashSr flashSrBsyMask fuel then
      B.writeWord flashCr flashCrOblLaunch
      printText (ascii "Scan and attach again\n")
      return true
    else
      stm32g0FlashLock B
      return false
  else
    stm32g0FlashLock B
    return false

/-- `parse_cmdline_registers` for `options_def`. -/
def parseCmdlineRegisters (args : List Text) : Driver δ (Bool × List Register) :=
  match parseFrom args optionsDef fuel 0 (List.replicate optionsDef.length ⟨0, 0⟩) 0 with
  | some r => pure r
  | none => throw .turnsUsed

def validateOptions (optionsReq : List Register) : Driver δ Bool := do
  let s ← get
  if (optionsReq.headD ⟨0, 0⟩).val &&& flashOptrRdpMask = 0xCC ∧ s.priv = false then
    printText (ascii "Irreversible operations disabled\n")
    return false
  else
    return true

def displayRegisters (regDef : List Register) : Driver δ Unit :=
  regDef.forM fun r => do
    let val ← B.readWord r.addr
    printText (ascii "0x" ++ printfHex8 r.addr ++ ascii ": 0x" ++ printfHex8 val ++ ascii "\n")

def optionFailed : Driver δ Bool := do
  printText (ascii "Writing options failed!\n")
  return false

def stm32g0CmdOption (argv : List Text) : Driver δ Bool := do
  if argv.length = 2 ∧ argv.getD 1 [] = ascii "erase" then
    if ← stm32g0OptionWrite B fuel optionsDef then return true else optionFailed
  else if 2 < argv.length ∧ argv.length % 2 = 0 ∧ argv.getD 1 [] = ascii "write" then
    let parsed ← parseCmdlineRegisters fuel (argv.drop 2)
    if !parsed.1 then
      optionFailed
    else if !(← validateOptions parsed.2) then
      optionFailed
    else if ← stm32g0OptionWrite B fuel parsed.2 then
      return true
    else
      optionFailed
  else
    printText (ascii "usage: monitor option erase\n")
    printText (ascii "usage: monitor option write <addr> <val> [<addr> <val>]...\n")
    displayRegisters B optionsDef
    return true

/-- The message about `irreversible_enabled`. -/
def irreversibleText (b : Bool) : Text :=
  ascii "Irreversible operations: " ++ ascii (if b then "enabled" else "disabled") ++ ascii "\n"

/-- What `parse_enable_or_disable` does with its argument. -/
def applyToggle : Toggle → Driver δ Bool
  | .set b => do
    modify fun s => { s with priv := b }
    return true
  | .notRecognized s => do
    printText (ascii "Argument '" ++ s ++ ascii "' not recognized as 'enable' or 'disable'\n")
    return false
  | _ => do
    printText (ascii "'enable' or 'disable' argument must be provided\n")
    return false

/-- The result for the argument, if there is one. -/
def takeToggle (argv : List Text) : Driver δ Bool :=
  if argv.length = 2 then applyToggle (parseEnableOrDisable (argv.getD 1 [])) else pure true

def stm32g0CmdIrreversible (argv : List Text) : Driver δ Bool := do
  let ret ← takeToggle argv
  let s ← get
  printText (irreversibleText s.priv)
  return ret

/-- The bits of `FLASH_CR` for `erase_mass`, unless the argument is wrong. -/
def eraseMassCr (argv : List Text) : Option UInt32 :=
  if argv.length = 2 then
    if (argv.getD 1 []).headD 0 = 0x31 then some (flashCrMer1 ||| flashCrStrt)
    else if (argv.getD 1 []).headD 0 = 0x32 then some (flashCrMer2 ||| flashCrStrt)
    else none
  else some (flashCrMer1 ||| flashCrMer2 ||| flashCrStrt)

/-- The erase, and whether it has succeeded. -/
def eraseMass (cr : UInt32) : Driver δ Bool := do
  stm32g0FlashUnlock B
  B.writeWord flashCr cr
  if ← B.poll flashSr flashSrBsyMask fuel then
    let sr ← B.readWord flashSr
    return sr.toUInt16.toUInt32 &&& flashSrErrorMask = 0
  else
    return false

def stm32g0CmdEraseMass (argv : List Text) : Driver δ Bool := do
  let ret ← ((eraseMassCr argv).map (eraseMass B fuel)).getD (pure false)
  stm32g0FlashLock B
  return ret

/-- `stm32g0_cmd_list`. -/
inductive Handler where
  | eraseMass
  | option
  | irreversible
  deriving DecidableEq

/-- A call of a command, with `argv`. -/
structure Call where
  handler : Handler
  argv : List Text

def Call.run (c : Call) : Driver δ Bool :=
  match c.handler with
  | .eraseMass => stm32g0CmdEraseMass B fuel c.argv
  | .option => stm32g0CmdOption B fuel c.argv
  | .irreversible => stm32g0CmdIrreversible c.argv

/-- Calls one after the other. -/
def session (calls : List Call) : Driver δ Unit :=
  calls.forM fun c => discard (c.run B fuel)

end

/-! ## Tables of requests -/

/-- The registers and values on a command line. -/
def pairs : List Text → List (UInt32 × UInt32)
  | a :: v :: args => (strtoul 0 a, strtoul 0 v) :: pairs args
  | _ => []

theorem pairs_nil : pairs [] = [] := rfl

/-- The last value for an address. -/
def lastValue (ps : List (UInt32 × UInt32)) (addr : UInt32) : Option UInt32 := ps.reverse.lookup addr

/-- An entry of a table of requests, for a register with or without a value. -/
def entryOf (addr : UInt32) : Option UInt32 → Register
  | some v => ⟨addr, v⟩
  | none => ⟨0, 0⟩

/-- The table with the values of `f`. -/
def tableOf (regDef : List Register) (f : UInt32 → Option UInt32) : List Register :=
  regDef.map fun d => entryOf d.addr (f d.addr)

theorem lastValue_concat (ps : List (UInt32 × UInt32)) (p : UInt32 × UInt32) :
    lastValue (ps ++ [p]) = Function.update (lastValue ps) p.1 (some p.2) := by
  funext addr
  rw [lastValue, List.reverse_append, List.reverse_singleton, List.singleton_append, List.lookup_cons]
  by_cases h : addr = p.1
  · rw [h, beq_self_eq_true, Function.update_self]
  · rw [beq_false_of_ne h, Function.update_of_ne h]
    rfl

theorem tableOf_update_of_notMem {regDef : List Register} {addr : UInt32}
    (h : addr ∉ regDef.map Register.addr) (f : UInt32 → Option UInt32) (v : Option UInt32) :
    tableOf regDef (Function.update f addr v) = tableOf regDef f := by
  refine List.map_congr_left fun d hd => ?_
  have hne : d.addr ≠ addr := by
    rintro rfl
    exact h (List.mem_map_of_mem hd)
  rw [Function.update_of_ne hne]

/-- A register that the part has gets the value. -/
theorem addRegValue_tableOf {regDef : List Register} (hnodup : (regDef.map Register.addr).Nodup)
    (addr val : UInt32) (f : UInt32 → Option UInt32) :
    addRegValue addr val (tableOf regDef f) regDef =
      if addr ∈ regDef.map Register.addr then
        some (tableOf regDef (Function.update f addr (some val)))
      else none := by
  induction regDef with
  | nil => rfl
  | cons d regDef ih =>
    rw [List.map_cons, List.nodup_cons] at hnodup
    show (if addr = d.addr then some (⟨addr, val⟩ :: tableOf regDef f)
      else (addRegValue addr val (tableOf regDef f) regDef).map (entryOf d.addr (f d.addr) :: ·)) = _
    by_cases h : addr = d.addr
    · subst h
      rw [if_pos rfl, List.map_cons, if_pos List.mem_cons_self]
      show _ = some (entryOf d.addr (Function.update f d.addr (some val) d.addr) ::
        tableOf regDef (Function.update f d.addr (some val)))
      rw [Function.update_self, tableOf_update_of_notMem hnodup.1]
      rfl
    · rw [if_neg h, ih hnodup.2]
      by_cases hmem : addr ∈ regDef.map Register.addr
      · rw [if_pos hmem, List.map_cons, if_pos (List.mem_cons_of_mem _ hmem)]
        show _ = some (entryOf d.addr (Function.update f addr (some val) d.addr) ::
          tableOf regDef (Function.update f addr (some val)))
        rw [Function.update_of_ne (Ne.symm h)]
        rfl
      · have hmem' : addr ∉ (d :: regDef).map Register.addr := by
          rw [List.map_cons, List.mem_cons, not_or]
          exact ⟨h, hmem⟩
        rw [if_neg hmem, if_neg hmem']
        rfl

theorem drop_pair {args : List Text} {i : Nat} (h : i + 1 < args.length) :
    args.drop i = args.getD i [] :: args.getD (i + 1) [] :: args.drop (i + 2) := by
  rw [List.drop_eq_getElem_cons (Nat.lt_of_succ_lt h), List.drop_eq_getElem_cons h,
    List.getD_eq_getElem?_getD, List.getD_eq_getElem?_getD, List.getElem?_eq_getElem h,
    List.getElem?_eq_getElem (Nat.lt_of_succ_lt h)]
  rfl

/-- The index wraps, and the loop goes on. -/
theorem parseFrom_long {args : List Text} (h : 256 ≤ args.length) (regDef : List Register)
    (fuel : Nat) (i : UInt8) (regReq : List Register) (n : UInt8) :
    parseFrom args regDef fuel i regReq n = none := by
  induction fuel generalizing i regReq n with
  | zero =>
    have hi := i.toNat_lt
    rw [parseFrom, if_neg (by omega)]
  | succ fuel ih =>
    have hi := i.toNat_lt
    rw [parseFrom, if_neg (by omega)]
    dsimp only
    split
    · exact ih _ _ _
    · exact ih _ _ _

/-- How many of the pairs are for registers that the part has. -/
def known (regDef : List Register) (ps : List (UInt32 × UInt32)) : Nat :=
  ps.countP fun p => p.1 ∈ regDef.map Register.addr

theorem known_cons_of_mem {regDef : List Register} {p : UInt32 × UInt32}
    (h : p.1 ∈ regDef.map Register.addr) (ps : List (UInt32 × UInt32)) :
    known regDef (p :: ps) = known regDef ps + 1 := List.countP_cons_of_pos (by simpa using h)

theorem known_cons_of_notMem {regDef : List Register} {p : UInt32 × UInt32}
    (h : p.1 ∉ regDef.map Register.addr) (ps : List (UInt32 × UInt32)) :
    known regDef (p :: ps) = known regDef ps := List.countP_cons_of_neg (by simpa using h)

/-- One turn for each pair, and the table has the last value that the command line gives each
register. -/
theorem parseFrom_eq {args : List Text} (heven : args.length % 2 = 0) (hshort : args.length < 256)
    {regDef : List Register} (hnodup : (regDef.map Register.addr).Nodup) (fuel : Nat) {i : UInt8}
    (hi : i.toNat % 2 = 0) (seen : List (UInt32 × UInt32)) (n : UInt8) :
    parseFrom args regDef fuel i (tableOf regDef (lastValue seen)) n =
      if (args.length - i.toNat) / 2 ≤ fuel then
        some (decide (0 < n + UInt8.ofNat (known regDef (pairs (args.drop i.toNat)))),
          tableOf regDef (lastValue (seen ++ pairs (args.drop i.toNat))))
      else none := by
  induction fuel generalizing i seen n with
  | zero =>
    rw [parseFrom]
    by_cases hend : args.length ≤ i.toNat
    · rw [if_pos hend, if_pos (by omega), List.drop_eq_nil_of_le hend, pairs_nil, List.append_nil]
      show some (decide (0 < n), _) = some (decide (0 < n + 0), _)
      rw [UInt8.add_zero]
    · rw [if_neg hend, if_neg (by omega)]
  | succ fuel ih =>
    rw [parseFrom]
    by_cases hend : args.length ≤ i.toNat
    · rw [if_pos hend, if_pos (by omega), List.drop_eq_nil_of_le hend, pairs_nil, List.append_nil]
      show some (decide (0 < n), _) = some (decide (0 < n + 0), _)
      rw [UInt8.add_zero]
    · have hnext : (i + 2).toNat = i.toNat + 2 := by
        rw [UInt8.toNat_add]
        exact Nat.mod_eq_of_lt (show i.toNat + 2 < 256 by omega)
      have hfuel : (args.length - (i + 2).toNat) / 2 ≤ fuel ↔
          (args.length - i.toNat) / 2 ≤ fuel + 1 := by
        rw [hnext]
        omega
      rw [if_neg hend, drop_pair (by omega), pairs, ← hnext]
      generalize strtoul 0 (args.getD i.toNat []) = addr
      generalize strtoul 0 (args.getD (i.toNat + 1) []) = val
      have htable : tableOf regDef (Function.update (lastValue seen) addr (some val)) =
          tableOf regDef (lastValue (seen ++ [(addr, val)])) :=
        congrArg (tableOf regDef) (lastValue_concat seen (addr, val)).symm
      rw [← List.singleton_append, ← List.append_assoc]
      dsimp only
      rw [addRegValue_tableOf hnodup]
      by_cases hmem : addr ∈ regDef.map Register.addr
      · rw [if_pos hmem]
        dsimp only
        rw [htable, ih (by omega)]
        have hcount : n + 1 + UInt8.ofNat (known regDef (pairs (args.drop (i + 2).toNat))) =
            n + UInt8.ofNat (known regDef ([(addr, val)] ++ pairs (args.drop (i + 2).toNat))) := by
          rw [List.singleton_append, known_cons_of_mem hmem, Nat.add_comm _ 1, UInt8.ofNat_add,
            ← UInt8.add_assoc]
          rfl
        rw [hcount, if_congr hfuel rfl rfl]
      · rw [if_neg hmem]
        dsimp only
        rw [← tableOf_update_of_notMem hmem (lastValue seen) (some val), htable, ih (by omega)]
        have hcount : known regDef (pairs (args.drop (i + 2).toNat)) =
            known regDef ([(addr, val)] ++ pairs (args.drop (i + 2).toNat)) := by
          rw [List.singleton_append, known_cons_of_notMem hmem]
        rw [hcount, if_congr hfuel rfl rfl]

/-- When the loop ends, the table has the last values. -/
theorem parseFrom_table {args : List Text} (heven : args.length % 2 = 0) {regDef : List Register}
    (hnodup : (regDef.map Register.addr).Nodup) {fuel : Nat} {ok : Bool} {regReq : List Register}
    (h : parseFrom args regDef fuel 0 (tableOf regDef (lastValue [])) 0 = some (ok, regReq)) :
    regReq = tableOf regDef (lastValue (pairs args)) := by
  by_cases hshort : args.length < 256
  · rw [parseFrom_eq heven hshort hnodup fuel rfl] at h
    split at h
    · cases h
      rfl
    · contradiction
  · rw [parseFrom_long (Nat.not_lt.mp hshort)] at h
    contradiction

/-! ## What a session writes -/

/-- What a message tells about irreversible operations. -/
def status? : BusEvent → Option Bool
  | .text t =>
    if t = irreversibleText true then some true
    else if t = irreversibleText false then some false
    else none
  | _ => none

/-- What the last message has told. They are disabled before the first one. -/
def told (log : List BusEvent) : Bool := (log.filterMap status?).getLastD false

/-- The protection level is set to 2. -/
def Locks : BusEvent → Prop
  | .write32 addr val => addr = flashOptr ∧ val &&& flashOptrRdpMask = 0xCC
  | _ => False

instance : DecidablePred Locks
  | .write32 _ _ => inferInstanceAs (Decidable (_ ∧ _))
  | .write16 _ _ => .isFalse id
  | .text _ => .isFalse id

/-- Behind what has been told, the protection level may be set. -/
def Clean (log : List BusEvent) : Prop :=
  ∀ before e after, log = before ++ e :: after → Locks e → told before = true

/-- The registers besides those with options. -/
def control : List UInt32 := [flashKeyr, flashOptkeyr, flashCr]

/-- A write to an option register is asked for. -/
def Sourced (asked : UInt32 → UInt32 → Prop) : BusEvent → Prop
  | .write32 addr val => addr ∈ control ∨ asked addr val
  | .write16 _ _ => False
  | .text _ => True

/-- What a command asks for: the defaults, or the last values on its command line for registers that
the part has. -/
def Call.Asks (c : Call) (addr val : UInt32) : Prop :=
  c.handler = .option ∧
    ((c.argv.getD 1 [] = ascii "erase" ∧ ⟨addr, val⟩ ∈ optionsDef) ∨
      (c.argv.getD 1 [] = ascii "write" ∧ addr ∈ optionsDef.map Register.addr ∧
        lastValue (pairs (c.argv.drop 2)) addr = some val))

theorem told_concat (log : List BusEvent) (e : BusEvent) :
    told (log ++ [e]) = (status? e).getD (told log) := by
  unfold told
  rw [List.filterMap_append, List.filterMap_cons, List.filterMap_nil]
  cases status? e with
  | none => rw [List.append_nil, Option.getD_none]
  | some b => rw [List.getLastD_concat, Option.getD_some]

theorem Clean.concat {log : List BusEvent} (h : Clean log) {e : BusEvent}
    (he : Locks e → told log = true) : Clean (log ++ [e]) := by
  intro before e' after heq hlocks
  rcases List.eq_nil_or_concat after with rfl | ⟨after, e'', rfl⟩
  · obtain ⟨hlog, hend⟩ := List.append_inj' heq rfl
    cases hend
    exact hlog ▸ he hlocks
  · rw [List.concat_eq_append, ← List.cons_append, ← List.append_assoc] at heq
    exact h before e' after (List.append_inj' heq rfl).1 hlocks

section

variable {δ : Type} {B : BusDevice δ} {asked : UInt32 → UInt32 → Prop} {Q : Bool → Prop} {fuel : Nat}

structure Safe (asked : UInt32 → UInt32 → Prop) (s : BusHost δ Bool) : Prop where
  clean : Clean s.log
  sourced : ∀ e ∈ s.log, Sourced asked e

/-- Between two messages, while `Q` holds of `irreversible_enabled`. -/
structure Inv (asked : UInt32 → UInt32 → Prop) (Q : Bool → Prop) (s : BusHost δ Bool) : Prop where
  safe : Safe asked s
  told : told s.log = s.priv
  priv : Q s.priv

theorem inv_deviceFree : DeviceFree (Inv (δ := δ) asked Q) := fun _ _ h => ⟨⟨h.1.1, h.1.2⟩, h.2, h.3⟩

theorem Safe.concat {s : BusHost δ Bool} (h : Safe asked s) {e : BusEvent}
    (hlocks : Locks e → G0Options.told s.log = true) (hsourced : Sourced asked e) (d : δ) :
    Safe asked { s with device := d, log := s.log ++ [e] } where
  clean := h.clean.concat hlocks
  sourced e' he' := by
    rcases List.mem_append.mp he' with he' | he'
    · exact h.sourced e' he'
    · rw [List.mem_singleton.mp he']
      exact hsourced

/-- An event that is no message about the state. -/
theorem Inv.concat {s : BusHost δ Bool} (h : Inv asked Q s) {e : BusEvent} (hstatus : status? e = none)
    (hlocks : Locks e → ∀ p, Q p → p = true) (hsourced : Sourced asked e) (d : δ) :
    Inv asked Q { s with device := d, log := s.log ++ [e] } where
  safe := h.safe.concat (fun he => h.told.trans (hlocks he _ h.priv)) hsourced d
  told := by
    rw [told_concat, hstatus]
    exact h.told
  priv := h.priv

theorem keeps_writeWord {addr val : UInt32}
    (hlocks : Locks (.write32 addr val) → ∀ p, Q p → p = true)
    (hsourced : addr ∈ control ∨ asked addr val) : Keeps (Inv asked Q) (B.writeWord addr val) :=
  Keeps.modify fun _ hs => hs.concat rfl hlocks hsourced _

theorem keeps_control {addr : UInt32} (haddr : addr ∈ control) (val : UInt32) :
    Keeps (Inv asked Q) (B.writeWord addr val) := by
  have hne : addr ≠ flashOptr := by
    rintro rfl
    revert haddr
    decide
  exact keeps_writeWord (fun h => absurd h.1 hne) (.inl haddr)

theorem keeps_printText {t : Text} (h : status? (.text t) = none) :
    Keeps (Inv (δ := δ) asked Q) (printText t) :=
  Keeps.modify fun s hs => hs.concat h False.elim trivial s.device

theorem keeps_flashUnlock : Keeps (Inv asked Q) (stm32g0FlashUnlock B) :=
  (keeps_control (by decide) _).bind fun _ => keeps_control (by decide) _

theorem keeps_flashLock : Keeps (Inv asked Q) (stm32g0FlashLock B) :=
  (inv_deviceFree.keeps_readWord _).bind fun _ => keeps_control (by decide) _

theorem keeps_optionUnlock : Keeps (Inv asked Q) (stm32g0FlashOptionUnlock B) :=
  (keeps_control (by decide) _).bind fun _ => keeps_control (by decide) _

/-- Requests that are asked for, and are not for level 2 unless it is allowed, are written. -/
theorem keeps_writeRegisters {regs : List Register}
    (hlocks : ∀ r ∈ regs, Locks (.write32 r.addr r.val) → ∀ p, Q p → p = true)
    (hasked : ∀ r ∈ regs, 0 < r.addr → asked r.addr r.val) :
    Keeps (Inv asked Q) (writeRegisters B regs) := by
  refine keeps_forM fun r hr => ?_
  refine Triple.ite (fun hpos => ?_) fun _ => Keeps.pure _
  exact keeps_writeWord (hlocks r hr) (.inr (hasked r hr hpos))

theorem keeps_optionWrite {regs : List Register}
    (hlocks : ∀ r ∈ regs, Locks (.write32 r.addr r.val) → ∀ p, Q p → p = true)
    (hasked : ∀ r ∈ regs, 0 < r.addr → asked r.addr r.val) :
    Keeps (Inv asked Q) (stm32g0OptionWrite B fuel regs) := by
  have hfailed : Keeps (Inv asked Q) (stm32g0FlashLock B >>= fun _ => pure false) :=
    keeps_flashLock.bind fun _ => Keeps.pure _
  refine keeps_flashUnlock.bind fun _ => keeps_optionUnlock.bind fun _ => ?_
  refine (inv_deviceFree.keeps_poll _ _ _).bind fun _ => Keeps.ite ?_ hfailed
  refine (keeps_writeRegisters hlocks hasked).bind fun _ => ?_
  refine (keeps_control (by decide) _).bind fun _ => ?_
  refine (inv_deviceFree.keeps_poll _ _ _).bind fun _ => Keeps.ite ?_ hfailed
  refine (keeps_control (by decide) _).bind fun _ => ?_
  exact (keeps_printText (by decide)).bind fun _ => Keeps.pure _

/-! ### The commands -/

theorem status?_of_head {t : Text} {c : UInt8} (ht : t.head? = some c) (hc : c ≠ 0x49) :
    status? (.text t) = none := by
  have hne : ∀ b, t ≠ irreversibleText b := by
    rintro b rfl
    have hhead : (irreversibleText b).head? = some 0x49 := by cases b <;> rfl
    exact hc (Option.some.inj (ht.symm.trans hhead))
  rw [status?, if_neg (hne true), if_neg (hne false)]

theorem keeps_said {t : Text} {c : UInt8} (ht : t.head? = some c) (hc : c ≠ 0x49) :
    Keeps (Inv (δ := δ) asked Q) (printText t) := keeps_printText (status?_of_head ht hc)

theorem head?_append_left {t t' : Text} {c : UInt8} (h : t.head? = some c) :
    (t ++ t').head? = some c := by
  rw [List.head?_append, h, Option.some_or]

theorem keeps_displayRegisters (regDef : List Register) :
    Keeps (Inv asked Q) (displayRegisters B regDef) := by
  refine Keeps.forM (fun r => (inv_deviceFree.keeps_readWord _).bind fun val => ?_) regDef
  have hhead : (ascii "0x").head? = some 0x30 := rfl
  exact keeps_said (head?_append_left (head?_append_left (head?_append_left (head?_append_left hhead))))
    (by decide)

theorem keeps_optionFailed : Keeps (Inv (δ := δ) asked Q) optionFailed :=
  (keeps_said (c := 0x57) rfl (by decide)).bind fun _ => Keeps.pure _

/-- The options are written, and a failure is reported. -/
theorem keeps_reported {regs : List Register}
    (hlocks : ∀ r ∈ regs, Locks (.write32 r.addr r.val) → ∀ p, Q p → p = true)
    (hasked : ∀ r ∈ regs, 0 < r.addr → asked r.addr r.val) :
    Keeps (Inv asked Q) (stm32g0OptionWrite B fuel regs >>= fun ok =>
      if ok then pure true else optionFailed) :=
  (keeps_optionWrite hlocks hasked).bind fun _ => Keeps.ite (Keeps.pure _) keeps_optionFailed

theorem keeps_cmdEraseMass (argv : List Text) :
    Keeps (Inv asked Q) (stm32g0CmdEraseMass B fuel argv) := by
  refine Keeps.bind ?_ fun _ => keeps_flashLock.bind fun _ => Keeps.pure _
  cases eraseMassCr argv with
  | none => exact Keeps.pure _
  | some cr =>
    refine keeps_flashUnlock.bind fun _ => (keeps_control (by decide) _).bind fun _ => ?_
    refine (inv_deviceFree.keeps_poll _ _ _).bind fun _ => Keeps.ite ?_ (Keeps.pure _)
    exact (inv_deviceFree.keeps_readWord _).bind fun _ => Keeps.pure _

theorem applyToggle_safe (t : Toggle) :
    Triple (Inv (δ := δ) asked Q) (applyToggle t) (fun _ => Safe asked)
      fun _ => Inv asked fun _ => True := by
  have hsaid : ∀ {t : Text} {c : UInt8}, t.head? = some c → c ≠ 0x49 →
      Triple (Inv (δ := δ) asked Q) (printText t >>= fun _ => pure false) (fun _ => Safe asked)
        fun _ => Inv asked fun _ => True := by
    intro t c ht hc s hs
    exact (hs.concat (e := .text t) (status?_of_head ht hc) False.elim trivial s.device).safe
  have hmissing : (ascii "'enable' or 'disable' argument must be provided\n").head? = some 0x27 :=
    rfl
  cases t with
  | set b => exact fun _ hs => ⟨hs.safe.clean, hs.safe.sourced⟩
  | notRecognized t =>
    have hhead : (ascii "Argument '").head? = some 0x41 := rfl
    exact hsaid (head?_append_left (head?_append_left hhead)) (by decide)
  | status => exact hsaid hmissing (by decide)
  | notProvided => exact hsaid hmissing (by decide)
  | unrecognizedFormat => exact hsaid hmissing (by decide)

theorem status?_irreversibleText (b : Bool) : status? (.text (irreversibleText b)) = some b := by
  cases b <;> rfl

theorem keeps_cmdIrreversible (argv : List Text) :
    Keeps (Inv (δ := δ) asked fun _ => True) (stm32g0CmdIrreversible argv) := by
  refine Triple.bind (Q := fun _ => Safe asked) (Triple.ite (fun _ => applyToggle_safe _) fun _ => ?_)
    fun ret s hs => ?_
  · exact Triple.pure fun _ hs => hs.safe
  · have hsafe := hs.concat (e := .text (irreversibleText s.priv)) False.elim trivial s.device
    refine ⟨hsafe, ?_, trivial⟩
    show told (s.log ++ [.text (irreversibleText s.priv)]) = s.priv
    rw [told_concat, status?_irreversibleText, Option.getD_some]

/-- The requests pass when they are not for level 2 or it is allowed. -/
theorem validateOptions_spec (regs : List Register) :
    Triple (Inv (δ := δ) asked fun _ => True) (validateOptions regs)
      (fun ok => Inv asked fun p => ok = true →
        (regs.headD ⟨0, 0⟩).val &&& flashOptrRdpMask = 0xCC → p = true)
      fun _ => Inv asked fun _ => True := by
  intro s hs
  by_cases h : (regs.headD ⟨0, 0⟩).val &&& flashOptrRdpMask = 0xCC ∧ s.priv = false
  · have hrun : validateOptions regs s = .ok false
        { s with log := s.log ++ [.text (ascii "Irreversible operations disabled\n")] } := by
      show (if _ then _ else _ : Driver δ Bool) s = _
      rw [if_pos h]
      rfl
    have hsaid := hs.concat (e := .text (ascii "Irreversible operations disabled\n"))
      rfl False.elim trivial s.device
    rw [hrun]
    exact ⟨hsaid.safe, hsaid.told, fun hok => absurd hok Bool.false_ne_true⟩
  · have hrun : validateOptions regs s = .ok true s := by
      show (if _ then _ else _ : Driver δ Bool) s = _
      rw [if_neg h]
      rfl
    rw [hrun]
    exact ⟨hs.safe, hs.told, fun _ hlevel => Bool.not_eq_false _ |>.mp fun hp => h ⟨hlevel, hp⟩⟩

theorem mem_tableOf {regDef : List Register} {f : UInt32 → Option UInt32} {r : Register}
    (hr : r ∈ tableOf regDef f) (hpos : 0 < r.addr) :
    r.addr ∈ regDef.map Register.addr ∧ f r.addr = some r.val := by
  obtain ⟨d, hd, hr⟩ := List.mem_map.mp hr
  cases hf : f d.addr with
  | none =>
    rw [hf] at hr
    rw [← hr] at hpos
    exact absurd hpos (UInt32.lt_irrefl 0)
  | some v =>
    rw [hf] at hr
    rw [← hr]
    exact ⟨List.mem_map.mpr ⟨d, hd, rfl⟩, hf⟩

/-- The only request for the protection level is the first one. -/
theorem tableOf_optr {f : UInt32 → Option UInt32} {r : Register} (hr : r ∈ tableOf optionsDef f)
    (haddr : r.addr = flashOptr) : (tableOf optionsDef f).headD ⟨0, 0⟩ = r := by
  have hval := (mem_tableOf hr (by rw [haddr]; decide)).2
  show entryOf flashOptr (f flashOptr) = r
  rw [← haddr, hval]
  rfl

theorem parseCmdlineRegisters_spec {args : List Text} (heven : args.length % 2 = 0) :
    Triple (Inv (δ := δ) asked Q) (parseCmdlineRegisters fuel args)
      (fun parsed s => parsed.2 = tableOf optionsDef (lastValue (pairs args)) ∧ Inv asked Q s)
      fun _ => Inv asked Q := by
  unfold parseCmdlineRegisters
  cases hparse : parseFrom args optionsDef fuel 0 (List.replicate optionsDef.length ⟨0, 0⟩) 0 with
  | none => exact Triple.throw fun _ hs => hs
  | some parsed =>
    refine Triple.pure fun _ hs => ⟨?_, hs⟩
    exact parseFrom_table heven (by decide) hparse

-- The texts of the messages are not to be computed when programs are taken apart.
attribute [local irreducible] printText

theorem keeps_cmdOption {argv : List Text}
    (hasked : ∀ addr val, Call.Asks ⟨.option, argv⟩ addr val → asked addr val) :
    Keeps (Inv asked fun _ => True) (stm32g0CmdOption B fuel argv) := by
  unfold stm32g0CmdOption
  refine Triple.ite (fun herase => ?_) fun _ => Triple.ite (fun hwrite => ?_) fun _ => ?_
  · have hdefault : ∀ r ∈ optionsDef, ¬ Locks (.write32 r.addr r.val) := by decide
    refine keeps_reported (fun r hr h => absurd h (hdefault r hr)) fun r hr _ => ?_
    exact hasked r.addr r.val ⟨rfl, .inl ⟨herase.2, hr⟩⟩
  · have heven : (argv.drop 2).length % 2 = 0 := by
      rw [List.length_drop]
      omega
    refine Triple.bind (parseCmdlineRegisters_spec heven) fun parsed => Triple.and_pre fun htable => ?_
    refine Triple.ite (fun _ => keeps_optionFailed) fun _ => ?_
    refine Triple.bind (validateOptions_spec parsed.2) fun ok => Triple.ite (fun hok => ?_) fun hok => ?_
    · exact keeps_optionFailed.pre fun _ hs => ⟨hs.safe, hs.told, trivial⟩
    · have hvalid : ok = true := by
        cases ok with
        | true => rfl
        | false => exact absurd rfl hok
      have hlocks : ∀ r ∈ parsed.2, Locks (.write32 r.addr r.val) →
          ∀ p, (ok = true → (parsed.2.headD ⟨0, 0⟩).val &&& flashOptrRdpMask = 0xCC → p = true) →
            p = true := by
        rintro r hr ⟨haddr, hlevel⟩ p hp
        rw [htable] at hr hp
        exact hp hvalid (by rw [tableOf_optr hr haddr]; exact hlevel)
      have hrequests : ∀ r ∈ parsed.2, 0 < r.addr → asked r.addr r.val := by
        intro r hr hpos
        rw [htable] at hr
        exact hasked _ _ ⟨rfl, .inr ⟨hwrite.2.2, mem_tableOf hr hpos⟩⟩
      exact (keeps_reported hlocks hrequests).conseq (fun _ => id)
        (fun _ _ hs => ⟨hs.safe, hs.told, trivial⟩) fun _ _ hs => ⟨hs.safe, hs.told, trivial⟩
  · have herase : (ascii "usage: monitor option erase\n").head? = some 0x75 := rfl
    have hwrite : (ascii "usage: monitor option write <addr> <val> [<addr> <val>]...\n").head? =
        some 0x75 := rfl
    refine Keeps.bind (keeps_said herase (by decide)) fun _ => ?_
    refine (keeps_said hwrite (by decide)).bind fun _ => ?_
    exact (keeps_displayRegisters _).bind fun _ => Keeps.pure _

theorem Call.keeps_run {c : Call} (hasked : ∀ addr val, c.Asks addr val → asked addr val) :
    Keeps (Inv asked fun _ => True) (c.run B fuel) := by
  obtain ⟨handler, argv⟩ := c
  cases handler with
  | eraseMass => exact keeps_cmdEraseMass argv
  | option => exact keeps_cmdOption hasked
  | irreversible => exact keeps_cmdIrreversible argv

/-- However far a session has come, the protection level has not been set to 2 unless the last message
has told that irreversible operations are enabled, and what has been written to an option register is
what one of the commands asks for. -/
theorem session_options (B : BusDevice δ) (fuel : Nat) (calls : List Call) (d : δ) :
    let log := (final (session B fuel calls ⟨d, false, []⟩)).log
    Clean log ∧ ∀ e ∈ log, Sourced (fun addr val => ∃ c ∈ calls, c.Asks addr val) e := by
  have hkeeps : Keeps (Inv (fun addr val => ∃ c ∈ calls, c.Asks addr val) fun _ => True)
      (session B fuel calls) :=
    keeps_forM fun c hc => (Call.keeps_run fun addr val h => ⟨c, hc, h⟩).discard
  have hstart : Inv (fun addr val => ∃ c ∈ calls, c.Asks addr val) (fun _ => True)
      (⟨d, false, []⟩ : BusHost δ Bool) := by
    refine ⟨⟨fun before e after h => ?_, fun e he => absurd he List.not_mem_nil⟩, rfl, trivial⟩
    exact absurd h.symm (List.append_ne_nil_of_right_ne_nil _ (List.cons_ne_nil _ _))
  exact ⟨(hkeeps.final hstart).safe.clean, (hkeeps.final hstart).safe.sourced⟩

end

/-! ## What a request writes -/

/-- The writes for the registers that have a value, in the order of the table. -/
def requests (ps : List (UInt32 × UInt32)) : List BusEvent :=
  optionsDef.filterMap fun d => (lastValue ps d.addr).map (.write32 d.addr)

/-- What `option write` reports and does. -/
def outcome (irreversibleEnabled : Bool) (ps : List (UInt32 × UInt32)) : Bool × List BusEvent :=
  if known optionsDef ps = 0 then (false, [.text (ascii "Writing options failed!\n")])
  else if (lastValue ps flashOptr).any (fun v => v &&& flashOptrRdpMask = 0xCC) ∧
      irreversibleEnabled = false then
    (false, [.text (ascii "Irreversible operations disabled\n"),
      .text (ascii "Writing options failed!\n")])
  else
    (true, [BusEvent.write32 flashKeyr flashKeyrKey1, .write32 flashKeyr flashKeyrKey2,
        .write32 flashOptkeyr flashOptkeyrKey1, .write32 flashOptkeyr flashOptkeyrKey2] ++
      requests ps ++
      [BusEvent.write32 flashCr flashCrOptstrt, .write32 flashCr flashCrOblLaunch,
        .text (ascii "Scan and attach again\n")])

section

variable {δ : Type} {B : BusDevice δ} {fuel : Nat} {priv : Bool}

theorem emits_writeRegisters {regDef : List Register} (hpos : ∀ r ∈ regDef, 0 < r.addr)
    (f : UInt32 → Option UInt32) :
    Emits priv (writeRegisters B (tableOf regDef f)) ()
      (regDef.filterMap fun r => (f r.addr).map (.write32 r.addr)) := by
  induction regDef with
  | nil => exact Emits.pure ()
  | cons r regDef ih =>
    have hrest := ih fun b hb => hpos b (List.mem_cons_of_mem r hb)
    show Emits priv (writeRegister B (entryOf r.addr (f r.addr)) >>= fun _ =>
      writeRegisters B (tableOf regDef f)) () _
    rw [List.filterMap_cons]
    cases f r.addr with
    | none =>
      have hfirst : Emits priv (writeRegister B ⟨0, 0⟩) () [] :=
        Emits.ite_neg (UInt32.lt_irrefl 0) (Emits.pure ())
      exact hfirst.bind hrest
    | some v =>
      have hfirst : Emits priv (writeRegister B ⟨r.addr, v⟩) () [.write32 r.addr v] :=
        Emits.ite_pos (hpos r List.mem_cons_self) (Emits.writeWord r.addr v)
      exact hfirst.bind hrest

theorem emits_optionWrite (hready : ∀ d, B.Settles flashSr flashSrBsyMask fuel d)
    (ps : List (UInt32 × UInt32)) :
    Emits priv (stm32g0OptionWrite B fuel (tableOf optionsDef (lastValue ps))) true
      ([BusEvent.write32 flashKeyr flashKeyrKey1, .write32 flashKeyr flashKeyrKey2,
          .write32 flashOptkeyr flashOptkeyrKey1, .write32 flashOptkeyr flashOptkeyrKey2] ++
        requests ps ++ [BusEvent.write32 flashCr flashCrOptstrt, .write32 flashCr flashCrOblLaunch,
          .text (ascii "Scan and attach again\n")]) := by
  have hunlock : Emits priv (stm32g0FlashUnlock B) ()
      [.write32 flashKeyr flashKeyrKey1, .write32 flashKeyr flashKeyrKey2] :=
    (Emits.writeWord _ _).bind (Emits.writeWord _ _)
  have hoptions : Emits priv (stm32g0FlashOptionUnlock B) ()
      [.write32 flashOptkeyr flashOptkeyrKey1, .write32 flashOptkeyr flashOptkeyrKey2] :=
    (Emits.writeWord _ _).bind (Emits.writeWord _ _)
  have hregisters : Emits priv (writeRegisters B (tableOf optionsDef (lastValue ps))) ()
      (requests ps) := emits_writeRegisters (by decide) (lastValue ps)
  have hready' : Emits priv (B.poll flashSr flashSrBsyMask fuel) true [] := Emits.poll hready
  have hrun : Emits priv (stm32g0OptionWrite B fuel (tableOf optionsDef (lastValue ps))) true
      ([BusEvent.write32 flashKeyr flashKeyrKey1, .write32 flashKeyr flashKeyrKey2] ++
        ([BusEvent.write32 flashOptkeyr flashOptkeyrKey1, .write32 flashOptkeyr flashOptkeyrKey2] ++
        ([] ++ (requests ps ++ ([BusEvent.write32 flashCr flashCrOptstrt] ++ ([] ++
        ([BusEvent.write32 flashCr flashCrOblLaunch] ++
        ([BusEvent.text (ascii "Scan and attach again\n")] ++ [])))))))) := by
    refine hunlock.bind (hoptions.bind ?_)
    refine hready'.bind (Emits.ite_pos rfl ?_)
    refine hregisters.bind ((Emits.writeWord _ _).bind ?_)
    refine hready'.bind (Emits.ite_pos rfl ?_)
    exact (Emits.writeWord _ _).bind ((Emits.printText _).bind (Emits.pure true))
  simpa only [List.nil_append, List.append_nil, List.cons_append] using hrun

theorem pairs_length (args : List Text) : (pairs args).length = args.length / 2 := by
  fun_induction pairs args with
  | case1 a v args ih =>
    rw [List.length_cons, ih, List.length_cons, List.length_cons]
    omega
  | case2 args h =>
    match args, h with
    | [], _ => rfl
    | [_], _ => exact (Nat.div_eq_of_lt (Nat.lt_succ_self 1)).symm
    | a :: v :: args, h => exact absurd rfl (h a v args)

/-- Only the request for the protection level can be refused. -/
theorem emits_validateOptions (ps : List (UInt32 × UInt32)) :
    Emits priv (validateOptions (δ := δ) (tableOf optionsDef (lastValue ps)))
      (decide ¬((lastValue ps flashOptr).any (fun v => v &&& flashOptrRdpMask = 0xCC) ∧ priv = false))
      (if (lastValue ps flashOptr).any (fun v => v &&& flashOptrRdpMask = 0xCC) ∧ priv = false then
        [.text (ascii "Irreversible operations disabled\n")] else []) := by
  have hlevel : ((tableOf optionsDef (lastValue ps)).headD ⟨0, 0⟩).val &&& flashOptrRdpMask = 0xCC ↔
      (lastValue ps flashOptr).any (fun v => v &&& flashOptrRdpMask = 0xCC) = true := by
    show (entryOf flashOptr (lastValue ps flashOptr)).val &&& flashOptrRdpMask = 0xCC ↔ _
    cases lastValue ps flashOptr with
    | none => decide
    | some v => exact decide_eq_true_iff.symm
  intro d log
  show ∃ d', (if _ ∧ priv = false then _ else _ : Driver δ Bool) _ = _
  by_cases h : (lastValue ps flashOptr).any (fun v => v &&& flashOptrRdpMask = 0xCC) ∧ priv = false
  · rw [if_pos ⟨hlevel.mpr h.1, h.2⟩, if_pos h, decide_eq_false (not_not.mpr h)]
    exact ⟨d, rfl⟩
  · rw [if_neg fun h' => h ⟨hlevel.mp h'.1, h'.2⟩, if_neg h, decide_eq_true h, List.append_nil]
    exact ⟨d, rfl⟩

theorem parseCmdlineRegisters_eq (hfuel : 127 ≤ fuel) {args : List Text}
    (heven : args.length % 2 = 0) (hroom : args.length < 256) :
    parseCmdlineRegisters (δ := δ) fuel args =
      pure (decide (known optionsDef (pairs args) ≠ 0), tableOf optionsDef (lastValue (pairs args))) := by
  have hparse := parseFrom_eq heven hroom (show (optionsDef.map Register.addr).Nodup by decide) fuel
    (show (0 : UInt8).toNat % 2 = 0 from rfl) [] 0
  have hknown : known optionsDef (pairs args) ≤ 127 := by
    have hle := List.countP_le_length (l := pairs args)
      (p := fun p => p.1 ∈ optionsDef.map Register.addr)
    rw [pairs_length] at hle
    exact Nat.le_trans hle (by omega)
  have hpos : (0 < 0 + UInt8.ofNat (known optionsDef (pairs args))) =
      (known optionsDef (pairs args) ≠ 0) := by
    rw [UInt8.zero_add, UInt8.lt_iff_toNat_lt, UInt8.toNat_ofNat_of_lt' (show _ < 256 by omega)]
    exact propext Nat.pos_iff_ne_zero
  have hturns : (args.length - (0 : UInt8).toNat) / 2 ≤ fuel := by
    show (args.length - 0) / 2 ≤ fuel
    omega
  rw [if_pos hturns] at hparse
  unfold parseCmdlineRegisters
  show (match parseFrom args optionsDef fuel 0 (tableOf optionsDef (lastValue [])) 0 with
    | some r => pure r | none => throw .turnsUsed : Driver δ _) = _
  rw [hparse]
  show pure (decide (0 < 0 + UInt8.ofNat (known optionsDef (pairs args))), _) = _
  simp only [hpos]
  rfl

theorem emits_optionFailed :
    Emits priv (optionFailed (δ := δ)) false [.text (ascii "Writing options failed!\n")] :=
  (Emits.printText _).bind (Emits.pure false)

/-- A device that is never busy. -/
def idle : BusDevice Unit := ⟨fun _ d => (0, d), fun _ _ d => d, fun _ _ d => d, fun d => (false, d)⟩

end

end MiyakoLink.Stm32.G0Options
