import MiyakoLink.Lib.Lanes
import MiyakoLink.Lib.Snprintf
import MiyakoLink.Semihosting.Cmdline

/-!
# Semihosting calls

`cortexm_hostio_request` of `cortexm.c`. It reads `r0` and `r1`, the four words at `r1`, and does
what the call with the number in `r0` asks for. Most calls are passed on to the host; `HostCall`
is the `F` packet and `Reply` what came back, together with what the host has written to the
variable of the probe whose address it was given. The registers other than `r0` are written back
as they were read, and what the host itself does to target memory is not part of the call.

* `hostioRequest_safe_iff`: the calls that end, stay in the tables of the probe and write only to
  the buffer they are given or to their result words.
-/

namespace MiyakoLink.Semihosting

open Lib

/-- A call to the host, `hostio_open` and so on. -/
inductive HostCall where
  | tcOpen (path plen flags mode : UInt32)
  | tcClose (fd : UInt32)
  | tcRead (fd buf count : UInt32)
  | tcWrite (fd buf count : UInt32)
  | tcLseek (fd offset flag : UInt32)
  | tcRename (oldpath oldlen newpath newlen : UInt32)
  | tcUnlink (path plen : UInt32)
  | tcIsatty (fd : UInt32)
  | tcSystem (cmd cmdlen : UInt32)
  | probeFstat (fd : UInt32)
  | probeGettimeofday
  | probeRead (fd count : UInt32)
  deriving DecidableEq, Repr

/-- What `hostio_reply` reads, and the bytes of the probe's variable afterwards. -/
structure Reply where
  retcode : Int32
  errno : Int32
  interrupted : Bool
  buffer : Nat → UInt8

abbrev Host := HostCall → Reply

/-- What the call sees of the target and of its controller. `mem` is what a read gives, and an
access may report an error; `time0Sec` is the static variable of `cortexm.c`. -/
structure Target where
  r0 : UInt32
  r1 : UInt32
  mem : UInt32 → UInt8
  readFails : UInt32 → Bool
  writeFails : UInt32 → Nat → Bool
  heapinfo : Fin 4 → UInt32
  cmdline : Cmdline
  errno : Int32
  interrupted : Bool
  time0Sec : UInt32

/-- The end of a call: `ret`, and the writes to target memory. -/
structure Handled where
  ret : Int32
  t : Target
  writes : Writes
  resumed : Bool

inductive Outcome where
  | outOfTable
  | returns (h : Handled)

namespace Target

/-- `params[i]`. -/
def param (t : Target) (i : Nat) : UInt32 :=
  ofLanes fun k => t.mem (t.r1 + UInt32.ofNat (4 * i + k))

/-- The host is asked, and its reply is taken over. -/
def call (t : Target) (host : Host) (c : HostCall) : Reply × Target :=
  (host c, { t with errno := (host c).errno, interrupted := (host c).interrupted })

def done (t : Target) (ret : Int32) : Outcome := .returns ⟨ret, t, [], false⟩

/-- A call that returns what the host says. -/
def passOn (t : Target) (host : Host) (c : HostCall) : Outcome :=
  let (r, t) := t.call host c
  t.done r.retcode

end Target

/-! ## Files -/

abbrev oRdonly : UInt32 := 0

abbrev oTrunc : UInt32 := 0x400

/-- `flags` of `SYS_OPEN`: the modes of `fopen` without their `b`. -/
def openFlags : List UInt32 :=
  [oRdonly, 2, 1 ||| 0x200 ||| oTrunc, 2 ||| 0x200 ||| oTrunc, 1 ||| 0x200 ||| 8, 2 ||| 0x200 ||| 8]

/-- `":tt"`, with its terminator. -/
def console : List UInt8 := [0x3A, 0x74, 0x74, 0]

abbrev stdinFileno : UInt32 := 0

abbrev stderrFileno : UInt32 := 2

def sysOpen (host : Host) (t : Target) : Outcome :=
  match openFlags[(t.param 1 >>> 1).toNat]? with
  | none => .outOfTable
  | some pflag =>
    if (List.range 4).map (fun k => t.mem (t.param 0 + UInt32.ofNat k)) = console then
      t.done ((if pflag = oRdonly then 0 else if pflag &&& oTrunc ≠ 0 then 1 else 2) + 1)
    else
      let (r, t) := t.call host (.tcOpen (t.param 0) (t.param 2 + 1) pflag 0o644)
      t.done (if r.retcode ≠ -1 then r.retcode + 1 else r.retcode)

/-- `SYS_READ` and `SYS_WRITE` return the number of bytes that are left. -/
def sysTransfer (host : Host) (t : Target) (c : HostCall) : Outcome :=
  let (r, t) := t.call host c
  t.done (if 0 ≤ r.retcode then (t.param 2 - r.retcode.toUInt32).toInt32 else r.retcode)

/-- The loop of `SYS_WRITE0` over the bytes of the string. -/
def strEnd (t : Target) : Nat → UInt32 → Option UInt32
  | 0, _ => none
  | fuel + 1, a => if t.mem a ≠ 0 ∧ t.readFails a = false then strEnd t fuel (a + 1) else some a

def sysWrite0 (fuel : Nat) (host : Host) (t : Target) : Option Outcome := do
  let strEnd ← strEnd t fuel t.r1
  let len := strEnd - t.r1
  if len ≠ 0 then
    let (r, t) := t.call host (.tcWrite stderrFileno t.r1 len)
    some (t.done (if r.retcode ≠ len.toInt32 then -1 else 0))
  else some (t.done 0)

def sysSeek (host : Host) (t : Target) : Outcome :=
  let (r, t) := t.call host (.tcLseek (t.param 0 - 1) (t.param 1) 0)
  t.done (if r.retcode = (t.param 1).toInt32 then 0 else -1)

/-! ## Calls with a variable of the probe -/

/-- Word `i` of a big-endian structure. -/
def bigEndian (buffer : Nat → UInt8) (i : Nat) : UInt32 := ofLanes fun k => buffer (4 * i + 3 - k)

def sysFlen (host : Host) (t : Target) : Outcome :=
  let (r, t) := t.call host (.probeFstat (t.param 0 - 1))
  if r.retcode ≠ 0 then t.done (-1)
  else if bigEndian r.buffer 7 ≠ 0 then t.done (-1)
  else
    let ret := (bigEndian r.buffer 8).toInt32
    t.done (if ret < 0 then -1 else ret)

/-- `SYS_TIME`, and `SYS_CLOCK` with `clock`. -/
def sysTime (host : Host) (clock : Bool) (t : Target) : Outcome :=
  let (r, t) := t.call host .probeGettimeofday
  if r.retcode ≠ 0 then t.done (-1)
  else
    let sec := bigEndian r.buffer 0
    let usec := (bigEndian r.buffer 1).toUInt64 <<< 32 ||| (bigEndian r.buffer 2).toUInt64
    if !clock then t.done sec.toInt32
    else
      let t := if t.time0Sec > sec then { t with time0Sec := sec } else t
      let csec64 := ((sec - t.time0Sec).toUInt64 * 1000000 + usec) / 10000
      t.done (csec64 &&& 0x7fffffff).toUInt32.toInt32

def sysReadc (host : Host) (t : Target) : Outcome :=
  let (r, t) := t.call host (.probeRead stdinFileno 1)
  t.done (if r.retcode = 1 then (r.buffer 0).toUInt32.toInt32 else -1)

/-! ## Calls that the probe answers itself -/

def wordBytes (w : UInt32) : List UInt8 := (List.range 4).map (lane w)

def sysGetCmdline (t : Target) : Outcome :=
  let bufPtr := t.param 0
  let bufLen := t.param 1
  let size := UInt32.ofNat t.cmdline.string.length + 1
  let first := t.cmdline.string ++ [0]
  let retval := wordBytes bufPtr ++ wordBytes size
  if size > bufLen then t.done (-1)
  else if t.writeFails bufPtr first.length then .returns ⟨-1, t, placed bufPtr first, false⟩
  else
    let writes := placed bufPtr first ++ placed t.r1 retval
    if t.writeFails t.r1 retval.length then .returns ⟨-1, t, writes, false⟩
    else .returns ⟨0, t, writes, false⟩

/-- `enum target_errno`. -/
def targetErrno : List Int32 :=
  [1, 2, 4, 5, 9, 13, 14, 16, 17, 19, 20, 21, 22, 23, 24, 27, 28, 29, 30, 88, 91, 9999]

def sysIserror (t : Target) : Outcome :=
  t.done (if (t.param 0).toInt32 ∈ targetErrno then 1 else 0)

def sysHeapinfo (t : Target) : Outcome :=
  .returns ⟨0, t, placed t.r1 ((List.ofFn t.heapinfo).flatMap wordBytes), false⟩

/-- `"tempXX.tmp"` with the two letters for an identifier, and its terminator. -/
def fnam (targetId : UInt32) : List UInt8 :=
  [0x74, 0x65, 0x6D, 0x70, (0x41 : UInt8) + (targetId >>> 4 &&& 0xF).toUInt8,
    (0x41 : UInt8) + (targetId &&& 0xF).toUInt8, 0x2E, 0x74, 0x6D, 0x70, 0]

def sysTmpnam (t : Target) : Outcome :=
  let bufPtr := t.param 0
  let targetId := t.param 1
  let bufSize := t.param 2
  let name := fnam targetId
  if bufPtr = 0 then t.done (-1)
  else if bufSize.toInt32 ≤ 0 then t.done (-1)
  else if targetId.toInt32 < 0 ∨ targetId.toInt32 > 255 then t.done (-1)
  else if UInt32.ofNat name.length > bufSize then t.done (-1)
  else .returns ⟨if t.writeFails bufPtr name.length then -1 else 0, t, placed bufPtr name, false⟩

/-! ## The calls -/

inductive Syscall where
  | clock
  | close
  | elapsed
  | errno
  | exit
  | exitExtended
  | flen
  | getCmdline
  | heapinfo
  | iserror
  | istty
  | openFile
  | read
  | readc
  | remove
  | rename
  | seek
  | system
  | tickfreq
  | time
  | tmpnam
  | write
  | writec
  | write0
  | other
  deriving DecidableEq, Repr

/-- The numbers of the calls. -/
def Syscall.ofNumber (n : UInt32) : Syscall :=
  match n.toNat with
  | 0x10 => .clock
  | 0x02 => .close
  | 0x30 => .elapsed
  | 0x13 => .errno
  | 0x18 => .exit
  | 0x20 => .exitExtended
  | 0x0C => .flen
  | 0x15 => .getCmdline
  | 0x16 => .heapinfo
  | 0x08 => .iserror
  | 0x09 => .istty
  | 0x01 => .openFile
  | 0x06 => .read
  | 0x07 => .readc
  | 0x0E => .remove
  | 0x0F => .rename
  | 0x0A => .seek
  | 0x12 => .system
  | 0x31 => .tickfreq
  | 0x11 => .time
  | 0x0D => .tmpnam
  | 0x05 => .write
  | 0x03 => .writec
  | 0x04 => .write0
  | _ => .other

/-- The `switch`; `none` is a string whose end is not found with the fuel. -/
def handle (fuel : Nat) (host : Host) (t : Target) : Syscall → Option Outcome
  | .openFile => some (sysOpen host t)
  | .close => some (t.passOn host (.tcClose (t.param 0 - 1)))
  | .read => some (sysTransfer host t (.tcRead (t.param 0 - 1) (t.param 1) (t.param 2)))
  | .write => some (sysTransfer host t (.tcWrite (t.param 0 - 1) (t.param 1) (t.param 2)))
  | .writec => some (t.passOn host (.tcWrite stderrFileno t.r1 1))
  | .write0 => sysWrite0 fuel host t
  | .istty => some (t.passOn host (.tcIsatty (t.param 0 - 1)))
  | .seek => some (sysSeek host t)
  | .rename =>
    some (t.passOn host (.tcRename (t.param 0) (t.param 1 + 1) (t.param 2) (t.param 3 + 1)))
  | .remove => some (t.passOn host (.tcUnlink (t.param 0) (t.param 1 + 1)))
  | .system => some (t.passOn host (.tcSystem (t.param 0) (t.param 1 + 1)))
  | .flen => some (sysFlen host t)
  | .clock => some (sysTime host true t)
  | .time => some (sysTime host false t)
  | .readc => some (sysReadc host t)
  | .errno => some (t.done t.errno)
  | .exit => some (.returns ⟨0, t, [], true⟩)
  | .exitExtended => some (.returns ⟨0, t, [], true⟩)
  | .getCmdline => some (sysGetCmdline t)
  | .iserror => some (sysIserror t)
  | .heapinfo => some (sysHeapinfo t)
  | .tmpnam => some (sysTmpnam t)
  | .elapsed => some (t.done (-1))
  | .tickfreq => some (t.done (-1))
  | .other => some (t.done 0)

/-- What is written back to `r0`. -/
def Outcome.writeBack : Outcome → Outcome
  | .outOfTable => .outOfTable
  | .returns h => .returns { h with t := { h.t with r0 := h.ret.toUInt32 } }

/-- `t->tc->interrupted = false`. -/
def Target.cleared (t : Target) : Target := { t with interrupted := false }

def hostioRequest (fuel : Nat) (host : Host) (t : Target) : Option Outcome :=
  (handle fuel host t.cleared (Syscall.ofNumber t.r0)).map Outcome.writeBack

/-! ## What a call writes -/

/-- A byte that is written is one of the `len` bytes from `a` on. -/
def In (a : UInt32) (len : Nat) (w : UInt32 × UInt8) : Prop := (w.1 - a).toNat < len

/-- The bytes that a call may write: the buffer whose address and length are among its parameters,
and its result words. -/
def Permitted (t : Target) (s : Syscall) (w : UInt32 × UInt8) : Prop :=
  match s with
  | .getCmdline => In (t.param 0) (t.param 1).toNat w ∨ In t.r1 8 w
  | .heapinfo => In t.r1 16 w
  | .tmpnam => In (t.param 0) (t.param 2).toNat w
  | _ => False

/-- The call ends, and writes only what it may write. -/
def Outcome.Within (t : Target) (s : Syscall) (o : Outcome) : Prop :=
  ∃ h, o = .returns h ∧ ∀ w ∈ h.writes, Permitted t s w

/-- A call that writes nothing. -/
def Outcome.Quiet (o : Outcome) : Prop := ∃ h, o = .returns h ∧ h.writes = []

section
variable {t u : Target} {s : Syscall} {o o' : Outcome} {host : Host}

theorem Outcome.Quiet.within (h : o.Quiet) : o.Within t s := by
  obtain ⟨h, rfl, hnone⟩ := h
  refine ⟨h, rfl, ?_⟩
  rw [hnone]
  exact fun w hw => absurd hw List.not_mem_nil

theorem quiet_done (ret : Int32) : (u.done ret).Quiet := ⟨_, rfl, rfl⟩

theorem quiet_ite {c : Prop} [Decidable c] (h : o.Quiet) (h' : o'.Quiet) :
    (if c then o else o').Quiet := by
  split
  · exact h
  · exact h'

theorem sysFlen_quiet : (sysFlen host t).Quiet :=
  quiet_ite (quiet_done _) (quiet_ite (quiet_done _) (quiet_done _))

theorem sysTime_quiet {clock : Bool} : (sysTime host clock t).Quiet :=
  quiet_ite (quiet_done _) (quiet_ite (quiet_done _) (quiet_done _))

theorem in_placed {a : UInt32} {data : List UInt8} {len : Nat} (hlen : data.length ≤ len)
    {w : UInt32 × UInt8} (hw : w ∈ placed a data) : In a len w := by
  obtain ⟨k, hk, haddr⟩ := mem_placed hw
  have hsub : w.1 - a = UInt32.ofNat k := by
    rw [haddr, UInt32.add_comm, UInt32.add_sub_cancel]
  unfold In
  rw [hsub, UInt32.toNat_ofNat']
  exact Nat.lt_of_le_of_lt (Nat.mod_le _ _) (by omega)

theorem wordBytes_length (w : UInt32) : (wordBytes w).length = 4 := by
  rw [wordBytes, List.length_map, List.length_range]

/-- The command line and its terminator fit in the buffer that is given. -/
theorem sysGetCmdline_within : (sysGetCmdline t).Within t .getCmdline := by
  have hstring := t.cmdline.string_length
  unfold sysGetCmdline
  dsimp only
  split
  · exact (quiet_done _).within
  · rename_i hfit
    have hsize : (UInt32.ofNat t.cmdline.string.length + 1).toNat =
        t.cmdline.string.length + 1 := by
      rw [UInt32.toNat_add, UInt32.toNat_ofNat_of_lt' (show _ < 2 ^ 32 by omega)]
      exact Nat.mod_eq_of_lt (show t.cmdline.string.length + 1 < 2 ^ 32 by omega)
    have hbuf : ∀ w ∈ placed (t.param 0) (t.cmdline.string ++ [0]),
        Permitted t .getCmdline w := by
      intro w hw
      refine .inl (in_placed ?_ hw)
      rw [List.length_append, List.length_singleton, ← hsize]
      exact UInt32.le_iff_toNat_le.mp (UInt32.not_lt.mp hfit)
    split
    · exact ⟨_, rfl, hbuf⟩
    · have hboth : ∀ w ∈ placed (t.param 0) (t.cmdline.string ++ [0]) ++
          placed t.r1 (wordBytes (t.param 0) ++
            wordBytes (UInt32.ofNat t.cmdline.string.length + 1)),
          Permitted t .getCmdline w := by
        intro w hw
        rcases List.mem_append.mp hw with hw | hw
        · exact hbuf w hw
        · refine .inr (in_placed (Nat.le_of_eq ?_) hw)
          rw [List.length_append, wordBytes_length, wordBytes_length]
      split <;> exact ⟨_, rfl, hboth⟩

theorem sysHeapinfo_within : (sysHeapinfo t).Within t .heapinfo := by
  refine ⟨_, rfl, fun w hw => in_placed ?_ hw⟩
  simp [wordBytes]

/-- The name is written where the buffer has room for it; a negative length is no room. -/
theorem sysTmpnam_within : (sysTmpnam t).Within t .tmpnam := by
  unfold sysTmpnam
  dsimp only
  split
  · exact (quiet_done _).within
  split
  · exact (quiet_done _).within
  split
  · exact (quiet_done _).within
  split
  · exact (quiet_done _).within
  · rename_i hfit
    refine ⟨_, rfl, fun w hw => in_placed ?_ hw⟩
    exact UInt32.le_iff_toNat_le.mp (UInt32.not_lt.mp hfit)

theorem handle_within (fuel : Nat) (host : Host) (t : Target) (hopen : s ≠ .openFile)
    (hwrite0 : s ≠ .write0) :
    ∃ o, handle fuel host t s = some o ∧ o.Within t s := by
  cases s
  case openFile => contradiction
  case write0 => contradiction
  case getCmdline => exact ⟨_, rfl, sysGetCmdline_within⟩
  case heapinfo => exact ⟨_, rfl, sysHeapinfo_within⟩
  case tmpnam => exact ⟨_, rfl, sysTmpnam_within⟩
  case flen => exact ⟨_, rfl, sysFlen_quiet.within⟩
  case clock => exact ⟨_, rfl, sysTime_quiet.within⟩
  case time => exact ⟨_, rfl, sysTime_quiet.within⟩
  all_goals exact ⟨_, rfl, Outcome.Quiet.within ⟨_, rfl, rfl⟩⟩

end

/-! ## `SYS_OPEN` -/

theorem sysOpen_within_iff {t : Target} {host : Host} {s : Syscall} :
    (sysOpen host t).Within t s ↔ (t.param 1).toNat < 12 := by
  have hmode : (t.param 1 >>> 1).toNat = (t.param 1).toNat / 2 := by
    rw [UInt32.toNat_shiftRight, Nat.shiftRight_eq_div_pow]
    rfl
  unfold sysOpen
  split
  · rename_i hnone
    have hlarge : 6 ≤ (t.param 1 >>> 1).toNat := List.getElem?_eq_none_iff.mp hnone
    constructor
    · rintro ⟨h, hreturns, _⟩
      cases hreturns
    · intro h
      omega
  · rename_i pflag hsome
    obtain ⟨hsmall, _⟩ := List.getElem?_eq_some_iff.mp hsome
    have hsmall : (t.param 1 >>> 1).toNat < 6 := hsmall
    refine iff_of_true (Outcome.Quiet.within ?_) (by omega)
    exact quiet_ite (quiet_done _) (quiet_done _)

/-! ## `SYS_WRITE0` -/

/-- The loop over the string ends at this address. -/
def Target.EndsAt (t : Target) (a : UInt32) : Prop := t.mem a = 0 ∨ t.readFails a = true

theorem strEnd_isSome {t : Target} {n : Nat} {a : UInt32}
    (h : t.EndsAt (a + UInt32.ofNat n)) : ∃ fuel e, strEnd t fuel a = some e := by
  induction n generalizing a with
  | zero =>
    refine ⟨1, a, ?_⟩
    rw [strEnd, if_neg]
    rw [show a + UInt32.ofNat 0 = a from UInt32.add_zero a] at h
    rintro ⟨hmem, hread⟩
    rcases h with h | h
    · exact hmem h
    · rw [hread] at h
      cases h
  | succ n ih =>
    rw [add_ofNat_succ] at h
    obtain ⟨fuel, e, he⟩ := ih h
    by_cases hends : t.mem a ≠ 0 ∧ t.readFails a = false
    · exact ⟨fuel + 1, e, by rw [strEnd, if_pos hends, he]⟩
    · exact ⟨1, a, by rw [strEnd, if_neg hends]⟩

theorem endsAt_of_strEnd {t : Target} {fuel : Nat} {a e : UInt32}
    (h : strEnd t fuel a = some e) : ∃ n, t.EndsAt (a + UInt32.ofNat n) := by
  induction fuel generalizing a with
  | zero => cases h
  | succ fuel ih =>
    rw [strEnd] at h
    split at h
    · obtain ⟨n, hn⟩ := ih h
      exact ⟨n + 1, by rwa [add_ofNat_succ]⟩
    · rename_i hends
      refine ⟨0, ?_⟩
      rw [show a + UInt32.ofNat 0 = a from UInt32.add_zero a]
      by_cases hmem : t.mem a = 0
      · exact .inl hmem
      · exact .inr (by simpa using fun hread => hends ⟨hmem, hread⟩)

theorem sysWrite0_within_iff {t : Target} {host : Host} {s : Syscall} :
    (∃ fuel o, sysWrite0 fuel host t = some o ∧ o.Within t s) ↔
      ∃ n, t.EndsAt (t.r1 + UInt32.ofNat n) := by
  constructor
  · rintro ⟨fuel, o, h, _⟩
    unfold sysWrite0 at h
    cases hend : strEnd t fuel t.r1 with
    | none =>
      rw [hend] at h
      cases h
    | some e => exact endsAt_of_strEnd hend
  · rintro ⟨n, hn⟩
    obtain ⟨fuel, e, he⟩ := strEnd_isSome hn
    refine ⟨fuel, ?_⟩
    unfold sysWrite0
    rw [he]
    show ∃ o, ite _ _ _ = some o ∧ _
    split
    · exact ⟨_, rfl, (quiet_done _).within⟩
    · exact ⟨_, rfl, (quiet_done _).within⟩

/-! ## The whole call -/

/-- With enough fuel the call ends without an access outside of a table, and what it writes to
target memory is in its buffer or in its result words. -/
def Safe (host : Host) (t : Target) : Prop :=
  ∃ fuel h, hostioRequest fuel host t = some (.returns h) ∧
    ∀ w ∈ h.writes, Permitted t (Syscall.ofNumber t.r0) w

theorem safe_iff_within {host : Host} {t : Target} :
    Safe host t ↔ ∃ fuel o, handle fuel host t.cleared (Syscall.ofNumber t.r0) = some o ∧
      o.Within t.cleared (Syscall.ofNumber t.r0) := by
  unfold Safe hostioRequest
  constructor
  · rintro ⟨fuel, h, hrun, hwrites⟩
    obtain ⟨o, ho, hback⟩ := Option.map_eq_some_iff.mp hrun
    cases o with
    | outOfTable => cases hback
    | returns h' =>
      cases hback
      exact ⟨fuel, _, ho, h', rfl, hwrites⟩
  · rintro ⟨fuel, o, ho, h, rfl, hwrites⟩
    exact ⟨fuel, { h with t := { h.t with r0 := h.ret.toUInt32 } }, by rw [ho]; rfl, hwrites⟩

/-- The calls that are safe: all but `SYS_OPEN` with a mode that `fopen` does not have, and
`SYS_WRITE0` of a string without an end. -/
theorem hostioRequest_safe_iff (host : Host) (t : Target) :
    Safe host t ↔
      (Syscall.ofNumber t.r0 = .openFile → (t.param 1).toNat < 12) ∧
        (Syscall.ofNumber t.r0 = .write0 → ∃ n, t.EndsAt (t.r1 + UInt32.ofNat n)) := by
  rw [safe_iff_within]
  by_cases hopen : Syscall.ofNumber t.r0 = .openFile
  · rw [hopen]
    constructor
    · rintro ⟨fuel, o, ho, hwithin⟩
      cases ho
      have hmode := sysOpen_within_iff.mp hwithin
      exact ⟨fun _ => hmode, nofun⟩
    · rintro ⟨hmode, _⟩
      have hwithin : (sysOpen host t.cleared).Within t.cleared .openFile :=
        sysOpen_within_iff.mpr (hmode rfl)
      exact ⟨0, _, rfl, hwithin⟩
  · by_cases hwrite0 : Syscall.ofNumber t.r0 = .write0
    · rw [hwrite0]
      constructor
      · intro h
        have hends := sysWrite0_within_iff.mp h
        exact ⟨nofun, fun _ => hends⟩
      · rintro ⟨_, hends⟩
        exact (sysWrite0_within_iff (t := t.cleared)).mpr (hends rfl)
    · obtain ⟨o, ho, hwithin⟩ := handle_within 0 host t.cleared hopen hwrite0
      exact iff_of_true ⟨0, o, ho, hwithin⟩
        ⟨fun h => absurd h hopen, fun h => absurd h hwrite0⟩

/-- A target whose memory is zero but for the second word of its parameters. -/
def openMode (mode : UInt8) : Target :=
  ⟨1, 0x20000000, fun a => if a = 0x20000004 then mode else 0, fun _ => false, fun _ _ => false,
    fun _ => 0, .empty, 0, false, 0⟩

/-- `SYS_OPEN` with mode 12. -/
theorem openMode_unsafe :
    ¬ ∀ host t, Safe host t := by
  intro h
  obtain ⟨fuel, r, hrun, _⟩ := h (fun _ => ⟨0, 0, false, fun _ => 0⟩) (openMode 12)
  have hout : hostioRequest fuel (fun _ => ⟨0, 0, false, fun _ => 0⟩) (openMode 12) =
      some .outOfTable := rfl
  rw [hout] at hrun
  cases hrun

end MiyakoLink.Semihosting
