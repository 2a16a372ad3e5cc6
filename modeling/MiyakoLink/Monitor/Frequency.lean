import Mathlib.Algebra.Group.Int.Defs
import MiyakoLink.Config.Restart
import MiyakoLink.Lib.Sscanf
import MiyakoLink.Monitor.Command
import MiyakoLink.NonIso.Primitives

/-!
# `frequency`

`cmd_frequency` with the two functions of `platform.c` that it calls. The number is what `strtol`
makes of the argument, the factor is that of the one character behind it, and the product has
32 bits. The answer, which tells the frequency in force, is left out.

* `strtol_text`: a number with a suffix is read as it is written.
* `cmdFrequency_right`: so a frequency within the limits is set and stored.
* `cmdFrequency_right_iff`: any other argument has no effect just if its product is not accepted, or
  is that of the frequency in force.
-/

namespace MiyakoLink.Monitor.Frequency

open Lib Config
open NonIso (Param pioMinFrequency pioMaxFrequency platformCalculatePioClkdiv)

variable {δ : Type}

/-- The interface, and the settings of the device. -/
structure Link (δ : Type) where
  iface : NonIso.State δ
  device : Config.Device

/-- What `platform_max_frequency_set` returns, and the interface behind it. -/
def platformMaxFrequencySet (div : UInt32 → δ) (frequency : UInt32) (s : NonIso.State δ) :
    Bool × NonIso.State δ :=
  (!decide (frequency < s.param.minFrequency ∨ frequency > s.param.maxFrequency) &&
      (platformCalculatePioClkdiv div frequency).isSome,
    NonIso.platformMaxFrequencySet div frequency s)

/-- `platform_target_interface_max_frequency_set`. -/
def platformTargetInterfaceMaxFrequencySet (div : UInt32 → δ) (bus : List Transfer)
    (frequency : UInt32) (s : Link δ) : Link δ :=
  let set := platformMaxFrequencySet div frequency s.iface
  { iface := set.2
    device :=
      if set.1 then (s.device.setValue .targetInterfaceConfig1Freq (le32 frequency) bus).2
      else s.device }

/-- `cmd_frequency`, with the name of the command and its arguments. -/
def cmdFrequency (controller : Text) (div : UInt32 → δ) (bus : List Transfer) (argv : List Arg)
    (s : Link δ) : Link δ :=
  match frequencyArgs controller argv with
  | some frequency => platformTargetInterfaceMaxFrequencySet div bus frequency s
  | none => s

/-! ## What is asked for -/

inductive Suffix where
  | none
  | kilo
  | mega

def Suffix.text : Suffix → Text
  | none => []
  | kilo => [0x6B]
  | mega => [0x4D]

def Suffix.factor : Suffix → Nat
  | none => 1
  | kilo => 1000
  | mega => 1000 * 1000

/-- A decimal number with a suffix. -/
structure Request where
  plus : Bool
  digits : Text
  ne_nil : digits ≠ []
  decimal : ∀ c ∈ digits, digitIn 10 c = true
  suffix : Suffix

namespace Request

variable (q : Request)

def text : Text := (if q.plus then [0x2B] else []) ++ (q.digits ++ q.suffix.text)

def product : Nat := digitsValue 10 q.digits * q.suffix.factor

end Request

/-- The limits of the interface and those of the divider. -/
structure Accepts (p : Param δ) (n : Nat) : Prop where
  min : p.minFrequency.toNat ≤ n
  max : n ≤ p.maxFrequency.toNat
  pioMin : pioMinFrequency.toNat ≤ n
  pioMax : n ≤ pioMaxFrequency.toNat

/-- A frequency that is set and stored. -/
structure InForce (s : Link δ) (n : Nat) : Prop where
  current : s.iface.param.currentFrequency.toNat = n
  update : s.iface.param.updateClkdiv = true
  stored : s.device.setting .targetInterfaceConfig1Freq = le32 (UInt32.ofNat n)

/-- Neither the frequency in force nor the stored one is another. -/
structure Same (s s' : Link δ) : Prop where
  current : s'.iface.param.currentFrequency = s.iface.param.currentFrequency
  update : s'.iface.param.updateClkdiv = s.iface.param.updateClkdiv
  stored : s'.device.setting .targetInterfaceConfig1Freq =
    s.device.setting .targetInterfaceConfig1Freq

/-- `argv` with the name of the command. -/
def argv (name : Text) (args : List Text) : List Arg := .word name :: args.map .word

section

variable (controller : Text) (div : UInt32 → δ) (bus : List Transfer) (name : Text)

/-- The command does what it is asked, or nothing. -/
def Right (s : Link δ) (args : List Text) : Prop :=
  (∀ q : Request, args = [q.text] → Accepts s.iface.param q.product →
    InForce (cmdFrequency controller div bus (argv name args) s) q.product) ∧
  ((∀ q : Request, args = [q.text] → ¬ Accepts s.iface.param q.product) →
    Same s (cmdFrequency controller div bus (argv name args) s))

end

/-- The factor for what `strtol` has left. -/
def factorOf (rest : Text) : Nat :=
  if rest.head? = some 0x6B then 1000 else if rest.head? = some 0x4D then 1000 * 1000 else 1

/-- The number that `strtol` reads from a text times its factor, in 32 bits. -/
def residue (text : Text) : Nat :=
  ((strtol 10 text).1 * factorOf (strtol 10 text).2 % 2 ^ 32).toNat

/-! ## Reading -/

theorem digits_of_decimal {ds : Text} (hne : ds ≠ []) (h : ∀ c ∈ ds, digitIn 10 c = true) :
    Digits ds := by
  refine ⟨hne, fun c hc => ?_⟩
  have hdigit := h c hc
  unfold digitIn at hdigit
  unfold isHex
  cases hd : hexDigit? c with
  | none =>
    rw [hd] at hdigit
    contradiction
  | some d => rfl

theorem takeWhile_suffix (suffix : Suffix) : suffix.text.takeWhile (digitIn 10) = [] := by
  cases suffix <;> decide

theorem factorOf_text (suffix : Suffix) : factorOf suffix.text = suffix.factor := by
  cases suffix <;> decide

/-- The sign is taken off, and no white space with it. -/
theorem scanSign_text (q : Request) :
    scanSign (q.text.dropWhile isSpace) = (false, q.digits ++ q.suffix.text) := by
  have hdigits := digits_of_decimal q.ne_nil q.decimal
  rw [Request.text]
  cases q.plus with
  | true => rfl
  | false =>
    show scanSign ((q.digits ++ q.suffix.text).dropWhile isSpace) = _
    rw [dropWhile_space _ hdigits, scanSign_digits _ hdigits]

/-- A number that is not too large is read, and then there is the suffix. -/
theorem strtol_text (q : Request) :
    strtol 10 q.text = (min (digitsValue 10 q.digits : Int) 2147483647, q.suffix.text) := by
  have hbase (s : Text) : detectBase 10 s = (10, s) := rfl
  have htake : (q.digits ++ q.suffix.text).takeWhile (digitIn 10) = q.digits := by
    rw [List.takeWhile_append_of_pos q.decimal, takeWhile_suffix, List.append_nil]
  have hscan : scanNumber 10 q.text = (false, digitsValue 10 q.digits, q.suffix.text) := by
    rw [scanNumber, scanSign_text]
    dsimp only
    rw [hbase]
    dsimp only
    rw [htake, if_neg q.ne_nil, List.drop_left]
  rw [strtol, hscan]
  rfl

theorem residue_text {q : Request} (h : q.product < 2 ^ 31) : residue q.text = q.product := by
  have hfactor : 1 ≤ q.suffix.factor := by
    cases q.suffix <;> decide
  have hvalue : digitsValue 10 q.digits ≤ q.product := Nat.le_mul_of_pos_right _ hfactor
  have hmin : min (digitsValue 10 q.digits : Int) 2147483647 = digitsValue 10 q.digits := by omega
  rw [residue, strtol_text, factorOf_text, hmin]
  show (((digitsValue 10 q.digits : Int) * (q.suffix.factor : Int)) % 2 ^ 32).toNat = q.product
  rw [← Int.natCast_mul]
  show (((q.product : Nat) : Int) % 2 ^ 32).toNat = q.product
  omega

theorem residue_lt (text : Text) : residue text < 2 ^ 32 := by
  have hlt := Int.emod_lt_of_pos ((strtol 10 text).1 * factorOf (strtol 10 text).2)
    (show (0 : Int) < 2 ^ 32 by decide)
  unfold residue
  omega

theorem ofInt_mul_toNat (n : Int) (k : UInt32) :
    (UInt32.ofInt n * k).toNat = (n * k.toNat % 2 ^ 32).toNat := by
  have hn : ((UInt32.ofInt n).toNat : Int) = n % 2 ^ 32 := by
    rw [UInt32.ofInt, UInt32.toNat_ofNat']
    omega
  have hmul : (((UInt32.ofInt n * k).toNat : Nat) : Int) = n * k.toNat % 2 ^ 32 := by
    have hpow : ((2 ^ 32 : Nat) : Int) = 2 ^ 32 := rfl
    have hmod : n % 2 ^ 32 * (k.toNat : Int) % 2 ^ 32 = n * k.toNat % 2 ^ 32 := by
      rw [Int.mul_emod, Int.emod_emod, ← Int.mul_emod]
    rw [UInt32.toNat_mul, Int.natCast_emod, Int.natCast_mul, hn, hpow, hmod]
  omega

/-- The one argument of the command. -/
theorem frequencyArgs_one (controller name text : Text) :
    frequencyArgs controller (argv name [text]) = some (UInt32.ofNat (residue text)) := by
  have hproduct (k : UInt32) : UInt32.ofInt (strtol 10 text).1 * k =
      UInt32.ofNat ((strtol 10 text).1 * k.toNat % 2 ^ 32).toNat := by
    rw [← ofInt_mul_toNat, UInt32.ofNat_toNat]
  have hone := hproduct 1
  rw [UInt32.mul_one] at hone
  show some _ = some _
  congr 1
  unfold residue factorOf
  show (if (strtol 10 text).2.head? = some 0x6B then UInt32.ofInt (strtol 10 text).1 * 1000
    else if (strtol 10 text).2.head? = some 0x4D then
      UInt32.ofInt (strtol 10 text).1 * (1000 * 1000)
    else UInt32.ofInt (strtol 10 text).1) = _
  split
  · exact hproduct 1000
  · split
    · exact hproduct (1000 * 1000)
    · exact hone

theorem frequencyArgs_none {args : List Text} (controller name : Text) (h : args.length ≠ 1) :
    frequencyArgs controller (argv name args) = none := by
  rw [frequencyArgs, argv, List.length_cons, List.length_map, if_neg (by omega)]

/-! ## Setting -/

section

variable {div : UInt32 → δ} {bus : List Transfer} {s : Link δ} {frequency : UInt32}

theorem accepted_iff (div : UInt32 → δ) (s : NonIso.State δ) :
    (platformMaxFrequencySet div frequency s).1 = true ↔ Accepts s.param frequency.toNat := by
  show (_ && _) = true ↔ _
  rw [platformCalculatePioClkdiv, Bool.and_eq_true, Bool.not_eq_true', decide_eq_false_iff_not,
    not_or, UInt32.not_lt, gt_iff_lt, UInt32.not_lt, UInt32.le_iff_toNat_le, UInt32.le_iff_toNat_le]
  constructor
  · rintro ⟨⟨hmin, hmax⟩, hsome⟩
    split at hsome
    · contradiction
    · next hpio =>
      rw [not_or, UInt32.not_lt, gt_iff_lt, UInt32.not_lt] at hpio
      exact ⟨hmin, hmax, UInt32.le_iff_toNat_le.mp hpio.1, UInt32.le_iff_toNat_le.mp hpio.2⟩
  · rintro ⟨hmin, hmax, hpioMin, hpioMax⟩
    refine ⟨⟨hmin, hmax⟩, ?_⟩
    rw [if_neg]
    · rfl
    · rw [not_or, UInt32.not_lt, gt_iff_lt, UInt32.not_lt]
      exact ⟨UInt32.le_iff_toNat_le.mpr hpioMin, UInt32.le_iff_toNat_le.mpr hpioMax⟩

/-- A frequency that is not accepted has no effect. -/
theorem set_of_not_accepted (h : ¬ Accepts s.iface.param frequency.toNat) :
    platformTargetInterfaceMaxFrequencySet div bus frequency s = s := by
  have hfalse : ¬ (platformMaxFrequencySet div frequency s.iface).1 = true :=
    mt (accepted_iff div s.iface).mp h
  have hiface : NonIso.platformMaxFrequencySet div frequency s.iface = s.iface := by
    unfold NonIso.platformMaxFrequencySet
    split
    · rfl
    · next hlimits =>
      cases hdiv : platformCalculatePioClkdiv div frequency with
      | none => rfl
      | some clkdiv =>
        refine absurd ?_ hfalse
        show (_ && _) = true
        rw [decide_eq_false hlimits, hdiv]
        rfl
  unfold platformTargetInterfaceMaxFrequencySet
  dsimp only
  rw [if_neg hfalse]
  show Link.mk (NonIso.platformMaxFrequencySet div frequency s.iface) s.device = s
  rw [hiface]

/-- One that is accepted is set and stored. -/
theorem set_of_accepted (h : Accepts s.iface.param frequency.toNat) :
    InForce (platformTargetInterfaceMaxFrequencySet div bus frequency s) frequency.toNat := by
  have htrue := (accepted_iff div s.iface).mpr h
  have hlimits : ¬ (frequency < s.iface.param.minFrequency ∨
      frequency > s.iface.param.maxFrequency) := by
    rw [not_or, UInt32.not_lt, gt_iff_lt, UInt32.not_lt]
    exact ⟨UInt32.le_iff_toNat_le.mpr h.min, UInt32.le_iff_toNat_le.mpr h.max⟩
  have hpio : ¬ (frequency < pioMinFrequency ∨ frequency > pioMaxFrequency) := by
    rw [not_or, UInt32.not_lt, gt_iff_lt, UInt32.not_lt]
    exact ⟨UInt32.le_iff_toNat_le.mpr h.pioMin, UInt32.le_iff_toNat_le.mpr h.pioMax⟩
  have hiface : NonIso.platformMaxFrequencySet div frequency s.iface =
      { s.iface with param := { s.iface.param with
        clkdiv := div frequency, currentFrequency := frequency, updateClkdiv := true } } := by
    rw [NonIso.platformMaxFrequencySet, if_neg hlimits, platformCalculatePioClkdiv, if_neg hpio]
  have hstored : (s.device.setValue .targetInterfaceConfig1Freq (le32 frequency) bus).2.setting
      .targetInterfaceConfig1Freq = le32 frequency := by
    have hsize : DeviceConfId.targetInterfaceConfig1Freq.size = (le32 frequency).length := rfl
    have hset : (s.device.setValue .targetInterfaceConfig1Freq (le32 frequency) bus).1 =
        DeviceConfId.targetInterfaceConfig1Freq.size := by
      rw [Config.Device.setValue, if_neg (hsize ▸ by decide), if_pos hsize]
      split <;> rfl
    obtain ⟨hlength, ⟨hvalue, heq⟩ | ⟨-, heq⟩⟩ := setValue_cases hset
    · rw [heq, hvalue]
    · rw [heq, writeAllSettings_setting bus _ (by decide), setting_assign hlength]
  unfold platformTargetInterfaceMaxFrequencySet
  dsimp only
  rw [if_pos htrue]
  refine ⟨?_, ?_, ?_⟩
  · show (NonIso.platformMaxFrequencySet div frequency s.iface).param.currentFrequency.toNat = _
    rw [hiface]
  · show (NonIso.platformMaxFrequencySet div frequency s.iface).param.updateClkdiv = true
    rw [hiface]
  · rw [UInt32.ofNat_toNat]
    exact hstored

/-! ## The command -/

variable {controller name : Text} {args : List Text} {text : Text}

theorem cmdFrequency_one : cmdFrequency controller div bus (argv name [text]) s =
    platformTargetInterfaceMaxFrequencySet div bus (UInt32.ofNat (residue text)) s := by
  rw [cmdFrequency, frequencyArgs_one]

theorem cmdFrequency_accepted (h : Accepts s.iface.param (residue text)) :
    InForce (cmdFrequency controller div bus (argv name [text]) s) (residue text) := by
  have hnat : (UInt32.ofNat (residue text)).toNat = residue text :=
    UInt32.toNat_ofNat_of_lt' (residue_lt text)
  have haccepts : Accepts s.iface.param (UInt32.ofNat (residue text)).toNat := hnat.symm ▸ h
  have hset : InForce (platformTargetInterfaceMaxFrequencySet div bus
      (UInt32.ofNat (residue text)) s) (UInt32.ofNat (residue text)).toNat :=
    set_of_accepted haccepts
  rw [hnat] at hset
  rwa [cmdFrequency_one]

theorem cmdFrequency_not_accepted (h : ¬ Accepts s.iface.param (residue text)) :
    cmdFrequency controller div bus (argv name [text]) s = s := by
  rw [cmdFrequency_one]
  apply set_of_not_accepted
  rwa [UInt32.toNat_ofNat_of_lt' (residue_lt text)]

/-- A number with a suffix whose product is accepted is set and stored. -/
theorem cmdFrequency_right {q : Request} (h : Accepts s.iface.param q.product) :
    InForce (cmdFrequency controller div bus (argv name [q.text]) s) q.product := by
  have hlt : q.product < 2 ^ 31 := Nat.lt_of_le_of_lt h.pioMax (by decide)
  rw [← residue_text hlt] at h ⊢
  exact cmdFrequency_accepted h

theorem Same.refl (s : Link δ) : Same s s := ⟨rfl, rfl, rfl⟩

/-- The frequency that is set has been in force before just if nothing changes. -/
theorem inForce_iff_same {s' : Link δ} {n : Nat} (h : InForce s' n) : InForce s n ↔ Same s s' := by
  constructor
  · intro hs
    exact ⟨UInt32.toNat_inj.mp (h.current.trans hs.current.symm), h.update.trans hs.update.symm,
      h.stored.trans hs.stored.symm⟩
  · intro hsame
    exact ⟨hsame.current ▸ h.current, hsame.update ▸ h.update, hsame.stored ▸ h.stored⟩

/-- The command is right just if it is asked for an accepted frequency, or the product of its
argument in 32 bits is not accepted, or is in force already. -/
theorem cmdFrequency_right_iff : Right controller div bus name s args ↔
    (∃ q : Request, args = [q.text] ∧ Accepts s.iface.param q.product) ∨
      ∀ text, args = [text] → Accepts s.iface.param (residue text) → InForce s (residue text) := by
  constructor
  · intro h
    by_cases hasked : ∃ q : Request, args = [q.text] ∧ Accepts s.iface.param q.product
    · exact Or.inl hasked
    · have hsame := h.2 fun q hq haccepts => hasked ⟨q, hq, haccepts⟩
      refine Or.inr fun text htext haccepts => ?_
      subst htext
      exact (inForce_iff_same (cmdFrequency_accepted haccepts)).mpr hsame
  · intro h
    refine ⟨fun q hq haccepts => ?_, fun hnot => ?_⟩
    · subst hq
      exact cmdFrequency_right haccepts
    · have hunasked := h.resolve_left fun ⟨q, hq, haccepts⟩ => hnot q hq haccepts
      by_cases hone : args.length = 1
      · obtain ⟨text, rfl⟩ := List.length_eq_one_iff.mp hone
        by_cases haccepts : Accepts s.iface.param (residue text)
        · exact (inForce_iff_same (cmdFrequency_accepted haccepts)).mp
            (hunasked text rfl haccepts)
        · rw [cmdFrequency_not_accepted haccepts]
          exact Same.refl s
      · rw [cmdFrequency, frequencyArgs_none controller name hone]
        exact Same.refl s

end

/-! ## A product that wraps -/

/-- The interface with 1 MHz as `platform_target_interface_non_iso_init` sets it, and the settings
of a new device. -/
def idle : Link Unit where
  iface := NonIso.platformTargetInterfaceNonIsoInit (fun _ => ()) 1000000
    { param := ⟨.notSet, 0, 0, 0, (), false, .notInitialized⟩
      pio := ⟨[], NonIso.swdProgConfig (), false, fun _ => false, fun _ => false, fun _ => false⟩ }
  device := factory

/-- 4295968 kHz. -/
abbrev wrapped : Text := ascii "4295968k"

/-- It is a number with a suffix only for more than 4 GHz. -/
theorem product_wrapped {q : Request} (h : wrapped = q.text) : q.product = 4295968000 := by
  have hread := strtol_text q
  rw [← h, show strtol 10 wrapped = (4295968, [0x6B]) by decide] at hread
  obtain ⟨hvalue, hsuffix⟩ := Prod.mk.inj hread
  rw [Request.product, ← factorOf_text, ← hsuffix]
  show digitsValue 10 q.digits * 1000 = 4295968000
  omega

/-- 1000704 Hz are set for 4295968 kHz. -/
theorem wrapped_not_right : ¬ ∀ (controller name : Text) (s : Link Unit) (args : List Text),
    Right controller (fun _ => ()) [] name s args := by
  intro h
  have hsame := (h [] [] idle [wrapped]).2 fun q hq haccepts => by
    have hmax := haccepts.max
    rw [product_wrapped (List.cons.inj hq).1] at hmax
    exact absurd hmax (by decide)
  have hresidue : residue wrapped = 1000704 := by decide
  have haccepts : Accepts idle.iface.param (residue wrapped) := by
    rw [hresidue]
    exact ⟨by decide, by decide, by decide, by decide⟩
  have hset := (inForce_iff_same (cmdFrequency_accepted haccepts)).mpr hsame
  have hcurrent := hset.current
  rw [hresidue] at hcurrent
  exact absurd hcurrent (by decide)

end MiyakoLink.Monitor.Frequency
