import MiyakoLink.Monitor.Command

/-!
# What a monitor command should run

`expected` is what the dispatch is for: the first entry with the first word as a prefix, in the
general table and then in those of the target, is given the words behind it as its arguments.

`dispatch_iff` says for which lines this is what happens. Nothing is right for an empty line, or
when a target with commands of its own is asked for what is in no general table: its tables are
searched for the bytes of the controller. Four general handlers do not skip the controller, so
they take their own name as the first argument.
-/

namespace MiyakoLink.Monitor

open Lib

variable {H : Type} (controller : Text) (B : Build)

/-- What should come of a command line. -/
def expected (t : Option (Target H)) (cmd : Text) : Outcome H :=
  match words cmd with
  | [] => .unsupported false
  | w :: args =>
    let argv := (w :: args).map Arg.word
    match findCommand w (cmdList B) with
    | some c => .general c.handler (c.handler.take controller B t.isSome argv)
    | none =>
      match (t.map fun t => t.commands.flatten).bind (findCommand w) with
      | some c => .specific c.handler argv false
      | none => .unsupported false

/-- The lines for which a handler that does not skip the controller does what it should. -/
def TakesRight (attached : Bool) (ws : List Text) : General → Prop
  | .haltTimeout => ∃ w arg rest, ws = w :: arg :: rest ∧ UInt32.ofInt (atol arg) = 0
  | .traceswo =>
    traceswoArgs controller B (ws.map Arg.word) = (B.swoDefaultBaud, 0)
  | .heapinfo => attached = true → ws.length ≠ 4 ∧ ws.length ≠ 5
  | .debugBmp => 3 ≤ ws.length
  | _ => True

/-- The lines that are dispatched as they should be. -/
def Dispatchable (t : Option (Target H)) (cmd : Text) : Prop :=
  match words cmd with
  | [] => False
  | w :: args =>
    match findCommand w (cmdList B) with
    | some c => TakesRight controller B t.isSome (w :: args) c.handler
    | none => ∀ t', t = some t' → t'.commands.flatten = []

/-! ## The words -/

theorem words_ne_nil {cmd w : Text} (h : w ∈ words cmd) : w ≠ [] := strtok_ne_nil h

/-- The vector has room for the controller and the words. -/
theorem argv_fits (cmd : Text) : (words cmd).length + 1 ≤ argvRoom cmd := by
  have := strtok_length isBlank [] (cstr cmd)
  unfold argvRoom words
  omega

/-! ## The handlers that do not skip the controller -/

theorem prefix_head {w : Text} {c : UInt8} {s : Text} (hne : w ≠ [])
    (h : w.isPrefixOf (c :: s) = true) : ∃ w', w = c :: w' := by
  cases w with
  | nil => contradiction
  | cons b w' =>
    rw [List.isPrefixOf, Bool.and_eq_true] at h
    exact ⟨w', by rw [eq_of_beq h.1]⟩

/-- A found entry has the text as a prefix. -/
theorem findCommand_prefix {K : Type} {w : Text} {cmds : List (Command K)} {c : Command K}
    (h : findCommand w cmds = some c) : w.isPrefixOf c.cmd = true ∧ c ∈ cmds := by
  unfold findCommand at h
  have hmem := List.mem_of_find?_eq_some h
  have hfront := List.find?_some h
  exact ⟨hfront, hmem⟩

/-- The general table with all its entries. -/
def fullList : List (Command General) := cmdList ⟨true, true, true, 0, true⟩

theorem cmdList_subset : cmdList B ⊆ fullList := by
  intro c hc
  simp only [cmdList, List.mem_append] at hc
  simp only [fullList, cmdList, List.mem_append, if_true]
  rcases hc with (((hc | hc) | hc) | hc) | hc
  · exact Or.inl (Or.inl (Or.inl (Or.inl hc)))
  · split at hc
    · exact Or.inl (Or.inl (Or.inl (Or.inr hc)))
    · contradiction
  · split at hc
    · exact Or.inl (Or.inl (Or.inr hc))
    · contradiction
  · exact Or.inl (Or.inr hc)
  · split at hc
    · exact Or.inr hc
    · contradiction

theorem cmd_of_handler {c : Command General} (h : c ∈ cmdList B) :
    (c.handler = .haltTimeout → c.cmd = ascii "halt_timeout") ∧
      (c.handler = .traceswo → c.cmd = ascii "traceswo") := by
  have hfull : ∀ c ∈ fullList, (c.handler = .haltTimeout → c.cmd = ascii "halt_timeout") ∧
      (c.handler = .traceswo → c.cmd = ascii "traceswo") := by
    decide
  exact hfull c (cmdList_subset B h)

/-- A text that begins with a letter is no number. -/
theorem haltTimeout_name {w : Text} (hne : w ≠ []) (h : w.isPrefixOf (ascii "halt_timeout") = true) :
    atol w = 0 := by
  obtain ⟨w', rfl⟩ := prefix_head hne h
  rw [atol, strtol_letter (by decide) (by decide) (by decide) (by decide) (by decide) (by decide)]

theorem haltTimeout_iff {w : Text} {args : List Text} (hname : atol w = 0) (attached : Bool) :
    General.call controller B attached (.controller :: (w :: args).map Arg.word) .haltTimeout =
        General.take controller B attached ((w :: args).map Arg.word) .haltTimeout ↔
      TakesRight controller B attached (w :: args) .haltTimeout := by
  have hcall : General.call controller B attached (.controller :: (w :: args).map Arg.word)
      .haltTimeout = .haltTimeout (some (UInt32.ofInt (atol w))) := rfl
  rw [hcall, hname]
  cases args with
  | nil =>
    apply iff_of_false
    · intro h
      cases h
    · rintro ⟨w', arg, rest, heq, -⟩
      cases heq
  | cons arg rest =>
    have htake : General.take controller B attached ((w :: arg :: rest).map Arg.word)
        .haltTimeout = .haltTimeout (some (UInt32.ofInt (atol arg))) := rfl
    rw [htake]
    constructor
    · intro h
      exact ⟨w, arg, rest, rfl, (Option.some.inj (Action.haltTimeout.inj h)).symm⟩
    · rintro ⟨w', arg', rest', heq, hzero⟩
      cases heq
      rw [hzero]
      rfl

/-- A first argument that is neither a number nor the begin of `decode` sets nothing. -/
theorem traceswoArgs_plain (argv : List Arg) {w' : Text}
    (htext : argText controller argv 1 = 0x74 :: w') :
    traceswoArgs controller B argv = (B.swoDefaultBaud, 0) := by
  have hdigit : ((0x74 :: w').head?).any (fun c => decide ((0x30 : UInt8) ≤ c ∧ c ≤ 0x39)) = false :=
    rfl
  have hdecode : (0x74 :: w').isPrefixOf (ascii "decode") = false := rfl
  unfold traceswoArgs
  dsimp only
  rw [htext, hdigit]
  simp [htext, hdecode]

theorem traceswo_iff {w : Text} {args : List Text} (hne : w ≠ [])
    (hname : w.isPrefixOf (ascii "traceswo") = true) (attached : Bool) :
    General.call controller B attached (.controller :: (w :: args).map Arg.word) .traceswo =
        General.take controller B attached ((w :: args).map Arg.word) .traceswo ↔
      TakesRight controller B attached (w :: args) .traceswo := by
  obtain ⟨w', rfl⟩ := prefix_head hne hname
  have hname := traceswoArgs_plain controller B
    (.controller :: ((0x74 :: w') :: args).map Arg.word) rfl
  show Action.traceswo (traceswoArgs controller B (.controller :: ((0x74 :: w') :: args).map
    Arg.word)).1 (traceswoArgs controller B (.controller :: ((0x74 :: w') :: args).map Arg.word)).2 =
      .traceswo (traceswoArgs controller B (((0x74 :: w') :: args).map Arg.word)).1
        (traceswoArgs controller B (((0x74 :: w') :: args).map Arg.word)).2 ↔
    traceswoArgs controller B (((0x74 :: w') :: args).map Arg.word) = (B.swoDefaultBaud, 0)
  rw [hname]
  constructor
  · intro h
    obtain ⟨hbaud, hmask⟩ := Action.traceswo.inj h
    exact Prod.ext hbaud.symm hmask.symm
  · intro h
    rw [h]

theorem heapinfo_iff (w : Text) (args : List Text) (attached : Bool) :
    General.call controller B attached (.controller :: (w :: args).map Arg.word) .heapinfo =
        General.take controller B attached ((w :: args).map Arg.word) .heapinfo ↔
      TakesRight controller B attached (w :: args) .heapinfo := by
  show heapinfoArgs controller attached (.controller :: (w :: args).map Arg.word) =
    heapinfoArgs controller attached ((w :: args).map Arg.word) ↔ _
  unfold heapinfoArgs
  cases attached with
  | false => exact iff_of_true rfl fun h => absurd h Bool.false_ne_true
  | true =>
    rw [Bool.not_true, if_neg Bool.false_ne_true, if_neg Bool.false_ne_true, List.length_cons,
      List.length_map]
    by_cases hfour : (w :: args).length = 4
    · rw [if_pos (by omega), if_neg (by omega)]
      apply iff_of_false
      · intro h
        cases h
      · intro h
        exact (h rfl).1 hfour
    · by_cases hfive : (w :: args).length = 5
      · rw [if_neg (by omega), if_pos hfive]
        apply iff_of_false
        · intro h
          cases h
        · intro h
          exact (h rfl).2 hfive
      · rw [if_neg (by omega), if_neg hfive]
        exact iff_of_true rfl fun _ => ⟨hfour, hfive⟩

theorem parse_cases (s : Text) :
    parseEnableOrDisable s ≠ .status ∧ parseEnableOrDisable s ≠ .unrecognizedFormat := by
  unfold parseEnableOrDisable
  split
  · exact ⟨Toggle.noConfusion, Toggle.noConfusion⟩
  · split
    · exact ⟨Toggle.noConfusion, Toggle.noConfusion⟩
    · split
      · exact ⟨Toggle.noConfusion, Toggle.noConfusion⟩
      · exact ⟨Toggle.noConfusion, Toggle.noConfusion⟩

theorem debugBmp_iff (w : Text) (args : List Text) (attached : Bool) :
    General.call controller B attached (.controller :: (w :: args).map Arg.word) .debugBmp =
        General.take controller B attached ((w :: args).map Arg.word) .debugBmp ↔
      TakesRight controller B attached (w :: args) .debugBmp := by
  show Action.toggle (toggleArgs controller (.controller :: (w :: args).map Arg.word)) =
    .toggle (toggleArgs controller ((w :: args).map Arg.word)) ↔ 3 ≤ (w :: args).length
  rw [Action.toggle.injEq]
  cases args with
  | nil =>
    -- Without an argument the name is taken for one.
    exact iff_of_false (parse_cases w).1 (by simp)
  | cons arg rest =>
    cases rest with
    | nil => exact iff_of_false (parse_cases arg).2.symm (by simp)
    | cons arg' rest => exact iff_of_true rfl (by simp)

/-- A general handler takes the words as its arguments exactly for these lines. -/
theorem call_iff {w : Text} {args : List Text} {c : Command General} (hne : w ≠ [])
    (h : findCommand w (cmdList B) = some c) (attached : Bool) :
    c.handler.call controller B attached (.controller :: (w :: args).map Arg.word) =
        c.handler.take controller B attached ((w :: args).map Arg.word) ↔
      TakesRight controller B attached (w :: args) c.handler := by
  obtain ⟨hfront, hmem⟩ := findCommand_prefix h
  obtain ⟨hhalt, htrace⟩ := cmd_of_handler B hmem
  cases hh : c.handler with
  | haltTimeout =>
    rw [hhalt hh] at hfront
    exact haltTimeout_iff controller B (haltTimeout_name hne hfront) attached
  | traceswo =>
    rw [htrace hh] at hfront
    exact traceswo_iff controller B hne hfront attached
  | heapinfo => exact heapinfo_iff controller B w args attached
  | debugBmp => exact debugBmp_iff controller B w args attached
  | version => exact iff_of_true rfl trivial
  | help => exact iff_of_true rfl trivial
  | jtagScan => exact iff_of_true rfl trivial
  | swdpScan => exact iff_of_true rfl trivial
  | frequency => exact iff_of_true rfl trivial
  | targets => exact iff_of_true rfl trivial
  | morse => exact iff_of_true rfl trivial
  | connectSrst => exact iff_of_true rfl trivial
  | hardSrst => exact iff_of_true rfl trivial
  | targetPower => exact iff_of_true rfl trivial

/-- A search of the tables of a target reads the controller as text, if there is an entry. -/
theorem targetCommand_iff (t : Target H) (ws : List Text) (w : Text) :
    targetCommand controller t (.controller :: ws.map Arg.word) =
        (match findCommand w t.commands.flatten with
        | some c => .specific c.handler (ws.map Arg.word) false
        | none => .unsupported false) ↔
      t.commands.flatten = [] := by
  unfold targetCommand
  dsimp only
  constructor
  · intro h
    by_contra hne
    split at h
    · split at h
      · simp [hne] at h
      · cases h
    · split at h
      · cases h
      · simp [hne] at h
  · intro hnil
    rw [hnil]
    simp [findCommand]

theorem expected_defined (t : Option (Target H)) (cmd : Text) :
    expected controller B t cmd ≠ .undefined := by
  unfold expected
  split
  · intro h
    cases h
  · dsimp only
    split
    · intro h
      cases h
    · split
      · intro h
        cases h
      · intro h
        cases h

/-! ## The dispatch of a line with words -/

section

variable {t : Option (Target H)} {cmd w : Text} {args : List Text} (hws : words cmd = w :: args)

include hws

theorem commandProcess_words :
    commandProcess controller B true t cmd =
      match findCommand w (cmdList B) with
      | some c => .general c.handler
          (c.handler.call controller B t.isSome (.controller :: (w :: args).map Arg.word))
      | none =>
        match t with
        | none => .unsupported false
        | some t => targetCommand controller t (.controller :: (w :: args).map Arg.word) := by
  have hfirst : (Arg.controller :: (w :: args).map Arg.word)[1]? = some (.word w) := rfl
  rw [commandProcess, hws]
  dsimp only
  rw [hfirst, Bool.not_true, if_neg Bool.false_ne_true]
  dsimp only [Arg.text]
  cases t with
  | none => rfl
  | some t => rfl

theorem expected_words :
    expected controller B t cmd =
      match findCommand w (cmdList B) with
      | some c => .general c.handler
          (c.handler.take controller B t.isSome ((w :: args).map Arg.word))
      | none =>
        match (t.map fun t => t.commands.flatten).bind (findCommand w) with
        | some c => .specific c.handler ((w :: args).map Arg.word) false
        | none => .unsupported false := by
  rw [expected, hws]

theorem dispatchable_words :
    Dispatchable controller B t cmd =
      match findCommand w (cmdList B) with
      | some c => TakesRight controller B t.isSome (w :: args) c.handler
      | none => ∀ t', t = some t' → t'.commands.flatten = [] := by
  rw [Dispatchable, hws]

/-- The dispatch of a line with words. -/
theorem dispatch_words :
    commandProcess controller B true t cmd = expected controller B t cmd ↔
      Dispatchable controller B t cmd := by
  have hne : w ≠ [] := by
    have hmem : w ∈ words cmd := by
      rw [hws]
      exact List.mem_cons_self ..
    exact words_ne_nil hmem
  rw [commandProcess_words controller B hws, expected_words controller B hws,
    dispatchable_words controller B hws]
  cases hfind : findCommand w (cmdList B) with
  | some c =>
    dsimp only
    rw [Outcome.general.injEq, eq_self_iff_true, true_and]
    exact call_iff controller B hne hfind t.isSome
  | none =>
    cases t with
    | none => exact iff_of_true rfl fun t' ht => absurd ht (by simp)
    | some t =>
      have htarget := targetCommand_iff controller t (w :: args) w
      constructor
      · intro h t' ht
        cases ht
        exact htarget.mp h
      · intro h
        exact htarget.mpr (h t rfl)

end

/-- The lines for which the dispatch does what it should. -/
theorem dispatch_iff (room : Bool) (t : Option (Target H)) (cmd : Text) :
    commandProcess controller B room t cmd = expected controller B t cmd ↔
      room = true ∧ Dispatchable controller B t cmd := by
  cases room with
  | false =>
    exact iff_of_false (expected_defined controller B t cmd).symm
      fun h => absurd h.1 Bool.false_ne_true
  | true =>
    rw [eq_self_iff_true, true_and]
    cases hws : words cmd with
    | nil =>
      -- The entry of `argv` for the first word is not set.
      have hundefined : commandProcess controller B true t cmd = .undefined := by
        rw [commandProcess, hws]
        rfl
      rw [hundefined, Dispatchable, hws]
      exact iff_of_false (expected_defined controller B t cmd).symm id
    | cons w args => exact dispatch_words controller B hws

/-- `halt_timeout 100` sets no timeout of 100. -/
theorem halt_timeout_unset :
    ¬∀ (controller : Text) (B : Build) (room : Bool) (t : Option (Target Unit)) (cmd : Text),
      room = true → commandProcess controller B room t cmd = expected controller B t cmd := by
  intro h
  have := h [] ⟨false, false, false, 0, false⟩ true none (ascii "halt_timeout 100") rfl
  revert this
  decide +kernel

end MiyakoLink.Monitor
