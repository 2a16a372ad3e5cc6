import Mathlib.Data.Finset.Card
import Mathlib.Tactic.Common

/-!
# The slots of the tasks

`add_pid_to_list` and `get_thread_number`, and the resources of the tasks, which are indexed by
the number. A registration goes on behind a free slot that it has claimed, so the first task
claims all of them (`registered_eq`), and no other task gets a number.
-/

namespace MiyakoLink.Tasks

variable {τ : Type} [DecidableEq τ]

/-- `pid_list`: the task of each slot. -/
abbrev PidList (τ : Type) := List (Option τ)

/-- The loop of `add_pid_to_list`. `insertIndex` stays negative, so nothing is given back. -/
def addPid (pid : τ) : PidList τ → PidList τ
  | [] => []
  | none :: l => some pid :: addPid pid l
  | some q :: l => if q = pid then some q :: l else some q :: addPid pid l

/-- `add_pid_to_list`, called by the current task if there is one. -/
def addPidToList (pid : Option τ) (l : PidList τ) : PidList τ :=
  match pid with
  | none => l
  | some pid => addPid pid l

/-- `get_thread_number`. -/
def getThreadNumber (pid : Option τ) (l : PidList τ) : Int :=
  match l.findIdx? (· = pid) with
  | some i => i
  | none => -1

/-- The slots when these tasks have called, one after the other. -/
def registered (slots : Nat) (calls : List τ) : PidList τ :=
  calls.foldl (fun l pid => addPidToList (some pid) l) (List.replicate slots none)

/-- `get_name` of `DEF_THREAD_RESOURCE`, if the index is one of the list. -/
def getResource {α : Type} (name : List α) (pid : τ) (l : PidList τ) : Option α :=
  if getThreadNumber (some pid) l < 0 then none else name[(getThreadNumber (some pid) l).toNat]?

/-- `set_name`. -/
def setResource {α : Type} (name : List α) (pid : τ) (v : α) (l : PidList τ) : Option (List α) :=
  let i := getThreadNumber (some pid) l
  if 0 ≤ i ∧ i.toNat < name.length then some (name.set i.toNat v) else none

/-- Every task that has called has a slot of its own for the rest of the run, and so have its
resources. -/
structure OwnSlots (slots : Nat) (calls : List τ) : Prop where
  unique : ∀ before after, calls = before ++ after → ∀ t ∈ before,
    ∃! i : Nat, (registered slots before)[i]? = some (some t)
  number : ∀ before after, calls = before ++ after → ∀ t ∈ before, ∃ i : Nat, i < slots ∧
    (registered slots before)[i]? = some (some t) ∧
      getThreadNumber (some t) (registered slots before) = i ∧
      getThreadNumber (some t) (registered slots calls) = i
  apart : ∀ t ∈ calls, ∀ u ∈ calls, t ≠ u →
    getThreadNumber (some t) (registered slots calls) ≠
      getThreadNumber (some u) (registered slots calls)
  resource : ∀ {α : Type} (name : List α) (v : α), name.length = slots → ∀ t ∈ calls,
    ∃ name', setResource name t v (registered slots calls) = some name' ∧
      getResource name' t (registered slots calls) = some v ∧
      ∀ u ∈ calls, u ≠ t →
        getResource name' u (registered slots calls) = getResource name u (registered slots calls)

theorem addPid_free (pid : τ) (slots : Nat) :
    addPid pid (List.replicate slots none) = List.replicate slots (some pid) := by
  induction slots with
  | zero => rfl
  | succ slots ih =>
    rw [List.replicate_succ, List.replicate_succ, addPid, ih]

/-- Where all slots are taken by one task nothing changes. -/
theorem addPid_taken (pid q : τ) (slots : Nat) :
    addPid pid (List.replicate slots (some q)) = List.replicate slots (some q) := by
  induction slots with
  | zero => rfl
  | succ slots ih =>
    rw [List.replicate_succ, addPid, ih]
    split
    · rfl
    · rfl

/-- The first task has all the slots. -/
theorem registered_eq (slots : Nat) (t : τ) (calls : List τ) :
    registered slots (t :: calls) = List.replicate slots (some t) := by
  have hfirst : registered slots [t] = List.replicate slots (some t) := addPid_free t slots
  induction calls using List.reverseRecOn with
  | nil => exact hfirst
  | append_singleton calls u ih =>
    unfold registered at ih ⊢
    rw [← List.cons_append, List.foldl_append, ih]
    exact addPid_taken u t slots

theorem getThreadNumber_single (t : τ) : getThreadNumber (some t) [some t] = 0 := by
  simp [getThreadNumber]

/-- A single slot is that of the only task there can be. -/
theorem ownSlots_single {t : τ} {calls : List τ} (h : ∀ u ∈ calls, u = t) :
    OwnSlots 1 calls := by
  have hregistered : ∀ before : List τ, before ≠ [] → (∀ u ∈ before, u = t) →
      registered 1 before = [some t] := by
    intro before hne hall
    cases before with
    | nil => exact absurd rfl hne
    | cons u before =>
      rw [registered_eq, hall u List.mem_cons_self]
      rfl
  have hbefore : ∀ before after, calls = before ++ after → ∀ u ∈ before,
      u = t ∧ registered 1 before = [some t] ∧ registered 1 calls = [some t] := by
    rintro before after rfl u hu
    refine ⟨h u (List.mem_append_left after hu), ?_, ?_⟩
    · exact hregistered before (List.ne_nil_of_mem hu)
        fun v hv => h v (List.mem_append_left after hv)
    · exact hregistered _ (List.ne_nil_of_mem (List.mem_append_left after hu)) h
  constructor
  · intro before after hcalls u hu
    obtain ⟨rfl, hslots, -⟩ := hbefore before after hcalls u hu
    rw [hslots]
    refine ⟨0, rfl, ?_⟩
    intro i hi
    cases i with
    | zero => rfl
    | succ i => exact nomatch hi
  · intro before after hcalls u hu
    obtain ⟨rfl, hslots, hall⟩ := hbefore before after hcalls u hu
    rw [hslots, hall]
    exact ⟨0, Nat.one_pos, rfl, getThreadNumber_single u, getThreadNumber_single u⟩
  · intro u hu v hv hne
    exact absurd ((h u hu).trans (h v hv).symm) hne
  · intro α name v hlength u hu
    obtain ⟨rfl, -, hall⟩ := hbefore calls [] (List.append_nil calls).symm u hu
    obtain ⟨x, rfl⟩ := List.length_eq_one_iff.mp hlength
    rw [hall]
    refine ⟨[v], ?_, ?_, ?_⟩
    · simp [setResource, getThreadNumber_single]
    · simp [getResource, getThreadNumber_single]
    · intro w hw hne
      exact absurd (h w hw) hne

theorem ownSlots_nil (slots : Nat) : OwnSlots slots ([] : List τ) := by
  constructor
  · intro before after hnil t ht
    rw [(List.append_eq_nil_iff.mp hnil.symm).1] at ht
    exact absurd ht List.not_mem_nil
  · intro before after hnil t ht
    rw [(List.append_eq_nil_iff.mp hnil.symm).1] at ht
    exact absurd ht List.not_mem_nil
  · intro t ht
    exact absurd ht List.not_mem_nil
  · intro α name v _ t ht
    exact absurd ht List.not_mem_nil

/-- Tasks that have slots of their own can only be had with one slot. -/
theorem ownSlots_iff (slots : Nat) (calls : List τ) (h : calls.toFinset.card ≤ slots) :
    OwnSlots slots calls ↔ calls = [] ∨ slots = 1 := by
  constructor
  · intro hown
    cases calls with
    | nil => exact Or.inl rfl
    | cons t calls =>
      have hunique := hown.unique [t] calls rfl t List.mem_cons_self
      have hslots : registered slots [t] = List.replicate slots (some t) := registered_eq slots t []
      rw [hslots] at hunique
      obtain ⟨i, hi, hsame⟩ := hunique
      have hlt : i < slots := by
        by_contra hle
        rw [List.getElem?_eq_none (by simpa using hle)] at hi
        exact nomatch hi
      have hall : ∀ j < slots, j = i := fun j hj => hsame j (by simp [hj])
      have hfirst := hall 0 (Nat.zero_lt_of_lt hlt)
      have hlast := hall (slots - 1) (by omega)
      exact Or.inr (by omega)
  · intro hor
    cases calls with
    | nil => exact ownSlots_nil slots
    | cons t calls =>
      obtain rfl : slots = 1 := hor.resolve_left (List.cons_ne_nil t calls)
      refine ownSlots_single (t := t) ?_
      intro u hu
      exact Finset.card_le_one.mp h u (List.mem_toFinset.mpr hu) t
        (List.mem_toFinset.mpr List.mem_cons_self)

/-- One task has one slot. -/
theorem ownSlots_one_task : OwnSlots 1 [7, 7] :=
  (ownSlots_iff 1 [7, 7] (by decide)).mpr (Or.inr rfl)

/-- `MAX_GDB_NUMBER`. -/
abbrev maxGdbNumber : Nat := 2

/-- The second task has no slot: its number is negative. -/
theorem second_task_without_slot :
    getThreadNumber (some 1) (registered maxGdbNumber [0, 1]) = -1 ∧
      ¬ OwnSlots maxGdbNumber [0, 1] := by
  refine ⟨by decide, fun h => ?_⟩
  obtain ⟨i, _, _, hbefore, _⟩ := h.number [0, 1] [] rfl 1 (by simp)
  have hnone : getThreadNumber (some 1) (registered maxGdbNumber [0, 1]) = -1 := by decide
  rw [hnone] at hbefore
  omega

end MiyakoLink.Tasks
