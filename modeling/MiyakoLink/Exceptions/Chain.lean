import Mathlib.Tactic.Common
import MiyakoLink.Exceptions.TryCatch

/-!
# The chain of active handlers

`Running` is a machine with the list of its active blocks, innermost first. Every program runs on
it as `eval` says (`run_follows`), and every block leaves the chain as it has found it
(`tryCatch_discipline`).
-/

namespace MiyakoLink.Exceptions

variable {σ μ : Type}

open Machine

/-- The records at these places are linked, the innermost one first. -/
def Linked (record : Addr → Record μ) : Option Addr → List Addr → Prop
  | none, [] => True
  | some e, a :: chain => e = a ∧ Linked record (record e).outer chain
  | _, _ => False

/-- The active blocks: each record is below those of the blocks inside it. -/
structure Active (m : Machine σ μ) (chain : List Addr) : Prop where
  linked : Linked m.record m.innermost chain
  inside : chain.Pairwise fun inner outer => outer < inner
  below : ∀ e ∈ chain, e < m.sp

structure Running (σ μ : Type) extends Machine σ μ where
  chain : List Addr
  active : Active toMachine chain

/-- The machine is back where `m` was: the chain is the same, and so are its records. -/
structure Unwound (m m' : Machine σ μ) : Prop where
  sp : m'.sp = m.sp
  innermost : m'.innermost = m.innermost
  record : ∀ a < m.sp, m'.record a = m.record a

/-- The exception is on its way to the block of the record `e`. -/
structure Caught (m : Machine σ μ) (e : Addr) (x : UInt32) (msg : μ) (m' : Machine σ μ) :
    Prop where
  innermost : m'.innermost = (m.record e).outer
  handler : m'.record e = { m.record e with type := x, msg := msg }
  record : ∀ a < m.sp, a ≠ e → m'.record a = m.record a

/-- The innermost block that catches `x`. -/
def handler (m : Machine σ μ) (chain : List Addr) (x : UInt32) : Option Addr :=
  chain.find? fun e => (m.record e).mask &&& x ≠ 0

/-- An exception goes to the innermost block that catches it. -/
def Raises (m : Machine σ μ) (chain : List Addr) (x : UInt32) (msg : μ) (s : σ)
    (o : Outcome σ μ) : Prop :=
  match handler m chain x with
  | some e => ∃ m', o = .jump e m' ∧ m'.user = s ∧ Caught m e x msg m'
  | none => o = .abort

/-- The outcome is what the result says it should be. -/
def Follows (m : Machine σ μ) (chain : List Addr) : Result σ μ → Outcome σ μ → Prop
  | .normal s, o => ∃ m', o = .done m' ∧ m'.user = s ∧ Unwound m m'
  | .raised x msg s, o => Raises m chain x msg s o

section

variable {m m' m'' : Machine σ μ} {chain : List Addr}

theorem Unwound.trans (h : Unwound m m') (h' : Unwound m' m'') : Unwound m m'' where
  sp := h'.sp.trans h.sp
  innermost := h'.innermost.trans h.innermost
  record a ha := (h'.record a (h.sp ▸ ha)).trans (h.record a ha)

theorem Linked.congr {record record' : Addr → Record μ} {head : Option Addr}
    (h : Linked record head chain) (heq : ∀ a ∈ chain, record' a = record a) :
    Linked record' head chain := by
  induction chain generalizing head with
  | nil => cases head <;> exact h
  | cons a chain ih =>
    cases head with
    | none => exact h
    | some e =>
      obtain ⟨rfl, hrest⟩ := h
      refine ⟨rfl, ?_⟩
      rw [heq e List.mem_cons_self]
      exact ih hrest fun b hb => heq b (List.mem_cons_of_mem e hb)

theorem Active.unwound (h : Active m chain) (hm : Unwound m m') : Active m' chain where
  linked := by
    rw [hm.innermost]
    exact h.linked.congr fun a ha => hm.record a (h.below a ha)
  inside := h.inside
  below e he := by
    rw [hm.sp]
    exact h.below e he

/-- Records at different places below `n` are at most `n`. -/
theorem length_le_of_decreasing {n : Nat}
    (hinside : chain.Pairwise fun inner outer => outer < inner) (hbelow : ∀ e ∈ chain, e < n) :
    chain.length ≤ n := by
  induction chain generalizing n with
  | nil => exact Nat.zero_le n
  | cons a chain ih =>
    obtain ⟨ha, hinside⟩ := List.pairwise_cons.mp hinside
    exact Nat.lt_of_le_of_lt (ih hinside ha) (hbelow a List.mem_cons_self)

theorem Active.length_le (h : Active m chain) : chain.length ≤ m.sp :=
  length_le_of_decreasing h.inside h.below

/-- The innermost record is that of an active block. -/
theorem Active.innermost_ne (h : Active m chain) : m.innermost ≠ some m.sp := by
  intro heq
  have hlinked := h.linked
  rw [heq] at hlinked
  cases chain with
  | nil => exact hlinked
  | cons a chain =>
    have hbelow := h.below a List.mem_cons_self
    rw [← hlinked.1] at hbelow
    exact Nat.lt_irrefl m.sp hbelow

theorem handler_congr (heq : ∀ a ∈ chain, m'.record a = m.record a) (x : UInt32) :
    handler m' chain x = handler m chain x := by
  induction chain with
  | nil => rfl
  | cons a chain ih =>
    have hrest := ih fun b hb => heq b (List.mem_cons_of_mem a hb)
    unfold handler at hrest ⊢
    rw [List.find?_cons, List.find?_cons, heq a List.mem_cons_self, hrest]

theorem handler_mem {x : UInt32} {e : Addr} (h : handler m chain x = some e) : e ∈ chain :=
  List.mem_of_find?_eq_some h

/-- What follows from a machine that is back follows from the one before. -/
theorem Follows.unwound {r : Result σ μ} {o : Outcome σ μ} (h : Active m chain)
    (hm : Unwound m m') (ho : Follows m' chain r o) : Follows m chain r o := by
  cases r with
  | normal s =>
    obtain ⟨m'', heq, huser, hunwound⟩ := ho
    exact ⟨m'', heq, huser, hm.trans hunwound⟩
  | raised x msg s =>
    have heq := handler_congr (fun a ha => hm.record a (h.below a ha)) x
    rw [Follows, Raises] at ho ⊢
    rw [heq] at ho
    cases hfound : handler m chain x with
    | none =>
      rw [hfound] at ho
      exact ho
    | some e =>
      rw [hfound] at ho
      obtain ⟨m'', heq, huser, hcaught⟩ := ho
      have he := hm.record e (h.below e (handler_mem hfound))
      refine ⟨m'', heq, huser, ?_, ?_, ?_⟩
      · rw [hcaught.innermost, he]
      · rw [hcaught.handler, he]
      · intro a ha hne
        exact (hcaught.record a (hm.sp ▸ ha) hne).trans (hm.record a ha)

/-- The loop of `raise_exception` over the blocks of a part of the chain. -/
theorem throwFrom_follows {n : Nat} {head : Option Addr} (x : UInt32) (msg : μ)
    (hlinked : Linked m.record head chain) (hlength : chain.length ≤ n) :
    Follows m chain (.raised x msg m.user) (m.throwFrom x msg n head) := by
  induction chain generalizing n head with
  | nil =>
    cases head with
    | none =>
      unfold throwFrom
      rfl
    | some e => exact hlinked.elim
  | cons a chain ih =>
    cases head with
    | none => exact hlinked.elim
    | some e =>
      obtain ⟨rfl, hrest⟩ := hlinked
      cases n with
      | zero => exact absurd hlength (Nat.not_succ_le_zero _)
      | succ n =>
        rw [Follows, Raises, handler, List.find?_cons]
        unfold throwFrom
        dsimp only
        by_cases hmask : (m.record e).mask &&& x ≠ 0
        · rw [if_pos hmask, decide_eq_true hmask]
          refine ⟨_, rfl, rfl, rfl, ?_, ?_⟩
          · exact Function.update_self e _ m.record
          · intro b _ hne
            exact Function.update_of_ne hne _ m.record
        · rw [if_neg hmask, decide_eq_false hmask]
          exact ih hrest (Nat.le_of_succ_le_succ hlength)

/-! ## A block -/

theorem enter_record_of_lt (mask : UInt32) {a : Addr} (ha : a < m.sp) :
    (m.enter mask).record a = m.record a :=
  Function.update_of_ne (Nat.ne_of_lt ha) _ m.record

theorem enter_record (mask : UInt32) :
    (m.enter mask).record m.sp =
      { m.record m.sp with
        type := 0, mask := mask, outer := m.innermost, jmpbuf := m.sp + 1 } :=
  Function.update_self m.sp _ m.record

/-- A block becomes the innermost active one. -/
theorem Active.enter (h : Active m chain) (mask : UInt32) :
    Active (m.enter mask) (m.sp :: chain) where
  linked := by
    refine ⟨rfl, ?_⟩
    rw [enter_record]
    exact h.linked.congr fun a ha => enter_record_of_lt mask (h.below a ha)
  inside := List.pairwise_cons.mpr ⟨h.below, h.inside⟩
  below e he := by
    rcases List.mem_cons.mp he with rfl | he
    · exact Nat.lt_succ_self m.sp
    · exact Nat.lt_succ_of_lt (h.below e he)

/-- The machine behind a block: only the record of the block, which is still in scope, is new. -/
structure Behind (m m' : Machine σ μ) : Prop where
  sp : m'.sp = m.sp + 1
  innermost : m'.innermost = m.innermost
  record : ∀ a < m.sp, m'.record a = m.record a

theorem Active.behind (h : Active m chain) (hm : Behind m m') : Active m' chain where
  linked := by
    rw [hm.innermost]
    exact h.linked.congr fun a ha => hm.record a (h.below a ha)
  inside := h.inside
  below e he := by
    rw [hm.sp]
    exact Nat.lt_succ_of_lt (h.below e he)

/-- What comes of a block, given what comes of its body. -/
def BlockFollows (m : Machine σ μ) (chain : List Addr) (mask : UInt32) :
    Result σ μ → Outcome σ μ → Prop
  | .normal s, o =>
    ∃ m', o = .done m' ∧ m'.user = s ∧ Behind m m' ∧ (m'.record m.sp).type = 0
  | .raised x msg s, o =>
    if mask &&& x ≠ 0 then
      ∃ m', o = .done m' ∧ m'.user = s ∧ Behind m m' ∧ (m'.record m.sp).type = x ∧
        (m'.record m.sp).msg = msg
    else Raises m chain x msg s o

theorem leave_follows (h : Active m chain) (mask : UInt32) {r : Result σ μ} {o : Outcome σ μ}
    (ho : Follows (m.enter mask) (m.sp :: chain) r o) :
    BlockFollows m chain mask r (leave m.sp o) := by
  cases r with
  | normal s =>
    obtain ⟨m', rfl, huser, hunwound⟩ := ho
    have hself := hunwound.record m.sp (Nat.lt_succ_self m.sp)
    rw [enter_record] at hself
    have hinnermost : (m'.record m.sp).outer = m.innermost := by rw [hself]
    have hne : ¬ (m'.record m.sp).outer = some m.sp := by
      rw [hinnermost]
      exact h.innermost_ne
    refine ⟨{ m' with innermost := (m'.record m.sp).outer }, if_neg hne, huser, ⟨?_, ?_, ?_⟩, ?_⟩
    · exact hunwound.sp
    · exact hinnermost
    · intro a ha
      exact (hunwound.record a (Nat.lt_succ_of_lt ha)).trans (enter_record_of_lt mask ha)
    · show (m'.record m.sp).type = 0
      rw [hself]
  | raised x msg s =>
    have hrest : handler (m.enter mask) chain x = handler m chain x :=
      handler_congr (fun a ha => enter_record_of_lt mask (h.below a ha)) x
    have hhandler : handler (m.enter mask) (m.sp :: chain) x =
        if mask &&& x ≠ 0 then some m.sp else handler m chain x := by
      rw [← hrest]
      unfold handler
      rw [List.find?_cons, enter_record]
      by_cases hmask : mask &&& x ≠ 0
      · rw [if_pos hmask, decide_eq_true hmask]
      · rw [if_neg hmask, decide_eq_false hmask]
    rw [Follows, Raises, hhandler] at ho
    rw [BlockFollows]
    by_cases hmask : mask &&& x ≠ 0
    · rw [if_pos hmask] at ho ⊢
      obtain ⟨m', rfl, huser, hcaught⟩ := ho
      have hself := hcaught.handler
      rw [enter_record] at hself
      have hinnermost := hcaught.innermost
      rw [enter_record] at hinnermost
      refine ⟨{ m' with sp := (m'.record m.sp).jmpbuf }, if_pos rfl, huser, ⟨?_, ?_, ?_⟩, ?_, ?_⟩
      · show (m'.record m.sp).jmpbuf = m.sp + 1
        rw [hself]
      · exact hinnermost
      · intro a ha
        exact (hcaught.record a (Nat.lt_succ_of_lt ha) (Nat.ne_of_lt ha)).trans
          (enter_record_of_lt mask ha)
      · show (m'.record m.sp).type = x
        rw [hself]
      · show (m'.record m.sp).msg = msg
        rw [hself]
    · rw [if_neg hmask] at ho ⊢
      unfold Raises
      cases hfound : handler m chain x with
      | none =>
        rw [hfound] at ho
        rw [ho]
        rfl
      | some e =>
        rw [hfound] at ho
        obtain ⟨m', rfl, huser, hcaught⟩ := ho
        have he := h.below e (handler_mem hfound)
        have hrecord := enter_record_of_lt mask he
        refine ⟨m', if_neg (Nat.ne_of_lt he), huser, ⟨?_, ?_, ?_⟩⟩
        · rw [hcaught.innermost, hrecord]
        · rw [hcaught.handler, hrecord]
        · intro a ha hne
          exact (hcaught.record a (Nat.lt_succ_of_lt ha) hne).trans (enter_record_of_lt mask ha)

/-- The code behind a block, up to the end of the scope of the record. -/
theorem release_follows (h : Active m chain) (hm : Behind m m') {r : Result σ μ}
    {o : Outcome σ μ} (ho : Follows m' chain r o) : Follows m chain r (release m.sp o) := by
  cases r with
  | normal s =>
    obtain ⟨m'', rfl, huser, hunwound⟩ := ho
    refine ⟨{ m'' with sp := m.sp }, rfl, huser, rfl, ?_, ?_⟩
    · exact hunwound.innermost.trans hm.innermost
    · intro a ha
      have ha' : a < m'.sp := by
        rw [hm.sp]
        exact Nat.lt_succ_of_lt ha
      exact (hunwound.record a ha').trans (hm.record a ha)
  | raised x msg s =>
    have heq := handler_congr (fun a ha => hm.record a (h.below a ha)) x
    rw [Follows, Raises] at ho ⊢
    rw [heq] at ho
    cases hfound : handler m chain x with
    | none =>
      rw [hfound] at ho
      rw [ho]
      rfl
    | some e =>
      rw [hfound] at ho
      obtain ⟨m'', rfl, huser, hcaught⟩ := ho
      have he := hm.record e (h.below e (handler_mem hfound))
      refine ⟨m'', rfl, huser, ?_, ?_, ?_⟩
      · rw [hcaught.innermost, he]
      · rw [hcaught.handler, he]
      · intro a ha hne
        have ha' : a < m'.sp := by
          rw [hm.sp]
          exact Nat.lt_succ_of_lt ha
        exact (hcaught.record a ha' hne).trans (hm.record a ha)

/-! ## Programs -/

theorem run_tryCatch (mask : UInt32) (body completed : Program σ μ)
    (caught : UInt32 → μ → Program σ μ) (m : Machine σ μ) :
    run (.tryCatch mask body completed caught) m =
      (block mask body m).andThen fun m' =>
        release m.sp (if (m'.record m.sp).type = 0 then run completed m'
          else run (caught (m'.record m.sp).type (m'.record m.sp).msg) m') := rfl

/-- Every program runs as it should, from any machine with active blocks. -/
theorem run_follows (p : Program σ μ) (h : Active m chain) :
    Follows m chain (eval p m.user) (run p m) := by
  induction p generalizing m chain with
  | act f => exact ⟨{ m with user := f m.user }, rfl, rfl, rfl, rfl, fun _ _ => rfl⟩
  | seq p q ihp ihq =>
    have hp := ihp h
    unfold eval run
    cases heval : eval p m.user with
    | normal s =>
      rw [heval] at hp
      obtain ⟨m', hrun, huser, hunwound⟩ := hp
      have hq := ihq (h.unwound hunwound)
      rw [huser] at hq
      rw [hrun]
      exact hq.unwound h hunwound
    | raised x msg s =>
      rw [heval] at hp
      dsimp only
      rw [Follows, Raises] at hp ⊢
      cases hfound : handler m chain x with
      | none =>
        rw [hfound] at hp
        rw [hp]
        rfl
      | some e =>
        rw [hfound] at hp
        obtain ⟨m', hrun, hrest⟩ := hp
        rw [hrun]
        exact ⟨m', rfl, hrest⟩
  | branch c p q ihp ihq =>
    unfold eval run
    split
    · exact ihp h
    · exact ihq h
  | raise type msg => exact throwFrom_follows _ _ h.linked h.length_le
  | tryCatch mask body completed caught ihbody ihcompleted ihcaught =>
    have hblock : BlockFollows m chain mask (eval body m.user) (block mask body m) :=
      leave_follows h mask (ihbody (h.enter mask))
    rw [run_tryCatch]
    unfold eval
    cases heval : eval body m.user with
    | normal s =>
      rw [heval] at hblock
      obtain ⟨m', hrun, huser, hbehind, htype⟩ := hblock
      have hcompleted := ihcompleted (h.behind hbehind)
      rw [huser] at hcompleted
      rw [hrun, Outcome.andThen, if_pos htype]
      exact release_follows h hbehind hcompleted
    | raised x msg s =>
      rw [heval] at hblock
      rw [BlockFollows] at hblock
      dsimp only
      by_cases hmask : mask &&& x ≠ 0
      · rw [if_pos hmask] at hblock ⊢
        obtain ⟨m', hrun, huser, hbehind, htype, hmsg⟩ := hblock
        have hcaught := ihcaught x msg (h.behind hbehind)
        rw [huser] at hcaught
        have hx : x ≠ 0 := by
          rintro rfl
          exact hmask (UInt32.and_zero)
        rw [hrun, Outcome.andThen, htype, hmsg, if_neg hx]
        exact release_follows h hbehind hcaught
      · rw [if_neg hmask] at hblock ⊢
        rw [Follows]
        unfold Raises at hblock ⊢
        cases hfound : handler m chain x with
        | none =>
          rw [hfound] at hblock
          rw [hblock]
          rfl
        | some e =>
          rw [hfound] at hblock
          obtain ⟨m', hrun, hrest⟩ := hblock
          rw [hrun]
          exact ⟨m', rfl, hrest⟩

/-- Started without an active block, a program ends where it should, or aborts with an exception
that no block catches. -/
theorem run_start (s : σ) (p : Program σ μ) (record : Addr → Record μ) (sp : Addr) :
    match eval p s with
    | .normal s' => ∃ m', run p ⟨s, sp, none, record⟩ = .done m' ∧ m'.user = s' ∧ m'.innermost = none
    | .raised _ _ _ => run p ⟨s, sp, none, record⟩ = .abort := by
  have hactive : Active (⟨s, sp, none, record⟩ : Machine σ μ) [] :=
    ⟨trivial, List.Pairwise.nil, fun e he => absurd he List.not_mem_nil⟩
  have hrun := run_follows p hactive
  cases heval : eval p s with
  | normal s' =>
    rw [heval] at hrun
    obtain ⟨m', hdone, huser, hunwound⟩ := hrun
    exact ⟨m', hdone, huser, hunwound.innermost⟩
  | raised x msg s' =>
    rw [heval] at hrun
    exact hrun

end

/-- A block inside any active blocks sees the type zero, or the exception that it catches, and
leaves the chain as it was. Other exceptions go to the innermost block around it that catches
them, and programs run as `eval` says. -/
theorem tryCatch_discipline (m : Running σ μ) (p : Program σ μ) (mask : UInt32) :
    Follows m.toMachine m.chain (eval p m.user) (run p m.toMachine) ∧
      BlockFollows m.toMachine m.chain mask (eval p m.user) (block mask p m.toMachine) :=
  ⟨run_follows p m.active, leave_follows m.active mask (run_follows p (m.active.enter mask))⟩

end MiyakoLink.Exceptions
