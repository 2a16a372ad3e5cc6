import MiyakoLink.Mem.Runs
import MiyakoLink.Monitor.Packets

/-!
# What monitor commands leave in the pools

When the loop waits for the next packet, the queues should hold all items but those of the blocks
that the rest of the program owns (`BackInPools`). `neutral_iff` says for which runs they do. The
blocks of a command stay away from their queues if its handler raises an exception, and the
vector does if there is no target and no general command has the name.

`Held` is the invariant of the proof: besides the blocks that the rest owns, those in a list are
handed out.
-/

namespace MiyakoLink.Monitor

open Lib Mem
open scoped List

variable {H O σ : Type} {controller : Text} {B : Build} {R : Rest H O σ}
variable {area : Nat → Nat → Nat} {owned : σ → List Block} {s s' : State σ} {held : List Block}

/-! ## What the rest does -/

/-- A function uses the pools as it should: of the blocks that are handed out it frees only those
that the rest owns, and it knows which ones these are. -/
def Keeps (area : Nat → Nat → Nat) (owned : σ → List Block) (f : σ → System → σ × System) : Prop :=
  ∀ held u h, Custody area h → h.live ~ held ++ owned u →
    Custody area (f u h).2 ∧ (f u h).2.live ~ held ++ owned (f u h).1

structure Rest.Sound (area : Nat → Nat → Nat) (owned : σ → List Block) (R : Rest H O σ) : Prop where
  general : ∀ h a, Keeps area owned fun u s => (R.general h a u s).2
  specific : ∀ h argv misread, Keeps area owned fun u s => (R.specific h argv misread u s).2
  targetListFree : Keeps area owned R.targetListFree
  other : ∀ o, Keeps area owned (R.other o)

/-- The queues hold the items that the rest does not own. -/
def BackInPools (area : Nat → Nat → Nat) (owned : σ → List Block) (s : State σ) : Prop :=
  ∀ i p, s.heap.manager.pools[i]? = some p →
    p.queue.items ++ handedOut (owned s.user) (items area i p) ~ items area i p

/-- Whenever the loop waits for a packet, the blocks of the commands before are back. -/
def Neutral (controller : Text) (B : Build) (R : Rest H O σ) (area : Nat → Nat → Nat)
    (owned : σ → List Block) (ps : List (Packet O)) (s : State σ) : Prop :=
  ∀ pre, pre <+: ps → ∃ s', serveAll controller B R pre s = some s' ∧ BackInPools area owned s'

/-! ## The runs that are neutral -/

section

variable (controller B R)

/-- A handler returns, with the vector in its block. Without a general command of the name there
is a target, and whatever its tables have for the controller returns. -/
def Returns (cmd : Text) (user : σ) (heap : System) : Prop :=
  match words cmd with
  | [] => False
  | w :: args =>
    let argv := .controller :: (w :: args).map Arg.word
    match findCommand w (cmdList B) with
    | some c =>
      (R.general c.handler (c.handler.call controller B (R.curTarget user).isSome argv) user
        heap).1 ≠ .raised
    | none =>
      match R.curTarget user with
      | none => False
      | some t => ∀ c, findCommand controller t.commands.flatten = some c →
        (R.specific c.handler argv (t.commands.flatten ≠ []) user heap).1 ≠ .raised

/-- There is a block for the vector, and the command returns after this. -/
def Frees (cmd : Text) (s : State σ) : Prop :=
  ∃ argv heap, take (pointerSize * argvRoom cmd) s.heap = some (argv, heap) ∧
    Returns controller B R cmd s.user heap

/-- There is a block for the text, and the command frees its vector. -/
def Harmless (s : State σ) : Packet O → Prop
  | .rcmd hex => ∃ data heap, take (datalen hex + 1) s.heap = some (data, heap) ∧
      Frees controller B R (rcmdText hex) ⟨s.user, heap⟩
  | .other _ => True

/-- Every packet is harmless in the state in which it comes. -/
def AllHarmless : List (Packet O) → State σ → Prop
  | [], _ => True
  | p :: ps, s => Harmless controller B R s p ∧
      ∀ s', serve controller B R p s = some s' → AllHarmless ps s'

end

/-! ## Blocks that are held -/

/-- The blocks in `held` and those of the rest are handed out. -/
structure Held (area : Nat → Nat → Nat) (owned : σ → List Block) (held : List Block)
    (s : State σ) : Prop where
  custody : Custody area s.heap
  live : s.heap.live ~ held ++ owned s.user

theorem Held.perm (h : Held area owned held s) {held' : List Block} (hperm : held ~ held') :
    Held area owned held' s :=
  ⟨h.custody, h.live.trans (hperm.append_right _)⟩

theorem Held.keeps (h : Held area owned held s) {f : σ → System → σ × System}
    (hf : Keeps area owned f) : Held area owned held ⟨(f s.user s.heap).1, (f s.user s.heap).2⟩ :=
  have hkeeps := hf held s.user s.heap h.custody h.live
  ⟨hkeeps.1, hkeeps.2⟩

/-- A block that is taken is held. -/
theorem Held.take (h : Held area owned held s) (harea : DisjointAreas area) {size p : Nat}
    {heap : System} (htake : take size s.heap = some (p, heap)) :
    ∃ b : Block, b.ptr = p ∧ Held area owned (b :: held) ⟨s.user, heap⟩ := by
  obtain ⟨p', halloc, heq⟩ := Option.map_eq_some_iff.mp htake
  cases heq
  refine ⟨⟨p - dataOffset, size⟩, ?_, h.custody.alloc harea size, ?_⟩
  · rcases h.custody.alloc_cases size with hnone | ⟨_, _, _, pItem, _, _, _, _, _, hsome⟩
    · rw [hnone] at halloc
      cases halloc
    · rw [hsome] at halloc
      cases halloc
      rfl
  · have hlive : (alloc size s.heap).live = ⟨p - dataOffset, size⟩ :: s.heap.live := by
      unfold alloc
      split
      case h_1 heq =>
        rw [heq] at halloc
        cases halloc
      case h_2 heq =>
        rw [heq] at halloc
        cases halloc
        rfl
    show (alloc size s.heap).live ~ _
    rw [hlive]
    exact h.live.cons _

/-- A block that is freed is not held any more. -/
theorem Held.free {b : Block} (h : Held area owned (b :: held) s) (harea : DisjointAreas area) :
    Held area owned held { s with heap := free b.ptr s.heap } := by
  have hb : b ∈ s.heap.live := h.live.mem_iff.mpr (by simp)
  refine ⟨h.custody.free harea hb, ?_⟩
  obtain ⟨b', l₁, l₂, -, hptr, hsplit, herase⟩ :=
    List.exists_of_eraseP (p := fun x : Block => x.ptr == b.ptr) hb (beq_self_eq_true b.ptr)
  have hb' : b' ∈ s.heap.live := by
    rw [hsplit]
    simp
  have heq : b' = b := by
    -- Two blocks that are handed out are not at one place.
    apply List.inj_on_of_nodup_map (h.custody.live_nodup harea) hb' hb
    simpa [Block.ptr] using hptr
  subst heq
  have hperm : s.heap.live ~ b' :: (l₁ ++ l₂) := by
    rw [hsplit]
    exact List.perm_middle
  show s.heap.live.eraseP _ ~ _
  rw [herase]
  exact (List.perm_cons b').mp (hperm.symm.trans h.live)

/-- The queues hold what the rest does not own only if nothing else is held. -/
theorem Held.back_iff (h : Held area owned held s) :
    BackInPools area owned s ↔ held = [] := by
  constructor
  · intro hback
    by_contra hne
    obtain ⟨b, hb⟩ := List.exists_mem_of_ne_nil held hne
    obtain ⟨i, p, hp, hitem, -⟩ := h.custody.live b (h.live.mem_iff.mpr (by simp [hb]))
    have hcustody := (h.custody.custody i p hp).length_eq
    have hlength := (hback i p hp).length_eq
    have hlive := (handedOut_perm h.live (items area i p)).length_eq
    have hpos : 0 < (handedOut held (items area i p)).length := by
      apply List.length_pos_of_mem (a := b.item)
      simp only [handedOut, List.mem_filter, decide_eq_true_eq]
      exact ⟨List.mem_map_of_mem hb, hitem⟩
    have happend : handedOut (held ++ owned s.user) (items area i p) =
        handedOut held (items area i p) ++ handedOut (owned s.user) (items area i p) := by
      simp [handedOut]
    rw [happend, List.length_append] at hlive
    rw [List.length_append] at hcustody hlength
    omega
  · rintro rfl i p hp
    have hlive := handedOut_perm h.live (items area i p)
    exact (hlive.symm.append_left _).trans (h.custody.custody i p hp)

/-! ## A command -/

/-- A call that is `good` returns and holds nothing more than before; one that is not never comes
to its end, or holds more. -/
def Ends (area : Nat → Nat → Nat) (owned : σ → List Block) (held : List Block) (good : Prop)
    {α : Type} (r : Option (Option α × State σ)) : Prop :=
  (good ∧ ∃ a s', r = some (some a, s') ∧ Held area owned held s') ∨
    (¬ good ∧ ∀ a s', r = some (a, s') → ∃ left ≠ [], Held area owned (left ++ held) s')

/-- The vector is freed if the handler returns. -/
theorem finish_ends (harea : DisjointAreas area) {b : Block} {e : End × σ × System}
    (h : Held area owned (b :: held) ⟨e.2.1, e.2.2⟩) :
    Ends area owned held (e.1 ≠ .raised) (some (finish b.ptr e)) := by
  obtain ⟨e, user, heap⟩ := e
  cases e with
  | returned ok => exact .inl ⟨by simp, _, _, rfl, h.free harea⟩
  | raised =>
    refine .inr ⟨by simp, ?_⟩
    rintro a s' heq
    cases heq
    exact ⟨[b], by simp, h⟩

variable (controller B) in
theorem processCommand_ends (harea : DisjointAreas area) (hR : R.Sound area owned) (cmd : Text)
    (h : Held area owned held s) :
    Ends area owned held (Frees controller B R cmd s) (processCommand controller B R cmd s) := by
  unfold processCommand
  cases htake : take (pointerSize * argvRoom cmd) s.heap with
  | none =>
    refine .inr ⟨?_, by simp⟩
    rintro ⟨argv, heap, heq, -⟩
    rw [htake] at heq
    cases heq
  | some r =>
    obtain ⟨argv, heap⟩ := r
    obtain ⟨b, rfl, hheld⟩ := h.take harea htake
    have hfrees : Frees controller B R cmd s ↔ Returns controller B R cmd s.user heap := by
      simp [Frees, htake]
    rw [hfrees]
    simp only [Option.bind_eq_bind, Option.bind_some]
    unfold commandProcess Returns
    cases hwords : words cmd with
    | nil => exact .inr ⟨id, by simp⟩
    | cons w args =>
      simp only [Bool.not_true, Bool.false_eq_true, if_false, List.map_cons,
        List.getElem?_cons_succ, List.getElem?_cons_zero, Arg.text]
      cases hgeneral : findCommand w (cmdList B) with
      | some c =>
        exact finish_ends harea (hheld.keeps (hR.general _ _))
      | none =>
        cases ht : R.curTarget s.user with
        | none =>
          refine .inr ⟨id, ?_⟩
          rintro a s' heq
          cases heq
          exact ⟨[b], by simp, hheld⟩
        | some t =>
          unfold targetCommand
          have hname : argText controller (.controller :: .word w :: args.map Arg.word) 0 =
              controller := rfl
          simp only [hname]
          cases hspecific : findCommand controller t.commands.flatten with
          | none => exact .inl ⟨by simp, _, _, rfl, hheld.free harea⟩
          | some c =>
            simpa using finish_ends harea (hheld.keeps (hR.specific _ _ _))

variable (controller B) in
theorem handleRcmd_ends (harea : DisjointAreas area) (hR : R.Sound area owned) (hex : Text)
    (h : Held area owned held s) :
    Ends area owned held (Harmless controller B R s (.rcmd hex))
      (handleRcmd controller B R hex s) := by
  unfold handleRcmd
  cases htake : take (datalen hex + 1) s.heap with
  | none =>
    refine .inr ⟨?_, by simp⟩
    rintro ⟨data, heap, heq, -⟩
    rw [htake] at heq
    cases heq
  | some r =>
    obtain ⟨data, heap⟩ := r
    obtain ⟨b, rfl, hheld⟩ := h.take harea htake
    have hharmless : Harmless controller B R s (.rcmd hex) ↔
        Frees controller B R (rcmdText hex) ⟨s.user, heap⟩ := by
      simp [Harmless, htake]
    rw [hharmless]
    simp only [Option.bind_eq_bind, Option.bind_some]
    rcases processCommand_ends controller B harea hR (rcmdText hex) hheld
      with ⟨hgood, c, s', heq, hheld'⟩ | ⟨hbad, hleft⟩
    · rw [heq]
      exact .inl ⟨hgood, _, _, rfl, hheld'.free harea⟩
    · refine .inr ⟨hbad, ?_⟩
      intro a s' heq
      cases hcommand : processCommand controller B R (rcmdText hex) ⟨s.user, heap⟩ with
      | none =>
        rw [hcommand] at heq
        cases heq
      | some r =>
        obtain ⟨c, s₁⟩ := r
        obtain ⟨left, hne, hheld'⟩ := hleft c s₁ hcommand
        rw [hcommand] at heq
        cases c with
        | none =>
          -- The exception leaves the text in its block as well.
          cases heq
          refine ⟨left ++ [b], by simp, ?_⟩
          rw [List.append_assoc]
          exact hheld'
        | some c =>
          cases heq
          exact ⟨left, hne, (hheld'.perm List.perm_middle).free harea⟩

/-! ## Packets -/

variable (controller B) in
/-- A harmless packet ends where the loop waits, and nothing is held; after another one the loop
does not wait again, or something is held. -/
theorem serve_ends (harea : DisjointAreas area) (hR : R.Sound area owned) (p : Packet O)
    (h : Held area owned [] s) :
    (Harmless controller B R s p ∧
        ∃ s', serve controller B R p s = some s' ∧ Held area owned [] s') ∨
      (¬ Harmless controller B R s p ∧ ∀ s', serve controller B R p s = some s' →
        ∃ left ≠ [], Held area owned left s') := by
  cases p with
  | other o => exact .inl ⟨trivial, _, rfl, h.keeps (hR.other o)⟩
  | rcmd hex =>
    unfold serve
    simp only [Option.bind_eq_bind]
    rcases handleRcmd_ends controller B harea hR hex h
      with ⟨hgood, c, s', heq, hheld⟩ | ⟨hbad, hleft⟩
    · rw [heq]
      exact .inl ⟨hgood, s', rfl, hheld⟩
    · refine .inr ⟨hbad, ?_⟩
      intro s' heq
      obtain ⟨⟨c, s₁⟩, hrcmd, hrest⟩ := Option.bind_eq_some_iff.mp heq
      obtain ⟨left, hne, hheld⟩ := hleft c s₁ hrcmd
      rw [List.append_nil] at hheld
      cases c with
      | some c =>
        cases hrest
        exact ⟨left, hne, hheld⟩
      | none =>
        cases hrest
        exact ⟨left, hne, hheld.keeps hR.targetListFree⟩

theorem not_neutral (harea : DisjointAreas area) (hR : R.Sound area owned) {p : Packet O}
    {ps : List (Packet O)} (h : Held area owned [] s) (hbad : ¬ Harmless controller B R s p) :
    ¬ Neutral controller B R area owned (p :: ps) s := by
  intro hneutral
  obtain ⟨s', hrun, hback⟩ := hneutral [p] (by simp)
  have hserve : serve controller B R p s = some s' := by
    simpa [serveAll] using hrun
  rcases serve_ends controller B harea hR p h with ⟨hgood, -⟩ | ⟨-, hleft⟩
  · exact hbad hgood
  · obtain ⟨left, hne, hheld⟩ := hleft s' hserve
    exact hne (hheld.back_iff.mp hback)

/-- Every packet of a run is harmless where it comes just when the blocks of each command are back
in their queues at the next packet. -/
theorem neutral_iff (harea : DisjointAreas area) (hR : R.Sound area owned) (ps : List (Packet O))
    (hcustody : Custody area s.heap) (hlive : s.heap.live ~ owned s.user) :
    Neutral controller B R area owned ps s ↔ AllHarmless controller B R ps s := by
  have h : Held area owned [] s := ⟨hcustody, hlive⟩
  clear hcustody hlive
  induction ps generalizing s with
  | nil =>
    refine iff_of_true ?_ trivial
    intro pre hpre
    obtain rfl := List.prefix_nil.mp hpre
    exact ⟨s, rfl, h.back_iff.mpr rfl⟩
  | cons p ps ih =>
    rcases serve_ends controller B harea hR p h
      with ⟨hgood, s₁, hserve, hheld⟩ | ⟨hbad, -⟩
    · have hrest : AllHarmless controller B R (p :: ps) s ↔ AllHarmless controller B R ps s₁ := by
        simp [AllHarmless, hgood, hserve]
      refine Iff.trans ?_ ((ih hheld).trans hrest.symm)
      constructor
      · intro hneutral pre hpre
        obtain ⟨s', hrun, hback⟩ := hneutral (p :: pre) (List.cons_prefix_cons.mpr ⟨rfl, hpre⟩)
        refine ⟨s', ?_, hback⟩
        simpa [serveAll, hserve] using hrun
      · intro hneutral pre hpre
        cases pre with
        | nil => exact ⟨s, rfl, h.back_iff.mpr rfl⟩
        | cons p' pre =>
          obtain ⟨rfl, hpre'⟩ := List.cons_prefix_cons.mp hpre
          obtain ⟨s', hrun, hback⟩ := hneutral pre hpre'
          refine ⟨s', ?_, hback⟩
          simpa [serveAll, hserve] using hrun
    · exact iff_of_false (not_neutral harea hR h hbad) (fun hall => hbad hall.1)

/-- The handlers do nothing, and there is no target. -/
def benchRest : Rest Empty Empty Unit where
  curTarget _ := none
  general _ _ user heap := (.returned true, user, heap)
  specific _ _ _ user heap := (.returned true, user, heap)
  targetListFree user heap := (user, heap)
  other _ user heap := (user, heap)

/-- Nothing is handed out. -/
def benchStart : State Unit := ⟨(), ⟨memManagerInit strideArea fun _ => 0xA5, []⟩⟩

def benchBuild : Build := ⟨true, false, false, 0, true⟩

theorem benchRest_sound : benchRest.Sound strideArea fun _ => [] where
  general _ _ _ _ _ hcustody hlive := ⟨hcustody, hlive⟩
  specific _ _ _ _ _ _ hcustody hlive := ⟨hcustody, hlive⟩
  targetListFree _ _ _ hcustody hlive := ⟨hcustody, hlive⟩
  other _ _ _ _ hcustody hlive := ⟨hcustody, hlive⟩

/-- `version`, in hexadecimal digits. -/
theorem version_neutral : Neutral [] benchBuild benchRest strideArea (fun _ => [])
    [.rcmd (ascii "76657273696f6e")] benchStart := by
  refine (neutral_iff strideArea_disjoint benchRest_sound _
    (Custody.init strideArea_disjoint _) (List.Perm.refl _)).mpr ⟨?_, fun _ _ => trivial⟩
  have hroom : ((take 8 benchStart.heap).bind fun r => take 8 r.2).isSome = true := by
    decide +kernel
  obtain ⟨⟨argv, heap₂⟩, hroom⟩ := Option.isSome_iff_exists.mp hroom
  obtain ⟨⟨data, heap₁⟩, hdata, hargv⟩ := Option.bind_eq_some_iff.mp hroom
  have hwords : words (rcmdText (ascii "76657273696f6e")) = [ascii "version"] := by
    decide
  refine ⟨data, heap₁, hdata, argv, heap₂, hargv, ?_⟩
  unfold Returns
  rw [hwords]
  intro h
  cases h

/-- `foo` without a target. -/
theorem unknown_not_neutral : ¬ Neutral [] benchBuild benchRest strideArea (fun _ => [])
    [.rcmd (ascii "666f6f")] benchStart := by
  apply not_neutral strideArea_disjoint benchRest_sound
    ⟨Custody.init strideArea_disjoint _, List.Perm.refl _⟩
  rintro ⟨data, heap, -, argv, heap', -, hreturns⟩
  unfold Returns at hreturns
  have hwords : words (rcmdText (ascii "666f6f")) = [ascii "foo"] := by
    decide
  rw [hwords] at hreturns
  exact hreturns

end MiyakoLink.Monitor
