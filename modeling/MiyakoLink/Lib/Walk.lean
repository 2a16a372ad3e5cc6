import Mathlib.Algebra.Group.Nat.Defs
import Mathlib.Data.List.Nodup
import Mathlib.Data.Finset.Card

/-!
# Walks through a graph without a memory

A function that calls itself for every neighbour of a node, whether it has been there or not. The
edges out of a node carry labels, so the calls are known by their paths (`Path`). With fuel `n` the
walk succeeds if all paths are shorter than `n`, and it lists every path once (`walk_eq_some`,
`mem_tree`, `nodup_tree`).

* `acyclic_of_walk`, `walk_of_acyclic`: over finitely many nodes the walk ends if and only if it
  reaches no cycle.
* `nodup_marked_iff`: it lists no node with a property twice if and only if no two paths lead there.
-/

namespace MiyakoLink.Lib

variable {ι α : Type}

/-- A path from a node, by the labels of its edges. -/
inductive Path (next : α → List (ι × α)) : α → List ι → α → Prop
  | nil (a : α) : Path next a [] a
  | cons {a b c : α} {i : ι} {p : List ι} (hedge : (i, b) ∈ next a) (hpath : Path next b p c) :
      Path next a (i :: p) c

/-- Apply a function to all elements and append the results, if there are any. -/
def gather {β γ : Type} (f : β → Option (List γ)) : List β → Option (List γ)
  | [] => some []
  | b :: bs => do
    let first ← f b
    let rest ← gather f bs
    return first ++ rest

/-- A visit below an edge, from the node before it. -/
def below (i : ι) (v : List ι × α) : List ι × α := (i :: v.1, v.2)

/-- The visits of a walk, the caller before those it calls. -/
def walk (next : α → List (ι × α)) : Nat → α → Option (List (List ι × α))
  | 0, _ => none
  | n + 1, a =>
    (gather (fun e => (walk next n e.2).map (List.map (below e.1))) (next a)).map (([], a) :: ·)

/-- The visits over paths shorter than `n`. -/
def tree (next : α → List (ι × α)) : Nat → α → List (List ι × α)
  | 0, _ => []
  | n + 1, a => ([], a) :: (next a).flatMap fun e => (tree next n e.2).map (below e.1)

theorem gather_map {β γ δ : Type} (f : β → Option (List γ)) (h : γ → δ) (bs : List β) :
    (gather f bs).map (List.map h) = gather (fun b => (f b).map (List.map h)) bs := by
  induction bs with
  | nil => rfl
  | cons b bs ih =>
    rw [gather, gather, ← ih]
    cases f b with
    | none => rfl
    | some first =>
      cases gather f bs with
      | none => rfl
      | some rest => exact congrArg some (List.map_append ..)

theorem gather_of_map {β γ δ : Type} (f : γ → Option (List δ)) (g : β → γ) (bs : List β) :
    gather f (bs.map g) = gather (fun b => f (g b)) bs := by
  induction bs with
  | nil => rfl
  | cons b bs ih => rw [List.map_cons, gather, gather, ih]

theorem gather_eq_some {β γ : Type} {f : β → Option (List γ)} {g : β → List γ} {P : β → Prop}
    (hf : ∀ b l, f b = some l ↔ P b ∧ l = g b) (bs : List β) (l : List γ) :
    gather f bs = some l ↔ (∀ b ∈ bs, P b) ∧ l = bs.flatMap g := by
  induction bs generalizing l with
  | nil => exact ⟨fun h => ⟨nofun, (Option.some.inj h).symm⟩, fun h => congrArg some h.2.symm⟩
  | cons b bs ih =>
    have hbind : gather f (b :: bs) = some l ↔
        ∃ first, f b = some first ∧ ∃ rest, gather f bs = some rest ∧ first ++ rest = l := by
      rw [gather]
      simp only [Option.bind_eq_bind, Option.bind_eq_some_iff, Option.pure_def, Option.some.injEq]
    rw [hbind, List.forall_mem_cons, List.flatMap_cons]
    constructor
    · rintro ⟨first, hfirst, rest, hrest, rfl⟩
      obtain ⟨hb, rfl⟩ := (hf b first).mp hfirst
      obtain ⟨hbs, rfl⟩ := (ih rest).mp hrest
      exact ⟨⟨hb, hbs⟩, rfl⟩
    · rintro ⟨⟨hb, hbs⟩, rfl⟩
      exact ⟨_, (hf b _).mpr ⟨hb, rfl⟩, _, (ih _).mpr ⟨hbs, rfl⟩, rfl⟩

variable {next : α → List (ι × α)}

namespace Path

theorem append {a b c : α} {p q : List ι} (h : Path next a p b) (h' : Path next b q c) :
    Path next a (p ++ q) c := by
  induction h with
  | nil => exact h'
  | cons hedge _ ih => exact .cons hedge (ih h')

theorem nil_iff {a b : α} : Path next a [] b ↔ b = a := by
  constructor
  · rintro ⟨⟩
    rfl
  · rintro rfl
    exact .nil _

theorem cons_iff {a c : α} {i : ι} {p : List ι} :
    Path next a (i :: p) c ↔ ∃ b, (i, b) ∈ next a ∧ Path next b p c := by
  constructor
  · rintro (_ | ⟨hedge, hpath⟩)
    exact ⟨_, hedge, hpath⟩
  · rintro ⟨b, hedge, hpath⟩
    exact .cons hedge hpath

/-- Once around a cycle for every edge that is wanted. -/
theorem exists_long {a : α} {p : List ι} (hne : p ≠ []) (h : Path next a p a) (n : Nat) :
    ∃ q, n ≤ q.length ∧ Path next a q a := by
  induction n with
  | zero => exact ⟨[], Nat.zero_le _, .nil a⟩
  | succ n ih =>
    obtain ⟨q, hlen, hq⟩ := ih
    refine ⟨p ++ q, ?_, h.append hq⟩
    have hpos := List.length_pos_iff.mpr hne
    rw [List.length_append]
    omega

end Path

theorem mem_tree {n : Nat} {a b : α} {p : List ι} :
    (p, b) ∈ tree next n a ↔ Path next a p b ∧ p.length < n := by
  induction n generalizing a p with
  | zero => exact iff_of_false List.not_mem_nil fun h => absurd h.2 (Nat.not_lt_zero _)
  | succ n ih =>
    rw [tree, List.mem_cons, List.mem_flatMap]
    cases p with
    | nil =>
      rw [Path.nil_iff]
      constructor
      · rintro (heq | ⟨e, -, hmem⟩)
        · exact ⟨congrArg Prod.snd heq, Nat.succ_pos n⟩
        · obtain ⟨v, -, hv⟩ := List.mem_map.mp hmem
          exact absurd (congrArg Prod.fst hv) (List.cons_ne_nil _ _)
      · rintro ⟨rfl, -⟩
        exact Or.inl rfl
    | cons i p =>
      rw [Path.cons_iff]
      constructor
      · rintro (heq | ⟨⟨j, c⟩, hedge, hmem⟩)
        · exact absurd (congrArg Prod.fst heq) (List.cons_ne_nil _ _)
        · obtain ⟨⟨q, d⟩, hv, heq⟩ := List.mem_map.mp hmem
          obtain ⟨hlabels, rfl⟩ := Prod.mk.inj heq
          obtain ⟨rfl, rfl⟩ := List.cons.inj hlabels
          obtain ⟨hpath, hlen⟩ := ih.mp hv
          exact ⟨⟨c, hedge, hpath⟩, Nat.succ_lt_succ hlen⟩
      · rintro ⟨⟨c, hedge, hpath⟩, hlen⟩
        refine Or.inr ⟨(i, c), hedge, List.mem_map.mpr ⟨(p, b), ?_, rfl⟩⟩
        exact ih.mpr ⟨hpath, Nat.lt_of_succ_lt_succ hlen⟩

/-- The walk succeeds with more fuel than any path has edges. -/
theorem walk_eq_some {n : Nat} {a : α} {l : List (List ι × α)} :
    walk next n a = some l ↔ (∀ p b, Path next a p b → p.length < n) ∧ l = tree next n a := by
  induction n generalizing a l with
  | zero =>
    exact iff_of_false nofun fun h => absurd (h.1 [] a (.nil a)) (Nat.not_lt_zero _)
  | succ n ih =>
    have hgather := gather_eq_some (f := fun e : ι × α => (walk next n e.2).map (List.map (below e.1)))
      (g := fun e => (tree next n e.2).map (below e.1))
      (P := fun e => ∀ p b, Path next e.2 p b → p.length < n) (fun e l => by
        rw [Option.map_eq_some_iff]
        constructor
        · rintro ⟨l', hl', rfl⟩
          obtain ⟨hshort, rfl⟩ := ih.mp hl'
          exact ⟨hshort, rfl⟩
        · rintro ⟨hshort, rfl⟩
          exact ⟨_, ih.mpr ⟨hshort, rfl⟩, rfl⟩) (next a)
    have hshort : (∀ p b, Path next a p b → p.length < n + 1) ↔
        ∀ e ∈ next a, ∀ p b, Path next e.2 p b → p.length < n := by
      constructor
      · intro h e hedge p b hpath
        exact Nat.lt_of_succ_lt_succ (h (e.1 :: p) b (.cons hedge hpath))
      · intro h p b hpath
        cases hpath with
        | nil => exact Nat.succ_pos n
        | cons hedge hrest => exact Nat.succ_lt_succ (h _ hedge _ _ hrest)
    rw [walk, Option.map_eq_some_iff, hshort, tree]
    constructor
    · rintro ⟨rest, hrest, rfl⟩
      obtain ⟨hall, rfl⟩ := (hgather rest).mp hrest
      exact ⟨hall, rfl⟩
    · rintro ⟨hall, rfl⟩
      exact ⟨_, (hgather _).mpr ⟨hall, rfl⟩, rfl⟩

/-- With different labels at a node no path is listed twice. -/
theorem nodup_tree (hlabels : ∀ a, ((next a).map Prod.fst).Nodup) (n : Nat) (a : α) :
    (tree next n a).Nodup := by
  induction n generalizing a with
  | zero => exact List.nodup_nil
  | succ n ih =>
    have hinj : ∀ i : ι, Function.Injective (below (α := α) i) := by
      intro i v v' h
      obtain ⟨hp, hb⟩ := Prod.mk.inj h
      exact Prod.ext (List.cons.inj hp).2 hb
    refine List.nodup_cons.mpr ⟨fun hmem => ?_, List.nodup_flatMap.mpr ⟨fun e _ => ?_, ?_⟩⟩
    · obtain ⟨e, -, hmem⟩ := List.mem_flatMap.mp hmem
      obtain ⟨v, -, hv⟩ := List.mem_map.mp hmem
      exact absurd (congrArg Prod.fst hv) (List.cons_ne_nil _ _)
    · exact (ih e.2).map (hinj e.1)
    · refine (List.pairwise_map.mp (hlabels a)).imp fun {e e'} hne v hv hv' => hne ?_
      obtain ⟨w, -, rfl⟩ := List.mem_map.mp hv
      obtain ⟨w', -, hw'⟩ := List.mem_map.mp hv'
      exact (List.cons.inj (congrArg Prod.fst hw')).1.symm

/-- At most `k` edges out of every node. -/
theorem length_tree_le {k : Nat} (hk : ∀ a, (next a).length ≤ k) (n : Nat) (a : α) :
    (tree next n a).length ≤ (k + 1) ^ n := by
  induction n generalizing a with
  | zero => exact Nat.zero_le _
  | succ n ih =>
    have hrest : ∀ es : List (ι × α),
        (es.flatMap fun e => (tree next n e.2).map (below e.1)).length ≤ es.length * (k + 1) ^ n := by
      intro es
      induction es with
      | nil => exact Nat.zero_le _
      | cons e es ih' =>
        rw [List.flatMap_cons, List.length_append, List.length_map, List.length_cons, Nat.succ_mul]
        have := ih e.2
        omega
    have hpos : 1 ≤ (k + 1) ^ n := Nat.one_le_pow _ _ (Nat.succ_pos k)
    rw [tree, List.length_cons, Nat.pow_succ, Nat.mul_comm, Nat.succ_mul]
    exact Nat.add_le_add (Nat.le_trans (hrest (next a)) (Nat.mul_le_mul_right _ (hk a))) hpos

/-! ## Cycles -/

/-- A path of one edge or more leads back to the node. -/
def Cyclic (next : α → List (ι × α)) (a : α) : Prop := ∃ p, p ≠ [] ∧ Path next a p a

/-- No cycle is reached from the node. -/
def Acyclic (next : α → List (ι × α)) (a : α) : Prop := ∀ p b, Path next a p b → ¬Cyclic next b

theorem acyclic_of_walk {n : Nat} {a : α} {l : List (List ι × α)} (h : walk next n a = some l) :
    Acyclic next a := by
  rintro p b hpath ⟨q, hne, hcycle⟩
  obtain ⟨r, hlen, hlong⟩ := Path.exists_long hne hcycle n
  have hshort := (walk_eq_some.mp h).1 (p ++ r) b (hpath.append hlong)
  rw [List.length_append] at hshort
  omega

/-- Nodes with numbers below `N` of their own are at most `N`. -/
theorem length_le_of_numbered {f : α → Nat} {N : Nat} (hf : Function.Injective f)
    (hN : ∀ a, f a < N) {l : List α} (h : l.Nodup) : l.length ≤ N := by
  have hnodup := h.map hf
  have hsub : (l.map f).toFinset ⊆ Finset.range N := by
    intro k hk
    obtain ⟨a, -, rfl⟩ := List.mem_map.mp (List.mem_toFinset.mp hk)
    exact Finset.mem_range.mpr (hN a)
  have hcard := Finset.card_le_card hsub
  rwa [Finset.card_range, List.toFinset_card_of_nodup hnodup, List.length_map] at hcard

/-- The paths that leave an acyclic node, below the nodes `callers` on the way to it. -/
theorem length_lt_of_acyclic {f : α → Nat} {N : Nat} (hf : Function.Injective f)
    (hN : ∀ a, f a < N) {a b : α} {p : List ι} (hpath : Path next a p b) (h : Acyclic next a)
    {callers : List α} (hnodup : callers.Nodup)
    (hcallers : ∀ c ∈ callers, ∃ q, q ≠ [] ∧ Path next c q a) :
    p.length + callers.length < N := by
  have hnew : a ∉ callers := fun hmem => h [] a (.nil a) (hcallers a hmem)
  have hcons : (a :: callers).Nodup := List.nodup_cons.mpr ⟨hnew, hnodup⟩
  induction hpath generalizing callers with
  | nil =>
    have := length_le_of_numbered hf hN hcons
    rw [List.length_cons] at this
    rw [List.length_nil]
    omega
  | @cons a b c i p hedge hrest ih =>
    have hone : Path next a [i] b := .cons hedge (.nil b)
    have hbelow : Acyclic next b := fun q d hq => h (i :: q) d (.cons hedge hq)
    have hreach : ∀ c ∈ a :: callers, ∃ q, q ≠ [] ∧ Path next c q b := by
      intro c hmem
      rcases List.mem_cons.mp hmem with rfl | hmem
      · exact ⟨[i], List.cons_ne_nil _ _, hone⟩
      · obtain ⟨q, -, hq⟩ := hcallers c hmem
        exact ⟨q ++ [i], List.append_ne_nil_of_right_ne_nil _ (List.cons_ne_nil _ _), hq.append hone⟩
    have hnew' : b ∉ a :: callers := fun hmem => hbelow [] b (.nil b) (hreach b hmem)
    have := ih hbelow hcons hreach hnew' (List.nodup_cons.mpr ⟨hnew', hcons⟩)
    rw [List.length_cons] at this ⊢
    omega

/-- A walk that reaches no cycle succeeds with fuel for all nodes. -/
theorem walk_of_acyclic {f : α → Nat} {N : Nat} (hf : Function.Injective f) (hN : ∀ a, f a < N)
    {a : α} (h : Acyclic next a) :
    walk next N a = some (tree next N a) ∧ ∀ p b, Path next a p b → p.length < N := by
  have hshort : ∀ p b, Path next a p b → p.length < N :=
    fun p b hpath => length_lt_of_acyclic hf hN hpath h List.nodup_nil nofun
  exact ⟨walk_eq_some.mpr ⟨hshort, rfl⟩, hshort⟩

/-! ## Nodes with a property -/

/-- With different labels at a node a path leads to one node only. -/
theorem Path.unique (hlabels : ∀ a, ((next a).map Prod.fst).Nodup) {a b c : α} {p : List ι}
    (h : Path next a p b) (h' : Path next a p c) : b = c := by
  induction h with
  | nil => exact (Path.nil_iff.mp h').symm
  | cons hedge _ ih =>
    obtain ⟨d, hedge', hrest⟩ := Path.cons_iff.mp h'
    have heq := List.inj_on_of_nodup_map (hlabels _) hedge hedge' rfl
    obtain ⟨-, rfl⟩ := Prod.mk.inj heq
    exact ih hrest

/-- The keys of the nodes with the property are listed once if and only if no two paths lead to
nodes with one key. -/
theorem nodup_marked_iff {κ : Type} {marked : α → Bool} {key : α → κ}
    (hlabels : ∀ a, ((next a).map Prod.fst).Nodup) {n : Nat} {a : α}
    (hshort : ∀ p b, Path next a p b → p.length < n) :
    (((tree next n a).filter fun v => marked v.2).map fun v => key v.2).Nodup ↔
      ∀ p q b c, marked b = true → marked c = true → key b = key c → Path next a p b →
        Path next a q c → p = q := by
  have hmem : ∀ p b, (p, b) ∈ (tree next n a).filter (fun v => marked v.2) ↔
      Path next a p b ∧ marked b = true := by
    intro p b
    rw [List.mem_filter, mem_tree]
    exact ⟨fun h => ⟨h.1.1, h.2⟩, fun h => ⟨⟨h.1, hshort p b h.1⟩, h.2⟩⟩
  rw [List.nodup_map_iff_inj_on ((nodup_tree hlabels n a).filter _)]
  constructor
  · intro h p q b c hb hc hkey hp hq
    exact congrArg Prod.fst (h (p, b) ((hmem p b).mpr ⟨hp, hb⟩) (q, c) ((hmem q c).mpr ⟨hq, hc⟩) hkey)
  · rintro h ⟨p, b⟩ hp ⟨q, c⟩ hq hkey
    obtain ⟨hpath, hb⟩ := (hmem p b).mp hp
    obtain ⟨hpath', hc⟩ := (hmem q c).mp hq
    obtain rfl := h p q b c hb hc hkey hpath hpath'
    rw [Path.unique hlabels hpath hpath']

end MiyakoLink.Lib
