import Mathlib.Logic.Function.Basic
import Mathlib.Tactic.Common
import MiyakoLink.Lib.NorCell
import MiyakoLink.Lib.Patch

/-!
# Memory images over 32-bit addresses

A memory image is a function from addresses to contents. `bytesAt addr data a` is the byte
that `data`, placed at `addr`, has for address `a`; `overlay` replaces an image there and
`programmed` programs it there, by the rule of a `NorCell`.

* `bytesAt_eq`: the byte of an address in Nat terms, where the data does not wrap.
* `bytesAt_patch`: overwriting part of placed data is placing the part over it.
* `overlay_append`: placing data in two parts.
* `foldl_placed`: placing data is to write its bytes one after the other.
* `readBytes_overlay`: what was placed at an address is read back.
-/

namespace MiyakoLink.Lib

variable {β : Type*}

/-- The byte that `data` at `addr` has for the address `a`. -/
def bytesAt (addr : UInt32) (data : List β) (a : UInt32) : Option β := data[(a - addr).toNat]?

def overlay (mem : UInt32 → β) (addr : UInt32) (data : List β) : UInt32 → β :=
  fun a => (bytesAt addr data a).getD (mem a)

def programmed (N : NorCell β) (mem : UInt32 → β) (addr : UInt32) (data : List β) :
    UInt32 → β :=
  fun a => (bytesAt addr data a).elim (mem a) (N.prog (mem a))

variable {addr a : UInt32} {data : List β}

theorem bytesAt_eq (h : addr.toNat + data.length ≤ 2 ^ 32) :
    bytesAt addr data a =
      if addr.toNat ≤ a.toNat then data[a.toNat - addr.toNat]? else none := by
  have ha := a.toNat_lt
  unfold bytesAt
  rw [UInt32.toNat_sub]
  split
  · rename_i hle
    congr 1
    omega
  · rename_i hlt
    apply List.getElem?_eq_none
    omega

theorem bytesAt_eq_none_iff (h : addr.toNat + data.length ≤ 2 ^ 32) :
    bytesAt addr data a = none ↔
      a.toNat < addr.toNat ∨ addr.toNat + data.length ≤ a.toNat := by
  rw [bytesAt_eq h]
  split
  · rw [List.getElem?_eq_none_iff]
    omega
  · simp only [true_iff]
    omega

theorem bytesAt_patch {l d : List β} {off : Nat} {dest : UInt32}
    (hfits : off + d.length ≤ l.length) (htop : addr.toNat + l.length ≤ 2 ^ 32)
    (hdest : dest.toNat = addr.toNat + off) :
    bytesAt addr (patch l off d) a = (bytesAt dest d a).or (bytesAt addr l a) := by
  have hlen := length_patch hfits
  rw [bytesAt_eq (by omega), bytesAt_eq (by omega), bytesAt_eq (by omega)]
  by_cases hlow : addr.toNat ≤ a.toNat
  · rw [if_pos hlow, if_pos hlow, getElem?_patch hfits]
    by_cases hin : dest.toNat ≤ a.toNat
    · have hsub : a.toNat - addr.toNat - off = a.toNat - dest.toNat := by omega
      rw [if_pos hin, hsub]
      by_cases hin' : a.toNat < dest.toNat + d.length
      · have hget : d[a.toNat - dest.toNat]? ≠ none := by
          rw [Ne, List.getElem?_eq_none_iff]
          omega
        obtain ⟨v, hv⟩ := Option.ne_none_iff_exists'.mp hget
        rw [if_pos (by omega), hv, Option.some_or]
      · rw [if_neg (by omega), List.getElem?_eq_none (l := d) (by omega), Option.none_or]
    · rw [if_neg (by omega), if_neg hin, Option.none_or]
  · rw [if_neg hlow, if_neg hlow, if_neg (by omega), Option.none_or]

theorem overlay_of_none {mem : UInt32 → β} (h : bytesAt addr data a = none) :
    overlay mem addr data a = mem a := by
  rw [overlay, h, Option.getD_none]

theorem overlay_of_some {mem : UInt32 → β} {v : β} (h : bytesAt addr data a = some v) :
    overlay mem addr data a = v := by
  rw [overlay, h, Option.getD_some]

theorem overlay_nil (mem : UInt32 → β) : overlay mem addr [] = mem := by
  funext a
  exact overlay_of_none List.getElem?_nil

/-- The distance of an address from the begin. -/
theorem add_sub_toNat {k : Nat} (h : k < 2 ^ 32) : (addr + UInt32.ofNat k - addr).toNat = k := by
  rw [UInt32.add_comm, UInt32.add_sub_cancel]
  exact UInt32.toNat_ofNat_of_lt' h

theorem overlay_inside {k : Nat} (mem : UInt32 → β) (hk : k < data.length)
    (hsize : data.length ≤ 2 ^ 32) :
    overlay mem addr data (addr + UInt32.ofNat k) = data[k] := by
  apply overlay_of_some
  rw [bytesAt, add_sub_toNat (by omega), List.getElem?_eq_getElem hk]

theorem overlay_outside (mem : UInt32 → β) (h : data.length ≤ (a - addr).toNat) :
    overlay mem addr data a = mem a :=
  overlay_of_none (List.getElem?_eq_none h)

theorem overlay_append {c d : List β} {n : UInt32} (hn : n.toNat = c.length)
    (h : c.length + d.length ≤ 2 ^ 32) (mem : UInt32 → β) :
    overlay (overlay mem addr c) (addr + n) d = overlay mem addr (c ++ d) := by
  funext a
  have hlt := n.toNat_lt
  have ha := (a - addr).toNat_lt
  have hlen : (c ++ d).length = c.length + d.length := List.length_append
  have hdist : (a - (addr + n)).toNat = (2 ^ 32 - c.length + (a - addr).toNat) % 2 ^ 32 := by
    have haddr := addr.toNat_lt
    rw [UInt32.toNat_sub, UInt32.toNat_sub, UInt32.toNat_add, hn]
    omega
  simp only [overlay, bytesAt]
  rw [hdist]
  by_cases hfirst : (a - addr).toNat < c.length
  · rw [List.getElem?_eq_none (l := d) (by omega), Option.getD_none,
      List.getElem?_append_left hfirst]
  · have heq : (2 ^ 32 - c.length + (a - addr).toNat) % 2 ^ 32 = (a - addr).toNat - c.length := by
      omega
    rw [heq, List.getElem?_append_right (by omega), List.getElem?_eq_none (l := c) (by omega),
      Option.getD_none]

/-! ## Placed data byte by byte -/

/-- The bytes of placed data with their addresses. -/
def placed : UInt32 → List β → List (UInt32 × β)
  | _, [] => []
  | addr, x :: data => (addr, x) :: placed (addr + 1) data

theorem add_ofNat_succ (addr : UInt32) (k : Nat) :
    addr + UInt32.ofNat (k + 1) = addr + 1 + UInt32.ofNat k := by
  rw [Nat.add_comm, UInt32.ofNat_add, ← UInt32.add_assoc]
  rfl

theorem placed_append (addr : UInt32) (c d : List β) :
    placed addr (c ++ d) = placed addr c ++ placed (addr + UInt32.ofNat c.length) d := by
  induction c generalizing addr with
  | nil =>
    show placed addr d = placed (addr + 0) d
    rw [UInt32.add_zero]
  | cons x c ih =>
    show (addr, x) :: placed (addr + 1) (c ++ d) = (addr, x) :: (_ ++ _)
    rw [ih, List.length_cons, add_ofNat_succ]

theorem mem_placed {addr : UInt32} {data : List β} {w : UInt32 × β} (h : w ∈ placed addr data) :
    ∃ k < data.length, w.1 = addr + UInt32.ofNat k := by
  induction data generalizing addr with
  | nil => exact absurd h List.not_mem_nil
  | cons x data ih =>
    rcases List.mem_cons.mp h with rfl | h
    · exact ⟨0, Nat.zero_lt_succ _, (UInt32.add_zero addr).symm⟩
    · obtain ⟨k, hk, hw⟩ := ih h
      exact ⟨k + 1, Nat.succ_lt_succ hk, by rw [hw, add_ofNat_succ]⟩

/-- Placing data with its first byte written. -/
theorem overlay_update (mem : UInt32 → β) (addr : UInt32) (x : β)
    (hsize : data.length + 1 ≤ 2 ^ 32) :
    overlay (Function.update mem addr x) (addr + 1) data = overlay mem addr (x :: data) := by
  have hone : Function.update mem addr x = overlay mem addr [x] := by
    funext a
    by_cases ha : a = addr
    · subst ha
      have hzero : (a - a).toNat = 0 := by rw [UInt32.sub_self]; rfl
      rw [Function.update_self, overlay, bytesAt, hzero]
      rfl
    · have hne : (a - addr).toNat ≠ 0 := fun h => ha (by
        have hsub := UInt32.toNat_inj.mp (h.trans UInt32.toNat_zero.symm)
        rw [← UInt32.sub_add_cancel a addr, hsub, UInt32.zero_add])
      rw [Function.update_of_ne ha, overlay_of_none]
      exact List.getElem?_eq_none (by rw [List.length_singleton]; omega)
  rw [hone]
  exact overlay_append (c := [x]) (n := 1) rfl (by rw [List.length_singleton]; omega) mem

/-- Placing data is to write its bytes one after the other. -/
theorem foldl_placed (mem : UInt32 → β) (addr : UInt32) {data : List β}
    (hsize : data.length ≤ 2 ^ 32) :
    (placed addr data).foldl (fun m w => Function.update m w.1 w.2) mem =
      overlay mem addr data := by
  induction data generalizing mem addr with
  | nil => exact (overlay_nil mem).symm
  | cons x data ih =>
    rw [List.length_cons] at hsize
    show (placed (addr + 1) data).foldl _ (Function.update mem addr x) = _
    rw [ih _ _ (by omega), overlay_update mem addr x hsize]

/-! ## Reading a range -/

/-- The `n` contents from an address on. -/
def readBytes (mem : UInt32 → β) (addr : UInt32) (n : Nat) : List β :=
  (List.range n).map fun k => mem (addr + UInt32.ofNat k)

@[simp] theorem readBytes_length (mem : UInt32 → β) (addr : UInt32) (n : Nat) :
    (readBytes mem addr n).length = n := by
  rw [readBytes, List.length_map, List.length_range]

theorem readBytes_add (mem : UInt32 → β) (addr : UInt32) (m n : Nat) :
    readBytes mem addr (m + n) =
      readBytes mem addr m ++ readBytes mem (addr + UInt32.ofNat m) n := by
  unfold readBytes
  rw [List.range_add, List.map_append, List.map_map]
  congr 1
  apply List.map_congr_left
  intro k _
  rw [Function.comp_apply, UInt32.ofNat_add, UInt32.add_assoc]

/-- What was put to a range is read back. -/
theorem readBytes_overlay (mem : UInt32 → β) (addr : UInt32) (hsize : data.length ≤ 2 ^ 32) :
    readBytes (overlay mem addr data) addr data.length = data := by
  apply List.ext_getElem
  · exact readBytes_length _ _ _
  · intro k hk _
    rw [readBytes_length] at hk
    simp only [readBytes, List.getElem_map, List.getElem_range]
    exact overlay_inside mem hk hsize

/-- The byte of an address inside of a range that was read. -/
theorem bytesAt_readBytes (mem : UInt32 → β) {n : Nat} (h : (a - addr).toNat < n) :
    bytesAt addr (readBytes mem addr n) a = some (mem a) := by
  have hback : addr + UInt32.ofNat (a - addr).toNat = a := by
    rw [UInt32.ofNat_toNat, UInt32.add_comm, UInt32.sub_add_cancel]
  rw [bytesAt, readBytes, List.getElem?_map, List.getElem?_range h, Option.map_some, hback]

/-- Writing back what a range holds changes nothing. -/
theorem overlay_readBytes_self (mem : UInt32 → β) (addr : UInt32) (n : Nat) :
    overlay mem addr (readBytes mem addr n) = mem := by
  funext a
  by_cases h : (a - addr).toNat < n
  · exact overlay_of_some (bytesAt_readBytes mem h)
  · exact overlay_outside mem (by rw [readBytes_length]; omega)

/-- Copying a range in two parts. -/
theorem overlay_readBytes_add (mem mem' : UInt32 → β) (dest src : UInt32) {m n : Nat}
    (hm : m < 2 ^ 32) (h : m + n ≤ 2 ^ 32) :
    overlay (overlay mem dest (readBytes mem' src m)) (dest + UInt32.ofNat m)
        (readBytes mem' (src + UInt32.ofNat m) n) =
      overlay mem dest (readBytes mem' src (m + n)) := by
  rw [readBytes_add]
  apply overlay_append
  · rw [readBytes_length]
    exact UInt32.toNat_ofNat_of_lt' hm
  · rw [readBytes_length, readBytes_length]
    exact h

theorem programmed_of_none {N : NorCell β} {mem : UInt32 → β}
    (h : bytesAt addr data a = none) : programmed N mem addr data a = mem a := by
  rw [programmed, h, Option.elim_none]

theorem programmed_eq (N : NorCell β) (mem : UInt32 → β) :
    programmed N mem addr data a =
      N.prog (mem a) ((bytesAt addr data a).getD N.erased) := by
  unfold programmed
  cases bytesAt addr data a with
  | none => exact (N.prog_erased (mem a)).symm
  | some v => rfl

end MiyakoLink.Lib
