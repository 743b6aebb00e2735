import Mathlib.Algebra.Group.Nat.Defs
import Mathlib.Data.List.Basic

/-!
# Error codes, 32-bit arithmetic and linked lists

The error codes and the arithmetic of `rtdef.h` on `rt_uint32_t`, with `RT_ALIGN_SIZE` = 4, and the
operations of `rtservice.h` on a circular doubly linked list (`rt_list_t`). A list is modelled by
its nodes in order, without the head:

* `rt_list_insert_after(head, n)` is `n :: l`, `rt_list_insert_before(head, n)` is `l ++ [n]`;
* `rt_list_insert_before(r, n)` for a node `r` of the list is `listInsertBefore r n l`;
* `rt_list_remove(n)` is `l.erase n`.
-/

namespace Tudu

def rtEok : Int := 0
def rtError : Int := 1
def rtEtimeout : Int := 2
def rtEfull : Int := 3
def rtEnomem : Int := 5
def rtEintr : Int := 9

def add32 (a b : Nat) : Nat := (a + b) % 2 ^ 32

/-- `a - b` on 32 bits, of two numbers below 2^32. -/
def sub32 (a b : Nat) : Nat := if b ≤ a then a - b else 2 ^ 32 - (b - a)

/-- `RT_ALIGN(size, RT_ALIGN_SIZE)` on 32 bits. -/
def rtAlign (size : Nat) : Nat := (size + 3) % 2 ^ 32 / 4 * 4

/-- `RT_ALIGN_DOWN(size, RT_ALIGN_SIZE)` -/
def rtAlignDown (size : Nat) : Nat := size / 4 * 4

theorem add32_of_lt {a b : Nat} (h : a + b < 2 ^ 32) : add32 a b = a + b := Nat.mod_eq_of_lt h

theorem sub32_of_le {a b : Nat} (h : b ≤ a) : sub32 a b = a - b := if_pos h

/-- A size is not wrapped if it is at most 2^32 - 4. -/
theorem rtAlign_spec {n : Nat} (h : n ≤ 2 ^ 32 - 4) :
    4 ∣ rtAlign n ∧ n ≤ rtAlign n ∧ rtAlign n < n + 4 ∧ rtAlign n < 2 ^ 32 := by
  unfold rtAlign
  omega

theorem four_dvd_rtAlign (n : Nat) : 4 ∣ rtAlign n := Nat.dvd_mul_left 4 _

/-- `rt_list_insert_before(r, n)`, `r` a node of `l`. -/
def listInsertBefore {β : Type} [DecidableEq β] (r n : β) : List β → List β
  | [] => []
  | x :: l => if x = r then n :: x :: l else x :: listInsertBefore r n l

variable {β : Type} [DecidableEq β]

theorem listInsertBefore_append {r n : β} {l m : List β} (h : r ∉ l) :
    listInsertBefore r n (l ++ r :: m) = l ++ n :: r :: m := by
  induction l with
  | nil => simp [listInsertBefore]
  | cons x l ih =>
    rw [List.mem_cons, not_or] at h
    rw [List.cons_append, listInsertBefore, if_neg (Ne.symm h.1), ih h.2, List.cons_append]

theorem mem_listInsertBefore {r n x : β} {l : List β} (h : x ∈ listInsertBefore r n l) :
    x = n ∨ x ∈ l := by
  induction l with
  | nil => cases h
  | cons y l ih =>
    unfold listInsertBefore at h
    split at h
    · exact List.mem_cons.mp h
    · rcases List.mem_cons.mp h with rfl | h
      · exact .inr List.mem_cons_self
      · exact (ih h).imp_right (List.mem_cons_of_mem _)

theorem nodup_listInsertBefore {r n : β} {l : List β} (hl : l.Nodup) (hn : n ∉ l) :
    (listInsertBefore r n l).Nodup := by
  induction l with
  | nil => exact .nil
  | cons y l ih =>
    obtain ⟨hy, hl'⟩ := List.nodup_cons.mp hl
    obtain ⟨hny, hnl⟩ := not_or.mp fun h => hn (List.mem_cons.mpr h)
    unfold listInsertBefore
    split
    · exact List.nodup_cons.mpr ⟨hn, hl⟩
    · refine List.nodup_cons.mpr ⟨fun hm => ?_, ih hl' hnl⟩
      rcases mem_listInsertBefore hm with e | hm
      · exact hny e.symm
      · exact hy hm

end Tudu
