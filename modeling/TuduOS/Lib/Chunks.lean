import Mathlib.Data.List.Nodup
import Mathlib.Data.List.Perm.Basic
import Mathlib.Data.List.Range

/-!
# Chunks of one size

An array of chunks that are handed out: first the chunks that were never used, in order, then those
of a list of free chunks.

* `Ledger chunk used free live`: of the chunks below `used`, each is free or live, once.
* `Ledger.bump`, `Ledger.pop`, `Ledger.push`: a new chunk, one from the list, one that comes back.
* `Ledger.all_free`: as many free chunks as were ever used, and none is live.
-/

namespace Chunks

variable {α : Type*} {chunk : Nat → α} {used i : Nat} {free free' live live' : List α} {c : α}

/-- The chunks below `used` are free or live, each once. -/
def Ledger (chunk : Nat → α) (used : Nat) (free live : List α) : Prop :=
  (free ++ live).Perm ((List.range used).map chunk)

namespace Ledger

theorem perm (h : Ledger chunk used free live) (hl : live'.Perm live) :
    Ledger chunk used free live' :=
  (List.Perm.append_left free hl).trans h

theorem bump (h : Ledger chunk used free live) :
    Ledger chunk (used + 1) free (chunk used :: live) := by
  unfold Ledger at h ⊢
  rw [List.range_succ, List.map_append, List.map_singleton]
  refine List.perm_middle.trans ?_
  refine (List.Perm.cons _ h).trans ?_
  exact (List.perm_append_singleton _ _).symm

theorem pop (h : Ledger chunk used (c :: free) live) : Ledger chunk used free (c :: live) :=
  List.perm_middle.trans h

theorem push (h : Ledger chunk used free (c :: live)) : Ledger chunk used (c :: free) live :=
  List.perm_middle.symm.trans h

theorem length (h : Ledger chunk used free live) : free.length + live.length = used := by
  have hl := h.length_eq
  rw [List.length_append, List.length_map, List.length_range] at hl
  exact hl

theorem mem (h : Ledger chunk used free live) : c ∈ free ∨ c ∈ live ↔ ∃ i < used, c = chunk i := by
  rw [← List.mem_append, h.mem_iff, List.mem_map]
  constructor
  · rintro ⟨i, hi, rfl⟩
    exact ⟨i, List.mem_range.mp hi, rfl⟩
  · rintro ⟨i, hi, rfl⟩
    exact ⟨i, List.mem_range.mpr hi, rfl⟩

theorem nodup (h : Ledger chunk used free live) (hinj : Function.Injective chunk) :
    (free ++ live).Nodup :=
  h.nodup_iff.mpr (List.nodup_range.map hinj)

/-- A chunk that was never used. -/
theorem fresh (h : Ledger chunk used free live) (hinj : Function.Injective chunk)
    (hi : used ≤ i) : chunk i ∉ free ∧ chunk i ∉ live := by
  rw [← not_or, h.mem]
  rintro ⟨j, hj, he⟩
  have := hinj he
  omega

/-- A free chunk is not live, and once on the list. -/
theorem free_head (h : Ledger chunk used (c :: free) live) (hinj : Function.Injective chunk) :
    c ∉ free ∧ c ∉ live := by
  obtain ⟨h1, -, h2⟩ := List.nodup_append.mp (h.nodup hinj)
  exact ⟨(List.nodup_cons.mp h1).1, fun hc => h2 c List.mem_cons_self c hc rfl⟩

theorem not_live (h : Ledger chunk used free live) (hinj : Function.Injective chunk)
    (hc : c ∈ free) : c ∉ live := fun hl =>
  (List.nodup_append.mp (h.nodup hinj)).2.2 c hc c hl rfl

theorem not_free (h : Ledger chunk used free live) (hinj : Function.Injective chunk)
    (hc : c ∈ live) : c ∉ free := fun hf => h.not_live hinj hf hc

/-- Where all the chunks that were used are free, none is live. -/
theorem all_free (h : Ledger chunk used free live) (hf : free.length = used) : live = [] := by
  have hl := h.length
  exact List.eq_nil_of_length_eq_zero (by omega)

end Ledger

end Chunks
