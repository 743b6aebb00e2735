import TuduOS.Shm.Bmem

/-!
# What a `bmem` is for: an arena of used blocks and a room behind them

The abstract allocator over the lengths of the blocks. The used blocks stand end to end from
`start`; the unused block, the *room*, stands behind them.

* `Arena.malloc size`: the front of the room becomes a used block.
* `Arena.free addr`: the block at `addr` leaves the arena, and what stands behind it moves down.
* `Arena.FreeApart live a`: when `a` is freed, the room moves down into no other held allocation.
* `Arena.Sound size live`: the held allocations lie inside the arena, overlap neither each other
  nor the room.

`malloc` keeps `Sound` (`Sound.malloc`); `free` keeps it when it is `FreeApart` (`Sound.free`).
-/

namespace Tudu.Shm

open Tiling

structure Arena where
  start : Nat
  /-- The lengths of the used blocks, in address order. -/
  used : List Nat
  /-- The length of the unused block behind them, if it is still listed. -/
  room : Option Nat
  deriving DecidableEq

namespace Arena

/-- The address behind the used blocks. -/
def top (A : Arena) : Nat := A.start + total id A.used

/-- The length of all blocks. -/
def extent (A : Arena) : Nat := total id A.used + A.room.getD 0

/-- The front of the room becomes a used block; a rest as long as the new block is used too. -/
def malloc (A : Arena) (size : Nat) : Option (Nat × Arena) :=
  A.room.bind fun m =>
    if m < size then none
    else some (A.top,
      if m = size then { A with used := A.used ++ [m], room := none }
      else if m - size = size then { A with used := A.used ++ [size, size], room := none }
      else { A with used := A.used ++ [size], room := some (m - size) })

/-- The first block at `addr` leaves the arena. -/
def free (A : Arena) (addr : Nat) : Arena :=
  if (firstAt id addr A.start A.used).isSome then
    { A with used := dropAt id addr A.start A.used }
  else if addr = A.top then { A with room := none }
  else A

/-- When `a` is freed, the room moves down by the length of the block at `a.addr`: into no other
held allocation. -/
def FreeApart (A : Arena) (live : List Alloc) (a : Alloc) : Prop :=
  ∀ m ∈ A.room, ∀ n ∈ firstAt id a.addr A.start A.used, ∀ c ∈ live.erase a,
    Disjoint (span (A.top - n) m) c.span

instance (A : Arena) (live : List Alloc) (a : Alloc) : Decidable (A.FreeApart live a) :=
  inferInstanceAs (Decidable (∀ m ∈ A.room, ∀ n ∈ firstAt id a.addr A.start A.used,
    ∀ c ∈ live.erase a, Disjoint (span (A.top - n) m) c.span))

/-- The held allocations lie inside the arena, overlap neither each other nor the room. -/
structure Sound (A : Arena) (size : Nat) (live : List Alloc) : Prop where
  fits : A.extent ≤ size
  inside : ∀ a ∈ live, A.start ≤ a.addr ∧ a.addr + a.size ≤ A.start + size
  apart : live.Pairwise fun a c => Disjoint a.span c.span
  room : ∀ m ∈ A.room, ∀ c ∈ live, Disjoint (span A.top m) c.span

/-! ## `malloc` -/

variable {A A' : Arena} {size n addr : Nat} {live : List Alloc}

/-- What `malloc` does: the address is the room's, and what is left of the room stands behind the
new block. -/
theorem malloc_some (h : A.malloc n = some (addr, A')) :
    ∃ m, A.room = some m ∧ n ≤ m ∧ addr = A.top ∧ A'.start = A.start ∧ A'.extent = A.extent ∧
      ∀ r ∈ A'.room, A'.top = A.top + n ∧ r = m - n := by
  unfold malloc at h
  obtain ⟨m, hm, h⟩ := Option.bind_eq_some_iff.mp h
  split at h
  · cases h
  next hn =>
    cases h
    refine ⟨m, hm, by omega, rfl, ?_⟩
    unfold extent top
    rw [hm]
    split_ifs with h1 h2
    · simp
    · simp
      omega
    · simp
      omega

/-- The new block is the last used one, and twice when it is half of the room. -/
theorem malloc_used (h : A.malloc n = some (addr, A')) :
    A'.used = A.used ++ if 0 < n ∧ A.room = some (2 * n) then [n, n] else [n] := by
  unfold malloc at h
  obtain ⟨m, hm, h⟩ := Option.bind_eq_some_iff.mp h
  split at h
  · cases h
  next hn =>
    cases h
    simp only [hm, Option.some_inj]
    by_cases h1 : m = n
    · rw [if_pos h1, if_neg (by omega), h1]
    · by_cases h2 : m - n = n
      · rw [if_neg h1, if_pos h2, if_pos (by omega)]
      · rw [if_neg h1, if_neg h2, if_neg (by omega)]

/-- `malloc` hands out memory that nothing held overlaps. -/
theorem Sound.malloc (hs : A.Sound size live) (h : A.malloc n = some (addr, A')) :
    A'.Sound size (⟨addr, n⟩ :: live) := by
  obtain ⟨m, hm, hnm, rfl, hst, hex, hroom⟩ := malloc_some h
  have hfit : total id A.used + m ≤ size := by
    have := hs.fits
    simpa only [extent, hm, Option.getD_some] using this
  have hfront : ∀ c ∈ live, Disjoint (span A.top n) c.span := fun c hc =>
    span_disjoint_mono (hs.room m hm c hc) (Nat.le_refl _) (by omega)
  refine ⟨by rw [hex]; exact hs.fits, ?_, List.pairwise_cons.mpr ⟨hfront, hs.apart⟩, ?_⟩
  · intro a ha
    rw [hst]
    rcases List.mem_cons.mp ha with rfl | ha
    · simp only [top]
      omega
    · exact hs.inside a ha
  · intro r hr c hc
    obtain ⟨htop, rfl⟩ := hroom r hr
    rw [htop]
    rcases List.mem_cons.mp hc with rfl | hc
    · exact span_disjoint.mpr (by simp only; omega)
    · exact span_disjoint_mono (hs.room m hm c hc) (by omega) (by omega)

/-! ## `free` -/

theorem free_start (A : Arena) (addr : Nat) : (A.free addr).start = A.start := by
  unfold free
  split_ifs <;> rfl

/-- What `free` does: a used block leaves, or the room, or nothing. -/
theorem free_cases (A : Arena) (addr : Nat) :
    (∃ n, firstAt id addr A.start A.used = some n ∧ (A.free addr).room = A.room ∧
      (A.free addr).used = dropAt id addr A.start A.used ∧ (A.free addr).top = A.top - n) ∨
    (firstAt id addr A.start A.used = none ∧ (A.free addr).used = A.used ∧
      ((A.free addr).room = none ∨ (A.free addr).room = A.room)) := by
  unfold free
  cases hf : firstAt id addr A.start A.used with
  | some n =>
    refine .inl ⟨n, rfl, by simp, by simp, ?_⟩
    have := total_dropAt hf
    simp only [id] at this
    simp only [top, Option.isSome_some, if_true]
    omega
  | none =>
    refine .inr ⟨rfl, ?_⟩
    by_cases ha : addr = A.top
    · simp [ha]
    · simp [ha]

theorem free_extent_le (A : Arena) (addr : Nat) : (A.free addr).extent ≤ A.extent := by
  rcases free_cases A addr with ⟨n, hf, hr, hu, -⟩ | ⟨-, hu, hr⟩
  · have := total_dropAt hf
    simp only [extent, hr, hu]
    omega
  · rcases hr with hr | hr <;> simp [extent, hr, hu]

/-- Giving back an allocation keeps the others sound if the room does not move into one. -/
theorem Sound.free (hs : A.Sound size live) {a : Alloc} (hc : A.FreeApart live a) :
    (A.free a.addr).Sound size (live.erase a) := by
  have hsub : ∀ c ∈ live.erase a, c ∈ live := fun c h => List.mem_of_mem_erase h
  have hapart := hs.apart.sublist (List.erase_sublist (a := a))
  have hfits := Nat.le_trans (free_extent_le A a.addr) hs.fits
  have hst := free_start A a.addr
  rcases free_cases A a.addr with ⟨n, hf, hr, hu, htop⟩ | ⟨-, hu, hr⟩
  · refine ⟨hfits, fun c h => hst ▸ hs.inside c (hsub c h), hapart, ?_⟩
    intro m hm c h
    rw [htop]
    exact hc m (hr ▸ hm) n hf c h
  · refine ⟨hfits, fun c h => hst ▸ hs.inside c (hsub c h), hapart, ?_⟩
    intro m hm c h
    rcases hr with hr | hr
    · rw [hr] at hm
      cases hm
    · have htop : (A.free a.addr).top = A.top := by unfold top; rw [hst, hu]
      rw [htop]
      exact hs.room m (hr ▸ hm) c (hsub c h)

end Arena

end Tudu.Shm
