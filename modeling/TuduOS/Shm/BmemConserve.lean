import TuduOS.Shm.BmemArena

/-!
# What a `bmem` counts

Three views of the same quantity: the lengths in the block list, the marks `is_used` and
`used_mem_size`. They drift apart in three places:

* `bmem_create` stores its size in a 16-bit length;
* after a split `bmem_malloc` marks the rest used when it is as long as the new block;
* `bmem_free` drops the length of the block and leaves `used_mem_size`.

`Conserved s` is agreement, and that `bmem_malloc(mem_size)` succeeds when nothing is held.
`Conserves s act` keeps away from the three places: **the runs along it are the runs through
`Conserved` states** (`bmem_conserved_iff`).
-/

namespace Tudu.Shm

open Tiling Bmem Lts

/-- The three views agree, and the whole region is there when nothing is held. -/
structure Conserved (s : BmemRun) : Prop where
  lens : total s.bmem.len s.bmem.blockNode = s.bmem.memSize
  held : s.bmem.usedMemSize = (s.live.map Alloc.size).sum
  marked : s.bmem.usedMemSize = total s.bmem.len (s.bmem.blockNode.filter s.bmem.isUsed)
  again : s.live = [] → ∀ calloc, (∀ t ∈ s.bmem.tabHead, calloc ≠ some t) →
    (bmemMalloc s.bmem s.bmem.memSize calloc).1.isSome

/-- A call that keeps the views together: no `bmem_malloc` splits the unused block in half, and a
`bmem_free` gives back an empty allocation of a region that is not empty. -/
def Conserves (s : BmemRun) : BmemAct → Prop
  | .malloc size calloc => 0 < size → s.bmem.arena.room = some (2 * size) →
      calloc = none ∧ ∀ t ∈ s.bmem.tabHead, blockTabSize ≤ s.bmem.usedNum t
  | .free a _ => a.size = 0 ∧ 0 < s.bmem.memSize

instance (s : BmemRun) : ∀ act, Decidable (Conserves s act)
  | .malloc size calloc => inferInstanceAs (Decidable (0 < size → s.bmem.arena.room = some (2 * size) →
      calloc = none ∧ ∀ t ∈ s.bmem.tabHead, blockTabSize ≤ s.bmem.usedNum t))
  | .free a _ => inferInstanceAs (Decidable (a.size = 0 ∧ 0 < s.bmem.memSize))

/-- The invariant: the used blocks are the held allocations, at their addresses. -/
structure ConserveInv (size : Nat) (s : BmemRun) : Prop where
  ok : BlockOk s.bmem
  memSize : s.bmem.memSize = size
  extent : s.bmem.arena.extent = size
  used : s.bmem.usedMemSize = total id s.bmem.arena.used
  held : (s.live.map fun a => (a.addr, a.size)).Perm
    (place id s.bmem.arena.start s.bmem.arena.used)
  room : s.live = [] → s.bmem.arena.room ≠ none
  /-- An empty region has one block. -/
  empty : size = 0 → s.live ≠ [] → s.bmem.arena.room = none ∧ s.live.length = 1

variable {size : Nat} {s s' : BmemRun}

/-! ## The invariant -/

theorem ConserveInv.held_sum (h : ConserveInv size s) :
    (s.live.map Alloc.size).sum = total id s.bmem.arena.used := by
  have hp := (h.held.map Prod.snd).sum_eq
  rw [place_map_snd, List.map_map] at hp
  simpa [total, Function.comp_def] using hp

/-- When nothing is held, nothing is used, and the room is the region. -/
theorem ConserveInv.room_all (h : ConserveInv size s) (hl : s.live = []) :
    s.bmem.arena.room = some size := by
  have hsum := h.held_sum
  have hext := h.extent
  obtain ⟨m, hm⟩ := Option.ne_none_iff_exists'.mp (h.room hl)
  rw [hl, List.map_nil, List.sum_nil] at hsum
  rw [Arena.extent, ← hsum, hm, Option.getD_some, Nat.zero_add] at hext
  rw [hm, hext]

theorem ConserveInv.conserved (hw : size < 2 ^ 16) (h : ConserveInv size s) : Conserved s := by
  obtain ⟨us, fs, hl⟩ := h.ok.layout
  have hused : total id s.bmem.arena.used =
      total s.bmem.len (s.bmem.blockNode.filter s.bmem.isUsed) := by
    simp [Bmem.arena, total]
  refine ⟨?_, h.used.trans h.held_sum.symm, h.used.trans hused, fun hlive calloc hc => ?_⟩
  · rw [← h.ok.extent, h.extent, h.memSize]
  · have hext : s.bmem.arena.extent < 2 ^ 16 := h.extent ▸ hw
    rw [h.memSize]
    rcases bmemMalloc_cases size h.ok hext hc with ⟨-, hno⟩ | ⟨addr, b', he, -⟩
    · have := (hno size (h.room_all hlive) (Nat.le_refl _) (Nat.le_of_eq h.memSize.symm)).1
      exact absurd this (Nat.lt_irrefl _)
    · rw [he]
      rfl

/-- A record for the split is there or not. -/
theorem conserves_malloc_iff (h : BlockOk s.bmem) {n : Nat} {calloc : Option Nat}
    (hc : ∀ t ∈ s.bmem.tabHead, calloc ≠ some t) :
    Conserves s (.malloc n calloc) ↔
      (0 < n → s.bmem.arena.room = some (2 * n) → getMemBlock s.bmem calloc = none) := by
  have hsome := getMemBlock_isSome h.toTabOk hc
  have hnone : getMemBlock s.bmem calloc = none ↔
      calloc = none ∧ ∀ t ∈ s.bmem.tabHead, blockTabSize ≤ s.bmem.usedNum t := by
    rw [← Option.not_isSome_iff_eq_none, hsome]
    simp [not_or]
  simp only [Conserves, hnone]

/-! ## `bmem_malloc` -/

theorem ConserveInv.malloc (hw : size < 2 ^ 16) (h : ConserveInv size s) {n : Nat}
    {calloc : Option Nat} (hC : Conserves s (.malloc n calloc))
    (hs : bmemStep s (.malloc n calloc) = some s') : ConserveInv size s' := by
  obtain ⟨hc, rfl⟩ := bmemStep_malloc hs
  have hext : s.bmem.arena.extent < 2 ^ 16 := h.extent ▸ hw
  rcases bmemMalloc_cases n h.ok hext hc with ⟨he, -⟩ | ⟨addr, b', he, hok, ha, hms, hus, hrec⟩
  · rw [he]
    exact h
  rw [he]
  obtain ⟨m, hm, hnm, rfl, hst, hex, -⟩ := Arena.malloc_some ha
  have hhalf : ¬ (0 < n ∧ s.bmem.arena.room = some (2 * n)) := by
    rintro ⟨hn, hroom⟩
    have hnone := (conserves_malloc_iff h.ok hc).mp hC hn hroom
    have := hrec (2 * n) hroom (by omega)
    simp [hnone] at this
  have hused : b'.arena.used = s.bmem.arena.used ++ [n] := by
    rw [Arena.malloc_used ha, if_neg hhalf]
  have hle : s.bmem.usedMemSize + n ≤ size := by
    have := h.extent
    rw [Arena.extent, hm, Option.getD_some, ← h.used] at this
    omega
  refine ⟨hok, hms.trans h.memSize, hex.trans h.extent, ?_, ?_,
    fun hl => absurd hl (List.cons_ne_nil _ _), ?_⟩
  · rw [hus, Nat.mod_eq_of_lt (by omega), hused, total_append, h.used]
    rfl
  · rw [hused, hst, place_append]
    exact (List.Perm.cons _ h.held).trans (List.perm_append_singleton ..).symm
  · intro h0 _
    -- the one block of an empty region is its room
    have hlive : s.live = [] := by
      by_contra hne
      rw [(h.empty h0 hne).1] at hm
      cases hm
    have hroom := h.room_all hlive
    rw [hm, Option.some_inj] at hroom
    obtain rfl : n = 0 := by omega
    simp only [Arena.malloc, hm, hroom, h0, Option.bind_some, Nat.lt_irrefl, if_false, if_true,
      Option.some_inj, Prod.mk.injEq, true_and] at ha
    exact ⟨by rw [← ha], by simp [hlive]⟩

/-- A split in half marks both halves used, and counts one. -/
theorem ConserveInv.malloc_half (hw : size < 2 ^ 16) (h : ConserveInv size s) {n : Nat}
    {calloc : Option Nat} (hC : ¬ Conserves s (.malloc n calloc))
    (hs : bmemStep s (.malloc n calloc) = some s') : ¬ Conserved s' := by
  obtain ⟨hc, rfl⟩ := bmemStep_malloc hs
  have hext : s.bmem.arena.extent < 2 ^ 16 := h.extent ▸ hw
  rw [conserves_malloc_iff h.ok hc] at hC
  push Not at hC
  obtain ⟨hn, hroom, hrec⟩ := hC
  have hle : s.bmem.usedMemSize + 2 * n = size := by
    have := h.extent
    rwa [Arena.extent, hroom, Option.getD_some, ← h.used] at this
  rcases bmemMalloc_cases n h.ok hext hc with ⟨-, hno⟩ | ⟨addr, b', he, hok, ha, -, hus, -⟩
  · have := (hno (2 * n) hroom (by omega) (by rw [h.memSize]; omega)).2
    exact absurd this hrec
  · rw [he]
    intro hP
    have hused : b'.arena.used = s.bmem.arena.used ++ [n, n] := by
      rw [Arena.malloc_used ha, if_pos ⟨hn, hroom⟩]
    have hmarked : b'.usedMemSize = total id b'.arena.used := by
      have := hP.marked
      simpa [Bmem.arena, total] using this
    rw [hus, Nat.mod_eq_of_lt (by omega), hused, total_append, ← h.used] at hmarked
    simp only [total_cons, total_nil, id] at hmarked
    omega

/-! ## `bmem_free` -/

/-- The sizes that are held when `a` is given back. -/
theorem held_sum_erase {a : Alloc} {live : List Alloc} (ha : a ∈ live) :
    ((live.erase a).map Alloc.size).sum + a.size = (live.map Alloc.size).sum :=
  total_erase ha

theorem ConserveInv.free (hw : size < 2 ^ 16) (h : ConserveInv size s) {a : Alloc} {junk : Nat}
    (h0 : a.size = 0) (hpos : 0 < size) (hs : bmemStep s (.free a junk) = some s') :
    ConserveInv size s' := by
  obtain ⟨ha, rfl⟩ := bmemStep_free hs
  have hext : s.bmem.arena.extent < 2 ^ 16 := h.extent ▸ hw
  obtain ⟨hok, har, hms, hus⟩ := bmemFree_arena a.addr junk h.ok (by omega)
  have hperm : ((a.addr, 0) :: (s.live.erase a).map fun a => (a.addr, a.size)).Perm
      (place id s.bmem.arena.start s.bmem.arena.used) := by
    have e := (List.perm_cons_erase ha).map fun a : Alloc => (a.addr, a.size)
    rw [List.map_cons, h0] at e
    exact e.symm.trans h.held
  -- the first block at the address is empty too, so no other moves
  obtain ⟨c, hf, hc0⟩ := firstAt_of_empty (hperm.mem_iff.mp List.mem_cons_self) rfl
  obtain rfl : c = 0 := hc0
  have htotal := total_dropAt hf
  have hfree : s.bmem.arena.free a.addr =
      { s.bmem.arena with used := dropAt id a.addr s.bmem.arena.start s.bmem.arena.used } := by
    simp [Arena.free, hf]
  have hextent : (s.bmem.arena.free a.addr).extent = size := by
    rw [hfree, ← h.extent]
    simp only [Arena.extent]
    simp only [id] at htotal
    omega
  refine ⟨hok, hms.trans h.memSize, by simp only [har]; exact hextent, ?_, ?_, ?_, ?_⟩
  · simp only [hus, h.used, har, hfree]
    exact htotal.symm
  · simp only [har, hfree]
    exact (hperm.trans (place_dropAt_empty hf rfl)).cons_inv
  · intro hl
    have hl : s.live.erase a = [] := hl
    simp only [har, hfree]
    intro hroom
    have hsum := h.held_sum
    rw [← held_sum_erase ha, hl, h0] at hsum
    have := h.extent
    rw [Arena.extent, hroom, ← hsum] at this
    simp only [List.map_nil, List.sum_nil, Option.getD_none] at this
    omega
  · intro hz
    omega

/-- What was held is still counted, or nothing is left of an empty region. -/
theorem ConserveInv.free_lost (hw : size < 2 ^ 16) (h : ConserveInv size s) {a : Alloc} {junk : Nat}
    (hC : ¬ Conserves s (.free a junk)) (hs : bmemStep s (.free a junk) = some s') :
    ¬ Conserved s' := by
  obtain ⟨ha, rfl⟩ := bmemStep_free hs
  have hext : s.bmem.arena.extent < 2 ^ 16 := h.extent ▸ hw
  obtain ⟨hok, har, hms, hus⟩ := bmemFree_arena a.addr junk h.ok (by omega)
  intro hP
  simp only [Conserves, not_and_or, Nat.not_lt, Nat.le_zero] at hC
  rcases hC with hpos | hz
  · have h1 := hP.held
    have h2 := held_sum_erase ha
    have h3 := h.held_sum
    simp only [hus, h.used] at h1
    omega
  · rw [h.memSize] at hz
    obtain ⟨hroom, hlen⟩ := h.empty hz (List.ne_nil_of_mem ha)
    have hlive : s.live.erase a = [] := by
      apply List.eq_nil_of_length_eq_zero
      rw [List.length_erase_of_mem ha, hlen]
    have hroom' : (bmemFree s.bmem a.addr junk).2.arena.room = none := by
      rw [har]
      rcases Arena.free_cases s.bmem.arena a.addr with ⟨_, -, hr, -⟩ | ⟨-, -, hr | hr⟩
      · exact hr.trans hroom
      · exact hr
      · exact hr.trans hroom
    have hfree : (bmemFree s.bmem a.addr junk).2.arena.extent < 2 ^ 16 := by
      have := Arena.free_extent_le s.bmem.arena a.addr
      rw [har]
      omega
    have hnone : ∀ t ∈ (bmemFree s.bmem a.addr junk).2.tabHead, (none : Option Nat) ≠ some t := by
      simp
    have hagain := hP.again hlive none hnone
    rcases bmemMalloc_cases (bmemFree s.bmem a.addr junk).2.memSize hok hfree hnone with
      ⟨he, -⟩ | ⟨addr, b', -, -, hmal, -⟩
    · simp only [he] at hagain
      cases hagain
    · obtain ⟨m, hm, -⟩ := Arena.malloc_some hmal
      rw [hroom'] at hm
      cases hm

/-! ## Runs -/

theorem ConserveInv.init (start : Nat) (hw : size < 2 ^ 16) :
    ConserveInv size (bmemInit start size) := by
  have hmod : size % 2 ^ 16 = size := Nat.mod_eq_of_lt hw
  refine ⟨bmemCreate_ok start size, rfl, ?_, rfl, .refl _, fun _ => Option.some_ne_none _,
    fun _ h => absurd rfl h⟩
  show total id [] + (some (size % 2 ^ 16)).getD 0 = size
  rw [hmod, total_nil, Nat.zero_add]
  rfl

/-- **The runs of an arena of at most 65535 bytes whose calls are `Conserves` are the runs through
`Conserved` states; an arena that is larger is not `Conserved` as created.** -/
theorem bmem_conserved_iff (start size : Nat) (acts : List BmemAct) (s : BmemRun)
    (hx : exec bmemStep (bmemInit start size) acts = some s) :
    size < 2 ^ 16 ∧ Along bmemStep Conserves (bmemInit start size) acts ↔
      Visits bmemStep Conserved (bmemInit start size) acts := by
  by_cases hw : size < 2 ^ 16
  · rw [and_iff_right hw]
    refine along_iff_visits (fun _ h => h.conserved hw) ?_ ?_ hx (ConserveInv.init start hw)
    · rintro s (⟨n, calloc⟩ | ⟨a, junk⟩) s' h hC hs
      · exact h.malloc hw hC hs
      · exact h.free hw hC.1 (h.memSize ▸ hC.2) hs
    · rintro s (⟨n, calloc⟩ | ⟨a, junk⟩) s' h hC hs
      · exact h.malloc_half hw hC hs
      · exact h.free_lost hw hC hs
  · refine ⟨fun h => absurd h.1 hw, fun h => ?_⟩
    have hlens : total (fun _ => size % 2 ^ 16) [BlockRef.first] = size := h.head.lens
    have := Nat.mod_lt size (show 2 ^ 16 > 0 by decide)
    rw [total_cons, total_nil] at hlens
    omega

/-- Empty allocations come and go. -/
theorem bmem_conserved_iff_empty : Visits bmemStep Conserved (bmemInit 4096 100)
    [.malloc 10 (some 1), .malloc 0 none, .free ⟨4106, 0⟩ 1, .malloc 90 none] :=
  (bmem_conserved_iff 4096 100 _ _ rfl).mp (by decide)

/-- One block of 10 bytes, given back: `used_mem_size` stays 10. -/
theorem bmem_free_not_conserved : ¬ ∀ (start size : Nat) (acts : List BmemAct) (s : BmemRun),
    size < 2 ^ 16 → exec bmemStep (bmemInit start size) acts = some s → Conserved s := by
  intro h
  have hx := h 4096 100 [.malloc 10 (some 1), .free ⟨4096, 10⟩ 1] _ (by decide) rfl
  have hheld : 10 = 0 := hx.held
  cases hheld

end Tudu.Shm
