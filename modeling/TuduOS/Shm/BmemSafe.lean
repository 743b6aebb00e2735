import TuduOS.Shm.BmemArena

/-!
# Held allocations of a `bmem` are apart

`bmem_free` takes the block out of the block list and leaves its length to no other block: every
block behind it, the unused one included, moves down in the sums that `bmem_malloc` makes.

* `HeldApart start size live`: the held allocations lie inside the region, and no two overlap.
* `StaysApart start size s`: they do, and also after any next `bmem_malloc`.
* `FreesApart s act`: a `bmem_free` moves the unused block into no other held allocation.

**The runs whose frees are `FreesApart` are the runs whose states all are `StaysApart`**
(`bmem_apart_iff`).
-/

namespace Tudu.Shm

open Tiling Bmem Lts

/-- The held allocations lie inside the region, and no two overlap. -/
def HeldApart (start size : Nat) (live : List Alloc) : Prop :=
  (∀ a ∈ live, start ≤ a.addr ∧ a.addr + a.size ≤ start + size) ∧
    live.Pairwise fun a c => Disjoint a.span c.span

/-- The held allocations are apart, and also after any next `bmem_malloc`. -/
def StaysApart (start size : Nat) (s : BmemRun) : Prop :=
  HeldApart start size s.live ∧
    ∀ n calloc s', bmemStep s (.malloc n calloc) = some s' → HeldApart start size s'.live

/-- A `bmem_free` moves the unused block into no other held allocation. -/
def FreesApart (s : BmemRun) : BmemAct → Prop
  | .malloc _ _ => True
  | .free a _ => s.bmem.arena.FreeApart s.live a

instance (s : BmemRun) : ∀ act, Decidable (FreesApart s act)
  | .malloc _ _ => inferInstanceAs (Decidable True)
  | .free a _ => inferInstanceAs (Decidable (s.bmem.arena.FreeApart s.live a))

/-- The invariant: the arena of the block list is sound for the held allocations. -/
structure SafeInv (start size : Nat) (s : BmemRun) : Prop where
  ok : BlockOk s.bmem
  sound : s.bmem.arena.Sound size s.live
  start : s.bmem.start = start
  memSize : s.bmem.memSize = size

variable {start size : Nat} {s s' : BmemRun}

/-! ## One call -/

theorem SafeInv.heldApart (h : SafeInv start size s) : HeldApart start size s.live := by
  refine ⟨fun a ha => ?_, h.sound.apart⟩
  rw [← h.start]
  exact h.sound.inside a ha

theorem SafeInv.malloc (hw : size < 2 ^ 16) (h : SafeInv start size s) {n : Nat}
    {calloc : Option Nat} (hs : bmemStep s (.malloc n calloc) = some s') :
    SafeInv start size s' := by
  obtain ⟨hc, rfl⟩ := bmemStep_malloc hs
  have hext := Nat.lt_of_le_of_lt h.sound.fits hw
  rcases bmemMalloc_cases n h.ok hext hc with ⟨he, -⟩ | ⟨addr, b', he, hok, ha, hms, -, -⟩
  · rw [he]
    exact h
  · rw [he]
    obtain ⟨-, -, -, -, hst, -⟩ := Arena.malloc_some ha
    exact ⟨hok, h.sound.malloc ha, hst.trans h.start, hms.trans h.memSize⟩

theorem SafeInv.free (hw : size < 2 ^ 16) (h : SafeInv start size s) {a : Alloc} {junk : Nat}
    (hc : s.bmem.arena.FreeApart s.live a) (hs : bmemStep s (.free a junk) = some s') :
    SafeInv start size s' := by
  obtain ⟨-, rfl⟩ := bmemStep_free hs
  have hext := Nat.lt_of_le_of_lt h.sound.fits hw
  obtain ⟨hok, ha, hms, -⟩ := bmemFree_arena a.addr junk h.ok (by omega)
  refine ⟨hok, ?_, ?_, hms.trans h.memSize⟩
  · simp only [ha]
    exact h.sound.free hc
  · have hst := Arena.free_start s.bmem.arena a.addr
    rw [← ha] at hst
    exact hst.trans h.start

theorem SafeInv.step (hw : size < 2 ^ 16) (h : SafeInv start size s) {act : BmemAct}
    (hc : FreesApart s act) (hs : bmemStep s act = some s') : SafeInv start size s' := by
  cases act with
  | malloc n calloc => exact h.malloc hw hs
  | free a junk => exact h.free hw hc hs

theorem SafeInv.staysApart (hw : size < 2 ^ 16) (h : SafeInv start size s) :
    StaysApart start size s :=
  ⟨h.heldApart, fun _ _ _ hs => (h.malloc hw hs).heldApart⟩

/-- A `bmem_free` that moves the unused block into a held allocation: a `bmem_malloc` of the whole
unused block then returns memory that is held. -/
theorem SafeInv.not_staysApart (hw : size < 2 ^ 16) (h : SafeInv start size s) {act : BmemAct}
    (hc : ¬ FreesApart s act) (hs : bmemStep s act = some s') : ¬ StaysApart start size s' := by
  cases act with
  | malloc n calloc => exact absurd trivial hc
  | free a junk =>
    obtain ⟨-, rfl⟩ := bmemStep_free hs
    have hfits := h.sound.fits
    obtain ⟨hok, ha, hms, -⟩ := bmemFree_arena a.addr junk h.ok (by omega)
    simp only [FreesApart, Arena.FreeApart, not_forall] at hc
    obtain ⟨m, hm, n, hn, c, hcl, hover⟩ := hc
    obtain ⟨n', hf, hroom, -, htop⟩ | ⟨hf, -⟩ := Arena.free_cases s.bmem.arena a.addr
    · obtain rfl : n' = n := Option.some.inj (hf.symm.trans hn)
      set b' := (bmemFree s.bmem a.addr junk).2 with hb'
      have hroom' : b'.arena.room = some m := by rw [ha, hroom]; exact hm
      have hmle : m ≤ b'.memSize := by
        have : m ≤ s.bmem.arena.extent := by
          rw [Arena.extent, show s.bmem.arena.room = some m from hm]
          exact Nat.le_add_left ..
        rw [hms, h.memSize]
        omega
      have hext : b'.arena.extent < 2 ^ 16 := by
        have := Arena.free_extent_le s.bmem.arena a.addr
        rw [ha]
        omega
      rintro ⟨-, hnext⟩
      have hnone : ∀ t ∈ b'.tabHead, (none : Option Nat) ≠ some t := by simp
      rcases bmemMalloc_cases m hok hext hnone with ⟨-, hno⟩ | ⟨addr, b'', he, -, hmal, -, -⟩
      · exact absurd (hno m hroom' (Nat.le_refl _) hmle).1 (Nat.lt_irrefl _)
      · have hstep : bmemStep ⟨b', s.live.erase a⟩ (.malloc m none) =
            some ⟨b'', ⟨addr, m⟩ :: s.live.erase a⟩ := by
          simp [bmemStep, he]
        obtain ⟨-, -, -, haddr, -⟩ := Arena.malloc_some hmal
        have hp := (hnext m none _ hstep).2
        rw [List.pairwise_cons] at hp
        refine hover ?_
        rw [← htop, ← ha, ← haddr]
        exact hp.1 c hcl
    · rw [hf] at hn
      cases hn

/-! ## Runs -/

theorem SafeInv.init (start : Nat) (hw : size < 2 ^ 16) :
    SafeInv start size (bmemInit start size) := by
  refine ⟨bmemCreate_ok start size, ?_, rfl, rfl⟩
  have hmod : size % 2 ^ 16 = size := Nat.mod_eq_of_lt hw
  have hempty : ∀ c ∈ (bmemInit start size).live, False := fun _ hc => by cases hc
  refine ⟨?_, fun c hc => (hempty c hc).elim, List.Pairwise.nil, fun _ _ c hc => (hempty c hc).elim⟩
  show total id [] + (some (size % 2 ^ 16)).getD 0 ≤ size
  rw [hmod, total_nil, Nat.zero_add]
  exact Nat.le_refl size

/-- **The runs whose frees move the unused block into no held allocation are the runs in which the
held allocations are apart, and stay so whatever is asked for next.** -/
theorem bmem_apart_iff (start size : Nat) (hw : size < 2 ^ 16) (acts : List BmemAct) (s : BmemRun)
    (hx : exec bmemStep (bmemInit start size) acts = some s) :
    Along bmemStep FreesApart (bmemInit start size) acts ↔
      Visits bmemStep (StaysApart start size) (bmemInit start size) acts :=
  along_iff_visits (fun _ h => h.staysApart hw) (fun _ _ _ h hc hs => h.step hw hc hs)
    (fun _ _ _ h hc hs => h.not_staysApart hw hc hs) hx (SafeInv.init start hw)

/-- A run that gives back the block next to the unused one. -/
theorem bmem_apart_iff_last : Visits bmemStep (StaysApart 4096 100) (bmemInit 4096 100)
    [.malloc 10 (some 1), .malloc 20 none, .free ⟨4106, 20⟩ 1, .malloc 5 none] :=
  (bmem_apart_iff 4096 100 (by decide) _ _ rfl).mp (by decide)

/-- Two blocks of 10 bytes, the first given back: the next `bmem_malloc(10)` returns the second. -/
theorem bmem_malloc_overlaps : ¬ ∀ (start size : Nat), size < 2 ^ 16 →
    ∀ (acts : List BmemAct) (s : BmemRun), exec bmemStep (bmemInit start size) acts = some s →
      HeldApart start size s.live := by
  intro h
  have hx := h 4096 100 (by decide)
    [.malloc 10 (some 1), .malloc 10 none, .free ⟨4096, 10⟩ 1, .malloc 10 none] _ rfl
  have hp : [Alloc.mk 4106 10, ⟨4106, 10⟩].Pairwise fun a c => Disjoint a.span c.span := hx.2
  exact absurd hp (by decide)

end Tudu.Shm
