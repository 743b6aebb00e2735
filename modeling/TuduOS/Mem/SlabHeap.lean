import TuduOS.Mem.SlabZone

/-!
# The zones, the lists and the blocks of the slab heap

* `Inv`: the invariant; `Lists`: what is on `zone_array` and on the list of free zones.
* `Inv.off_zone`, `Inv.chunk_off`: a block is apart from what it is not a part of.
* `Inv.overwrite`: the owner of a block may overwrite it.
* `Spare`: pages that are in nobody's use; `Inv.pageAlloc`, `Inv.pageFree`, `Inv.setUsage`.
-/

namespace Tudu.Slab

open Chain Chunks Runs SlabHeap

/-- `z_next` -/
def nextZone (s : SlabHeap) (z : Nat) : Option Nat := (s.zone z).next

/-- A block is a chunk of a zone that was used, or has pages of its own. -/
inductive Placed (s : SlabHeap) (r : Run) : Prop where
  | chunk (z i : Nat) (hz : z ∈ s.zones) (hi : i ≤ (s.zone z).uindex)
      (hr : r = (chunkAt (s.zone z) i, (s.zone z).chunksize))
  | large (p n : Nat) (hp : (p, n) ∈ s.pages.live) (hz : p ∉ s.zones)
      (hu : s.memusage p = ⟨.large, n⟩) (hr : r = (p * pageSize, n * pageSize))

/-- The lists of `zone_array` are `arr`, and the list of free zones is `fz`. -/
structure Lists (arr : Nat → List Nat) (fz : List Nat) (s : SlabHeap) : Prop where
  arrays : ∀ i, IsChain (nextZone s) (s.zoneArray i) (arr i)
  frees : IsChain (nextZone s) s.zoneFree fz
  arrNodup : ∀ i, (arr i).Nodup
  fzNodup : fz.Nodup
  mem : ∀ i z, z ∈ arr i ↔
    z ∈ s.zones ∧ z ∉ fz ∧ (s.zone z).zoneindex = i ∧ 0 < (s.zone z).nfree
  full : ∀ z ∈ fz, z ∈ s.zones ∧ (s.zone z).nfree = (s.zone z).nmax
  magic : ∀ z ∈ s.zones, z ∉ fz → (s.zone z).magic = slabMagic
  cnt : s.zoneFreeCnt = fz.length

structure Inv (lo npages : Nat) (l : List Run) (free : Nat → List Nat) (arr : Nat → List Nat)
    (fz : List Nat) (s : SlabHeap) : Prop where
  conf : Conf s
  heap : Pages.Heap lo npages s.pages l
  runs : ∀ z ∈ s.zones, (z, s.zonePageCnt) ∈ s.pages.live
  nodup : s.zones.Nodup
  zone : ∀ z ∈ s.zones, ZoneInv s z (free z)
  placed : ∀ r ∈ s.live, Placed s r
  apart : s.live.Pairwise Apart
  lists : Lists arr fz s

variable {lo npages rounds a b n m p z zi i c : Nat} {l l' : List Run} {free : Nat → List Nat}
  {arr : Nat → List Nat} {fz : List Nat} {s s' : SlabHeap} {r : Run} {w : Words}

theorem Conf.zoneSize (h : Conf s) : s.zoneSize = s.zonePageCnt * pageSize ∧ 32768 ≤ s.zoneSize ∧
    8 ≤ s.zonePageCnt := by
  unfold zonePageCnt
  rcases h with ⟨h, -⟩ | ⟨h, -⟩ | ⟨h, -⟩ <;> rw [h] <;> decide

/-- Runs of pages that are apart are apart as bytes. -/
theorem apart_pages (h : Apart (a, n) (b, m)) :
    Apart (a * pageSize, n * pageSize) (b * pageSize, m * pageSize) := by
  simp only [Apart, pageSize] at h ⊢
  omega

namespace Inv

variable (h : Inv lo npages l free arr fz s)
include h

theorem run_apart (ha : (a, n) ∈ s.pages.live) (hb : (b, m) ∈ s.pages.live) (hab : a ≠ b) :
    Apart (a, n) (b, m) :=
  h.heap.apart.forall ha hb fun he => hab (Prod.mk.inj he).1

/-- The bytes of a zone. -/
theorem chunk_within (hz : z ∈ s.zones) (hi : i ≤ (s.zone z).uindex) :
    Within (z * pageSize) (z * pageSize + s.zoneSize)
      (chunkAt (s.zone z) i, (s.zone z).chunksize) := by
  have hs := (h.zone z hz).shape
  have hw := hs.within (Nat.lt_of_le_of_lt hi hs.used)
  exact ⟨by simp only; omega, hw.2⟩

/-- A block lies in a run of pages that is out. -/
theorem placed_run (hr : r ∈ s.live) : ∃ a n, (a, n) ∈ s.pages.live ∧
    Within (a * pageSize) (a * pageSize + n * pageSize) r := by
  cases h.placed r hr with
  | chunk z i hz hi hr =>
    have hw := h.chunk_within hz hi
    rw [hr]
    refine ⟨z, s.zonePageCnt, h.runs z hz, ?_⟩
    rw [← h.conf.zoneSize.1]
    exact hw
  | large p n hp _ _ hr =>
    rw [hr]
    exact ⟨p, n, hp, within_self (p * pageSize, n * pageSize)⟩

/-- A block is a chunk of the zone, or apart from it. -/
theorem off_zone (hz : z ∈ s.zones) (hr : r ∈ s.live) :
    (∃ i, i ≤ (s.zone z).uindex ∧ r = (chunkAt (s.zone z) i, (s.zone z).chunksize)) ∨
      Apart (z * pageSize, s.zoneSize) r := by
  have hzs := h.conf.zoneSize.1
  cases h.placed r hr with
  | chunk z' i hz' hi hr =>
    by_cases he : z = z'
    · subst he
      exact .inl ⟨i, hi, hr⟩
    · have hap := apart_pages (h.run_apart (h.runs z hz) (h.runs z' hz') he)
      have hw := h.chunk_within hz' hi
      rw [← hzs] at hap
      rw [hr]
      exact .inr (hap.of_within (within_self _) hw)
  | large p n hp hpz _ hr =>
    have hne : z ≠ p := fun he => hpz (he ▸ hz)
    have hap := apart_pages (h.run_apart (h.runs z hz) hp hne)
    rw [← hzs] at hap
    rw [hr]
    exact .inr hap

/-- A chunk that is not out is apart from the blocks that are. -/
theorem chunk_off (hz : z ∈ s.zones) (hi : i < (s.zone z).nmax)
    (hno : chunkAt (s.zone z) i ∉ chunksIn s z) (hr : r ∈ s.live) :
    Apart (chunkAt (s.zone z) i, (s.zone z).chunksize) r := by
  have hs := (h.zone z hz).shape
  rcases h.off_zone hz hr with ⟨j, hj, rfl⟩ | hap
  · refine chunkAt_apart fun he => hno ?_
    subst he
    have hw := hs.within hi
    have hpos := hs.pos
    refine List.mem_map.mpr ⟨_, List.mem_filter.mpr ⟨hr, ?_⟩, rfl⟩
    simp only [inZone, decide_eq_true_eq]
    omega
  · have hw := hs.within hi
    exact hap.of_within ⟨by simp only; omega, hw.2⟩ (within_self r)

theorem live_pos (hr : r ∈ s.live) : 0 < r.2 := by
  cases h.placed r hr with
  | chunk z i hz _ hr =>
    have hpos := (h.zone z hz).shape.pos
    rw [hr]
    show 0 < (s.zone z).chunksize
    omega
  | large p n hp _ _ hr =>
    have hpos := h.heap.pos _ hp
    rw [hr]
    simp only [pageSize] at hpos ⊢
    omega

end Inv

/-! ## Overwriting a block -/

theorem meets_eq_false {a k : Nat} (h : Apart (a, k) r) : meets r a k = false := by
  simp only [Apart] at h
  simp only [meets, decide_eq_false_iff_not]
  omega

/-- The lists as they are: nothing that they depend on has changed. -/
theorem Lists.same (h : Lists arr fz s) (hz : s'.zones = s.zones) (ha : s'.zoneArray = s.zoneArray)
    (hf : s'.zoneFree = s.zoneFree) (hc : s'.zoneFreeCnt = s.zoneFreeCnt)
    (hnext : ∀ z ∈ s.zones, nextZone s' z = nextZone s z)
    (hi : ∀ z ∈ s.zones, (s'.zone z).zoneindex = (s.zone z).zoneindex)
    (hpos : ∀ z ∈ s.zones, 0 < (s'.zone z).nfree ↔ 0 < (s.zone z).nfree)
    (hfull : ∀ z ∈ fz, (s'.zone z).nfree = (s'.zone z).nmax)
    (hm : ∀ z ∈ s.zones, (s'.zone z).magic = (s.zone z).magic) : Lists arr fz s' := by
  refine ⟨fun i => ?_, ?_, h.arrNodup, h.fzNodup, fun i z => ?_, fun z hm => ?_, fun z hz' hn => ?_,
    hc.trans h.cnt⟩
  · rw [ha]
    exact (h.arrays i).congr fun z hm => hnext z ((h.mem i z).mp hm).1
  · rw [hf]
    exact h.frees.congr fun z hm => hnext z (h.full z hm).1
  · rw [h.mem, hz]
    refine and_congr_right fun hm => ?_
    rw [hi z hm, hpos z hm]
  · rw [hz]
    exact ⟨(h.full z hm).1, hfull z hm⟩
  · rw [hz] at hz'
    rw [hm z hz']
    exact h.magic z hz' hn

theorem Lists.congr (h : Lists arr fz s) (hz : s'.zones = s.zones)
    (hzone : ∀ z ∈ s.zones, s'.zone z = s.zone z) (ha : s'.zoneArray = s.zoneArray)
    (hf : s'.zoneFree = s.zoneFree) (hc : s'.zoneFreeCnt = s.zoneFreeCnt) : Lists arr fz s' := by
  refine h.same hz ha hf hc (fun z hm => congrArg SlabZone.next (hzone z hm)) (fun z hm => ?_)
    (fun z hm => ?_) (fun z hm => ?_) fun z hm => ?_
  · rw [hzone z hm]
  · rw [hzone z hm]
  · rw [hzone z (h.full z hm).1]
    exact (h.full z hm).2
  · rw [hzone z hm]

/-- The owner of a block may overwrite it. -/
theorem Inv.overwrite (h : Inv lo npages l free arr fz s) {t : Run} (ht : t ∈ s.live)
    (hr : Within t.1 (t.1 + t.2) r) : Inv lo npages l free arr fz (s.overwrite r w) := by
  obtain ⟨a, n, ha, hta⟩ := h.placed_run ht
  have hra : Within (a * pageSize) (a * pageSize + n * pageSize) r := by
    simp only [Within] at hr hta ⊢
    omega
  -- the heads of the free runs
  have hpage : ∀ u ∈ l, meets r (u.1 * pageSize) 8 = false := fun u hu => by
    have hap := apart_pages (h.heap.off u hu (a, n) ha)
    have hpos := h.heap.free.pos u hu
    refine meets_eq_false (hap.of_within ?_ hra)
    simp only [Within, pageSize]
    omega
  -- the headers of the zones
  have hzone : ∀ z ∈ s.zones, (s.overwrite r w).zone z = s.zone z := fun z hz => by
    have hno : meets r (z * pageSize) headerSize = false := by
      refine meets_eq_false ?_
      rcases h.off_zone hz ht with ⟨i, hi, rfl⟩ | hap
      · have hs := (h.zone z hz).shape
        have hw := hs.within (Nat.lt_of_le_of_lt hi hs.used)
        simp only [Within] at hr
        exact .inl (by simp only; omega)
      · have hzs := h.conf.zoneSize.2.1
        refine hap.of_within ?_ hr
        simp only [Within, headerSize]
        omega
    simp only [SlabHeap.overwrite, hno]
    rfl
  -- the free chunks
  have hnext : ∀ z ∈ s.zones, ∀ c ∈ free z, (s.overwrite r w).cNext c = s.cNext c :=
    fun z hz c hc => by
      have hzi := h.zone z hz
      have hs := hzi.shape
      obtain ⟨i, hi, rfl⟩ := hzi.ledger.mem.mp (.inl hc)
      have hused := hs.used
      have hap := h.chunk_off hz (by omega) (hzi.ledger.not_live hs.injective hc) ht
      have hno : meets r (chunkAt (s.zone z) i) 4 = false := by
        have hpos := hs.pos
        refine meets_eq_false (hap.of_within ?_ hr)
        simp only [Within]
        omega
      simp only [SlabHeap.overwrite, hno]
      rfl
  refine ⟨h.conf, ⟨h.heap.leads.congr (fun u hu => ?_) fun u hu => ?_, h.heap.free, h.heap.pos,
    h.heap.apart, h.heap.off, h.heap.inFree, h.heap.inLive, h.heap.sum⟩, h.runs, h.nodup,
    fun z hz => (h.zone z hz).congr ⟨_, _, hzone z hz⟩ rfl (fun i _ => rfl) (hnext z hz)
      (List.Perm.refl _), fun u hu => ?_, h.apart, h.lists.congr rfl hzone rfl rfl rfl⟩
  · simp only [SlabHeap.overwrite, hpage u hu]
    rfl
  · simp only [SlabHeap.overwrite, hpage u hu]
    rfl
  · cases h.placed u hu with
    | chunk z i hz hi hu =>
      refine .chunk z i hz ?_ ?_
      · rw [hzone z hz]
        exact hi
      · rw [hzone z hz]
        exact hu
    | large p n hp hz hu' hu => exact .large p n hp hz hu' hu

/-! ## Pages in nobody's use -/

/-- Pages that are neither free nor in use. -/
structure Spare (s : SlabHeap) (p n : Nat) : Prop where
  out : (p, n) ∈ s.pages.live
  zone : p ∉ s.zones
  off : ∀ r ∈ s.live, Apart (p * pageSize, n * pageSize) r

namespace Inv

/-- Pages of a block are not spare. -/
theorem spare_ne (h : Inv lo npages l free arr fz s) (hs : Spare s p n)
    (hp : (a, m) ∈ s.pages.live) (hr : (a * pageSize, m * pageSize) ∈ s.live) : p ≠ a := by
  rintro rfl
  have hap := hs.off _ hr
  have h1 := h.heap.pos _ hs.out
  have h2 := h.heap.pos _ hp
  simp only [Apart, pageSize] at hap h1 h2
  omega

/-- The usage of other pages may be anything. -/
theorem setMemusage (h : Inv lo npages l free arr fz s) {u : Nat → Memusage}
    (hz : ∀ z ∈ s.zones, ∀ i < s.zonePageCnt, u (z + i) = s.memusage (z + i))
    (hl : ∀ p n, (p, n) ∈ s.pages.live → (p * pageSize, n * pageSize) ∈ s.live →
      u p = s.memusage p) :
    Inv lo npages l free arr fz { s with memusage := u } := by
  refine ⟨h.conf, h.heap, h.runs, h.nodup, fun z hm => ?_, fun r hr => ?_, h.apart,
    h.lists.congr rfl (fun _ _ => rfl) rfl rfl rfl⟩
  · exact (h.zone z hm).congr ⟨_, _, rfl⟩ rfl (hz z hm) (fun _ _ => rfl) (List.Perm.refl _)
  · cases h.placed r hr with
    | chunk z i hz hi hr => exact .chunk z i hz hi hr
    | large p n hp hpz hu he =>
      refine .large p n hp hpz ?_ he
      rw [← hu]
      exact hl p n hp (he ▸ hr)

/-- What `memusage` says of spare pages does not matter. -/
theorem setUsage (h : Inv lo npages l free arr fz s) (hs : Spare s z s.zonePageCnt) (b : Bool) :
    Inv lo npages l free arr fz (s.setUsage z b) := by
  have hout : ∀ a m, (a, m) ∈ s.pages.live → z ≠ a → ∀ i < m,
      (s.setUsage z b).memusage (a + i) = s.memusage (a + i) := fun a m ha hne i hi => by
    have hap := h.run_apart hs.out ha hne
    have hno : ¬ (z ≤ a + i ∧ a + i < z + s.zonePageCnt) := by
      simp only [Apart] at hap
      omega
    simp only [SlabHeap.setUsage, if_neg hno]
  refine h.setMemusage (fun z' hz' i hi => ?_) fun p n hp hr => ?_
  · exact hout z' _ (h.runs z' hz') (fun he => hs.zone (he ▸ hz')) i hi
  · exact hout p n hp (h.spare_ne hs hp hr) 0 (h.heap.pos _ hp)

theorem pageAlloc (h : Inv lo npages l free arr fz s) (hr : npages < rounds) (n : Nat) :
    s.pageAlloc rounds n = some (none, s) ∨
    ∃ p s' l', s.pageAlloc rounds n = some (some p, s') ∧ Inv lo npages l' free arr fz s' ∧
      Spare s' p n ∧ (∃ pages, s' = { s with pages := pages }) := by
  obtain ⟨q, h', ha, -, hnull, hsome⟩ := h.heap.alloc hr n
  cases q with
  | none =>
    refine .inl ?_
    rw [SlabHeap.pageAlloc, ha, hnull rfl]
    rfl
  | some p =>
    obtain ⟨l', hheap⟩ := hsome p rfl
    refine .inr ⟨p, { s with pages := ⟨h', (p, n) :: s.pages.live⟩ }, l', ?_, ?_, ?_, _, rfl⟩
    · rw [SlabHeap.pageAlloc, ha]
      rfl
    · refine ⟨h.conf, hheap, fun z hz => List.mem_cons_of_mem _ (h.runs z hz), h.nodup,
        fun z hz => (h.zone z hz).congr ⟨_, _, rfl⟩ rfl (fun _ _ => rfl) (fun _ _ => rfl)
          (List.Perm.refl _), fun r hr => ?_, h.apart,
        h.lists.congr rfl (fun _ _ => rfl) rfl rfl rfl⟩
      cases h.placed r hr with
      | chunk z i hz hi hr => exact .chunk z i hz hi hr
      | large p n hp hz hu hr => exact .large p n (List.mem_cons_of_mem _ hp) hz hu hr
    · have hap := (List.pairwise_cons.mp hheap.apart).1
      have hpos := hheap.pos (p, n) List.mem_cons_self
      refine ⟨List.mem_cons_self, fun hz => ?_, fun r hr => ?_⟩
      · have hzp := hap _ (h.runs p hz)
        have h2 := h.heap.pos _ (h.runs p hz)
        simp only [Apart] at hzp hpos h2
        omega
      · obtain ⟨a, m, ham, hw⟩ := h.placed_run hr
        exact (apart_pages (hap _ ham)).of_within (within_self _) hw

theorem pageFree (h : Inv lo npages l free arr fz s) (hlo : 0 < lo) (hr : npages < rounds)
    (hs : Spare s p n) : ∃ pages, s.pageFree rounds p n = some { s with pages := pages } ∧
      Inv lo npages (release p n l) free arr fz { s with pages := pages } := by
  obtain ⟨h', hf, hheap⟩ := h.heap.free_live hlo hr hs.out
  refine ⟨⟨h', s.pages.live.erase (p, n)⟩, ?_, ?_⟩
  · rw [SlabHeap.pageFree, hf]
    rfl
  · have hkeep : ∀ a m, (a, m) ∈ s.pages.live → p ≠ a → (a, m) ∈ s.pages.live.erase (p, n) :=
      fun a m ha hne => (List.mem_erase_of_ne fun he => hne (Prod.mk.inj he).1.symm).mpr ha
    refine ⟨h.conf, hheap, fun z hz => ?_, h.nodup,
      fun z hz => (h.zone z hz).congr ⟨_, _, rfl⟩ rfl (fun _ _ => rfl) (fun _ _ => rfl)
        (List.Perm.refl _), fun r hr => ?_, h.apart,
      h.lists.congr rfl (fun _ _ => rfl) rfl rfl rfl⟩
    · exact hkeep z _ (h.runs z hz) fun he => hs.zone (he ▸ hz)
    · cases h.placed r hr with
      | chunk z i hz hi hr => exact .chunk z i hz hi hr
      | large a m ha hz hu he =>
        exact .large a m (hkeep a m ha (h.spare_ne hs ha (he ▸ hr))) hz hu he

end Inv

end Tudu.Slab
