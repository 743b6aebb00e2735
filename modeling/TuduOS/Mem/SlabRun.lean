import Mathlib.Data.BitVec
import TuduOS.Mem.SlabFree

/-!
# Runs of calls of the slab heap

* `Inv.zonesOk`: what the invariant says of the zones (`ZonesOk`).
* `Inv.step`: a call returns, and keeps the heap in order.
* `init`: the heap is in order after `rt_system_heap_init`.
* `slab_zones`: every sequence of calls.
-/

namespace Tudu.Slab

open Chain Chunks Runs Lts SlabHeap

/-- The chunks of a zone: its blocks are chunks that were used, apart from the free chunks and from
those that were never used. -/
structure ZoneOk (s : SlabHeap) (z : Nat) (free : List Nat) : Prop where
  chain : IsChain s.cNext (s.zone z).freechunk free
  count : (s.zone z).nfree = ((s.zone z).nmax - ((s.zone z).uindex + 1)) + free.length
  inside : ∀ i < (s.zone z).nmax, Within (z * pageSize + headerSize) (z * pageSize + s.zoneSize)
    (chunkAt (s.zone z) i, (s.zone z).chunksize)
  blocks : ∀ r ∈ s.live, (∃ i, i ≤ (s.zone z).uindex ∧
    r = (chunkAt (s.zone z) i, (s.zone z).chunksize)) ∨ Apart (z * pageSize, s.zoneSize) r
  nodup : free.Nodup
  free : ∀ c ∈ free, (∃ i, i ≤ (s.zone z).uindex ∧ c = chunkAt (s.zone z) i) ∧
    ∀ r ∈ s.live, Apart (c, (s.zone z).chunksize) r
  fresh : ∀ i, (s.zone z).uindex < i → i < (s.zone z).nmax → ∀ r ∈ s.live,
    Apart (chunkAt (s.zone z) i, (s.zone z).chunksize) r

/-- The lists from `zone_array` are `arr`, and that of the free zones is `fz`. -/
structure Containers (s : SlabHeap) (arr : Nat → List Nat) (fz : List Nat) : Prop where
  arrays : ∀ i, IsChain (nextZone s) (s.zoneArray i) (arr i)
  frees : IsChain (nextZone s) s.zoneFree fz
  linked : ∀ z ∈ s.zones, z ∉ fz → ∀ i,
    (z ∈ arr i ↔ i = (s.zone z).zoneindex ∧ 0 < (s.zone z).nfree)
  free : ∀ z ∈ fz, z ∈ s.zones ∧ (s.zone z).nfree = (s.zone z).nmax ∧ (∀ i, z ∉ arr i) ∧
    ∀ r ∈ s.live, Apart (z * pageSize, s.zoneSize) r

/-- The zones of the slab heap. -/
structure ZonesOk (s : SlabHeap) : Prop where
  apart : s.live.Pairwise Apart
  zone : ∀ z ∈ s.zones, ∃ free, ZoneOk s z free
  containers : ∃ arr fz, Containers s arr fz

/-- A zone that the step gives back to the page allocator has no block. -/
def ReturnOk (rounds : Nat) (s : SlabHeap) (act : Act) : Prop :=
  ∀ s', step rounds s act = some s' → ∀ z ∈ s.zones, z ∉ s'.zones → ∀ r ∈ s'.live,
    Apart (z * pageSize, s.zoneSize) r

/-- The pointer of the call is `NULL` or that of a block. -/
def Legal (s : SlabHeap) : Act → Prop
  | .malloc size => size < 2 ^ 32
  | .realloc ptr size _ => size < 2 ^ 32 ∧ (ptr = 0 ∨ s.isLive ptr = true)
  | .free ptr => ptr = 0 ∨ s.isLive ptr = true
  | .write r _ => s.live.contains r = true

variable {lo npages rounds ptr size osize : Nat} {l : List Run} {free : Nat → List Nat}
  {arr : Nat → List Nat} {fz : List Nat} {s s' : SlabHeap} {r : Run} {w : Words} {act : Act}

theorem Inv.zonesOk (h : Inv lo npages l free arr fz s) : ZonesOk s := by
  refine ⟨h.apart, fun z hz => ⟨free z, ?_⟩, arr, fz, ⟨h.lists.arrays, h.lists.frees,
    fun z hz hn i => ?_, fun z hz => ?_⟩⟩
  · have hzi := h.zone z hz
    have hs := hzi.shape
    have hused := hs.used
    have hcount := hzi.count
    refine ⟨hzi.chain, by omega, fun i hi => hs.within hi, fun r hr => h.off_zone hz hr,
      (List.nodup_append.mp (hzi.ledger.nodup hs.injective)).1, fun c hc => ?_,
      fun i hi hlt r hr => ?_⟩
    · obtain ⟨i, hi, rfl⟩ := hzi.ledger.mem.mp (.inl hc)
      have hnot := hzi.ledger.not_live hs.injective hc
      exact ⟨⟨i, Nat.lt_succ_iff.mp hi, rfl⟩, fun r hr => h.chunk_off hz (by omega) hnot hr⟩
    · exact h.chunk_off hz hlt (hzi.ledger.fresh hs.injective hi).2 hr
  · rw [h.lists.mem]
    constructor
    · rintro ⟨-, -, hi, hpos⟩
      exact ⟨hi.symm, hpos⟩
    · rintro ⟨hi, hpos⟩
      exact ⟨hz, hn, hi.symm, hpos⟩
  · obtain ⟨hzm, hfull⟩ := h.lists.full z hz
    exact ⟨hzm, hfull, fun i hi => h.lists.not_mem_fz hi hz, fun r hr => h.free_off hz hr⟩

/-! ## One call -/

theorem exists_live (h : s.isLive ptr = true) : ∃ r ∈ s.live, r.1 = ptr := by
  obtain ⟨r, hr, he⟩ := List.any_eq_true.mp h
  exact ⟨r, hr, beq_iff_eq.mp he⟩

theorem Malloced.freed (h : Malloced lo npages size s ptr s') : Freed lo npages s s' :=
  ⟨h.good, h.zoneSize, fun z hz hno => absurd (h.zones z hz) hno⟩

theorem Freed.refl (h : Good lo npages s) : Freed lo npages s s :=
  ⟨h, rfl, fun _ hz hno => absurd hz hno⟩

namespace Inv

variable (h : Inv lo npages l free arr fz s)
include h

/-- A block of `rt_realloc` that moves. -/
theorem moveBlock (hlo : 0 < lo) (hr : npages < rounds) (hm : r ∈ s.live) (h32 : size < 2 ^ 32) :
    ∃ p s', s.moveBlock rounds r.1 size osize w = some (p, s') ∧ Freed lo npages s s' := by
  obtain ⟨p, s1, hs, hmal⟩ := h.malloc hr h32
  unfold SlabHeap.moveBlock
  rw [hs]
  simp only [Option.bind_some]
  by_cases hp : p = 0
  · rw [if_pos hp]
    exact ⟨_, _, rfl, hmal.freed⟩
  · rw [if_neg hp]
    obtain ⟨len, hlen, hlive⟩ := hmal.live.resolve_left fun hn => hp hn.1
    obtain ⟨l1, free₁, arr1, fz1, h1⟩ := hmal.good
    have hb : (p, len) ∈ s1.live := by
      rw [hlive]
      exact List.mem_cons_self
    have hsmall : (if size > osize then osize else size) ≤ len := by
      split <;> omega
    have h2 := h1.overwrite (w := w) (r := (p, if size > osize then osize else size)) hb
      ⟨Nat.le_refl _, Nat.add_le_add_left hsmall _⟩
    have hm' : r ∈ (s1.overwrite (p, if size > osize then osize else size) w).live := by
      show r ∈ s1.live
      rw [hlive]
      exact List.mem_cons_of_mem _ hm
    obtain ⟨s', hf, hfr⟩ := h2.free_live hlo hr hm'
    rw [hf]
    refine ⟨p, s', rfl, hfr.good, hfr.zoneSize.trans hmal.zoneSize, fun z hz hno t ht => ?_⟩
    rw [← hmal.zoneSize]
    exact hfr.returned z (hmal.zones z hz) hno t ht

theorem reallocBlock (hlo : 0 < lo) (hr : npages < rounds) (hm : r ∈ s.live) (h0 : size ≠ 0)
    (h32 : size < 2 ^ 32) :
    ∃ p s', s.reallocBlock rounds r.1 size w = some (p, s') ∧ Freed lo npages s s' := by
  have hps : pageSize = 4096 := rfl
  unfold SlabHeap.reallocBlock
  cases h.placed r hm with
  | large p n hp hpz hu hrp =>
    have hdiv : r.1 / pageSize = p := by
      rw [hrp]
      exact Nat.mul_div_cancel p (by decide)
    simp only [hdiv, hu]
    exact h.moveBlock hlo hr hm h32
  | chunk z i hz hi hrc =>
    have hzi := h.zone z hz
    obtain ⟨j, hj, hpage⟩ := h.chunk_page hz hi
    have husage := hzi.usage j hj
    have hfz : z ∉ fz := fun hf => by
      have hc := h.mem_chunksIn hz hi (hrc ▸ hm)
      rw [hzi.chunksIn_nil (h.lists.full z hf).2] at hc
      cases hc
    have hpage' : r.1 / pageSize = z + j := by
      rw [hrc]
      exact hpage
    simp only [hpage', husage, Nat.add_sub_cancel]
    rw [if_pos (h.lists.magic z hz hfz)]
    split
    · exact ⟨_, _, rfl, Freed.refl ⟨l, free, arr, fz, h⟩⟩
    · refine h.moveBlock hlo hr hm ?_
      by_cases hlt : size < 16384
      · have hround := (zoneindex_spec (Nat.pos_of_ne_zero h0) hlt).large
        omega
      · rw [zoneindex_large (Nat.not_lt.mp hlt)]
        exact h32

/-- A call returns, and keeps the heap in order. -/
theorem step (hlo : 0 < lo) (hr : npages < rounds) (hl : Legal s act) :
    ∃ s', Slab.step rounds s act = some s' ∧ Freed lo npages s s' := by
  cases act with
  | malloc size =>
    have h32 : size < 2 ^ 32 := hl
    obtain ⟨p, s', hs, hmal⟩ := h.malloc hr h32
    refine ⟨s', ?_, hmal.freed⟩
    simp only [Slab.step, if_pos h32, hs]
    rfl
  | realloc ptr size w =>
    obtain ⟨h32, hp⟩ : size < 2 ^ 32 ∧ (ptr = 0 ∨ s.isLive ptr = true) := hl
    simp only [Slab.step, if_pos (And.intro h32 hp), SlabHeap.rtRealloc]
    by_cases hp0 : ptr = 0
    · obtain ⟨p, s', hs, hmal⟩ := h.malloc hr h32
      rw [if_pos hp0, hs]
      exact ⟨s', rfl, hmal.freed⟩
    · obtain ⟨r, hm, rfl⟩ := exists_live (hp.resolve_left hp0)
      rw [if_neg hp0]
      by_cases h0 : size = 0
      · obtain ⟨s', hs, hfr⟩ := h.free_live hlo hr hm
        rw [if_pos h0, hs]
        exact ⟨s', rfl, hfr⟩
      · obtain ⟨p, s', hs, hfr⟩ := h.reallocBlock (w := w) hlo hr hm h0 h32
        rw [if_neg h0, hs]
        exact ⟨s', rfl, hfr⟩
  | free ptr =>
    have hp : ptr = 0 ∨ s.isLive ptr = true := hl
    simp only [Slab.step]
    by_cases hp0 : ptr = 0
    · rw [if_pos hp0]
      exact ⟨s, rfl, Freed.refl ⟨l, free, arr, fz, h⟩⟩
    · have hlive := hp.resolve_left hp0
      obtain ⟨r, hm, rfl⟩ := exists_live hlive
      rw [if_neg hp0, if_pos hlive]
      exact h.free_live hlo hr hm
  | write r w =>
    have hm : s.live.contains r = true := hl
    simp only [Slab.step, if_pos hm]
    refine ⟨_, rfl, ⟨l, free, arr, fz, h.overwrite (List.contains_iff_mem.mp hm) (within_self r)⟩,
      rfl, fun z hz hno => absurd hz hno⟩

end Inv

/-! ## Every sequence of calls -/

theorem step_legal (hs : step rounds s act = some s') : Legal s act := by
  cases act with
  | malloc _ | realloc _ _ _ | write _ _ =>
    simp only [step] at hs
    split at hs
    · assumption
    · cases hs
  | free ptr =>
    simp only [step] at hs
    split at hs
    · exact .inl ‹_›
    · split at hs
      · exact .inr ‹_›
      · cases hs

/-- What the calls keep: the heap is in order, in pages that a loop of `rounds` rounds passes. -/
def Fine (rounds : Nat) (s : SlabHeap) : Prop :=
  ∃ lo npages, 0 < lo ∧ npages < rounds ∧ Good lo npages s

theorem Fine.step (h : Fine rounds s) (hl : Legal s act) : ∃ lo npages s',
    Slab.step rounds s act = some s' ∧ 0 < lo ∧ npages < rounds ∧ Freed lo npages s s' := by
  obtain ⟨lo, npages, hlo, hr, l, free, arr, fz, hinv⟩ := h
  obtain ⟨s', hs, hf⟩ := hinv.step hlo hr hl
  exact ⟨lo, npages, s', hs, hlo, hr, hf⟩

theorem Fine.zonesOk (h : Fine rounds s) : ZonesOk s := by
  obtain ⟨lo, npages, -, -, l, free, arr, fz, hinv⟩ := h
  exact hinv.zonesOk

theorem Fine.kept (h : Fine rounds s) (hs : Slab.step rounds s act = some s') : Fine rounds s' := by
  obtain ⟨lo, npages, t, ht, hlo, hr, hf⟩ := h.step (step_legal hs)
  rw [hs] at ht
  rw [Option.some.inj ht]
  exact ⟨lo, npages, hlo, hr, hf.good⟩

theorem Fine.returnOk (h : Fine rounds s) (act : Act) : ReturnOk rounds s act := by
  intro s' hs
  obtain ⟨lo, npages, t, ht, -, -, hf⟩ := h.step (step_legal hs)
  rw [hs] at ht
  rw [Option.some.inj ht]
  exact hf.returned

theorem growZone_conf (limit : Nat) : growZone limit 2 32768 = 32768 ∨
    growZone limit 2 32768 = 65536 ∨ growZone limit 2 32768 = 131072 := by
  simp only [growZone]
  split
  · split
    · exact .inr (.inr rfl)
    · exact .inr (.inl rfl)
  · exact .inl rfl

/-- A heap without a zone and without a block. -/
theorem Inv.empty (hc : Conf s) (hh : Pages.Heap lo npages s.pages l) (hl : s.live = [])
    (hz : s.zones = []) (ha : ∀ i, s.zoneArray i = none) (hf : s.zoneFree = none)
    (hn : s.zoneFreeCnt = 0) : Inv lo npages l (fun _ => []) (fun _ => []) [] s where
  conf := hc
  heap := hh
  runs z hm := by simp [hz] at hm
  nodup := by simp [hz]
  zone z hm := by simp [hz] at hm
  placed r hm := by simp [hl] at hm
  apart := by simp [hl]
  lists := ⟨fun i => isChain_nil.mpr (ha i), isChain_nil.mpr hf, fun _ => List.nodup_nil,
    List.nodup_nil, fun i z => by simp [hz], fun z hm => absurd hm List.not_mem_nil,
    fun z hm => by simp [hz] at hm, hn⟩

/-- The pages of the usage table are taken. -/
theorem Fine.start {n p : Nat} (hc : Conf s) (hh : Pages.Heap lo npages s.pages l)
    (hl : s.live = []) (hz : s.zones = []) (ha : ∀ i, s.zoneArray i = none)
    (hf : s.zoneFree = none) (hn : s.zoneFreeCnt = 0) (hlo : 0 < lo) (hr : npages < rounds)
    (hs : s.pageAlloc rounds n = some (some p, s')) : Fine rounds s' := by
  rcases (Inv.empty hc hh hl hz ha hf hn).pageAlloc hr n with hnone | ⟨q, t, l', ht, hinv, -⟩
  · rw [hnone] at hs
    cases hs
  · rw [ht] at hs
    cases hs
    exact ⟨lo, npages, hlo, hr, l', _, _, _, hinv⟩

/-- The heap is in order after `rt_system_heap_init`. -/
theorem init {usage : Nat → Memusage} {b e : BitVec 32} (hr : 1048576 ≤ rounds)
    (hi : rtSystemHeapInit rounds w usage b.toNat e.toNat = some s) : Fine rounds s := by
  have hps : pageSize = 4096 := rfl
  have he : e.toNat < 4294967296 := e.isLt
  simp only [rtSystemHeapInit] at hi
  split at hi
  · cases hi
  · obtain ⟨h, hp, hi⟩ := Option.bind_eq_some_iff.mp hi
    obtain ⟨q, ha, hi⟩ := Option.bind_eq_some_iff.mp hi
    have hor : ¬ (alignPage b.toNat / pageSize = 0 ∨
        (e.toNat / pageSize * pageSize - alignPage b.toNat) / pageSize = 0) := fun hor => by
      rw [Pages.PageHeap.rtPageInit, if_pos hor] at hp
      cases hp
    obtain ⟨hlo, hn⟩ := not_or.mp hor
    have hpages : (e.toNat / pageSize * pageSize - alignPage b.toNat) / pageSize < rounds := by
      rw [hps]
      omega
    obtain ⟨h', hp', hheap⟩ := Pages.Heap.init (s := ⟨w.next, w.page, none⟩) hlo hn
      (Nat.zero_lt_of_lt hpages)
    rw [hp] at hp'
    cases hp'
    have hconf : ∀ n, n = 32768 ∨ n = 65536 ∨ n = 131072 →
        n = 32768 ∧ min (n / 4) 16384 = 8192 ∨ n = 65536 ∧ min (n / 4) 16384 = 16384 ∨
          n = 131072 ∧ min (n / 4) 16384 = 16384 := by omega
    obtain ⟨p, hq, rfl⟩ := Option.map_eq_some_iff.mp hi
    refine Fine.start ?_ hheap rfl rfl (fun _ => rfl) rfl rfl (Nat.pos_of_ne_zero hlo) hpages
      (ha.trans (congrArg some (Prod.ext hq rfl)))
    exact hconf _ (growZone_conf _)

/-- Every sequence of calls of `rt_malloc`, of `rt_realloc` and of `rt_free`, where the callers may
write to their blocks: the zones are as they ought to be, none goes back to the page allocator with
a block in it, and every call returns. -/
theorem slab_zones {usage : Nat → Memusage} {b e : BitVec 32} (hr : 1048576 ≤ rounds)
    (hi : rtSystemHeapInit rounds w usage b.toNat e.toNat = some s) (acts : List Act) :
    Visits (step rounds) (fun t => ZonesOk t ∧ ∀ act, ReturnOk rounds t act ∧
      (Legal t act → (step rounds t act).isSome)) s acts := by
  refine visits_inv (I := Fine rounds) (fun t h => ⟨h.zonesOk, fun act => ⟨h.returnOk act,
    fun hl => ?_⟩⟩) (fun _ _ _ h hs => h.kept hs) (init hr hi)
  obtain ⟨lo, npages, t', ht, -⟩ := h.step hl
  rw [ht]
  rfl

/-- What the memory is like before `rt_system_heap_init`. -/
def blank : Words where
  next := fun _ => none
  page := fun _ => 0
  zone := fun _ => ⟨0, 0, 0, none, 0, 0, 0, 0, none⟩
  cNext := fun _ => none

/-- 32 pages from 0x100000 on. -/
def sampleHeap : Option SlabHeap :=
  rtSystemHeapInit 1048576 blank (fun _ => ⟨.free, 0⟩) (0x100000#32).toNat (0x120000#32).toNat

/-- Two zones of chunks of 8 KiB: the first has a free chunk, and the second comes to be free. -/
def sampleRun : List Act :=
  [.malloc 8000, .malloc 8000, .malloc 8000, .malloc 8000, .free 1060864, .free 1093632]

theorem slab_zones_sample : ∃ s t, sampleHeap = some s ∧ exec (step 1048576) s sampleRun = some t ∧
    t.live = [(1077248, 8192), (1069056, 8192)] ∧
    Visits (step 1048576) (fun t => ZonesOk t ∧ ∀ act, ReturnOk 1048576 t act ∧
      (Legal t act → (step 1048576 t act).isSome)) s sampleRun := by
  have hx : (sampleHeap.bind fun s => exec (step 1048576) s sampleRun).map SlabHeap.live =
      some [(1077248, 8192), (1069056, 8192)] := by decide +kernel
  obtain ⟨t, ht, hl⟩ := Option.map_eq_some_iff.mp hx
  obtain ⟨s, hs, ht⟩ := Option.bind_eq_some_iff.mp ht
  exact ⟨s, t, hs, ht, hl, slab_zones (Nat.le_refl _) hs sampleRun⟩

/-- A free zone is on no list of `zone_array`, and it has free chunks. -/
theorem free_zone_unlinked : ∃ s t, sampleHeap = some s ∧
    exec (step 1048576) s sampleRun = some t ∧ 265 ∈ t.zones ∧ (t.zone 265).zoneindex = 63 ∧
    0 < (t.zone 265).nfree ∧ ∀ arr, IsChain (nextZone t) (t.zoneArray 63) arr → 265 ∉ arr := by
  have hx : (sampleHeap.bind fun s => exec (step 1048576) s sampleRun).map
      (fun t => (t.zones, (t.zone 265).zoneindex, (t.zone 265).nfree, t.zoneArray 63,
        (t.zone 257).next)) = some ([265, 257], 63, 3, some 257, none) := by decide +kernel
  obtain ⟨t, ht, he⟩ := Option.map_eq_some_iff.mp hx
  obtain ⟨s, hs, ht⟩ := Option.bind_eq_some_iff.mp ht
  simp only [Prod.mk.injEq] at he
  obtain ⟨hz, hi, hn, ha, hnext⟩ := he
  refine ⟨s, t, hs, ht, by rw [hz]; decide, hi, by rw [hn]; decide, fun arr harr => ?_⟩
  have hchain : IsChain (nextZone t) (t.zoneArray 63) [257] := ⟨ha, hnext⟩
  rw [harr.unique hchain]
  decide

end Tudu.Slab
