import Mathlib.Logic.Function.Iterate
import TuduOS.Mem.SmallRun

/-!
# What the system heap can serve

* `InList s b`: `b` is a block of the list. `Fits s n b`: it is unused and `n` bytes long.
* `Serves s size`: the loop of `rt_malloc` comes to a block that is long enough. It ends before the
  last place where one can begin. `rtMalloc_served_iff` says that this is what decides.
* `malloc_complete_iff`: when `NULL` means that no block is long enough.
* `request_covered_iff`: when the area that is returned has as many bytes as were asked for.
-/

namespace Tudu.Mem

namespace Heap

open Ordered

variable {s t : Heap} {b n p x size fuel : Nat} {k : Finset Nat}

/-! ## The list -/

/-- The pointers `next` lead to `b` from the start of the heap. -/
def InList (s : Heap) (b : Nat) : Prop := ∃ i, Nat.iterate (s.get .next) i 0 = b

/-- The bytes behind the header of `b`. -/
def userSize (s : Heap) (b : Nat) : Nat := s.get .next b - (b + sizeofStructMem)

theorem Blocks.inList (hB : Blocks s x k) : s.InList b ↔ b ∈ k := by
  constructor
  · rintro ⟨i, rfl⟩
    induction i with
    | zero => exact hB.start
    | succ i ih =>
      rw [Function.iterate_succ_apply']
      exact hB.next_mem ih
  · intro hb
    induction b using Nat.strong_induction_on with
    | _ b ih =>
      rcases Nat.eq_zero_or_pos b with rfl | hpos
      · exact ⟨0, rfl⟩
      · -- the block before it
        obtain ⟨p, hp, hpe, hpb⟩ := hB.leads.exists_prev hb hB.start hpos
        obtain ⟨i, hi⟩ := ih p (hpb ▸ hB.leads.lt p hp hpe) hp
        refine ⟨i + 1, ?_⟩
        rw [Function.iterate_succ_apply', hi, hpb]

/-- The heap determines its blocks. -/
theorem Blocks.unique {y : Nat} {k' : Finset Nat} (h : Blocks s x k) (h' : Blocks s y k') :
    k = k' := by
  ext b
  rw [← h.inList, h'.inList]

/-- The unused block `b` has `n` bytes. -/
structure Fits (s : Heap) (n b : Nat) : Prop where
  inList : s.InList b
  unused : s.get .used b = 0
  room : n ≤ s.userSize b

/-- The length of the block that `rt_malloc` looks for. -/
def needed (size : Nat) : Nat := max (rtAlign size) minSizeAligned

/-- A block is long enough and begins before the end of the loop. -/
def Serves (s : Heap) (size : Nat) : Prop :=
  size ≠ 0 ∧ rtAlign size ≤ s.memSizeAligned ∧
    ∃ b, s.Fits (needed size) b ∧ b + needed size < s.memSizeAligned

theorem four_dvd_needed (size : Nat) : 4 ∣ needed size := by
  have := four_dvd_rtAlign size
  unfold needed minSizeAligned
  rcases Nat.le_total (rtAlign size) 12 with h | h
  · rw [Nat.max_eq_right h]
    decide
  · rw [Nat.max_eq_left h]
    exact this

/-- A block that fits ends before the heap does. -/
theorem Blocks.fits_le (hB : Blocks s x k) (h : s.Fits n b) (hn : 0 < n) :
    b + n ≤ s.memSizeAligned := by
  have hb := hB.inList.mp h.inList
  have hle := hB.leads.le _ (hB.next_mem hb)
  have hsize := hB.size
  have hroom := h.room
  unfold userSize sizeofStructMem at hroom
  omega

theorem Blocks.four_dvd_size (hB : Blocks s x k) : 4 ∣ s.memSizeAligned := by
  have h1 := hB.align _ hB.leads.last
  have h2 := hB.size
  omega

/-! ## The loops end -/

/-- Without a block that fits, the walk comes to its end. -/
theorem findFit_eq_none (hB : Blocks s s.heapEnd k) (hn : n ≤ s.memSizeAligned)
    (hno : ∀ b ∈ k, s.get .used b = 0 → n ≤ s.get .next b - (b + 12) → s.memSizeAligned ≤ b + n)
    (hp : p ∈ k) (hfuel : s.heapEnd < p + 12 * fuel) : s.findFit n fuel p = some none := by
  have hsub : sub32 s.memSizeAligned n = s.memSizeAligned - n := sub32_of_le hn
  induction fuel generalizing p with
  | zero =>
    have := hB.leads.le p hp
    omega
  | succ fuel ih =>
    unfold findFit
    rw [hsub]
    split
    · rename_i hlt
      have hpe : p ≠ s.heapEnd := by
        have := hB.size
        omega
      rw [if_neg]
      · have := hB.gap p hp hpe
        exact ih (hB.next_mem hp) (by omega)
      · rintro ⟨hu, hfit⟩
        rw [area_eq hB hp hpe] at hfit
        have := hno p hp hu hfit
        omega
    · rfl

/-- A block that fits is found if the walk can come to it. -/
theorem findFit_isSome (hB : Blocks s s.heapEnd k) (hb : b ∈ k) (hu : s.get .used b = 0)
    (hn : n ≤ s.get .next b - (b + 12)) (hlt : b < sub32 s.memSizeAligned n) (hp : p ∈ k)
    (hpb : p ≤ b) (hfuel : s.heapEnd < p + 12 * fuel) : ∃ c, s.findFit n fuel p = some (some c) := by
  induction fuel generalizing p with
  | zero =>
    have := hB.leads.le p hp
    omega
  | succ fuel ih =>
    unfold findFit
    rw [if_pos (Nat.lt_of_le_of_lt hpb hlt)]
    split
    · exact ⟨p, rfl⟩
    · rename_i hnot
      have hne : p ≠ b := by
        rintro rfl
        exact hnot ⟨hu, by rw [area_eq hB hb (hB.ne_end hu)]; exact hn⟩
      have hlt' := lt_of_le_of_ne hpb hne
      have hle := hB.leads.least p hp b hb hlt'
      have hpn := hB.gap p hp (hlt'.trans_le (hB.leads.le b hb)).ne
      exact ih (hB.next_mem hp) hle (by omega)

theorem findFit_lt (h : s.findFit n fuel p = some (some b)) : b < sub32 s.memSizeAligned n := by
  induction fuel generalizing p with
  | zero => cases h
  | succ fuel ih =>
    unfold findFit at h
    split at h
    · rename_i hlt
      split at h
      · cases h
        exact hlt
      · exact ih h
    · cases h

theorem nextFree_isSome (hB : Blocks s x k) (hp : p ∈ k) (hfuel : s.heapEnd < p + 12 * fuel) :
    ∃ q, s.nextFree fuel p = some q := by
  induction fuel generalizing p with
  | zero =>
    have := hB.leads.le p hp
    omega
  | succ fuel ih =>
    unfold nextFree
    split
    · rename_i hu
      have := hB.gap p hp hu.2
      exact ih (hB.next_mem hp) (by omega)
    · exact ⟨p, rfl⟩

/-! ## `rt_malloc` -/

/-- The asserts hold of a block that is taken. -/
theorem Taken.mallocOk {k' : Finset Nat} (h : Taken s k t k' b size) (hb : b ∈ k) :
    t.MallocOk b size := by
  have hB := h.blocks
  have hbk := h.sub hb
  have h1 := hB.leads.le _ (hB.next_mem hbk)
  have h2 := hB.align b hbk
  have h3 := hB.ptr
  have h₄ := h.room
  unfold MallocOk sizeofStructMem
  omega

/-- `rt_malloc` from the loop on returns the block that the loop found. -/
theorem mallocEnd_isSome (hI : Inv s k) (hb : b ∈ k) (hu : s.get .used b = 0)
    (hs : n ≤ s.get .next b - (b + 12)) (h4 : 4 ∣ n) :
    ∃ t, (s.take b n).mallocEnd b n = some (t, s.heapPtr + b + 12) := by
  obtain ⟨k', hT, -, hl⟩ := take_spec hI hb hu hs h4
  have hlow : (s.take b n).lfree ∈ k' := hl ▸ hT.sub hI.low.mem
  have hq : ∃ q, (if b = (s.take b n).lfree then
      (s.take b n).nextFree (s.take b n).fuel (s.take b n).lfree else
      some (s.take b n).lfree) = some q := by
    split
    · refine nextFree_isSome hT.blocks hlow ?_
      rw [hT.blocks.size]
      unfold fuel
      omega
    · exact ⟨_, rfl⟩
  obtain ⟨q, hq⟩ := hq
  refine ⟨{ s.take b n with lfree := q }, ?_⟩
  unfold mallocEnd
  rw [hq]
  simp only
  rw [if_pos (hT.mallocOk hb), hT.took.ptr]
  rfl

/-- `rt_malloc` of a size that is not 0 and not too large. -/
theorem rtMalloc_eq (h0 : size ≠ 0) (hs : rtAlign size ≤ s.memSizeAligned) :
    s.rtMalloc size = s.mallocLoop (needed size) := by
  unfold rtMalloc
  rw [if_neg h0, if_neg (by omega)]
  congr 1
  unfold needed
  split
  · rename_i h
    exact (Nat.max_eq_right (Nat.le_of_lt h)).symm
  · rename_i h
    exact (Nat.max_eq_left (Nat.le_of_not_lt h)).symm

theorem needed_pos (size : Nat) : 0 < needed size :=
  Nat.lt_of_lt_of_le (by decide) (Nat.le_max_right (rtAlign size) minSizeAligned)

/-- What `rt_malloc` can serve, it serves. -/
theorem rtMalloc_of_serves (hI : Inv s k) (h : s.Serves size) :
    ∃ t p, s.rtMalloc size = some (t, p) ∧ p ≠ 0 := by
  obtain ⟨h0, hs, b, hfit, hlt⟩ := h
  have hB := hI.blocks
  have hb := hB.inList.mp hfit.inList
  have hroom : needed size ≤ s.get .next b - (b + 12) := hfit.room
  have hlow := hI.low.le b hb hfit.unused
  have hsub : sub32 s.memSizeAligned (needed size) = s.memSizeAligned - needed size :=
    sub32_of_le (by omega)
  have hfuel : s.heapEnd < s.lfree + 12 * s.fuel := by
    rw [hB.size]
    unfold fuel
    omega
  obtain ⟨c, hc⟩ := findFit_isSome hB hb hfit.unused hroom (by omega) hI.low.mem hlow hfuel
  obtain ⟨hck, hcu, hcs⟩ := findFit_spec hB hI.low.mem hc
  obtain ⟨t, ht⟩ := mallocEnd_isSome hI hck hcu hcs (four_dvd_needed size)
  refine ⟨t, _, ?_, show s.heapPtr + c + 12 ≠ 0 by omega⟩
  rw [rtMalloc_eq h0 hs]
  unfold mallocLoop
  rw [hc]
  exact ht

/-- `rt_malloc` returns an area if and only if its loop comes to a block that fits. -/
theorem rtMalloc_served_iff (hI : Inv s k) :
    (∃ t p, s.rtMalloc size = some (t, p) ∧ p ≠ 0) ↔ s.Serves size := by
  refine ⟨?_, rtMalloc_of_serves hI⟩
  rintro ⟨t, p, h, hp⟩
  have hB := hI.blocks
  have h0 : size ≠ 0 := by
    rintro rfl
    exact hp (Sys.rtMalloc_zero h)
  have hs : rtAlign size ≤ s.memSizeAligned := by
    by_contra hgt
    unfold rtMalloc at h
    rw [if_neg h0, if_pos (by omega)] at h
    exact hp (Prod.mk.inj (Option.some.inj h)).2.symm
  refine ⟨h0, hs, ?_⟩
  rw [rtMalloc_eq h0 hs] at h
  unfold mallocLoop at h
  split at h
  · cases h
  · exact absurd (Prod.mk.inj (Option.some.inj h)).2.symm hp
  · rename_i b hb
    obtain ⟨hbk, hbu, hbs⟩ := findFit_spec hB hI.low.mem hb
    have hfit : s.Fits (needed size) b := ⟨hB.inList.mpr hbk, hbu, hbs⟩
    have hle := hB.fits_le hfit (needed_pos size)
    have hlt := findFit_lt hb
    rw [sub32_of_le (by omega)] at hlt
    exact ⟨b, hfit, by omega⟩

/-- `rt_malloc` returns `NULL` if no block before the last place fits. -/
theorem rtMalloc_null (hI : Inv s k) (hs : needed size ≤ s.memSizeAligned)
    (h : ¬ s.Serves size) : s.rtMalloc size = some (s, 0) := by
  have hB := hI.blocks
  have hle : rtAlign size ≤ s.memSizeAligned := (Nat.le_max_left _ _).trans hs
  by_cases h0 : size = 0
  · unfold rtMalloc
    rw [if_pos h0]
  · rw [rtMalloc_eq h0 hle]
    unfold mallocLoop
    have hno : ∀ b ∈ k, s.get .used b = 0 → needed size ≤ s.get .next b - (b + 12) →
        s.memSizeAligned ≤ b + needed size := fun b hb hu hn => by
      by_contra hlt
      exact h ⟨h0, hle, b, ⟨hB.inList.mpr hb, hu, hn⟩, by omega⟩
    have hfuel : s.heapEnd < s.lfree + 12 * s.fuel := by
      rw [hB.size]
      unfold fuel
      omega
    rw [findFit_eq_none hB hs hno hI.low.mem hfuel]

end Heap

open Heap Lts Sys

variable {s : Heap}

/-! ## `NULL` without a reason -/

/-- `rt_malloc` is complete if and only if a block that fits begins before the last place where one
can begin, or none fits at all. -/
theorem malloc_complete_iff {m : Bytes.Memory} {beginAddr endAddr : Nat} (he : endAddr < 2 ^ 32)
    (hi : rtSystemHeapInit m beginAddr endAddr = some s) {as : List Act}
    (ha : ∀ a ∈ as, SizeOk a) {x : Sys} (hx : exec step ⟨s, []⟩ as = some x) {size : Nat}
    (h0 : 0 < size) (hs : size ≤ x.heap.memSizeAligned) :
    ((∃ t, x.heap.rtMalloc size = some (t, 0)) → ∀ b, ¬ x.heap.Fits (needed size) b) ↔
      (∃ b, x.heap.Fits (needed size) b ∧ b + needed size < x.heap.memSizeAligned) ∨
        ∀ b, ¬ x.heap.Fits (needed size) b := by
  obtain ⟨k, hI, -⟩ := exec_inv he hi ha hx
  have hB := hI.blocks
  have hle : rtAlign size ≤ x.heap.memSizeAligned := by
    have h1 := hB.four_dvd_size
    have h2 := hB.size
    have h3 := hB.bound
    unfold rtAlign
    omega
  constructor
  · intro h
    by_contra hcon
    obtain ⟨hno, hfit⟩ := not_or.mp hcon
    -- a block fits, at the last place alone: the search misses it
    obtain ⟨b, hb⟩ := not_forall_not.mp hfit
    have hroom := hB.fits_le hb (needed_pos size)
    exact hfit (h ⟨x.heap, rtMalloc_null hI (by omega) fun hS => hno hS.2.2⟩)
  · rintro (hfit | hno) ⟨t, ht⟩
    · obtain ⟨t', p, h, hp⟩ := rtMalloc_of_serves hI ⟨h0.ne', hle, hfit⟩
      rw [ht] at h
      exact absurd (Prod.mk.inj (Option.some.inj h)).2.symm hp
    · exact hno

theorem malloc_complete_sample : ∃ s x, rtSystemHeapInit (fun _ => 0) 0x1001 0x1103 = some s ∧
    exec step ⟨s, []⟩ sample = some x ∧
    (((∃ t, x.heap.rtMalloc 200 = some (t, 0)) → ∀ b, ¬ x.heap.Fits (needed 200) b) ↔
      (∃ b, x.heap.Fits (needed 200) b ∧ b + needed 200 < x.heap.memSizeAligned) ∨
        ∀ b, ¬ x.heap.Fits (needed 200) b) := by
  have hi : (rtSystemHeapInit (fun _ => 0) 0x1001 0x1103).isSome = true := by decide +kernel
  obtain ⟨s, hs⟩ := Option.isSome_iff_exists.mp hi
  have hrun : ((rtSystemHeapInit (fun _ => 0) 0x1001 0x1103).bind fun s =>
      exec step ⟨s, []⟩ sample).map (fun x => x.heap.memSizeAligned) = some 228 := by
    decide +kernel
  rw [hs, Option.bind_some] at hrun
  obtain ⟨x, hx, hM⟩ := Option.map_eq_some_iff.mp hrun
  exact ⟨s, x, hs, hx, malloc_complete_iff (by decide) hs (by decide) hx (by decide) (by omega)⟩

/-- All of a fresh heap is one unused block, and `rt_malloc` of its length returns `NULL`. -/
theorem malloc_misses_last : ¬ ∀ (m : Bytes.Memory) (beginAddr endAddr : Nat) (s : Heap),
    endAddr < 2 ^ 32 → rtSystemHeapInit m beginAddr endAddr = some s →
    ∀ (as : List Act) (x : Sys), exec step ⟨s, []⟩ as = some x →
    ∀ size, 0 < size → size ≤ x.heap.memSizeAligned →
    (∃ t, x.heap.rtMalloc size = some (t, 0)) → ∀ b, ¬ x.heap.Fits (needed size) b := by
  intro h
  have hrun : (rtSystemHeapInit (fun _ => 0) 0x1000 0x1040).map (fun s =>
      (s.memSizeAligned, s.get .used 0, s.userSize 0, (s.rtMalloc 40).map Prod.snd)) =
      some (40, 0, 40, some 0) := by decide +kernel
  obtain ⟨s, hs, hobs⟩ := Option.map_eq_some_iff.mp hrun
  simp only [Prod.mk.injEq] at hobs
  obtain ⟨hM, hu, hsize, hnull⟩ := hobs
  obtain ⟨⟨t, p⟩, ht, hp⟩ := Option.map_eq_some_iff.mp hnull
  have hp0 : p = 0 := hp
  have hroom : needed 40 ≤ s.userSize 0 := by
    rw [hsize]
    decide
  refine h _ _ _ s (by decide) hs [] ⟨s, []⟩ rfl 40 (by decide) ?_ ⟨t, hp0 ▸ ht⟩ 0
    ⟨⟨0, rfl⟩, hu, hroom⟩
  show 40 ≤ s.memSizeAligned
  omega

/-! ## The size that is asked for -/

/-- `p` is the area of a used block. -/
def Heap.Live (s : Heap) (p : Nat) : Prop :=
  ∃ b, s.InList b ∧ s.get .used b ≠ 0 ∧ 0 < s.userSize b ∧ p = s.heapPtr + b + sizeofStructMem

/-- The bytes of the area `p`. -/
def Heap.areaSize (s : Heap) (p : Nat) : Nat := s.userSize (p - sizeofStructMem - s.heapPtr)

theorem Heap.areaSize_eq {b p : Nat} (h : p = s.heapPtr + b + 12) :
    s.areaSize p = s.get .next b - (b + 12) := by
  have hb : p - sizeofStructMem - s.heapPtr = b := by
    unfold sizeofStructMem
    omega
  unfold areaSize userSize
  rw [hb]
  rfl

/-- A call that allocates. -/
inductive Request where
  | malloc (size : Nat)
  | calloc (count size : Nat)
  | realloc (p newsize : Nat)

namespace Request

def run (s : Heap) : Request → Option (Heap × Nat)
  | malloc size => s.rtMalloc size
  | calloc count size => s.rtCalloc count size
  | realloc p newsize => s.rtRealloc p newsize

/-- The bytes that the caller asks for. -/
def bytes : Request → Nat
  | malloc size => size
  | calloc count size => count * size
  | realloc _ newsize => newsize

/-- The arguments are of the type `rt_size_t`; only `NULL` and live areas are reallocated. -/
def Ok (s : Heap) : Request → Prop
  | malloc size => size < 2 ^ 32
  | calloc count size => count < 2 ^ 32 ∧ size < 2 ^ 32
  | realloc p newsize => (p = 0 ∨ s.Live p) ∧ newsize < 2 ^ 32

/-- The bytes wrap around on their way to the loop of `rt_malloc`. `rt_realloc` takes what it
rounds to 0 for a call of `rt_free`. -/
def Wraps : Request → Prop
  | malloc size => 2 ^ 32 - 4 < size
  | calloc count size => 2 ^ 32 - 4 < count * size
  | realloc _ _ => False

/-- The area that is returned has the bytes that were asked for. -/
def Covered (s : Heap) (r : Request) : Prop :=
  ∀ t q, r.run s = some (t, q) → q ≠ 0 → r.bytes ≤ t.areaSize q

end Request

namespace Heap

variable {t : Heap} {k : Finset Nat} {n p q : Nat}

theorem areaSize_le {x : Nat} (hB : Blocks s x k) {b : Nat} (hb : b ∈ k)
    (hp : p = s.heapPtr + b + 12) : s.areaSize p < 2 ^ 32 - 24 := by
  have h1 := hB.leads.le _ (hB.next_mem hb)
  have h2 := hB.bound
  rw [areaSize_eq hp]
  omega

/-- An area that `rt_malloc` returns. -/
theorem rtMalloc_area (hI : Inv s k) (h : s.rtMalloc n = some (t, q)) (hq : q ≠ 0) :
    rtAlign n ≤ t.areaSize q ∧ t.areaSize q < 2 ^ 32 - 24 := by
  rcases rtMalloc_spec hI h with ⟨h0, -⟩ | ⟨k', b, hI', hT, hp, hr⟩
  · exact absurd h0 hq
  · have hb : b ∈ k' := (mem_usedBlocks.mp (hT.used.symm ▸ Finset.mem_insert_self _ _)).1
    refine ⟨?_, areaSize_le hI'.blocks hb hp⟩
    rw [areaSize_eq hp]
    omega

/-- The zeros of `rt_calloc` are in the area that it returns. -/
theorem rtCalloc_area (hI : Inv s k) {count size : Nat}
    (h : s.rtCalloc count size = some (t, q)) (hq : q ≠ 0) :
    ∃ u, s.rtMalloc (count * size % 2 ^ 32) = some (u, q) ∧ t.areaSize q = u.areaSize q := by
  unfold rtCalloc at h
  obtain ⟨⟨u, r⟩, hm, hr⟩ := Option.map_eq_some_iff.mp h
  have hqr : q = r := by
    split at hr
    · exact (Prod.mk.inj hr).2.symm
    · exact (Prod.mk.inj hr).2.symm
  subst hqr
  refine ⟨u, hm, ?_⟩
  rw [if_neg hq] at hr
  obtain ⟨rfl, -⟩ := Prod.mk.inj hr
  rcases rtMalloc_spec hI hm with ⟨h0, -⟩ | ⟨k', b, hI', hT, hp, -⟩
  · exact absurd h0 hq
  · -- the header is before the area
    have hnext : ∀ v : Heap, v.heapPtr = u.heapPtr → v.get .next b = u.get .next b →
        v.areaSize q = u.areaSize q := fun v hv hn => by
      rw [areaSize_eq hp, areaSize_eq (hv.symm ▸ hp), hn]
    refine hnext _ rfl (Bytes.Layout.load_congr fun a h1 h2 => if_neg ?_)
    have hlt : a < u.heapPtr + b + 12 := h2
    omega

/-- `rt_realloc` never returns an area that is too short. -/
theorem rtRealloc_area (hI : Inv s k) (hp : p = 0 ∨ s.Live p) (hn : n < 2 ^ 32)
    (h : s.rtRealloc p n = some (t, q)) (hq : q ≠ 0) : n ≤ t.areaSize q := by
  -- what is not rounded to 0 does not wrap around
  have hle : rtAlign n ≠ 0 → n ≤ rtAlign n := by
    unfold rtAlign
    omega
  rcases hp with rfl | ⟨b, hb, hu, hroom, hp⟩
  · simp only [rtRealloc] at h
    split at h
    · exact absurd (Prod.mk.inj (Option.some.inj h)).2.symm hq
    · split at h
      · obtain ⟨u, -, hu⟩ := Option.map_eq_some_iff.mp h
        exact absurd (Prod.mk.inj hu).2.symm hq
      · rename_i hz
        rw [if_pos trivial] at h
        have hsize := (rtMalloc_area hI h hq).1
        rw [rtAlign_rtAlign] at hsize
        exact (hle hz).trans hsize
  · have hbk := hI.blocks.inList.mp hb
    have hbu : b ∈ s.usedBlocks k := mem_usedBlocks.mpr ⟨hbk, hu⟩
    have hgap : b + 12 < s.get .next b := Nat.lt_of_sub_pos hroom
    rcases rtRealloc_spec hI hbu hgap hp h with ⟨h0, -⟩ | ⟨h0, -⟩ | ⟨hqp, hz, k', -, hR⟩ |
      ⟨-, hz, k', b', -, hM, hq'⟩
    · exact absurd h0 hq
    · exact absurd h0 hq
    · have hr := hR.room
      have hqb : q = t.heapPtr + b + 12 := by
        rw [hqp, hR.ptr]
        exact hp
      have := hle hz
      rw [areaSize_eq hqb]
      omega
    · have hr := hM.room
      have := hle hz
      rw [areaSize_eq hq']
      omega

end Heap

/-- The zeros of a product that wraps around go into an area that is too short. -/
theorem calloc_not_covered {k : Finset Nat} (hI : Heap.Inv s k) {count size : Nat}
    (hw : 2 ^ 32 - 4 < count * size) (hS : s.Serves (count * size % 2 ^ 32)) :
    ¬ (Request.calloc count size).Covered s := by
  intro hC
  obtain ⟨u, q, hm, hq⟩ := rtMalloc_of_serves hI hS
  have hc : s.rtCalloc count size =
      some ({ u with mem := Bytes.fill u.mem q (count * size % 2 ^ 32) 0 }, q) := by
    unfold rtCalloc
    simp only [hm, Option.map_some]
    rw [if_neg hq]
  have h1 : count * size ≤ _ := hC _ q hc hq
  obtain ⟨u', hu, ha⟩ := rtCalloc_area hI hc hq
  have h2 := (rtMalloc_area hI hu hq).2
  omega

/-- A call returns too few bytes if and only if its size wraps around and what is left of it can be
served. -/
theorem request_covered_iff {k : Finset Nat} (hI : Heap.Inv s k) {r : Request} (hr : r.Ok s) :
    r.Covered s ↔ (r.Wraps → ¬ s.Serves (r.bytes % 2 ^ 32)) := by
  cases r with
  | malloc size =>
    have hmod : size % 2 ^ 32 = size := Nat.mod_eq_of_lt hr
    constructor
    · intro hC (hw : 2 ^ 32 - 4 < size) hS
      obtain ⟨t, q, h, hq⟩ := rtMalloc_of_serves hI (hmod ▸ hS)
      have h1 : size ≤ t.areaSize q := hC t q h hq
      have h2 := (rtMalloc_area hI h hq).2
      omega
    · intro hw t q h hq
      have hle : ¬ 2 ^ 32 - 4 < size := fun hlt =>
        hw hlt (hmod.symm ▸ (rtMalloc_served_iff hI).mp ⟨t, q, h, hq⟩)
      exact (rtAlign_spec (Nat.le_of_not_lt hle)).2.1.trans (rtMalloc_area hI h hq).1
  | calloc count size =>
    constructor
    · exact fun hC hw hS => calloc_not_covered hI hw hS hC
    · intro hw t q h hq
      obtain ⟨u, hu, ha⟩ := rtCalloc_area hI h hq
      have hle : ¬ 2 ^ 32 - 4 < count * size := fun hlt =>
        hw hlt ((rtMalloc_served_iff hI).mp ⟨u, q, hu, hq⟩)
      have hmod : count * size % 2 ^ 32 = count * size := Nat.mod_eq_of_lt (by omega)
      rw [hmod] at hu
      show count * size ≤ _
      rw [ha]
      exact (rtAlign_spec (Nat.le_of_not_lt hle)).2.1.trans (rtMalloc_area hI hu hq).1
  | realloc p newsize => exact ⟨fun _ h => h.elim, fun _ t q h hq => rtRealloc_area hI hr.1 hr.2 h hq⟩

/-- A product that wraps around to 4 bytes. -/
theorem request_covered_sample : ∃ (s : Heap) (k : Finset Nat), Heap.Inv s k ∧
    ((Request.calloc 0x40000001 4).Covered s ↔
      ((Request.calloc 0x40000001 4).Wraps →
        ¬ s.Serves ((Request.calloc 0x40000001 4).bytes % 2 ^ 32))) := by
  have hi : (rtSystemHeapInit (fun _ => 0) 0x1000 0x2000).isSome = true := by decide +kernel
  obtain ⟨s, hs⟩ := Option.isSome_iff_exists.mp hi
  obtain ⟨k, hI, -⟩ := inv_init (by decide) hs
  exact ⟨s, k, hI, request_covered_iff hI (by constructor <;> decide)⟩

/-- `rt_calloc(0x40000001, 4)` asks for 2^32 + 4 bytes and gets 12. -/
theorem calloc_wraps : ¬ ∀ (s : Heap) (k : Finset Nat), Heap.Inv s k →
    ∀ r : Request, r.Ok s → r.Covered s := by
  intro h
  have hrun : (rtSystemHeapInit (fun _ => 0) 0x1000 0x2000).map (fun s =>
      (s.memSizeAligned, s.get .used 0, s.userSize 0)) = some (0xfe8, 0, 0xfe8) := by
    decide +kernel
  obtain ⟨s, hs, hobs⟩ := Option.map_eq_some_iff.mp hrun
  simp only [Prod.mk.injEq] at hobs
  obtain ⟨hM, hu, hsize⟩ := hobs
  obtain ⟨k, hI, -⟩ := inv_init (by decide) hs
  have hOk : (Request.calloc 0x40000001 4).Ok s := by constructor <;> decide
  refine calloc_not_covered hI (by decide) ⟨by decide, ?_, 0, ?_, ?_⟩ (h s k hI _ hOk)
  · rw [hM]
    decide
  · exact ⟨⟨0, rfl⟩, hu, by rw [hsize]; decide⟩
  · rw [hM]
    decide

end Tudu.Mem
