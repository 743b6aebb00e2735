import TuduOS.Finsh.HeapTiling
import TuduOS.Lib.Lts

/-!
# Runs of the shell's heap

* `finshHeapAllocate_inv`: an allocation, with the collection if nothing fits.
* `heap_intact`: every run of allocations and frees.
-/

namespace Tudu.Finsh

open Blocks Chain Lts

variable {l : List Nat}

/-! ## The calls -/

section Calls

variable {h : FinshHeap} {used : Nat → Bool} {b size : Nat}

/-- `h'` is `h` with the new block `b` of the length `size` in use, and a free block behind it. -/
structure HandsOut (h : FinshHeap) (A : List Nat) (b size : Nat) (h' : FinshHeap) (A' : List Nat) :
    Prop where
  mem : ∀ c, c ∈ A' ↔ c = b ∨ c ∈ A
  new : b ∉ A
  length : h'.length b = size
  keep : ∀ c ∈ A, h'.length c = h.length c
  behind : b + headerSize + size ∉ A'

/-- A block that fits is taken. -/
theorem takeBlock_handsOut (hi : HeapInv h l used) (hbl : b ∈ l) (hb : used b = false)
    (hfit : size + headerSize ≤ h.length b) :
    ∃ h' l' used', takeBlock h b size = some h' ∧ HeapInv h' l' used' ∧
      HandsOut h (l.filter used) b size h' (l'.filter used') := by
  obtain ⟨l1, l2, rfl⟩ := List.append_of_mem hbl
  obtain ⟨h', htake, hi', hlen, hkeep⟩ := takeBlock_inv hi hb hfit rfl
  refine ⟨h', _, _, htake, hi', ?_⟩
  have hbn : b ≠ b + headerSize + size := by
    have hhead : headerSize = 8 := rfl
    omega
  have hmem : ∀ c ∈ l1 ++ l2, Function.update (Function.update used (b + headerSize + size) false)
      b true c = used c := by
    intro c hc
    rw [Function.update_of_ne (hkeep c hc).1, Function.update_of_ne (hkeep c hc).2.1]
  rw [filter_mid_neg l1 l2 hb, ← List.filter_append,
    filter_mid l1 (_ :: l2) (Function.update_self ..),
    List.filter_cons_of_neg (by
      rw [Function.update_of_ne hbn.symm, Function.update_self]
      exact Bool.false_ne_true),
    List.filter_congr fun c hc => hmem c (List.mem_append_left _ hc),
    List.filter_congr fun c hc => hmem c (List.mem_append_right _ hc)]
  constructor
  · intro c
    simp only [List.filter_append, List.mem_append, List.mem_cons]
    tauto
  · intro hm
    exact (hkeep b (List.mem_filter.mp hm).1).1 rfl
  · exact hlen
  · intro c hc
    exact (hkeep c (List.mem_filter.mp hc).1).2.2
  · rw [List.mem_append, List.mem_cons]
    rintro (hm | hm | hm)
    · exact (hkeep _ (List.mem_append_left _ (List.mem_filter.mp hm).1)).2.1 rfl
    · exact hbn hm.symm
    · exact (hkeep _ (List.mem_append_right _ (List.mem_filter.mp hm).1)).2.1 rfl

theorem heapAlignSize_spec (hs : size < 2147483648) :
    size ≤ heapAlignSize size ∧
      (heapAlignSize size + headerSize) % 4294967296 = heapAlignSize size + headerSize := by
  have hhead : headerSize = 8 := rfl
  unfold heapAlignSize
  omega

/-- A block that the first search of `finsh_heap_allocate` finds. -/
def Fits (h : FinshHeap) (F : List Nat) (size : Nat) : Prop :=
  ∃ b ∈ F, heapAlignSize size + headerSize < h.length b

/-- An allocation: the collector runs if nothing fits, and then it may be that `NULL` is returned. -/
theorem finshHeapAllocate_inv (inVar : Nat → Bool) (hi : HeapInv h l used)
    (hs : size < 2147483648) :
    ∃ r h' l' used' A, finshHeapAllocate h size inVar = some (r, h') ∧ HeapInv h' l' used' ∧
      (Fits h (l.filter fun c => !used c) size ∧ A = l.filter used ∧ r ≠ none ∨
        ¬ Fits h (l.filter fun c => !used c) size ∧
          A = (l.filter used).filter fun b => inVar (b + headerSize)) ∧
      ((∃ b, r = some (b + headerSize) ∧
          HandsOut h A b (heapAlignSize size) h' (l'.filter used')) ∨
        r = none ∧ l'.filter used' = A ∧ (∀ c ∈ A, h'.length c = h.length c) ∧
          ∀ c ∈ l', used' c = false → h'.length c < heapAlignSize size + headerSize) := by
  obtain ⟨-, hneed⟩ := heapAlignSize_spec hs
  simp only [finshHeapAllocate, hneed, findFit_eq hi.free (hi.filter_length_lt _),
    Option.bind_eq_bind, Option.bind_some]
  cases hfind : (l.filter fun c => !used c).find?
      fun b => !decide (h.length b ≤ heapAlignSize size + headerSize) with
  | some b =>
    have hfit := List.find?_some hfind
    have hmem := List.mem_of_find?_eq_some hfind
    obtain ⟨hbl, hb⟩ := List.mem_filter.mp hmem
    have hb' : used b = false := by simpa using hb
    have hlt : heapAlignSize size + headerSize < h.length b := by simpa using hfit
    obtain ⟨h', l', used', htake, hi', hout⟩ :=
      takeBlock_handsOut hi hbl hb' (Nat.le_of_lt hlt)
    refine ⟨some (b + headerSize), h', l', used', _, by simp [htake], hi', ?_, Or.inl ⟨b, rfl, hout⟩⟩
    exact Or.inl ⟨⟨b, hmem, hlt⟩, rfl, by simp⟩
  | none =>
    have hnofit : ¬ Fits h (l.filter fun c => !used c) size := by
      rintro ⟨b, hb, hlt⟩
      have hno := List.find?_eq_none.mp hfind b hb
      simp only [Bool.not_eq_true', decide_eq_false_iff_not, not_not] at hno
      omega
    obtain ⟨h1, l1, used₁, hgc, hi1, hA₁, hlen₁⟩ := finshHeapGc_inv inVar hi
    simp only [hgc, Option.bind_some]
    rw [findFit_eq hi1.free (hi1.filter_length_lt _)]
    cases hfind₁ : (l1.filter fun c => !used₁ c).find?
        fun b => !decide (h1.length b < heapAlignSize size + headerSize) with
    | some b =>
      have hfit := List.find?_some hfind₁
      obtain ⟨hbl, hb⟩ := List.mem_filter.mp (List.mem_of_find?_eq_some hfind₁)
      have hb' : used₁ b = false := by simpa using hb
      have hle : heapAlignSize size + headerSize ≤ h1.length b := by simpa using hfit
      obtain ⟨h', l', used', htake, hi', hout⟩ := takeBlock_handsOut hi1 hbl hb' hle
      refine ⟨some (b + headerSize), h', l', used', _, by simp [htake], hi',
        Or.inr ⟨hnofit, hA₁⟩, Or.inl ⟨b, rfl, hout.mem, hout.new, hout.length, fun c hc => ?_,
          hout.behind⟩⟩
      rw [hout.keep c hc, hlen₁ c hc]
    | none =>
      refine ⟨none, h1, l1, used₁, _, rfl, hi1, Or.inr ⟨hnofit, hA₁⟩,
        Or.inr ⟨rfl, rfl, hlen₁, fun c hc hu => ?_⟩⟩
      have hno := List.find?_eq_none.mp hfind₁ c (List.mem_filter.mpr ⟨hc, by rw [hu]; rfl⟩)
      simpa using hno

end Calls

/-! ## Runs -/

/-- The heap is as it should be: `F` are the free blocks, and `A` those in use. -/
structure Intact (h : FinshHeap) (F A : List Nat) : Prop where
  free : IsChain h.next h.freeList F
  alloc : IsChain h.next h.allocateList A
  disjoint : F.Disjoint A
  tiles : ∃ l, l.Perm (F ++ A) ∧ Tiles (blockSize h.length) 0 l finshHeapMax
  sorted : F.Pairwise (· < ·)
  apart : ∀ b ∈ F, b + blockSize h.length b ∉ F

theorem HeapInv.intact {h : FinshHeap} {used : Nat → Bool} (hi : HeapInv h l used) :
    Intact h (l.filter fun c => !used c) (l.filter used) where
  free := hi.free
  alloc := hi.alloc
  disjoint := by
    intro b hF hA
    have hu := (List.mem_filter.mp hF).2
    rw [(List.mem_filter.mp hA).2] at hu
    cases hu
  tiles := ⟨l, (List.perm_append_comm.trans (List.filter_append_perm used l)).symm, hi.tiles⟩
  sorted := (hi.tiles.sorted (blockSize_pos _)).filter _
  apart := by
    intro b hb he
    obtain ⟨hbl, hub⟩ := List.mem_filter.mp hb
    obtain ⟨hel, hue⟩ := List.mem_filter.mp he
    rcases hi.apart b hbl hel with hu | hu
    · rw [hu] at hub
      cases hub
    · rw [hu] at hue
      cases hue

/-- Where nothing is in use, the heap is one block. -/
theorem HeapInv.initial {h : FinshHeap} {used : Nat → Bool} (hi : HeapInv h l used)
    (hA : l.filter used = []) :
    (l.filter fun c => !used c) = [0] ∧ h.length 0 = finshHeapMax - headerSize := by
  have hfree : ∀ c ∈ l, used c = false := by
    intro c hc
    have hc' := List.filter_eq_nil_iff.mp hA c hc
    simpa using hc'
  rw [List.filter_eq_self.mpr fun c hc => by rw [hfree c hc]; rfl]
  have ht := hi.tiles
  cases l with
  | nil =>
    have hzero : 0 = finshHeapMax := ht
    exact absurd hzero (by decide)
  | cons b l =>
    obtain ⟨rfl, hl⟩ := ht
    cases l with
    | nil =>
      have hend : 0 + blockSize h.length 0 = finshHeapMax := hl
      rw [blockSize] at hend
      exact ⟨rfl, by omega⟩
    | cons c l =>
      -- the first two would be neighbours
      have hc : c = 0 + blockSize h.length 0 := hl.1
      have hap := hi.apart 0 List.mem_cons_self
        (by rw [← hc]; exact List.mem_cons_of_mem _ List.mem_cons_self)
      rw [← hc, hfree 0 List.mem_cons_self,
        hfree c (List.mem_cons_of_mem _ List.mem_cons_self)] at hap
      rcases hap with hap | hap <;> cases hap

/-- Sizes are below 2^31, and only what is in the allocate list is freed. -/
def Allowed (s : HeapRun) : HeapAct → Prop
  | .allocate size _ => size < 2147483648
  | .free ptr => ∃ A, IsChain s.heap.next s.heap.allocateList A ∧ ∃ b ∈ A, ptr = b + headerSize

/-- The blocks, and none is shorter than what was asked for. -/
def RunInv (s : HeapRun) : Prop :=
  ∃ l used, HeapInv s.heap l used ∧ ∀ b ∈ l.filter used, s.asked b ≤ s.heap.length b

/-- A free takes just its block off the allocate list. -/
theorem HeapInv.freeOne {s : HeapRun} {used : Nat → Bool} {A₁ A₂ : List Nat} {b : Nat}
    (hi : HeapInv s.heap l used) (hA : l.filter used = A₁ ++ b :: A₂) :
    ∃ h' l' used', heapStep s (.free (b + headerSize)) = some { s with heap := h' } ∧
      HeapInv h' l' used' ∧ l'.filter used' = A₁ ++ A₂ ∧
      ∀ c ∈ A₁ ++ A₂, h'.length c = s.heap.length c := by
  obtain ⟨l1, l2, rfl, hb, rfl, rfl⟩ := hi.exists_mid hA
  obtain ⟨h', l', hfree, hi', hfilter, hlen⟩ := finshHeapFree_inv hi hb
  refine ⟨h', l', _, ?_, hi', hfilter, hlen⟩
  simp only [heapStep, hfree, Option.map_some]

/-- When all blocks in use are freed, in whatever order, the one free block is back. -/
theorem HeapInv.freeAll {s : HeapRun} {used : Nat → Bool} {bs : List Nat}
    (hi : HeapInv s.heap l used) (hbs : bs.Perm (l.filter used)) :
    ∃ s', exec heapStep s (bs.map fun b => .free (b + headerSize)) = some s' ∧
      Intact s'.heap [0] [] ∧ s'.heap.length 0 = finshHeapInit.length 0 := by
  induction bs generalizing s l used with
  | nil =>
    have hA := hbs.symm.eq_nil
    obtain ⟨hF, hlen⟩ := hi.initial hA
    refine ⟨s, rfl, ?_, hlen⟩
    have hint := hi.intact
    rwa [hF, hA] at hint
  | cons b bs ih =>
    obtain ⟨A₁, A₂, hA⟩ := List.append_of_mem (hbs.subset List.mem_cons_self)
    obtain ⟨h', l', used', hstep, hi', hA', -⟩ := hi.freeOne hA
    rw [hA] at hbs
    have hperm : bs.Perm (l'.filter used') := hA' ▸ (hbs.trans List.perm_middle).cons_inv
    obtain ⟨s', hs', hback⟩ := ih (s := { s with heap := h' }) hi' hperm
    exact ⟨s', by rw [List.map_cons, exec_cons hstep, hs'], hback⟩

theorem heapStep_inv {s : HeapRun} {a : HeapAct} (hi : RunInv s) (ha : Allowed s a) :
    ∃ s', heapStep s a = some s' ∧ RunInv s' := by
  obtain ⟨l, used, hi, hasked⟩ := hi
  cases a with
  | allocate size inVar =>
    obtain ⟨r, h', l', used', A, hrun, hi', hA, hout⟩ := finshHeapAllocate_inv inVar hi ha
    have hsub : ∀ c ∈ A, c ∈ l.filter used := by
      rcases hA with ⟨-, rfl, -⟩ | ⟨-, rfl⟩
      · exact fun c hc => hc
      · exact fun c hc => (List.mem_filter.mp hc).1
    rcases hout with ⟨b, rfl, hout⟩ | ⟨rfl, rfl, hlen, -⟩
    · have hstep : heapStep s (.allocate size inVar) =
          some ⟨h', Function.update s.asked b size⟩ := by
        simp only [heapStep, hrun, Nat.add_sub_cancel]
      refine ⟨_, hstep, l', used', hi', fun c hc => ?_⟩
      change Function.update s.asked b size c ≤ h'.length c
      rcases (hout.mem c).mp hc with rfl | hc
      · rw [Function.update_self, hout.length]
        exact (heapAlignSize_spec ha).1
      · have hcb : c ≠ b := by
          rintro rfl
          exact hout.new hc
        rw [Function.update_of_ne hcb, hout.keep c hc]
        exact hasked c (hsub c hc)
    · have hstep : heapStep s (.allocate size inVar) = some { s with heap := h' } := by
        simp only [heapStep, hrun]
      refine ⟨_, hstep, l', used', hi', fun c hc => ?_⟩
      change s.asked c ≤ h'.length c
      rw [hlen c hc]
      exact hasked c (hsub c hc)
  | free ptr =>
    obtain ⟨A, hA, b, hb, rfl⟩ := ha
    obtain ⟨A₁, A₂, rfl⟩ := List.append_of_mem hb
    have hmid := hi.alloc.unique hA
    obtain ⟨h', l', used', hstep, hi', hfilter, hlen⟩ := hi.freeOne hmid
    refine ⟨_, hstep, l', used', hi', fun c hc => ?_⟩
    rw [hfilter] at hc
    change s.asked c ≤ h'.length c
    rw [hlen c hc]
    refine hasked c ?_
    rw [hmid]
    rcases List.mem_append.mp hc with hc | hc
    · exact List.mem_append_left _ hc
    · exact List.mem_append_right _ (List.mem_cons_of_mem _ hc)

theorem exec_runInv {acts : List HeapAct} {s : HeapRun} (hi : RunInv s)
    (hall : Along heapStep Allowed s acts) : ∃ s', exec heapStep s acts = some s' ∧ RunInv s' := by
  induction acts generalizing s with
  | nil => exact ⟨s, rfl, hi⟩
  | cons a acts ih =>
    obtain ⟨s1, hs1, hi1⟩ := heapStep_inv hi hall.1
    obtain ⟨s', hs', hi'⟩ := ih hi1 ((along_cons hs1).mp hall).2
    exact ⟨s', by rw [exec_cons hs1, hs'], hi'⟩

/-- What the next calls do, where `A` are the blocks in use. -/
structure Calls (s : HeapRun) (A : List Nat) : Prop where
  allocate : ∀ size inVar ptr h, size < 2147483648 →
    finshHeapAllocate s.heap size inVar = some (some ptr, h) → ∃ b F' A',
      ptr = b + headerSize ∧ Intact h F' A' ∧ b ∈ A' ∧ size ≤ h.length b ∧
        ∀ c ∈ A', c ≠ b → c ∈ A ∧ h.length c = s.heap.length c
  free : ∀ A₁ b A₂, A = A₁ ++ b :: A₂ → ∃ s' F',
    heapStep s (.free (b + headerSize)) = some s' ∧ Intact s'.heap F' (A₁ ++ A₂) ∧
      ∀ c ∈ A₁ ++ A₂, s'.heap.length c = s.heap.length c
  freeAll : ∀ bs : List Nat, bs.Perm A → ∃ s',
    exec heapStep s (bs.map fun b => .free (b + headerSize)) = some s' ∧
      Intact s'.heap [0] [] ∧ s'.heap.length 0 = finshHeapInit.length 0

theorem HeapInv.calls {s : HeapRun} {used : Nat → Bool} (hi : HeapInv s.heap l used) :
    Calls s (l.filter used) where
  allocate size inVar ptr h hs hrun := by
    obtain ⟨r, h', l', used', A, hrun', hi', hA, hout⟩ := finshHeapAllocate_inv inVar hi hs
    rw [hrun] at hrun'
    obtain ⟨rfl, rfl⟩ := Prod.mk.inj (Option.some.inj hrun')
    obtain ⟨b, hb, hout⟩ := hout.resolve_right fun hnone => by cases hnone.1
    refine ⟨b, _, _, Option.some.inj hb, hi'.intact, (hout.mem b).mpr (.inl rfl), ?_, fun c hc hne => ?_⟩
    · rw [hout.length]
      exact (heapAlignSize_spec hs).1
    · have hcA := ((hout.mem c).mp hc).resolve_left hne
      refine ⟨?_, hout.keep c hcA⟩
      rcases hA with ⟨-, rfl, -⟩ | ⟨-, rfl⟩
      · exact hcA
      · exact (List.mem_filter.mp hcA).1
  free A₁ b A₂ hA := by
    obtain ⟨h', l', used', hstep, hi', hA', hlen⟩ := hi.freeOne hA
    exact ⟨_, _, hstep, hA' ▸ hi'.intact, hlen⟩
  freeAll _ hbs := hi.freeAll hbs

/-- **The heap stays intact.** Every sequence of allocations and of frees of live blocks has a
result. The blocks tile the heap, and the free ones are in order and apart; a block in use has the
length that was asked for; an allocation hands out a block and a free takes just its own back; and
where none is in use, the one free block is back. -/
theorem heap_intact (acts : List HeapAct)
    (hall : Along heapStep Allowed ⟨finshHeapInit, fun _ => 0⟩ acts) :
    ∃ s F A, exec heapStep ⟨finshHeapInit, fun _ => 0⟩ acts = some s ∧ Intact s.heap F A ∧
      (∀ b ∈ A, s.asked b ≤ s.heap.length b) ∧ Calls s A ∧
      (A = [] → F = [0] ∧ s.heap.length 0 = finshHeapInit.length 0) := by
  have hstart : RunInv ⟨finshHeapInit, fun _ => 0⟩ :=
    ⟨[0], fun _ => false, finshHeapInit_inv, fun b hb => by simp at hb⟩
  obtain ⟨s, hs, l, used, hi, hasked⟩ := exec_runInv hstart hall
  exact ⟨s, _, _, hs, hi.intact, hasked, hi.calls, hi.initial⟩

/-- Two strings, and the first one is freed. -/
theorem heap_intact_two :
    ∃ s F A, exec heapStep ⟨finshHeapInit, fun _ => 0⟩
        [.allocate 10 fun _ => false, .allocate 5 fun _ => false, .free 8] = some s ∧
      Intact s.heap F A ∧ (∀ b ∈ A, s.asked b ≤ s.heap.length b) ∧ Calls s A ∧
      (A = [] → F = [0] ∧ s.heap.length 0 = finshHeapInit.length 0) := by
  have hrun : ((exec heapStep ⟨finshHeapInit, fun _ => 0⟩
      [.allocate 10 fun _ => false, .allocate 5 fun _ => false]).map
      fun s => (s.heap.allocateList, s.heap.next 0, s.heap.next 20)) =
      some (some 0, some 20, none) := by decide
  obtain ⟨s2, hs2, hval⟩ := Option.map_eq_some_iff.mp hrun
  simp only [Prod.mk.injEq] at hval
  obtain ⟨s1, h1, hs2⟩ := exec_cons_some hs2
  obtain ⟨s, h2, hs⟩ := exec_cons_some hs2
  cases hs
  refine heap_intact _ ((along_cons h1).mpr ⟨(by decide : 10 < 2147483648), (along_cons h2).mpr
    ⟨(by decide : 5 < 2147483648), ⟨[0, 20], ?_, 0, by decide, rfl⟩, ?_⟩⟩)
  · exact ⟨hval.1, hval.2.1, hval.2.2⟩
  · split <;> trivial

end Tudu.Finsh
