import TuduOS.Finsh.HeapLists
import TuduOS.Lib.Blocks

/-!
# The blocks of the shell's heap tile it

The blocks lie end to end, each one is in one of the two lists, both in the order of the addresses,
and no two free blocks are neighbours (`HeapInv`). The last block is always free: what a split
leaves of it stays in the free list, with a length of 0 if need be. So a block that is freed never
goes to the end of that list, where its old `next` would be left in place.

* `takeBlock_inv`, `finshHeapFree_inv`, `finshHeapGc_inv`: what each operation does with the blocks.
-/

namespace Tudu.Finsh

open Blocks Chain

variable {fuel : Nat} {l : List Nat}

/-! ## The blocks -/

/-- The bytes of a block, with its header. -/
def blockSize (length : Nat → Nat) (b : Nat) : Nat := headerSize + length b

/-- The blocks `l` tile the heap, and those in use are in the allocate list. -/
structure Lists (h : FinshHeap) (l : List Nat) (used : Nat → Bool) : Prop where
  tiles : Tiles (blockSize h.length) 0 l finshHeapMax
  free : IsChain h.next h.freeList (l.filter fun b => !used b)
  alloc : IsChain h.next h.allocateList (l.filter used)
  last : ∀ b ∈ l, b + blockSize h.length b = finshHeapMax → used b = false

/-- No two free blocks are neighbours. -/
def Apart (length : Nat → Nat) (l : List Nat) (used : Nat → Bool) : Prop :=
  ∀ b ∈ l, b + blockSize length b ∈ l → used b = true ∨ used (b + blockSize length b) = true

structure HeapInv (h : FinshHeap) (l : List Nat) (used : Nat → Bool) : Prop extends
    Lists h l used where
  apart : Apart h.length l used

theorem blockSize_pos (length : Nat → Nat) (b : Nat) : 0 < blockSize length b :=
  Nat.lt_of_lt_of_le (by decide) (Nat.le_add_right headerSize _)

namespace Lists

variable {h : FinshHeap} {used : Nat → Bool} {b c : Nat} {l1 l2 : List Nat}

theorem nodup (hi : Lists h l used) : l.Nodup := hi.tiles.nodup (blockSize_pos _)

theorem length_lt (hi : Lists h l used) : l.length < finshHeapMax := by
  have hlen := hi.tiles.length_le (k := headerSize) fun b => Nat.le_add_right _ _
  have hmax : finshHeapMax = 128 := rfl
  have hhead : headerSize = 8 := rfl
  rw [hhead] at hlen
  omega

theorem filter_length_lt (hi : Lists h l used) (f : Nat → Bool) :
    (l.filter f).length < finshHeapMax :=
  Nat.lt_of_le_of_lt (List.length_filter_le f l) hi.length_lt

/-- A free block lies behind each block that is in use. -/
theorem free_behind (hi : Lists h (l1 ++ b :: l2) used) (hb : used b = true) :
    l2.filter (fun c => !used c) ≠ [] := by
  have hl2 : l2 ≠ [] := by
    rintro rfl
    have hend := (tiles_mid.mp hi.tiles).2
    have hfree := hi.last b (List.mem_append_right _ List.mem_cons_self) hend
    rw [hb] at hfree
    cases hfree
  obtain ⟨c, hc, hend⟩ := (tiles_mid.mp hi.tiles).2.exists_last hl2
  have hfree := hi.last c (List.mem_append_right _ (List.mem_cons_of_mem _ hc)) hend
  exact List.ne_nil_of_mem (List.mem_filter.mpr ⟨hc, by rw [hfree]; rfl⟩)

end Lists

/-- The initial heap is one free block. -/
theorem finshHeapInit_inv : HeapInv finshHeapInit [0] fun _ => false where
  tiles := ⟨rfl, rfl⟩
  free := ⟨rfl, rfl⟩
  alloc := rfl
  last := fun _ _ _ => rfl
  apart := by
    intro b hb hmem
    rw [List.mem_singleton] at hb hmem
    subst hb
    exact absurd hmem (by decide)

/-! ## Allocation -/

section Allocation

variable {h : FinshHeap} {used : Nat → Bool} {b n size : Nat} {l1 l2 : List Nat}

/-- The block `b` is split at `n`. -/
theorem split_lists (hi : Lists h (l1 ++ b :: l2) used) (hb : used b = false)
    (hfit : size + headerSize ≤ h.length b) (hn : n = b + headerSize + size) :
    Lists (finshBlockSplit h b size) (l1 ++ b :: n :: l2) (Function.update used n false) ∧
      (finshBlockSplit h b size).length b = size ∧
      n + blockSize (finshBlockSplit h b size).length n = b + blockSize h.length b ∧
      ∀ c ∈ l1 ++ l2, c ≠ b ∧ c ≠ n ∧ (finshBlockSplit h b size).length c = h.length c := by
  have hhead : headerSize = 8 := rfl
  have hpos := blockSize_pos h.length
  have hbn : n ≠ b := by omega
  -- the new block lies inside the old one
  have hold : ∀ c ∈ l1 ++ l2, c ≠ b ∧ c ≠ n := by
    intro c hc
    rcases List.mem_append.mp hc with hc | hc
    · have hlt := (hi.tiles.lt_of_mem hpos hc).2
      omega
    · have hgt := (hi.tiles.gt_of_mem hpos hc).1
      unfold blockSize at hgt
      omega
  have hn1 : n ∉ l1 := fun hm => (hold n (List.mem_append_left _ hm)).2 rfl
  have hn2 : n ∉ l2 := fun hm => (hold n (List.mem_append_right _ hm)).2 rfl
  have hb1 : b ∉ l1 := fun hm => (hold b (List.mem_append_left _ hm)).1 rfl
  have hb2 : b ∉ l2 := fun hm => (hold b (List.mem_append_right _ hm)).1 rfl
  have hlen : (finshBlockSplit h b size).length =
      Function.update (Function.update h.length n (h.length b - headerSize - size)) b size := by
    rw [hn]
    rfl
  have hnext : (finshBlockSplit h b size).next =
      Function.update (Function.update h.next n (h.next b)) b (some n) := by
    rw [hn]
    rfl
  have hlenb : (finshBlockSplit h b size).length b = size := by
    rw [hlen, Function.update_self]
  have hlenn : (finshBlockSplit h b size).length n = h.length b - headerSize - size := by
    rw [hlen, Function.update_of_ne hbn, Function.update_self]
  have hlen' : ∀ c ∈ l1 ++ l2, (finshBlockSplit h b size).length c = h.length c := by
    intro c hc
    rw [hlen, Function.update_of_ne (hold c hc).1, Function.update_of_ne (hold c hc).2]
  -- the tests of the two lists
  have hfree : (fun c => !Function.update used n false c) =
      Function.update (fun c => !used c) n true := by
    funext c
    by_cases hc : c = n
    · rw [hc, Function.update_self, Function.update_self]
      rfl
    · rw [Function.update_of_ne hc, Function.update_of_ne hc]
  have hbfree : Function.update (fun c => !used c) n true b = true := by
    rw [Function.update_of_ne hbn.symm, hb]
    rfl
  have hendn : n + blockSize (finshBlockSplit h b size).length n = b + blockSize h.length b := by
    rw [blockSize, blockSize, hlenn]
    omega
  refine ⟨⟨?_, ?_, ?_, ?_⟩, hlenb, hendn,
    fun c hc => ⟨(hold c hc).1, (hold c hc).2, hlen' c hc⟩⟩
  · refine hi.tiles.split ?_ ?_ fun c hc => ?_
    · rw [blockSize, blockSize, blockSize, hlenb, hlenn]
      omega
    · rw [blockSize, hlenb]
      omega
    · rw [blockSize, blockSize, hlen' c hc]
  · have hold' := hi.free
    rw [filter_mid l1 l2 (by rw [hb]; rfl)] at hold'
    rw [hfree, filter_mid l1 (n :: l2) hbfree,
      List.filter_cons_of_pos (Function.update_self ..), filter_update true hn1,
      filter_update true hn2, hnext]
    refine hold'.insert (fun hm => hb1 (List.mem_filter.mp hm).1)
      (fun hm => hb2 (List.mem_filter.mp hm).1) ?_
    rw [List.mem_append, List.mem_cons]
    rintro (hm | hm | hm)
    · exact hn1 (List.mem_filter.mp hm).1
    · exact hbn hm
    · exact hn2 (List.mem_filter.mp hm).1
  · have hold' := hi.alloc
    rw [filter_mid_neg l1 l2 hb] at hold'
    rw [filter_mid_neg l1 (n :: l2) (by rw [Function.update_of_ne hbn.symm, hb]),
      List.filter_cons_of_neg (by rw [Function.update_self]; exact Bool.false_ne_true),
      filter_update false hn1, filter_update false hn2, hnext]
    refine hold'.congr fun c hc => ?_
    rw [← List.filter_append] at hc
    have hcold := hold c (List.mem_filter.mp hc).1
    rw [Function.update_of_ne hcold.1, Function.update_of_ne hcold.2]
  · intro c hc hend
    by_cases hcn : c = n
    · rw [hcn, Function.update_self]
    · rw [Function.update_of_ne hcn]
      by_cases hcb : c = b
      · rw [hcb, hb]
      · have hcold : c ∈ l1 ++ l2 := by
          simpa [hcb, hcn] using hc
        rw [blockSize, hlen' c hcold] at hend
        refine hi.last c ?_ hend
        simpa [hcb] using hcold

/-- The block `b` goes from the free list to the allocate list. -/
theorem take_lists (hi : Lists h (l1 ++ b :: l2) used) (hb : used b = false)
    (hlast : b + blockSize h.length b ≠ finshHeapMax) :
    ∃ f a, finshBlockRemove h.next h.freeList b = some f ∧
      finshBlockInsert (Function.update f.1 b none) h.allocateList b = some a ∧
      Lists { h with next := a.1, freeList := f.2, allocateList := a.2 } (l1 ++ b :: l2)
        (Function.update used b true) := by
  have hu : (fun c => !(fun c => !used c) c) = used := by
    funext c
    exact Bool.not_not _
  have halloc : IsChain h.next h.allocateList
      ((l1 ++ b :: l2).filter fun c => !(fun c => !used c) c) := by
    rw [hu]
    exact hi.alloc
  obtain ⟨next₁, x, hrem, hins⟩ := move_spec (hi.tiles.sorted (blockSize_pos _)) hi.length_lt
    (by rw [hb]; rfl) hi.free halloc
  obtain ⟨next₃, y, hins, hx, hy⟩ := hins (Function.update next₁ b none)
    (fun c hc => Function.update_of_ne hc ..) fun _ => Function.update_self ..
  have hused : (fun c => !Function.update used b true c) =
      Function.update (fun c => !used c) b false := by
    funext c
    by_cases hc : c = b
    · rw [hc, Function.update_self, Function.update_self]
      rfl
    · rw [Function.update_of_ne hc, Function.update_of_ne hc]
  refine ⟨_, _, hrem, hins, hi.tiles, ?_, ?_, ?_⟩
  · rw [hused]
    exact hx
  · have hused' : Function.update used b true =
        fun c => !Function.update (fun c => !used c) b false c := by
      rw [← hused]
      funext c
      exact (Bool.not_not _).symm
    rw [hused']
    exact hy
  · intro c hc hend
    have hcb : c ≠ b := by
      rintro rfl
      exact hlast hend
    rw [Function.update_of_ne hcb]
    exact hi.last c hc hend

/-- A free block becomes one in use and a free one behind it. -/
theorem Apart.split {length length' : Nat → Nat} (hap : Apart length (l1 ++ b :: l2) used)
    (ht : Tiles (blockSize length) 0 (l1 ++ b :: l2) finshHeapMax) (hb : used b = false)
    (hbn : b ≠ n) (hend : b + blockSize length' b = n)
    (hendn : n + blockSize length' n = b + blockSize length b)
    (hkeep : ∀ c ∈ l1 ++ l2, c ≠ b ∧ c ≠ n ∧ length' c = length c) :
    Apart length' (l1 ++ b :: n :: l2) (Function.update (Function.update used n false) b true) := by
  obtain ⟨used', hu⟩ : ∃ u, u = Function.update (Function.update used n false) b true := ⟨_, rfl⟩
  rw [← hu]
  have hpos := blockSize_pos length
  have hub : used' b = true := by rw [hu, Function.update_self]
  -- the blocks that were there keep their test, and their length
  have hused : ∀ c ∈ l1 ++ l2, used' c = used c := by
    intro c hc
    rw [hu, Function.update_of_ne (hkeep c hc).1, Function.update_of_ne (hkeep c hc).2.1]
  have hmem : ∀ c ∈ l1 ++ b :: n :: l2, c = b ∨ c = n ∨ c ∈ l1 ++ l2 := by
    intro c hc
    simp only [List.mem_append, List.mem_cons] at hc ⊢
    tauto
  have hold : ∀ c ∈ l1 ++ l2, c ∈ l1 ++ b :: l2 := by
    intro c hc
    simp only [List.mem_append, List.mem_cons] at hc ⊢
    tauto
  intro c hc he
  rcases hmem c hc with rfl | rfl | hcold
  · exact Or.inl hub
  · rw [hendn] at he ⊢
    have hposb := hpos b
    have hposn := blockSize_pos length' c
    rcases hmem _ he with heq | heq | heold
    · omega
    · omega
    · right
      rw [hused _ heold]
      refine (hap b (List.mem_append_right _ List.mem_cons_self) (hold _ heold)).resolve_left ?_
      rw [hb]
      exact Bool.false_ne_true
  · have hsize : blockSize length' c = blockSize length c := by
      rw [blockSize, blockSize, (hkeep c hcold).2.2]
    rw [hsize] at he ⊢
    rcases hmem _ he with heq | heq | heold
    · exact Or.inr (by rw [heq, hub])
    · -- no old block ends at `n`
      have hposb := blockSize_pos length' b
      have hposn := blockSize_pos length' n
      rcases List.mem_append.mp hcold with hc | hc
      · have hle := (ht.lt_of_mem hpos hc).1
        omega
      · have hge := (ht.gt_of_mem hpos hc).1
        omega
    · rw [hused _ hcold, hused _ heold]
      exact hap c (hold c hcold) (hold _ heold)

/-- The block `b` becomes one of the length `size` that is in use, and a free one behind it. -/
theorem takeBlock_inv (hi : HeapInv h (l1 ++ b :: l2) used) (hb : used b = false)
    (hfit : size + headerSize ≤ h.length b) (hn : n = b + headerSize + size) :
    ∃ h', takeBlock h b size = some h' ∧
      HeapInv h' (l1 ++ b :: n :: l2) (Function.update (Function.update used n false) b true) ∧
      h'.length b = size ∧ ∀ c ∈ l1 ++ l2, c ≠ b ∧ c ≠ n ∧ h'.length c = h.length c := by
  obtain ⟨hsplit, hlenb, hendn, hkeep⟩ := split_lists hi.toLists hb hfit hn
  have hhead : headerSize = 8 := rfl
  have hbn : b ≠ n := by omega
  have hend : b + blockSize (finshBlockSplit h b size).length b = n := by
    rw [blockSize, hlenb]
    omega
  have hnlast : n + blockSize (finshBlockSplit h b size).length n ≤ finshHeapMax :=
    (hsplit.tiles.mem_bounds (List.mem_append_right _ (List.mem_cons_of_mem _ List.mem_cons_self))).2
  have hnpos := blockSize_pos (finshBlockSplit h b size).length n
  obtain ⟨f, a, hrem, hins, hlists⟩ := take_lists hsplit
    (by rw [Function.update_of_ne hbn, hb]) (by omega)
  refine ⟨_, ?_, ⟨hlists, ?_⟩, hlenb, hkeep⟩
  · simp only [takeBlock, hrem, hins, Option.bind_eq_bind, Option.bind_some]
  · exact hi.apart.split hi.tiles hb hbn hend hendn hkeep

end Allocation

/-! ## Frees -/

section Free

variable {h : FinshHeap} {used : Nat → Bool} {a b n extra : Nat} {q : Option Nat}
  {l1 l2 m : List Nat}

/-- The block `b` goes from the allocate list to the free list. -/
theorem give_lists (hi : Lists h (l1 ++ b :: l2) used) (hb : used b = true) :
    ∃ a f, finshBlockRemove h.next h.allocateList b = some a ∧
      finshBlockInsert a.1 h.freeList b = some f ∧
      Lists { h with next := f.1, freeList := f.2, allocateList := a.2 } (l1 ++ b :: l2)
        (Function.update used b false) := by
  obtain ⟨next₁, x, hrem, hins⟩ := move_spec (hi.tiles.sorted (blockSize_pos _)) hi.length_lt hb
    hi.alloc hi.free
  obtain ⟨next₃, y, hins, hx, hy⟩ := hins next₁ (fun _ _ => rfl)
    fun hend => absurd hend (hi.free_behind hb)
  refine ⟨_, _, hrem, hins, hi.tiles, hy, hx, ?_⟩
  intro c hc hend
  by_cases hcb : c = b
  · rw [hcb, Function.update_self]
  · rw [Function.update_of_ne hcb]
    exact hi.last c hc hend

/-- The free blocks `m` become a part of the one in front of them. -/
theorem join_lists (hi : Lists h (l1 ++ a :: (m ++ l2)) used) (ha : used a = false)
    (hm : ∀ c ∈ m, used c = false)
    (hextra : Tiles (blockSize h.length) (a + blockSize h.length a) m (a + blockSize h.length a + extra))
    (hq : IsChain h.next q (l2.filter fun c => !used c)) :
    Lists (extend h a extra q) (l1 ++ a :: l2) used := by
  have hnd := hi.nodup
  have hnd' := List.nodup_middle.mp hnd
  obtain ⟨hanot, -⟩ := List.nodup_cons.mp hnd'
  simp only [List.mem_append, not_or] at hanot
  obtain ⟨ha1, -, ha2⟩ := hanot
  have hlen : ∀ c ∈ l1 ++ l2, (extend h a extra q).length c = h.length c := by
    intro c hc
    refine Function.update_of_ne ?_ ..
    rintro rfl
    exact (List.mem_append.mp hc).elim ha1 ha2
  have hsize : a + blockSize h.length a + extra = a + blockSize (extend h a extra q).length a := by
    have hself : (extend h a extra q).length a = h.length a + extra := Function.update_self ..
    rw [blockSize, blockSize, hself]
    omega
  have hm' : m.filter used = [] :=
    List.filter_eq_nil_iff.mpr fun c hc => by rw [hm c hc]; exact Bool.false_ne_true
  rw [hsize] at hextra
  have hfree := hi.free
  rw [filter_mid l1 (m ++ l2) (by rw [ha]; rfl)] at hfree
  have halloc := hi.alloc
  rw [filter_mid_neg l1 (m ++ l2) ha, List.filter_append, hm', List.nil_append] at halloc
  refine ⟨hi.tiles.join hextra fun c hc => by rw [blockSize, blockSize, hlen c hc], ?_, ?_, ?_⟩
  · rw [filter_mid l1 l2 (by rw [ha]; rfl)]
    exact hfree.relink hq (fun hm => ha1 (List.mem_filter.mp hm).1)
      fun hm => ha2 (List.mem_filter.mp hm).1
  · rw [filter_mid_neg l1 l2 ha]
    refine halloc.update (fun hmem => ?_) q
    rcases List.mem_append.mp hmem with hmem | hmem
    · exact ha1 (List.mem_filter.mp hmem).1
    · exact ha2 (List.mem_filter.mp hmem).1
  · intro c hc hend
    by_cases hca : c = a
    · rw [hca, ha]
    · have hcold : c ∈ l1 ++ l2 := by
        simpa [hca] using hc
      rw [blockSize, hlen c hcold] at hend
      refine hi.last c ?_ hend
      rcases List.mem_append.mp hcold with hc | hc
      · exact List.mem_append_left _ hc
      · exact List.mem_append_right _ (List.mem_cons_of_mem _ (List.mem_append_right _ hc))

theorem adjacent_iff : adjacent h a b = true ↔ a + blockSize h.length a = b := by
  unfold adjacent blockSize
  rw [beq_iff_eq, Nat.add_assoc, Nat.add_comm (h.length a)]

/-- What `finsh_block_merge` finds in front of the block. -/
theorem merge_prev (hi : Lists h (l1 ++ b :: l2) used) (hb : used b = false) :
    ∃ prev, (if h.freeList = some b then some none
        else findPrev h.next b finshHeapMax h.freeList) = some prev ∧
      ((∃ l p, l1 = l ++ [p] ∧ used p = false ∧
          prev.filter (fun p => adjacent h p b) = some p) ∨
        (prev.filter (fun p => adjacent h p b) = none ∧
          ∀ c ∈ l1, c + blockSize h.length c = b → used c = true)) := by
  have hpos := blockSize_pos h.length
  have hfree := hi.free
  rw [filter_mid l1 l2 (by rw [hb]; rfl)] at hfree
  have hbF : b ∉ l1.filter fun c => !used c := by
    intro hm
    have hb1 := (hi.tiles.lt_of_mem hpos (List.mem_filter.mp hm).1).2
    omega
  rcases List.eq_nil_or_concat' (l1.filter fun c => !used c) with hF | ⟨F, p, hF⟩
  · rw [hF] at hfree
    refine ⟨none, if_pos hfree.1, Or.inr ⟨rfl, fun c hc _ => ?_⟩⟩
    have hc' := List.filter_eq_nil_iff.mp hF c hc
    simpa using hc'
  · rw [hF] at hfree hbF
    rw [List.append_assoc, List.singleton_append] at hfree
    obtain ⟨d, hd, hhead⟩ := hfree.exists_head
    have hne : h.freeList ≠ some b := by
      rw [hhead]
      rintro ⟨⟩
      exact hbF hd
    have hlen := hi.filter_length_lt fun c => !used c
    rw [filter_mid l1 l2 (by rw [hb]; rfl), hF] at hlen
    simp only [List.length_append] at hlen
    have hprev : findPrev h.next b finshHeapMax h.freeList = some (some p) :=
      findPrev_eq hfree hbF (by omega)
    have hp : p ∈ l1 ∧ used p = false := by
      have hm : p ∈ l1.filter fun c => !used c := by
        rw [hF]
        exact List.mem_append_right _ List.mem_cons_self
      obtain ⟨hm, hu⟩ := List.mem_filter.mp hm
      exact ⟨hm, by simpa using hu⟩
    refine ⟨some p, by rw [if_neg hne, hprev], ?_⟩
    by_cases hadj : adjacent h p b = true
    · obtain ⟨l, hl⟩ := hi.tiles.prev_eq hpos hp.1 (adjacent_iff.mp hadj)
      exact Or.inl ⟨l, p, hl, hp.2, by simp [Option.filter, hadj]⟩
    · refine Or.inr ⟨by simp [Option.filter, hadj], fun c hc hcb => ?_⟩
      -- a free neighbour is the last one in the list in front of `b`
      obtain ⟨l, hl⟩ := hi.tiles.prev_eq hpos hc hcb
      by_contra hcu
      rw [Bool.not_eq_true] at hcu
      rw [hl, List.filter_append, List.filter_cons_of_pos (by rw [hcu]; rfl), List.filter_nil] at hF
      have hcp := (List.append_inj' hF rfl).2
      rw [List.singleton_inj] at hcp
      exact hadj (adjacent_iff.mpr (hcp ▸ hcb))

/-- What `finsh_block_merge` finds behind the block. -/
theorem merge_next (hi : Lists h (l1 ++ b :: l2) used) (hb : used b = false) :
    (∃ n l, l2 = n :: l ∧ used n = false ∧ b + blockSize h.length b = n ∧
        (h.next b).filter (fun n => adjacent h b n) = some n) ∨
      ((h.next b).filter (fun n => adjacent h b n) = none ∧
        ∀ c ∈ l2, b + blockSize h.length b = c → used c = true) := by
  have hfree := hi.free
  rw [filter_mid l1 l2 (by rw [hb]; rfl)] at hfree
  have hnext := hfree.behind.head
  cases hF : l2.filter fun c => !used c with
  | nil =>
    rw [hF] at hnext
    refine Or.inr ⟨by rw [hnext]; rfl, fun c hc _ => ?_⟩
    have hc' := List.filter_eq_nil_iff.mp hF c hc
    simpa using hc'
  | cons n F =>
    rw [hF] at hnext
    have hn : n ∈ l2 ∧ used n = false := by
      have hm : n ∈ l2.filter fun c => !used c := by
        rw [hF]
        exact List.mem_cons_self
      obtain ⟨hm, hu⟩ := List.mem_filter.mp hm
      exact ⟨hm, by simpa using hu⟩
    rw [hnext]
    by_cases hadj : adjacent h b n = true
    · obtain ⟨l, hl⟩ := hi.tiles.next_eq hn.1 (adjacent_iff.mp hadj)
      exact Or.inl ⟨n, l, hl, hn.2, adjacent_iff.mp hadj, by simp [Option.filter, hadj]⟩
    · refine Or.inr ⟨by simp [Option.filter, hadj], fun c hc hbc => ?_⟩
      obtain ⟨l, hl⟩ := hi.tiles.next_eq hc hbc
      by_contra hcu
      rw [Bool.not_eq_true] at hcu
      rw [hl, List.filter_cons_of_pos (by rw [hcu]; rfl)] at hF
      injection hF with hcn hF
      exact hadj (adjacent_iff.mpr (hcn ▸ hbc))

/-- Blocks are apart where only the pairs with the block `b` are left to be seen. -/
def ApartBut (length : Nat → Nat) (b : Nat) (l : List Nat) (used : Nat → Bool) : Prop :=
  ∀ c ∈ l, c ≠ b → c + blockSize length c ∈ l → c + blockSize length c ≠ b →
    used c = true ∨ used (c + blockSize length c) = true

/-- The free block `a` has grown. -/
theorem Apart.extend {length length' : Nat → Nat} (hlen : ∀ c ∈ l1 ++ l2, length' c = length c)
    (hold : ∀ c ∈ l1 ++ l2, c + blockSize length c ∈ l1 ++ a :: l2 → used c = true ∨ used (c + blockSize length c) = true)
    (ha : a + blockSize length' a ∈ l1 ++ a :: l2 → used (a + blockSize length' a) = true) :
    Apart length' (l1 ++ a :: l2) used := by
  intro c hc he
  by_cases hca : c = a
  · subst hca
    exact Or.inr (ha he)
  · have hcold : c ∈ l1 ++ l2 := by
      simpa [hca] using hc
    have hsize : blockSize length' c = blockSize length c := by
      rw [blockSize, blockSize, hlen c hcold]
    rw [hsize] at he ⊢
    exact hold c hcold he

/-- The free block `a`, and the blocks behind it that become a part of it. -/
theorem join_inv (hi : Lists h (l1 ++ a :: (m ++ l2)) used) (ha : used a = false)
    (hm : ∀ c ∈ m, used c = false)
    (hextra : Tiles (blockSize h.length) (a + blockSize h.length a) m
      (a + blockSize h.length a + extra))
    (hq : IsChain h.next q (l2.filter fun c => !used c))
    (hold : ∀ c ∈ l1 ++ l2, c + blockSize h.length c ∈ l1 ++ a :: l2 →
      used c = true ∨ used (c + blockSize h.length c) = true)
    (hend : ∀ c ∈ l2, a + blockSize h.length a + extra = c → used c = true) :
    HeapInv (extend h a extra q) (l1 ++ a :: l2) used ∧
      (l1 ++ a :: l2).filter used = (l1 ++ a :: (m ++ l2)).filter used ∧
      ∀ c ∈ (l1 ++ a :: l2).filter used, (extend h a extra q).length c = h.length c := by
  have hlists := join_lists hi ha hm hextra hq
  have hpos := blockSize_pos (extend h a extra q).length
  have hnd := List.nodup_middle.mp hlists.nodup
  obtain ⟨hanot, -⟩ := List.nodup_cons.mp hnd
  have hlen : ∀ c ∈ l1 ++ l2, (extend h a extra q).length c = h.length c := by
    intro c hc
    refine Function.update_of_ne ?_ ..
    rintro rfl
    exact hanot hc
  have hself : (extend h a extra q).length a = h.length a + extra := Function.update_self ..
  have hsize : a + blockSize (extend h a extra q).length a = a + blockSize h.length a + extra := by
    rw [blockSize, blockSize, hself]
    omega
  have hm' : m.filter used = [] :=
    List.filter_eq_nil_iff.mpr fun c hc => by rw [hm c hc]; exact Bool.false_ne_true
  refine ⟨⟨hlists, Apart.extend hlen hold fun he => ?_⟩, ?_, fun c hc => hlen c ?_⟩
  · refine hend _ ?_ hsize.symm
    rcases List.mem_append.mp he with he | he
    · have hlt := (hlists.tiles.lt_of_mem hpos he).2
      omega
    · rcases List.mem_cons.mp he with he | he
      · have hp := hpos a
        omega
      · exact he
  · rw [filter_mid_neg l1 l2 ha, filter_mid_neg l1 (m ++ l2) ha, List.filter_append, hm',
      List.nil_append]
  · rw [filter_mid_neg l1 l2 ha, ← List.filter_append] at hc
    exact (List.mem_filter.mp hc).1

/-- A free block becomes one with its free neighbours. -/
theorem finshBlockMerge_inv (hi : Lists h (l1 ++ b :: l2) used) (hb : used b = false)
    (hap : ApartBut h.length b (l1 ++ b :: l2) used) :
    ∃ h' l', finshBlockMerge h b = some h' ∧ HeapInv h' l' used ∧
      l'.filter used = (l1 ++ b :: l2).filter used ∧
      ∀ c ∈ l'.filter used, h'.length c = h.length c := by
  have hpos := blockSize_pos h.length
  have hbsize : blockSize h.length b = h.length b + headerSize := Nat.add_comm ..
  have hfree := hi.free
  rw [filter_mid l1 l2 (by rw [hb]; rfl)] at hfree
  have hlt := fun c (hc : c ∈ l1) => hi.tiles.lt_of_mem hpos hc
  have hgt := fun c (hc : c ∈ l2) => hi.tiles.gt_of_mem hpos hc
  -- the pairs without `b`
  have hkeep : ∀ c ∈ l1 ++ l2, c + blockSize h.length c ∈ l1 ++ l2 →
      used c = true ∨ used (c + blockSize h.length c) = true := by
    have hne : ∀ c ∈ l1 ++ l2, c ≠ b ∧ c ∈ l1 ++ b :: l2 := by
      intro c hc
      rcases List.mem_append.mp hc with hc | hc
      · exact ⟨Nat.ne_of_lt (hlt c hc).2, List.mem_append_left _ hc⟩
      · exact ⟨Nat.ne_of_gt (hgt c hc).2,
          List.mem_append_right _ (List.mem_cons_of_mem _ hc)⟩
    intro c hc he
    exact hap c (hne c hc).2 (hne c hc).1 (hne _ he).2 (hne _ he).1
  obtain ⟨prev, hprev, hfront⟩ := merge_prev hi hb
  have hbehind := merge_next hi hb
  unfold finshBlockMerge
  rw [hprev]
  rcases hfront with ⟨l, p, rfl, hp, hpf⟩ | ⟨hpf, hfront⟩
  · have hpb : p + blockSize h.length p = b := (tiles_mid.mp (tiles_mid.mp hi.tiles).1).2
    rcases hbehind with ⟨n, l', rfl, hn, hbn, hnf⟩ | ⟨hnf, hbehind⟩
    · -- the three become one
      have hnsize : blockSize h.length n = h.length n + headerSize := Nat.add_comm ..
      have hi' : Lists h (l ++ p :: ([b, n] ++ l')) used := by
        simpa using hi
      have hnfree := hfree.behind
      rw [List.filter_cons_of_pos (by rw [hn]; rfl)] at hnfree
      have hold : ∀ c ∈ l ++ l', c + blockSize h.length c ∈ l ++ p :: l' →
          used c = true ∨ used (c + blockSize h.length c) = true := by
        intro c hc he
        simp only [List.mem_append, List.mem_cons] at hc he
        exact hkeep c (by simp; tauto) (by simp; tauto)
      have hend : ∀ c ∈ l', p + blockSize h.length p +
          (h.length b + h.length n + 2 * headerSize) = c → used c = true := by
        intro c hc he
        have hnc : n + blockSize h.length n = c := by omega
        have hu := hkeep n (by simp) (by rw [hnc]; simp [hc])
        rw [hn, hnc] at hu
        exact hu.resolve_left Bool.false_ne_true
      have hnew := join_inv hi' hp (by simp [hb, hn]) (by simp; omega) hnfree.tail hold hend
      simp only [Option.map_some, hpf, hnf]
      refine ⟨_, _, rfl, hnew.1, ?_, hnew.2.2⟩
      rw [hnew.2.1]
      simp
    · have hi' : Lists h (l ++ p :: ([b] ++ l2)) used := by
        simpa using hi
      have hold : ∀ c ∈ l ++ l2, c + blockSize h.length c ∈ l ++ p :: l2 →
          used c = true ∨ used (c + blockSize h.length c) = true := by
        intro c hc he
        simp only [List.mem_append, List.mem_cons] at hc he
        exact hkeep c (by simp; tauto) (by simp; tauto)
      have hend : ∀ c ∈ l2, p + blockSize h.length p + (h.length b + headerSize) = c →
          used c = true := by
        intro c hc he
        exact hbehind c hc (by omega)
      have hnew := join_inv hi' hp (by simp [hb]) (by simp; omega) hfree.behind hold hend
      simp only [Option.map_some, hpf, hnf]
      refine ⟨_, _, rfl, hnew.1, ?_, hnew.2.2⟩
      rw [hnew.2.1]
      simp
  · rcases hbehind with ⟨n, l', rfl, hn, hbn, hnf⟩ | ⟨hnf, hbehind⟩
    · have hnsize : blockSize h.length n = h.length n + headerSize := Nat.add_comm ..
      have hi' : Lists h (l1 ++ b :: ([n] ++ l')) used := by
        simpa using hi
      have hnfree := hfree.behind
      rw [List.filter_cons_of_pos (by rw [hn]; rfl)] at hnfree
      have hold : ∀ c ∈ l1 ++ l', c + blockSize h.length c ∈ l1 ++ b :: l' →
          used c = true ∨ used (c + blockSize h.length c) = true := by
        intro c hc he
        by_cases heb : c + blockSize h.length c = b
        · rcases List.mem_append.mp hc with hc | hc
          · exact Or.inl (hfront c hc heb)
          · have hbc := (hgt c (List.mem_cons_of_mem _ hc)).2
            omega
        · simp only [List.mem_append, List.mem_cons] at hc he
          exact hkeep c (by simp; tauto) (by simp; tauto)
      have hend : ∀ c ∈ l', b + blockSize h.length b + (h.length n + headerSize) = c →
          used c = true := by
        intro c hc he
        have hnc : n + blockSize h.length n = c := by omega
        have hu := hkeep n (by simp) (by rw [hnc]; simp [hc])
        rw [hn, hnc] at hu
        exact hu.resolve_left Bool.false_ne_true
      have hnew := join_inv hi' hb (by simp [hn]) (by simp; omega) hnfree.tail hold hend
      simp only [Option.map_some, hpf, hnf]
      refine ⟨_, _, rfl, hnew.1, ?_, hnew.2.2⟩
      rw [hnew.2.1]
      simp
    · simp only [Option.map_some, hpf, hnf]
      refine ⟨_, _, rfl, ⟨hi, fun c hc he => ?_⟩, rfl, fun _ _ => rfl⟩
      by_cases hcb : c = b
      · subst hcb
        rcases List.mem_append.mp he with he' | he'
        · have hlt' := (hlt _ he').2
          omega
        · rcases List.mem_cons.mp he' with he' | he'
          · have hp := hpos c
            omega
          · exact Or.inr (hbehind _ he' rfl)
      · by_cases heb : c + blockSize h.length c = b
        · rcases List.mem_append.mp hc with hc | hc
          · exact Or.inl (hfront c hc heb)
          · have hbc := (hgt c ((List.mem_cons.mp hc).resolve_left hcb)).2
            omega
        · exact hap c hc hcb he heb

/-- A block in use is freed. -/
theorem finshHeapFree_inv (hi : HeapInv h (l1 ++ b :: l2) used) (hb : used b = true) :
    ∃ h' l', finshHeapFree h (b + headerSize) = some h' ∧
      HeapInv h' l' (Function.update used b false) ∧
      l'.filter (Function.update used b false) = l1.filter used ++ l2.filter used ∧
      ∀ c ∈ l1.filter used ++ l2.filter used, h'.length c = h.length c := by
  obtain ⟨a, f, hrem, hins, hlists⟩ := give_lists hi.toLists hb
  have hap : ApartBut h.length b (l1 ++ b :: l2) (Function.update used b false) := by
    intro c hc hcb he heb
    rw [Function.update_of_ne hcb, Function.update_of_ne heb]
    exact hi.apart c hc he
  obtain ⟨h', l', hmerge, hi', hfilter, hlen⟩ :=
    finshBlockMerge_inv hlists (Function.update_self ..) hap
  have hnd := List.nodup_middle.mp hi.nodup
  obtain ⟨hbnot, -⟩ := List.nodup_cons.mp hnd
  rw [List.mem_append, not_or] at hbnot
  have hfilter' : l'.filter (Function.update used b false) =
      l1.filter used ++ l2.filter used := by
    rw [hfilter, filter_mid_neg l1 l2 (Function.update_self ..), filter_update false hbnot.1,
      filter_update false hbnot.2]
  refine ⟨h', l', ?_, hi', hfilter', fun c hc => hlen c (hfilter' ▸ hc)⟩
  simp only [finshHeapFree, Nat.add_sub_cancel, hrem, hins, Option.bind_eq_bind, Option.bind_some]
  exact hmerge

/-- A block of the allocate list, with the blocks around it. -/
theorem HeapInv.exists_mid (hi : HeapInv h l used) {A₁ A₂ : List Nat}
    (hA : l.filter used = A₁ ++ b :: A₂) :
    ∃ l1 l2, l = l1 ++ b :: l2 ∧ used b = true ∧ l1.filter used = A₁ ∧ l2.filter used = A₂ := by
  have hm : b ∈ l.filter used := by
    rw [hA]
    exact List.mem_append_right _ List.mem_cons_self
  obtain ⟨hbl, hb⟩ := List.mem_filter.mp hm
  obtain ⟨l1, l2, rfl⟩ := List.append_of_mem hbl
  have hnd := List.nodup_middle.mp hi.nodup
  obtain ⟨hbnot, -⟩ := List.nodup_cons.mp hnd
  rw [List.mem_append, not_or] at hbnot
  rw [filter_mid l1 l2 hb] at hA
  have heq := (List.append_cons_inj_of_notMem (fun hm => hbnot.1 (List.mem_filter.mp hm).1)
    fun hm => hbnot.2 (List.mem_filter.mp hm).1).mp hA
  exact ⟨l1, l2, rfl, hb, heq.1, heq.2.2⟩

/-- The collector, from the blocks `A₂` of the allocate list on. -/
theorem gcLoop_inv (inVar : Nat → Bool) {A₁ A₂ : List Nat} (hi : HeapInv h l used)
    (hA : l.filter used = A₁ ++ A₂) (hf : A₂.length < fuel) :
    ∃ h' l' used', gcLoop inVar fuel h A₂.head? = some h' ∧ HeapInv h' l' used' ∧
      l'.filter used' = A₁ ++ A₂.filter (fun b => inVar (b + headerSize)) ∧
      ∀ c ∈ l'.filter used', h'.length c = h.length c := by
  induction A₂ generalizing A₁ h l used fuel with
  | nil =>
    obtain ⟨n, rfl⟩ := Nat.exists_eq_add_of_lt hf
    exact ⟨h, l, used, rfl, hi, hA, fun _ _ => rfl⟩
  | cons b A₂ ih =>
    obtain ⟨n, rfl⟩ := Nat.exists_eq_succ_of_ne_zero (Nat.ne_of_gt (Nat.zero_lt_of_lt hf))
    have hfn : A₂.length < n := Nat.lt_of_succ_lt_succ hf
    have hafter : h.next b = A₂.head? := by
      have halloc := hi.alloc
      rw [hA] at halloc
      exact halloc.behind.head
    simp only [List.head?_cons, gcLoop, hafter]
    cases hv : inVar (b + headerSize) with
    | true =>
      have hA' : l.filter used = (A₁ ++ [b]) ++ A₂ := by
        rw [hA, List.append_assoc, List.singleton_append]
      obtain ⟨h', l', used', hrun, hi', hfilter, hlen⟩ := ih hi hA' hfn
      refine ⟨h', l', used', by rw [if_pos rfl, hrun], hi', ?_, hlen⟩
      rw [hfilter, List.filter_cons_of_pos (by rw [hv]), List.append_assoc, List.singleton_append]
    | false =>
      obtain ⟨l1, l2, rfl, hb, hA₁, hA₂⟩ := hi.exists_mid hA
      obtain ⟨h1, l', hfree, hi1, hfilter₁, hlen₁⟩ := finshHeapFree_inv hi hb
      rw [hA₁, hA₂] at hfilter₁ hlen₁
      obtain ⟨h', l', used', hrun, hi', hfilter, hlen⟩ := ih hi1 hfilter₁ hfn
      rw [if_neg Bool.false_ne_true, hfree]
      refine ⟨h', l', used', hrun, hi', ?_, fun c hc => ?_⟩
      · rw [hfilter, List.filter_cons_of_neg (by rw [hv]; exact Bool.false_ne_true)]
      · rw [hlen c hc, hlen₁ c]
        rw [hfilter] at hc
        rcases List.mem_append.mp hc with hc | hc
        · exact List.mem_append_left _ hc
        · exact List.mem_append_right _ (List.mem_filter.mp hc).1

/-- The collector frees the blocks that no variable points to. -/
theorem finshHeapGc_inv (inVar : Nat → Bool) (hi : HeapInv h l used) :
    ∃ h' l' used', finshHeapGc h inVar = some h' ∧ HeapInv h' l' used' ∧
      l'.filter used' = (l.filter used).filter (fun b => inVar (b + headerSize)) ∧
      ∀ c ∈ l'.filter used', h'.length c = h.length c := by
  have hgc := gcLoop_inv inVar hi (List.nil_append _).symm (hi.filter_length_lt used)
  rw [← hi.alloc.head] at hgc
  exact hgc

end Free

end Tudu.Finsh
