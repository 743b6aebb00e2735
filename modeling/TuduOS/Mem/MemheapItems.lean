import Mathlib.Algebra.BigOperators.Group.Finset.Basic
import TuduOS.Lib.OrderedRing
import TuduOS.Mem.Memheap

/-!
# The two lists of a memory heap

A memory heap without its bytes: the pointers of its items, as functions of their addresses, and
four changes of which every operation of `memheap.c` is made.

* **The invariant** (`Inv q A k fl v`): the block list leads around the blocks `k` of the pool `q` in
  the order of their addresses, no two free blocks are neighbours, the free list is the ring `fl` of
  the free blocks, and they have `v` bytes together.
* **The changes**: a free block is taken (`take`) or a used one released (`release`); a used block is
  split in two used ones (`split`), or becomes a part of the one before it (`join`).
* **What stays** (`Kept`): every used block apart from two keeps its place and its length.
-/

namespace Tudu.Memheap

open Circular Circular.Links Ordered

/-- Where the pool and the head of the free list are. -/
structure Pool.Room (q : Pool) : Prop where
  size : 60 ≤ q.poolSize
  poolEnd : q.startAddr + q.poolSize ≤ 2 ^ 32
  freeEnd : q.freeList + 24 ≤ 2 ^ 32
  apart : q.freeList + 24 ≤ q.startAddr ∨ q.startAddr + q.poolSize ≤ q.freeList
  addr : q.addr < 2 ^ 32

theorem Pool.Room.tail {q : Pool} (hq : q.Room) : q.tail + 24 = q.startAddr + q.poolSize := by
  have hsize := hq.size
  unfold Pool.tail memheapSize
  omega

/-- `magic` of a used block. -/
def usedMagic : Nat := 0x1ea01ea1

/-- The items, by their addresses. -/
structure Items where
  blocks : Links Nat
  free : Links Nat
  magic : Nat → Nat
  pool : Nat → Nat

namespace Items

def IsFree (A : Items) (b : Nat) : Prop := A.magic b = memheapMagic

instance (A : Items) (b : Nat) : Decidable (A.IsFree b) := inferInstanceAs (Decidable (_ = _))

def size (A : Items) (b : Nat) : Nat := A.blocks.next b - b - 24

/-- The free block `b` is taken off the free list. -/
def take (A : Items) (b : Nat) : Items :=
  { A with free := A.free.unlink b, magic := Function.update A.magic b usedMagic }

/-- The used block `b` goes behind the head `h` of the free list. -/
def release (A : Items) (h b : Nat) : Items :=
  { A with free := A.free.insertAfter h b, magic := Function.update A.magic b memheapMagic }

/-- The used block `b` is split at `n`. -/
def split (A : Items) (addr b n : Nat) : Items :=
  { A with
    blocks := A.blocks.insertAfter b n
    magic := Function.update A.magic n usedMagic
    pool := Function.update A.pool n addr }

/-- The block `c` becomes a part of the one before it. -/
def join (A : Items) (c : Nat) : Items := { A with blocks := A.blocks.unlink c }

/-- The free blocks. -/
def freeBlocks (A : Items) (k : Finset Nat) : Finset Nat := k.filter A.IsFree

theorem mem_freeBlocks {A : Items} {k : Finset Nat} {b : Nat} :
    b ∈ A.freeBlocks k ↔ b ∈ k ∧ A.IsFree b := Finset.mem_filter

structure Inv (q : Pool) (A : Items) (k : Finset Nat) (fl : List Nat) (v : Nat) : Prop where
  around : Around A.blocks k q.startAddr q.tail
  gap : ∀ b ∈ k, b ≠ q.tail → b + 36 ≤ A.blocks.next b
  hole : ∀ b ∈ k, A.IsFree b → ¬A.IsFree (A.blocks.next b)
  magic : ∀ b ∈ k, A.IsFree b ∨ A.magic b = usedMagic
  pool : ∀ b ∈ k, A.pool b = q.addr
  tailUsed : ¬A.IsFree q.tail
  ring : IsRing A.free q.freeList fl
  mem : ∀ b, b ∈ fl ↔ b ∈ k ∧ A.IsFree b
  sum : v = ∑ b ∈ A.freeBlocks k, A.size b

/-- Every used block apart from `b` and `c` stays as it is. -/
def Kept (b c : Nat) (A : Items) (k : Finset Nat) (A' : Items) (k' : Finset Nat) : Prop :=
  ∀ d ∈ k, ¬A.IsFree d → d ≠ b → d ≠ c → d ∈ k' ∧ ¬A'.IsFree d ∧ A'.blocks.next d = A.blocks.next d

/-- The used blocks apart from `b` are the same, and stay as they are. -/
structure Others (b : Nat) (A : Items) (k : Finset Nat) (A' : Items) (k' : Finset Nat) : Prop where
  kept : Kept b b A k A' k'
  only : ∀ d ∈ k', ¬A'.IsFree d → d ≠ b → d ∈ k ∧ ¬A.IsFree d

variable {q : Pool} {A A' : Items} {k k' : Finset Nat} {fl : List Nat} {v b c d n : Nat}

theorem Kept.trans {A'' : Items} {k'' : Finset Nat} (h : Kept b c A k A' k')
    (h' : Kept b c A' k' A'' k'') : Kept b c A k A'' k'' := by
  intro d hd hu hdb hdc
  obtain ⟨hd', hu', hn⟩ := h d hd hu hdb hdc
  obtain ⟨hd'', hu'', hn'⟩ := h' d hd' hu' hdb hdc
  exact ⟨hd'', hu'', hn'.trans hn⟩

theorem Others.trans {A'' : Items} {k'' : Finset Nat} (h : Others b A k A' k')
    (h' : Others b A' k' A'' k'') : Others b A k A'' k'' where
  kept := h.kept.trans h'.kept
  only d hd hu hdb := by
    obtain ⟨hd', hu'⟩ := h'.only d hd hu hdb
    exact h.only d hd' hu' hdb

namespace Inv

/-! ## Addresses -/

theorem le_tail (hI : Inv q A k fl v) (hb : b ∈ k) : b ≤ q.tail := hI.around.leads.le b hb

theorem start_le (hI : Inv q A k fl v) (hb : b ∈ k) : q.startAddr ≤ b := hI.around.le b hb

theorem next_mem (hI : Inv q A k fl v) (hb : b ∈ k) : A.blocks.next b ∈ k := hI.around.next_mem hb

theorem ne_tail (hI : Inv q A k fl v) (hf : A.IsFree b) : b ≠ q.tail := by
  rintro rfl
  exact hI.tailUsed hf

/-- The free blocks are together shorter than the pool. -/
theorem sum_le (hI : Inv q A k fl v) : q.startAddr + v ≤ q.tail := by
  have hsum := hI.around.leads.sum_le (w := fun b => if A.IsFree b then A.size b else 0)
    (fun b hb => hI.start_le hb) (fun b hb hbt => ?_) (if_neg hI.tailUsed)
  · rw [← Finset.sum_filter] at hsum
    rw [hI.sum]
    exact hsum
  · have hlt := hI.around.leads.lt b hb hbt
    unfold size
    split <;> omega

/-- Two blocks are one, or their headers and smallest areas are apart. -/
theorem apart (hI : Inv q A k fl v) (hb : b ∈ k) (hc : c ∈ k) : b = c ∨ b + 36 ≤ c ∨ c + 36 ≤ b := by
  rcases Nat.lt_trichotomy b c with hlt | heq | hlt
  · have hbt : b ≠ q.tail := (hlt.trans_le (hI.le_tail hc)).ne
    exact .inr (.inl ((hI.gap b hb hbt).trans (hI.around.leads.least b hb c hc hlt)))
  · exact .inl heq
  · have hct : c ≠ q.tail := (hlt.trans_le (hI.le_tail hb)).ne
    exact .inr (.inr ((hI.gap c hc hct).trans (hI.around.leads.least c hc b hb hlt)))

theorem ne_freeList (hI : Inv q A k fl v) (hq : q.Room) (hb : b ∈ k) : b ≠ q.freeList := by
  have h1 := hI.start_le hb
  have h2 := hI.le_tail hb
  have h3 := hq.tail
  have h4 := hq.apart
  omega

/-- The invariant is about the pointers of the blocks and of the free list alone. -/
theorem congr (hI : Inv q A k fl v)
    (hb : ∀ b ∈ k, A'.blocks.next b = A.blocks.next b ∧ A'.blocks.prev b = A.blocks.prev b ∧ A'.magic b = A.magic b ∧ A'.pool b = A.pool b)
    (hf : ∀ b ∈ q.freeList :: fl, A'.free.next b = A.free.next b ∧ A'.free.prev b = A.free.prev b) :
    Inv q A' k fl v := by
  have hmagic : ∀ b ∈ k, A'.IsFree b ↔ A.IsFree b := fun b hbk => by
    unfold IsFree
    rw [(hb b hbk).2.2.1]
  have hfree : A'.freeBlocks k = A.freeBlocks k := Finset.filter_congr hmagic
  refine ⟨hI.around.congr fun b hbk => ⟨(hb b hbk).1, (hb b hbk).2.1⟩, fun b hbk hbt => ?_,
    fun b hbk => ?_, fun b hbk => ?_, fun b hbk => ?_, ?_, hI.ring.congr hf, fun b => ?_, ?_⟩
  · rw [(hb b hbk).1]
    exact hI.gap b hbk hbt
  · rw [(hb b hbk).1, hmagic b hbk, hmagic _ (hI.next_mem hbk)]
    exact hI.hole b hbk
  · rw [hmagic b hbk, (hb b hbk).2.2.1]
    exact hI.magic b hbk
  · rw [(hb b hbk).2.2.2]
    exact hI.pool b hbk
  · rw [hmagic _ hI.around.leads.last]
    exact hI.tailUsed
  · rw [hI.mem]
    exact and_congr_right fun hbk => (hmagic b hbk).symm
  · rw [hfree, hI.sum]
    refine Finset.sum_congr rfl fun b hbf => ?_
    unfold size
    rw [(hb b (mem_freeBlocks.mp hbf).1).1]

/-! ## The changes -/

theorem magic_ne : usedMagic ≠ memheapMagic := by decide

theorem take_isFree : (A.take b).IsFree d ↔ d ≠ b ∧ A.IsFree d := by
  unfold IsFree take
  by_cases hdb : d = b
  · subst hdb
    simp [magic_ne]
  · simp [hdb]

theorem release_isFree {h : Nat} : (A.release h b).IsFree d ↔ d = b ∨ A.IsFree d := by
  unfold IsFree release
  by_cases hdb : d = b
  · subst hdb
    simp
  · simp [hdb]

theorem split_isFree {a : Nat} : (A.split a b n).IsFree d ↔ d ≠ n ∧ A.IsFree d := by
  unfold IsFree split
  by_cases hdn : d = n
  · subst hdn
    simp [magic_ne]
  · simp [hdn]

theorem take (hI : Inv q A k fl v) (hb : b ∈ fl) :
    Inv q (A.take b) k (fl.erase b) (v - A.size b) ∧ A.size b ≤ v := by
  obtain ⟨hbk, hbf⟩ := (hI.mem b).mp hb
  have hnd : fl.Nodup := (List.nodup_cons.mp hI.ring.2).2
  have hfree : (A.take b).freeBlocks k = (A.freeBlocks k).erase b := by
    ext d
    rw [mem_freeBlocks, Finset.mem_erase, mem_freeBlocks, take_isFree]
    tauto
  have hsum := Finset.add_sum_erase (A.freeBlocks k) A.size (mem_freeBlocks.mpr ⟨hbk, hbf⟩)
  rw [← hI.sum] at hsum
  refine ⟨⟨hI.around, hI.gap, fun d hd hdf hn => ?_, fun d hd => ?_, hI.pool, fun h => ?_, ?_,
    fun d => ?_, ?_⟩, by omega⟩
  · exact hI.hole d hd (take_isFree.mp hdf).2 (take_isFree.mp hn).2
  · by_cases hdb : d = b
    · subst hdb
      exact .inr (Function.update_self ..)
    · refine (hI.magic d hd).imp (fun h => take_isFree.mpr ⟨hdb, h⟩) fun h => ?_
      exact (Function.update_of_ne hdb ..).trans h
  · exact hI.tailUsed (take_isFree.mp h).2
  · obtain ⟨l, m, rfl⟩ := List.append_of_mem hb
    have hbl : b ∉ l := by grind
    rw [List.erase_append_right _ hbl, List.erase_cons_head]
    exact hI.ring.unlink
  · rw [hnd.mem_erase_iff, hI.mem, take_isFree]
    tauto
  · rw [hfree]
    change v - A.size b = ∑ d ∈ (A.freeBlocks k).erase b, A.size d
    omega

theorem take_kept : Kept c d A k (A.take b) k :=
  fun _ ha hu _ _ => ⟨ha, fun h => hu (take_isFree.mp h).2, rfl⟩

/-- A block between two used ones is released. -/
theorem release (hI : Inv q A k fl v) (hq : q.Room) (hb : b ∈ k) (hbt : b ≠ q.tail)
    (hbu : ¬A.IsFree b) (hn : ¬A.IsFree (A.blocks.next b)) (hp : ¬A.IsFree (A.blocks.prev b)) :
    Inv q (A.release q.freeList b) k (b :: fl) (v + A.size b) := by
  have hbn : b < A.blocks.next b := hI.around.leads.lt b hb hbt
  have hfree : (A.release q.freeList b).freeBlocks k = insert b (A.freeBlocks k) := by
    ext d
    rw [mem_freeBlocks, Finset.mem_insert, mem_freeBlocks, release_isFree]
    constructor
    · rintro ⟨hd, rfl | hdf⟩
      · exact .inl rfl
      · exact .inr ⟨hd, hdf⟩
    · rintro (rfl | ⟨hd, hdf⟩)
      · exact ⟨hb, .inl rfl⟩
      · exact ⟨hd, .inr hdf⟩
  refine ⟨hI.around, hI.gap, fun d hd hdf hdn => ?_, fun d hd => ?_, hI.pool, fun h => ?_, ?_,
    fun d => ?_, ?_⟩
  · rcases release_isFree.mp hdf with rfl | hdf
    · rcases release_isFree.mp hdn with he | hdn
      · exact hbn.ne' he
      · exact hn hdn
    · rcases release_isFree.mp hdn with he | hdn
      · -- `d` is before `b`
        have hprev := hI.around.prev d hd
        rw [show A.blocks.next d = b from he] at hprev
        exact hp (hprev.symm ▸ hdf)
      · exact hI.hole d hd hdf hdn
  · by_cases hdb : d = b
    · exact .inl (release_isFree.mpr (.inl hdb))
    · refine (hI.magic d hd).imp (fun h => release_isFree.mpr (.inr h)) fun h => ?_
      exact (Function.update_of_ne hdb ..).trans h
  · rcases release_isFree.mp h with he | h
    · exact hbt he.symm
    · exact hI.tailUsed h
  · refine hI.ring.insertAfter fun h => ?_
    rcases List.mem_cons.mp h with he | h
    · exact hI.ne_freeList hq hb he
    · exact hbu ((hI.mem b).mp h).2
  · rw [List.mem_cons, hI.mem, release_isFree]
    constructor
    · rintro (rfl | ⟨hd, hdf⟩)
      · exact ⟨hb, .inl rfl⟩
      · exact ⟨hd, .inr hdf⟩
    · rintro ⟨hd, rfl | hdf⟩
      · exact .inl rfl
      · exact .inr ⟨hd, hdf⟩
  · rw [hfree, Finset.sum_insert fun h => hbu (mem_freeBlocks.mp h).2, hI.sum, Nat.add_comm]
    rfl

theorem release_kept {h : Nat} : Kept b c A k (A.release h b) k :=
  fun _ ha hu hab _ => ⟨ha, fun h => (release_isFree.mp h).elim hab hu, rfl⟩

/-- A used block is split. -/
theorem split (hI : Inv q A k fl v) (hb : b ∈ k) (hbt : b ≠ q.tail) (hbu : ¬A.IsFree b)
    (h1 : b + 36 ≤ n) (h2 : n + 36 ≤ A.blocks.next b) :
    Inv q (A.split q.addr b n) (insert n k) fl v := by
  have hnk : ∀ d ∈ k, d ≠ n := by
    rintro d hd rfl
    have hle := hI.around.leads.least b hb d hd (by omega)
    omega
  have hnext : ∀ d ∈ k, d ≠ b → (A.split q.addr b n).blocks.next d = A.blocks.next d :=
    fun d hd hdb => by
      rw [show (A.split q.addr b n).blocks = A.blocks.insertAfter b n from rfl, insertAfter_next,
        if_neg hdb, if_neg (hnk d hd)]
  have hnextb : (A.split q.addr b n).blocks.next b = n := by
    rw [show (A.split q.addr b n).blocks = A.blocks.insertAfter b n from rfl, insertAfter_next,
      if_pos rfl]
  have hnextn : (A.split q.addr b n).blocks.next n = A.blocks.next b := by
    rw [show (A.split q.addr b n).blocks = A.blocks.insertAfter b n from rfl, insertAfter_next,
      if_neg (by omega), if_pos rfl]
  have hfree : (A.split q.addr b n).freeBlocks (insert n k) = A.freeBlocks k := by
    ext d
    rw [mem_freeBlocks, Finset.mem_insert, mem_freeBlocks, split_isFree]
    constructor
    · rintro ⟨rfl | hd, hne, hdf⟩
      · exact absurd rfl hne
      · exact ⟨hd, hdf⟩
    · rintro ⟨hd, hdf⟩
      exact ⟨.inr hd, hnk d hd, hdf⟩
  refine ⟨hI.around.insertAfter hb hbt (by omega) (by omega), fun d hd hdt => ?_,
    fun d hd hdf hdn => ?_, fun d hd => ?_, fun d hd => ?_, fun h => ?_, hI.ring, fun d => ?_, ?_⟩
  · rcases Finset.mem_insert.mp hd with rfl | hd
    · rw [hnextn]
      exact h2
    · by_cases hdb : d = b
      · rw [hdb, hnextb]
        exact h1
      · rw [hnext d hd hdb]
        exact hI.gap d hd hdt
  · obtain ⟨hne, hdf⟩ := split_isFree.mp hdf
    have hd := Finset.mem_of_mem_insert_of_ne hd hne
    have hdb : d ≠ b := fun h => hbu (h ▸ hdf)
    rw [hnext d hd hdb] at hdn
    exact hI.hole d hd hdf (split_isFree.mp hdn).2
  · by_cases hdn : d = n
    · subst hdn
      exact .inr (Function.update_self ..)
    · have hd := Finset.mem_of_mem_insert_of_ne hd hdn
      refine (hI.magic d hd).imp (fun h => split_isFree.mpr ⟨hdn, h⟩) fun h => ?_
      exact (Function.update_of_ne hdn ..).trans h
  · by_cases hdn : d = n
    · subst hdn
      exact Function.update_self ..
    · have hd := Finset.mem_of_mem_insert_of_ne hd hdn
      exact (Function.update_of_ne hdn ..).trans (hI.pool d hd)
  · exact hI.tailUsed (split_isFree.mp h).2
  · rw [hI.mem, split_isFree, Finset.mem_insert]
    constructor
    · rintro ⟨hd, hdf⟩
      exact ⟨.inr hd, hnk d hd, hdf⟩
    · rintro ⟨hd, hne, hdf⟩
      exact ⟨hd.resolve_left hne, hdf⟩
  · rw [hfree, hI.sum]
    refine Finset.sum_congr rfl fun d hd => ?_
    obtain ⟨hd, hdf⟩ := mem_freeBlocks.mp hd
    unfold size
    rw [hnext d hd fun h => hbu (h ▸ hdf)]

/-- A used block becomes a part of the one before it; if that is free, the block behind it has to
be used. -/
theorem join (hI : Inv q A k fl v) (hc : c ∈ k) (hcs : c ≠ q.startAddr) (hct : c ≠ q.tail)
    (hcu : ¬A.IsFree c) (hn : A.IsFree (A.blocks.prev c) → ¬A.IsFree (A.blocks.next c)) :
    Inv q (A.join c) (k.erase c) fl
      (if A.IsFree (A.blocks.prev c) then v + A.size c + 24 else v) := by
  obtain ⟨hp, hpc⟩ := hI.around.next_prev hc
  obtain ⟨hlt, hpt⟩ := hI.around.prev_lt hc hcs
  have hblocks : (A.join c).blocks = A.blocks.unlink c := rfl
  have hnext : ∀ d, d ≠ A.blocks.prev c → (A.join c).blocks.next d = A.blocks.next d :=
    fun d hd => by rw [hblocks, unlink_next, if_neg hd]
  have hnextp : (A.join c).blocks.next (A.blocks.prev c) = A.blocks.next c := by
    rw [hblocks, unlink_next, if_pos rfl]
  have hgp := hI.gap _ hp hpt
  have hgc := hI.gap c hc hct
  have hfree : (A.join c).freeBlocks (k.erase c) = A.freeBlocks k := by
    ext d
    rw [mem_freeBlocks, mem_freeBlocks, Finset.mem_erase]
    exact ⟨fun h => ⟨h.1.2, h.2⟩, fun h => ⟨⟨fun he => hcu (he ▸ h.2), h.1⟩, h.2⟩⟩
  refine ⟨hI.around.unlink hc hcs hct, fun d hd hdt => ?_, fun d hd hdf hdn => ?_,
    fun d hd => hI.magic d (Finset.mem_of_mem_erase hd),
    fun d hd => hI.pool d (Finset.mem_of_mem_erase hd), hI.tailUsed, hI.ring, fun d => ?_, ?_⟩
  · have hd := Finset.mem_of_mem_erase hd
    by_cases hdp : d = A.blocks.prev c
    · rw [hdp, hnextp]
      omega
    · rw [hnext d hdp]
      exact hI.gap d hd hdt
  · have hd := Finset.mem_of_mem_erase hd
    by_cases hdp : d = A.blocks.prev c
    · rw [hdp, hnextp] at hdn
      exact hn (hdp ▸ hdf) hdn
    · rw [hnext d hdp] at hdn
      exact hI.hole d hd hdf hdn
  · rw [hI.mem, Finset.mem_erase]
    exact ⟨fun h => ⟨⟨fun he => hcu (he ▸ h.2), h.1⟩, h.2⟩, fun h => ⟨h.1.2, h.2⟩⟩
  · rw [hfree]
    have hother : ∀ d, d ≠ A.blocks.prev c → (A.join c).size d = A.size d := fun d hd => by
      unfold size
      rw [hnext d hd]
    split
    · rename_i hpf
      have hmem := mem_freeBlocks.mpr ⟨hp, hpf⟩
      have hrest : ∑ d ∈ (A.freeBlocks k).erase (A.blocks.prev c), (A.join c).size d =
          ∑ d ∈ (A.freeBlocks k).erase (A.blocks.prev c), A.size d :=
        Finset.sum_congr rfl fun d hd => hother d (Finset.ne_of_mem_erase hd)
      have hsum := Finset.add_sum_erase _ A.size hmem
      have hsum' := Finset.add_sum_erase _ (A.join c).size hmem
      have hp' : (A.join c).size (A.blocks.prev c) = A.size (A.blocks.prev c) + A.size c + 24 := by
        unfold size
        rw [hnextp]
        omega
      rw [hI.sum]
      omega
    · rename_i hpu
      rw [hI.sum]
      refine Finset.sum_congr rfl fun d hd => (hother d fun he => hpu ?_).symm
      exact he ▸ (mem_freeBlocks.mp hd).2

theorem join_kept (hpc : A.blocks.prev c = b ∨ A.IsFree (A.blocks.prev c)) :
    Kept b c A k (A.join c) (k.erase c) := by
  intro d hd hu hdb hdc
  refine ⟨Finset.mem_erase.mpr ⟨hdc, hd⟩, hu, ?_⟩
  have hdp : d ≠ A.blocks.prev c := fun he => hpc.elim (fun h => hdb (he.trans h)) fun h => hu (he ▸ h)
  exact unlink_next.trans (if_neg hdp)

/-! ## What the functions make of the changes -/

theorem take_join_isFree : ((A.take c).join c).IsFree d ↔ d ≠ c ∧ A.IsFree d := take_isFree

theorem split_release_isFree {a h : Nat} :
    ((A.split a b n).release h n).IsFree d ↔ d = n ∨ A.IsFree d := by
  rw [release_isFree, split_isFree]
  tauto

theorem take_others : Others b A k (A.take b) k where
  kept := take_kept
  only _ hd hu hdb := ⟨hd, fun hf => hu (take_isFree.mpr ⟨hdb, hf⟩)⟩

theorem release_others {h : Nat} : Others b A k (A.release h b) k where
  kept := release_kept
  only _ hd hu _ := ⟨hd, fun hf => hu (release_isFree.mpr (.inr hf))⟩

theorem join_others (hp : A.IsFree (A.blocks.prev b)) : Others b A k (A.join b) (k.erase b) where
  kept := join_kept (.inr hp)
  only _ hd hu _ := ⟨Finset.mem_of_mem_erase hd, hu⟩

theorem take_join_others (hc : A.IsFree c) (hp : A.blocks.prev c = b) :
    Others b A k ((A.take c).join c) (k.erase c) where
  kept d hd hu hdb _ := by
    have hdc : d ≠ c := fun he => hu (he ▸ hc)
    refine ⟨Finset.mem_erase.mpr ⟨hdc, hd⟩, fun hf => hu (take_join_isFree.mp hf).2, ?_⟩
    exact unlink_next.trans (if_neg (by rw [show (A.take c).blocks.prev c = b from hp]; exact hdb))
  only d hd hu _ := by
    obtain ⟨hdc, hd⟩ := Finset.mem_erase.mp hd
    exact ⟨hd, fun hf => hu (take_join_isFree.mpr ⟨hdc, hf⟩)⟩

theorem split_release_others {a h : Nat} (hn : ∀ d ∈ k, d ≠ n) :
    Others b A k ((A.split a b n).release h n) (insert n k) where
  kept d hd hu hdb _ := by
    refine ⟨Finset.mem_insert_of_mem hd, fun hf => ?_, ?_⟩
    · exact (split_release_isFree.mp hf).elim (hn d hd) hu
    · exact insertAfter_next.trans (by rw [if_neg hdb, if_neg (hn d hd)])
  only d hd hu _ := by
    rw [split_release_isFree, not_or] at hu
    exact ⟨Finset.mem_of_mem_insert_of_ne hd hu.1, hu.2⟩

/-- A used block takes the free one behind it. -/
theorem take_join (hI : Inv q A k fl v) (hb : b ∈ k) (hbt : b ≠ q.tail) (hbu : ¬A.IsFree b)
    (hc : A.IsFree (A.blocks.next b)) :
    Inv q ((A.take (A.blocks.next b)).join (A.blocks.next b)) (k.erase (A.blocks.next b))
      (fl.erase (A.blocks.next b)) (v - A.size (A.blocks.next b)) ∧
        A.size (A.blocks.next b) ≤ v := by
  obtain ⟨ht, hle⟩ := hI.take ((hI.mem _).mpr ⟨hI.next_mem hb, hc⟩)
  refine ⟨?_, hle⟩
  have hlt := hI.around.leads.lt b hb hbt
  have hs := hI.start_le hb
  have hprev : (A.take (A.blocks.next b)).blocks.prev (A.blocks.next b) = b := hI.around.prev b hb
  have hbu' : ¬(A.take (A.blocks.next b)).IsFree b := fun h => hbu (take_isFree.mp h).2
  have hj := ht.join (hI.next_mem hb) (by omega) (hI.ne_tail hc) (fun h => (take_isFree.mp h).1 rfl)
    (by rw [hprev]; exact fun h => absurd h hbu')
  rwa [hprev, if_neg hbu'] at hj

/-- The end of a used block before a used one is released. -/
theorem split_release (hI : Inv q A k fl v) (hq : q.Room) (hb : b ∈ k) (hbt : b ≠ q.tail)
    (hbu : ¬A.IsFree b) (hn : ¬A.IsFree (A.blocks.next b)) (h1 : b + 36 ≤ n)
    (h2 : n + 36 ≤ A.blocks.next b) :
    Inv q ((A.split q.addr b n).release q.freeList n) (insert n k) (n :: fl)
      (v + (A.blocks.next b - n - 24)) := by
  have hnext : (A.split q.addr b n).blocks.next n = A.blocks.next b :=
    insertAfter_next.trans (by rw [if_neg (by omega), if_pos rfl])
  have hprev : (A.split q.addr b n).blocks.prev n = b := insertAfter_prev.trans (if_pos rfl)
  have hle := hI.le_tail (hI.next_mem hb)
  have hr := (hI.split hb hbt hbu h1 h2).release hq (Finset.mem_insert_self n k) (by omega)
    (fun h => (split_isFree.mp h).1 rfl) (by rw [hnext]; exact fun h => hn (split_isFree.mp h).2)
    (by rw [hprev]; exact fun h => hbu (split_isFree.mp h).2)
  have hsize : (A.split q.addr b n).size n = A.blocks.next b - n - 24 := by
    unfold size
    rw [hnext]
  rwa [hsize] at hr

end Inv

end Items

end Tudu.Memheap
