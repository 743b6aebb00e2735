import Mathlib.Order.Interval.Finset.Nat
import TuduOS.Mem.MemheapOps

/-!
# Runs of a memory heap

* `Sys.Ok`: the memory shows the two lists, `available_size` is what the free blocks have together,
  and the live pointers are those of the used blocks.
* `Sys.store`: what the program sees, the bytes behind each live pointer. `Spec` says what a call
  may do to them; it knows no blocks and no lists.
* `memheap_integrity`, `memheap_refines`, `alloc_null_iff`: the results over all runs.
-/

namespace Tudu.Memheap

open Bytes Circular Circular.Links Lts

namespace Heap

variable {s t u : Heap} {k k' D : Finset Nat} {fl fl' rest l : List Nat} {v a b c d n p size : Nat}

/-! ## The search for a block -/

theorem findFit_spec (h : Good s k fl v) (hl : fl = l ++ rest) (fuel freeSize : Nat)
    (hfuel : rest.length + 2 ≤ fuel) (hlt : freeSize < size) :
    (∃ b ∈ rest, size ≤ s.items.size b ∧
      s.findFit size fuel ((rest ++ [s.pool.freeList]).headI) freeSize = some (b, s.items.size b)) ∨
    (∀ b ∈ rest, s.items.size b < size) ∧ ∃ f < size,
      s.findFit size fuel ((rest ++ [s.pool.freeList]).headI) freeSize = some (s.pool.freeList, f) := by
  obtain ⟨fuel, rfl⟩ : ∃ m, fuel = m + 1 := ⟨fuel - 1, by omega⟩
  induction rest generalizing l freeSize fuel with
  | nil =>
    refine .inr ⟨fun b hb => absurd hb List.not_mem_nil, freeSize, hlt, ?_⟩
    simp [findFit]
  | cons b rest ih =>
    obtain ⟨hbk, hbf⟩ := (h.inv.mem b).mp (hl ▸ by simp)
    have hne := h.inv.ne_freeList h.room hbk
    have hsize := h.memitemSize_eq hbk (h.inv.ne_tail hbf)
    have hnext : s.get .nextFree b = (rest ++ [s.pool.freeList]).headI := by
      have hr := (hl ▸ h.inv.ring).rotate
      cases rest with
      | nil => exact hr.next_head
      | cons c rest => exact hr.next_head
    rw [List.length_cons] at hfuel
    have hrun : s.findFit size (fuel + 1) b freeSize = if s.items.size b < size then
        s.findFit size fuel (s.get .nextFree b) (s.items.size b)
      else s.findFit size fuel b (s.items.size b) := by
      rw [findFit, if_pos ⟨hne, hlt⟩, hsize]
    obtain ⟨m, rfl⟩ : ∃ m, fuel = m + 1 := ⟨fuel - 1, by omega⟩
    show (∃ c ∈ b :: rest, _ ∧ s.findFit size (m + 1 + 1) b freeSize = _) ∨ _ ∧
      ∃ f < size, s.findFit size (m + 1 + 1) b freeSize = _
    rw [hrun]
    by_cases hfit : s.items.size b < size
    · simp only [if_pos hfit]
      rw [hnext]
      rcases ih (l := l ++ [b]) (by simp [hl]) (s.items.size b) hfit m (by omega) with
        ⟨c, hc, hle, hf⟩ | ⟨hall, hf⟩
      · exact .inl ⟨c, List.mem_cons_of_mem b hc, hle, hf⟩
      · refine .inr ⟨fun c hc => ?_, hf⟩
        rcases List.mem_cons.mp hc with rfl | hc
        · exact hfit
        · exact hall c hc
    · simp only [if_neg hfit]
      refine .inl ⟨b, List.mem_cons_self .., Nat.le_of_not_lt hfit, ?_⟩
      rw [findFit, if_neg fun hn => hfit hn.2]

theorem length_le (h : Good s k fl v) : fl.length ≤ s.pool.poolSize := by
  have hnd : fl.Nodup := (List.nodup_cons.mp h.inv.ring.2).2
  have hsub : fl.toFinset ⊆ Finset.Ico s.pool.startAddr (s.pool.startAddr + s.pool.poolSize) := by
    intro b hb
    have hbk := ((h.inv.mem b).mp (List.mem_toFinset.mp hb)).1
    have h1 := h.inv.start_le hbk
    have h2 := h.inv.le_tail hbk
    have h3 := h.room.tail
    exact Finset.mem_Ico.mpr ⟨h1, by omega⟩
  have hcard := Finset.card_le_card hsub
  rw [List.toFinset_card_of_nodup hnd, Nat.card_Ico] at hcard
  omega

theorem le_requestSize (size : Nat) : 12 ≤ requestSize size := by
  unfold requestSize memheapMinialloc
  split <;> omega

/-- `rt_memheap_alloc` takes a free block, or changes nothing: then the heap has no more bytes than
are asked for, or no block with as many. -/
theorem alloc_spec (h : Good s k fl s.availableSize) (size : Nat) :
    (s.rtMemheapAlloc size = some (s, 0) ∧ (s.availableSize ≤ requestSize size ∨
      ∀ b ∈ fl, s.items.size b < requestSize size)) ∨
    ∃ t b, s.rtMemheapAlloc size = some (t, b + memheapSize) ∧ b ∈ fl ∧
      requestSize size < s.availableSize ∧ Good.Taken s k b (requestSize size) t := by
  have h₁₂ := le_requestSize size
  unfold rtMemheapAlloc
  by_cases hav : requestSize size < s.availableSize
  · simp only [if_pos hav]
    have hhead : s.get .nextFree s.pool.freeList = (fl ++ [s.pool.freeList]).headI := by
      have hr := h.inv.ring
      cases fl with
      | nil => exact (isRing_nil.mp hr).1
      | cons b fl => exact hr.next_head
    rw [hhead]
    have hfuel : fl.length + 2 ≤ s.fuel := by
      have := length_le h
      unfold fuel
      omega
    have hpos : 0 < requestSize size := by omega
    rcases findFit_spec h (l := []) rfl s.fuel 0 hfuel hpos with
      ⟨b, hb, hle, hf⟩ | ⟨hall, f, hf, hrun⟩
    · obtain ⟨hbk, hbf⟩ := (h.inv.mem b).mp hb
      refine .inr ⟨s.allocBlock b (requestSize size) (s.items.size b), b, ?_, hb, hav, ?_⟩
      · rw [hf]
        simp only [if_pos hle]
      · by_cases hfit : add32 (add32 (requestSize size) memheapSize) memheapMinialloc ≤ s.items.size b
        · exact h.allocSplit hbk hbf h₁₂ hle rfl hfit
        · exact h.allocWhole hbk hbf hle rfl hfit
    · refine .inl ⟨?_, .inr hall⟩
      rw [hrun]
      simp only [if_neg (Nat.not_le_of_lt hf)]
  · simp only [if_neg hav]
    exact .inl ⟨trivial, .inl (Nat.le_of_not_lt hav)⟩

/-! ## Realloc -/

theorem sub32_header (b : Nat) : sub32 (b + 24) memheapSize = b := by
  unfold memheapSize
  rw [sub32_of_le (Nat.le_add_left ..), Nat.add_sub_cancel]

/-- `rt_memheap_free` of a block. -/
theorem free_spec (h : Good s k fl s.availableSize) (hb : b ∈ k) (hbt : b ≠ s.pool.tail)
    (hu : ¬s.items.IsFree b) :
    ∃ t, s.rtMemheapFree (b + memheapSize) = some t ∧ Good.Freed s k b t := by
  have hmagic : ∀ c ∈ k, s.get .magic c &&& memheapMask = memheapMagic := fun c hc => by
    rcases h.inv.magic c hc with hf | hused
    · rw [show s.get .magic c = memheapMagic from hf]
      decide
    · rw [show s.get .magic c = usedMagic from hused]
      decide
  have hok : s.FreeOk b :=
    ⟨hmagic b hb, (h.isUsed_iff hb).mpr hu, hmagic _ (h.inv.next_mem hb), h.inv.pool b hb⟩
  refine ⟨s.freeBlock b, ?_, h.freeBlock_spec hb hbt hu rfl⟩
  unfold rtMemheapFree
  rw [if_neg (by unfold memheapSize; omega), show sub32 (b + memheapSize) memheapSize = b from
    sub32_header b, if_pos hok]

/-- Bytes that are not of a header. -/
theorem Good.congr (h : Good s k fl v) (hp : t.pool = s.pool)
    (hm : ∀ a, ¬Outside (insert s.pool.freeList k) a → t.mem a = s.mem a) : Good t k fl v := by
  have hget : ∀ f, ∀ x ∈ insert s.pool.freeList k, t.get f x = s.get f x := fun f x hx =>
    memheapItem.load_congr fun a h1 h2 => hm a fun hout => by
      have hlen : memheapItem.len = 24 := rfl
      have := hout x hx
      omega
  refine ⟨hp ▸ h.room, ?_⟩
  rw [hp]
  exact h.inv.congr
    (fun x hx => ⟨hget .next x (Finset.mem_insert_of_mem hx), hget .prev x (Finset.mem_insert_of_mem hx),
      hget .magic x (Finset.mem_insert_of_mem hx), hget .poolPtr x (Finset.mem_insert_of_mem hx)⟩)
    fun x hx => ⟨hget .nextFree x (h.ring_mem hx), hget .prevFree x (h.ring_mem hx)⟩

/-- A change of bytes in the area of a used block. -/
theorem Good.write (h : Good s k fl v) (hb : b ∈ k) {m : Memory}
    (hm : ∀ a, ¬s.Area b a → m a = s.mem a) : Good { s with mem := m } k fl v ∧
      Keeps b s k { s with mem := m } k ∧ (∀ x ∈ k, ({ s with mem := m } : Heap).items.blocks.next x =
        s.items.blocks.next x ∧ (({ s with mem := m } : Heap).items.IsFree x ↔ s.items.IsFree x)) := by
  have hout : ∀ a, ¬Outside (insert s.pool.freeList k) a → m a = s.mem a := fun a ha =>
    hm a fun harea => ha (h.area_outside hb harea)
  have hget : ∀ f, ∀ x ∈ k, Heap.get { s with mem := m } f x = s.get f x := fun f x hx =>
    memheapItem.load_congr fun a h1 h2 => hout a fun ho => by
      have hlen : memheapItem.len = 24 := rfl
      have := ho x (Finset.mem_insert_of_mem hx)
      omega
  have hfree : ∀ x ∈ k, (({ s with mem := m } : Heap).items.IsFree x ↔ s.items.IsFree x) :=
    fun x hx => by
      show Heap.get _ .magic x = _ ↔ Heap.get _ .magic x = _
      rw [hget .magic x hx]
  refine ⟨h.congr rfl hout, ⟨rfl, ⟨fun d hd hu _ _ => ⟨hd, fun hf => hu ((hfree d hd).mp hf),
    hget .next d hd⟩, fun d hd hu _ => ⟨hd, fun hf => hu ((hfree d hd).mpr hf)⟩⟩,
    fun d hd _ hdb a ha => hm a fun harea => ?_⟩, fun x hx => ⟨hget .next x hx, hfree x hx⟩⟩
  have := h.area_apart hb hd hdb ha
  obtain ⟨h1, h2⟩ := harea
  omega

/-! ## What the program sees -/

/-- The bytes of a block. -/
def bytes (s : Heap) (b : Nat) : List UInt8 :=
  (List.range (s.items.size b)).map fun i => s.mem (b + 24 + i)

/-- `p` is the pointer of a used block with the bytes `bs`. -/
def At (s : Heap) (k : Finset Nat) (p : Nat) (bs : List UInt8) : Prop :=
  ∃ b ∈ k, p = b + 24 ∧ ¬s.items.IsFree b ∧ b ≠ s.pool.tail ∧ bs = s.bytes b

@[simp] theorem length_bytes (s : Heap) (b : Nat) : (s.bytes b).length = s.items.size b := by
  simp [bytes]

theorem bytes_congr (hn : t.items.blocks.next b = s.items.blocks.next b)
    (hm : ∀ a, s.Area b a → t.mem a = s.mem a) : t.bytes b = s.bytes b := by
  have hsize : t.items.size b = s.items.size b := congrArg (fun x => x - b - 24) hn
  unfold bytes
  rw [hsize]
  refine List.map_congr_left fun i hi => hm _ ⟨by omega, ?_⟩
  have hlt := List.mem_range.mp hi
  unfold Items.size at hlt
  show _ < s.items.blocks.next b
  omega

theorem bytes_take (hm : ∀ a, s.Area b a → a < b + 24 + n → t.mem a = s.mem a)
    (hs : n ≤ s.items.size b) (ht : n ≤ t.items.size b) :
    (t.bytes b).take n = (s.bytes b).take n := by
  refine List.ext_getElem (by simp [hs, ht]) fun i h1 h2 => ?_
  have hi : i < n := by
    rw [List.length_take] at h1
    omega
  simp only [bytes, List.getElem_take, List.getElem_map, List.getElem_range]
  refine hm _ ⟨by omega, ?_⟩ (by omega)
  unfold Items.size at hs
  show _ < s.items.blocks.next b
  omega

theorem at_self (hb : b ∈ k) (hu : ¬s.items.IsFree b) (hbt : b ≠ s.pool.tail) :
    At s k (b + 24) (s.bytes b) := ⟨b, hb, rfl, hu, hbt, rfl⟩

/-- The other used blocks. -/
theorem Keeps.at_iff (h : Keeps b s k t k') (hp : p ≠ b + 24) (bs : List UInt8) :
    At t k' p bs ↔ At s k p bs := by
  constructor
  · rintro ⟨d, hd, rfl, hu, hdt, rfl⟩
    have hdb : d ≠ b := fun he => hp (he ▸ rfl)
    obtain ⟨hd', hu'⟩ := h.others.only d hd hu hdb
    refine ⟨d, hd', rfl, hu', h.pool ▸ hdt, ?_⟩
    exact bytes_congr (h.others.kept d hd' hu' hdb hdb).2.2 fun a ha => h.mem d hd' hu' hdb a ha
  · rintro ⟨d, hd, rfl, hu, hdt, rfl⟩
    have hdb : d ≠ b := fun he => hp (he ▸ rfl)
    obtain ⟨hd', hu', hn⟩ := h.others.kept d hd hu hdb hdb
    refine ⟨d, hd', rfl, hu', h.pool ▸ hdt, ?_⟩
    exact (bytes_congr hn fun a ha => h.mem d hd hu hdb a ha).symm

theorem at_free {bs : List UInt8} (hf : b ∈ k → s.items.IsFree b) : ¬At s k (b + 24) bs := by
  rintro ⟨d, hd, he, hu, -, -⟩
  obtain rfl : b = d := by omega
  exact hu (hf hd)

/-- The block at `p` has become one of at least `size` bytes at `q`, with the first `n` bytes. -/
structure Gives (s : Heap) (k : Finset Nat) (p n size : Nat) (t : Heap) (q : Nat) : Prop where
  ne : q ≠ 0
  pool : t.pool = s.pool
  good : ∃ k' fl', Good t k' fl' t.availableSize ∧
    (∀ x, x ≠ p → x ≠ q → ∀ bs, At t k' x bs ↔ At s k x bs) ∧
    (q ≠ p → ∀ bs, ¬At t k' p bs ∧ ¬At s k q bs) ∧
    ∃ bs, At t k' q bs ∧ size ≤ bs.length ∧ ∀ bs0, At s k p bs0 → bs.take n = bs0.take n

theorem Good.Taken.gives (hT : Good.Taken s k b size t) (hbt : b ≠ s.pool.tail)
    (hn : n ≤ s.items.size b) (hn' : n ≤ size) : Gives s k (b + 24) n size t (b + 24) := by
  obtain ⟨k', fl', hgood, hkeeps, hb'⟩ := hT.good
  refine ⟨by omega, hkeeps.pool, k', fl', hgood, fun x hx _ bs => hkeeps.at_iff hx bs, fun hne => absurd rfl hne,
    t.bytes b, at_self hb' hT.used (hkeeps.pool ▸ hbt), by simpa using hT.le, ?_⟩
  rintro _ ⟨d, -, he, -, -, rfl⟩
  obtain rfl : b = d := by omega
  exact bytes_take (fun a ha hlt => hT.mem a ha (by omega)) hn (hn'.trans hT.le)

theorem requestSize_idem (n : Nat) : requestSize (requestSize n) = requestSize n := by
  have h := four_dvd_rtAlign n
  have hlt : rtAlign n < 2 ^ 32 := by
    unfold rtAlign
    omega
  unfold requestSize memheapMinialloc
  split
  · decide
  · have heq : rtAlign (rtAlign n) = rtAlign n := by
      unfold rtAlign at h hlt ⊢
      omega
    rw [heq, if_neg ‹_›]

/-- A block that cannot grow goes to a new one, or stays. -/
theorem move_spec (h : Good s k fl s.availableSize) (hb : b ∈ k) (hbt : b ≠ s.pool.tail)
    (hu : ¬s.items.IsFree b) (hsize : requestSize size = size) (hlt : s.items.size b < size) :
    ∃ t q, s.moveBlock (b + memheapSize) size (s.items.size b) = some (t, q) ∧
      (t = s ∧ q = 0 ∨ Gives s k (b + 24) (s.items.size b) size t q) := by
  rcases alloc_spec h size with ⟨hnull, -⟩ | ⟨u, c, halloc, hc, -, hT⟩
  · refine ⟨s, 0, ?_, .inl ⟨rfl, rfl⟩⟩
    unfold moveBlock
    rw [hnull]
    rfl
  · rw [hsize] at hT
    obtain ⟨hck, hcf⟩ := (h.inv.mem c).mp hc
    have hbc : b ≠ c := fun he => hu (he ▸ hcf)
    obtain ⟨k1, fl1, hg1, hk1, hc1⟩ := hT.good
    obtain ⟨hb1, hu1, -⟩ := hk1.others.kept b hb hu hbc hbc
    -- the bytes
    have hle : c + 24 + size ≤ u.get .next c := by
      have hle := hT.le
      have hgap := hg1.next_le hc1 (by rw [hk1.pool]; exact h.inv.ne_tail hcf)
      unfold Items.size at hle
      change size ≤ u.get .next c - c - 24 at hle
      omega
    obtain ⟨m, hm⟩ : ∃ m, copy u.mem (c + memheapSize) (b + memheapSize) (s.items.size b) = m :=
      ⟨_, rfl⟩
    obtain ⟨hg2, hk2, hitems⟩ := hg1.write hc1 (m := m) fun a ha => by
      rw [← hm]
      refine if_neg fun hr => ha ⟨hr.1, ?_⟩
      unfold memheapSize at hr
      omega
    obtain ⟨w, hw⟩ : ∃ w, ({ u with mem := m } : Heap) = w := ⟨_, rfl⟩
    have hwav : w.availableSize = u.availableSize := by rw [← hw]
    rw [hw, ← hwav] at hg2
    rw [hw] at hk2 hitems
    obtain ⟨t, hfree, k2, fl2, hg3, hk3, hb3⟩ := free_spec hg2 hb1
      (by rw [hk2.pool, hk1.pool]; exact hbt) fun hf => hu1 ((hitems b hb1).2.mp hf)
    refine ⟨t, c + memheapSize, ?_, .inr ⟨by unfold memheapSize; omega,
      hk3.pool.trans (hk2.pool.trans hk1.pool), k2, fl2, hg3, ?_, ?_, w.bytes c, ?_, ?_, ?_⟩⟩
    · unfold moveBlock
      rw [halloc]
      simp only [if_pos hlt, hm, hw, hfree]
      rw [if_neg (by unfold memheapSize; omega)]
      rfl
    · exact fun x hx hxc bs => (hk3.at_iff hx bs).trans ((hk2.at_iff hxc bs).trans (hk1.at_iff hxc bs))
    · exact fun _ bs => ⟨at_free hb3, at_free fun _ => hcf⟩
    · refine (hk3.at_iff (by unfold memheapSize; omega) _).mpr (at_self hc1 (fun hf => hT.used
        ((hitems c hc1).2.mp hf)) ?_)
      rw [hk2.pool, hk1.pool]
      exact h.inv.ne_tail hcf
    · rw [length_bytes]
      exact hT.le.trans_eq (congrArg (fun x => x - c - 24) (hitems c hc1).1).symm
    · rintro _ ⟨d, -, he, -, -, rfl⟩
      obtain rfl : b = d := by omega
      have hsc : w.items.size c = u.items.size c :=
        congrArg (fun x => x - c - 24) (hitems c hc1).1
      refine List.ext_getElem (by have := hT.le; simp; omega) fun i h1 h2 => ?_
      have hi : i < s.items.size b := by
        rw [List.length_take] at h1
        omega
      simp only [bytes, List.getElem_take, List.getElem_map, List.getElem_range]
      have hcopy : w.mem (c + 24 + i) = u.mem (b + 24 + i) := by
        rw [← hw, ← hm]
        refine (if_pos ⟨Nat.le_add_right .., by unfold memheapSize; omega⟩).trans ?_
        rw [show c + 24 + i - (c + memheapSize) = i by unfold memheapSize; omega]
        rfl
      rw [hcopy]
      refine hk1.mem b hb hu hbc _ ⟨by omega, ?_⟩
      unfold Items.size at hi
      show _ < s.items.blocks.next b
      omega

/-- `rt_memheap_realloc` of a block. `size + 12` must not wrap. -/
theorem resize_spec (h : Good s k fl s.availableSize) (hb : b ∈ k) (hbt : b ≠ s.pool.tail)
    (hu : ¬s.items.IsFree b) (hsize : requestSize size = size) (hwrap : size + 12 < 2 ^ 32) :
    ∃ t q, s.resizeBlock b size = some (t, q) ∧
      (t = s ∧ q = 0 ∨ Gives s k (b + 24) (min (s.items.size b) size) size t q) := by
  have h₁₂ : 12 ≤ size := hsize ▸ le_requestSize size
  have hgap := h.next_le hb hbt
  have hend := h.node_lt (h.inv.next_mem hb)
  change s.get .next b + 24 ≤ _ at hend
  have hold : s.items.size b = s.get .next b - b - 24 := rfl
  unfold resizeBlock
  simp only [h.memitemSize_eq hb hbt]
  by_cases hlt : s.items.size b < size
  · rw [if_pos hlt, if_pos (show b < s.get .next b by omega), min_eq_left hlt.le]
    by_cases hgrow : ¬s.IsUsed (s.get .next b) ∧ add32 size memheapMinialloc <
        add32 (s.memitemSize (s.get .next b)) (s.items.size b)
    · have hf : s.items.IsFree (s.items.blocks.next b) :=
        not_not.mp fun hn => hgrow.1 ((h.isUsed_iff (h.inv.next_mem hb)).mpr hn)
      have hfit := hgrow.2
      rw [h.memitemSize_eq (b := s.get .next b) (h.inv.next_mem hb) (h.inv.ne_tail hf)] at hfit
      rw [if_pos hgrow]
      refine ⟨_, _, rfl, .inr ?_⟩
      exact (h.growBlock hb hbt hu hf rfl h₁₂ hlt hwrap hfit).gives hbt (Nat.le_refl _) hlt.le
    · rw [if_neg hgrow]
      exact move_spec h hb hbt hu hsize hlt
  · rw [if_neg hlt, min_eq_right (Nat.le_of_not_lt hlt)]
    unfold memheapSize memheapMinialloc
    rw [add32_of_lt (show size + 24 < 2 ^ 32 by omega), add32_of_lt (show size + 24 + 12 < 2 ^ 32 by omega)]
    split
    · refine ⟨s, b + 24, rfl, .inr ⟨by omega, rfl, k, fl, h, fun _ _ _ _ => Iff.rfl,
        fun hne => absurd rfl hne, s.bytes b, at_self hb hu hbt, by rw [length_bytes]; omega, ?_⟩⟩
      rintro _ ⟨d, -, he, -, -, rfl⟩
      obtain rfl : b = d := by omega
      rfl
    · exact ⟨_, _, rfl, .inr ((h.shrinkBlock hb hbt hu rfl h₁₂ (by omega)).gives hbt (by omega)
        (Nat.le_refl _))⟩

end Heap

/-! ## Runs -/

open Heap

/-- `n` is a size that `rt_memheap_realloc` does not wrap; `rt_memheap_alloc` takes 12 more. -/
def SizeOk : Act → Prop
  | .alloc size => size + 4 ≤ 2 ^ 32
  | .realloc _ newsize => newsize + 16 ≤ 2 ^ 32
  | _ => True

instance : DecidablePred SizeOk
  | .alloc size => inferInstanceAs (Decidable (size + 4 ≤ 2 ^ 32))
  | .free _ => inferInstanceAs (Decidable True)
  | .realloc _ newsize => inferInstanceAs (Decidable (newsize + 16 ≤ 2 ^ 32))
  | .write _ _ => inferInstanceAs (Decidable True)

theorem le_requestSize_of {n : Nat} (h : n + 4 ≤ 2 ^ 32) : n ≤ requestSize n := by
  have := rtAlign_spec (show n ≤ 2 ^ 32 - 4 by omega)
  unfold requestSize memheapMinialloc
  split <;> omega

theorem requestSize_add_lt {n : Nat} (h : n + 16 ≤ 2 ^ 32) : requestSize n + 12 < 2 ^ 32 := by
  have := rtAlign_spec (show n ≤ 2 ^ 32 - 4 by omega)
  unfold requestSize memheapMinialloc
  split <;> omega

namespace Sys

/-- The heap is well formed, and the live pointers are those of the used blocks. -/
structure Ok (s : Sys) (k : Finset Nat) (fl : List Nat) : Prop where
  good : Good s.heap k fl s.heap.availableSize
  live : ∀ p, p ∈ s.live ↔ ∃ bs, At s.heap k p bs

/-- The bytes behind a live pointer. -/
def store (s : Sys) (p : Nat) : Option (List UInt8) :=
  if p ∈ s.live then some ((List.range (s.heap.usable p)).map fun i => s.heap.mem (p + i)) else none

end Sys

/-- What a call may do to the bytes of the program. -/
inductive Spec (σ : Nat → Option (List UInt8)) : Act → (Nat → Option (List UInt8)) → Prop
  | null (size : Nat) : Spec σ (.alloc size) σ
  | alloc {size p : Nat} {bs : List UInt8} (hp : p ≠ 0) (hnew : σ p = none) (hle : size ≤ bs.length) :
      Spec σ (.alloc size) (Function.update σ p (some bs))
  | free (p : Nat) : Spec σ (.free p) (Function.update σ p none)
  | reallocFree (p : Nat) : Spec σ (.realloc p 0) (Function.update σ p none)
  | reallocNull {p newsize : Nat} (hn : newsize ≠ 0) : Spec σ (.realloc p newsize) σ
  | reallocNew {newsize p : Nat} {bs : List UInt8} (hp : p ≠ 0) (hnew : σ p = none)
      (hle : newsize ≤ bs.length) : Spec σ (.realloc 0 newsize) (Function.update σ p (some bs))
  | realloc {p newsize q : Nat} {bs bs' : List UInt8} (hs : σ p = some bs) (hq : q ≠ 0)
      (hnew : q = p ∨ σ q = none) (hle : newsize ≤ bs'.length)
      (hkeep : bs'.take (min bs.length newsize) = bs.take (min bs.length newsize)) :
      Spec σ (.realloc p newsize) (Function.update (Function.update σ p none) q (some bs'))
  | write {p a : Nat} {bs : List UInt8} {v : UInt8} (hs : σ p = some bs) (ha : p ≤ a)
      (hlt : a < p + bs.length) :
      Spec σ (.write a v) (Function.update σ p (some (bs.set (a - p) v)))

namespace Sys

/-- What a call needs: a pointer that may be freed, or an address in a block. -/
def Allowed (s : Sys) : Act → Prop
  | .alloc _ => True
  | .free p | .realloc p _ => s.MayFree p
  | .write a _ => ∃ p ∈ s.live, p ≤ a ∧ a < p + s.heap.usable p

variable {s s' : Sys} {k : Finset Nat} {fl : List Nat} {p q n size newsize a : Nat} {t : Heap}
  {bs : List UInt8} {v : UInt8}

namespace Ok

theorem at_unique {bs' : List UInt8} (h : At s.heap k p bs) (h' : At s.heap k p bs') : bs = bs' := by
  obtain ⟨b, -, rfl, -, -, rfl⟩ := h
  obtain ⟨c, -, he, -, -, rfl⟩ := h'
  obtain rfl : b = c := by omega
  rfl

theorem zero (h : Ok s k fl) : 0 ∉ s.live := fun hp => by
  obtain ⟨-, b, -, he, -⟩ := (h.live 0).mp hp
  omega

theorem usable_eq (h : Ok s k fl) {b : Nat} (hb : b ∈ k) (hbt : b ≠ s.heap.pool.tail) :
    s.heap.usable (b + 24) = s.heap.items.size b := by
  unfold usable
  rw [sub32_header]
  exact h.good.memitemSize_eq hb hbt

theorem store_eq_some (h : Ok s k fl) : s.store p = some bs ↔ At s.heap k p bs := by
  have hsome : ∀ bs, At s.heap k p bs → s.store p = some bs := by
    rintro _ ⟨b, hb, rfl, hu, hbt, rfl⟩
    unfold store
    rw [if_pos ((h.live _).mpr ⟨_, at_self hb hu hbt⟩), h.usable_eq hb hbt]
    rfl
  refine ⟨fun hs => ?_, hsome bs⟩
  have hp : p ∈ s.live := by
    by_contra hp
    rw [store, if_neg hp] at hs
    cases hs
  obtain ⟨bs', hat⟩ := (h.live p).mp hp
  exact Option.some.inj ((hsome bs' hat).symm.trans hs) ▸ hat

theorem store_eq_none (h : Ok s k fl) : s.store p = none ↔ ∀ bs, ¬At s.heap k p bs := by
  rw [Option.eq_none_iff_forall_ne_some]
  exact forall_congr' fun bs => not_congr h.store_eq_some

theorem drop_of_notMem (hp : p ∉ s.live) : s.drop p = s.live :=
  List.filter_eq_self.mpr fun _ hx => decide_eq_true fun he => hp (he ▸ hx)

theorem update_none (hp : p ∉ s.live) : Function.update s.store p none = s.store :=
  Function.update_eq_self_iff.mpr (if_neg hp).symm

/-- A block that is freed. -/
theorem freed (h : Ok s k fl) {b : Nat} (hF : Good.Freed s.heap k b t) :
    t.pool = s.heap.pool ∧ (∃ k' fl', Ok ⟨t, s.drop (b + 24)⟩ k' fl') ∧
      Sys.store ⟨t, s.drop (b + 24)⟩ = Function.update s.store (b + 24) none := by
  obtain ⟨k', fl', hgood, hkeeps, hfree⟩ := hF.good
  have hat : ∀ x bs, At t k' x bs ↔ x ≠ b + 24 ∧ At s.heap k x bs := fun x bs => by
    by_cases hx : x = b + 24
    · rw [hx]
      exact ⟨fun h => absurd h (at_free hfree), fun h => absurd rfl h.1⟩
    · rw [hkeeps.at_iff hx]
      exact ⟨fun h => ⟨hx, h⟩, fun h => h.2⟩
  have hok : Ok ⟨t, s.drop (b + 24)⟩ k' fl' := by
    refine ⟨hgood, fun x => ?_⟩
    simp only [hat, drop, List.mem_filter, decide_eq_true_eq, h.live x]
    exact ⟨fun ⟨⟨bs, h⟩, hx⟩ => ⟨bs, hx, h⟩, fun ⟨bs, hx, h⟩ => ⟨⟨bs, h⟩, hx⟩⟩
  refine ⟨hkeeps.pool, ⟨k', fl', hok⟩, funext fun x => Option.ext fun bs => ?_⟩
  rw [hok.store_eq_some, hat, ← h.store_eq_some, Function.update_apply]
  split <;> simp [*]

/-- A block that is new, or resized. -/
theorem gives (h : Ok s k fl) (hG : Gives s.heap k p n size t q) : t.pool = s.heap.pool ∧
    (∃ k' fl', Ok ⟨t, q :: s.drop p⟩ k' fl') ∧ (q = p ∨ s.store q = none) ∧ q ≠ 0 ∧
      ∃ bs, size ≤ bs.length ∧ (∀ bs0, s.store p = some bs0 → bs.take n = bs0.take n) ∧
        Sys.store ⟨t, q :: s.drop p⟩ = Function.update (Function.update s.store p none) q (some bs) := by
  obtain ⟨k', fl', hgood, hother, hnew, bs, hq, hle, htake⟩ := hG.good
  have hlive : ∀ x, x ∈ q :: s.drop p ↔ x = q ∨ x ≠ p ∧ ∃ bs, At s.heap k x bs := fun x => by
    simp only [drop, List.mem_cons, List.mem_filter, decide_eq_true_eq, h.live x]
    tauto
  have hok : Ok ⟨t, q :: s.drop p⟩ k' fl' := by
    refine ⟨hgood, fun x => (hlive x).trans ?_⟩
    by_cases hxq : x = q
    · rw [hxq]
      exact ⟨fun _ => ⟨bs, hq⟩, fun _ => .inl rfl⟩
    · by_cases hxp : x = p
      · have hqp : q ≠ p := fun he => hxq (hxp.trans he.symm)
        rw [hxp]
        exact ⟨fun h => absurd rfl (h.resolve_left (Ne.symm hqp)).1,
          fun ⟨bs, h⟩ => absurd h (hnew hqp bs).1⟩
      · exact ⟨fun hx => (hx.resolve_left hxq).2.imp fun bs => (hother x hxp hxq bs).mpr,
          fun hx => .inr ⟨hxp, hx.imp fun bs => (hother x hxp hxq bs).mp⟩⟩
  refine ⟨hG.pool, ⟨k', fl', hok⟩, ?_, hG.ne, bs, hle, fun bs0 hs => htake bs0 (h.store_eq_some.mp hs),
    funext fun x => ?_⟩
  · by_cases hqp : q = p
    · exact .inl hqp
    · exact .inr (h.store_eq_none.mpr fun bs => (hnew hqp bs).2)
  · rw [Function.update_apply, Function.update_apply]
    split
    · next hx => exact hok.store_eq_some.mpr (hx ▸ hq)
    · next hxq =>
      split
      · next hxp =>
        have hqp : q ≠ p := fun he => hxq (hxp.trans he.symm)
        exact hok.store_eq_none.mpr fun bs => hxp ▸ (hnew hqp bs).1
      · next hxp =>
        refine Option.ext fun bs => ?_
        rw [hok.store_eq_some, h.store_eq_some]
        exact hother x hxp hxq bs

theorem exists_block (h : Ok s k fl) (hp : p ∈ s.live) : ∃ b ∈ k, p = b + 24 ∧
    ¬s.heap.items.IsFree b ∧ b ≠ s.heap.pool.tail ∧ s.store p = some (s.heap.bytes b) := by
  obtain ⟨-, b, hb, rfl, hu, hbt, -⟩ := (h.live p).mp hp
  exact ⟨b, hb, rfl, hu, hbt, h.store_eq_some.mpr (at_self hb hu hbt)⟩

/-- What follows a call: it is defined, and does what `Spec` allows. -/
def Runs (s : Sys) (a : Act) : Prop :=
  ∃ s', s.step a = some s' ∧ s'.heap.pool = s.heap.pool ∧ (∃ k' fl', Ok s' k' fl') ∧
    Spec s.store a s'.store

theorem same (h : Ok s k fl) {a : Act} (hs : s.step a = some s) (hσ : Spec s.store a s.store) :
    Runs s a := ⟨s, hs, rfl, ⟨k, fl, h⟩, hσ⟩

/-- `rt_memheap_alloc` in the system: nothing, or a new block. -/
theorem alloc_cases (h : Ok s k fl) (size : Nat) : s.heap.rtMemheapAlloc size = some (s.heap, 0) ∨
    ∃ t p bs, s.heap.rtMemheapAlloc size = some (t, p) ∧ p ≠ 0 ∧ s.store p = none ∧
      requestSize size ≤ bs.length ∧ t.pool = s.heap.pool ∧ (∃ k' fl', Ok ⟨t, p :: s.live⟩ k' fl') ∧
      Sys.store ⟨t, p :: s.live⟩ = Function.update s.store p (some bs) := by
  rcases alloc_spec h.good size with ⟨hnull, -⟩ | ⟨t, b, halloc, hb, -, hT⟩
  · exact .inl hnull
  · obtain ⟨-, hf⟩ := (h.good.inv.mem b).mp hb
    have hp : b + 24 ∉ s.live := fun hp => by
      obtain ⟨bs, hat⟩ := (h.live _).mp hp
      exact at_free (fun _ => hf) hat
    obtain ⟨hpool, hok, -, hne, bs, hle, -, hstore⟩ :=
      h.gives (hT.gives (h.good.inv.ne_tail hf) (Nat.zero_le _) (Nat.zero_le _))
    rw [drop_of_notMem hp, Function.update_idem] at hstore
    rw [drop_of_notMem hp] at hok
    exact .inr ⟨t, b + 24, bs, halloc, hne, if_neg hp, hle, hpool, hok, hstore⟩

theorem step_free (h : Ok s k fl) (hp : s.MayFree p) : ∃ t, s.heap.rtMemheapFree p = some t ∧
    t.pool = s.heap.pool ∧ (∃ k' fl', Ok ⟨t, s.drop p⟩ k' fl') ∧
      Sys.store ⟨t, s.drop p⟩ = Function.update s.store p none := by
  rcases hp with rfl | hp
  · refine ⟨s.heap, rfl, rfl, ⟨k, fl, ?_⟩, ?_⟩
    · rw [drop_of_notMem h.zero]
      exact h
    · rw [drop_of_notMem h.zero, update_none h.zero]
  · obtain ⟨b, hb, rfl, hu, hbt, -⟩ := h.exists_block hp
    obtain ⟨t, hfree, hF⟩ := free_spec h.good hb hbt hu
    exact ⟨t, hfree, h.freed hF⟩

theorem step_realloc (h : Ok s k fl) (hp : s.MayFree p) (hn : newsize ≠ 0)
    (hs : newsize + 16 ≤ 2 ^ 32) : Runs s (.realloc p newsize) := by
  have hrun : ∀ r, s.heap.rtMemheapRealloc p newsize = some r → s.step (.realloc p newsize) =
      some (give (if r.2 = 0 ∧ newsize ≠ 0 then s.live else s.drop p) r) := fun r hr => by
    show (if s.MayFree p then _ else none) = _
    rw [if_pos hp, hr]
    rfl
  have hnull : s.heap.rtMemheapRealloc p newsize = some (s.heap, 0) → Runs s (.realloc p newsize) :=
    fun hr => h.same ((hrun _ hr).trans (by rw [if_pos ⟨rfl, hn⟩]; rfl)) (.reallocNull hn)
  unfold rtMemheapRealloc at hrun hnull
  rw [if_neg hn] at hrun hnull
  have hle := le_requestSize_of (show newsize + 4 ≤ 2 ^ 32 by omega)
  rcases hp with rfl | hp
  · rw [if_pos rfl] at hrun hnull
    rcases h.alloc_cases (requestSize newsize) with hr |
      ⟨t, p, bs, hr, hne, hnew, hle', hpool, hok, hstore⟩
    · exact hnull hr
    · rw [requestSize_idem] at hle'
      refine ⟨⟨t, p :: s.live⟩, (hrun _ hr).trans ?_, hpool, hok, ?_⟩
      · rw [if_neg fun he => hne he.1, drop_of_notMem h.zero, give, if_neg hne]
      · rw [hstore]
        exact .reallocNew hne hnew (hle.trans hle')
  · obtain ⟨b, hb, rfl, hu, hbt, hσ⟩ := h.exists_block hp
    rw [if_neg (by omega), sub32_header] at hrun hnull
    obtain ⟨t, q, hr, hnone | hG⟩ := resize_spec h.good hb hbt hu (requestSize_idem newsize)
      (requestSize_add_lt hs)
    · obtain ⟨rfl, rfl⟩ := hnone
      exact hnull hr
    · obtain ⟨hpool, hok, hqp, hq, bs, hle', htake, hstore⟩ := h.gives hG
      refine ⟨⟨t, q :: s.drop (b + 24)⟩, (hrun _ hr).trans ?_, hpool, hok, ?_⟩
      · rw [if_neg fun he => hq he.1, give, if_neg hq]
      · rw [hstore]
        refine .realloc hσ hq hqp (hle.trans hle') ?_
        have hmin : min (s.heap.bytes b).length newsize ≤
            min (s.heap.items.size b) (requestSize newsize) := by
          rw [length_bytes]
          omega
        have h1 := congrArg (List.take (min (s.heap.bytes b).length newsize)) (htake _ hσ)
        rwa [List.take_take, List.take_take, min_eq_left hmin] at h1

theorem step_write (h : Ok s k fl) (ha : s.Allowed (.write a v)) : Runs s (.write a v) := by
  obtain ⟨p, hp, h1, h2⟩ := ha
  obtain ⟨b, hb, rfl, hu, hbt, hσ⟩ := h.exists_block hp
  rw [h.usable_eq hb hbt] at h2
  have hgap := h.good.next_le hb hbt
  have hsize : s.heap.items.size b = s.heap.get .next b - b - 24 := rfl
  obtain ⟨hgood, hkeeps, hitems⟩ := h.good.write hb (m := Function.update s.heap.mem a v)
    fun x hx => Function.update_of_ne (fun he => hx (by rw [he]; exact ⟨h1, by omega⟩)) ..
  obtain ⟨t, ht⟩ : ∃ t, ({ s.heap with mem := Function.update s.heap.mem a v } : Heap) = t := ⟨_, rfl⟩
  have htav : t.availableSize = s.heap.availableSize := by rw [← ht]
  rw [ht, ← htav] at hgood
  rw [ht] at hkeeps hitems
  have hut : At t k (b + 24) (t.bytes b) :=
    at_self hb (fun hf => hu ((hitems b hb).2.mp hf)) (hkeeps.pool ▸ hbt)
  have hok : Ok ⟨t, s.live⟩ k fl := by
    refine ⟨hgood, fun x => ?_⟩
    by_cases hx : x = b + 24
    · rw [hx]
      exact ⟨fun _ => ⟨_, hut⟩, fun _ => hp⟩
    · exact (h.live x).trans (exists_congr fun bs => (hkeeps.at_iff hx bs).symm)
  have hbytes : t.bytes b = (s.heap.bytes b).set (a - (b + 24)) v := by
    have hs : t.items.size b = s.heap.items.size b := congrArg (fun x => x - b - 24) (hitems b hb).1
    refine List.ext_getElem (by simp [hs]) fun i h3 h4 => ?_
    rw [List.getElem_set]
    simp only [bytes, List.getElem_map, List.getElem_range, ← ht, Function.update_apply]
    grind
  refine ⟨⟨t, s.live⟩, ?_, hkeeps.pool, ⟨k, fl, hok⟩, ?_⟩
  · show (if _ then _ else none) = _
    rw [if_pos ⟨b + 24, hp, h1, by rw [h.usable_eq hb hbt]; exact h2⟩, ← ht]
  · have hstore : Sys.store ⟨t, s.live⟩ = Function.update s.store (b + 24)
        (some ((s.heap.bytes b).set (a - (b + 24)) v)) := by
      refine funext fun x => Option.ext fun bs => ?_
      rw [hok.store_eq_some, Function.update_apply]
      split
      · next hx =>
        rw [hx, ← hbytes, Option.some.injEq]
        exact ⟨fun hat => at_unique (s := ⟨t, s.live⟩) hut hat, fun he => he ▸ hut⟩
      · next hx => rw [h.store_eq_some, hkeeps.at_iff hx]
    rw [hstore]
    exact .write hσ h1 (by rw [length_bytes]; omega)

/-- The step lemma. -/
theorem step (h : Ok s k fl) {act : Act} (hs : SizeOk act) (ha : s.Allowed act) : Runs s act := by
  cases act with
  | alloc size =>
    rcases h.alloc_cases size with hr | ⟨t, p, bs, hr, hne, hnew, hle, hpool, hok, hstore⟩
    · refine h.same ?_ (.null size)
      show (s.heap.rtMemheapAlloc size).map _ = _
      rw [hr]
      rfl
    · refine ⟨⟨t, p :: s.live⟩, ?_, hpool, hok, ?_⟩
      · show (s.heap.rtMemheapAlloc size).map _ = _
        rw [hr, Option.map_some, give, if_neg hne]
      · rw [hstore]
        exact .alloc hne hnew ((le_requestSize_of hs).trans hle)
  | free p =>
    obtain ⟨t, hr, hpool, hok, hstore⟩ := h.step_free ha
    refine ⟨⟨t, s.drop p⟩, ?_, hpool, hok, hstore ▸ .free p⟩
    show (if s.MayFree p then _ else none) = _
    rw [if_pos (show s.MayFree p from ha), hr]
    rfl
  | realloc p newsize =>
    by_cases hn : newsize = 0
    · subst hn
      obtain ⟨t, hr, hpool, hok, hstore⟩ := h.step_free ha
      refine ⟨⟨t, s.drop p⟩, ?_, hpool, hok, hstore ▸ .reallocFree p⟩
      show (if s.MayFree p then _ else none) = _
      rw [if_pos (show s.MayFree p from ha), rtMemheapRealloc, if_pos rfl, hr]
      rfl
    · exact h.step_realloc ha hn hs
  | write a v => exact h.step_write ha

end Ok

end Sys

/-! ## The start -/

/-- One free block before the tailer. -/
theorem Items.Inv.two {q : Pool} {A : Items} (hq : q.Room)
    (hA : (A.blocks.next q.startAddr = q.tail ∧ A.blocks.next q.tail = q.startAddr ∧
      A.blocks.prev q.startAddr = q.tail ∧ A.blocks.prev q.tail = q.startAddr) ∧
      (A.free.next q.freeList = q.startAddr ∧ A.free.prev q.freeList = q.startAddr ∧
      A.free.next q.startAddr = q.freeList ∧ A.free.prev q.startAddr = q.freeList) ∧
      (A.magic q.startAddr = memheapMagic ∧ A.magic q.tail = usedMagic) ∧
      A.pool q.startAddr = q.addr ∧ A.pool q.tail = q.addr) :
    Items.Inv q A {q.startAddr, q.tail} [q.startAddr] (q.poolSize - 48) := by
  obtain ⟨hb, hf, hm, hp⟩ := hA
  have htail := hq.tail
  have hsize := hq.size
  have hapart := hq.apart
  have hlt : q.startAddr < q.tail := by omega
  have hmem : ∀ b, b ∈ ({q.startAddr, q.tail} : Finset Nat) ↔ b = q.startAddr ∨ b = q.tail := by simp
  have hne : memheapMagic ≠ usedMagic := by decide
  have hfree : A.freeBlocks {q.startAddr, q.tail} = {q.startAddr} := by
    ext b
    rw [Items.mem_freeBlocks, hmem, Finset.mem_singleton, Items.IsFree]
    constructor
    · rintro ⟨rfl | rfl, hf⟩
      · rfl
      · exact absurd (hf.symm.trans hm.2) hne
    · rintro rfl
      exact ⟨.inl rfl, hm.1⟩
  refine ⟨⟨⟨(hmem _).mpr (.inr rfl), ?_, ?_, ?_, ?_⟩, (hmem _).mpr (.inl rfl), ?_, hb.2.1, ?_⟩, ?_, ?_,
    ?_, ?_, ?_, ?_, ?_, ?_⟩
  · rintro b hb
    rcases (hmem b).mp hb with rfl | rfl <;> omega
  · rintro b hbk hbt
    rcases (hmem b).mp hbk with rfl | rfl
    · exact (hmem _).mpr (.inr hb.1)
    · exact absurd rfl hbt
  · rintro b hbk hbt
    rcases (hmem b).mp hbk with rfl | rfl
    · omega
    · exact absurd rfl hbt
  · rintro b hbk c hck hlt
    rcases (hmem b).mp hbk with rfl | rfl <;> rcases (hmem c).mp hck with rfl | rfl <;> omega
  · rintro b hbk
    rcases (hmem b).mp hbk with rfl | rfl <;> omega
  · rintro b hbk
    rcases (hmem b).mp hbk with rfl | rfl
    · rw [hb.1, hb.2.2.2]
    · rw [hb.2.1, hb.2.2.1]
  · rintro b hbk hbt
    rcases (hmem b).mp hbk with rfl | rfl
    · omega
    · exact absurd rfl hbt
  · rintro b hbk hf hn
    rcases (hmem b).mp hbk with rfl | rfl
    · rw [hb.1] at hn
      exact hne (hn.symm.trans hm.2)
    · exact hne (hf.symm.trans hm.2)
  · rintro b hbk
    rcases (hmem b).mp hbk with rfl | rfl
    · exact .inl hm.1
    · exact .inr hm.2
  · rintro b hbk
    rcases (hmem b).mp hbk with rfl | rfl
    · exact hp.1
    · exact hp.2
  · exact fun hf => hne (hf.symm.trans hm.2)
  · have hn : q.freeList ≠ q.startAddr := by omega
    simp [IsRing, Adj, hf, hn]
  · intro b
    rw [List.mem_singleton, hmem, Items.IsFree]
    constructor
    · rintro rfl
      exact ⟨.inl rfl, hm.1⟩
    · rintro ⟨rfl | rfl, hf⟩
      · rfl
      · exact absurd (hf.symm.trans hm.2) hne
  · rw [hfree, Finset.sum_singleton, Items.size, hb.1]
    omega

theorem init_ok {m : Memory} {q : Pool} {size : Nat} (hq : q.Room)
    (hp : rtAlignDown size = q.poolSize) :
    Sys.Ok ⟨rtMemheapInit m q.addr q.freeList q.startAddr size, []⟩ {q.startAddr, q.tail}
      [q.startAddr] := by
  obtain ⟨tail, ht0⟩ : ∃ tail, q.tail = tail := ⟨_, rfl⟩
  have hsize := hq.size
  have htl := hq.tail
  have hend := hq.poolEnd
  have hfend := hq.freeEnd
  have hapart := hq.apart
  rw [ht0] at htl
  obtain ⟨av, hav⟩ : ∃ av, sub32 q.poolSize (2 * memheapSize) = av := ⟨_, rfl⟩
  have hav' : av = q.poolSize - 48 := by
    rw [← hav]
    exact sub32_of_le (show 2 * memheapSize ≤ q.poolSize by unfold memheapSize; omega)
  have htail : add32 (add32 q.startAddr av) memheapSize = tail := by
    unfold memheapSize
    rw [add32_of_lt (show q.startAddr + av < 2 ^ 32 by omega), add32_of_lt (by omega)]
    omega
  -- the three headers
  obtain ⟨D, hD₀⟩ : ∃ D : Finset Nat, D = {q.freeList, q.startAddr, tail} := ⟨_, rfl⟩
  have hf : q.freeList ∈ D := by simp [hD₀]
  have hs : q.startAddr ∈ D := by simp [hD₀]
  have ht : tail ∈ D := by simp [hD₀]
  have hD : Nodes D := by
    constructor <;> simp only [hD₀, Finset.mem_insert, Finset.mem_singleton] <;> omega
  have hfs : q.freeList ≠ q.startAddr := by omega
  have hft : q.freeList ≠ tail := by omega
  have hst : q.startAddr ≠ tail := by omega
  have hmagic : memheapMagic < 2 ^ 32 := by decide
  have hused : usedMagic < 2 ^ 32 := by decide
  have hz : 0 < 2 ^ 32 := by decide
  have hslt := hD.lt _ hs
  have htlt := hD.lt _ ht
  have hflt := hD.lt _ hf
  have h1 := ((((((Shows.refl D (⟨m, q, av, sub32 q.poolSize av⟩ : Heap)).set hD .magic hf hmagic).set
    hD .poolPtr hf hq.addr).set hD .next hf hz).set hD .prev hf hz).set hD .nextFree hf hflt).set hD
      .prevFree hf hflt
  have h2 := (((((((h1.set hD .magic hs hmagic).set hD .poolPtr hs hq.addr).set hD .next hs hz).set hD
    .prev hs hz).set hD .nextFree hs hslt).set hD .prevFree hs hslt).set hD .next hs htlt)
  have hr2 := h2.get .next q.startAddr hs
  rw [Items.get_set, if_pos ⟨rfl, rfl⟩] at hr2
  have h3 := h2.set hD .prev hs htlt
  have h4 := h3.insertFree hD hf hs (by
      refine (congrArg (· ∈ D) (?_ : Items.get _ .nextFree q.freeList = q.freeList)).mpr hf
      simp [Items.get_set, hfs.symm]) hfs.symm (by
      refine hfs.symm.trans_eq (?_ : q.freeList = Items.get _ .nextFree q.freeList)
      simp [Items.get_set, hfs.symm])
  have hr4 := h4.get .next q.startAddr hs
  have hA₄ : ∀ A : Items, ({ A with free := A.free.insertAfter q.freeList q.startAddr } : Items).get
      .next q.startAddr = A.get .next q.startAddr := fun _ => rfl
  rw [hA₄, Items.get_set, if_neg (by simp), Items.get_set, if_pos ⟨rfl, rfl⟩] at hr4
  have h5 := (((((h4.set hD .magic ht hused).set hD .poolPtr ht hq.addr).set hD .next ht hslt).set hD
    .prev ht hslt).set hD .prevFree ht hz).set hD .nextFree ht hz
  obtain ⟨t, ht'⟩ : ∃ t, rtMemheapInit m q.addr q.freeList q.startAddr size = t := ⟨_, rfl⟩
  have heq := ht'
  unfold rtMemheapInit at heq
  rw [hp] at heq
  simp only [hav, htail, hr2, hr4, Good.magic_or_used] at heq
  rw [heq] at h5
  have hpool : t.pool = q := h5.pool
  have htav : t.availableSize = q.poolSize - 48 := by rw [← heq, ← hav']; rfl
  have hkD : ∀ b ∈ ({q.startAddr, q.tail} : Finset Nat), b ∈ D := by
    rw [ht0]
    intro b hb
    rcases Finset.mem_insert.mp hb with rfl | hb
    · exact hs
    · exact Finset.mem_singleton.mp hb ▸ ht
  have hgood : Good t {q.startAddr, q.tail} [q.startAddr] t.availableSize := by
    refine ⟨hpool ▸ hq, ?_⟩
    rw [hpool, htav]
    refine Items.Inv.congr (Items.Inv.two hq ?_) (fun b hb => ⟨h5.get .next b (hkD b hb),
      h5.get .prev b (hkD b hb), h5.get .magic b (hkD b hb), h5.get .poolPtr b (hkD b hb)⟩)
      fun b hb => ?_
    · simp [Items.set, setNext, setPrev, insertAfter_next, insertAfter_prev, ht0, hfs, hft, hst,
        hfs.symm]
    · have hbD : b ∈ D := by
        rcases List.mem_cons.mp hb with rfl | hb
        · exact hf
        · exact List.mem_singleton.mp hb ▸ hs
      exact ⟨h5.get .nextFree b hbD, h5.get .prevFree b hbD⟩
  rw [ht']
  refine ⟨hgood, fun p => ⟨fun hp => absurd hp List.not_mem_nil, ?_⟩⟩
  -- the only used block is the tailer
  rintro ⟨-, b, hb, -, hu, hbt, -⟩
  have hbs : b = q.startAddr := by
    rcases Finset.mem_insert.mp hb with hb | hb
    · exact hb
    · exact absurd ((Finset.mem_singleton.mp hb).trans (congrArg Pool.tail hpool).symm) hbt
  exact absurd ((hgood.inv.mem b).mp (hbs ▸ List.mem_singleton_self _)).2 hu

/-! ## All runs -/

/-- A run of the calls by what they may do. -/
def SpecRun : (Nat → Option (List UInt8)) → List Act → (Nat → Option (List UInt8)) → Prop
  | σ, [], σ' => σ' = σ
  | σ, a :: as, σ' => ∃ τ, Spec σ a τ ∧ SpecRun τ as σ'

section Runs

variable {m : Memory} {memheap freeHeader startAddr size : Nat} {as : List Act} {s t : Sys}

theorem Sys.step_allowed {a : Act} (h : s.step a = some t) : s.Allowed a := by
  cases a with
  | alloc => trivial
  | free p | realloc p =>
    by_contra hn
    rw [Sys.step, if_neg (show ¬s.MayFree p from hn)] at h
    cases h
  | write a v =>
    by_contra hn
    rw [Sys.step, if_neg (show ¬∃ p ∈ s.live, p ≤ a ∧ a < p + s.heap.usable p from hn)] at h
    cases h

/-- The run lemma. -/
theorem exec_ok {k : Finset Nat} {fl : List Nat} (h : Sys.Ok s k fl) (hc : ∀ a ∈ as, SizeOk a)
    (hx : exec Sys.step s as = some t) :
    t.heap.pool = s.heap.pool ∧ (∃ k' fl', Sys.Ok t k' fl') ∧ SpecRun s.store as t.store := by
  induction as generalizing s k fl with
  | nil =>
    cases hx
    exact ⟨rfl, ⟨k, fl, h⟩, rfl⟩
  | cons a as ih =>
    obtain ⟨u, hs, hx'⟩ := exec_cons_some hx
    obtain ⟨u', hs', hpool, ⟨k', fl', hok⟩, hσ⟩ := h.step (hc a List.mem_cons_self) (Sys.step_allowed hs)
    obtain rfl : u' = u := Option.some.inj (hs'.symm.trans hs)
    obtain ⟨hpool', hok', hrun⟩ := ih hok (fun b hb => hc b (List.mem_cons_of_mem a hb)) hx'
    exact ⟨hpool'.trans hpool, hok', _, hσ, hrun⟩

theorem init_run (hq : Pool.Room ⟨memheap, startAddr, rtAlignDown size, freeHeader⟩)
    (hc : ∀ a ∈ as, SizeOk a)
    (hx : exec Sys.step ⟨rtMemheapInit m memheap freeHeader startAddr size, []⟩ as = some s) :
    s.heap.pool = ⟨memheap, startAddr, rtAlignDown size, freeHeader⟩ ∧ (∃ k fl, Sys.Ok s k fl) ∧
      SpecRun (fun _ => none) as s.store :=
  exec_ok (init_ok hq rfl) hc hx

/-- A heap of 512 bytes. -/
def sampleInit : Sys := ⟨rtMemheapInit (fun _ => 0) 0x700 0x800 0x1000 512, []⟩

/-- Blocks are taken, cut, written, grown in place, moved and freed. -/
def sampleRun : List Act :=
  [.alloc 5, .alloc 100, .realloc 0x1018 40, .write 0x10b8 7, .realloc 0x10b8 60,
    .realloc 0x103c 20, .alloc 0, .free 0x103c]

theorem sampleRoom : Pool.Room ⟨0x700, 0x1000, rtAlignDown 512, 0x800⟩ where
  size := by decide
  poolEnd := by decide
  freeEnd := by decide
  apart := by decide
  addr := by decide

/-- In every state of every run the heap is well formed. -/
theorem memheap_integrity (hq : Pool.Room ⟨memheap, startAddr, rtAlignDown size, freeHeader⟩)
    (hc : ∀ a ∈ as, SizeOk a)
    (hx : exec Sys.step ⟨rtMemheapInit m memheap freeHeader startAddr size, []⟩ as = some s) :
    s.heap.pool = ⟨memheap, startAddr, rtAlignDown size, freeHeader⟩ ∧ ∃ k fl, Sys.Ok s k fl :=
  (init_run hq hc hx).imp_right And.left

theorem memheap_integrity_sample : ∃ s, exec Sys.step sampleInit sampleRun = some s ∧
    s.live = [0x1068, 0x10b8] ∧ s.heap.pool = ⟨0x700, 0x1000, 512, 0x800⟩ ∧ ∃ k fl, Sys.Ok s k fl := by
  have hrun : (exec Sys.step sampleInit sampleRun).map Sys.live = some [0x1068, 0x10b8] := by
    decide +kernel
  obtain ⟨s, hx, hlive⟩ := Option.map_eq_some_iff.mp hrun
  exact ⟨s, hx, hlive, memheap_integrity sampleRoom (by decide) hx⟩

/-- Every run is one of separate blocks of bytes, and no call that the program may make is stuck. -/
theorem memheap_refines (hq : Pool.Room ⟨memheap, startAddr, rtAlignDown size, freeHeader⟩)
    (hc : ∀ a ∈ as, SizeOk a)
    (hx : exec Sys.step ⟨rtMemheapInit m memheap freeHeader startAddr size, []⟩ as = some s) :
    SpecRun (fun _ => none) as s.store ∧ ∀ a, SizeOk a → s.Allowed a → (s.step a).isSome := by
  obtain ⟨-, ⟨k, fl, hok⟩, hrun⟩ := init_run hq hc hx
  refine ⟨hrun, fun a ha hal => ?_⟩
  obtain ⟨s', hs, -⟩ := hok.step ha hal
  rw [hs]
  rfl

theorem memheap_refines_sample : ∃ s, exec Sys.step sampleInit sampleRun = some s ∧
    SpecRun (fun _ => none) sampleRun s.store ∧
    ∀ a, SizeOk a → s.Allowed a → (s.step a).isSome := by
  have hrun : (exec Sys.step sampleInit sampleRun).isSome := by decide +kernel
  obtain ⟨s, hx⟩ := Option.isSome_iff_exists.mp hrun
  exact ⟨s, hx, memheap_refines sampleRoom (by decide) hx⟩

/-- `rt_memheap_alloc` finds no block though one is long enough, just when it is the only free one,
and would be used up: the test of `available_size` is strict. -/
theorem alloc_null_iff (hq : Pool.Room ⟨memheap, startAddr, rtAlignDown size, freeHeader⟩)
    (hc : ∀ a ∈ as, SizeOk a)
    (hx : exec Sys.step ⟨rtMemheapInit m memheap freeHeader startAddr size, []⟩ as = some s) :
    ∃ k fl, Sys.Ok s k fl ∧ ∀ n, ∃ r, s.heap.rtMemheapAlloc n = some r ∧
      ((r.2 = 0 ∧ ∃ b ∈ fl, requestSize n ≤ s.heap.memitemSize b) ↔
        ∃ b, fl = [b] ∧ s.heap.memitemSize b = requestSize n) := by
  obtain ⟨-, ⟨k, fl, hok⟩, -⟩ := init_run hq hc hx
  have hI := hok.good.inv
  have hsize : ∀ b ∈ fl, s.heap.memitemSize b = s.heap.items.size b := fun b hb =>
    hok.good.memitemSize_eq ((hI.mem b).mp hb).1 (hI.ne_tail ((hI.mem b).mp hb).2)
  have hone : ∀ b, fl = [b] → s.heap.availableSize = s.heap.items.size b := fun b hb => by
    have hfree : s.heap.items.freeBlocks k = {b} := by
      ext c
      rw [Items.mem_freeBlocks, ← hI.mem, hb, List.mem_singleton, Finset.mem_singleton]
    rw [hI.sum, hfree, Finset.sum_singleton]
  refine ⟨k, fl, hok, fun n => ?_⟩
  rcases alloc_spec hok.good n with ⟨hr, hnone⟩ | ⟨t, b, hr, hb, hlt, -⟩
  · refine ⟨_, hr, fun ⟨_, b, hb, hle⟩ => ?_, fun ⟨b, hb, he⟩ => ⟨rfl, b, by simp [hb], he.ge⟩⟩
    rw [hsize b hb] at hle
    have hav := hnone.resolve_right fun hall => Nat.not_lt_of_le hle (hall b hb)
    obtain ⟨hrest, hble⟩ := hI.take hb
    refine ⟨b, ?_, by rw [hsize b hb]; omega⟩
    -- another free block has bytes too
    have hnil : fl.erase b = [] := List.eq_nil_iff_forall_not_mem.mpr fun c hcm => by
      have hcle := (hrest.take hcm).2
      obtain ⟨hck, hcf⟩ := (hrest.mem c).mp hcm
      have hgap := hrest.gap c hck (hrest.ne_tail hcf)
      unfold Items.size at hcle hle hble
      change s.heap.items.blocks.next c - c - 24 ≤ _ at hcle
      change c + 36 ≤ s.heap.items.blocks.next c at hgap
      have : s.heap.items.size b = s.heap.items.blocks.next b - b - 24 := rfl
      omega
    have hperm := List.perm_cons_erase hb
    rw [hnil] at hperm
    exact List.perm_singleton.mp hperm
  · refine ⟨_, hr, fun ⟨h0, _⟩ => absurd h0 (by show b + memheapSize ≠ 0; unfold memheapSize; omega),
      fun ⟨c, hc', he⟩ => ?_⟩
    have hcf : c ∈ fl := by simp [hc']
    rw [hsize c hcf, ← hone c hc'] at he
    omega

theorem alloc_null_iff_sample : ∃ s, exec Sys.step sampleInit [.alloc 100] = some s ∧
    (s.heap.rtMemheapAlloc 340).map Prod.snd = some 0 ∧
    ∃ k fl, Sys.Ok s k fl ∧ ∀ n, ∃ r, s.heap.rtMemheapAlloc n = some r ∧
      ((r.2 = 0 ∧ ∃ b ∈ fl, requestSize n ≤ s.heap.memitemSize b) ↔
        ∃ b, fl = [b] ∧ s.heap.memitemSize b = requestSize n) := by
  have hrun : (exec Sys.step sampleInit [.alloc 100]).map
      (fun s => (s.heap.rtMemheapAlloc 340).map Prod.snd) = some (some 0) := by decide +kernel
  obtain ⟨s, hx, hnull⟩ := Option.map_eq_some_iff.mp hrun
  exact ⟨s, hx, hnull, alloc_null_iff sampleRoom (by decide) hx⟩

end Runs

end Tudu.Memheap
