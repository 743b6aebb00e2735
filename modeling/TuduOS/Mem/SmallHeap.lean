import TuduOS.Mem.SmallBlocks

/-!
# The functions of the system heap

* `Inv s k`: the block list with `lfree` and `used_mem`. Each function keeps it.
* `Took`, `Freed`, `Resized`, `Moved`: what a function does to the used blocks, in `rtMalloc_spec`,
  `rtFree_spec` and `rtRealloc_spec`.
* `Same s t k`: writes between the headers change nothing of this.
-/

namespace Tudu.Mem

namespace Heap

open Bytes Ordered

variable {s t : Heap} {f g : Field} {b c p v x size fuel : Nat} {k : Finset Nat}

structure Inv (s : Heap) (k : Finset Nat) : Prop where
  blocks : Blocks s s.heapEnd k
  low : Low s k
  usedMem : s.usedMem = s.usedSum k

/-- The address `a` is in no header. -/
def Outside (s : Heap) (k : Finset Nat) (a : Nat) : Prop :=
  ∀ c ∈ k, a < s.heapPtr + c ∨ s.heapPtr + c + 12 ≤ a

theorem set_mem {a : Nat} (hb : b ∈ k) (ha : s.Outside k a) : (s.set f b v).mem a = s.mem a := by
  have hf := heapMem.inside f
  have hlen : heapMem.len = 12 := rfl
  have hab := ha b hb
  exact if_neg (by omega)

theorem splitBlock_mem {a n : Nat} (hb : b ∈ k) (hn : s.get .next b ∈ k)
    (ha : s.Outside (insert n k) a) : (s.splitBlock b n).mem a = s.mem a := by
  have hnew := Finset.mem_insert_self n k
  have hb' : b ∈ insert n k := Finset.mem_insert_of_mem hb
  have hn' : s.get .next b ∈ insert n k := Finset.mem_insert_of_mem hn
  have hset : ∀ (u : Heap) (c : Nat) (f : Field) (v : Nat), c ∈ insert n k →
      u.heapPtr = s.heapPtr ∧ u.mem a = s.mem a →
      (u.set f c v).heapPtr = s.heapPtr ∧ (u.set f c v).mem a = s.mem a := by
    rintro u c f v hc ⟨hp, hm⟩
    refine ⟨hp, (set_mem hc ?_).trans hm⟩
    unfold Outside
    rw [hp]
    exact ha
  have h := hset _ _ .next n hb' (hset _ _ .prev b hnew (hset _ _ .next (s.get .next b) hnew
    (hset _ _ .used 0 hnew (hset s _ .magic heapMagic hnew ⟨rfl, rfl⟩))))
  simp only [splitBlock]
  split
  · exact (hset _ _ .prev n hn' h).2
  · exact h.2

/-- The same variables and headers. -/
structure Same (s t : Heap) (k : Finset Nat) : Prop where
  ptr : t.heapPtr = s.heapPtr
  heapEnd : t.heapEnd = s.heapEnd
  size : t.memSizeAligned = s.memSizeAligned
  get : ∀ b ∈ k, ∀ f, t.get f b = s.get f b

namespace Same

theorem blocks (h : Same s t k) (hB : Blocks s x k) : Blocks t x k :=
  hB.congr h.ptr h.heapEnd h.size h.get

theorem used (h : Same s t k) : t.usedBlocks k = s.usedBlocks k := by
  apply Finset.filter_congr
  intro b hb
  rw [h.get b hb]

theorem kept (h : Same s t k) (hm : t.usedMem = s.usedMem) : Kept s k t k :=
  ⟨h.ptr, h.used, fun b hb => h.get b (mem_usedBlocks.mp hb).1 .next, hm⟩

theorem low (h : Same s t k) (hl : t.lfree = s.lfree) (hL : Low s k) : Low t k := by
  refine ⟨fun b hb hu => ?_, hl ▸ hL.mem, ?_⟩
  · rw [h.get b hb] at hu
    exact hl ▸ hL.le b hb hu
  · rw [hl, h.heapEnd, h.get _ hL.mem]
    exact hL.unused

theorem inv (h : Same s t k) (hl : t.lfree = s.lfree) (hm : t.usedMem = s.usedMem) (hI : Inv s k) :
    Inv t k :=
  ⟨h.heapEnd ▸ h.blocks hI.blocks, h.low hl hI.low, by rw [hm, hI.usedMem, (h.kept hm).sum]⟩

/-- Writes between the headers. -/
theorem of_mem {m : Memory} (hm : ∀ b ∈ k, ∀ a, s.heapPtr + b ≤ a → a < s.heapPtr + b + 12 →
    m a = s.mem a) : Same s { s with mem := m } k :=
  ⟨rfl, rfl, rfl, fun b hb _ => Layout.load_congr (hm b hb)⟩

theorem lfree (q : Nat) : Same s { s with lfree := q } k := ⟨rfl, rfl, rfl, fun _ _ _ => rfl⟩

theorem usedMem (n : Nat) : Same s { s with usedMem := n } k := ⟨rfl, rfl, rfl, fun _ _ _ => rfl⟩

theorem set_magic (hB : Blocks s x k) (hb : b ∈ k) : Same s (s.set .magic b heapMagic) k := by
  refine ⟨rfl, rfl, rfl, fun c hc f => ?_⟩
  rw [get_set (hB.apart hb hc) (by decide)]
  split
  · rename_i h
    rw [← h.1, ← h.2, hB.magic b hb]
  · rfl

end Same

/-! ## Numbers -/

/-- The used blocks are no longer than the heap. -/
theorem usedSum_le (hB : Blocks s x k) : s.usedSum k ≤ s.heapEnd := by
  have hw : s.usedSum k = ∑ b ∈ k, if s.get .used b ≠ 0 then s.get .next b - b else 0 :=
    Finset.sum_filter _ _
  have hsum := hB.leads.sum_le (a := 0) (w := fun b => if s.get .used b ≠ 0 then s.get .next b - b
    else 0) (fun b _ => b.zero_le) (fun b hb hbe => ?_) ?_
  · rw [hw]
    omega
  · have := hB.gap b hb hbe
    split <;> omega
  · rw [hB.endNext, Nat.sub_self, ite_self]

theorem area_eq (hB : Blocks s x k) (hb : b ∈ k) (hbe : b ≠ s.heapEnd) :
    sub32 (s.get .next b) (b + sizeofStructMem) = s.get .next b - (b + 12) :=
  sub32_of_le (hB.gap b hb hbe)

/-! ## The used flag -/

theorem set_used_used (hB : Blocks s x k) (hb : b ∈ k) (hv : v < 2 ^ 16) (hc : c ∈ k) :
    (s.set .used b v).get .used c = if b = c then v else s.get .used c := by
  rw [get_set (hB.apart hb hc) hv]
  simp

theorem set_used_next (hB : Blocks s x k) (hb : b ∈ k) (hc : c ∈ k) :
    (s.set .used b v).get .next c = s.get .next c :=
  get_set_ne (hB.apart hb hc) (.inl (by decide))

/-- What is left to prove is that no two unused blocks are next to each other. -/
theorem Blocks.setUsed {y : Nat} (hB : Blocks s x k) (hb : b ∈ k) (hbe : b ≠ s.heapEnd)
    (hh : ∀ c ∈ k, (s.set .used b v).get .used c = 0 →
      (s.set .used b v).get .used (s.get .next c) = 0 → c = y ∨ s.get .next c = y) :
    Blocks (s.set .used b v) y k := by
  have hn : ∀ c ∈ k, (s.set .used b v).get .next c = s.get .next c :=
    fun c hc => set_used_next hB hb hc
  have hp : ∀ c ∈ k, (s.set .used b v).get .prev c = s.get .prev c :=
    fun c hc => get_set_ne (hB.apart hb hc) (.inl (by decide))
  constructor
  case leads => exact hB.leads.congr fun c hc _ => hn c hc
  case start => exact hB.start
  case gap =>
    intro c hc hce
    rw [hn c hc]
    exact hB.gap c hc hce
  case align => exact hB.align
  case prev =>
    intro c hc hce hcn
    rw [hn c hc] at hcn ⊢
    rw [hp _ (hB.next_mem hc), hB.prev c hc hce hcn]
  case startPrev => rw [hp 0 hB.start, hB.startPrev]
  case hole =>
    intro c hc hcu hcn
    rw [hn c hc] at hcn ⊢
    exact hh c hc hcu hcn
  case magic =>
    intro c hc
    rw [get_set_ne (hB.apart hb hc) (.inl (by decide)), hB.magic c hc]
  case endUsed =>
    rw [set_heapEnd, get_set_ne (hB.apart hb hB.leads.last) (.inr hbe), hB.endUsed]
  case endNext => rw [set_heapEnd, hn _ hB.leads.last, hB.endNext]
  case size => exact hB.size
  case bound => exact hB.bound
  case ptr => exact hB.ptr

theorem use_usedBlocks (hB : Blocks s x k) (hb : b ∈ k) :
    (s.set .used b 1).usedBlocks k = insert b (s.usedBlocks k) := by
  ext c
  rw [Finset.mem_insert, mem_usedBlocks, mem_usedBlocks]
  by_cases hcb : c = b
  · subst hcb
    rw [set_used_used hB hb (by decide) hb, if_pos rfl]
    simp [hb]
  · constructor
    · rintro ⟨hc, hu⟩
      rw [set_used_used hB hb (by decide) hc, if_neg (Ne.symm hcb)] at hu
      exact .inr ⟨hc, hu⟩
    · rintro (h | ⟨hc, hu⟩)
      · exact absurd h hcb
      · rw [set_used_used hB hb (by decide) hc, if_neg (Ne.symm hcb)]
        exact ⟨hc, hu⟩

theorem free_usedBlocks (hB : Blocks s x k) (hb : b ∈ k) :
    (s.set .used b 0).usedBlocks k = (s.usedBlocks k).erase b := by
  ext c
  rw [Finset.mem_erase, mem_usedBlocks, mem_usedBlocks]
  constructor
  · rintro ⟨hc, hu⟩
    rw [set_used_used hB hb (by decide) hc] at hu
    split at hu
    · exact absurd rfl hu
    · rename_i hcb
      exact ⟨Ne.symm hcb, hc, hu⟩
  · rintro ⟨hcb, hc, hu⟩
    rw [set_used_used hB hb (by decide) hc, if_neg (Ne.symm hcb)]
    exact ⟨hc, hu⟩

/-! ## `rt_malloc` -/

/-- The block `b` is now used too. -/
structure Took (s : Heap) (k : Finset Nat) (t : Heap) (k' : Finset Nat) (b : Nat) : Prop where
  ptr : t.heapPtr = s.heapPtr
  unused : b ∉ s.usedBlocks k
  used : t.usedBlocks k' = insert b (s.usedBlocks k)
  next : ∀ c ∈ s.usedBlocks k, t.get .next c = s.get .next c

theorem Took.sum {k' : Finset Nat} (h : Took s k t k' b) :
    t.usedSum k' = t.get .next b - b + s.usedSum k := by
  unfold usedSum
  rw [h.used, Finset.sum_insert h.unused]
  congr 1
  exact Finset.sum_congr rfl fun c hc => by rw [h.next c hc]

theorem findFit_spec (hB : Blocks s s.heapEnd k) (hp : p ∈ k)
    (h : s.findFit size fuel p = some (some b)) :
    b ∈ k ∧ s.get .used b = 0 ∧ size ≤ s.get .next b - (b + 12) := by
  induction fuel generalizing p with
  | zero => cases h
  | succ fuel ih =>
    unfold findFit at h
    split at h
    · split at h
      · rename_i hfit
        cases h
        rw [area_eq hB hp (hB.ne_end hfit.1)] at hfit
        exact ⟨hp, hfit⟩
      · exact ih (hB.next_mem hp) h
    · cases h

/-- The walk from a block below all unused ones. -/
theorem nextFree_spec {q : Nat} (hB : Blocks s s.heapEnd k) (hp : p ∈ k)
    (hle : ∀ c ∈ k, s.get .used c = 0 → p ≤ c) (h : s.nextFree fuel p = some q) :
    q ∈ k ∧ (∀ c ∈ k, s.get .used c = 0 → q ≤ c) ∧ (q = s.heapEnd ∨ s.get .used q = 0) := by
  induction fuel generalizing p with
  | zero => cases h
  | succ fuel ih =>
    unfold nextFree at h
    split at h
    · rename_i hu
      refine ih (hB.next_mem hp) (fun c hc hcu => ?_) h
      have hne : p ≠ c := by
        rintro rfl
        exact hu.1 hcu
      exact hB.leads.least p hp c hc (lt_of_le_of_ne (hle c hc hcu) hne)
    · rename_i hu
      rw [Option.some.injEq] at h
      subst h
      refine ⟨hp, hle, ?_⟩
      by_cases hpe : p = s.heapEnd
      · exact .inl hpe
      · exact .inr (by
          by_contra hpu
          exact hu ⟨hpu, hpe⟩)

/-- The block `b` after `take`: long enough, and used. -/
structure Taken (s : Heap) (k : Finset Nat) (t : Heap) (k' : Finset Nat) (b size : Nat) : Prop where
  blocks : Blocks t t.heapEnd k'
  took : Took s k t k' b
  heapEnd : t.heapEnd = s.heapEnd
  sub : k ⊆ k'
  room : b + 12 + size ≤ t.get .next b
  /-- An unused block is as before, or it is behind `b`. -/
  unused : ∀ c ∈ k', t.get .used c = 0 → b < c ∨ c ∈ k ∧ s.get .used c = 0
  other : ∀ c ∈ k, c ≠ b → t.get .used c = s.get .used c

theorem Taken.same {u : Heap} {k' : Finset Nat} (h : Taken s k t k' b size) (hu : Same t u k')
    (hb : b ∈ k) : Taken s k u k' b size where
  blocks := hu.heapEnd ▸ hu.blocks h.blocks
  took := ⟨hu.ptr.trans h.took.ptr, h.took.unused, hu.used.trans h.took.used, fun c hc => by
    have hck := h.sub (mem_usedBlocks.mp hc).1
    rw [hu.get c hck, h.took.next c hc]⟩
  heapEnd := hu.heapEnd.trans h.heapEnd
  sub := h.sub
  room := by
    rw [hu.get b (h.sub hb)]
    exact h.room
  unused c hc hcu := h.unused c hc (hu.get c hc .used ▸ hcu)
  other c hc hcb := (hu.get c (h.sub hc) .used).trans (h.other c hc hcb)

section Take

variable (hB : Blocks s s.heapEnd k) (hb : b ∈ k) (hu : s.get .used b = 0)

include hB hb hu

/-- Near fit or exact fit. -/
theorem taken_whole (hs : size ≤ s.get .next b - (b + 12)) :
    Taken s k (s.set .used b 1) k b size := by
  have hbe := hB.ne_end hu
  have hused : ∀ c ∈ k, (s.set .used b 1).get .used c = 0 → s.get .used c = 0 := fun c hc hcu => by
    rw [set_used_used hB hb (by decide) hc] at hcu
    split at hcu
    · cases hcu
    · exact hcu
  constructor
  case blocks =>
    refine hB.setUsed hb hbe fun c hc hcu hcn => ?_
    exact absurd (hused _ (hB.next_mem hc) hcn) (hB.next_used hc (hused c hc hcu))
  case took =>
    refine ⟨rfl, fun h => (mem_usedBlocks.mp h).2 hu, use_usedBlocks hB hb, fun c hc => ?_⟩
    exact set_used_next hB hb (mem_usedBlocks.mp hc).1
  case heapEnd => rfl
  case sub => exact fun c hc => hc
  case room =>
    have := hB.gap b hb hbe
    rw [set_used_next hB hb hb]
    omega
  case unused => exact fun c hc hcu => .inr ⟨hc, hused c hc hcu⟩
  case other =>
    intro c hc hcb
    rw [set_used_used hB hb (by decide) hc, if_neg hcb.symm]

/-- The block is split at `n`. -/
theorem taken_split (hn : n = b + 12 + size) (h2 : n + 12 ≤ s.get .next b) (h4 : 4 ∣ size) :
    Taken s k ((s.splitBlock b n).set .used b 1) (insert n k) b size := by
  have h1 : b + 12 ≤ n := by omega
  have hbe := hB.ne_end hu
  have h4' : 4 ∣ n := by
    have := hB.align b hb
    omega
  have hB' := Blocks.split hB hb h1 h2 h4'
  have hb' : b ∈ insert n k := Finset.mem_insert_of_mem hb
  obtain ⟨hptr, hend, -, -, -⟩ := @splitBlock_static s b n
  have hnu := (splitBlock_new hB hb h1 h2).2.1
  have hnn := (splitBlock_new hB hb h1 h2).2.2.1
  have hused : ∀ c ∈ insert n k, ((s.splitBlock b n).set .used b 1).get .used c = 0 →
      c = n ∨ c ∈ k ∧ s.get .used c = 0 := fun c hc hcu => by
    rw [set_used_used hB' hb' (by decide) hc] at hcu
    split at hcu
    · cases hcu
    · rcases Finset.mem_insert.mp hc with rfl | hc
      · exact .inl rfl
      · exact .inr ⟨hc, (splitBlock_used hB hb h1 h2 hc).symm.trans hcu⟩
  constructor
  case blocks =>
    rw [set_heapEnd, hend]
    refine hB'.setUsed hb' (hend.symm ▸ hbe) fun c hc hcu hcn => ?_
    -- neither the new block nor one before it has an unused one behind it
    exfalso
    rcases hused c hc hcu with rfl | ⟨hck, hcu'⟩
    · rw [hnn] at hcn
      rcases hused _ (Finset.mem_insert_of_mem (hB.next_mem hb)) hcn with he | ⟨-, hnu'⟩
      · omega
      · exact hB.next_used hb hu hnu'
    · by_cases hcb : b = c
      · subst hcb
        rw [set_used_used hB' hb' (by decide) hb', if_pos rfl] at hcu
        cases hcu
      · rw [splitBlock_next hB hb h1 h2 hck, if_neg hcb] at hcn
        rcases hused _ (Finset.mem_insert_of_mem (hB.next_mem hck)) hcn with he | ⟨-, hnu'⟩
        · exact ne_split hB hb h1 h2 (hB.next_mem hck) he.symm
        · exact hB.next_used hck hcu' hnu'
  case took =>
    refine ⟨hptr, fun h => (mem_usedBlocks.mp h).2 hu, ?_, fun c hc => ?_⟩
    · rw [use_usedBlocks hB' hb', splitBlock_usedBlocks hB hb h1 h2]
    · obtain ⟨hck, hcu⟩ := mem_usedBlocks.mp hc
      rw [set_used_next hB' hb' (Finset.mem_insert_of_mem hck), splitBlock_next hB hb h1 h2 hck,
        if_neg]
      rintro rfl
      exact hcu hu
  case heapEnd => exact hend
  case sub => exact Finset.subset_insert n k
  case room => rw [set_used_next hB' hb' hb', splitBlock_next hB hb h1 h2 hb, if_pos rfl, hn]
  case unused =>
    intro c hc hcu
    rcases hused c hc hcu with rfl | hc
    · exact .inl (by omega)
    · exact .inr hc
  case other =>
    intro c hc hcb
    rw [set_used_used hB' hb' (by decide) (Finset.mem_insert_of_mem hc), if_neg hcb.symm,
      splitBlock_used hB hb h1 h2 hc]

end Take

/-- The block is counted, and gets its magic. -/
theorem Taken.charge {u : Heap} {k' : Finset Nat} {n : Nat} (hI : Inv s k) (hb : b ∈ k)
    (h : Taken s k u k' b size) (hm : u.usedMem = s.usedMem) (hn : u.get .next b = b + n) :
    Taken s k ((u.charge n).set .magic b heapMagic) k' b size ∧
      ((u.charge n).set .magic b heapMagic).usedMem =
        ((u.charge n).set .magic b heapMagic).usedSum k' := by
  have hbk := h.sub hb
  have hc : Same u (u.charge n) k' := ⟨rfl, rfl, rfl, fun _ _ _ => rfl⟩
  have hc' := Same.set_magic (hc.blocks h.blocks) hbk
  have ht := (h.same hc hb).same hc' hb
  refine ⟨ht, ?_⟩
  have hsum := ht.took.sum
  rw [hc'.get b hbk, hc.get b hbk, hn, Nat.add_sub_cancel_left] at hsum
  have hle := usedSum_le ht.blocks
  have hE := ht.blocks.bound
  have hu : ((u.charge n).set .magic b heapMagic).usedMem = add32 u.usedMem n := rfl
  rw [hu, add32_of_lt]
  · rw [hm, hI.usedMem]
    omega
  · rw [hm, hI.usedMem]
    omega

theorem take_spec (hI : Inv s k) (hb : b ∈ k) (hu : s.get .used b = 0)
    (hs : size ≤ s.get .next b - (b + 12)) (h4 : 4 ∣ size) :
    ∃ k', Taken s k (s.take b size) k' b size ∧ (s.take b size).usedMem =
      (s.take b size).usedSum k' ∧ (s.take b size).lfree = s.lfree := by
  have hB := hI.blocks
  have hbe := hB.ne_end hu
  simp only [take, area_eq hB hb hbe]
  by_cases hfit : size + sizeofStructMem + minSizeAligned ≤ s.get .next b - (b + 12)
  · have h2 : b + 12 + size + 12 ≤ s.get .next b := by
      unfold sizeofStructMem minSizeAligned at hfit
      omega
    have hT := taken_split hB hb hu rfl h2 h4
    have hst := @splitBlock_static s b (b + 12 + size)
    have hn : ((s.splitBlock b (b + 12 + size)).set .used b 1).get .next b =
        b + (size + sizeofStructMem) := by
      rw [get_set_ne (.inl rfl) (.inl (by decide)), splitBlock_next hB hb (by omega) h2 hb,
        if_pos rfl]
      unfold sizeofStructMem
      omega
    rw [if_pos hfit]
    obtain ⟨h, hm⟩ := hT.charge hI hb hst.2.2.2.2 hn
    exact ⟨_, h, hm, hst.2.2.2.1⟩
  · have hT := taken_whole hB hb hu hs
    have hgap := hB.gap b hb hbe
    rw [if_neg hfit, set_used_next hB hb hb, sub32_of_le (by omega)]
    obtain ⟨h, hm⟩ := hT.charge (n := s.get .next b - b) hI hb rfl (by
      rw [set_used_next hB hb hb]
      omega)
    exact ⟨_, h, hm, rfl⟩

/-- `lfree` after a block is taken. -/
theorem Taken.low {k' : Finset Nat} {q : Nat} (hI : Inv s k) (hb : b ∈ k) (hu : s.get .used b = 0)
    (h : Taken s k t k' b size) (hl : t.lfree = s.lfree)
    (hq : (if b = t.lfree then t.nextFree fuel t.lfree else some t.lfree) = some q) :
    Low { t with lfree := q } k' := by
  have hle : ∀ c ∈ k', t.get .used c = 0 → s.lfree ≤ c := fun c hc hcu => by
    have hb := hI.low.le b hb hu
    rcases h.unused c hc hcu with hlt | ⟨hck, hcu'⟩
    · omega
    · exact hI.low.le c hck hcu'
  have hmem : s.lfree ∈ k' := h.sub hI.low.mem
  rw [hl] at hq
  split at hq
  · obtain ⟨h1, h2, h3⟩ := nextFree_spec h.blocks hmem hle hq
    exact ⟨h2, h1, h3⟩
  · rename_i hbl
    rw [Option.some.injEq] at hq
    subst hq
    refine ⟨hle, hmem, ?_⟩
    rcases hI.low.unused with he | hu
    · exact .inl (he.trans h.heapEnd.symm)
    · exact .inr ((h.other _ hI.low.mem (Ne.symm hbl)).trans hu)

theorem mallocEnd_spec {k' : Finset Nat} (hI : Inv s k) (hb : b ∈ k) (hu : s.get .used b = 0)
    (h : Taken s k t k' b size) (hm : t.usedMem = t.usedSum k') (hl : t.lfree = s.lfree) {u : Heap}
    (hx : t.mallocEnd b size = some (u, p)) :
    Inv u k' ∧ Taken s k u k' b size ∧ p = u.heapPtr + b + 12 := by
  unfold mallocEnd at hx
  split at hx
  · cases hx
  · rename_i q hq
    split at hx
    · obtain ⟨rfl, rfl⟩ := Prod.mk.inj (Option.some.inj hx)
      have hS := Same.lfree (s := t) (k := k') q
      have hT := h.same hS hb
      refine ⟨⟨hT.blocks, h.low hI hb hu hl hq, ?_⟩, hT, rfl⟩
      rw [(hS.kept rfl).sum]
      exact hm
    · cases hx

theorem mallocLoop_spec (hI : Inv s k) (h4 : 4 ∣ size) (h : s.mallocLoop size = some (t, p)) :
    p = 0 ∧ t = s ∨ ∃ k' b, Inv t k' ∧ Took s k t k' b ∧ p = t.heapPtr + b + 12 ∧
      b + 12 + size ≤ t.get .next b := by
  unfold mallocLoop at h
  split at h
  · cases h
  · obtain ⟨rfl, rfl⟩ := Prod.mk.inj (Option.some.inj h)
    exact .inl ⟨rfl, rfl⟩
  · rename_i b hfit
    obtain ⟨hb, hu, hs⟩ := findFit_spec hI.blocks hI.low.mem hfit
    obtain ⟨k', hT, hm, hl⟩ := take_spec hI hb hu hs h4
    obtain ⟨hI', hT', hp⟩ := mallocEnd_spec hI hb hu hT hm hl h
    exact .inr ⟨k', b, hI', hT'.took, hp, hT'.room⟩

/-- What `rt_malloc` returns is `NULL`, or the area of a block that was not used. -/
theorem rtMalloc_spec (hI : Inv s k) (h : s.rtMalloc size = some (t, p)) :
    p = 0 ∧ t = s ∨ ∃ k' b, Inv t k' ∧ Took s k t k' b ∧ p = t.heapPtr + b + 12 ∧
      b + 12 + rtAlign size ≤ t.get .next b := by
  unfold rtMalloc at h
  split at h
  · obtain ⟨rfl, rfl⟩ := Prod.mk.inj (Option.some.inj h)
    exact .inl ⟨rfl, rfl⟩
  · split at h
    · obtain ⟨rfl, rfl⟩ := Prod.mk.inj (Option.some.inj h)
      exact .inl ⟨rfl, rfl⟩
    · have h4 := four_dvd_rtAlign size
      split at h
      · rename_i hlt
        rcases mallocLoop_spec hI (by decide) h with h | ⟨k', b, hI', hT, hp, hr⟩
        · exact .inl h
        · refine .inr ⟨k', b, hI', hT, hp, ?_⟩
          omega
      · exact mallocLoop_spec hI h4 h

/-! ## `rt_free` -/

/-- The block `b` is used no more. -/
structure Freed (s : Heap) (k : Finset Nat) (t : Heap) (k' : Finset Nat) (b : Nat) : Prop where
  ptr : t.heapPtr = s.heapPtr
  used : t.usedBlocks k' = (s.usedBlocks k).erase b
  next : ∀ c ∈ s.usedBlocks k, c ≠ b → t.get .next c = s.get .next c

theorem Freed.sum {k' : Finset Nat} (h : Freed s k t k' b) (hb : b ∈ s.usedBlocks k) :
    t.usedSum k' + (s.get .next b - b) = s.usedSum k := by
  have hsum : t.usedSum k' = ∑ c ∈ (s.usedBlocks k).erase b, (s.get .next c - c) := by
    unfold usedSum
    rw [h.used]
    refine Finset.sum_congr rfl fun c hc => ?_
    obtain ⟨hcb, hc⟩ := Finset.mem_erase.mp hc
    rw [h.next c hc hcb]
  rw [hsum]
  exact Finset.sum_erase_add _ _ hb

/-- A block becomes unused; it may have an unused one on either side. -/
theorem free_blocks (hB : Blocks s s.heapEnd k) (hb : b ∈ k) (hbe : b ≠ s.heapEnd) :
    Blocks (s.set .used b 0) b k := by
  refine hB.setUsed hb hbe fun c hc hcu hcn => ?_
  by_cases hcb : c = b
  · exact .inl hcb
  · by_cases hnb : s.get .next c = b
    · exact .inr hnb
    · rw [set_used_used hB hb (by decide) hc, if_neg (Ne.symm hcb)] at hcu
      rw [set_used_used hB hb (by decide) (hB.next_mem hc), if_neg (Ne.symm hnb)] at hcn
      exact absurd hcn (hB.next_used hc hcu)

/-- `if (mem < lfree) lfree = mem;` for a block that is unused now. -/
theorem low_min (hl : ∀ c ∈ k, t.get .used c = 0 → c = b ∨ t.lfree ≤ c) (hb : b ∈ k)
    (hu : t.get .used b = 0) (hmem : t.lfree ∈ k)
    (hun : t.lfree = t.heapEnd ∨ t.get .used t.lfree = 0) :
    Low (if b < t.lfree then { t with lfree := b } else t) k := by
  split
  · rename_i hlt
    refine ⟨fun c hc hcu => ?_, hb, .inr hu⟩
    rcases hl c hc hcu with rfl | hle
    · exact Nat.le_refl _
    · exact Nat.le_of_lt (hlt.trans_le hle)
  · rename_i hge
    refine ⟨fun c hc hcu => ?_, hmem, hun⟩
    rcases hl c hc hcu with rfl | hle
    · exact Nat.le_of_not_lt hge
    · exact hle

theorem same_lfree (c : Prop) [Decidable c] : Same t (if c then { t with lfree := b } else t) k := by
  split
  · exact Same.lfree b
  · exact ⟨rfl, rfl, rfl, fun _ _ _ => rfl⟩

/-- `rt_free` of the area of a used block, up to `plug_holes`. -/
structure Unplugged (s : Heap) (k : Finset Nat) (v : Heap) (b : Nat) : Prop where
  blocks : Blocks v b k
  low : Low v k
  unused : v.get .used b = 0
  ptr : v.heapPtr = s.heapPtr
  used : v.usedBlocks k = (s.usedBlocks k).erase b
  next : ∀ c ∈ k, v.get .next c = s.get .next c
  usedMem : v.usedMem = sub32 s.usedMem (s.get .next b - b)
  mem : ∀ a, s.Outside k a → v.mem a = s.mem a

theorem rtFree_unplugged (hI : Inv s k) (hb : b ∈ s.usedBlocks k) (hroom : b + 12 < s.get .next b)
    (hp : p = s.heapPtr + b + 12) : ∃ v, s.rtFree p = v.plugHoles b ∧ Unplugged s k v b := by
  have hB := hI.blocks
  obtain ⟨hbk, hbu⟩ := mem_usedBlocks.mp hb
  have hbe : b ≠ s.heapEnd := by
    rintro rfl
    have := hB.endNext
    omega
  have hle := hB.leads.le _ (hB.next_mem hbk)
  have hptr := hB.ptr
  have hal := hB.align b hbk
  have hmem : p - sizeofStructMem - s.heapPtr = b := by
    unfold sizeofStructMem
    omega
  have hB₁ := free_blocks hB hbk hbe
  have hS₁ := Same.set_magic hB₁ hbk
  have hm0 : ∀ a, s.Outside k a → ((s.set .used b 0).set .magic b heapMagic).mem a = s.mem a :=
    fun a ha => (set_mem (s := s.set .used b 0) hbk ha).trans (set_mem hbk ha)
  generalize hu2 : (s.set .used b 0).set .magic b heapMagic = u at hS₁ hm0
  have hl1 : u.lfree = s.lfree := hu2 ▸ rfl
  have hm1 : u.usedMem = s.usedMem := hu2 ▸ rfl
  have hused : ∀ c ∈ k, u.get .used c = if b = c then 0 else s.get .used c := fun c hc => by
    rw [hS₁.get c hc, set_used_used hB hbk (by decide) hc]
  have hnext : ∀ c ∈ k, u.get .next c = s.get .next c := fun c hc => by
    rw [hS₁.get c hc, set_used_next hB hbk hc]
  have hbu1 : u.get .used b = 0 := by rw [hused b hbk, if_pos rfl]
  have hL : Low (if b < u.lfree then { u with lfree := b } else u) k := by
    refine low_min (fun c hc hcu => ?_) hbk hbu1 (hl1 ▸ hI.low.mem) ?_
    · rw [hused c hc] at hcu
      split at hcu
      · rename_i hbc
        exact .inl hbc.symm
      · exact .inr (hl1 ▸ hI.low.le c hc hcu)
    · rw [hl1]
      rcases hI.low.unused with he | hu
      · exact .inl (he.trans hS₁.heapEnd.symm)
      · refine .inr ?_
        rw [hused _ hI.low.mem]
        split
        · rfl
        · exact hu
  have hS₂ := same_lfree (t := u) (b := b) (k := k) (b < u.lfree)
  have hm2 : (if b < u.lfree then { u with lfree := b } else u).usedMem = s.usedMem ∧
      (if b < u.lfree then { u with lfree := b } else u).mem = u.mem := by
    split <;> exact ⟨hm1, rfl⟩
  generalize hu3 : (if b < u.lfree then { u with lfree := b } else u) = w at hL hS₂ hm2
  have hnb : w.get .next b = s.get .next b := by rw [hS₂.get b hbk, hnext b hbk]
  have hlen : sub32 (w.get .next b) b = s.get .next b - b := by
    rw [hnb]
    exact sub32_of_le (by omega)
  have hS₃ := Same.usedMem (s := w) (k := k) (sub32 w.usedMem (sub32 (w.get .next b) b))
  refine ⟨{ w with usedMem := sub32 w.usedMem (sub32 (w.get .next b) b) }, ?_, ?_⟩
  · unfold rtFree
    rw [if_neg (by omega), if_pos ⟨by omega, by omega, by omega⟩]
    simp only [hmem]
    rw [if_pos ⟨hbu, hB.magic b hbk⟩, hu2, hu3]
  · constructor
    case blocks => exact hS₃.blocks (hS₂.blocks (hS₁.blocks hB₁))
    case low => exact hS₃.low rfl hL
    case unused => rw [hS₃.get b hbk, hS₂.get b hbk, hbu1]
    case ptr => rw [hS₃.ptr, hS₂.ptr, hS₁.ptr, set_heapPtr]
    case used => rw [hS₃.used, hS₂.used, hS₁.used, free_usedBlocks hB hbk]
    case next =>
      intro c hc
      rw [hS₃.get c hc, hS₂.get c hc, hnext c hc]
    case usedMem =>
      show sub32 w.usedMem (sub32 (w.get .next b) b) = _
      rw [hm2.1, hlen]
    case mem => exact fun a ha => (congrFun hm2.2 a).trans (hm0 a ha)

/-- `rt_free` of the area of a used block. -/
theorem rtFree_spec (hI : Inv s k) (hb : b ∈ s.usedBlocks k) (hroom : b + 12 < s.get .next b)
    (hp : p = s.heapPtr + b + 12) : ∃ t k', s.rtFree p = some t ∧ Inv t k' ∧ Freed s k t k' b := by
  obtain ⟨v, hv, hU⟩ := rtFree_unplugged hI hb hroom hp
  have hbk := (mem_usedBlocks.mp hb).1
  obtain ⟨t, k', hx, hBt, hLt, hK⟩ := plugHoles_spec hU.blocks hU.low hbk hU.unused
  have hF : Freed s k t k' b := by
    refine ⟨hK.ptr.trans hU.ptr, hK.used.trans hU.used, fun c hc hcb => ?_⟩
    have hcu : c ∈ v.usedBlocks k := hU.used.symm ▸ Finset.mem_erase.mpr ⟨hcb, hc⟩
    rw [hK.next c hcu, hU.next c (mem_usedBlocks.mp hc).1]
  refine ⟨t, k', hv.trans hx, ⟨hBt, hLt, ?_⟩, hF⟩
  have hsum := hF.sum hb
  rw [hK.usedMem, hU.usedMem, hI.usedMem, sub32_of_le (by omega)]
  omega

/-! ## `rt_realloc` -/

/-- An address in the area of a block is in no header. -/
theorem area_apart {a : Nat} (hB : Blocks s x k) (hb : b ∈ k) (h1 : s.heapPtr + b + 12 ≤ a)
    (h2 : a < s.heapPtr + s.get .next b) (hc : c ∈ k) :
    a < s.heapPtr + c ∨ s.heapPtr + c + 12 ≤ a := by
  rcases Nat.lt_or_ge b c with hlt | hge
  · have := hB.leads.least b hb c hc hlt
    omega
  · omega

/-- Only the block `b` changes its length. -/
structure Resized (s : Heap) (k : Finset Nat) (t : Heap) (k' : Finset Nat) (b size : Nat) :
    Prop where
  ptr : t.heapPtr = s.heapPtr
  used : t.usedBlocks k' = s.usedBlocks k
  next : ∀ c ∈ s.usedBlocks k, c ≠ b → t.get .next c = s.get .next c
  room : b + 12 + size ≤ t.get .next b

/-- The area of `b` moves to `b'`. -/
structure Moved (s : Heap) (k : Finset Nat) (t : Heap) (k' : Finset Nat) (b b' size : Nat) :
    Prop where
  ptr : t.heapPtr = s.heapPtr
  unused : b' ∉ s.usedBlocks k
  used : t.usedBlocks k' = insert b' ((s.usedBlocks k).erase b)
  next : ∀ c ∈ s.usedBlocks k, c ≠ b → t.get .next c = s.get .next c
  room : b' + 12 + size ≤ t.get .next b'

/-- The block `b` has `n` bytes, the rest of them is the unused block `c`. -/
structure Shortened (s : Heap) (k : Finset Nat) (w : Heap) (b c : Nat) : Prop where
  blocks : Blocks w c (insert c k)
  low : Low w (insert c k)
  unused : w.get .used c = 0
  ptr : w.heapPtr = s.heapPtr
  used : w.usedBlocks (insert c k) = s.usedBlocks k
  next : ∀ d ∈ k, w.get .next d = if b = d then c else s.get .next d
  mem : ∀ a, s.Outside (insert c k) a → w.mem a = s.mem a

/-- The part of `rt_realloc` that makes a block shorter, up to `plug_holes`. -/
theorem shrink_shortened {m : Nat} (hI : Inv s k) (hb : b ∈ s.usedBlocks k) (h1 : b + 12 ≤ c)
    (h2 : c + 12 ≤ s.get .next b) (h4 : 4 ∣ c) :
    let u := ({ s with usedMem := m } : Heap).splitBlock b c
    let w := if c < u.lfree then { u with lfree := c } else u
    Shortened s k w b c ∧ w.usedMem = m := by
  intro u w
  have hbk := (mem_usedBlocks.mp hb).1
  have hB := hI.blocks
  have hB₀ := (Same.usedMem (s := s) (k := k) m).blocks hB
  have hBu : Blocks u c (insert c k) := Blocks.split hB₀ hbk h1 h2 h4
  obtain ⟨hptr, hend, -, hlf, hum⟩ := @splitBlock_static ({ s with usedMem := m } : Heap) b c
  have hnu : u.get .used c = 0 := (splitBlock_new hB₀ hbk h1 h2).2.1
  have hused : ∀ d ∈ k, u.get .used d = s.get .used d := fun d hd =>
    splitBlock_used hB₀ hbk h1 h2 hd
  have hmem := Finset.mem_insert_self c k
  have hSw : Same u w (insert c k) := same_lfree (c < u.lfree)
  have hw : w.usedMem = u.usedMem ∧ w.mem = u.mem := by
    simp only [w]
    split <;> exact ⟨rfl, rfl⟩
  refine ⟨?_, hw.1.trans hum⟩
  constructor
  case blocks => exact hSw.blocks hBu
  case low =>
    refine low_min (fun d hd hdu => ?_) hmem hnu ?_ ?_
    · rcases Finset.mem_insert.mp hd with hd | hd
      · exact .inl hd
      · rw [hused d hd] at hdu
        exact .inr (hlf.symm ▸ hI.low.le d hd hdu)
    · exact hlf.symm ▸ Finset.mem_insert_of_mem hI.low.mem
    · rcases hI.low.unused with he | hu
      · exact .inl (hlf.trans (he.trans hend.symm))
      · right
        rw [show u.lfree = s.lfree from hlf, hused _ hI.low.mem, hu]
  case unused => rw [hSw.get _ hmem, hnu]
  case ptr => exact hSw.ptr.trans hptr
  case used => exact hSw.used.trans (splitBlock_usedBlocks hB₀ hbk h1 h2)
  case next =>
    intro d hd
    rw [hSw.get d (Finset.mem_insert_of_mem hd)]
    exact splitBlock_next hB₀ hbk h1 h2 hd
  case mem =>
    intro a ha
    exact (congrFun hw.2 a).trans
      (splitBlock_mem (s := { s with usedMem := m }) hbk (hB.next_mem hbk) ha)

/-- The part of `rt_realloc` that makes a block shorter. -/
theorem shrink_spec {n : Nat} (hI : Inv s k) (hb : b ∈ s.usedBlocks k)
    (hn : size = s.get .next b - b - 12) (h : n + 12 + 12 < size) (h4 : 4 ∣ n) :
    let u := ({ s with usedMem := sub32 s.usedMem (size - n) } : Heap).splitBlock b (b + 12 + n)
    let w := if b + 12 + n < u.lfree then { u with lfree := b + 12 + n } else u
    ∃ t k', w.plugHoles (b + 12 + n) = some t ∧ Inv t k' ∧ Resized s k t k' b n := by
  intro u w
  have hbk := (mem_usedBlocks.mp hb).1
  have h4' : 4 ∣ b + 12 + n := by
    have := hI.blocks.align b hbk
    omega
  obtain ⟨hW, hmw⟩ : Shortened s k w b (b + 12 + n) ∧ w.usedMem = sub32 s.usedMem (size - n) :=
    shrink_shortened hI hb (by omega) (by omega) h4'
  obtain ⟨t, k', hx, hBt, hLt, hK⟩ := plugHoles_spec hW.blocks hW.low (Finset.mem_insert_self _ k)
    hW.unused
  have hnextt : ∀ c ∈ s.usedBlocks k, t.get .next c = if b = c then b + 12 + n
      else s.get .next c := fun c hc => by
    rw [hK.next c (hW.used.symm ▸ hc), hW.next c (mem_usedBlocks.mp hc).1]
  have hR : Resized s k t k' b n := by
    refine ⟨hK.ptr.trans hW.ptr, hK.used.trans hW.used, fun c hc hcb => ?_, ?_⟩
    · rw [hnextt c hc, if_neg (Ne.symm hcb)]
    · rw [hnextt b hb, if_pos rfl]
  refine ⟨t, k', hx, ⟨hBt, hLt, ?_⟩, hR⟩
  -- `used_mem`: the block `b` is shorter by `size - n`
  have hsum : t.usedSum k' + (size - n) = s.usedSum k := by
    have hs := Finset.sum_erase_add (s.usedBlocks k) (fun c => s.get .next c - c) hb
    have ht := Finset.sum_erase_add (s.usedBlocks k) (fun c => t.get .next c - c) hb
    have he : ∑ c ∈ (s.usedBlocks k).erase b, (t.get .next c - c) =
        ∑ c ∈ (s.usedBlocks k).erase b, (s.get .next c - c) := by
      refine Finset.sum_congr rfl fun c hc => ?_
      obtain ⟨hcb, hc⟩ := Finset.mem_erase.mp hc
      rw [hR.next c hc hcb]
    rw [hnextt b hb, if_pos rfl, he] at ht
    unfold usedSum
    rw [hR.used]
    omega
  rw [hK.usedMem, hmw, hI.usedMem, sub32_of_le (by omega)]
  omega

theorem rtAlign_rtAlign {n : Nat} : rtAlign (rtAlign n) = rtAlign n := by
  unfold rtAlign
  omega

/-- Bytes that are copied into the area of a block are in no header. -/
theorem same_copy {len q : Nat} (hB : Blocks s x k) (hb : b ∈ k) (hp : p = s.heapPtr + b + 12)
    (hlen : b + 12 + len ≤ s.get .next b) :
    Same s { s with mem := Bytes.copy s.mem p q len } k := by
  apply Same.of_mem
  intro c hc a ha1 ha2
  apply if_neg
  rintro ⟨h1, h2⟩
  have := area_apart hB hb (a := a) (by omega) (by omega) hc
  omega

/-- The part of `rt_realloc` that moves an area. -/
theorem move_spec {n len q : Nat} {u : Heap} (hI : Inv s k) (hb : b ∈ s.usedBlocks k)
    (hroom : b + 12 < s.get .next b) (hq : q = s.heapPtr + b + 12)
    (hx : s.rtMalloc n = some (u, p)) (hp : p ≠ 0) (hlen : len ≤ rtAlign n) :
    ∃ t k' b', ({ u with mem := Bytes.copy u.mem p q len } : Heap).rtFree q = some t ∧ Inv t k' ∧
      Moved s k t k' b b' (rtAlign n) ∧ p = t.heapPtr + b' + 12 := by
  rcases rtMalloc_spec hI hx with ⟨h, -⟩ | ⟨k1, b', hI₁, hT, hpb, hr⟩
  · exact absurd h hp
  · have hne : b ≠ b' := by
      rintro rfl
      exact hT.unused hb
    have hb1 : b ∈ u.usedBlocks k1 := hT.used.symm ▸ Finset.mem_insert_of_mem hb
    have hb'₁ : b' ∈ u.usedBlocks k1 := hT.used.symm ▸ Finset.mem_insert_self _ _
    have hb'k := (mem_usedBlocks.mp hb'₁).1
    have hS : Same u { u with mem := Bytes.copy u.mem p q len } k1 :=
      same_copy hI₁.blocks hb'k hpb (by omega)
    have hI₂ := hS.inv rfl rfl hI₁
    have hnb : u.get .next b = s.get .next b := hT.next b hb
    have hq' : q = ({ u with mem := Bytes.copy u.mem p q len } : Heap).heapPtr + b + 12 :=
      hq.trans (hT.ptr ▸ rfl)
    obtain ⟨t, k', hf, hIt, hF⟩ := rtFree_spec hI₂ (hS.used.symm ▸ hb1) (by
      rw [hS.get b (mem_usedBlocks.mp hb1).1, hnb]
      exact hroom) hq'
    refine ⟨t, k', b', hf, hIt, ⟨?_, hT.unused, ?_, fun c hc hcb => ?_, ?_⟩, ?_⟩
    · rw [hF.ptr, hS.ptr, hT.ptr]
    · rw [hF.used, hS.used, hT.used, Finset.erase_insert_of_ne (Ne.symm hne)]
    · have hc1 : c ∈ u.usedBlocks k1 := hT.used.symm ▸ Finset.mem_insert_of_mem hc
      rw [hF.next c (hS.used.symm ▸ hc1) hcb, hS.get c (mem_usedBlocks.mp hc1).1, hT.next c hc]
    · rw [hF.next b' (hS.used.symm ▸ hb'₁) (Ne.symm hne), hS.get b' hb'k]
      exact hr
    · rw [hF.ptr, hS.ptr]
      exact hpb

/-- The ways through `rt_realloc` with the area of a used block. -/
inductive ReallocWay (s : Heap) (b p n : Nat) (t : Heap) (q : Nat) : Prop where
  | large : s.memSizeAligned < rtAlign n → t = s → q = 0 → ReallocWay s b p n t q
  | freed : rtAlign n = 0 → s.rtFree p = some t → q = 0 → ReallocWay s b p n t q
  | equal : rtAlign n ≠ 0 → s.get .next b - b - 12 = rtAlign n → t = s → q = p →
      ReallocWay s b p n t q
  | short : rtAlign n ≠ 0 → rtAlign n + 12 + 12 < s.get .next b - b - 12 →
      (let u := ({ s with usedMem := sub32 s.usedMem (s.get .next b - b - 12 - rtAlign n) } :
        Heap).splitBlock b (b + 12 + rtAlign n)
      let w := if b + 12 + rtAlign n < u.lfree then { u with lfree := b + 12 + rtAlign n } else u
      w.plugHoles (b + 12 + rtAlign n) = some t) → q = p → ReallocWay s b p n t q
  | null : rtAlign n ≠ 0 → s.rtMalloc (rtAlign n) = some (t, 0) → q = 0 → ReallocWay s b p n t q
  | moved (u : Heap) : rtAlign n ≠ 0 → s.rtMalloc (rtAlign n) = some (u, q) → q ≠ 0 →
      ({ u with mem := Bytes.copy u.mem q p (min (s.get .next b - b - 12) (rtAlign n)) } :
        Heap).rtFree p = some t → ReallocWay s b p n t q

theorem rtRealloc_way {n q : Nat} (hB : Blocks s s.heapEnd k) (hb : b ∈ k)
    (hroom : b + 12 < s.get .next b) (hp : p = s.heapPtr + b + 12)
    (h : s.rtRealloc p n = some (t, q)) : ReallocWay s b p n t q := by
  have hle := hB.leads.le _ (hB.next_mem hb)
  have hmem : p - sizeofStructMem - s.heapPtr = b := by
    unfold sizeofStructMem
    omega
  have hsize : sub32 (sub32 (s.get .next b) b) sizeofStructMem = s.get .next b - b - 12 := by
    have h1 : sub32 (s.get .next b) b = s.get .next b - b := sub32_of_le (by omega)
    rw [h1]
    exact sub32_of_le (by unfold sizeofStructMem; omega)
  simp only [rtRealloc, hmem, hsize] at h
  split at h
  · rename_i hbig
    obtain ⟨rfl, rfl⟩ := Prod.mk.inj (Option.some.inj h)
    exact .large hbig rfl rfl
  · split at h
    · rename_i hz
      obtain ⟨u, hu, hr⟩ := Option.map_eq_some_iff.mp h
      obtain ⟨rfl, rfl⟩ := Prod.mk.inj hr
      exact .freed hz hu rfl
    · rename_i hz
      rw [if_neg (by omega), if_neg (by omega)] at h
      split at h
      · rename_i heq
        obtain ⟨rfl, rfl⟩ := Prod.mk.inj (Option.some.inj h)
        exact .equal hz heq rfl rfl
      · split at h
        · rename_i hshort
          obtain ⟨u, hu, hr⟩ := Option.map_eq_some_iff.mp h
          obtain ⟨rfl, rfl⟩ := Prod.mk.inj hr
          exact .short hz hshort hu rfl
        · split at h
          · cases h
          · rename_i u nmem hm
            split at h
            · rename_i hn0
              obtain ⟨rfl, rfl⟩ := Prod.mk.inj (Option.some.inj h)
              exact .null hz (hn0 ▸ hm) rfl
            · rename_i hn0
              have hlen : (if s.get .next b - b - 12 < rtAlign n then s.get .next b - b - 12
                  else rtAlign n) = min (s.get .next b - b - 12) (rtAlign n) := by
                split <;> omega
              rw [hlen] at h
              obtain ⟨v, hv, hr⟩ := Option.map_eq_some_iff.mp h
              obtain ⟨rfl, rfl⟩ := Prod.mk.inj hr
              exact .moved u hz hm hn0 hv

/-- `rt_realloc` of the area of a used block: it fails, frees, resizes or moves. -/
theorem rtRealloc_spec {n q : Nat} (hI : Inv s k) (hb : b ∈ s.usedBlocks k)
    (hroom : b + 12 < s.get .next b) (hp : p = s.heapPtr + b + 12)
    (h : s.rtRealloc p n = some (t, q)) :
    q = 0 ∧ t = s ∧ rtAlign n ≠ 0 ∨
    q = 0 ∧ rtAlign n = 0 ∧ (∃ k', Inv t k' ∧ Freed s k t k' b) ∨
    q = p ∧ rtAlign n ≠ 0 ∧ (∃ k', Inv t k' ∧ Resized s k t k' b (rtAlign n)) ∨
    q ≠ 0 ∧ rtAlign n ≠ 0 ∧ ∃ k' b', Inv t k' ∧ Moved s k t k' b b' (rtAlign n) ∧
      q = t.heapPtr + b' + 12 := by
  have hlen : ∀ n, min (s.get .next b - b - 12) (rtAlign n) ≤ rtAlign (rtAlign n) := fun n => by
    rw [rtAlign_rtAlign]
    exact Nat.min_le_right _ _
  cases rtRealloc_way hI.blocks (mem_usedBlocks.mp hb).1 hroom hp h with
  | large hbig ht hq => exact .inl ⟨hq, ht, by omega⟩
  | freed hz hf hq =>
    obtain ⟨t', k', hf', hI', hF⟩ := rtFree_spec hI hb hroom hp
    obtain rfl := Option.some.inj (hf'.symm.trans hf)
    exact .inr (.inl ⟨hq, hz, k', hI', hF⟩)
  | equal hz heq ht hq =>
    subst ht
    exact .inr (.inr (.inl ⟨hq, hz, k, hI, rfl, rfl, fun _ _ _ => rfl, by omega⟩))
  | short hz hshort hx hq =>
    obtain ⟨t', k', hx', hI', hR⟩ := shrink_spec hI hb rfl hshort (four_dvd_rtAlign n)
    obtain rfl := Option.some.inj (hx'.symm.trans hx)
    exact .inr (.inr (.inl ⟨hq, hz, k', hI', hR⟩))
  | null hz hm hq =>
    rcases rtMalloc_spec hI hm with ⟨-, ht⟩ | ⟨k', b', -, -, hpb, -⟩
    · exact .inl ⟨hq, ht, hz⟩
    · omega
  | moved u hz hm hq0 hf =>
    obtain ⟨t', k', b', hf', hI', hM, hq⟩ := move_spec hI hb hroom hp hm hq0
      (hlen n)
    obtain rfl := Option.some.inj (hf'.symm.trans hf)
    rw [rtAlign_rtAlign] at hM
    exact .inr (.inr (.inr ⟨hq0, hz, k', b', hI', hM, hq⟩))

end Heap

end Tudu.Mem
