import TuduOS.Lib.Ordered
import TuduOS.Mem.Small

/-!
# The blocks of the system heap

What every operation of `mem.c` does to the list of the blocks. The blocks are given by the set of
their offsets, `heap_end` among them.

* `Blocks s x k`: `next` leads through the blocks `k`, `prev` is its inverse up to `heap_end`, and
  no two unused blocks are next to each other, except for the block `x`.
* `Blocks.split`, `Blocks.use`, `Blocks.free`, `Blocks.plugHoles`: the operations.
* `usedBlocks s k`, `Low s k`: what `used_mem` counts, and what `lfree` is.
-/

namespace Tudu.Mem.Heap

open Bytes Ordered

variable {s s' : Heap} {f g : Field} {b c n v x : Nat} {k k' : Finset Nat}

/-! ## Reading and writing headers -/

/-- Two headers are one or do not overlap. -/
def Apart (b c : Nat) : Prop := b = c ∨ b + 12 ≤ c ∨ c + 12 ≤ b

@[simp] theorem set_heapPtr : (s.set f b v).heapPtr = s.heapPtr := rfl
@[simp] theorem set_heapEnd : (s.set f b v).heapEnd = s.heapEnd := rfl
@[simp] theorem set_lfree : (s.set f b v).lfree = s.lfree := rfl
@[simp] theorem set_memSizeAligned : (s.set f b v).memSizeAligned = s.memSizeAligned := rfl
@[simp] theorem set_usedMem : (s.set f b v).usedMem = s.usedMem := rfl

theorem get_set (h : Apart b c) (hv : v < 256 ^ heapMem.size f) :
    (s.set f b v).get g c = if b = c ∧ f = g then v else s.get g c := by
  have hh : s.heapPtr + b = s.heapPtr + c ∨ s.heapPtr + b + heapMem.len ≤ s.heapPtr + c ∨
      s.heapPtr + c + heapMem.len ≤ s.heapPtr + b := by
    have hlen : heapMem.len = 12 := rfl
    unfold Apart at h
    omega
  unfold get set
  rw [Layout.load_store hh, Nat.mod_eq_of_lt hv]
  simp only [Nat.add_left_cancel_iff]

theorem get_set_self (hv : v < 256 ^ heapMem.size f) : (s.set f b v).get f b = v := by
  rw [get_set (.inl rfl) hv, if_pos ⟨rfl, rfl⟩]

theorem get_set_ne (h : Apart b c) (hne : f ≠ g ∨ b ≠ c) : (s.set f b v).get g c = s.get g c := by
  have hh : s.heapPtr + b = s.heapPtr + c ∨ s.heapPtr + b + heapMem.len ≤ s.heapPtr + c ∨
      s.heapPtr + c + heapMem.len ≤ s.heapPtr + b := by
    have hlen : heapMem.len = 12 := rfl
    unfold Apart at h
    omega
  unfold get set
  rw [Layout.load_store hh, if_neg]
  rintro ⟨hbc, rfl⟩
  exact hne.elim (fun h => h rfl) fun h => h (Nat.add_left_cancel hbc)

/-! ## The block list -/

structure Blocks (s : Heap) (x : Nat) (k : Finset Nat) : Prop where
  leads : Leads (s.get .next) k s.heapEnd
  start : 0 ∈ k
  gap : ∀ b ∈ k, b ≠ s.heapEnd → b + 12 ≤ s.get .next b
  align : ∀ b ∈ k, 4 ∣ b
  prev : ∀ b ∈ k, b ≠ s.heapEnd → s.get .next b ≠ s.heapEnd → s.get .prev (s.get .next b) = b
  startPrev : s.get .prev 0 = 0
  hole : ∀ b ∈ k, s.get .used b = 0 → s.get .used (s.get .next b) = 0 → b = x ∨ s.get .next b = x
  magic : ∀ b ∈ k, s.get .magic b = heapMagic
  endUsed : s.get .used s.heapEnd = 1
  endNext : s.get .next s.heapEnd = s.heapEnd
  size : s.heapEnd = s.memSizeAligned + 12
  bound : s.heapPtr + s.heapEnd + 12 < 2 ^ 32
  ptr : 4 ∣ s.heapPtr

namespace Blocks

theorem apart (hB : Blocks s x k) (hb : b ∈ k) (hc : c ∈ k) : Apart b c := by
  rcases Nat.lt_trichotomy b c with hlt | heq | hlt
  · have hbe : b ≠ s.heapEnd := (hlt.trans_le (hB.leads.le c hc)).ne
    exact .inr (.inl ((hB.gap b hb hbe).trans (hB.leads.least b hb c hc hlt)))
  · exact .inl heq
  · have hce : c ≠ s.heapEnd := (hlt.trans_le (hB.leads.le b hb)).ne
    exact .inr (.inr ((hB.gap c hc hce).trans (hB.leads.least c hc b hb hlt)))

theorem lt (hB : Blocks s x k) (hb : b ∈ k) : b < 2 ^ 32 := by
  have := hB.leads.le b hb
  have := hB.bound
  omega

theorem next_mem (hB : Blocks s x k) (hb : b ∈ k) : s.get .next b ∈ k := by
  by_cases hbe : b = s.heapEnd
  · rw [hbe, hB.endNext]
    exact hB.leads.last
  · exact hB.leads.mem b hb hbe

theorem next_used (hB : Blocks s s.heapEnd k) (hb : b ∈ k) (hu : s.get .used b = 0) :
    s.get .used (s.get .next b) ≠ 0 := by
  intro hn
  have hE := hB.endUsed
  rcases hB.hole b hb hu hn with he | he
  · rw [he] at hu
    omega
  · rw [he] at hn
    omega

theorem ne_end (hB : Blocks s x k) (hu : s.get .used b = 0) : b ≠ s.heapEnd := by
  rintro rfl
  have := hB.endUsed
  omega

/-- The block before `b`. -/
theorem prev_mem (hB : Blocks s x k) (hb : b ∈ k) (hb0 : b ≠ 0) (hbe : b ≠ s.heapEnd) :
    s.get .prev b ∈ k ∧ s.get .prev b ≠ s.heapEnd ∧ s.get .next (s.get .prev b) = b := by
  obtain ⟨p, hp, hpe, hpb⟩ := hB.leads.exists_prev hb hB.start (Nat.pos_of_ne_zero hb0)
  have hprev := hB.prev p hp hpe (hpb ▸ hbe)
  rw [hpb] at hprev
  rw [hprev]
  exact ⟨hp, hpe, hpb⟩

/-- The invariant is about the headers alone. -/
theorem congr (hB : Blocks s x k) (hp : s'.heapPtr = s.heapPtr) (he : s'.heapEnd = s.heapEnd)
    (hm : s'.memSizeAligned = s.memSizeAligned) (hg : ∀ b ∈ k, ∀ f, s'.get f b = s.get f b) :
    Blocks s' x k where
  leads := by
    rw [he]
    exact hB.leads.congr fun b hb _ => hg b hb .next
  start := hB.start
  gap b hb hbe := by
    rw [hg b hb]
    exact hB.gap b hb (he ▸ hbe)
  align := hB.align
  prev b hb hbe hn := by
    rw [hg b hb, he] at hn
    rw [hg b hb, hg _ (hB.next_mem hb)]
    exact hB.prev b hb (he ▸ hbe) hn
  startPrev := (hg 0 hB.start .prev).trans hB.startPrev
  hole b hb hu hn := by
    rw [hg b hb] at hu hn ⊢
    rw [hg _ (hB.next_mem hb)] at hn
    exact hB.hole b hb hu hn
  magic b hb := (hg b hb .magic).trans (hB.magic b hb)
  endUsed := by
    rw [he, hg _ hB.leads.last]
    exact hB.endUsed
  endNext := by
    rw [he, hg _ hB.leads.last]
    exact hB.endNext
  size := by rw [he, hm, hB.size]
  bound := by
    rw [hp, he]
    exact hB.bound
  ptr := hp.symm ▸ hB.ptr

end Blocks

/-! ## Splitting a block -/

theorem splitBlock_static : (s.splitBlock b n).heapPtr = s.heapPtr ∧
    (s.splitBlock b n).heapEnd = s.heapEnd ∧
    (s.splitBlock b n).memSizeAligned = s.memSizeAligned ∧
    (s.splitBlock b n).lfree = s.lfree ∧ (s.splitBlock b n).usedMem = s.usedMem := by
  simp only [splitBlock]
  split <;> exact ⟨rfl, rfl, rfl, rfl, rfl⟩

section Split

variable (hB : Blocks s s.heapEnd k) (hb : b ∈ k) (h1 : b + 12 ≤ n) (h2 : n + 12 ≤ s.get .next b)

include hB hb h1 h2

theorem apart_split (hc : c ∈ k) : Apart n c := by
  rcases Nat.lt_or_ge b c with hlt | hge
  · have := hB.leads.least b hb c hc hlt
    exact .inr (.inl (by omega))
  · exact .inr (.inr (by omega))

theorem ne_split (hc : c ∈ k) : n ≠ c := by
  rintro rfl
  rcases Nat.lt_or_ge b n with hlt | hge
  · have := hB.leads.least b hb n hc hlt
    omega
  · omega

theorem splitBlock_get (hc : c ∈ k) : (s.splitBlock b n).get f c =
    if b = c ∧ .next = f then n
    else if s.get .next b = c ∧ .prev = f ∧ c ≠ s.heapEnd then n else s.get f c := by
  have hnb := hB.next_mem hb
  have hn := apart_split hB hb h1 h2 hc
  have hne : ∀ f g : Field, f ≠ g ∨ n ≠ c := fun _ _ => .inr (ne_split hB hb h1 h2 hc)
  have hbc := hB.apart hb hc
  have hnc := hB.apart hnb hc
  have hlt : n < 2 ^ 32 := by
    have := hB.lt hnb
    omega
  have hm : s.memSizeAligned + 12 = s.heapEnd := hB.size.symm
  simp only [splitBlock, sizeofStructMem, set_memSizeAligned, hm]
  split
  · rename_i hE
    rw [get_set hnc hlt, get_set hbc hlt, get_set_ne hn (hne _ _), get_set_ne hn (hne _ _),
      get_set_ne hn (hne _ _), get_set_ne hn (hne _ _)]
    grind
  · rw [get_set hbc hlt, get_set_ne hn (hne _ _), get_set_ne hn (hne _ _),
      get_set_ne hn (hne _ _), get_set_ne hn (hne _ _)]
    grind

theorem splitBlock_new : (s.splitBlock b n).get .magic n = heapMagic ∧
    (s.splitBlock b n).get .used n = 0 ∧ (s.splitBlock b n).get .next n = s.get .next b ∧
    (s.splitBlock b n).get .prev n = b := by
  have hn : Apart n n := .inl rfl
  have hlt : s.get .next b < 256 ^ heapMem.size .next := hB.lt (hB.next_mem hb)
  have hltb : b < 256 ^ heapMem.size .prev := hB.lt hb
  -- the header of the new block is written first
  have hhdr : ∀ f, (s.splitBlock b n).get f n = ((((s.set .magic n heapMagic).set .used n 0).set
      .next n (s.get .next b)).set .prev n b).get f n := by
    intro f
    have hbn : Apart b n := .inr (.inl h1)
    have hnn : Apart (s.get .next b) n := .inr (.inr h2)
    simp only [splitBlock]
    split
    · rw [get_set_ne hnn (.inr (by omega)), get_set_ne hbn (.inr (by omega))]
    · rw [get_set_ne hbn (.inr (by omega))]
  refine ⟨?_, ?_, ?_, ?_⟩
  · rw [hhdr, get_set_ne hn (.inl (by decide)), get_set_ne hn (.inl (by decide)),
      get_set_ne hn (.inl (by decide)), get_set_self (by decide)]
  · rw [hhdr, get_set_ne hn (.inl (by decide)), get_set_ne hn (.inl (by decide)),
      get_set_self (by decide)]
  · rw [hhdr, get_set_ne hn (.inl (by decide)), get_set_self hlt]
  · rw [hhdr, get_set_self hltb]

/-- The new block may have an unused one on either side. -/
theorem Blocks.split (h4 : 4 ∣ n) : Blocks (s.splitBlock b n) n (insert n k) := by
  obtain ⟨hptr, hend, hsize, -, -⟩ := @splitBlock_static s b n
  obtain ⟨hmagic, hused, hnext, hprev⟩ := splitBlock_new hB hb h1 h2
  have hne : ∀ c ∈ k, n ≠ c := fun c hc => ne_split hB hb h1 h2 hc
  have hbe : b ≠ s.heapEnd := by
    rintro rfl
    have := hB.endNext
    omega
  -- the fields of the other blocks
  have hget : ∀ c ∈ k, ∀ f, (s.splitBlock b n).get f c = if b = c ∧ .next = f then n
      else if s.get .next b = c ∧ .prev = f ∧ c ≠ s.heapEnd then n else s.get f c :=
    fun c hc f => splitBlock_get hB hb h1 h2 hc
  have hn : ∀ c ∈ k, c ≠ b → (s.splitBlock b n).get .next c = s.get .next c := fun c hc hcb => by
    rw [hget c hc, if_neg (fun h => hcb h.1.symm), if_neg (by simp)]
  have hnb : (s.splitBlock b n).get .next b = n := by
    rw [hget b hb, if_pos ⟨rfl, rfl⟩]
  have hp : ∀ c ∈ k, c ≠ s.heapEnd → (s.splitBlock b n).get .prev c =
      if s.get .next b = c then n else s.get .prev c := fun c hc hce => by
    rw [hget c hc, if_neg (by simp)]
    simp [hce]
  have hu : ∀ c ∈ k, (s.splitBlock b n).get .used c = s.get .used c := fun c hc => by
    rw [hget c hc, if_neg (by simp), if_neg (by simp)]
  have hm : ∀ c ∈ k, (s.splitBlock b n).get .magic c = s.get .magic c := fun c hc => by
    rw [hget c hc, if_neg (by simp), if_neg (by simp)]
  constructor
  case leads =>
    rw [hend]
    exact hB.leads.insert hb hbe (by omega) (by omega) hnb hnext fun c hc hcb _ => hn c hc hcb
  case start => exact Finset.mem_insert_of_mem hB.start
  case gap =>
    intro c hc hce
    rcases Finset.mem_insert.mp hc with rfl | hc
    · rw [hnext]
      exact h2
    · by_cases hcb : c = b
      · rw [hcb, hnb]
        exact h1
      · rw [hn c hc hcb]
        exact hB.gap c hc (hend ▸ hce)
  case align =>
    intro c hc
    rcases Finset.mem_insert.mp hc with rfl | hc
    · exact h4
    · exact hB.align c hc
  case prev =>
    intro c hc hce hcn
    rw [hend] at hce hcn
    rcases Finset.mem_insert.mp hc with rfl | hc
    · rw [hnext] at hcn ⊢
      rw [hp _ (hB.next_mem hb) hcn, if_pos rfl]
    · by_cases hcb : c = b
      · rw [hcb, hnb]
        exact hprev
      · rw [hn c hc hcb] at hcn ⊢
        rw [hp _ (hB.next_mem hc) hcn, if_neg, hB.prev c hc hce hcn]
        exact fun h => hcb (hB.leads.inj hb hbe hc hce h).symm
  case startPrev =>
    rw [hget 0 hB.start, if_neg (by simp), if_neg, hB.startPrev]
    have := hB.gap b hb hbe
    omega
  case hole =>
    intro c hc hcu hcn
    rcases Finset.mem_insert.mp hc with rfl | hc
    · exact .inl rfl
    · by_cases hcb : c = b
      · rw [hcb, hnb]
        exact .inr rfl
      · rw [hn c hc hcb] at hcn ⊢
        rw [hu c hc] at hcu
        rw [hu _ (hB.next_mem hc)] at hcn
        exact absurd hcn (hB.next_used hc hcu)
  case magic =>
    intro c hc
    rcases Finset.mem_insert.mp hc with rfl | hc
    · exact hmagic
    · rw [hm c hc, hB.magic c hc]
  case endUsed => rw [hend, hu _ hB.leads.last, hB.endUsed]
  case endNext => rw [hend, hn _ hB.leads.last hbe.symm, hB.endNext]
  case size => rw [hend, hsize, hB.size]
  case bound =>
    rw [hptr, hend]
    exact hB.bound
  case ptr => exact hptr.symm ▸ hB.ptr

end Split

/-! ## Used and unused blocks -/

def usedBlocks (s : Heap) (k : Finset Nat) : Finset Nat := k.filter fun b => s.get .used b ≠ 0

/-- What `used_mem` should be. -/
def usedSum (s : Heap) (k : Finset Nat) : Nat := ∑ b ∈ s.usedBlocks k, (s.get .next b - b)

/-- `lfree` is the lowest unused block, or `heap_end`. -/
structure Low (s : Heap) (k : Finset Nat) : Prop where
  le : ∀ b ∈ k, s.get .used b = 0 → s.lfree ≤ b
  mem : s.lfree ∈ k
  unused : s.lfree = s.heapEnd ∨ s.get .used s.lfree = 0

/-- The used blocks are as before. -/
structure Kept (s : Heap) (k : Finset Nat) (s' : Heap) (k' : Finset Nat) : Prop where
  ptr : s'.heapPtr = s.heapPtr
  used : s'.usedBlocks k' = s.usedBlocks k
  next : ∀ b ∈ s.usedBlocks k, s'.get .next b = s.get .next b
  usedMem : s'.usedMem = s.usedMem

theorem mem_usedBlocks : b ∈ s.usedBlocks k ↔ b ∈ k ∧ s.get .used b ≠ 0 := Finset.mem_filter

theorem Kept.refl : Kept s k s k := ⟨rfl, rfl, fun _ _ => rfl, rfl⟩

theorem Kept.trans {s1 s2 s3 : Heap} {k1 k2 k3 : Finset Nat} (h : Kept s1 k1 s2 k2)
    (h' : Kept s2 k2 s3 k3) : Kept s1 k1 s3 k3 where
  ptr := h'.ptr.trans h.ptr
  used := h'.used.trans h.used
  next b hb := (h'.next b (h.used.symm ▸ hb)).trans (h.next b hb)
  usedMem := h'.usedMem.trans h.usedMem

theorem Kept.sum (h : Kept s k s' k') : s'.usedSum k' = s.usedSum k := by
  unfold usedSum
  rw [h.used]
  exact Finset.sum_congr rfl fun b hb => by rw [h.next b hb]

section SplitUsed

variable (hB : Blocks s s.heapEnd k) (hb : b ∈ k) (h1 : b + 12 ≤ n) (h2 : n + 12 ≤ s.get .next b)

include hB hb h1 h2

theorem splitBlock_next (hc : c ∈ k) : (s.splitBlock b n).get .next c =
    if b = c then n else s.get .next c := by
  rw [splitBlock_get hB hb h1 h2 hc]
  simp

theorem splitBlock_used (hc : c ∈ k) : (s.splitBlock b n).get .used c = s.get .used c := by
  rw [splitBlock_get hB hb h1 h2 hc, if_neg (by simp), if_neg (by simp)]

theorem splitBlock_usedBlocks : (s.splitBlock b n).usedBlocks (insert n k) = s.usedBlocks k := by
  ext c
  rw [mem_usedBlocks, mem_usedBlocks, Finset.mem_insert]
  constructor
  · rintro ⟨rfl | hc, hu⟩
    · exact absurd (splitBlock_new hB hb h1 h2).2.1 hu
    · exact ⟨hc, splitBlock_used hB hb h1 h2 hc ▸ hu⟩
  · rintro ⟨hc, hu⟩
    exact ⟨.inr hc, (splitBlock_used hB hb h1 h2 hc).symm ▸ hu⟩

end SplitUsed

/-! ## The block behind a block becomes a part of it -/

section Merge

/-- `mem->next = nmem->next; nmem->next->prev = mem;` -/
def merge (s : Heap) (b c : Nat) : Heap :=
  (s.set .next b (s.get .next c)).set .prev ((s.set .next b (s.get .next c)).get .next c) b

variable (hB : Blocks s x k) (hb : b ∈ k) (hbe : b ≠ s.heapEnd) (hc : s.get .next b = c)

include hB hb hbe hc

theorem merge_get {d : Nat} (hd : d ∈ k) : (s.merge b c).get f d =
    if s.get .next c = d ∧ .prev = f then b
    else if b = d ∧ .next = f then s.get .next c else s.get f d := by
  have hck : c ∈ k := hc ▸ hB.next_mem hb
  have hnk := hB.next_mem hck
  have hbc : b ≠ c := hc ▸ (hB.leads.lt b hb hbe).ne
  have hltn : s.get .next c < 256 ^ heapMem.size .next := hB.lt hnk
  have hltb : b < 256 ^ heapMem.size .prev := hB.lt hb
  unfold merge
  rw [get_set_ne (hB.apart hb hck) (.inr hbc), get_set (hB.apart hnk hd) hltb,
    get_set (hB.apart hb hd) hltn]

theorem merge_next {d : Nat} (hd : d ∈ k) : (s.merge b c).get .next d =
    if b = d then s.get .next c else s.get .next d := by
  rw [merge_get hB hb hbe hc hd, if_neg (by simp)]
  simp

theorem merge_prev {d : Nat} (hd : d ∈ k) : (s.merge b c).get .prev d =
    if s.get .next c = d then b else s.get .prev d := by
  rw [merge_get hB hb hbe hc hd]
  simp

theorem merge_used {d : Nat} (hd : d ∈ k) : (s.merge b c).get .used d = s.get .used d := by
  rw [merge_get hB hb hbe hc hd, if_neg (by simp), if_neg (by simp)]

/-- What is left to prove is that no two unused blocks are next to each other. -/
theorem Blocks.merge {y : Nat} (hce : c ≠ s.heapEnd)
    (hh : ∀ d ∈ k, d ≠ c → d ≠ b → s.get .used d = 0 → s.get .used (s.get .next d) = 0 → d = y ∨ s.get .next d = y)
    (hhb : s.get .used b = 0 → s.get .used (s.get .next c) = 0 → b = y ∨ s.get .next c = y) :
    Blocks (s.merge b c) y (k.erase c) := by
  have hck : c ∈ k := hc ▸ hB.next_mem hb
  have hbc : b < c := hc ▸ hB.leads.lt b hb hbe
  have hnext : ∀ d ∈ k, (s.merge b c).get .next d =
      if b = d then s.get .next c else s.get .next d := fun d hd => merge_next hB hb hbe hc hd
  have hprev : ∀ d ∈ k, (s.merge b c).get .prev d =
      if s.get .next c = d then b else s.get .prev d := fun d hd => merge_prev hB hb hbe hc hd
  have hused : ∀ d ∈ k, (s.merge b c).get .used d = s.get .used d :=
    fun d hd => merge_used hB hb hbe hc hd
  have hnb : (s.merge b c).get .next b = s.get .next c := by rw [hnext b hb, if_pos rfl]
  have hn : ∀ d ∈ k, d ≠ b → (s.merge b c).get .next d = s.get .next d := fun d hd hdb => by
    rw [hnext d hd, if_neg hdb.symm]
  constructor
  case leads => exact hB.leads.erase hb hbe hc hce hnb fun d hd hdb _ _ => hn d hd hdb
  case start => exact Finset.mem_erase.mpr ⟨by omega, hB.start⟩
  case gap =>
    intro d hd hde
    obtain ⟨-, hd⟩ := Finset.mem_erase.mp hd
    by_cases hdb : d = b
    · have h1 := hB.gap b hb hbe
      have h2 := hB.gap c hck hce
      rw [hdb, hnb]
      omega
    · rw [hn d hd hdb]
      exact hB.gap d hd hde
  case align => exact fun d hd => hB.align d (Finset.mem_of_mem_erase hd)
  case prev =>
    intro d hd hde hdn
    obtain ⟨hdc, hd⟩ := Finset.mem_erase.mp hd
    by_cases hdb : d = b
    · rw [hdb, hnb, hprev _ (hB.next_mem hck), if_pos rfl]
    · rw [hn d hd hdb] at hdn ⊢
      rw [hprev _ (hB.next_mem hd), if_neg, hB.prev d hd hde hdn]
      exact fun h => hdc (hB.leads.inj hck hce hd hde h).symm
  case startPrev =>
    have h2 := hB.gap c hck hce
    rw [hprev 0 hB.start, if_neg (by omega), hB.startPrev]
  case hole =>
    intro d hd hdu hdn
    obtain ⟨hdc, hd⟩ := Finset.mem_erase.mp hd
    rw [hused d hd] at hdu
    by_cases hdb : d = b
    · rw [hdb, hnb, hused _ (hB.next_mem hck)] at hdn
      rw [hdb, hnb]
      exact hhb (hdb ▸ hdu) hdn
    · rw [hn d hd hdb] at hdn ⊢
      rw [hused _ (hB.next_mem hd)] at hdn
      exact hh d hd hdc hdb hdu hdn
  case magic =>
    intro d hd
    obtain ⟨hdc, hd⟩ := Finset.mem_erase.mp hd
    rw [merge_get hB hb hbe hc hd, if_neg (by simp), if_neg (by simp), hB.magic d hd]
  case endUsed => exact (hused _ hB.leads.last).trans hB.endUsed
  case endNext => exact (hn _ hB.leads.last hbe.symm).trans hB.endNext
  case size => exact hB.size
  case bound => exact hB.bound
  case ptr => exact hB.ptr

/-- Unused blocks are merged. -/
theorem merge_kept (hbu : s.get .used b = 0) (hcu : s.get .used c = 0) :
    Kept s k (s.merge b c) (k.erase c) := by
  have hused : ∀ d ∈ k, (s.merge b c).get .used d = s.get .used d :=
    fun d hd => merge_used hB hb hbe hc hd
  refine ⟨rfl, ?_, fun d hd => ?_, rfl⟩
  · ext d
    rw [mem_usedBlocks, mem_usedBlocks, Finset.mem_erase]
    constructor
    · rintro ⟨⟨-, hd⟩, hu⟩
      exact ⟨hd, hused d hd ▸ hu⟩
    · rintro ⟨hd, hu⟩
      exact ⟨⟨fun h => hu (h ▸ hcu), hd⟩, (hused d hd).symm ▸ hu⟩
  · obtain ⟨hd, hu⟩ := mem_usedBlocks.mp hd
    rw [merge_next hB hb hbe hc hd, if_neg]
    rintro rfl
    exact hu hbu

theorem merge_low (hL : Low s k) (hne : s.lfree ≠ c) : Low (s.merge b c) (k.erase c) := by
  refine ⟨fun d hd hu => ?_, Finset.mem_erase.mpr ⟨hne, hL.mem⟩, hL.unused.imp_right fun h => ?_⟩
  · have hdk := Finset.mem_of_mem_erase hd
    exact hL.le d hdk ((merge_used hB hb hbe hc hdk).symm.trans hu)
  · exact (merge_used hB hb hbe hc hL.mem).trans h

end Merge

/-! ## `plug_holes` -/

section Plug

variable (hB : Blocks s x k) (hL : Low s k) (hx : x ∈ k) (hu : s.get .used x = 0)

include hB hL hx hu

theorem plugForward_spec : ∃ k', Blocks (s.plugForward x) x k' ∧ Low (s.plugForward x) k' ∧
    Kept s k (s.plugForward x) k' ∧ x ∈ k' ∧ (s.plugForward x).get .used x = 0 ∧
    (s.plugForward x).get .used ((s.plugForward x).get .next x) ≠ 0 := by
  have hxe := hB.ne_end hu
  have hlt := hB.leads.lt x hx hxe
  have hlow : s.lfree ≠ s.get .next x := by
    have := hL.le x hx hu
    omega
  by_cases hcond : s.get .used (s.get .next x) = 0 ∧ s.get .next x ≠ s.heapEnd
  · obtain ⟨hcu, hce⟩ := hcond
    have hs : s.plugForward x = s.merge x (s.get .next x) := by
      simp only [plugForward]
      rw [if_pos ⟨hlt.ne, hcu, hce⟩, if_neg hlow]
      rfl
    have hck := hB.next_mem hx
    have hclt := hB.leads.lt _ hck hce
    -- the block behind the two is used
    have hdu : s.get .used (s.get .next (s.get .next x)) ≠ 0 := by
      intro hd
      rcases hB.hole _ hck hcu hd with he | he
      · omega
      · omega
    refine ⟨k.erase (s.get .next x), ?_, ?_, ?_, Finset.mem_erase.mpr ⟨hlt.ne, hx⟩, ?_, ?_⟩
    · rw [hs]
      exact hB.merge hx hxe rfl hce (fun d hd _ _ => hB.hole d hd) fun _ hd => absurd hd hdu
    · rw [hs]
      exact merge_low hB hx hxe rfl hL hlow
    · rw [hs]
      exact merge_kept hB hx hxe rfl hu hcu
    · rw [hs, merge_used hB hx hxe rfl hx, hu]
    · rw [hs, merge_next hB hx hxe rfl hx, if_pos rfl,
        merge_used hB hx hxe rfl (hB.next_mem hck)]
      exact hdu
  · have hs : s.plugForward x = s := by
      simp only [plugForward]
      rw [if_neg fun h => hcond h.2]
    rw [hs]
    refine ⟨k, hB, hL, .refl, hx, hu, fun hn => hcond ⟨hn, hB.ne_end hn⟩⟩

theorem plugBackward_spec (hn : s.get .used (s.get .next x) ≠ 0) :
    ∃ k', Blocks (s.plugBackward x) s.heapEnd k' ∧ Low (s.plugBackward x) k' ∧
      Kept s k (s.plugBackward x) k' := by
  have hxe := hB.ne_end hu
  by_cases hcond : s.get .prev x ≠ x ∧ s.get .used (s.get .prev x) = 0
  · obtain ⟨hpx, hpu⟩ := hcond
    have hx0 : x ≠ 0 := by
      rintro rfl
      exact hpx hB.startPrev
    obtain ⟨hp, hpe, hnp⟩ := hB.prev_mem hx hx0 hxe
    have hlow : s.lfree ≠ x := by
      have h1 := hL.le _ hp hpu
      have h2 := hB.leads.lt _ hp hpe
      omega
    have hs : s.plugBackward x = s.merge (s.get .prev x) x := by
      simp only [plugBackward]
      rw [if_pos ⟨hpx, hpu⟩, if_neg hlow]
      rfl
    refine ⟨k.erase x, ?_, ?_, ?_⟩
    · rw [hs]
      refine hB.merge hp hpe hnp hxe (fun d hd hdx hdp hdu hdn => ?_) fun _ h => absurd h hn
      rcases hB.hole d hd hdu hdn with he | he
      · exact absurd he hdx
      · have hde := hB.ne_end hdu
        exact absurd (hB.leads.inj hd hde hp hpe (he.trans hnp.symm)) hdp
    · rw [hs]
      exact merge_low hB hp hpe hnp hL hlow
    · rw [hs]
      exact merge_kept hB hp hpe hnp hpu hu
  · have hs : s.plugBackward x = s := by
      simp only [plugBackward]
      rw [if_neg hcond]
    rw [hs]
    refine ⟨k, { hB with hole := fun d hd hdu hdn => ?_ }, hL, .refl⟩
    rcases hB.hole d hd hdu hdn with rfl | he
    · exact absurd hdn hn
    · -- the block before `x` is used
      have hde := hB.ne_end hdu
      have hprev := hB.prev d hd hde (he ▸ hxe)
      rw [he] at hprev
      refine absurd ⟨?_, ?_⟩ hcond
      · rw [hprev]
        exact (he ▸ hB.leads.lt d hd hde).ne
      · rw [hprev]
        exact hdu

theorem plugHoles_spec : ∃ t k', s.plugHoles x = some t ∧ Blocks t t.heapEnd k' ∧ Low t k' ∧
    Kept s k t k' := by
  have hxe := hB.ne_end hu
  have hlt : x < s.heapEnd := lt_of_le_of_ne (hB.leads.le x hx) hxe
  obtain ⟨k1, hB₁, hL₁, hK₁, hx1, hu1, hn1⟩ := plugForward_spec hB hL hx hu
  obtain ⟨k2, hB₂, hL₂, hK₂⟩ := plugBackward_spec hB₁ hL₁ hx1 hu1 hn1
  have hend : ((s.plugForward x).plugBackward x).heapEnd = (s.plugForward x).heapEnd := by
    simp only [plugBackward]
    split
    · split <;> rfl
    · rfl
  exact ⟨_, k2, if_pos ⟨hlt, hu⟩, hend.symm ▸ hB₂, hL₂, hK₁.trans hK₂⟩

end Plug

end Tudu.Mem.Heap
