import TuduOS.Mem.MemheapBytes

/-!
# What the functions do to a memory heap

* `Good s k fl v`: the memory of `s` shows the blocks `k` and the free list `fl`, and the free blocks
  have `v` bytes together.
* `Keeps b s k t k'`: from `s` to `t` every used block apart from `b` stays where it is, with its bytes.
* `allocBlock_spec`, `freeBlock_spec`, `grow_spec`, `shrink_spec`: each function, as changes of
  `Items`.
-/

namespace Tudu.Memheap

open Bytes Circular Circular.Links

namespace Heap

structure Good (s : Heap) (k : Finset Nat) (fl : List Nat) (v : Nat) : Prop where
  room : s.pool.Room
  inv : Items.Inv s.pool s.items k fl v

/-- The byte at `a` is behind the header of the block `b`. -/
def Area (s : Heap) (b a : Nat) : Prop := b + 24 ≤ a ∧ a < s.get .next b

structure Keeps (b : Nat) (s : Heap) (k : Finset Nat) (t : Heap) (k' : Finset Nat) : Prop where
  pool : t.pool = s.pool
  others : Items.Others b s.items k t.items k'
  mem : ∀ d ∈ k, ¬s.items.IsFree d → d ≠ b → ∀ a, s.Area d a → t.mem a = s.mem a

variable {s t u : Heap} {k k' k'' D : Finset Nat} {fl fl' : List Nat} {v v' a b c d n size : Nat}
  {A B : Items}

theorem Keeps.trans (h : Keeps b s k t k') (h' : Keeps b t k' u k'') : Keeps b s k u k'' where
  pool := h'.pool.trans h.pool
  others := h.others.trans h'.others
  mem d hd hu hdb a ha := by
    obtain ⟨hd', hu', hnext⟩ := h.others.kept d hd hu hdb hdb
    rw [h'.mem d hd' hu' hdb a ⟨ha.1, by rw [show t.get .next d = s.get .next d from hnext]; exact ha.2⟩]
    exact h.mem d hd hu hdb a ha

theorem memitemSize_of (h : s.get .next b = c) (hle : b + 24 ≤ c) : s.memitemSize b = c - b - 24 := by
  unfold memitemSize memheapSize
  rw [h, sub32_of_le (show b ≤ c by omega), sub32_of_le (by omega)]

theorem isUsed_iff_of_get (h : t.get .magic b = s.get .magic b) : t.IsUsed b ↔ s.IsUsed b := by
  rw [IsUsed, IsUsed, h]

theorem mergeRight_of_free (hn : s.get .next b = c) (hf : ¬s.IsUsed c) : s.mergeRight b =
    Heap.absorb { s with availableSize := add32 s.availableSize memheapSize } b c := by
  unfold mergeRight
  rw [hn, if_neg hf]
  exact congrArg (Heap.absorb _ b) hn

theorem mergeRight_of_used (hn : s.get .next b = c) (hu : s.IsUsed c) : s.mergeRight b = s := by
  unfold mergeRight
  rw [hn, if_pos hu]

namespace Good

/-! ## Addresses -/

theorem node_apart (h : Good s k fl v) (hb : b ∈ k) :
    s.pool.freeList + 24 ≤ b ∨ b + 24 ≤ s.pool.freeList := by
  have h1 := h.inv.start_le hb
  have h2 := h.inv.le_tail hb
  have h3 := h.room.tail
  have h4 := h.room.apart
  omega

theorem node_lt (h : Good s k fl v) (hb : b ∈ k) : b + 24 ≤ 2 ^ 32 := by
  have h2 := h.inv.le_tail hb
  have h3 := h.room.tail
  have h4 := h.room.poolEnd
  omega

theorem sum_lt (h : Good s k fl v) : v < 2 ^ 32 := by
  have h1 := h.inv.sum_le
  have h2 := h.room.tail
  have h3 := h.room.poolEnd
  omega

theorem nodes (h : Good s k fl v) : Nodes (insert s.pool.freeList k) where
  apart b hb c hc := by
    rcases Finset.mem_insert.mp hb with rfl | hb <;> rcases Finset.mem_insert.mp hc with rfl | hc
    · exact .inl rfl
    · exact .inr (h.node_apart hc)
    · exact .inr (h.node_apart hb).symm
    · rcases h.inv.apart hb hc with he | he | he <;> omega
  lt b hb := by
    rcases Finset.mem_insert.mp hb with rfl | hb
    · have := h.room.freeEnd
      omega
    · have := h.node_lt hb
      omega

/-- A place for a header in the area of a block is apart from all headers. -/
theorem inside_apart (h : Good s k fl v) (hb : b ∈ k) (h1 : b + 24 ≤ n) (h2 : n + 24 ≤ s.get .next b)
    (hc : c ∈ insert s.pool.freeList k) : n + 24 ≤ c ∨ c + 24 ≤ n := by
  have hbt : b ≠ s.pool.tail := by
    rintro rfl
    have hback : s.get .next s.pool.tail = s.pool.startAddr := h.inv.around.back
    have hle := h.inv.start_le hb
    omega
  rcases Finset.mem_insert.mp hc with rfl | hc
  · have h3 := h.inv.start_le hb
    have h4 := h.inv.le_tail (h.inv.next_mem hb)
    change s.get .next b ≤ _ at h4
    have h5 := h.room.tail
    have h6 := h.room.apart
    omega
  · rcases Nat.lt_trichotomy b c with hlt | rfl | hlt
    · have hle : s.get .next b ≤ c := h.inv.around.leads.least b hb c hc hlt
      omega
    · omega
    · have := h.inv.apart hb hc
      omega

theorem nodes_insert (h : Good s k fl v) (hb : b ∈ k) (h1 : b + 24 ≤ n) (h2 : n + 24 ≤ s.get .next b) :
    Nodes (insert n (insert s.pool.freeList k)) where
  apart c hc d hd := by
    rcases Finset.mem_insert.mp hc with rfl | hc' <;> rcases Finset.mem_insert.mp hd with rfl | hd'
    · exact .inl rfl
    · exact .inr (h.inside_apart hb h1 h2 hd')
    · exact .inr (h.inside_apart hb h1 h2 hc').symm
    · exact h.nodes.apart c hc' d hd'
  lt c hc := by
    rcases Finset.mem_insert.mp hc with rfl | hc
    · have := h.node_lt (h.inv.next_mem hb)
      change s.get .next b + 24 ≤ _ at this
      omega
    · exact h.nodes.lt c hc

/-- The areas of the blocks are apart from all headers. -/
theorem area_outside (h : Good s k fl v) (hd : d ∈ k) (ha : s.Area d a) :
    Outside (insert s.pool.freeList k) a := by
  obtain ⟨h1, h2⟩ := ha
  have hle : s.get .next d ≤ s.pool.tail := h.inv.le_tail (h.inv.next_mem hd)
  have hs := h.inv.start_le hd
  have htail := h.room.tail
  have hroom := h.room.apart
  intro c hc
  rcases Finset.mem_insert.mp hc with rfl | hc
  · omega
  · rcases Nat.lt_trichotomy d c with hlt | rfl | hlt
    · have hleast : s.get .next d ≤ c := h.inv.around.leads.least d hd c hc hlt
      omega
    · omega
    · have := h.inv.apart hc hd
      omega

theorem next_le (h : Good s k fl v) (hb : b ∈ k) (hbt : b ≠ s.pool.tail) : b + 36 ≤ s.get .next b :=
  h.inv.gap b hb hbt

/-- `MEMITEM_SIZE` -/
theorem memitemSize_eq (h : Good s k fl v) (hb : b ∈ k) (hbt : b ≠ s.pool.tail) :
    s.memitemSize b = s.items.size b := by
  have hgap := h.next_le hb hbt
  exact memitemSize_of (c := s.get .next b) rfl (by omega)

theorem isUsed_iff (h : Good s k fl v) (hb : b ∈ k) : s.IsUsed b ↔ ¬s.items.IsFree b := by
  have hfree : s.items.IsFree b ↔ s.get .magic b = memheapMagic := Iff.rfl
  rcases h.inv.magic b hb with hf | hu
  · rw [hfree] at hf
    rw [hfree, IsUsed, hf]
    decide
  · change s.get .magic b = usedMagic at hu
    rw [hfree, IsUsed, hu]
    decide

/-- What the memory shows is a heap again. -/
theorem of_shows (hs : Good s k fl v) (h : Shows D s t B) (hI : Items.Inv s.pool A k' fl' v')
    (hk : ∀ b ∈ k', b ∈ D) (hl : s.pool.freeList ∈ D)
    (hB : ∀ b ∈ k', B.blocks.next b = A.blocks.next b ∧ B.blocks.prev b = A.blocks.prev b ∧
      B.magic b = A.magic b ∧ B.pool b = A.pool b)
    (hF : ∀ b ∈ s.pool.freeList :: fl', B.free.next b = A.free.next b ∧
      B.free.prev b = A.free.prev b) : Good t k' fl' v' := by
  refine ⟨by rw [h.pool]; exact hs.room, ?_⟩
  rw [h.pool]
  refine hI.congr (fun b hb => ?_) fun b hb => ?_
  · obtain ⟨h1, h2, h3, h4⟩ := hB b hb
    have hD := hk b hb
    exact ⟨(h.get .next b hD).trans h1, (h.get .prev b hD).trans h2, (h.get .magic b hD).trans h3,
      (h.get .poolPtr b hD).trans h4⟩
  · obtain ⟨h1, h2⟩ := hF b hb
    have hD : b ∈ D := by
      rcases List.mem_cons.mp hb with rfl | hb
      · exact hl
      · exact hk b ((hI.mem b).mp hb).1
    exact ⟨(h.get .nextFree b hD).trans h1, (h.get .prevFree b hD).trans h2⟩

/-- The areas of two blocks are apart. -/
theorem area_apart (h : Good s k fl v) (hb : b ∈ k) (hd : d ∈ k) (hdb : d ≠ b) (ha : s.Area d a) :
    a < b + 24 ∨ s.get .next b ≤ a := by
  obtain ⟨h1, h2⟩ := ha
  rcases Nat.lt_or_gt_of_ne hdb with hlt | hlt
  · have hle : s.get .next d ≤ b := h.inv.around.leads.least d hd b hb hlt
    omega
  · have hle : s.get .next b ≤ d := h.inv.around.leads.least b hb d hd hlt
    omega

theorem area_outside_insert (h : Good s k fl v) (hb : b ∈ k) (h1 : b + 24 ≤ n)
    (h2 : n + 24 ≤ s.get .next b) (hd : d ∈ k) (hdb : d ≠ b) (ha : s.Area d a) :
    Outside (insert n (insert s.pool.freeList k)) a := by
  intro c hc
  rcases Finset.mem_insert.mp hc with rfl | hc
  · rcases h.area_apart hb hd hdb ha with h3 | h3 <;> omega
  · exact h.area_outside hd ha c hc

theorem area_outside_front (h : Good s k fl v) (hb : b ∈ k) (ha : s.Area b a) (hn : a < n) :
    Outside (insert n (insert s.pool.freeList k)) a := by
  intro c hc
  rcases Finset.mem_insert.mp hc with rfl | hc
  · exact .inl hn
  · exact h.area_outside hb ha c hc

/-- The assignments of a function at the headers `D` are the change of the items to `A`. -/
theorem result (hs : Good s k fl v) (h : Shows D s t B) (hI : Items.Inv s.pool A k' fl' v')
    (hl : s.pool.freeList ∈ D)
    (hB : ∀ x ∈ k', x ∈ D ∧ B.blocks.next x = A.blocks.next x ∧ B.blocks.prev x = A.blocks.prev x ∧
      B.magic x = A.magic x ∧ B.pool x = A.pool x)
    (hF : ∀ x ∈ s.pool.freeList :: fl', B.free.next x = A.free.next x ∧
      B.free.prev x = A.free.prev x)
    (ho : Items.Others b s.items k A k')
    (hout : ∀ d ∈ k, ¬s.items.IsFree d → d ≠ b → ∀ a, s.Area d a → Outside D a) :
    Good t k' fl' v' ∧ Keeps b s k t k' ∧
      ∀ x ∈ k', (t.items.IsFree x ↔ A.IsFree x) ∧ t.items.blocks.next x = A.blocks.next x := by
  have hfree : ∀ d ∈ k', t.items.IsFree d ↔ A.IsFree d := fun d hd => by
    have hget : t.items.magic d = B.magic d := h.get .magic d (hB d hd).1
    rw [Items.IsFree, Items.IsFree, hget, (hB d hd).2.2.2.1]
  have hnext : ∀ d ∈ k', t.items.blocks.next d = A.blocks.next d := fun d hd =>
    (h.get .next d (hB d hd).1).trans (hB d hd).2.1
  refine ⟨hs.of_shows h hI (fun x hx => (hB x hx).1) hl (fun x hx => (hB x hx).2) hF, ⟨h.pool, ⟨
    fun d hd hu hdb hdb' => ?_, fun d hd hu hdb => ?_⟩, fun d hd hu hdb a ha => ?_⟩,
    fun x hx => ⟨hfree x hx, hnext x hx⟩⟩
  · obtain ⟨hd', hu', hn⟩ := ho.kept d hd hu hdb hdb'
    exact ⟨hd', fun hf => hu' ((hfree d hd').mp hf), (hnext d hd').trans hn⟩
  · exact ho.only d hd (fun hf => hu ((hfree d hd).mpr hf)) hdb
  · exact h.mem a (hout d hd hu hdb a ha)

/-! ## The assignments of the functions -/

theorem ring_mem (h : Good s k fl v) {x : Nat} (hx : x ∈ s.pool.freeList :: fl) :
    x ∈ insert s.pool.freeList k := by
  rcases List.mem_cons.mp hx with rfl | hx
  · exact Finset.mem_insert_self ..
  · exact Finset.mem_insert_of_mem ((h.inv.mem x).mp hx).1

theorem free_next_mem (h : Good s k fl v) {x : Nat} (hx : x ∈ s.pool.freeList :: fl) :
    s.items.free.next x ∈ insert s.pool.freeList k ∧
      s.items.free.prev x ∈ insert s.pool.freeList k :=
  ⟨h.ring_mem (h.inv.ring.mem hx).1.1, h.ring_mem (h.inv.ring.mem hx).2.1⟩

theorem mem_ring (h : Good s k fl v) (hb : b ∈ k) (hf : s.items.IsFree b) :
    b ∈ s.pool.freeList :: fl :=
  List.mem_cons_of_mem _ ((h.inv.mem b).mpr ⟨hb, hf⟩)

/-! ## Allocation -/

theorem magic_or_used : memheapMagic ||| memheapUsed = usedMagic := by decide

/-- The block `b` is taken, with at least `size` bytes; the first of them are those it has had. -/
structure Taken (s : Heap) (k : Finset Nat) (b size : Nat) (t : Heap) : Prop where
  good : ∃ k' fl', Good t k' fl' t.availableSize ∧ Keeps b s k t k' ∧ b ∈ k'
  used : ¬t.items.IsFree b
  le : size ≤ t.items.size b
  mem : ∀ a, s.Area b a → a < b + 24 + size → t.mem a = s.mem a

theorem allocWhole (h : Good s k fl v) (hb : b ∈ k) (hf : s.items.IsFree b)
    (hle : size ≤ s.items.size b) (hav : s.availableSize = v)
    (hfit : ¬add32 (add32 size memheapSize) memheapMinialloc ≤ s.items.size b) :
    Taken s k b size (s.allocBlock b size (s.items.size b)) := by
  have hD := h.nodes
  have hbD : b ∈ insert s.pool.freeList k := Finset.mem_insert_of_mem hb
  obtain ⟨hn, hp⟩ := h.free_next_mem (h.mem_ring hb hf)
  obtain ⟨htake, hv⟩ := h.inv.take ((h.inv.mem b).mpr ⟨hb, hf⟩)
  have hb0 : b ∉ s.pool.freeList :: fl.erase b := by
    have hnd := h.inv.ring.2
    have hne := h.inv.ne_freeList h.room hb
    grind
  -- the assignments one after the other
  have h1 := (Shows.refl (insert s.pool.freeList k) s).setAvailable
    (sub32 s.availableSize (s.items.size b))
  have h2 := (((h1.removeFree hD hbD hn hp).set hD .nextFree hbD (v := 0) (by decide)).set hD
    .prevFree hbD (v := 0) (by decide))
  have hmagic := h2.get .magic b hbD
  have hval := (congrArg (· ||| memheapUsed) (hmagic.trans hf)).trans magic_or_used
  have h3 := h2.set hD .magic hbD (v := usedMagic) (by decide)
  obtain ⟨hgood, hkeeps, hitems⟩ := h.result (b := b) h3 htake (Finset.mem_insert_self ..)
    (fun x hx => ⟨Finset.mem_insert_of_mem hx, rfl, rfl, rfl, rfl⟩)
    (fun x hx => by
      have hxb : x ≠ b := fun he => hb0 (he ▸ hx)
      simp [Items.set, Items.take, setNext, setPrev, hxb])
    Items.Inv.take_others (fun d hd _ _ a ha => h.area_outside hd ha)
  have heq : s.allocBlock b size (s.items.size b) = ((((s.setAvailable
      (sub32 s.availableSize (s.items.size b))).removeFree b).set .nextFree b 0).set .prevFree b
        0).set .magic b usedMagic := by
    unfold allocBlock
    rw [if_neg hfit]
    exact congrArg (Heap.set _ .magic b) hval
  rw [heq]
  refine ⟨⟨k, fl.erase b, ?_, hkeeps, hb⟩, fun hf => ?_, ?_,
    fun a ha _ => h3.mem a (h.area_outside hb ha)⟩
  · rw [← sub32_of_le hv, ← hav] at hgood
    exact hgood
  · exact (Items.Inv.take_isFree.mp ((hitems b hb).1.mp hf)).1 rfl
  · exact hle.trans_eq (congrArg (fun x => x - b - 24) (hitems b hb).2).symm

/-- A new block inside `b`: its header is apart from the others, and the memory shows it. -/
theorem newItem_shows (h : Good s k fl v) (hb : b ∈ k) (h1 : b + 24 ≤ n)
    (h2 : n + 24 ≤ s.get .next b) :
    Nodes (insert n (insert s.pool.freeList k)) ∧ (∀ d ∈ insert s.pool.freeList k, d ≠ n) ∧
      (∀ d ∈ insert s.pool.freeList k, d ∈ insert n (insert s.pool.freeList k)) ∧
      b ∈ insert s.pool.freeList k ∧ s.pool.freeList ∈ insert s.pool.freeList k ∧
      n ∈ insert n (insert s.pool.freeList k) ∧
      Shows (insert n (insert s.pool.freeList k)) s (s.newItem b n)
        (s.items.newItem s.pool.addr b n) := by
  have hD := h.nodes_insert hb h1 h2
  have hne : ∀ d ∈ insert s.pool.freeList k, d ≠ n := fun d hd => by
    have := h.inside_apart hb h1 h2 hd
    omega
  have hbD : b ∈ insert s.pool.freeList k := Finset.mem_insert_of_mem hb
  have hnD : n ∈ insert n (insert s.pool.freeList k) := Finset.mem_insert_self ..
  have hnextD : s.items.blocks.next b ∈ insert s.pool.freeList k :=
    Finset.mem_insert_of_mem (h.inv.next_mem hb)
  exact ⟨hD, hne, fun d hd => Finset.mem_insert_of_mem hd, hbD, Finset.mem_insert_self .., hnD,
    (Shows.refl _ s).newItem hD h.room.addr (Finset.mem_insert_of_mem hbD) hnD
      (Finset.mem_insert_of_mem hnextD) (hne b hbD).symm (hne _ hnextD).symm⟩

theorem allocSplit (h : Good s k fl v) (hb : b ∈ k) (hf : s.items.IsFree b) (h₁₂ : 12 ≤ size)
    (hle : size ≤ s.items.size b) (hav : s.availableSize = v)
    (hfit : add32 (add32 size memheapSize) memheapMinialloc ≤ s.items.size b) :
    Taken s k b size (s.allocBlock b size (s.items.size b)) := by
  have hbt := h.inv.ne_tail hf
  have hgap : b + 36 ≤ s.items.blocks.next b := h.inv.gap b hb hbt
  have hlt : s.items.blocks.next b + 24 ≤ 2 ^ 32 := h.node_lt (h.inv.next_mem hb)
  have hsize : s.items.size b = s.items.blocks.next b - b - 24 := rfl
  have hfit' : size + 36 ≤ s.items.size b := by
    unfold memheapSize memheapMinialloc at hfit
    rw [add32_of_lt (show size + 24 < 2 ^ 32 by omega), add32_of_lt (by omega)] at hfit
    exact hfit
  obtain ⟨n, hn⟩ : ∃ n, n = b + size + 24 := ⟨_, rfl⟩
  have hn' : add32 (add32 b size) memheapSize = n := by
    unfold memheapSize
    rw [add32_of_lt (show b + size < 2 ^ 32 by omega), add32_of_lt (by omega), hn]
  have hin1 : b + 24 ≤ n := by omega
  have hin2 : n + 24 ≤ s.get .next b := by
    show n + 24 ≤ s.items.blocks.next b
    omega
  obtain ⟨hD, hne, hD', hbD, hlD, hnD, h1⟩ := h.newItem_shows hb hin1 hin2
  have hbl := h.inv.ne_freeList h.room hb
  obtain ⟨hfn, hfp⟩ := h.free_next_mem (h.mem_ring hb hf)
  obtain ⟨htake, hv⟩ := h.inv.take ((h.inv.mem b).mpr ⟨hb, hf⟩)
  have hb0 : b ∉ s.pool.freeList :: fl.erase b := by
    have hnd := h.inv.ring.2
    grind
  -- the new block is behind `b`; `b` goes off the free list
  have h2 := (((h1.removeFree hD (hD' b hbD) (hD' _ hfn) (hD' _ hfp)).set hD .nextFree (hD' b hbD)
    (v := 0) (by decide)).set hD .prevFree (hD' b hbD) (v := 0) (by decide))
  have hhead : (((s.items.free.unlink b).setNext b 0).setPrev b 0).next s.pool.freeList ∈
      insert s.pool.freeList k := by
    have hmem := (htake.ring.mem (List.mem_cons_self ..)).1.1
    have hsame : (((s.items.free.unlink b).setNext b 0).setPrev b 0).next s.pool.freeList =
        (s.items.take b).free.next s.pool.freeList := by
      simp [setNext, setPrev, hbl.symm, Items.take]
    rw [hsame]
    rcases List.mem_cons.mp hmem with he | he
    · rw [he]
      exact hlD
    · exact Finset.mem_insert_of_mem ((htake.mem _).mp he).1
  -- the new block on it
  have h3 := (h2.insertFree hD (hD' _ hlD) hnD (hD' _ hhead) (hne _ hlD).symm
    (hne _ hhead).symm).setAvailable
      (sub32 (sub32 s.availableSize size) memheapSize)
  have hmagic := h3.get .magic b (hD' b hbD)
  have hval := (congrArg (· ||| memheapUsed) (hmagic.trans (a := _) (c := memheapMagic) (by
    show Function.update s.items.magic n memheapMagic b = memheapMagic
    rw [Function.update_of_ne (hne b hbD)]
    exact hf))).trans magic_or_used
  have h4 := h3.set hD .magic (hD' b hbD) (v := usedMagic) (by decide)
  have hcut := htake.split_release h.room hb hbt (fun hf => (Items.Inv.take_isFree.mp hf).1 rfl)
    (fun hn => h.inv.hole b hb hf (Items.Inv.take_isFree.mp hn).2) (n := n) (by omega)
    (show n + 36 ≤ s.items.blocks.next b by omega)
  obtain ⟨hgood, hkeeps, hitems⟩ := h.result (b := b) h4 hcut (hD' _ hlD)
    (fun x hx => by
      refine ⟨?_, rfl, rfl, ?_, rfl⟩
      · exact Finset.insert_subset_insert n (Finset.subset_insert _ k) hx
      · show Function.update (Function.update s.items.magic n memheapMagic) b usedMagic x =
          Function.update (Function.update (Function.update s.items.magic b usedMagic) n usedMagic) n
            memheapMagic x
        rw [Function.update_idem, Function.update_comm (hne b hbD)])
    (fun x hx => by
      have hxb : x ≠ b := fun he => by
        have hbn := hne b hbD
        grind
      exact Items.insertAfter_cleared hxb hbl.symm)
    (Items.Inv.take_others.trans (Items.Inv.split_release_others fun d hd =>
      hne d (Finset.mem_insert_of_mem hd)))
    (fun d hd _ hdb a ha => h.area_outside_insert hb hin1 hin2 hd hdb ha)
  have heq : s.allocBlock b size (s.items.size b) = ((((((s.newItem b n).removeFree b).set .nextFree b
      0).set .prevFree b 0).insertFree n).setAvailable
        (sub32 (sub32 s.availableSize size) memheapSize)).set .magic b usedMagic := by
    unfold allocBlock
    rw [if_pos hfit, hn']
    exact congrArg (Heap.set _ .magic b) hval
  rw [heq]
  refine ⟨⟨insert n k, n :: fl.erase b, ?_, hkeeps, Finset.mem_insert_of_mem hb⟩, fun hf => ?_, ?_,
    fun a ha han => h4.mem a (h.area_outside_front hb ha (by omega))⟩
  · have hav' : sub32 (sub32 s.availableSize size) memheapSize =
        v - s.items.size b + ((s.items.take b).blocks.next b - n - 24) := by
      show _ = _ + (s.items.blocks.next b - n - 24)
      unfold memheapSize
      rw [hav, sub32_of_le (show size ≤ v by omega), sub32_of_le (by omega)]
      omega
    rw [← hav'] at hgood
    exact hgood
  · rcases Items.Inv.split_release_isFree.mp ((hitems b (Finset.mem_insert_of_mem hb)).1.mp hf) with
      he | hf
    · exact hne b hbD he
    · exact (Items.Inv.take_isFree.mp hf).1 rfl
  · have hnext := (hitems b (Finset.mem_insert_of_mem hb)).2.trans
      (insertAfter_next.trans (if_pos rfl))
    unfold Items.size
    rw [hnext]
    omega

/-! ## The end of a block -/

/-- The end of a used block before a used one goes to the free list. -/
theorem cut (h : Good s k fl v) (hb : b ∈ k) (hbt : b ≠ s.pool.tail) (hu : ¬s.items.IsFree b)
    (hnu : ¬s.items.IsFree (s.items.blocks.next b)) (h1 : b + 36 ≤ n)
    (h2 : n + 36 ≤ s.items.blocks.next b) :
    Good ((s.newItem b n).insertFree n) (insert n k) (n :: fl)
      (v + (s.items.blocks.next b - n - 24)) ∧
    Keeps b s k ((s.newItem b n).insertFree n) (insert n k) ∧
    ¬((s.newItem b n).insertFree n).items.IsFree b ∧
    ((s.newItem b n).insertFree n).items.blocks.next b = n ∧
    ((s.newItem b n).insertFree n).items.blocks.next n = s.items.blocks.next b ∧
    ∀ a, s.Area b a → a < n → ((s.newItem b n).insertFree n).mem a = s.mem a := by
  have hin1 : b + 24 ≤ n := by omega
  have hin2 : n + 24 ≤ s.get .next b := by
    show n + 24 ≤ s.items.blocks.next b
    omega
  obtain ⟨hD, hne, hD', hbD, hlD, hnD, hnew⟩ := h.newItem_shows hb hin1 hin2
  have hhead := (h.free_next_mem (List.mem_cons_self ..)).1
  have hs := hnew.insertFree hD (hD' _ hlD) hnD (hD' _ hhead) (hne _ hlD).symm (hne _ hhead).symm
  obtain ⟨hgood, hkeeps, hitems⟩ := h.result (b := b) hs
    (h.inv.split_release h.room hb hbt hu hnu h1 h2) (hD' _ hlD)
    (fun x hx => by
      refine ⟨?_, rfl, rfl, ?_, rfl⟩
      · exact Finset.insert_subset_insert n (Finset.subset_insert _ k) hx
      · show Function.update s.items.magic n memheapMagic x =
          Function.update (Function.update s.items.magic n usedMagic) n memheapMagic x
        rw [Function.update_idem])
    (fun x _ => ⟨rfl, rfl⟩)
    (Items.Inv.split_release_others fun d hd => hne d (Finset.mem_insert_of_mem hd))
    (fun d hd _ hdb a ha => h.area_outside_insert hb hin1 hin2 hd hdb ha)
  obtain ⟨hfree, hnext⟩ := hitems b (Finset.mem_insert_of_mem hb)
  refine ⟨hgood, hkeeps, fun hf => ?_, hnext.trans (insertAfter_next.trans (if_pos rfl)),
    (hitems n (Finset.mem_insert_self n k)).2.trans (insertAfter_next.trans ?_),
    fun a ha han => hs.mem a (h.area_outside_front hb ha han)⟩
  · exact (Items.Inv.split_release_isFree.mp (hfree.mp hf)).elim (hne b hbD) hu
  · rw [if_neg (hne b hbD).symm, if_pos rfl]

/-- The free block behind a used one becomes a part of it. -/
theorem swallow (h : Good s k fl v) (hb : b ∈ k) (hbt : b ≠ s.pool.tail) (hu : ¬s.items.IsFree b)
    (hc : s.items.blocks.next b = c) (hf : s.items.IsFree c) (hs : Shows (insert s.pool.freeList k) s t
      (s.items.absorb c)) :
    Good t (k.erase c) (fl.erase c) (v - s.items.size c) ∧ Keeps b s k t (k.erase c) ∧
      s.items.size c ≤ v ∧ b ∈ k.erase c ∧ ¬t.items.IsFree b ∧
      t.items.blocks.next b = s.items.blocks.next c := by
  subst hc
  have hprev : s.items.blocks.prev (s.items.blocks.next b) = b := h.inv.around.prev b hb
  obtain ⟨hI, hle⟩ := h.inv.take_join hb hbt hu hf
  have hbe : b ∈ k.erase (s.items.blocks.next b) :=
    Finset.mem_erase.mpr ⟨fun he => hu (he ▸ hf), hb⟩
  obtain ⟨hgood, hkeeps, hitems⟩ := h.result (b := b) hs hI (Finset.mem_insert_self ..)
    (fun x hx => by
      obtain ⟨hxc, hx⟩ := Finset.mem_erase.mp hx
      exact ⟨Finset.mem_insert_of_mem hx, rfl, rfl, (Function.update_of_ne hxc ..).symm, rfl⟩)
    (fun x _ => ⟨rfl, rfl⟩) (Items.Inv.take_join_others hf hprev)
    (fun d hd _ _ a ha => h.area_outside hd ha)
  obtain ⟨hfree, hnext⟩ := hitems b hbe
  refine ⟨hgood, hkeeps, hle, hbe, fun hf' => hu (Items.Inv.take_join_isFree.mp (hfree.mp hf')).2, ?_⟩
  exact hnext.trans (unlink_next.trans (if_pos hprev.symm))

/-- The block `b` takes what it needs of the free block behind it. -/
theorem growBlock (h : Good s k fl v) (hb : b ∈ k) (hbt : b ≠ s.pool.tail) (hu : ¬s.items.IsFree b)
    (hf : s.items.IsFree (s.items.blocks.next b)) (hav : s.availableSize = v) (h₁₂ : 12 ≤ size)
    (hlt : s.items.size b < size) (hwrap : size + 12 < 2 ^ 32)
    (hfit : add32 size memheapMinialloc <
      add32 (s.items.size (s.items.blocks.next b)) (s.items.size b)) :
    Taken s k b size (s.grow b (s.items.blocks.next b) size (s.items.size b)) := by
  obtain ⟨c, hc⟩ : ∃ c, s.items.blocks.next b = c := ⟨_, rfl⟩
  rw [hc] at hf hfit ⊢
  have hck : c ∈ k := hc ▸ h.inv.next_mem hb
  have hgap := h.inv.gap b hb hbt
  have hgapc : c + 36 ≤ s.items.blocks.next c := h.inv.gap c hck (h.inv.ne_tail hf)
  have hend : s.items.blocks.next c + 24 ≤ 2 ^ 32 := h.node_lt (h.inv.next_mem hck)
  have hsizeb : s.items.size b = c - b - 24 := by rw [Items.size, hc]
  have hsizec : s.items.size c = s.items.blocks.next c - c - 24 := rfl
  have hcD : c ∈ insert s.pool.freeList k := Finset.mem_insert_of_mem hck
  have hprev : s.items.blocks.prev c = b := hc ▸ h.inv.around.prev b hb
  have hD := h.nodes
  obtain ⟨hfn, hfp⟩ := h.free_next_mem (h.mem_ring hck hf)
  have hnc : s.items.blocks.next c ∈ insert s.pool.freeList k :=
    Finset.mem_insert_of_mem (h.inv.next_mem hck)
  have hbD : b ∈ insert s.pool.freeList k := Finset.mem_insert_of_mem hb
  unfold memheapMinialloc at hfit
  rw [add32_of_lt hwrap, add32_of_lt (by omega)] at hfit
  -- first the free block becomes a part of `b`
  obtain ⟨w, hw⟩ : ∃ w, sub32 s.availableSize (sub32 size (s.items.size b)) = w := ⟨_, rfl⟩
  have h1 := ((Shows.refl (insert s.pool.freeList k) s).setAvailable w).removeFree hD hcD hfn hfp
  have h2 := h1.set hD .prev hnc (v := b) (hD.lt b hbD)
  have h3 := h2.set hD .next hbD (v := s.items.blocks.next c) (hD.lt _ hnc)
  have hr1 : ((s.setAvailable w).removeFree c).get .next c = s.items.blocks.next c :=
    h1.get .next c hcD
  have hr2 : ((s.setAvailable w).removeFree c).get .prev c = b := (h1.get .prev c hcD).trans hprev
  have hcn : c ≠ s.items.blocks.next c := by omega
  have hr3 : (((s.setAvailable w).removeFree c).set .prev (s.items.blocks.next c) b).get .next c =
      s.items.blocks.next c := h2.get .next c hcD
  have hr4 : (((s.setAvailable w).removeFree c).set .prev (s.items.blocks.next c) b).get .prev c =
      b := by
    refine (h2.get .prev c hcD).trans ?_
    rw [Items.get_set, if_neg fun he => hcn he.1.symm]
    exact hprev
  obtain ⟨u, hu'⟩ : ∃ u, (((s.setAvailable w).removeFree c).set .prev (s.items.blocks.next c) b).set
      .next b (s.items.blocks.next c) = u := ⟨_, rfl⟩
  have huav : u.availableSize = w := by rw [← hu']; rfl
  rw [hu'] at h3
  have hitems : (({ s.items with free := s.items.free.unlink c } : Items).set .prev
      (s.items.blocks.next c) b).set .next b (s.items.blocks.next c) = s.items.absorb c :=
    congrArg (fun L => ({ s.items.absorb c with blocks := L } : Items)) (Items.unlink_eq hprev)
  obtain ⟨hgood₁, hkeeps₁, hle, hbe, hu1, hnext₁⟩ := h.swallow hb hbt hu hc hf (hitems ▸ h3)
  -- then its end becomes a free block
  obtain ⟨n, hn⟩ : ∃ n, n = b + 24 + size := ⟨_, rfl⟩
  have hn' : add32 (b + memheapSize) size = n := by
    unfold memheapSize
    rw [add32_of_lt (by omega), hn]
  have hnu : ¬u.items.IsFree (u.items.blocks.next b) := by
    have hcu := h.inv.hole c hck hf
    rw [hnext₁]
    have hne : s.items.blocks.next c ≠ b := by omega
    exact (hkeeps₁.others.kept _ (h.inv.next_mem hck) hcu hne hne).2.1
  obtain ⟨hgood₂, hkeeps₂, hu2, hnext₂, -, hmem₂⟩ := hgood₁.cut hbe (by rw [hkeeps₁.pool]; exact hbt) hu1
    hnu (n := n) (by omega) (by rw [hnext₁]; omega)
  have heq : s.grow b c size (s.items.size b) = (u.newItem b n).insertFree n := by
    unfold grow
    simp only [hw, hr1, hr2, hr3, hr4, hu', hn']
  rw [heq]
  refine ⟨⟨_, n :: fl.erase c, ?_, hkeeps₁.trans hkeeps₂, Finset.mem_insert_of_mem hbe⟩, hu2, ?_,
    fun a ha han => ?_⟩
  · have hav' : v - s.items.size c + (u.items.blocks.next b - n - 24) = w := by
      rw [← hw, hav, hnext₁, sub32_of_le hlt.le, sub32_of_le (by omega)]
      omega
    rw [hav', ← huav] at hgood₂
    exact hgood₂
  · unfold Items.size
    rw [hnext₂]
    omega
  · have ha' : a < s.items.blocks.next b := ha.2
    have hau : u.Area b a := ⟨ha.1, by
      show a < u.items.blocks.next b
      omega⟩
    exact (hmem₂ a hau (by omega)).trans (h3.mem a (h.area_outside hb ha))

/-- The end of a block becomes a free block, with the one behind if that is free. -/
theorem shrinkBlock (h : Good s k fl v) (hb : b ∈ k) (hbt : b ≠ s.pool.tail) (hu : ¬s.items.IsFree b)
    (hav : s.availableSize = v) (h₁₂ : 12 ≤ size) (hfit : size + 36 ≤ s.items.size b) :
    Taken s k b size (s.shrink b size) := by
  have hgap := h.inv.gap b hb hbt
  have hend : s.items.blocks.next b + 24 ≤ 2 ^ 32 := h.node_lt (h.inv.next_mem hb)
  have hsizeb : s.items.size b = s.items.blocks.next b - b - 24 := rfl
  obtain ⟨n, hn⟩ : ∃ n, n = b + size + 24 := ⟨_, rfl⟩
  have hn' : add32 (add32 b size) memheapSize = n := by
    unfold memheapSize
    rw [add32_of_lt (show b + size < 2 ^ 32 by omega), add32_of_lt (by omega), hn]
  have hin1 : b + 24 ≤ n := by omega
  have hin2 : n + 24 ≤ s.get .next b := by
    show n + 24 ≤ s.items.blocks.next b
    omega
  obtain ⟨hD, hne, hD', hbD, hlD, hnD, h1⟩ := h.newItem_shows hb hin1 hin2
  obtain ⟨c, hc⟩ : ∃ c, s.items.blocks.next b = c := ⟨_, rfl⟩
  have hck : c ∈ k := hc ▸ h.inv.next_mem hb
  have hcD : c ∈ insert s.pool.freeList k := Finset.mem_insert_of_mem hck
  have hr1 : (s.newItem b n).get .next n = c := by
    refine (h1.get .next n hnD).trans (insertAfter_next.trans ?_)
    rw [if_neg (hne b hbD).symm, if_pos rfl, hc]
  have hmagic : (s.newItem b n).get .magic c = s.get .magic c :=
    (h1.get .magic c (hD' c hcD)).trans (Function.update_of_ne (hne c hcD) ..)
  by_cases hf : s.items.IsFree c
  · have hgapc : c + 36 ≤ s.items.blocks.next c := h.inv.gap c hck (h.inv.ne_tail hf)
    have hprev : s.items.blocks.prev c = b := hc ▸ h.inv.around.prev b hb
    have hnc : s.items.blocks.next c ∈ insert s.pool.freeList k :=
      Finset.mem_insert_of_mem (h.inv.next_mem hck)
    have hr2 : (s.newItem b n).get .next c = s.items.blocks.next c := by
      refine (h1.get .next c (hD' c hcD)).trans (insertAfter_next.trans ?_)
      rw [if_neg (by omega), if_neg (hne c hcD)]
    obtain ⟨hfn, hfp⟩ := h.free_next_mem (h.mem_ring hck hf)
    obtain ⟨htake, hle⟩ := h.inv.take_join hb hbt hu (hc ▸ hf)
    rw [hc] at htake hle
    have hhead : (s.items.free.unlink c).next s.pool.freeList ∈ insert s.pool.freeList k := by
      rcases List.mem_cons.mp (htake.ring.mem (List.mem_cons_self ..)).1.1 with he | he
      · rw [show (s.items.free.unlink c).next s.pool.freeList = s.pool.freeList from he]
        exact hlD
      · exact Finset.mem_insert_of_mem (Finset.mem_of_mem_erase ((htake.mem _).mp he).1)
    -- the free block behind becomes a part of the new one
    obtain ⟨w, hw⟩ : ∃ w, sub32 (s.newItem b n).availableSize ((s.newItem b n).memitemSize c) = w :=
      ⟨_, rfl⟩
    have h2 := (h1.available w).absorb hD hnD (hD' c hcD)
      (insertAfter_prev.trans (by rw [if_neg (hne c hcD), if_pos hc.symm])) (by
        refine (congrArg (· ∈ _) (insertAfter_next.trans ?_)).mpr (hD' _ hnc)
        rw [if_neg (by omega), if_neg (hne c hcD)]) (hD' _ hfn) (hD' _ hfp)
    have h3 := h2.insertFree hD (hD' _ hlD) hnD (hD' _ hhead) (hne _ hlD).symm (hne _ hhead).symm
    have hA : ((s.items.take c).join c).blocks.next b = s.items.blocks.next c :=
      unlink_next.trans (if_pos hprev.symm)
    have hbe : b ∈ k.erase c := Finset.mem_erase.mpr ⟨fun he => hu (he ▸ hf), hb⟩
    have hnk : ∀ d ∈ k.erase c, d ≠ n := fun d hd =>
      hne d (Finset.mem_insert_of_mem (Finset.mem_of_mem_erase hd))
    obtain ⟨hgood, hkeeps, hitems⟩ := h.result (b := b) h3
      (htake.split_release h.room hbe hbt (fun hf => hu (Items.Inv.take_join_isFree.mp hf).2)
        (by rw [hA]; exact fun hf' => h.inv.hole c hck hf (Items.Inv.take_join_isFree.mp hf').2)
        (n := n) (by omega) (by rw [hA]; omega)) (hD' _ hlD)
      (fun x hx => by
        have hxc : x ≠ c := by
          rcases Finset.mem_insert.mp hx with rfl | hx
          · exact (hne c hcD).symm
          · exact Finset.ne_of_mem_erase hx
        obtain ⟨hnext, hprev'⟩ := Items.unlink_insertAfter (n := n) hc hprev (by omega) (hne b hbD)
          (hne c hcD) (hne _ hnc) hxc
        refine ⟨?_, hnext, hprev', ?_, rfl⟩
        · rcases Finset.mem_insert.mp hx with rfl | hx
          · exact hnD
          · exact hD' x (Finset.mem_insert_of_mem (Finset.mem_of_mem_erase hx))
        · show Function.update s.items.magic n memheapMagic x = Function.update
            (Function.update (Function.update s.items.magic c usedMagic) n usedMagic) n memheapMagic x
          rw [Function.update_idem]
          by_cases hxn : x = n
          · rw [hxn, Function.update_self, Function.update_self]
          · rw [Function.update_of_ne hxn, Function.update_of_ne hxn, Function.update_of_ne hxc])
      (fun x _ => ⟨rfl, rfl⟩)
      ((Items.Inv.take_join_others hf hprev).trans (Items.Inv.split_release_others hnk))
      (fun d hd _ hdb a ha => h.area_outside_insert hb hin1 hin2 hd hdb ha)
    obtain ⟨u, hu'⟩ : ∃ u, (({ s.newItem b n with availableSize := w } : Heap).absorb n c).insertFree
      n = u := ⟨_, rfl⟩
    rw [hu'] at hgood hkeeps hitems
    have hnn : u.get .next n = s.items.blocks.next c := by
      refine ((hitems n (Finset.mem_insert_self ..)).2.trans (insertAfter_next.trans ?_))
      rw [if_neg (hne b hbD).symm, if_pos rfl]
      exact hA
    have huav : u.availableSize = w := by rw [← hu']; rfl
    have hw' : w = v - s.items.size c := by
      rw [← hw, memitemSize_of hr2 (by omega), show (s.newItem b n).availableSize = v from hav]
      exact sub32_of_le hle
    have heq : s.shrink b size = { u with availableSize := add32 w (u.memitemSize n) } := by
      unfold shrink
      simp only [hn', hr1]
      rw [if_neg fun hus => (h.isUsed_iff hck).mp ((isUsed_iff_of_get hmagic).mp hus) hf, hw, hu', huav]
    have hsum : add32 w (u.memitemSize n) =
        v - s.items.size c + (((s.items.take c).join c).blocks.next b - n - 24) := by
      have hlt := hgood.sum_lt
      rw [memitemSize_of hnn (by omega), hA, ← hw']
      rw [hA, ← hw'] at hlt
      exact add32_of_lt hlt
    rw [heq]
    obtain ⟨hfree, hnext⟩ := hitems b (Finset.mem_insert_of_mem hbe)
    refine ⟨⟨_, n :: fl.erase c, ⟨hgood.room, ?_⟩, ⟨hkeeps.pool, hkeeps.others, hkeeps.mem⟩,
      Finset.mem_insert_of_mem hbe⟩, fun hf' => ?_, ?_, fun a ha han => ?_⟩
    · rw [← hsum] at hgood
      exact hgood.inv
    · rcases Items.Inv.split_release_isFree.mp (hfree.mp hf') with he | he
      · exact hne b hbD he
      · exact hu (Items.Inv.take_join_isFree.mp he).2
    · have hsize : Items.size u.items b = n - b - 24 :=
        congrArg (fun x => x - b - 24) (hnext.trans (insertAfter_next.trans (if_pos rfl)))
      exact (show size ≤ n - b - 24 by omega).trans_eq hsize.symm
    · exact (congrArg (fun x : Heap => x.mem a) hu').symm.trans
        (h3.mem a (h.area_outside_front hb ha (by omega)))
  · obtain ⟨hgood, hkeeps, hu', hnext, hnn, hmem⟩ := h.cut hb hbt hu (hc ▸ hf) (n := n) (by omega) (by omega)
    obtain ⟨u, hu1⟩ : ∃ u, (s.newItem b n).insertFree n = u := ⟨_, rfl⟩
    rw [hu1] at hgood hkeeps hu' hnext hnn hmem
    have huav : u.availableSize = v := by rw [← hu1]; exact hav
    have heq : s.shrink b size = { u with availableSize := add32 v (u.memitemSize n) } := by
      unfold shrink
      simp only [hn', hr1]
      rw [if_pos ((isUsed_iff_of_get hmagic).mpr ((h.isUsed_iff hck).mpr hf)), hu1, huav]
    have hsum : add32 v (u.memitemSize n) = v + (s.items.blocks.next b - n - 24) := by
      rw [memitemSize_of (show u.get .next n = _ from hnn) (by omega), add32_of_lt hgood.sum_lt]
    rw [heq]
    refine ⟨⟨insert n k, n :: fl, ⟨hgood.room, ?_⟩, ⟨hkeeps.pool, hkeeps.others, hkeeps.mem⟩,
      Finset.mem_insert_of_mem hb⟩, hu', ?_, fun a ha han => hmem a ha (by omega)⟩
    · rw [← hsum] at hgood
      exact hgood.inv
    · have hsize : Items.size u.items b = n - b - 24 := congrArg (fun x => x - b - 24) hnext
      exact (show size ≤ n - b - 24 by omega).trans_eq hsize.symm

/-! ## Free -/

/-- The block `b` is freed: it is a free block, or a part of one. -/
structure Freed (s : Heap) (k : Finset Nat) (b : Nat) (t : Heap) : Prop where
  good : ∃ k' fl', Good t k' fl' t.availableSize ∧ Keeps b s k t k' ∧ (b ∈ k' → t.items.IsFree b)

theorem prev_ne (h : Good s k fl v) (hb : b ∈ k) (hbt : b ≠ s.pool.tail) : s.items.blocks.prev b ≠ b := by
  intro he
  have hn := (h.inv.around.next_prev hb).2
  rw [he] at hn
  have := h.inv.gap b hb hbt
  omega

theorem head_mem (h : Good s k fl v) (hc : c ∈ k) (hf : s.items.IsFree c) (hu : ¬s.items.IsFree b)
    (hb : b ∈ k) : (s.items.free.unlink c).next s.pool.freeList ∈ insert s.pool.freeList k ∧
      b ≠ (s.items.free.unlink c).next s.pool.freeList := by
  obtain ⟨htake, -⟩ := h.inv.take ((h.inv.mem c).mpr ⟨hc, hf⟩)
  rcases List.mem_cons.mp (htake.ring.mem (List.mem_cons_self ..)).1.1 with he | he
  · rw [show (s.items.free.unlink c).next s.pool.freeList = s.pool.freeList from he]
    exact ⟨Finset.mem_insert_self .., h.inv.ne_freeList h.room hb⟩
  · obtain ⟨hk, hf'⟩ := (htake.mem _).mp he
    exact ⟨Finset.mem_insert_of_mem hk, fun hbe => hu (hbe ▸ (Items.Inv.take_isFree.mp hf').2)⟩

/-- A block that takes the free one behind it has the bytes of both, and of a header. -/
theorem join_size (h : Good s k fl v) (hb : b ∈ k) (hbt : b ≠ s.pool.tail)
    (hc : s.items.blocks.next b = c) (hf : s.items.IsFree c) :
    ((s.items.take c).join c).size b = s.items.size b + s.items.size c + 24 := by
  have hck : c ∈ k := hc ▸ h.inv.next_mem hb
  have hgap : b + 36 ≤ c := hc ▸ h.inv.gap b hb hbt
  have hgapc : c + 36 ≤ s.items.blocks.next c := h.inv.gap c hck (h.inv.ne_tail hf)
  have hnext : ((s.items.take c).join c).blocks.next b = s.items.blocks.next c :=
    unlink_next.trans (if_pos (hc ▸ h.inv.around.prev b hb).symm)
  unfold Items.size
  rw [hnext, hc]
  omega

section Freeing

/-! `u` is the heap `s` with the block `b` marked as free, and its bytes counted. -/

variable (h : Good s k fl v) (hb : b ∈ k) (hbt : b ≠ s.pool.tail) (hu : ¬s.items.IsFree b)
  (hu0 : Shows (insert s.pool.freeList k) s u (s.items.set .magic b memheapMagic))
  (huav : u.availableSize = add32 v (s.items.size b))

include h hb hbt hu hu0 huav

theorem freeAlone (hn : ¬s.items.IsFree (s.items.blocks.next b))
    (hp : ¬s.items.IsFree (s.items.blocks.prev b)) : Freed s k b (u.insertFree b) := by
  have hbl := h.inv.ne_freeList h.room hb
  obtain ⟨hhead, -⟩ := h.free_next_mem (List.mem_cons_self ..)
  have hbh : b ≠ s.items.free.next s.pool.freeList := fun he => by
    rcases List.mem_cons.mp (h.inv.ring.mem (List.mem_cons_self ..)).1.1 with hl | hm
    · exact hbl (he.trans hl)
    · exact hu (he ▸ ((h.inv.mem _).mp hm).2)
  have h1 := hu0.insertFree h.nodes (Finset.mem_insert_self ..) (Finset.mem_insert_of_mem hb) hhead
    hbl hbh
  obtain ⟨hgood, hkeeps, hitems⟩ := h.result (b := b) h1 (h.inv.release h.room hb hbt hu hn hp)
    (Finset.mem_insert_self ..) (fun x hx => ⟨Finset.mem_insert_of_mem hx, rfl, rfl, rfl, rfl⟩)
    (fun x _ => ⟨rfl, rfl⟩) Items.Inv.release_others (fun d hd _ _ a ha => h.area_outside hd ha)
  refine ⟨k, b :: fl, ?_, hkeeps,
    fun hk => (hitems b hk).1.mpr (Items.Inv.release_isFree.mpr (.inl rfl))⟩
  have hlt := hgood.sum_lt
  rw [← add32_of_lt hlt, ← huav] at hgood
  exact hgood

theorem freeRight (hc : s.items.blocks.next b = c) (hf : s.items.IsFree c)
    (hp : ¬s.items.IsFree (s.items.blocks.prev b)) : Freed s k b
      ((Heap.absorb { u with availableSize := add32 u.availableSize memheapSize } b c).insertFree b) := by
  have hck : c ∈ k := hc ▸ h.inv.next_mem hb
  have hgap : b + 36 ≤ c := hc ▸ h.inv.gap b hb hbt
  have hgapc : c + 36 ≤ s.items.blocks.next c := h.inv.gap c hck (h.inv.ne_tail hf)
  have hprev : s.items.blocks.prev c = b := hc ▸ h.inv.around.prev b hb
  have hcb : c ≠ b := by omega
  have hbn : b ≠ s.items.blocks.next c := by omega
  obtain ⟨hfn, hfp⟩ := h.free_next_mem (h.mem_ring hck hf)
  obtain ⟨hhead, hbh⟩ := h.head_mem hck hf hu hb
  have h1 := (hu0.available (add32 u.availableSize memheapSize)).absorb h.nodes
    (Finset.mem_insert_of_mem hb) (Finset.mem_insert_of_mem hck) hprev
    (Finset.mem_insert_of_mem (h.inv.next_mem hck)) hfn hfp
  have h2 := h1.insertFree h.nodes (Finset.mem_insert_self ..) (Finset.mem_insert_of_mem hb) hhead
    (h.inv.ne_freeList h.room hb) hbh
  obtain ⟨htake, hle⟩ := h.inv.take_join hb hbt hu (hc ▸ hf)
  rw [hc] at htake hle
  have hnext : ((s.items.take c).join c).blocks.next b = s.items.blocks.next c :=
    unlink_next.trans (if_pos hprev.symm)
  have hprev' : ((s.items.take c).join c).blocks.prev b = s.items.blocks.prev b :=
    unlink_prev.trans (if_neg hbn)
  have hI := htake.release h.room (Finset.mem_erase.mpr ⟨hcb.symm, hb⟩) hbt
    (fun hf => hu (Items.Inv.take_join_isFree.mp hf).2)
    (by rw [hnext]; exact fun hf' => h.inv.hole c hck hf (Items.Inv.take_join_isFree.mp hf').2)
    (by rw [hprev']; exact fun hf' => hp (Items.Inv.take_join_isFree.mp hf').2)
  obtain ⟨hgood, hkeeps, hitems⟩ := h.result (b := b) h2 hI (Finset.mem_insert_self ..)
    (fun x hx => by
      obtain ⟨hxc, hx⟩ := Finset.mem_erase.mp hx
      refine ⟨Finset.mem_insert_of_mem hx, rfl, rfl, ?_, rfl⟩
      show Function.update s.items.magic b memheapMagic x =
        Function.update (Function.update s.items.magic c usedMagic) b memheapMagic x
      rw [Function.update_comm hcb, Function.update_of_ne hxc])
    (fun x _ => ⟨rfl, rfl⟩)
    ((Items.Inv.take_join_others hf hprev).trans Items.Inv.release_others)
    (fun d hd _ _ a ha => h.area_outside hd ha)
  refine ⟨k.erase c, b :: fl.erase c, ?_, hkeeps,
    fun hk => (hitems b hk).1.mpr (Items.Inv.release_isFree.mpr (.inl rfl))⟩
  have hlt := hgood.sum_lt
  have hsize := h.join_size hb hbt hc hf
  have hsum : add32 u.availableSize memheapSize =
      v - s.items.size c + ((s.items.take c).join c).size b := by
    rw [hsize] at hlt ⊢
    unfold memheapSize
    rw [huav, add32_of_lt (show v + s.items.size b < 2 ^ 32 by omega), add32_of_lt (by omega)]
    omega
  rw [← hsum] at hgood
  exact hgood

omit hbt hu huav in
/-- `u` with the links around `b`. -/
theorem freeLinks (hp : s.items.IsFree (s.items.blocks.prev b)) (w : Nat) :
    Shows (insert s.pool.freeList k) s
      (Heap.set (Heap.set { u with availableSize := w } .next (s.items.blocks.prev b)
        (s.items.blocks.next b)) .prev (s.items.blocks.next b) (s.items.blocks.prev b))
      { s.items.set .magic b memheapMagic with blocks := s.items.blocks.unlink b } ∧
    b ≠ s.pool.startAddr ∧ s.items.blocks.prev b < b := by
  have hpk := (h.inv.around.next_prev hb).1
  have hpD : s.items.blocks.prev b ∈ insert s.pool.freeList k := Finset.mem_insert_of_mem hpk
  have hnD : s.items.blocks.next b ∈ insert s.pool.freeList k :=
    Finset.mem_insert_of_mem (h.inv.next_mem hb)
  have hlt := h.inv.around.leads.lt _ hpk (h.inv.ne_tail hp)
  rw [(h.inv.around.next_prev hb).2] at hlt
  have hs := ((hu0.available w).set h.nodes .next hpD (h.nodes.lt _ hnD)).set h.nodes .prev hnD
    (h.nodes.lt _ hpD)
  have heq : ((s.items.set .magic b memheapMagic).set .next (s.items.blocks.prev b)
      (s.items.blocks.next b)).set .prev (s.items.blocks.next b) (s.items.blocks.prev b) =
        { s.items.set .magic b memheapMagic with blocks := s.items.blocks.unlink b } :=
    congrArg (fun L => ({ s.items.set .magic b memheapMagic with blocks := L } : Items))
      (Items.setNext_setPrev_eq rfl rfl)
  have hle := h.inv.start_le hpk
  exact ⟨heq ▸ hs, by omega, hlt⟩

theorem freeLeft (hn : ¬s.items.IsFree (s.items.blocks.next b))
    (hp : s.items.IsFree (s.items.blocks.prev b)) :
    Freed s k b (Heap.set (Heap.set { u with availableSize := add32 u.availableSize memheapSize }
      .next (s.items.blocks.prev b) (s.items.blocks.next b)) .prev (s.items.blocks.next b)
        (s.items.blocks.prev b)) := by
  obtain ⟨h1, hbs, hlt⟩ := freeLinks h hb hu0 hp (add32 u.availableSize memheapSize)
  have hI := h.inv.join hb hbs hbt hu fun _ => hn
  rw [if_pos hp] at hI
  obtain ⟨hgood, hkeeps, -⟩ := h.result (b := b) h1 hI (Finset.mem_insert_self ..)
    (fun x hx => by
      obtain ⟨hxb, hx⟩ := Finset.mem_erase.mp hx
      exact ⟨Finset.mem_insert_of_mem hx, rfl, rfl, Function.update_of_ne hxb .., rfl⟩)
    (fun x _ => ⟨rfl, rfl⟩) (Items.Inv.join_others hp) (fun d hd _ _ a ha => h.area_outside hd ha)
  refine ⟨k.erase b, fl, ?_, hkeeps, fun hk => absurd rfl (Finset.ne_of_mem_erase hk)⟩
  have hlt' := hgood.sum_lt
  have hsum : add32 u.availableSize memheapSize = v + s.items.size b + 24 := by
    unfold memheapSize
    rw [huav, add32_of_lt (show v + s.items.size b < 2 ^ 32 by omega), add32_of_lt hlt']
  rw [← hsum] at hgood
  exact hgood

theorem freeBoth (hc : s.items.blocks.next b = c) (hf : s.items.IsFree c)
    (hp : s.items.IsFree (s.items.blocks.prev b))
    (ht : Heap.set (Heap.set { u with availableSize := add32 u.availableSize memheapSize } .next
      (s.items.blocks.prev b) c) .prev c (s.items.blocks.prev b) = t) :
    Freed s k b (Heap.absorb { t with availableSize := add32 t.availableSize memheapSize }
      (s.items.blocks.prev b) c) := by
  have htav : t.availableSize = add32 u.availableSize memheapSize := by rw [← ht]; rfl
  have hck : c ∈ k := hc ▸ h.inv.next_mem hb
  have hgap : b + 36 ≤ c := hc ▸ h.inv.gap b hb hbt
  have hgapc : c + 36 ≤ s.items.blocks.next c := h.inv.gap c hck (h.inv.ne_tail hf)
  have hprev : s.items.blocks.prev c = b := hc ▸ h.inv.around.prev b hb
  have hpk := (h.inv.around.next_prev hb).1
  obtain ⟨h1, hbs, hlt⟩ := freeLinks h hb hu0 hp (add32 u.availableSize memheapSize)
  rw [hc, ht] at h1
  obtain ⟨hfn, hfp⟩ := h.free_next_mem (h.mem_ring hck hf)
  have hnc : (s.items.blocks.unlink b).next c = s.items.blocks.next c :=
    unlink_next.trans (if_neg (by omega))
  have hpc : (s.items.blocks.unlink b).prev c = s.items.blocks.prev b :=
    unlink_prev.trans (if_pos hc.symm)
  have h2 := (h1.available (add32 t.availableSize memheapSize)).absorb h.nodes
    (Finset.mem_insert_of_mem hpk) (Finset.mem_insert_of_mem hck) hpc
    ((congrArg (· ∈ _) hnc).mpr (Finset.mem_insert_of_mem (h.inv.next_mem hck))) hfn hfp
  obtain ⟨htake, hle⟩ := h.inv.take_join hb hbt hu (hc ▸ hf)
  rw [hc] at htake hle
  have hnext : ((s.items.take c).join c).blocks.next b = s.items.blocks.next c :=
    unlink_next.trans (if_pos hprev.symm)
  have hbn : b ≠ s.items.blocks.next c := by omega
  have hprev' : ((s.items.take c).join c).blocks.prev b = s.items.blocks.prev b :=
    unlink_prev.trans (if_neg hbn)
  have hpf : ((s.items.take c).join c).IsFree (((s.items.take c).join c).blocks.prev b) := by
    rw [hprev']
    exact Items.Inv.take_join_isFree.mpr ⟨by omega, hp⟩
  have hbe : b ∈ k.erase c := Finset.mem_erase.mpr ⟨by omega, hb⟩
  have hI := htake.join hbe hbs hbt
    (fun hf => hu (Items.Inv.take_join_isFree.mp hf).2)
    (fun _ => by rw [hnext]; exact fun hf' => h.inv.hole c hck hf (Items.Inv.take_join_isFree.mp hf').2)
  rw [if_pos hpf] at hI
  obtain ⟨hgood, hkeeps, -⟩ := h.result (b := b) h2 hI (Finset.mem_insert_self ..)
    (fun x hx => by
      obtain ⟨hxb, hx⟩ := Finset.mem_erase.mp hx
      obtain ⟨hxc, hx⟩ := Finset.mem_erase.mp hx
      obtain ⟨hn, hp⟩ := Items.unlink_unlink hc hprev (by omega) (by omega) hxb hxc
      refine ⟨Finset.mem_insert_of_mem hx, hn, hp, ?_, rfl⟩
      exact (Function.update_of_ne hxb ..).trans (Function.update_of_ne hxc ..).symm)
    (fun x _ => ⟨rfl, rfl⟩)
    ((Items.Inv.take_join_others hf hprev).trans (Items.Inv.join_others hpf))
    (fun d hd _ _ a ha => h.area_outside hd ha)
  refine ⟨(k.erase c).erase b, fl.erase c, ?_, hkeeps,
    fun hk => absurd rfl (Finset.ne_of_mem_erase hk)⟩
  have hlt' := hgood.sum_lt
  have hsize := h.join_size hb hbt hc hf
  have hsum : add32 t.availableSize memheapSize =
      v - s.items.size c + ((s.items.take c).join c).size b + 24 := by
    rw [hsize] at hlt' ⊢
    rw [htav]
    unfold memheapSize
    rw [huav, add32_of_lt (show v + s.items.size b < 2 ^ 32 by omega),
      add32_of_lt (show v + s.items.size b + 24 < 2 ^ 32 by omega), add32_of_lt (by omega)]
    omega
  rw [← hsum] at hgood
  exact hgood

end Freeing

theorem freeBlock_spec (h : Good s k fl v) (hb : b ∈ k) (hbt : b ≠ s.pool.tail)
    (hu : ¬s.items.IsFree b) (hav : s.availableSize = v) : Freed s k b (s.freeBlock b) := by
  have hD := h.nodes
  have hbD : b ∈ insert s.pool.freeList k := Finset.mem_insert_of_mem hb
  have hlD : s.pool.freeList ∈ insert s.pool.freeList k := Finset.mem_insert_self ..
  obtain ⟨p, hp⟩ : ∃ p, s.items.blocks.prev b = p := ⟨_, rfl⟩
  obtain ⟨c, hc⟩ : ∃ c, s.items.blocks.next b = c := ⟨_, rfl⟩
  have hpk : p ∈ k := hp ▸ (h.inv.around.next_prev hb).1
  have hck : c ∈ k := hc ▸ h.inv.next_mem hb
  have hpb : p ≠ b := hp ▸ h.prev_ne hb hbt
  have hgap : b + 36 ≤ c := hc ▸ h.inv.gap b hb hbt
  have hcD : c ∈ insert s.pool.freeList k := Finset.mem_insert_of_mem hck
  have hpD : p ∈ insert s.pool.freeList k := Finset.mem_insert_of_mem hpk
  have hprev : s.items.blocks.prev c = b := hc ▸ h.inv.around.prev b hb
  have hused : s.items.magic b = usedMagic := (h.inv.magic b hb).resolve_left hu
  have hmagic : s.get .magic b &&& memheapMask = memheapMagic := by
    rw [show s.get .magic b = usedMagic from hused]
    decide
  have hsizeb : s.items.size b = c - b - 24 := by rw [Items.size, hc]
  have hp0 : p ≠ s.pool.tail → p < b := fun hpt => by
    have hlt := h.inv.around.leads.lt p hpk hpt
    rwa [← hp, (h.inv.around.next_prev hb).2, hp] at hlt
  -- the block is free
  obtain ⟨w, hw⟩ : ∃ w, add32 (s.set .magic b (s.get .magic b &&& memheapMask)).availableSize
      ((s.set .magic b (s.get .magic b &&& memheapMask)).memitemSize b) = w := ⟨_, rfl⟩
  obtain ⟨u, hu0⟩ : ∃ u, ({ s.set .magic b (s.get .magic b &&& memheapMask) with
      availableSize := w } : Heap) = u := ⟨_, rfl⟩
  have huav : u.availableSize = w := by rw [← hu0]
  have h0 : Shows (insert s.pool.freeList k) s u (s.items.set .magic b memheapMagic) := by
    rw [← hu0, hmagic]
    exact ((Shows.refl _ s).set hD .magic hbD (by decide)).available w
  have hother : ∀ x ∈ k, x ≠ b → (u.IsUsed x ↔ ¬s.items.IsFree x) := fun x hx hxb => by
    rw [← h.isUsed_iff hx]
    refine isUsed_iff_of_get ((h0.get .magic x (Finset.mem_insert_of_mem hx)).trans ?_)
    exact Function.update_of_ne hxb ..
  have hup : u.get .prev b = p := (h0.get .prev b hbD).trans hp
  have hun : u.get .next b = c := (h0.get .next b hbD).trans hc
  have hwv : w = add32 v (s.items.size b) := by
    have hsize : u.memitemSize b = c - b - 24 := memitemSize_of hun (by omega)
    rw [← hw, hsizeb, ← hsize, ← hu0, show (s.set .magic b _).availableSize = v from hav]
    rfl
  have hfree : s.freeBlock b = if u.IsUsed (u.get .prev b) then (u.mergeRight b).insertFree b
      else
        let s := { u with availableSize := add32 u.availableSize memheapSize }
        let s := s.set .next (s.get .prev b) (s.get .next b)
        let s := s.set .prev (s.get .next b) (s.get .prev b)
        s.mergeRight (s.get .prev b) := by
    rw [← hu0, ← hw]
    rfl
  rw [hup] at hfree
  by_cases hfp : s.items.IsFree p
  · -- the links of the block before and the one behind
    have hlt : p < b := hp0 (h.inv.ne_tail hfp)
    rw [if_neg fun hus => (hother p hpk hpb).mp hus hfp] at hfree
    have h1 := h0.available (add32 u.availableSize memheapSize)
    have h2 := h1.set hD .next hpD (v := c) (hD.lt _ hcD)
    obtain ⟨h3, -, -⟩ := freeLinks h hb h0 (hp ▸ hfp) (add32 u.availableSize memheapSize)
    rw [hp, hc] at h3
    obtain ⟨s1, hs1⟩ : ∃ s1, ({ u with availableSize := add32 u.availableSize memheapSize } : Heap) =
      s1 := ⟨_, rfl⟩
    obtain ⟨s2, hs2⟩ : ∃ s2, (s1.set .next p c).set .prev c p = s2 := ⟨_, rfl⟩
    rw [hs1] at h1 h2 h3
    rw [hs2] at h3
    have hr1 : s1.get .prev b = p := (h1.get .prev b hbD).trans hp
    have hr2 : s1.get .next b = c := (h1.get .next b hbD).trans hc
    have hr3 : (s1.set .next p c).get .next b = c := by
      refine (h2.get .next b hbD).trans ?_
      rw [Items.get_set, if_neg fun he => hpb he.1]
      exact hc
    have hr4 : (s1.set .next p c).get .prev b = p := by
      refine (h2.get .prev b hbD).trans ?_
      rw [Items.get_set, if_neg (by simp)]
      exact hp
    have hr5 : s2.get .prev b = p := by
      refine (h3.get .prev b hbD).trans (unlink_prev.trans ?_)
      rw [if_neg (by omega)]
      exact hp
    have hr6 : s2.get .next p = c := by
      refine (h3.get .next p hpD).trans (unlink_next.trans ?_)
      rw [if_pos hp.symm, hc]
    have hus : s2.IsUsed c ↔ u.IsUsed c :=
      isUsed_iff_of_get ((h3.get .magic c hcD).trans (h0.get .magic c hcD).symm)
    simp only [hs1, hr1, hr2, hr3, hr4, hs2, hr5] at hfree
    by_cases hfc : s.items.IsFree c
    · rw [mergeRight_of_free hr6 fun hn => (hother c hck (by omega)).mp (hus.mp hn) hfc] at hfree
      have hboth := freeBoth h hb hbt hu h0 (huav.trans hwv) hc hfc (hp ▸ hfp) (t := s2)
        (by rw [hp, hs1, hs2])
      rw [hp] at hboth
      rw [hfree]
      exact hboth
    · rw [mergeRight_of_used hr6 (hus.mpr ((hother c hck (by omega)).mpr hfc))] at hfree
      have hleft := freeLeft h hb hbt hu h0 (huav.trans hwv) (hc ▸ hfc) (hp ▸ hfp)
      rw [hp, hc, hs1, hs2] at hleft
      rw [hfree]
      exact hleft
  · rw [if_pos ((hother p hpk hpb).mpr hfp)] at hfree
    by_cases hfc : s.items.IsFree c
    · rw [mergeRight_of_free hun fun hus => (hother c hck (by omega)).mp hus hfc] at hfree
      rw [hfree]
      exact freeRight h hb hbt hu h0 (huav.trans hwv) hc hfc (hp ▸ hfp)
    · rw [mergeRight_of_used hun ((hother c hck (by omega)).mpr hfc)] at hfree
      rw [hfree]
      exact freeAlone h hb hbt hu h0 (huav.trans hwv) (hc ▸ hfc) (hp ▸ hfp)

end Good

end Heap

end Tudu.Memheap
