import TuduOS.Mem.MemheapItems

/-!
# The items in memory

What the assignments of `memheap.c` to items in memory are for the pointers of the items.

* `items s`: the items that the memory of `s` shows.
* `Shows D s0 s A`: at the addresses `D` the memory of `s` shows the items `A`; apart from the headers
  there it is the memory of `s0`.
* `Shows.removeFree` and the others: the assignments of a list operation, as the operation.
-/

namespace Tudu.Memheap

open Bytes Circular Circular.Links

namespace Items

def get (A : Items) : Field → Nat → Nat
  | .magic => A.magic
  | .poolPtr => A.pool
  | .next => A.blocks.next
  | .prev => A.blocks.prev
  | .nextFree => A.free.next
  | .prevFree => A.free.prev

/-- The field `f` of the item `b` becomes `v`. -/
def set (A : Items) (f : Field) (b v : Nat) : Items :=
  match f with
  | .magic => { A with magic := Function.update A.magic b v }
  | .poolPtr => { A with pool := Function.update A.pool b v }
  | .next => { A with blocks := A.blocks.setNext b v }
  | .prev => { A with blocks := A.blocks.setPrev b v }
  | .nextFree => { A with free := A.free.setNext b v }
  | .prevFree => { A with free := A.free.setPrev b v }

theorem get_set {A : Items} {f g : Field} {b x v : Nat} :
    (A.set f b v).get g x = if b = x ∧ f = g then v else A.get g x := by
  cases f <;> cases g <;> simp [set, get, setNext, setPrev, Function.update_apply, eq_comm]

/-- The pointers of a node off the list do not matter. -/
theorem insertAfter_cleared {L : Links Nat} {r b x n v w : Nat} (hx : x ≠ b) (hr : r ≠ b) :
    (((L.setNext b v).setPrev b w).insertAfter r n).next x = (L.insertAfter r n).next x ∧
      (((L.setNext b v).setPrev b w).insertAfter r n).prev x = (L.insertAfter r n).prev x := by
  simp [insertAfter_next, insertAfter_prev, setNext, setPrev, hx, hr]

theorem unlink_eq {L : Links Nat} {b c : Nat} (h : L.prev c = b) :
    (L.setPrev (L.next c) b).setNext b (L.next c) = L.unlink c := by
  refine Links.ext (funext fun x => ?_) (funext fun x => ?_)
  · rw [unlink_next, h]
    simp [setNext, setPrev, Function.update_apply]
  · rw [unlink_prev, h]
    simp [setNext, setPrev, Function.update_apply]

theorem setNext_setPrev_eq {L : Links Nat} {b c p : Nat} (hp : L.prev b = p) (hc : L.next b = c) :
    (L.setNext p c).setPrev c p = L.unlink b := by
  refine Links.ext (funext fun x => ?_) (funext fun x => ?_)
  · rw [unlink_next, hp, hc]
    simp [setNext, setPrev, Function.update_apply]
  · rw [unlink_prev, hp, hc]
    simp [setNext, setPrev, Function.update_apply]

/-- Two neighbours are taken off. -/
theorem unlink_unlink {L : Links Nat} {b c x : Nat} (hc : L.next b = c) (hb : L.prev c = b)
    (hp : L.prev b ≠ c) (hn : L.next c ≠ b) (hxb : x ≠ b) (hxc : x ≠ c) :
    ((L.unlink b).unlink c).next x = ((L.unlink c).unlink b).next x ∧
      ((L.unlink b).unlink c).prev x = ((L.unlink c).unlink b).prev x := by
  simp only [unlink_next, unlink_prev]
  grind

/-- The node behind `b` is taken off, with or without a new node between them. -/
theorem unlink_insertAfter {L : Links Nat} {b c n x : Nat} (hb : L.next b = c) (hc : L.prev c = b)
    (hbc : b ≠ c) (hbn : b ≠ n) (hcn : c ≠ n) (hn : L.next c ≠ n) (hx : x ≠ c) :
    ((L.insertAfter b n).unlink c).next x = ((L.unlink c).insertAfter b n).next x ∧
      ((L.insertAfter b n).unlink c).prev x = ((L.unlink c).insertAfter b n).prev x := by
  simp only [unlink_next, unlink_prev, insertAfter_next, insertAfter_prev]
  grind

/-- A new free item at `n`, behind the block `b`. -/
def newItem (A : Items) (addr b n : Nat) : Items :=
  { A with
    blocks := A.blocks.insertAfter b n
    magic := Function.update A.magic n memheapMagic
    pool := Function.update A.pool n addr }

/-- The block `c` becomes a part of the one before it, and leaves the free list. -/
def absorb (A : Items) (c : Nat) : Items :=
  { A with blocks := A.blocks.unlink c, free := A.free.unlink c }

end Items

/-- Headers that do not overlap. -/
structure Nodes (D : Finset Nat) : Prop where
  apart : ∀ b ∈ D, ∀ c ∈ D, b = c ∨ b + 24 ≤ c ∨ c + 24 ≤ b
  lt : ∀ b ∈ D, b < 2 ^ 32

/-- The byte at `a` is in none of the headers. -/
def Outside (D : Finset Nat) (a : Nat) : Prop := ∀ b ∈ D, a < b ∨ b + 24 ≤ a

namespace Heap

def items (s : Heap) : Items :=
  ⟨⟨s.get .next, s.get .prev⟩, ⟨s.get .nextFree, s.get .prevFree⟩, s.get .magic, s.get .poolPtr⟩

@[simp] theorem set_pool (s : Heap) (f : Field) (b v : Nat) : (s.set f b v).pool = s.pool := rfl

theorem items_get (s : Heap) (f : Field) (b : Nat) : s.items.get f b = s.get f b := by
  cases f <;> rfl

/-- What the memory of `s` shows at the addresses `D`, and what it has in common with `s0`. -/
structure Shows (D : Finset Nat) (s0 s : Heap) (A : Items) : Prop where
  pool : s.pool = s0.pool
  get : ∀ f, ∀ b ∈ D, s.get f b = A.get f b
  mem : ∀ a, Outside D a → s.mem a = s0.mem a

variable {D : Finset Nat} {s0 s t : Heap} {A : Items} {f : Field} {b c n v : Nat}

theorem Shows.refl (D : Finset Nat) (s : Heap) : Shows D s s s.items :=
  ⟨rfl, fun f b _ => (s.items_get f b).symm, fun _ _ => rfl⟩

namespace Shows

/-- Changes of `available_size` and `max_used_size`. -/
theorem frame (h : Shows D s0 s A) (hm : t.mem = s.mem) (hp : t.pool = s.pool) : Shows D s0 t A where
  pool := hp.trans h.pool
  get f b hb := by
    rw [← h.get f b hb]
    unfold Heap.get
    rw [hm]
  mem a ha := by
    rw [hm]
    exact h.mem a ha

theorem setAvailable (h : Shows D s0 s A) (w : Nat) : Shows D s0 (s.setAvailable w) A :=
  h.frame rfl rfl

theorem available (h : Shows D s0 s A) (w : Nat) : Shows D s0 { s with availableSize := w } A :=
  h.frame rfl rfl

theorem set (h : Shows D s0 s A) (hD : Nodes D) (f : Field) (hb : b ∈ D) (hv : v < 2 ^ 32) :
    Shows D s0 (s.set f b v) (A.set f b v) where
  pool := h.pool
  get g x hx := by
    have hload := memheapItem.load_store (f := f) (g := g) (m := s.mem) (v := v) (hD.apart b hb x hx)
    rw [Items.get_set, ← h.get g x hx]
    refine hload.trans ?_
    have hmod : v % 256 ^ memheapItem.size f = v := Nat.mod_eq_of_lt hv
    rw [hmod]
    rfl
  mem a ha := by
    rw [← h.mem a ha]
    have hf := memheapItem.inside f
    have hlen : memheapItem.len = 24 := rfl
    have hout := ha b hb
    exact if_neg (by omega)

/-! ## The operations on the lists -/

theorem removeFree (h : Shows D s0 s A) (hD : Nodes D) (hn : n ∈ D) (hnext : A.free.next n ∈ D)
    (hprev : A.free.prev n ∈ D) :
    Shows D s0 (s.removeFree n) { A with free := A.free.unlink n } := by
  have h1 := h.set hD .prevFree hnext (hD.lt _ hprev)
  have hsame : (A.set .prevFree (A.free.next n) (A.free.prev n)).free.prev n = A.free.prev n := by
    show (A.free.setPrev _ _).prev n = _
    simp [setPrev, Function.update_apply]
  have h2 := h1.set hD .nextFree (b := (A.set .prevFree (A.free.next n) (A.free.prev n)).free.prev n)
    (v := A.free.next n) (by rw [hsame]; exact hprev) (hD.lt _ hnext)
  have hr1 : s.get .nextFree n = A.free.next n := h.get .nextFree n hn
  have hr2 : s.get .prevFree n = A.free.prev n := h.get .prevFree n hn
  unfold Heap.removeFree
  simp only [hr1, hr2]
  have hr3 := h1.get .prevFree n hn
  have hr4 := h1.get .nextFree n hn
  rw [hr3, hr4]
  exact h2

theorem insertFree (h : Shows D s0 s A) (hD : Nodes D) (hl : s0.pool.freeList ∈ D) (hn : n ∈ D)
    (hnext : A.free.next s0.pool.freeList ∈ D) (hnl : n ≠ s0.pool.freeList)
    (hne : n ≠ A.free.next s0.pool.freeList) :
    Shows D s0 (s.insertFree n) { A with free := A.free.insertAfter s0.pool.freeList n } := by
  generalize hL : s0.pool.freeList = l at *
  have hpool : s.pool.freeList = l := by rw [h.pool, hL]
  have h1 := h.set hD .nextFree hn (hD.lt _ hnext)
  have h2 := h1.set hD .prevFree hn (hD.lt _ hl)
  have h3 := h2.set hD .prevFree hnext (hD.lt _ hn)
  have h4 := h3.set hD .nextFree hl (hD.lt _ hn)
  have hr1 : s.get .nextFree l = A.free.next l := h.get .nextFree l hl
  have hr2 : ((s.set .nextFree n (A.free.next l)).set .prevFree n l).get .nextFree l =
      A.free.next l := by
    refine (h2.get .nextFree l hl).trans ?_
    rw [Items.get_set, Items.get_set, if_neg (by simp), if_neg fun he => hnl he.1]
    rfl
  have heq : (((A.set .nextFree n (A.free.next l)).set .prevFree n l).set .prevFree
      (A.free.next l) n).set .nextFree l n = { A with free := A.free.insertAfter l n } := by
    have hfree : (((A.free.setNext n (A.free.next l)).setPrev n l).setPrev (A.free.next l) n).setNext l n =
        A.free.insertAfter l n := by
      refine Links.ext (funext fun x => ?_) (funext fun x => ?_)
      · rw [insertAfter_next]
        simp [setNext, setPrev, Function.update_apply]
      · rw [insertAfter_prev]
        simp only [setNext, setPrev, Function.update_apply]
        grind
    exact congrArg (fun L => ({ A with free := L } : Items)) hfree
  unfold Heap.insertFree
  simp only [set_pool, hpool, hr1]
  rw [hr2, ← heq]
  exact h4

theorem newItem (h : Shows D s0 s A) (hD : Nodes D) (haddr : s0.pool.addr < 2 ^ 32) (hb : b ∈ D)
    (hn : n ∈ D) (hnext : A.blocks.next b ∈ D) (hnb : n ≠ b) (hne : n ≠ A.blocks.next b) :
    Shows D s0 (s.newItem b n) (A.newItem s0.pool.addr b n) := by
  have h1 := h.set hD .magic (v := memheapMagic) hn (by decide)
  have h2 := h1.set hD .poolPtr hn haddr
  have h3 := h2.set hD .prev hn (hD.lt _ hb)
  have h4 := h3.set hD .next hn (hD.lt _ hnext)
  have h5 := h4.set hD .prev hnext (hD.lt _ hn)
  have h6 := h5.set hD .next hb (hD.lt _ hn)
  have hr3 := h3.get .next b hb
  have hr4 := h4.get .next b hb
  rw [Items.get_set, Items.get_set, Items.get_set, if_neg (by simp), if_neg (by simp),
    if_neg (by simp), show A.get .next b = A.blocks.next b from rfl] at hr3
  rw [Items.get_set, if_neg fun he => hnb he.1, Items.get_set, Items.get_set, Items.get_set,
    if_neg (by simp), if_neg (by simp), if_neg (by simp),
    show A.get .next b = A.blocks.next b from rfl] at hr4
  have heq : ((((((A.set .magic n memheapMagic).set .poolPtr n s0.pool.addr).set .prev n b).set .next n
      (A.blocks.next b)).set .prev (A.blocks.next b) n).set .next b n) =
        A.newItem s0.pool.addr b n := by
    have hblocks : (((A.blocks.setPrev n b).setNext n (A.blocks.next b)).setPrev
        (A.blocks.next b) n).setNext b n = A.blocks.insertAfter b n := by
      refine Links.ext (funext fun x => ?_) (funext fun x => ?_)
      · rw [insertAfter_next]
        simp [setNext, setPrev, Function.update_apply]
      · rw [insertAfter_prev]
        simp only [setNext, setPrev, Function.update_apply]
        grind
    exact congrArg (fun L => ({ A.newItem s0.pool.addr b n with blocks := L } : Items)) hblocks
  unfold Heap.newItem
  simp only [set_pool, h.pool, hr3]
  rw [hr4, ← heq]
  exact h6

theorem absorb (h : Shows D s0 s A) (hD : Nodes D) (hb : b ∈ D) (hc : c ∈ D)
    (hprev : A.blocks.prev c = b) (hnext : A.blocks.next c ∈ D) (hfn : A.free.next c ∈ D)
    (hfp : A.free.prev c ∈ D) : Shows D s0 (s.absorb b c) (A.absorb c) := by
  have h1 := h.set hD .prev hnext (hD.lt _ hb)
  have h2 := h1.set hD .next hb (hD.lt _ hnext)
  have h3 := h2.removeFree hD hc hfn hfp
  have hr1 : s.get .next c = A.blocks.next c := h.get .next c hc
  have hr2 : (s.set .prev (A.blocks.next c) b).get .next c = A.blocks.next c := by
    refine (h1.get .next c hc).trans ?_
    rw [Items.get_set, if_neg (by simp)]
    rfl
  have heq : ({ (A.set .prev (A.blocks.next c) b).set .next b (A.blocks.next c) with
      free := ((A.set .prev (A.blocks.next c) b).set .next b (A.blocks.next c)).free.unlink c } :
        Items) = A.absorb c := by
    have hblocks := Items.unlink_eq hprev
    exact congrArg (fun L => ({ A.absorb c with blocks := L } : Items)) hblocks
  unfold Heap.absorb
  simp only [hr1, hr2]
  rw [← heq]
  exact h3

end Shows

end Heap

end Tudu.Memheap
