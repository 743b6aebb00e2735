import Mathlib.Data.List.Chain
import Mathlib.Data.List.Nodup
import Mathlib.Logic.Function.Basic

/-!
# Circular doubly linked lists

The pointers `next` and `prev` of any number of nodes, and the operations that link a node and take
it off, each as its assignments one after the other.

* `IsRing L h l`: from the head `h` the pointers lead through the nodes `l` back to `h`, and `prev`
  is the inverse of `next` on the way. A node that is linked nowhere is a ring of its own.
* `IsRing.rotate`: any node of a ring may be its head. An insertion and a removal are proved at the
  head, and hold at any place by a rotation.
* `Rings L R`: many rings, each with its head, that share no node; every other node is alone.
-/

namespace Circular

@[ext]
structure Links (ν : Type*) where
  next : ν → ν
  prev : ν → ν

namespace Links

variable {ν : Type*} [DecidableEq ν]

def setNext (L : Links ν) (a b : ν) : Links ν := { L with next := Function.update L.next a b }

def setPrev (L : Links ν) (a b : ν) : Links ν := { L with prev := Function.update L.prev a b }

/-- `l->next->prev = n; n->next = l->next; l->next = n; n->prev = l;` -/
def insertAfter (L : Links ν) (l n : ν) : Links ν :=
  let L := L.setPrev (L.next l) n
  let L := L.setNext n (L.next l)
  let L := L.setNext l n
  L.setPrev n l

/-- `l->prev->next = n; n->prev = l->prev; l->prev = n; n->next = l;` -/
def insertBefore (L : Links ν) (l n : ν) : Links ν :=
  let L := L.setNext (L.prev l) n
  let L := L.setPrev n (L.prev l)
  let L := L.setPrev l n
  L.setNext n l

/-- `n->next->prev = n->prev; n->prev->next = n->next; n->next = n->prev = n;` -/
def remove (L : Links ν) (n : ν) : Links ν :=
  let L := L.setPrev (L.next n) (L.prev n)
  let L := L.setNext (L.prev n) (L.next n)
  let L := L.setPrev n n
  L.setNext n n

/-- `n->next->prev = n->prev; n->prev->next = n->next;`: the pointers of `n` stay. -/
def unlink (L : Links ν) (n : ν) : Links ν :=
  let L := L.setPrev (L.next n) (L.prev n)
  L.setNext (L.prev n) (L.next n)

def isEmpty (L : Links ν) (l : ν) : Bool := decide (L.next l = l)

variable {L : Links ν} {r n x : ν}

theorem insertAfter_next : (L.insertAfter r n).next x =
    if x = r then n else if x = n then L.next r else L.next x := by
  simp [insertAfter, setNext, setPrev, Function.update_apply]

theorem insertAfter_prev : (L.insertAfter r n).prev x =
    if x = n then r else if x = L.next r then n else L.prev x := by
  simp [insertAfter, setNext, setPrev, Function.update_apply]

theorem insertBefore_next : (L.insertBefore r n).next x =
    if x = n then r else if x = L.prev r then n else L.next x := by
  simp [insertBefore, setNext, setPrev, Function.update_apply]

theorem insertBefore_prev : (L.insertBefore r n).prev x =
    if x = r then n else if x = n then L.prev r else L.prev x := by
  simp [insertBefore, setNext, setPrev, Function.update_apply]

theorem remove_next : (L.remove n).next x =
    if x = n then n else if x = L.prev n then L.next n else L.next x := by
  simp only [remove, setNext, setPrev, Function.update_apply]
  grind

theorem remove_prev : (L.remove n).prev x =
    if x = n then n else if x = L.next n then L.prev n else L.prev x := by
  simp [remove, setNext, setPrev, Function.update_apply]

theorem unlink_next : (L.unlink n).next x = if x = L.prev n then L.next n else L.next x := by
  simp only [unlink, setNext, setPrev, Function.update_apply]
  grind

theorem unlink_prev : (L.unlink n).prev x = if x = L.next n then L.prev n else L.prev x := by
  simp [unlink, setNext, setPrev, Function.update_apply]

end Links

open Links

section Ring

variable {ν : Type*} {L L' : Links ν} {h n r x y : ν} {l m : List ν}

/-- `b` is the node behind `a`. -/
def Adj (L : Links ν) (a b : ν) : Prop := L.next a = b ∧ L.prev b = a

/-- From the head `h` the pointers lead through the nodes `l` back to `h`. -/
def IsRing (L : Links ν) (h : ν) (l : List ν) : Prop :=
  List.IsChain (Adj L) (h :: (l ++ [h])) ∧ (h :: l).Nodup

theorem isRing_nil : IsRing L h [] ↔ L.next h = h ∧ L.prev h = h := by
  simp [IsRing, Adj]

/-- Any node of a ring may be its head. -/
theorem IsRing.rotate (hr : IsRing L h (l ++ r :: m)) : IsRing L r (m ++ h :: l) := by
  obtain ⟨hc, hn⟩ := hr
  constructor
  · have hs : List.IsChain (Adj L) ((h :: l) ++ r :: (m ++ [h])) := by simpa using hc
    rw [List.isChain_split] at hs
    have hg : List.IsChain (Adj L) ((r :: m) ++ h :: (l ++ [r])) := by
      rw [List.isChain_split]
      exact ⟨hs.2, hs.1⟩
    simpa using hg
  · have hp : ((r :: m) ++ h :: l).Perm ((h :: l) ++ r :: m) := List.perm_append_comm
    exact hp.nodup_iff.mpr hn

/-- Nodes off the ring may be changed. -/
theorem IsRing.congr (hr : IsRing L h l)
    (hx : ∀ x ∈ h :: l, L'.next x = L.next x ∧ L'.prev x = L.prev x) : IsRing L' h l := by
  refine ⟨hr.1.imp_of_mem_imp fun a b ha hb hab => ?_, hr.2⟩
  have hmem : ∀ c, c ∈ h :: (l ++ [h]) → c ∈ h :: l := by grind
  exact ⟨(hx a (hmem a ha)).1.trans hab.1, (hx b (hmem b hb)).2.trans hab.2⟩

theorem IsRing.next_head (hr : IsRing L h (x :: l)) : L.next h = x :=
  (List.isChain_cons_cons.mp hr.1).1.1

theorem IsRing.next_eq_iff (hr : IsRing L h l) : L.next h = h ↔ l = [] := by
  cases l with
  | nil => simp [(isRing_nil.mp hr).1]
  | cons x l =>
    rw [hr.next_head]
    have hne : h ≠ x := by
      rintro rfl
      exact (List.nodup_cons.mp hr.2).1 List.mem_cons_self
    simp [Ne.symm hne]

theorem exists_eq_concat (h : ν) (l : List ν) : ∃ k z, h :: l = k ++ [z] :=
  ⟨(h :: l).dropLast, (h :: l).getLast (by simp), (List.dropLast_append_getLast _).symm⟩

/-- The last node of a ring, or its head, is before the head. -/
theorem IsRing.prev_head (hr : IsRing L h l) {k : List ν} (hk : h :: l = k ++ [x]) :
    List.IsChain (Adj L) (k ++ [x]) ∧ Adj L x h := by
  have hc : List.IsChain (Adj L) (k ++ x :: [h]) := by
    have := hr.1
    rw [← List.cons_append, hk] at this
    simpa using this
  rw [List.isChain_split] at hc
  exact ⟨hc.1, by simpa using hc.2⟩

/-- The nodes before and behind a node of a ring are on it. -/
theorem IsRing.mem (hr : IsRing L h l) (hx : x ∈ h :: l) : (L.next x ∈ h :: l ∧
    L.prev (L.next x) = x) ∧ L.prev x ∈ h :: l ∧ L.next (L.prev x) = x := by
  -- the ring, with `x` as its head
  obtain ⟨m, hm, hsub⟩ : ∃ m, IsRing L x m ∧ ∀ y, y ∈ x :: m → y ∈ h :: l := by
    rcases List.mem_cons.mp hx with rfl | hx
    · exact ⟨l, hr, fun _ hy => hy⟩
    · obtain ⟨l1, l2, rfl⟩ := List.append_of_mem hx
      exact ⟨_, hr.rotate, by grind⟩
  obtain ⟨k, z, hk⟩ := exists_eq_concat x m
  have hz := (hm.prev_head hk).2
  refine ⟨?_, ?_⟩
  · cases m with
    | nil =>
      rw [(isRing_nil.mp hm).1]
      exact ⟨hx, (isRing_nil.mp hm).2⟩
    | cons y m =>
      obtain ⟨h1, h2⟩ := (List.isChain_cons_cons.mp hm.1).1
      rw [h1]
      exact ⟨hsub y (by simp), h2⟩
  · rw [hz.2]
    exact ⟨hsub z (by rw [hk]; simp), hz.1⟩

section Ops

variable [DecidableEq ν]

/-- A node goes behind the head. -/
theorem IsRing.insertAfter (hr : IsRing L h l) (hn : n ∉ h :: l) :
    IsRing (L.insertAfter h n) h (n :: l) := by
  rw [List.mem_cons, not_or] at hn
  obtain ⟨hc, hnd⟩ := hr
  refine ⟨?_, by grind⟩
  rw [List.cons_append, List.isChain_cons_cons]
  refine ⟨⟨by simp [insertAfter_next], by simp [insertAfter_prev]⟩, ?_⟩
  cases l with
  | nil =>
    have hs := isRing_nil.mp ⟨hc, hnd⟩
    simp only [List.nil_append, List.isChain_cons_cons, List.isChain_singleton, and_true]
    constructor
    · rw [insertAfter_next, if_neg hn.1, if_pos rfl, hs.1]
    · rw [insertAfter_prev, if_neg (Ne.symm hn.1), if_pos hs.1.symm]
  | cons x l =>
    rw [List.cons_append, List.isChain_cons_cons] at hc
    obtain ⟨⟨hx, hp⟩, hc⟩ := hc
    rw [List.cons_append, List.isChain_cons_cons]
    refine ⟨⟨?_, ?_⟩, hc.imp_of_mem_tail_imp fun a b ha hb hab => ⟨?_, ?_⟩⟩
    · rw [insertAfter_next, if_neg hn.1, if_pos rfl, hx]
    · rw [insertAfter_prev, if_neg (by grind), if_pos hx.symm]
    · -- only the last node has the head behind it
      rw [insertAfter_next, if_neg, if_neg (by grind)]
      · exact hab.1
      · rintro rfl
        have hbx : b = x := hab.1.symm.trans hx
        grind
    · rw [insertAfter_prev, if_neg (by grind), if_neg]
      · exact hab.2
      · rw [hx]
        grind

/-- A node goes before the head, behind all other nodes. -/
theorem IsRing.insertBefore (hr : IsRing L h l) (hn : n ∉ h :: l) :
    IsRing (L.insertBefore h n) h (l ++ [n]) := by
  obtain ⟨k, z, hk⟩ := exists_eq_concat h l
  obtain ⟨hc, hzh, hhz⟩ := hr.prev_head hk
  have hnd := hr.2
  have hzn : z ≠ n := by
    rintro rfl
    exact hn (by rw [hk]; simp)
  rw [List.mem_cons, not_or] at hn
  refine ⟨?_, by grind⟩
  have hg : List.IsChain (Adj (L.insertBefore h n)) (k ++ z :: [n, h]) := by
    rw [List.isChain_split]
    constructor
    · rw [← hk] at hc ⊢
      refine hc.imp_of_mem_tail_imp fun a b ha hb hab => ⟨?_, ?_⟩
      · -- only the last node has the head behind it
        rw [insertBefore_next, if_neg (by grind), if_neg]
        · exact hab.1
        · rw [hhz]
          rintro rfl
          have hbh : b = h := hab.1.symm.trans hzh
          grind
      · rw [insertBefore_prev, if_neg (by grind), if_neg (by grind)]
        exact hab.2
    · simp only [List.isChain_cons_cons, List.isChain_singleton, and_true]
      refine ⟨⟨?_, ?_⟩, ?_, ?_⟩
      · rw [insertBefore_next, if_neg hzn, if_pos hhz.symm]
      · rw [insertBefore_prev, if_neg hn.1, if_pos rfl, hhz]
      · rw [insertBefore_next, if_pos rfl]
      · rw [insertBefore_prev, if_pos rfl]
  have he : h :: (l ++ [n] ++ [h]) = k ++ z :: [n, h] := by
    rw [List.append_assoc, ← List.cons_append, hk]
    simp
  rw [he]
  exact hg

/-- A node goes before another one. -/
theorem IsRing.insertBefore_mem (hr : IsRing L h (l ++ r :: m)) (hn : n ∉ h :: (l ++ r :: m)) :
    IsRing (L.insertBefore r n) h (l ++ n :: r :: m) := by
  have hi : IsRing (L.insertBefore r n) r (m ++ h :: l ++ [n]) :=
    hr.rotate.insertBefore (by grind)
  rw [List.append_assoc, List.cons_append] at hi
  simpa using hi.rotate

/-- A node goes behind another one. -/
theorem IsRing.insertAfter_mem (hr : IsRing L h (l ++ r :: m)) (hn : n ∉ h :: (l ++ r :: m)) :
    IsRing (L.insertAfter r n) h (l ++ r :: n :: m) := by
  have hi : IsRing (L.insertAfter r n) r ((n :: m) ++ h :: l) := hr.rotate.insertAfter (by grind)
  exact hi.rotate

/-- The ring without its head. -/
theorem IsRing.remove_head (hr : IsRing L n (y :: l)) : IsRing (L.remove n) y l := by
  obtain ⟨k, z, hk⟩ := exists_eq_concat n (y :: l)
  obtain ⟨hc, hzn, hnz⟩ := hr.prev_head hk
  have hny := hr.next_head
  have hnd := hr.2
  obtain ⟨k, rfl⟩ : ∃ k', k = n :: k' := by
    cases k with
    | nil => simp at hk
    | cons a k => exact ⟨k, by rw [List.cons_append] at hk; rw [(List.cons.inj hk).1]⟩
  have hk' : y :: l = k ++ [z] := (List.cons.inj hk).2
  have hzy : z ∈ y :: l := by rw [hk']; simp
  refine ⟨?_, by grind⟩
  have hg : List.IsChain (Adj (L.remove n)) (k ++ z :: [y]) := by
    rw [List.isChain_split]
    constructor
    · have hc' : List.IsChain (Adj L) (y :: l) := by
        rw [hk']
        exact List.isChain_of_isChain_cons hc
      rw [← hk']
      refine hc'.imp_of_mem_tail_imp fun a b ha hb hab => ⟨?_, ?_⟩
      · rw [remove_next, if_neg (by grind), if_neg]
        · exact hab.1
        · rw [hnz]
          rintro rfl
          have hbn : b = n := hab.1.symm.trans hzn
          grind
      · rw [remove_prev, if_neg (by grind), if_neg (by grind)]
        exact hab.2
    · simp only [List.isChain_cons_cons, List.isChain_singleton, and_true]
      constructor
      · rw [remove_next, if_neg (by grind), if_pos hnz.symm, hny]
      · rw [remove_prev, if_neg (by grind), if_pos hny.symm, hnz]
  have he : y :: (l ++ [y]) = k ++ z :: [y] := by
    rw [← List.cons_append, hk']
    simp
  rw [he]
  exact hg

/-- A node is taken off. -/
theorem IsRing.remove (hr : IsRing L h (l ++ n :: m)) : IsRing (L.remove n) h (l ++ m) := by
  have hn := hr.rotate
  cases m with
  | nil => simpa using hn.remove_head
  | cons y m => exact (show IsRing L n (y :: (m ++ h :: l)) from hn).remove_head.rotate

/-- A node is taken off, and keeps its pointers. -/
theorem IsRing.unlink (hr : IsRing L h (l ++ n :: m)) : IsRing (L.unlink n) h (l ++ m) := by
  have hnd := hr.2
  refine hr.remove.congr fun x hx => ?_
  have hxn : x ≠ n := by grind
  rw [unlink_next, unlink_prev, remove_next, remove_prev, if_neg hxn, if_neg hxn]
  exact ⟨rfl, rfl⟩

theorem isRing_remove_self : IsRing (L.remove n) n [] :=
  isRing_nil.mpr ⟨by simp [remove_next], by simp [remove_prev]⟩

end Ops

end Ring

/-! ## Many rings -/

/-- The heads of the lists, and what can be on them. -/
inductive Node (η ε : Type*) where
  | head (q : η)
  | item (t : ε)
  deriving DecidableEq

variable {η ε : Type*}

/-- The node at the end of the list `l` with the head `q`. -/
def Node.last (q : η) (l : List ε) : Node η ε := l.getLast?.elim (.head q) .item

@[simp] theorem Node.last_nil (q : η) : Node.last q ([] : List ε) = .head q := rfl

@[simp] theorem Node.last_concat (q : η) (l : List ε) (t : ε) :
    Node.last q (l ++ [t]) = .item t := by
  simp [Node.last]

theorem Node.last_mem (q : η) (l : List ε) : Node.last q l ∈ .head q :: l.map .item := by
  rcases List.eq_nil_or_concat' l with rfl | ⟨l, t, rfl⟩ <;> simp

/-- `R q` is the list with the head `q`. -/
structure Rings (L : Links (Node η ε)) (R : η → List ε) : Prop where
  ring : ∀ q, IsRing L (.head q) ((R q).map .item)
  alone : ∀ t, (∀ q, t ∉ R q) → IsRing L (.item t) []
  one : ∀ q q' t, t ∈ R q → t ∈ R q' → q = q'

variable {L L' : Links (Node η ε)} {R : η → List ε} {q : η} {t u : ε} {l l' m : List ε}

theorem item_injective : Function.Injective (Node.item : ε → Node η ε) := fun _ _ h =>
  Node.item.inj h

theorem item_mem : (Node.item t : Node η ε) ∈ .head q :: l.map .item ↔ t ∈ l := by
  simp

theorem head_mem {q' : η} : (Node.head q' : Node η ε) ∈ .head q :: l.map .item ↔ q' = q := by
  simp

namespace Rings

theorem nodup (hR : Rings L R) (q : η) : (R q).Nodup :=
  (List.nodup_map_iff item_injective).mp (List.nodup_cons.mp (hR.ring q).2).2

theorem isEmpty_iff [DecidableEq η] [DecidableEq ε] (hR : Rings L R) :
    L.isEmpty (.head q) = true ↔ R q = [] := by
  rw [Links.isEmpty, decide_eq_true_iff, (hR.ring q).next_eq_iff, List.map_eq_nil_iff]

theorem next_head (hR : Rings L R) (hq : R q = t :: l) : L.next (.head q) = .item t := by
  have hr := hR.ring q
  rw [hq] at hr
  exact hr.next_head

/-- The node behind a node of a list. -/
theorem next_item (hR : Rings L R) (hq : R q = l ++ u :: m) :
    L.next (.item u) = .head q ∧ m = [] ∨ ∃ v m', m = v :: m' ∧ L.next (.item u) = .item v := by
  have hr := hR.ring q
  rw [hq, List.map_append, List.map_cons] at hr
  cases m with
  | nil => exact .inl ⟨hr.rotate.next_head, rfl⟩
  | cons v m => exact .inr ⟨v, m, rfl, hr.rotate.next_head⟩

theorem next_last_nil (hR : Rings L R) (hq : R q = l) : L.next (.last q l) = .head q := by
  rcases List.eq_nil_or_concat' l with rfl | ⟨l, u, rfl⟩
  · have hr := hR.ring q
    rw [hq] at hr
    exact (isRing_nil.mp hr).1
  · rw [Node.last_concat]
    rcases hR.next_item hq with ⟨hn, -⟩ | ⟨v, m, hm, -⟩
    · exact hn
    · cases hm

theorem next_last_cons (hR : Rings L R) (hq : R q = l ++ t :: m) :
    L.next (.last q l) = .item t := by
  rcases List.eq_nil_or_concat' l with rfl | ⟨l, u, rfl⟩
  · exact hR.next_head hq
  · rw [Node.last_concat]
    rw [List.append_assoc] at hq
    rcases hR.next_item hq with ⟨-, hm⟩ | ⟨v, m', hm, hv⟩
    · cases hm
    · rw [hv, (List.cons.inj hm).1]

theorem prev_head (hR : Rings L R) (q : η) : L.prev (.head q) = .last q (R q) := by
  have hr := hR.ring q
  rcases List.eq_nil_or_concat' (R q) with hl | ⟨l, u, hl⟩
  · rw [hl] at hr ⊢
    exact (isRing_nil.mp hr).2
  · rw [hl, List.map_append] at hr
    rw [hl, Node.last_concat]
    exact (hr.prev_head (k := .head q :: l.map .item) rfl).2.2

/-- Only the end of the list is before the head. -/
theorem last_eq_prev_iff (hR : Rings L R) (hq : R q = l ++ m) :
    Node.last q l = L.prev (.head q) ↔ m = [] := by
  rw [hR.prev_head, hq]
  constructor
  · intro he
    rcases List.eq_nil_or_concat' m with rfl | ⟨m, u, rfl⟩
    · rfl
    · have hnd := hR.nodup q
      rw [← List.append_assoc, Node.last_concat] at he
      have hu : u ∈ l := by
        have hm := Node.last_mem q l
        rw [he] at hm
        exact item_mem.mp hm
      rw [hq] at hnd
      exact absurd rfl (List.nodup_append.mp hnd |>.2.2 u hu u (by simp))
  · rintro rfl
    rw [List.append_nil]

/-- The operation on one list, with the nodes that it takes and gives. -/
theorem change [DecidableEq η] (hR : Rings L R) (hr : IsRing L' (.head q) (l.map .item))
    (hl : ∀ u, u ∈ l → u ∈ R q ∨ ∀ p, u ∉ R p)
    (halone : ∀ u, u ∈ R q → u ∉ l → IsRing L' (.item u) [])
    (hx : ∀ x, x ∉ .head q :: (R q).map .item → x ∉ l.map .item →
      L'.next x = L.next x ∧ L'.prev x = L.prev x) : Rings L' (Function.update R q l) := by
  refine ⟨fun p => ?_, fun u hu => ?_, fun p p' u hp hp' => ?_⟩
  · by_cases hp : p = q
    · subst hp
      rw [Function.update_self]
      exact hr
    · rw [Function.update_of_ne hp]
      refine (hR.ring p).congr fun x hxp => ?_
      cases x with
      | head q' =>
        rw [head_mem] at hxp
        subst hxp
        exact hx _ (fun h => hp (head_mem.mp h)) (by simp)
      | item u =>
        rw [item_mem] at hxp
        have huq : u ∉ R q := fun h => hp (hR.one p q u hxp h)
        refine hx _ (fun h => huq (item_mem.mp h)) fun h => ?_
        obtain ⟨v, hv, hvu⟩ := List.mem_map.mp h
        rw [item_injective hvu] at hv
        exact (hl u hv).elim huq fun hv => hv p hxp
  · have hul : u ∉ l := by simpa using hu q
    by_cases huq : u ∈ R q
    · exact halone u huq hul
    · refine (hR.alone u fun p => ?_).congr fun x hxu => ?_
      · by_cases hp : p = q
        · rw [hp]
          exact huq
        · simpa [hp] using hu p
      · rw [List.mem_singleton] at hxu
        subst hxu
        exact hx _ (fun h => huq (item_mem.mp h)) fun h => hul (by simpa using h)
  · by_cases hpq : p = q
    · by_cases hpq' : p' = q
      · rw [hpq, hpq']
      · rw [hpq, Function.update_self] at hp
        rw [Function.update_of_ne hpq'] at hp'
        exact (hl u hp).elim (fun h => hpq.trans (hR.one q p' u h hp')) fun h => absurd hp' (h p')
    · rw [Function.update_of_ne hpq] at hp
      by_cases hpq' : p' = q
      · rw [hpq', Function.update_self] at hp'
        exact (hl u hp').elim (fun h => (hR.one p q u hp h).trans hpq'.symm)
          fun h => absurd hp (h p)
      · rw [Function.update_of_ne hpq'] at hp'
        exact hR.one p p' u hp hp'

section Ops

variable [DecidableEq η] [DecidableEq ε]

/-- A node that is alone goes at the end of a list. -/
theorem insertBefore_head (hR : Rings L R) (ht : ∀ p, t ∉ R p) :
    Rings (L.insertBefore (.head q) (.item t)) (Function.update R q (R q ++ [t])) := by
  have hn : (Node.item t : Node η ε) ∉ .head q :: (R q).map .item := fun h => ht q (item_mem.mp h)
  refine hR.change ?_ (fun u hu => ?_) (fun u hu hul => ?_) fun x hx hxl => ?_
  · rw [List.map_append]
    exact (hR.ring q).insertBefore hn
  · rcases List.mem_append.mp hu with hu | hu
    · exact .inl hu
    · rw [List.mem_singleton.mp hu]
      exact .inr ht
  · exact absurd (List.mem_append_left _ hu) hul
  · have hxt : x ≠ .item t := by
      rintro rfl
      exact hxl (by simp)
    have hxq : x ≠ .head q := fun h => hx (h ▸ List.mem_cons_self)
    have hxp : x ≠ L.prev (.head q) := fun h => hx (h ▸ ((hR.ring q).mem List.mem_cons_self).2.1)
    rw [Links.insertBefore_next, Links.insertBefore_prev, if_neg hxt, if_neg hxp, if_neg hxq,
      if_neg hxt]
    exact ⟨rfl, rfl⟩

/-- A node that is alone goes before a node of a list. -/
theorem insertBefore_item (hR : Rings L R) (ht : ∀ p, t ∉ R p) (hq : R q = l ++ u :: m) :
    Rings (L.insertBefore (.item u) (.item t)) (Function.update R q (l ++ t :: u :: m)) := by
  have hr := hR.ring q
  have hu : (Node.item u : Node η ε) ∈ .head q :: (R q).map .item := by
    rw [item_mem, hq]
    simp
  have hn : (Node.item t : Node η ε) ∉ .head q :: (R q).map .item := fun h => ht q (item_mem.mp h)
  refine hR.change ?_ (fun v hv => ?_) (fun v hv hvl => ?_) fun x hx hxl => ?_
  · rw [hq, List.map_append, List.map_cons] at hr hn
    rw [List.map_append, List.map_cons, List.map_cons]
    exact hr.insertBefore_mem hn
  · rw [hq]
    by_cases hvt : v = t
    · rw [hvt]
      exact .inr ht
    · exact .inl (by grind)
  · rw [hq] at hv
    exact absurd (by grind) hvl
  · have hxt : x ≠ .item t := by
      rintro rfl
      exact hxl (by simp)
    have hxu : x ≠ .item u := fun h => hx (h ▸ hu)
    have hxp : x ≠ L.prev (.item u) := fun h => hx (h ▸ (hr.mem hu).2.1)
    rw [Links.insertBefore_next, Links.insertBefore_prev, if_neg hxt, if_neg hxp, if_neg hxu,
      if_neg hxt]
    exact ⟨rfl, rfl⟩

/-- A node that is alone goes at the beginning of a list. -/
theorem insertAfter_head (hR : Rings L R) (ht : ∀ p, t ∉ R p) :
    Rings (L.insertAfter (.head q) (.item t)) (Function.update R q (t :: R q)) := by
  have hn : (Node.item t : Node η ε) ∉ .head q :: (R q).map .item := fun h => ht q (item_mem.mp h)
  refine hR.change ((hR.ring q).insertAfter hn) (fun u hu => ?_) (fun u hu hul => ?_)
    fun x hx hxl => ?_
  · rcases List.mem_cons.mp hu with rfl | hu
    · exact .inr ht
    · exact .inl hu
  · exact absurd (List.mem_cons_of_mem _ hu) hul
  · have hxt : x ≠ .item t := by
      rintro rfl
      exact hxl (by simp)
    have hxq : x ≠ .head q := fun h => hx (h ▸ List.mem_cons_self)
    have hxp : x ≠ L.next (.head q) := fun h => hx (h ▸ ((hR.ring q).mem List.mem_cons_self).1.1)
    rw [Links.insertAfter_next, Links.insertAfter_prev, if_neg hxt, if_neg hxq, if_neg hxt,
      if_neg hxp]
    exact ⟨rfl, rfl⟩

/-- A node that is alone goes behind the part `l` of a list. -/
theorem insertAfter_last (hR : Rings L R) (ht : ∀ p, t ∉ R p) (hq : R q = l ++ m) :
    Rings (L.insertAfter (.last q l) (.item t)) (Function.update R q (l ++ t :: m)) := by
  have hn : (Node.item t : Node η ε) ∉ .head q :: (R q).map .item := fun h => ht q (item_mem.mp h)
  have hlast : Node.last q l ∈ .head q :: (R q).map .item := by
    have hm := Node.last_mem q l
    rw [hq]
    grind
  refine hR.change ?_ (fun u hu => ?_) (fun u hu hul => ?_) fun x hx hxl => ?_
  · have hr := hR.ring q
    rw [hq] at hr hn
    rcases List.eq_nil_or_concat' l with rfl | ⟨l, u, rfl⟩
    · exact hr.insertAfter hn
    · rw [Node.last_concat]
      simp only [List.map_append, List.map_cons, List.append_assoc, List.singleton_append]
        at hr hn ⊢
      exact hr.insertAfter_mem hn
  · rw [hq]
    by_cases hut : u = t
    · rw [hut]
      exact .inr ht
    · exact .inl (by grind)
  · rw [hq] at hu
    exact absurd (by grind) hul
  · have hxt : x ≠ .item t := by
      rintro rfl
      exact hxl (by simp)
    have hxl' : x ≠ .last q l := fun h => hx (h ▸ hlast)
    have hxn : x ≠ L.next (.last q l) := fun h => hx (h ▸ ((hR.ring q).mem hlast).1.1)
    rw [Links.insertAfter_next, Links.insertAfter_prev, if_neg hxt, if_neg hxl', if_neg hxt,
      if_neg hxn]
    exact ⟨rfl, rfl⟩

/-- A node is taken off the list that it is on; one that is alone stays so. -/
theorem remove (hR : Rings L R) (t : ε) : Rings (L.remove (.item t)) fun p => (R p).erase t := by
  by_cases ht : ∃ q, t ∈ R q
  · obtain ⟨q, hq⟩ := ht
    have hmem : (Node.item t : Node η ε) ∈ .head q :: (R q).map .item := item_mem.mpr hq
    have hpq := (hR.ring q).mem hmem
    have he : (fun p => (R p).erase t) = Function.update R q ((R q).erase t) := by
      funext p
      by_cases hp : p = q
      · rw [hp, Function.update_self]
      · rw [Function.update_of_ne hp]
        exact List.erase_of_not_mem fun h => hp (hR.one p q t h hq)
    rw [he]
    refine hR.change ?_ (fun u hu => .inl (List.mem_of_mem_erase hu)) (fun u hu hul => ?_)
      fun x hx _ => ?_
    · have hnd := hR.nodup q
      have hr := hR.ring q
      obtain ⟨l, m, hlm⟩ := List.append_of_mem hq
      rw [hlm] at hr hnd ⊢
      have htl : t ∉ l := by grind
      rw [List.erase_append_right _ htl, List.erase_cons_head, List.map_append]
      rw [List.map_append, List.map_cons] at hr
      exact hr.remove
    · have hut : u = t := by
        by_contra hne
        exact hul ((List.mem_erase_of_ne hne).mpr hu)
      rw [hut]
      exact isRing_remove_self
    · have hxt : x ≠ .item t := fun h => hx (h ▸ hmem)
      have hxn : x ≠ L.next (.item t) := fun h => hx (h ▸ hpq.1.1)
      have hxp : x ≠ L.prev (.item t) := fun h => hx (h ▸ hpq.2.1)
      rw [Links.remove_next, Links.remove_prev, if_neg hxt, if_neg hxp, if_neg hxt, if_neg hxn]
      exact ⟨rfl, rfl⟩
  · have hnot : ∀ q, t ∉ R q := fun q hq => ht ⟨q, hq⟩
    obtain ⟨hnext, hprev⟩ := isRing_nil.mp (hR.alone t hnot)
    have hL : L.remove (.item t) = L := by
      have h1 : (L.remove (.item t)).next = L.next := by
        funext x
        rw [Links.remove_next, hnext, hprev]
        grind
      have h2 : (L.remove (.item t)).prev = L.prev := by
        funext x
        rw [Links.remove_prev, hnext, hprev]
        grind
      exact Links.ext h1 h2
    have hR' : (fun p => (R p).erase t) = R := by
      funext p
      exact List.erase_of_not_mem (hnot p)
    rw [hL, hR']
    exact hR

end Ops

end Rings

end Circular
