import Mathlib.Data.List.Nodup
import Mathlib.Data.List.Perm.Basic
import TuduOS.Pthread.Named

/-!
# Named objects over whole runs

* `cur log name`: the object that `name` stands for. `Consistent log`: every open went by it.
* `NamedInv s`: the list has the objects that are open or not unlinked, and of each name only the
  first one in the list may be one that is not unlinked.
* `named_ok`: what the calls are for, in every run of plain ones.
-/

namespace Tudu.Pthread

open Lts

/-! ## The log -/

/-- The object of the opens of `name` since it was last unlinked. -/
def cur : List Event → Name → Option Nat
  | [], _ => none
  | .made n i :: l, name => if n = name then some i else cur l name
  | .found n i :: l, name => if n = name then some i else cur l name
  | .closed _ :: l, name => cur l name
  | .unlinked n :: l, name => if n = name then none else cur l name

/-- Every open made an object for a name that had none, or found the one that it had. -/
def Consistent : List Event → Prop
  | [] => True
  | .made n _ :: l => cur l n = none ∧ Consistent l
  | .found n i :: l => cur l n = some i ∧ Consistent l
  | .closed _ :: l => Consistent l
  | .unlinked _ :: l => Consistent l

variable {k : Kind} {s t : NamedSys} {l l' : List Event} {name : Name} {i j : Nat} {e e' : Event}

theorem Consistent.tail (h : Consistent (e :: l)) : Consistent l := by
  cases e with
  | made n i => exact h.2
  | found n i => exact h.2
  | closed i => exact h
  | unlinked n => exact h

theorem Consistent.suffix (h : Consistent (l' ++ l)) : Consistent l := by
  induction l' with
  | nil => exact h
  | cons e l' ih => exact ih h.tail

/-- A name that stands for an object was made and not unlinked since. -/
theorem Consistent.made (h : Consistent l) (hc : cur l name = some i) :
    ∃ l1 l2, l = l1 ++ .made name i :: l2 ∧ .unlinked name ∉ l1 := by
  induction l with
  | nil => cases hc
  | cons e l ih =>
    -- an event that leaves the name to the rest of the log
    have hrest : cur l name = some i → e ≠ .unlinked name →
        ∃ l1 l2, e :: l = l1 ++ .made name i :: l2 ∧ .unlinked name ∉ l1 := by
      intro hc hne
      obtain ⟨l1, l2, rfl, hn⟩ := ih h.tail hc
      exact ⟨e :: l1, l2, rfl, fun hmem => (List.mem_cons.mp hmem).elim (fun he => hne he.symm) hn⟩
    cases e with
    | made n j =>
      rw [cur] at hc
      split at hc
      · next hn =>
        subst hn
        obtain rfl := Option.some.inj hc
        exact ⟨[], l, rfl, List.not_mem_nil⟩
      · exact hrest hc (by simp)
    | found n j =>
      rw [cur] at hc
      split at hc
      · next hn =>
        subst hn
        obtain rfl := Option.some.inj hc
        exact hrest h.1 (by simp)
      · exact hrest hc (by simp)
    | closed j => exact hrest hc (by simp)
    | unlinked n =>
      rw [cur] at hc
      split at hc
      · cases hc
      · next hn => exact hrest hc (by simp [hn])

/-- What an open returned, the name stands for until it is unlinked. -/
theorem Consistent.cur_of_opens {l2 l3 : List Event} (h : Consistent (l2 ++ e :: l3))
    (ho : e.Opens name i) (hn : .unlinked name ∉ l2) : cur (l2 ++ e :: l3) name = some i := by
  induction l2 with
  | nil =>
    rcases ho with rfl | rfl
    · exact if_pos rfl
    · exact if_pos rfl
  | cons d l2 ih =>
    have hc := ih h.tail fun hmem => hn (List.mem_cons_of_mem d hmem)
    rw [List.cons_append] at h ⊢
    cases d with
    | made n j =>
      rw [cur]
      split
      · next he =>
        subst he
        rw [h.1] at hc
        cases hc
      · exact hc
    | found n j =>
      rw [cur]
      split
      · next he =>
        subst he
        rw [h.1] at hc
        exact hc
      · exact hc
    | closed j => exact hc
    | unlinked n =>
      rw [cur, if_neg]
      · exact hc
      · rintro rfl
        exact hn List.mem_cons_self

theorem Consistent.same {l1 l2 l3 : List Event} (h : Consistent (l1 ++ e :: (l2 ++ e' :: l3)))
    (ho : e.Opens name i) (ho' : e'.Opens name j) (hn : .unlinked name ∉ l2) : i = j := by
  have hs := h.suffix
  have hc := hs.tail.cur_of_opens ho' hn
  rcases ho with rfl | rfl
  · rw [hs.1] at hc
    cases hc
  · rw [hs.1] at hc
    exact Option.some.inj hc

theorem Consistent.gone {l1 l2 l3 : List Event}
    (h : Consistent (l1 ++ .found name i :: (l2 ++ .unlinked name :: l3))) :
    ∃ j, .made name j ∈ l2 := by
  have hs := h.suffix
  obtain ⟨m1, m2, heq, hn⟩ := hs.tail.made hs.1
  -- the place where it was made is before the unlink
  rcases List.append_eq_append_iff.mp heq with ⟨a, ha, hb⟩ | ⟨c, hc, hd⟩
  · cases a with
    | nil => cases hb
    | cons d a =>
      obtain ⟨rfl, -⟩ := List.cons.inj hb
      refine absurd ?_ hn
      rw [ha]
      simp
  · cases c with
    | nil => cases hd
    | cons d c =>
      obtain ⟨rfl, -⟩ := List.cons.inj hd
      exact ⟨i, by rw [hc]; simp⟩

theorem unlinked_cons : Unlinked (e :: l) i ↔
    Unlinked l i ∨ ∃ name, e = .unlinked name ∧ .made name i ∈ l := by
  constructor
  · rintro ⟨name, l1, l2, heq, hmem⟩
    cases l1 with
    | nil => cases hmem
    | cons d l1 =>
      obtain ⟨rfl, rfl⟩ := List.cons.inj heq
      rcases List.mem_cons.mp hmem with rfl | hmem
      · exact .inr ⟨name, rfl, by simp⟩
      · exact .inl ⟨name, l1, l2, rfl, hmem⟩
  · rintro (⟨name, l1, l2, rfl, hmem⟩ | ⟨name, rfl, hmem⟩)
    · exact ⟨name, e :: l1, l2, rfl, List.mem_cons_of_mem e hmem⟩
    · obtain ⟨l1, l2, rfl⟩ := List.append_of_mem hmem
      exact ⟨name, .unlinked name :: l1, l2, rfl, List.mem_cons_self⟩

/-! ## The search -/

/-! ## The list -/

variable {es : List Entry} {d : Entry} {f : Entry → Entry}

theorem mem_change (hnd : (es.map Entry.id).Nodup) (hd : d ∈ es) {d' : Entry} :
    d' ∈ change d.id f es ↔ d' ∈ es ∧ d'.id ≠ d.id ∨ d' = f d := by
  unfold change
  rw [List.mem_map]
  constructor
  · rintro ⟨c, hc, rfl⟩
    split
    · next hcd =>
      obtain rfl := List.inj_on_of_nodup_map hnd hc hd hcd
      exact .inr rfl
    · next hcd => exact .inl ⟨hc, hcd⟩
  · rintro (⟨hd', hne⟩ | rfl)
    · exact ⟨d', hd', if_neg hne⟩
    · exact ⟨d, hd, if_pos rfl⟩

theorem change_map {g : Entry → Nat} (hg : ∀ c, g (f c) = g c) :
    (change i f es).map g = es.map g := by
  unfold change
  rw [List.map_map]
  refine List.map_congr_left fun c _ => ?_
  show g (if c.id = i then f c else c) = g c
  split
  · exact hg c
  · rfl

/-- The search goes by what does not change. -/
theorem find_change (hf : ∀ c, (f c).name = c.name) :
    (change i f es).find? (fun e => e.name = name) =
      (es.find? fun e => e.name = name).map fun c => if c.id = i then f c else c := by
  unfold change
  rw [List.find?_map]
  congr 2
  funext c
  show decide ((if c.id = i then f c else c).name = name) = decide (c.name = name)
  split
  · rw [hf]
  · rfl

theorem mem_posixDelete (hnd : (es.map Entry.id).Nodup) :
    d ∈ posixDelete i es ↔ d ∈ es ∧ d.id ≠ i := by
  induction es with
  | nil => simp [posixDelete]
  | cons c es ih =>
    obtain ⟨hc, hnd⟩ := List.nodup_cons.mp hnd
    unfold posixDelete
    split
    · next hci =>
      constructor
      · intro hd
        refine ⟨List.mem_cons_of_mem c hd, ?_⟩
        rintro rfl
        exact hc (hci ▸ List.mem_map_of_mem hd)
      · rintro ⟨hd, hne⟩
        rcases List.mem_cons.mp hd with rfl | hd
        · exact absurd hci hne
        · exact hd
    · next hci =>
      rw [List.mem_cons, List.mem_cons, ih hnd]
      constructor
      · rintro (rfl | ⟨hd, hne⟩)
        · exact ⟨.inl rfl, hci⟩
        · exact ⟨.inr hd, hne⟩
      · rintro ⟨rfl | hd, hne⟩
        · exact .inl rfl
        · exact .inr ⟨hd, hne⟩

theorem posixDelete_perm (hd : d ∈ es) (hnd : (es.map Entry.id).Nodup) :
    es.Perm (d :: posixDelete d.id es) := by
  induction es with
  | nil => cases hd
  | cons c es ih =>
    obtain ⟨hc, hnd⟩ := List.nodup_cons.mp hnd
    unfold posixDelete
    rcases List.mem_cons.mp hd with rfl | hd
    · rw [if_pos rfl]
    · have hne : c.id ≠ d.id := fun he => hc (he ▸ List.mem_map_of_mem hd)
      rw [if_neg hne]
      exact ((ih hd hnd).cons c).trans (List.Perm.swap ..)

theorem find_posixDelete {p : Entry → Bool} (h : es.find? p = some d) (hne : d.id ≠ i) :
    (posixDelete i es).find? p = some d := by
  induction es with
  | nil => cases h
  | cons c es ih =>
    unfold posixDelete
    rw [List.find?_cons] at h
    split at h
    · next hp =>
      obtain rfl := Option.some.inj h
      rw [if_neg hne, List.find?_cons, hp]
    · next hp =>
      split
      · exact h
      · rw [List.find?_cons, hp]
        exact ih h

/-! ## The invariant -/

structure EntryOk (l : List Event) (e : Entry) : Prop where
  made : .made e.name e.id ∈ l
  refs : e.refcount = refs l e.id
  small : e.refcount < 65536
  unlinked : e.unlinked = true ↔ Unlinked l e.id

/-- The object `x` may be in the list although it is unlinked and nobody has it open. -/
structure NamedInv (x : Option Nat) (s : NamedSys) : Prop where
  lock : s.lock = 1
  held : s.held.Perm (s.list.map Entry.addr)
  consistent : Consistent s.log
  nodup : (s.list.map Entry.id).Nodup
  old : ∀ name i, .made name i ∈ s.log → i < s.next
  names : ∀ name name' i, .made name i ∈ s.log → .made name' i ∈ s.log → name = name'
  fresh : ∀ i, s.next ≤ i → refs s.log i = 0
  entry : ∀ e ∈ s.list, EntryOk s.log e
  alive : ∀ e ∈ s.list, e.unlinked = true → 0 < e.refcount ∨ x = some e.id
  current : ∀ name i, cur s.log name = some i →
    ∃ e ∈ s.list, e.name = name ∧ e.id = i ∧ e.unlinked = false
  first : ∀ e ∈ s.list, e.unlinked = false →
    s.list.find? (fun c => c.name = e.name) = some e ∧ cur s.log e.name = some e.id
  freed : ∀ i < s.next, (∀ e ∈ s.list, e.id ≠ i) → Unlinked s.log i ∧ refs s.log i = 0

theorem namedInit_inv : NamedInv none namedInit where
  lock := rfl
  held := .nil
  consistent := trivial
  nodup := List.nodup_nil
  old _ _ h := absurd h List.not_mem_nil
  names _ _ _ h := absurd h List.not_mem_nil
  fresh _ _ := rfl
  entry _ h := absurd h List.not_mem_nil
  alive _ h := absurd h List.not_mem_nil
  current _ _ h := by cases h
  first _ h := absurd h List.not_mem_nil
  freed _ h := absurd h (Nat.not_lt_zero _)

/-- An open that fails changes nothing. -/
theorem posixOpen_fails {creat excl : Bool} {m : Alloc} {r : Errno} (hlock : 0 < s.lock)
    (h : s.posixOpen k name creat excl m = (t, .error r)) : t = s := by
  have hrel : ({ s with lock := s.lock - 1 } : NamedSys).release = s := by
    unfold NamedSys.release
    rw [show s.lock - 1 + 1 = s.lock by omega]
  unfold NamedSys.posixOpen at h
  simp only at h
  split at h
  · split at h
    · exact (Prod.mk.inj h).1.symm.trans hrel
    · cases m with
      | noStruct => exact (Prod.mk.inj h).1.symm.trans hrel
      | noObject a =>
        refine (Prod.mk.inj h).1.symm.trans ?_
        unfold NamedSys.free NamedSys.release
        simp only [List.erase_cons_head]
        exact hrel
      | both a o => cases (Prod.mk.inj h).2
  · unfold NamedSys.reopen at h
    split at h
    · exact (Prod.mk.inj h).1.symm.trans hrel
    · cases (Prod.mk.inj h).2

namespace NamedInv

theorem ok (h : NamedInv none s) : NamedOk s where
  same l1 l2 l3 e e' name i j heq ho ho' hn := by
    have hc := h.consistent
    rw [heq] at hc
    exact hc.same ho ho' hn
  gone l1 l2 l3 name i heq := by
    have hc := h.consistent
    rw [heq] at hc
    exact hc.gone
  fails k name creat excl m t e _ := posixOpen_fails (by rw [h.lock]; exact Nat.one_pos)
  lock := h.lock
  freed i hi := by
    refine ⟨h.freed i hi, ?_⟩
    rintro ⟨hu, hr⟩ e he rfl
    have hE := h.entry e he
    rcases h.alive e he (hE.unlinked.mpr hu) with hpos | hx
    · rw [hE.refs, hr] at hpos
      exact absurd hpos (Nat.lt_irrefl 0)
    · cases hx
  held := h.held

/-! ### Steps -/

/-- An open makes an object; every other one of the name is unlinked. -/
theorem make (h : NamedInv none s) {a o : Nat}
    (hn : ∀ e ∈ s.list, e.name = name → e.unlinked = true) :
    NamedInv none { s with
      list := ⟨a, o, 1, false, name, s.next⟩ :: s.list, held := a :: s.held
      next := s.next + 1, log := .made name s.next :: s.log } := by
  have hlt : ∀ e ∈ s.list, e.id < s.next := fun e he => h.old _ _ (h.entry e he).made
  have hnone : cur s.log name = none := by
    by_contra hne
    obtain ⟨i, hi⟩ := Option.ne_none_iff_exists'.mp hne
    obtain ⟨e, he, hname, -, hu⟩ := h.current name i hi
    rw [hn e he hname] at hu
    cases hu
  have hun : ∀ i, Unlinked (.made name s.next :: s.log) i ↔ Unlinked s.log i := fun i => by
    rw [unlinked_cons]
    simp
  have hrefs : ∀ i, i ≠ s.next → refs (.made name s.next :: s.log) i = refs s.log i :=
    fun i hi => by
      rw [refs, if_neg (Ne.symm hi)]
      rfl
  have hnew : refs (.made name s.next :: s.log) s.next = 1 := by
    rw [refs, if_pos rfl, h.fresh _ (Nat.le_refl _)]
  have hnot : ¬ Unlinked s.log s.next := by
    rintro ⟨n, l1, l2, heq, -⟩
    exact absurd (h.old n s.next (heq ▸ by simp)) (Nat.lt_irrefl _)
  constructor
  case lock => exact h.lock
  case held => exact h.held.cons a
  case consistent => exact ⟨hnone, h.consistent⟩
  case nodup =>
    refine List.nodup_cons.mpr ⟨fun hmem => ?_, h.nodup⟩
    obtain ⟨e, he, hid⟩ := List.mem_map.mp hmem
    exact absurd (hlt e he) (by rw [hid]; exact Nat.lt_irrefl _)
  case old =>
    intro n i hi
    rcases List.mem_cons.mp hi with he | hi
    · cases he
      exact Nat.lt_succ_self _
    · exact Nat.lt_succ_of_lt (h.old n i hi)
  case names =>
    intro n n' i hi hi'
    rcases List.mem_cons.mp hi with he | hi
    · rcases List.mem_cons.mp hi' with he' | hi'
      · cases he
        cases he'
        rfl
      · cases he
        exact absurd (h.old n' _ hi') (Nat.lt_irrefl _)
    · rcases List.mem_cons.mp hi' with he' | hi'
      · cases he'
        exact absurd (h.old n _ hi) (Nat.lt_irrefl _)
      · exact h.names n n' i hi hi'
  case fresh =>
    intro i hi
    rw [hrefs i (Nat.ne_of_gt hi)]
    exact h.fresh i (Nat.le_of_succ_le hi)
  case entry =>
    intro e he
    rcases List.mem_cons.mp he with rfl | he
    · exact ⟨List.mem_cons_self, hnew.symm, (by decide : 1 < 65536), by simp [hun, hnot]⟩
    · have hE := h.entry e he
      refine ⟨List.mem_cons_of_mem _ hE.made, ?_, hE.small, hE.unlinked.trans (hun _).symm⟩
      rw [hrefs e.id (Nat.ne_of_lt (hlt e he))]
      exact hE.refs
  case alive =>
    intro e he hu
    rcases List.mem_cons.mp he with rfl | he
    · cases hu
    · exact h.alive e he hu
  case current =>
    intro n i hi
    rw [cur] at hi
    split at hi
    · next hnn =>
      obtain rfl := Option.some.inj hi
      exact ⟨_, List.mem_cons_self, hnn, rfl, rfl⟩
    · obtain ⟨e, he, hrest⟩ := h.current n i hi
      exact ⟨e, List.mem_cons_of_mem _ he, hrest⟩
  case first =>
    intro e he hu
    rcases List.mem_cons.mp he with rfl | he
    · exact ⟨by simp, if_pos rfl⟩
    · have hne : name ≠ e.name := fun heq => by
        rw [hn e he heq.symm] at hu
        cases hu
      obtain ⟨hfind, hcur⟩ := h.first e he hu
      refine ⟨?_, (if_neg hne).trans hcur⟩
      rw [List.find?_cons]
      simp only [hne, decide_false]
      exact hfind
  case freed =>
    intro i hi hno
    have hne : i ≠ s.next := fun he => hno _ List.mem_cons_self he.symm
    rw [hun, hrefs i hne]
    exact h.freed i (by have : i < s.next + 1 := hi; omega) fun e he => hno e (List.mem_cons_of_mem _ he)

/-- The reference count of an object changes. -/
theorem recount {x : Option Nat} (h : NamedInv none s) {d : Entry} (hd : d ∈ s.list) {n : Nat}
    (hcons : Consistent (e :: s.log)) (hcur : ∀ name, cur (e :: s.log) name = cur s.log name)
    (hmade : ∀ name i, e ≠ .made name i) (hun : ∀ name, e ≠ .unlinked name)
    (hrefs : refs (e :: s.log) d.id = n)
    (hother : ∀ i, i ≠ d.id → refs (e :: s.log) i = refs s.log i) (hsmall : n < 65536)
    (halive : d.unlinked = true → 0 < n ∨ x = some d.id) :
    NamedInv x { s with
      list := change d.id (fun e => { e with refcount := n }) s.list, log := e :: s.log } := by
  have hun' : ∀ i, Unlinked (e :: s.log) i ↔ Unlinked s.log i := fun i => by
    rw [unlinked_cons]
    exact ⟨fun h => h.elim id fun ⟨n, he, _⟩ => absurd he (hun n), .inl⟩
  have hmem : ∀ name i, .made name i ∈ e :: s.log ↔ .made name i ∈ s.log := fun name i => by
    rw [List.mem_cons]
    exact ⟨fun h => h.resolve_left fun he => hmade name i he.symm, .inr⟩
  have hold : ∀ c ∈ s.list, c.id < s.next := fun c hc => h.old _ _ (h.entry c hc).made
  constructor
  case lock => exact h.lock
  case held =>
    show s.held.Perm ((change d.id (fun e => { e with refcount := n }) s.list).map Entry.addr)
    rw [change_map]
    · exact h.held
    · exact fun _ => rfl
  case consistent => exact hcons
  case nodup =>
    show ((change d.id (fun e => { e with refcount := n }) s.list).map Entry.id).Nodup
    rw [change_map]
    · exact h.nodup
    · exact fun _ => rfl
  case old => exact fun name i hi => h.old name i ((hmem name i).mp hi)
  case names =>
    intro name name' i hi hi'
    exact h.names name name' i ((hmem name i).mp hi) ((hmem name' i).mp hi')
  case fresh =>
    intro i hi
    rw [hother i (Nat.ne_of_gt (Nat.lt_of_lt_of_le (hold d hd) hi))]
    exact h.fresh i hi
  case entry =>
    intro c hc
    rcases (mem_change h.nodup hd).mp hc with ⟨hc, hne⟩ | rfl
    · have hC := h.entry c hc
      exact ⟨(hmem _ _).mpr hC.made, hC.refs.trans (hother _ hne).symm, hC.small,
        hC.unlinked.trans (hun' _).symm⟩
    · have hD := h.entry d hd
      exact ⟨(hmem _ _).mpr hD.made, hrefs.symm, hsmall, hD.unlinked.trans (hun' _).symm⟩
  case alive =>
    intro c hc hu
    rcases (mem_change h.nodup hd).mp hc with ⟨hc, -⟩ | rfl
    · exact .inl ((h.alive c hc hu).resolve_right fun hx => by cases hx)
    · exact halive hu
  case current =>
    intro name i hi
    rw [hcur] at hi
    obtain ⟨c, hc, hname, hid, hu⟩ := h.current name i hi
    by_cases hcd : c.id = d.id
    · obtain rfl := List.inj_on_of_nodup_map h.nodup hc hd hcd
      exact ⟨_, (mem_change h.nodup hd).mpr (.inr rfl), hname, hid, hu⟩
    · exact ⟨c, (mem_change h.nodup hd).mpr (.inl ⟨hc, hcd⟩), hname, hid, hu⟩
  case first =>
    intro c hc hu
    show (change d.id _ s.list).find? _ = _ ∧ cur (e :: s.log) c.name = _
    rw [find_change, hcur]
    rotate_left
    · exact fun _ => rfl
    rcases (mem_change h.nodup hd).mp hc with ⟨hc, hne⟩ | rfl
    · obtain ⟨hfind, hcur⟩ := h.first c hc hu
      rw [hfind, Option.map_some, if_neg hne]
      exact ⟨rfl, hcur⟩
    · obtain ⟨hfind, hcur⟩ := h.first d hd hu
      rw [hfind, Option.map_some, if_pos rfl]
      exact ⟨rfl, hcur⟩
  case freed =>
    intro i hi hno
    have hne : i ≠ d.id := fun he =>
      hno _ ((mem_change h.nodup hd).mpr (.inr rfl)) he.symm
    rw [hun', hother i hne]
    refine h.freed i hi fun c hc hci => ?_
    exact hno c ((mem_change h.nodup hd).mpr (.inl ⟨hc, by rw [hci]; exact hne⟩)) hci

/-- An unlinked object that nobody has open leaves the list. -/
theorem remove {d : Entry} (h : NamedInv (some d.id) s) (hd : d ∈ s.list)
    (hu : d.unlinked = true) (h0 : d.refcount = 0) : NamedInv none (s.remove d) := by
  have hmem : ∀ c, c ∈ posixDelete d.id s.list ↔ c ∈ s.list ∧ c.id ≠ d.id := fun c =>
    mem_posixDelete h.nodup
  have hperm := posixDelete_perm hd h.nodup
  constructor
  case lock => exact h.lock
  case held =>
    have hp := (h.held.trans (hperm.map Entry.addr)).erase d.addr
    rw [List.map_cons, List.erase_cons_head] at hp
    exact hp
  case consistent => exact h.consistent
  case nodup =>
    have hnd := (hperm.map Entry.id).nodup_iff.mp h.nodup
    exact (List.nodup_cons.mp hnd).2
  case old => exact h.old
  case names => exact h.names
  case fresh => exact h.fresh
  case entry => exact fun c hc => h.entry c ((hmem c).mp hc).1
  case alive =>
    intro c hc hcu
    obtain ⟨hc, hne⟩ := (hmem c).mp hc
    exact .inl ((h.alive c hc hcu).resolve_right fun hx => hne (Option.some.inj hx).symm)
  case current =>
    intro name i hi
    obtain ⟨c, hc, hname, hid, hcu⟩ := h.current name i hi
    refine ⟨c, (hmem c).mpr ⟨hc, fun hcd => ?_⟩, hname, hid, hcu⟩
    obtain rfl := List.inj_on_of_nodup_map h.nodup hc hd hcd
    rw [hu] at hcu
    cases hcu
  case first =>
    intro c hc hcu
    obtain ⟨hc, hne⟩ := (hmem c).mp hc
    obtain ⟨hfind, hcur⟩ := h.first c hc hcu
    exact ⟨find_posixDelete hfind hne, hcur⟩
  case freed =>
    intro i hi hno
    by_cases hid : i = d.id
    · subst hid
      have hD := h.entry d hd
      exact ⟨hD.unlinked.mp hu, hD.refs.symm.trans h0⟩
    · exact h.freed i hi fun c hc hci => hno c ((hmem c).mpr ⟨hc, hci ▸ hid⟩) hci

/-- A name that no object has is unlinked. -/
theorem unlinkNone (h : NamedInv none s) (hn : ∀ e ∈ s.list, e.name ≠ name) :
    NamedInv none { s with log := .unlinked name :: s.log } := by
  have hcur : ∀ n, cur (.unlinked name :: s.log) n = cur s.log n := fun n => by
    rw [cur]
    split
    · next hnn =>
      by_contra hne
      obtain ⟨i, hi⟩ := Option.ne_none_iff_exists'.mp (Ne.symm hne)
      obtain ⟨e, he, hname, -⟩ := h.current n i hi
      exact hn e he (hname.trans hnn.symm)
    · rfl
  have hmem : ∀ n i, .made n i ∈ Event.unlinked name :: s.log ↔ .made n i ∈ s.log := fun n i => by
    simp
  -- the objects of the name are gone
  have hun : ∀ e ∈ s.list, Unlinked (.unlinked name :: s.log) e.id ↔ Unlinked s.log e.id := by
    intro e he
    rw [unlinked_cons]
    refine ⟨fun hu => hu.elim id ?_, .inl⟩
    rintro ⟨n, heq, hmade⟩
    cases heq
    exact absurd (h.names _ _ _ (h.entry e he).made hmade) (hn e he)
  refine { h with
    consistent := h.consistent, old := fun n i hi => h.old n i ((hmem n i).mp hi)
    names := fun n n' i hi hi' => h.names n n' i ((hmem n i).mp hi) ((hmem n' i).mp hi')
    fresh := h.fresh, entry := fun e he => ?_, current := fun n i hi => ?_, first := fun e he hu => ?_
    freed := fun i hi hno => ?_ }
  · have hE := h.entry e he
    exact ⟨(hmem _ _).mpr hE.made, hE.refs, hE.small, hE.unlinked.trans (hun e he).symm⟩
  · exact h.current n i ((hcur n).symm.trans hi)
  · obtain ⟨hfind, hc⟩ := h.first e he hu
    exact ⟨hfind, (hcur _).trans hc⟩
  · obtain ⟨hu, hr⟩ := h.freed i hi hno
    exact ⟨unlinked_cons.mpr (.inl hu), hr⟩

/-- The newest object of a name is unlinked. -/
theorem unlinkSome {x : Option Nat} {d : Entry} (h : NamedInv none s)
    (hfind : s.list.find? (fun e => e.name = name) = some d)
    (halive : 0 < d.refcount ∨ x = some d.id) :
    NamedInv x { s with
      list := change d.id (fun e => { e with unlinked := true }) s.list
      log := .unlinked name :: s.log } := by
  have hd := List.mem_of_find?_eq_some hfind
  have hdn : d.name = name := by simpa using List.find?_some hfind
  have hmem : ∀ n i, .made n i ∈ Event.unlinked name :: s.log ↔ .made n i ∈ s.log := fun n i => by
    simp
  -- every other object of the name is unlinked already
  have hother : ∀ c ∈ s.list, c.name = name → c.id ≠ d.id → c.unlinked = true := by
    intro c hc hcn hne
    by_contra hcu
    have hf := (h.first c hc (Bool.not_eq_true _ ▸ hcu)).1
    rw [hcn, hfind] at hf
    exact hne (congrArg Entry.id (Option.some.inj hf)).symm
  have hun : ∀ c ∈ s.list, Unlinked (.unlinked name :: s.log) c.id ↔
      Unlinked s.log c.id ∨ c.name = name := by
    intro c hc
    rw [unlinked_cons]
    refine or_congr_right ⟨?_, fun hcn => ⟨name, rfl, hcn ▸ (h.entry c hc).made⟩⟩
    rintro ⟨n, heq, hmade⟩
    cases heq
    exact h.names _ _ _ (h.entry c hc).made hmade
  constructor
  case lock => exact h.lock
  case held =>
    show s.held.Perm ((change d.id (fun e => { e with unlinked := true }) s.list).map Entry.addr)
    rw [change_map]
    · exact h.held
    · exact fun _ => rfl
  case consistent => exact h.consistent
  case nodup =>
    show ((change d.id (fun e => { e with unlinked := true }) s.list).map Entry.id).Nodup
    rw [change_map]
    · exact h.nodup
    · exact fun _ => rfl
  case old => exact fun n i hi => h.old n i ((hmem n i).mp hi)
  case names =>
    intro n n' i hi hi'
    exact h.names n n' i ((hmem n i).mp hi) ((hmem n' i).mp hi')
  case fresh => exact h.fresh
  case entry =>
    intro c hc
    rcases (mem_change h.nodup hd).mp hc with ⟨hc, hne⟩ | rfl
    · have hC := h.entry c hc
      refine ⟨(hmem _ _).mpr hC.made, hC.refs, hC.small, ?_⟩
      rw [hun c hc, hC.unlinked]
      exact ⟨.inl, fun hor => hor.elim id fun hcn => hC.unlinked.mp (hother c hc hcn hne)⟩
    · have hD := h.entry d hd
      exact ⟨(hmem _ _).mpr hD.made, hD.refs, hD.small,
        ⟨fun _ => (hun d hd).mpr (.inr hdn), fun _ => rfl⟩⟩
  case alive =>
    intro c hc hcu
    rcases (mem_change h.nodup hd).mp hc with ⟨hc, -⟩ | rfl
    · exact .inl ((h.alive c hc hcu).resolve_right fun hx => by cases hx)
    · exact halive
  case current =>
    intro n i hi
    rw [cur] at hi
    split at hi
    · cases hi
    · next hnn =>
      obtain ⟨c, hc, hcn, hid, hcu⟩ := h.current n i hi
      refine ⟨c, (mem_change h.nodup hd).mpr (.inl ⟨hc, fun hcd => hnn ?_⟩), hcn, hid, hcu⟩
      obtain rfl := List.inj_on_of_nodup_map h.nodup hc hd hcd
      exact hdn.symm.trans hcn
  case first =>
    intro c hc hcu
    rcases (mem_change h.nodup hd).mp hc with ⟨hc, hne⟩ | rfl
    · obtain ⟨hf, hcur⟩ := h.first c hc hcu
      have hcn : name ≠ c.name := fun hcn => by
        rw [hother c hc hcn.symm hne] at hcu
        cases hcu
      refine ⟨?_, (if_neg hcn).trans hcur⟩
      show (change d.id _ s.list).find? _ = _
      rw [find_change, hf, Option.map_some, if_neg hne]
      exact fun _ => rfl
    · cases hcu
  case freed =>
    intro i hi hno
    have hne : i ≠ d.id := fun he => hno _ ((mem_change h.nodup hd).mpr (.inr rfl)) he.symm
    obtain ⟨hu, hr⟩ := h.freed i hi fun c hc hci =>
      hno c ((mem_change h.nodup hd).mpr (.inl ⟨hc, by rw [hci]; exact hne⟩)) hci
    exact ⟨unlinked_cons.mpr (.inl hu), hr⟩

theorem posixOpen {creat excl : Bool} {m : Alloc} (h : NamedInv none s)
    (hc : Plain k s (.open name creat excl m)) :
    NamedInv none (s.posixOpen k name creat excl m).1 := by
  obtain ⟨hsees, hnew, hfound⟩ := hc
  have hsees' : posixFind k name s.list = s.list.find? fun e => e.name = name := hsees
  have hlock : s.lock - 1 + 1 = s.lock := by rw [h.lock]
  cases hr : (s.posixOpen k name creat excl m).2 with
  | error r =>
    have ht : (s.posixOpen k name creat excl m).1 = s :=
      posixOpen_fails (by rw [h.lock]; exact Nat.one_pos) (Prod.ext rfl hr)
    rw [ht]
    exact h
  | ok i =>
    unfold NamedSys.posixOpen at hr ⊢
    simp only at hr ⊢
    split at hr
    · next hcreat =>
      rw [if_pos hcreat]
      split at hr
      · cases hr
      · next hex =>
        rw [if_neg hex]
        cases m with
        | noStruct => cases hr
        | noObject a => cases hr
        | both a o =>
          unfold NamedSys.create NamedSys.release
          simp only [hlock]
          refine h.make fun e he hen => ?_
          cases hx : excl with
          | false => exact hnew hcreat hx e he hen
          | true =>
            -- the search found nothing
            exfalso
            have hnone : posixFind k name s.list = none := by
              by_contra hne
              exact hex ⟨hx, Option.isSome_iff_ne_none.mpr hne⟩
            rw [hsees', List.find?_eq_none] at hnone
            exact hnone e he (decide_eq_true hen)
    · next hcreat =>
      rw [if_neg hcreat]
      cases hf : posixFind k name s.list with
      | none =>
        rw [hf] at hr
        cases hr
      | some d =>
        have hfind : s.list.find? (fun e => e.name = name) = some d := hsees'.symm.trans hf
        have hd := List.mem_of_find?_eq_some hfind
        have hdn : d.name = name := by simpa using List.find?_some hfind
        obtain ⟨hu, hlt⟩ := hfound (Bool.not_eq_true _ ▸ hcreat) d hf
        have hcur := (h.first d hd hu).2
        have hD := h.entry d hd
        have hmod : (d.refcount + 1) % 65536 = d.refcount + 1 := Nat.mod_eq_of_lt (by omega)
        have hchange : change d.id (fun e => { e with refcount := (e.refcount + 1) % 65536 }) s.list =
            change d.id (fun e => { e with refcount := d.refcount + 1 }) s.list := by
          refine List.map_congr_left fun c hc => ?_
          split
          · next hcd =>
            obtain rfl := List.inj_on_of_nodup_map h.nodup hc hd hcd
            simp only [hmod]
          · rfl
        unfold NamedSys.reopen NamedSys.release
        simp only [hlock, hchange]
        refine h.recount hd ⟨hdn ▸ hcur, h.consistent⟩ (fun n => ?_) (by simp) (by simp) ?_
          (fun i hi => ?_) (by omega) fun hdu => ?_
        · rw [cur]
          split
          · next hnn => exact (hnn ▸ hdn ▸ hcur).symm
          · rfl
        · rw [refs, if_pos rfl, hD.refs]
        · rw [refs, if_neg (Ne.symm hi)]
          rfl
        · rw [hu] at hdu
          cases hdu

theorem posixClose {d : Entry} (h : NamedInv none s) (hd : d ∈ s.list) (hr : 0 < refs s.log d.id) :
    NamedInv none (s.posixClose d) := by
  have hlock : s.lock - 1 + 1 = s.lock := by rw [h.lock]
  have hD := h.entry d hd
  have hsmall := hD.small
  have hrc := hD.refs
  have hn : (d.refcount + 65535) % 65536 = d.refcount - 1 := by omega
  have hrefs : refs (.closed d.id :: s.log) d.id = d.refcount - 1 := by
    rw [refs, if_pos rfl, hD.refs]
  have hinv : ∀ x : Option Nat, (d.unlinked = true → 0 < d.refcount - 1 ∨ x = some d.id) →
      NamedInv x { s with
        list := change d.id (fun e => { e with refcount := d.refcount - 1 }) s.list
        log := .closed d.id :: s.log } := fun x hx =>
    h.recount hd h.consistent (fun _ => rfl) (by simp) (by simp) hrefs (fun i hi => by
      rw [refs, if_neg (Ne.symm hi)]
      rfl) (by omega) hx
  unfold NamedSys.posixClose
  simp only [hn]
  split
  · next hz =>
    have hi := (hinv (some d.id) fun _ => .inr rfl).remove (d := { d with refcount := d.refcount - 1 })
      ((mem_change h.nodup hd).mpr (.inr rfl)) hz.2 hz.1
    unfold NamedSys.remove NamedSys.free at hi ⊢
    unfold NamedSys.release
    simp only [hlock]
    exact hi
  · next hz =>
    unfold NamedSys.release
    simp only [hlock]
    refine hinv none fun hu => .inl (Nat.pos_of_ne_zero fun h0 => hz ⟨h0, hu⟩)

theorem posixUnlink (h : NamedInv none s) (hsees : Sees k s name) :
    NamedInv none (s.posixUnlink k name).1 := by
  have hsees' : posixFind k name s.list = s.list.find? fun e => e.name = name := hsees
  have hlock : s.lock - 1 + 1 = s.lock := by rw [h.lock]
  unfold NamedSys.posixUnlink
  simp only
  cases hf : posixFind k name s.list with
  | none =>
    rw [hsees', List.find?_eq_none] at hf
    unfold NamedSys.release
    simp only [hlock]
    exact h.unlinkNone fun e he hen => hf e he (decide_eq_true hen)
  | some d =>
    have hfind : s.list.find? (fun e => e.name = name) = some d := hsees'.symm.trans hf
    have hd := List.mem_of_find?_eq_some hfind
    simp only
    split
    · next h0 =>
      have hi := (h.unlinkSome hfind (.inr rfl)).remove (d := { d with unlinked := true })
        ((mem_change h.nodup hd).mpr (.inr rfl)) rfl h0
      unfold NamedSys.remove NamedSys.free at hi ⊢
      unfold NamedSys.release
      simp only [hlock]
      exact hi
    · next h0 =>
      unfold NamedSys.release
      simp only [hlock]
      exact h.unlinkSome hfind (.inl (Nat.pos_of_ne_zero h0))

theorem step {act : NamedAct} (h : NamedInv none s) (hc : Plain k s act)
    (hs : namedStep k s act = some t) : NamedInv none t := by
  cases act with
  | «open» name creat excl m =>
    simp only [namedStep] at hs
    split at hs <;> cases hs
    exact h.posixOpen hc
  | close i =>
    simp only [namedStep] at hs
    split at hs
    · next hr =>
      obtain ⟨d, hd, rfl⟩ := Option.map_eq_some_iff.mp hs
      have hid : d.id = i := by simpa using List.find?_some hd
      exact h.posixClose (List.mem_of_find?_eq_some hd) (hid ▸ hr.2)
    · cases hs
  | unlink name =>
    simp only [namedStep] at hs
    split at hs <;> cases hs
    exact h.posixUnlink hc

end NamedInv

/-- **When named objects are what they are for.** In every run whose calls are plain. -/
theorem named_ok (k : Kind) (acts : List NamedAct) (s : NamedSys)
    (hx : exec (namedStep k) namedInit acts = some s)
    (hc : Along (namedStep k) (Plain k) namedInit acts) : NamedOk s :=
  (Along.inv (I := NamedInv none) (fun _ _ _ h hr hs => h.step hr hs) hc hx namedInit_inv).ok

/-- A queue is made, opened again, unlinked and closed twice; its name is used again. -/
def plainRun : List NamedAct :=
  [.open [97] true false (.both 100 200), .open [97] false false .noStruct, .unlink [97], .close 0,
    .open [97] true true .noStruct, .close 0, .open [97] true true (.both 100 200)]

theorem named_ok_plainRun : ∃ s, exec (namedStep .mq) namedInit plainRun = some s ∧
    s.list.map Entry.id = [1] ∧ NamedOk s := by
  have hx : (exec (namedStep .mq) namedInit plainRun).map (fun s => s.list.map Entry.id) =
      some [1] := by decide
  obtain ⟨s, hs, hl⟩ := Option.map_eq_some_iff.mp hx
  exact ⟨s, hs, hl, named_ok .mq plainRun s hs (by decide)⟩

/-- Two opens with `O_CREAT` make two queues of one name. -/
theorem twice_made : ¬ ∀ k acts s, exec (namedStep k) namedInit acts = some s → NamedOk s := by
  intro h
  have hx : (exec (namedStep .mq) namedInit
      [.open [97] true false (.both 100 200), .open [97] true false (.both 300 400)]).map
        NamedSys.log = some [.made [97] 1, .made [97] 0] := by decide
  obtain ⟨s, hs, hl⟩ := Option.map_eq_some_iff.mp hx
  have hsame := (h .mq _ s hs).same [] [] [] _ _ [97] 1 0 hl (.inl rfl) (.inl rfl) List.not_mem_nil
  cases hsame

end Tudu.Pthread
