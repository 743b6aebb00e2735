import TuduOS.Kernel.Def
import TuduOS.Lib.Lts

/-!
# Channels by name

`bin_channel_open` and `bin_channel_close`, with the descriptors of `dfs.c` that they use.

* A thread uses the table of descriptors of its process (`dfs_fdtable_get`, with `RT_USING_LWP`);
  the kernel's threads have one of their own. A table is the list of its slots.
* The channel objects are named by their address, in the order of the object list.
* What `rt_malloc`, `rt_realloc` and `rt_calloc` answer is part of the action. `rt_malloc` returns
  no object in use.
* A call that reads through a null pointer, or fails an assertion, has no next state.

The search for the descriptor of a channel looks at the caller's table only, and reads each slot up
to the one it looks for: `fdSearch`.
-/

namespace Tudu.ChannelOpen

open Lts

def rtNameMax : Nat := 8

/-- `DFS_FD_OFFSET` -/
def dfsFdOffset : Int := 3

/-- `rt_strncmp`, of two strings without their final 0 -/
def rtStrncmp : Nat → List UInt8 → List UInt8 → UInt8
  | 0, _, _ => 0
  | count + 1, cs, ct =>
    let res := cs.headD 0 - ct.headD 0
    if res ≠ 0 ∨ cs.headD 0 = 0 then res else rtStrncmp count cs.tail ct.tail

theorem rtStrncmp_succ_eq {n : Nat} {a b : List UInt8} : rtStrncmp (n + 1) a b = 0 ↔
    a.headD 0 = b.headD 0 ∧ (a.headD 0 = 0 ∨ rtStrncmp n a.tail b.tail = 0) := by
  simp only [rtStrncmp]
  generalize a.headD 0 = x
  generalize b.headD 0 = y
  by_cases hxy : x = y
  · subst hxy
    rw [UInt8.sub_self]
    by_cases hz : x = 0 <;> simp [hz]
  · have hd : x - y ≠ 0 := fun h => hxy (by
      have := congrArg (fun z => z + y) h
      simpa [UInt8.sub_add_cancel] using this)
    simp [hd, hxy]

/-- `struct dfs_fd`: `data` is the channel, or `none` for any other file. -/
structure DfsFd where
  refCount : Nat
  data : Option Nat
  deriving DecidableEq

structure State where
  objects : List Nat
  name : Nat → List UInt8
  fds : Nat → List (Option DfsFd)

def State.setTable (s : State) (p : Nat) (l : List (Option DfsFd)) : State :=
  { s with fds := Function.update s.fds p l }

/-- The loop over the table in `bin_channel_open`. -/
inductive Search where
  | found (fd : Nat)
  | missing
  /-- `d->data` of an empty slot -/
  | nullRead
  deriving DecidableEq

def fdSearch (channel : Nat) : List (Option DfsFd) → Nat → Search
  | [], _ => .missing
  | none :: _, _ => .nullRead
  | some d :: l, fd => if d.data = some channel then .found fd else fdSearch channel l (fd + 1)

def slotFree : Option DfsFd → Bool
  | none => true
  | some d => decide (d.refCount = 0)

/-- The part of `fd_alloc` that makes the table larger -/
def growTable (fdMax : Nat) (l : List (Option DfsFd)) : List (Option DfsFd) :=
  l ++ List.replicate (min (l.length + 4) fdMax - l.length) none

/-- `fd_new`: the table, and the slot unless there is none. -/
def fdNew (fdMax : Nat) (l : List (Option DfsFd)) (realloc calloc : Bool) :
    List (Option DfsFd) × Option Nat :=
  let idx := l.findIdx slotFree
  if idx = l.length ∧ ¬ (l.length < fdMax ∧ realloc) then (l, none)
  else
    let l := if idx = l.length then growTable fdMax l else l
    match l[idx]? with
    | some (some d) => (l.set idx (some { d with refCount := 1 }), some idx)
    | some none => if calloc then (l.set idx (some ⟨1, none⟩), some idx) else (l, none)
    | none => (l, none)

/-- `rt_object_allocate`, and `fd_new` for the new channel -/
def openNew (fdMax : Nat) (s : State) (p : Nat) (name : List UInt8) (object : Option Nat)
    (realloc calloc : Bool) : Int × State :=
  match object with
  | none => (-rtError, s)
  | some channel =>
    let s := { s with
      objects := channel :: s.objects
      name := Function.update s.name channel (name.take rtNameMax) }
    match fdNew fdMax (s.fds p) realloc calloc with
    | (l, none) => (-1, s.setTable p l)
    | (l, some fd) => (fd + dfsFdOffset, s.setTable p (l.set fd (some ⟨1, some channel⟩)))

/-- The first object of this name -/
def findChannel (s : State) (name : List UInt8) : Option Nat :=
  s.objects.find? fun channel => decide (rtStrncmp rtNameMax (s.name channel) name = 0)

def refInc (l : List (Option DfsFd)) (fd : Nat) : List (Option DfsFd) :=
  l.modify fd (Option.map fun d => { d with refCount := d.refCount + 1 })

def binChannelOpen (fdMax : Nat) (s : State) (p : Nat) (name : List UInt8) (object : Option Nat)
    (realloc calloc : Bool) : Option (Int × State) :=
  match findChannel s name with
  | none => some (openNew fdMax s p name object realloc calloc)
  | some channel =>
    match fdSearch channel (s.fds p) 0 with
    | .found fd => some (fd + dfsFdOffset, s.setTable p (refInc (s.fds p) fd))
    | .missing => some (openNew fdMax s p name object realloc calloc)
    | .nullRead => none

/-- `bin_channel_close`; `fd`: without `DFS_FD_OFFSET` -/
def binChannelClose (s : State) (p fd : Nat) : Option State :=
  match (s.fds p)[fd]? with
  | some (some ⟨1, some channel⟩) =>
    if channel ∈ s.objects then
      some { s.setTable p ((s.fds p).set fd none) with objects := s.objects.erase channel }
    else none
  | some (some ⟨refCount + 2, data⟩) =>
    some (s.setTable p ((s.fds p).set fd (some ⟨refCount + 1, data⟩)))
  | _ => none

inductive Act where
  | open (p : Nat) (name : List UInt8) (object : Option Nat) (realloc calloc : Bool)
  | close (p fd : Nat)
  deriving DecidableEq

def step (fdMax : Nat) (s : State) : Act → Option State
  | .open p name object realloc calloc =>
    if ∃ channel ∈ s.objects, object = some channel then none
    else (binChannelOpen fdMax s p name object realloc calloc).map fun r => r.2
  | .close p fd => binChannelClose s p fd

/-- Tables of other files, no channel. -/
def State.init (files : Nat → List (Option Nat)) : State where
  objects := []
  name _ := []
  fds p := (files p).map (Option.map fun refCount => ⟨refCount, none⟩)

/-- The slot `fd` of the table `p` is a descriptor of the channel. -/
def Refers (s : State) (p fd channel : Nat) : Prop :=
  ∃ refCount, (s.fds p)[fd]? = some (some ⟨refCount, some channel⟩)

/-- The objects are those with a descriptor, and no two have one name. -/
structure NamesOk (s : State) : Prop where
  exact : ∀ channel, channel ∈ s.objects ↔ ∃ p fd, Refers s p fd channel
  unique : ∀ c c', c ∈ s.objects → c' ∈ s.objects →
    rtStrncmp rtNameMax (s.name c) (s.name c') = 0 → c = c'

/-- A descriptor of the channel, before any empty slot -/
def Held (channel : Nat) (l : List (Option DfsFd)) : Prop :=
  ∃ l1 d l2, l = l1 ++ some d :: l2 ∧ none ∉ l1 ∧ d.data = some channel

/-- There is room and memory for one more descriptor. -/
def Room (fdMax : Nat) (l : List (Option DfsFd)) (realloc calloc : Bool) : Prop :=
  match l.find? slotFree with
  | some (some _) => True
  | some none => calloc = true
  | none => l.length < fdMax ∧ realloc = true ∧ calloc = true

def Known (s : State) (name : List UInt8) : Prop :=
  ∃ channel ∈ s.objects, rtStrncmp rtNameMax (s.name channel) name = 0

/-- The channel of this name has a descriptor in the caller's table, with no empty slot before it;
or there is no memory for a new object, and no empty slot to read; or the name is new, and there
is room for a descriptor. -/
def OpenOk (fdMax : Nat) (s : State) : Act → Prop
  | .open p name object realloc calloc =>
    (∃ channel ∈ s.objects, rtStrncmp rtNameMax (s.name channel) name = 0 ∧
      Held channel (s.fds p)) ∨
    (object = none ∧ (¬ Known s name ∨ none ∉ s.fds p)) ∨
    (¬ Known s name ∧ Room fdMax (s.fds p) realloc calloc)
  | .close _ _ => True

/-! ## Names -/

section Names

variable {n : Nat} {a b c : List UInt8}

theorem rtStrncmp_symm (h : rtStrncmp n a b = 0) : rtStrncmp n b a = 0 := by
  induction n generalizing a b with
  | zero => rfl
  | succ n ih =>
    obtain ⟨hh, ht⟩ := rtStrncmp_succ_eq.mp h
    refine rtStrncmp_succ_eq.mpr ⟨hh.symm, ht.imp (fun hz => hh.symm.trans hz) ih⟩

theorem rtStrncmp_trans (h1 : rtStrncmp n a b = 0) (h2 : rtStrncmp n b c = 0) :
    rtStrncmp n a c = 0 := by
  induction n generalizing a b c with
  | zero => rfl
  | succ n ih =>
    obtain ⟨hh1, ht1⟩ := rtStrncmp_succ_eq.mp h1
    obtain ⟨hh2, ht2⟩ := rtStrncmp_succ_eq.mp h2
    refine rtStrncmp_succ_eq.mpr ⟨hh1.trans hh2, ?_⟩
    rcases ht1 with hz | ht1
    · exact .inl hz
    · rcases ht2 with hz | ht2
      · exact .inl (hh1.trans hz)
      · exact .inr (ih ht1 ht2)

/-- The name that an object keeps compares like the one that it was made from. -/
theorem rtStrncmp_take (n : Nat) (a : List UInt8) : rtStrncmp n (a.take n) a = 0 := by
  induction n generalizing a with
  | zero => rfl
  | succ n ih =>
    refine rtStrncmp_succ_eq.mpr ?_
    cases a with
    | nil => exact ⟨rfl, .inl rfl⟩
    | cons x a => exact ⟨rfl, .inr (ih a)⟩

end Names

/-! ## Slots -/

variable {fdMax : Nat} {s s' : State} {p q fd i : Nat} {channel c : Nat} {name : List UInt8}
  {object : Option Nat} {realloc calloc : Bool} {l l' : List (Option DfsFd)}

theorem held_cons {d : DfsFd} :
    Held channel (some d :: l) ↔ d.data = some channel ∨ Held channel l := by
  constructor
  · rintro ⟨l1, e, l2, he, hn, hd⟩
    cases l1 with
    | nil =>
      obtain rfl := Option.some.inj (List.cons.inj he).1
      exact .inl hd
    | cons x l1 =>
      exact .inr ⟨l1, e, l2, (List.cons.inj he).2, fun hm => hn (List.mem_cons_of_mem x hm), hd⟩
  · rintro (hd | ⟨l1, e, l2, rfl, hn, hd⟩)
    · exact ⟨[], d, l, rfl, List.not_mem_nil, hd⟩
    · refine ⟨some d :: l1, e, l2, rfl, fun hm => ?_, hd⟩
      rcases List.mem_cons.mp hm with hm | hm
      · cases hm
      · exact hn hm

theorem not_held_none : ¬ Held channel (none :: l) := by
  rintro ⟨l1, e, l2, he, hn, -⟩
  cases l1 with
  | nil => cases (List.cons.inj he).1
  | cons x l1 => exact hn (by rw [← (List.cons.inj he).1]; exact List.mem_cons_self)

/-- The search finds the first descriptor of the channel, and reads nothing behind it. -/
theorem fdSearch_found {k : Nat} (h : fdSearch channel l k = .found i) : Held channel l ∧
    ∃ j refCount, i = k + j ∧ l[j]? = some (some ⟨refCount, some channel⟩) := by
  induction l generalizing k with
  | nil => cases h
  | cons x l ih =>
    cases x with
    | none => cases h
    | some d =>
      rw [fdSearch] at h
      split at h
      · next hd =>
        obtain ⟨refCount, data⟩ := d
        refine ⟨held_cons.mpr (.inl hd), 0, refCount, (Search.found.inj h).symm, ?_⟩
        rw [List.getElem?_cons_zero, ← hd]
      · obtain ⟨hl, j, refCount, hi, hj⟩ := ih h
        exact ⟨held_cons.mpr (.inr hl), j + 1, refCount, by omega, hj⟩

theorem fdSearch_missing {k : Nat} (h : fdSearch channel l k = .missing) :
    none ∉ l ∧ ¬ Held channel l := by
  induction l generalizing k with
  | nil =>
    refine ⟨List.not_mem_nil, ?_⟩
    rintro ⟨l1, d, l2, he, -, -⟩
    exact List.append_ne_nil_of_right_ne_nil l1 (List.cons_ne_nil _ _) he.symm
  | cons x l ih =>
    cases x with
    | none => cases h
    | some d =>
      rw [fdSearch] at h
      split at h
      · cases h
      · next hd =>
        obtain ⟨hn, hl⟩ := ih h
        refine ⟨fun hm => ?_, fun hh => (held_cons.mp hh).elim hd hl⟩
        rcases List.mem_cons.mp hm with hm | hm
        · cases hm
        · exact hn hm

theorem fdSearch_nullRead {k : Nat} (h : fdSearch channel l k = .nullRead) :
    none ∈ l ∧ ¬ Held channel l := by
  induction l generalizing k with
  | nil => cases h
  | cons x l ih =>
    cases x with
    | none => exact ⟨List.mem_cons_self, not_held_none⟩
    | some d =>
      rw [fdSearch] at h
      split at h
      · cases h
      · next hd =>
        obtain ⟨hn, hl⟩ := ih h
        exact ⟨List.mem_cons_of_mem _ hn, fun hh => (held_cons.mp hh).elim hd hl⟩

theorem getElem?_growTable {d : DfsFd} :
    (growTable fdMax l)[i]? = some (some d) ↔ l[i]? = some (some d) := by
  rw [growTable]
  rcases Nat.lt_or_ge i l.length with hi | hi
  · rw [List.getElem?_append_left hi]
  · rw [List.getElem?_append_right hi, List.getElem?_eq_none hi]
    constructor
    · intro h
      have hm := List.mem_of_getElem? h
      cases List.eq_of_mem_replicate hm
    · intro h
      cases h

/-- `fd_new` takes a slot that is no descriptor, and changes no other one. -/
theorem fdNew_some (h : fdNew fdMax l realloc calloc = (l', some fd)) : fd < l'.length ∧
    (∀ i d, i ≠ fd → (l'[i]? = some (some d) ↔ l[i]? = some (some d))) ∧
    ∀ d, l[fd]? = some (some d) → d.refCount = 0 := by
  have hfree : ∀ d, l[l.findIdx slotFree]? = some (some d) → d.refCount = 0 := fun d hd => by
    obtain ⟨hlt, he⟩ := List.getElem?_eq_some_iff.mp hd
    have hs := List.findIdx_getElem (w := hlt)
    rw [he] at hs
    simpa [slotFree] using hs
  simp only [fdNew] at h
  split at h
  · cases (Prod.mk.inj h).2
  · generalize hg : (if l.findIdx slotFree = l.length then growTable fdMax l else l) = g at h
    have hge : ∀ i d, g[i]? = some (some d) ↔ l[i]? = some (some d) := fun i d => by
      rw [← hg]
      split
      · exact getElem?_growTable
      · exact Iff.rfl
    have hset : ∀ v : Option DfsFd, (g.set (l.findIdx slotFree) v, some (l.findIdx slotFree)) =
        (l', some fd) → l.findIdx slotFree < g.length → fd < l'.length ∧
        (∀ i d, i ≠ fd → (l'[i]? = some (some d) ↔ l[i]? = some (some d))) ∧
        ∀ d, l[fd]? = some (some d) → d.refCount = 0 := fun v hv hlt => by
      obtain ⟨rfl, hfd⟩ := Prod.mk.inj hv
      obtain rfl := Option.some.inj hfd
      refine ⟨by simpa using hlt, fun i d hi => ?_, hfree⟩
      rw [List.getElem?_set_ne (Ne.symm hi)]
      exact hge i d
    split at h
    · next d hd => exact hset _ h (List.getElem?_eq_some_iff.mp hd).1
    · next hd =>
      split at h
      · exact hset _ h (List.getElem?_eq_some_iff.mp hd).1
      · cases (Prod.mk.inj h).2
    · cases (Prod.mk.inj h).2

/-- If there is no slot, the descriptors are as before. -/
theorem fdNew_none (h : fdNew fdMax l realloc calloc = (l', none)) (i : Nat) (d : DfsFd) :
    l'[i]? = some (some d) ↔ l[i]? = some (some d) := by
  simp only [fdNew] at h
  split at h
  · rw [← (Prod.mk.inj h).1]
  · generalize hg : (if l.findIdx slotFree = l.length then growTable fdMax l else l) = g at h
    have hge : g[i]? = some (some d) ↔ l[i]? = some (some d) := by
      rw [← hg]
      split
      · exact getElem?_growTable
      · exact Iff.rfl
    split at h
    · cases (Prod.mk.inj h).2
    · split at h
      · cases (Prod.mk.inj h).2
      · rw [← (Prod.mk.inj h).1]
        exact hge
    · rw [← (Prod.mk.inj h).1]
      exact hge

theorem fdNew_snd_ne_none :
    (fdNew fdMax l realloc calloc).2 ≠ none ↔ Room fdMax l realloc calloc := by
  have hf : l.find? slotFree = l[l.findIdx slotFree]? := List.find?_eq_getElem?_findIdx
  simp only [fdNew, Room]
  rcases Nat.lt_or_ge (l.findIdx slotFree) l.length with hlt | hge
  · have hne : l.findIdx slotFree ≠ l.length := Nat.ne_of_lt hlt
    simp only [hne, false_and, if_false]
    rw [hf, List.getElem?_eq_getElem hlt]
    cases hx : l[l.findIdx slotFree] with
    | none => cases calloc <;> simp
    | some d => simp
  · have he : l.findIdx slotFree = l.length := Nat.le_antisymm List.findIdx_le_length hge
    rw [hf, he, List.getElem?_eq_none (Nat.le_refl _)]
    by_cases hroom : l.length < fdMax ∧ realloc
    · have hg : (growTable fdMax l)[l.length]? = some none := by
        rw [growTable, List.getElem?_append_right (Nat.le_refl _), List.getElem?_replicate,
          if_pos (by omega)]
      simp only [hroom, not_true, and_false, if_false, if_true, hg, true_and]
      cases calloc <;> simp
    · rw [if_pos ⟨rfl, hroom⟩]
      simp only [ne_eq, not_true, false_iff]
      exact fun ⟨h1, h2, _⟩ => hroom ⟨h1, h2⟩

theorem refers_setTable : Refers (s.setTable p l) q i c ↔
    if q = p then ∃ refCount, l[i]? = some (some ⟨refCount, some c⟩) else Refers s q i c := by
  simp only [Refers, State.setTable, Function.update_apply]
  by_cases hq : q = p <;> simp [hq]

/-- A slot that is set. -/
theorem refers_set (fd : Nat) (hl : l = s.fds p) (d : Option DfsFd) :
    Refers (s.setTable p (l.set fd d)) q i c ↔
    if q = p ∧ i = fd then i < l.length ∧ ∃ refCount, d = some ⟨refCount, some c⟩
    else Refers s q i c := by
  rw [refers_setTable]
  by_cases hq : q = p
  · subst hq
    by_cases hi : i = fd
    · subst hi
      simp only [if_true, and_self, List.getElem?_set, if_true]
      by_cases hlt : i < l.length <;> simp [hlt]
    · simp only [if_true, hi, and_false, if_false, List.getElem?_set_ne (Ne.symm hi), Refers, hl]
  · simp only [hq, if_false, false_and]

theorem getElem?_refInc : (∃ refCount, (refInc l fd)[i]? = some (some ⟨refCount, some c⟩)) ↔
    ∃ refCount, l[i]? = some (some ⟨refCount, some c⟩) := by
  rw [refInc, List.getElem?_modify]
  by_cases hi : fd = i
  · subst hi
    simp only [if_true]
    cases l[fd]? with
    | none => simp
    | some x =>
      cases x with
      | none => simp
      | some d =>
        obtain ⟨refCount, data⟩ := d
        simp
  · simp [hi]

theorem refers_refInc : Refers (s.setTable p (refInc (s.fds p) fd)) q i c ↔ Refers s q i c := by
  rw [refers_setTable]
  by_cases hq : q = p
  · subst hq
    rw [if_pos rfl, getElem?_refInc]
    rfl
  · rw [if_neg hq]

/-! ## The invariant -/

/-- Each object has one descriptor, each descriptor an object, and no two objects have one name. -/
structure NamesInv (s : State) : Prop where
  refs : ∀ p fd c, Refers s p fd c → c ∈ s.objects
  objs : ∀ c, c ∈ s.objects → ∃ p fd, Refers s p fd c
  one : ∀ p fd q i c, Refers s p fd c → Refers s q i c → p = q ∧ fd = i
  used : ∀ (p fd c : Nat), (s.fds p)[fd]? ≠ some (some ⟨0, some c⟩)
  nodup : s.objects.Nodup
  unique : ∀ c c', c ∈ s.objects → c' ∈ s.objects →
    rtStrncmp rtNameMax (s.name c) (s.name c') = 0 → c = c'

theorem NamesInv.namesOk (h : NamesInv s) : NamesOk s :=
  ⟨fun c => ⟨h.objs c, fun ⟨p, fd, hr⟩ => h.refs p fd c hr⟩, h.unique⟩

theorem findChannel_none (h : findChannel s name = none) (hc : c ∈ s.objects) :
    rtStrncmp rtNameMax (s.name c) name ≠ 0 := by
  have := List.find?_eq_none.mp h c hc
  simpa using this

theorem findChannel_some (h : findChannel s name = some c) :
    c ∈ s.objects ∧ rtStrncmp rtNameMax (s.name c) name = 0 :=
  ⟨List.mem_of_find?_eq_some h, by simpa using List.find?_some h⟩

/-- The state with a new object. -/
def withObject (s : State) (channel : Nat) (name : List UInt8) : State :=
  { s with
    objects := channel :: s.objects
    name := Function.update s.name channel (name.take rtNameMax) }

/-- The descriptor of a new object. -/
theorem refers_new (channel : Nat) (name : List UInt8)
    (hf : fdNew fdMax (s.fds p) realloc calloc = (l, some fd)) {d : DfsFd} :
    (((withObject s channel name).setTable p (l.set fd (some ⟨1, some channel⟩))).fds q)[i]? =
      some (some d) ↔
    if q = p ∧ i = fd then d = ⟨1, some channel⟩ else (s.fds q)[i]? = some (some d) := by
  obtain ⟨hlt, hother, -⟩ := fdNew_some hf
  simp only [withObject, State.setTable, Function.update_apply]
  by_cases hq : q = p
  · subst hq
    by_cases hi : i = fd
    · subst hi
      simp [hlt, eq_comm]
    · simp only [if_true, hi, and_false, if_false, List.getElem?_set_ne (Ne.symm hi)]
      exact hother i d hi
  · simp [hq]

namespace NamesInv

theorem openNew (h : NamesInv s) (hfresh : channel ∉ s.objects)
    (hname : ∀ c, c ∈ s.objects → rtStrncmp rtNameMax (s.name c) name ≠ 0)
    (hf : fdNew fdMax (s.fds p) realloc calloc = (l, some fd)) :
    NamesInv ((withObject s channel name).setTable p (l.set fd (some ⟨1, some channel⟩))) := by
  have hslot := fun q i d => refers_new (q := q) (i := i) (d := d) channel name hf
  obtain ⟨-, -, hfree⟩ := fdNew_some hf
  -- the slot was no descriptor of a channel
  have hpf : ∀ c, ¬ Refers s p fd c := fun c ⟨refCount, hr⟩ => by
    obtain rfl : refCount = 0 := hfree _ hr
    exact h.used p fd c hr
  have href : ∀ q i c, Refers
      ((withObject s channel name).setTable p (l.set fd (some ⟨1, some channel⟩))) q i c ↔
      (q = p ∧ i = fd ∧ c = channel) ∨ Refers s q i c := fun q i c => by
    simp only [Refers, hslot]
    by_cases hqi : q = p ∧ i = fd
    · obtain ⟨rfl, rfl⟩ := hqi
      have hno := hpf c
      simp only [Refers] at hno
      simp [hno]
    · simp only [if_neg hqi]
      constructor
      · exact .inr
      · rintro (⟨rfl, rfl, -⟩ | hr)
        · exact absurd ⟨rfl, rfl⟩ hqi
        · exact hr
  have hold : ∀ c, c ∈ s.objects → Function.update s.name channel (name.take rtNameMax) c =
      s.name c := fun c hc => Function.update_of_ne (ne_of_mem_of_not_mem hc hfresh) _ _
  have hnew : ∀ c, c ∈ s.objects →
      rtStrncmp rtNameMax (s.name c) (name.take rtNameMax) ≠ 0 := fun c hc he =>
    hname c hc (rtStrncmp_trans he (rtStrncmp_take _ _))
  refine ⟨fun q i c hr => ?_, fun c hc => ?_, fun q i q' i' c hr hr' => ?_, fun q i c hz => ?_,
    List.nodup_cons.mpr ⟨hfresh, h.nodup⟩, fun c c' hc hc' he => ?_⟩
  · rcases (href q i c).mp hr with ⟨-, -, rfl⟩ | hr
    · exact List.mem_cons_self
    · exact List.mem_cons_of_mem _ (h.refs q i c hr)
  · rcases List.mem_cons.mp hc with rfl | hc
    · exact ⟨p, fd, (href _ _ _).mpr (.inl ⟨rfl, rfl, rfl⟩)⟩
    · obtain ⟨q, i, hr⟩ := h.objs c hc
      exact ⟨q, i, (href _ _ _).mpr (.inr hr)⟩
  · rcases (href _ _ _).mp hr with ⟨rfl, rfl, rfl⟩ | h1
    · rcases (href _ _ _).mp hr' with ⟨rfl, rfl, -⟩ | h2
      · exact ⟨rfl, rfl⟩
      · exact absurd (h.refs _ _ _ h2) hfresh
    · rcases (href _ _ _).mp hr' with ⟨-, -, rfl⟩ | h2
      · exact absurd (h.refs q i c h1) hfresh
      · exact h.one _ _ _ _ _ h1 h2
  · rw [hslot] at hz
    split at hz
    · have := congrArg DfsFd.refCount hz
      cases this
    · exact h.used q i c hz
  · change rtStrncmp rtNameMax (Function.update s.name channel (name.take rtNameMax) c)
      (Function.update s.name channel (name.take rtNameMax) c') = 0 at he
    rcases List.mem_cons.mp hc with rfl | h1
    · rcases List.mem_cons.mp hc' with rfl | h2
      · rfl
      · rw [Function.update_self, hold c' h2] at he
        exact absurd (rtStrncmp_symm he) (hnew c' h2)
    · rcases List.mem_cons.mp hc' with rfl | h2
      · rw [Function.update_self, hold c h1] at he
        exact absurd he (hnew c h1)
      · rw [hold c h1, hold c' h2] at he
        exact h.unique c c' h1 h2 he

/-- Only the references of a descriptor change. -/
theorem congr (h : NamesInv s) (hr : ∀ q i c, Refers s' q i c ↔ Refers s q i c)
    (hu : ∀ (q i c : Nat), (s'.fds q)[i]? ≠ some (some ⟨0, some c⟩)) (ho : s'.objects = s.objects)
    (hn : s'.name = s.name) : NamesInv s' := by
  refine ⟨fun q i c hc => ?_, fun c hc => ?_, fun q i q' i' c hc hc' => ?_, hu, ?_,
    fun c c' hc hc' he => ?_⟩
  · rw [ho]
    exact h.refs q i c ((hr q i c).mp hc)
  · rw [ho] at hc
    obtain ⟨q, i, hq⟩ := h.objs c hc
    exact ⟨q, i, (hr q i c).mpr hq⟩
  · exact h.one q i q' i' c ((hr q i c).mp hc) ((hr q' i' c).mp hc')
  · rw [ho]
    exact h.nodup
  · rw [ho] at hc hc'
    rw [hn] at he
    exact h.unique c c' hc hc' he

theorem openKnown (h : NamesInv s) (fd : Nat) : NamesInv (s.setTable p (refInc (s.fds p) fd)) := by
  refine h.congr (fun q i c => refers_refInc) (fun q i c hz => ?_) rfl rfl
  simp only [State.setTable, Function.update_apply] at hz
  split at hz
  · next hq =>
    rw [refInc, List.getElem?_modify] at hz
    by_cases hi : fd = i
    · simp only [hi, if_true] at hz
      cases hx : (s.fds p)[i]? with
      | none =>
        rw [hx] at hz
        cases hz
      | some x =>
        rw [hx] at hz
        cases x with
        | none => cases Option.some.inj hz
        | some d =>
          have hd := congrArg DfsFd.refCount (Option.some.inj (Option.some.inj hz))
          exact absurd hd (Nat.succ_ne_zero _)
    · simp only [if_neg hi, Option.map_eq_map, Option.map_id_fun', id_eq] at hz
      exact h.used p i c hz
  · exact h.used q i c hz

theorem close (h : NamesInv s) (hc : binChannelClose s p fd = some s') : NamesInv s' := by
  unfold binChannelClose at hc
  split at hc
  · next channel hs =>
    split at hc
    · next hm =>
      rw [← Option.some.inj hc]
      have hch : Refers s p fd channel := ⟨1, hs⟩
      have href : ∀ q i c, Refers
          { s.setTable p ((s.fds p).set fd none) with objects := s.objects.erase channel } q i c ↔
          Refers s q i c ∧ ¬ (q = p ∧ i = fd) := fun q i c => by
        have h1 := refers_set (s := s) (p := p) (q := q) (i := i) (c := c) fd rfl none
        have h2 : Refers { s.setTable p ((s.fds p).set fd none) with
            objects := s.objects.erase channel } q i c ↔
            Refers (s.setTable p ((s.fds p).set fd none)) q i c := Iff.rfl
        rw [h2, h1]
        split
        · next hqi => simp [hqi]
        · next hqi => simp [hqi]
      refine ⟨fun q i c hr => ?_, fun c hcm => ?_, fun q i q' i' c hr hr' => ?_, fun q i c hz => ?_,
        h.nodup.erase channel, fun c c' hcm hcm' he => ?_⟩
      · obtain ⟨hq, hne⟩ := (href q i c).mp hr
        refine (List.mem_erase_of_ne ?_).mpr (h.refs q i c hq)
        rintro rfl
        exact hne (h.one q i p fd c hq hch)
      · obtain ⟨hne, hcm⟩ := h.nodup.mem_erase_iff.mp hcm
        obtain ⟨q, i, hr⟩ := h.objs c hcm
        refine ⟨q, i, (href q i c).mpr ⟨hr, ?_⟩⟩
        rintro ⟨rfl, rfl⟩
        obtain ⟨refCount, hr⟩ := hr
        rw [hs] at hr
        exact hne (Option.some.inj (congrArg DfsFd.data
          (Option.some.inj (Option.some.inj hr)))).symm
      · exact h.one q i q' i' c ((href _ _ _).mp hr).1 ((href _ _ _).mp hr').1
      · simp only [State.setTable, Function.update_apply] at hz
        split at hz
        · next hq =>
          rw [List.getElem?_set] at hz
          split at hz
          · split at hz
            · cases Option.some.inj hz
            · cases hz
          · exact h.used p i c hz
        · exact h.used q i c hz
      · exact h.unique c c' (List.mem_of_mem_erase hcm) (List.mem_of_mem_erase hcm') he
    · cases hc
  · next refCount data hs =>
    rw [← Option.some.inj hc]
    refine h.congr (fun q i c => ?_) (fun q i c hz => ?_) rfl rfl
    · rw [refers_set fd rfl]
      split
      · next hqi =>
        obtain ⟨rfl, rfl⟩ := hqi
        have hlt := (List.getElem?_eq_some_iff.mp hs).1
        simp only [Refers, hs, hlt, true_and]
        simp
      · exact Iff.rfl
    · simp only [State.setTable, Function.update_apply] at hz
      split at hz
      · next hq =>
        rw [List.getElem?_set] at hz
        split at hz
        · split at hz
          · have hd := congrArg DfsFd.refCount (Option.some.inj (Option.some.inj hz))
            exact absurd hd (Nat.succ_ne_zero _)
          · cases hz
        · exact h.used p i c hz
      · exact h.used q i c hz
  · cases hc

end NamesInv

/-! ## One call -/

/-- What `bin_channel_open` answers for a new object. -/
theorem openNew_some (fdMax : Nat) (s : State) (p : Nat) (name : List UInt8) (channel : Nat)
    (realloc calloc : Bool) : (∃ l, fdNew fdMax (s.fds p) realloc calloc = (l, none) ∧
      openNew fdMax s p name (some channel) realloc calloc =
        (-1, (withObject s channel name).setTable p l)) ∨
    ∃ l fd, fdNew fdMax (s.fds p) realloc calloc = (l, some fd) ∧
      openNew fdMax s p name (some channel) realloc calloc = (fd + dfsFdOffset,
        (withObject s channel name).setTable p (l.set fd (some ⟨1, some channel⟩))) := by
  simp only [openNew]
  cases hf : fdNew fdMax (s.fds p) realloc calloc with
  | mk l o =>
    cases o with
    | none => exact .inl ⟨l, rfl, rfl⟩
    | some fd => exact .inr ⟨l, fd, rfl, rfl⟩

theorem known_iff : Known s name ↔ findChannel s name ≠ none := by
  constructor
  · rintro ⟨c, hc, hn⟩ h
    exact findChannel_none h hc hn
  · intro h
    obtain ⟨c, hc⟩ := Option.ne_none_iff_exists'.mp h
    exact ⟨c, findChannel_some hc⟩

/-- The call that returned `r` failed and changed nothing, or `r` is a descriptor of a channel of
this name. -/
def Opened (s s' : State) (p : Nat) (name : List UInt8) (r : Int) : Prop :=
  (r < 0 ∧ s' = s) ∨ ∃ (fd : Nat) (c : Nat), r = fd + dfsFdOffset ∧ Refers s' p fd c ∧
    c ∈ s'.objects ∧ rtStrncmp rtNameMax (s'.name c) name = 0

/-- The objects in use keep their name. -/
def Keeps (s s' : State) : Prop :=
  ∀ c, c ∈ s.objects → c ∈ s'.objects ∧ s'.name c = s.name c

theorem open_spec (h : NamesInv s) (hok : OpenOk fdMax s (.open p name object realloc calloc))
    (hfresh : ∀ c, object = some c → c ∉ s.objects) :
    ∃ r s', binChannelOpen fdMax s p name object realloc calloc = some (r, s') ∧ NamesInv s' ∧
      Opened s s' p name r ∧ Keeps s s' := by
  have hnone : object = none → openNew fdMax s p name object realloc calloc = (-rtError, s) := by
    rintro rfl
    rfl
  have hsame : Opened s s p name (-rtError) ∧ Keeps s s :=
    ⟨.inl ⟨by decide, rfl⟩, fun c hc => ⟨hc, rfl⟩⟩
  cases hfc : findChannel s name with
  | none =>
    have hnk : ¬ Known s name := fun hk => known_iff.mp hk hfc
    simp only [binChannelOpen, hfc]
    cases object with
    | none => exact ⟨_, _, rfl, h, hsame⟩
    | some channel =>
      have hroom : Room fdMax (s.fds p) realloc calloc := by
        rcases hok with ⟨c, hc, hn, -⟩ | ⟨ho, -⟩ | ⟨-, hr⟩
        · exact absurd ⟨c, hc, hn⟩ hnk
        · cases ho
        · exact hr
      have hch := hfresh channel rfl
      rcases openNew_some fdMax s p name channel realloc calloc with ⟨l, hf, -⟩ | ⟨l, fd, hf, ho⟩
      · exact absurd (by rw [hf]) (fdNew_snd_ne_none.mpr hroom)
      · have hinv := h.openNew hch (fun c hc => findChannel_none hfc hc) hf
        refine ⟨_, _, congrArg some ho, hinv, .inr ⟨fd, channel, rfl, ⟨1, ?_⟩,
          List.mem_cons_self, ?_⟩, fun c hc => ⟨List.mem_cons_of_mem _ hc, ?_⟩⟩
        · exact (refers_new channel name hf).mpr (by rw [if_pos ⟨rfl, rfl⟩])
        · change rtStrncmp rtNameMax
            (Function.update s.name channel (name.take rtNameMax) channel) name = 0
          rw [Function.update_self]
          exact rtStrncmp_take _ _
        · exact Function.update_of_ne (ne_of_mem_of_not_mem hc hch) _ _
  | some channel =>
    obtain ⟨hc, hn⟩ := findChannel_some hfc
    simp only [binChannelOpen, hfc]
    cases hs : fdSearch channel (s.fds p) 0 with
    | found fd =>
      obtain ⟨-, j, refCount, hj, hd⟩ := fdSearch_found hs
      obtain rfl : fd = j := by omega
      exact ⟨_, _, rfl, h.openKnown fd, .inr ⟨fd, channel, rfl,
        refers_refInc.mpr ⟨refCount, hd⟩, hc, hn⟩, fun c hc => ⟨hc, rfl⟩⟩
    | missing =>
      obtain ⟨-, hh⟩ := fdSearch_missing hs
      have ho : object = none := by
        rcases hok with ⟨c, hcm, hcn, hheld⟩ | ⟨ho, -⟩ | ⟨hnk, -⟩
        · obtain rfl := h.unique c channel hcm hc (rtStrncmp_trans hcn (rtStrncmp_symm hn))
          exact absurd hheld hh
        · exact ho
        · exact absurd ⟨channel, hc, hn⟩ hnk
      exact ⟨_, _, congrArg some (hnone ho), h, hsame⟩
    | nullRead =>
      obtain ⟨hm, hh⟩ := fdSearch_nullRead hs
      rcases hok with ⟨c, hcm, hcn, hheld⟩ | ⟨-, hnk | hnm⟩ | ⟨hnk, -⟩
      · obtain rfl := h.unique c channel hcm hc (rtStrncmp_trans hcn (rtStrncmp_symm hn))
        exact absurd hheld hh
      · exact absurd ⟨channel, hc, hn⟩ hnk
      · exact absurd hm hnm
      · exact absurd ⟨channel, hc, hn⟩ hnk

theorem step_open (hs : step fdMax s (.open p name object realloc calloc) = some s') :
    (∀ c, object = some c → c ∉ s.objects) ∧
      ∃ r, binChannelOpen fdMax s p name object realloc calloc = some (r, s') := by
  simp only [step] at hs
  split at hs
  · cases hs
  · next hno =>
    obtain ⟨⟨r, u⟩, hr, rfl⟩ := Option.map_eq_some_iff.mp hs
    exact ⟨fun c hc hm => hno ⟨c, hm, hc⟩, r, hr⟩

theorem NamesInv.step {a : Act} (h : NamesInv s) (hok : OpenOk fdMax s a)
    (hs : ChannelOpen.step fdMax s a = some s') : NamesInv s' := by
  cases a with
  | «open» p name object realloc calloc =>
    obtain ⟨hfresh, r, hr⟩ := step_open hs
    obtain ⟨r', s'', hr', hinv, -, -⟩ := open_spec h hok hfresh
    rw [hr] at hr'
    rw [(Prod.mk.inj (Option.some.inj hr')).2]
    exact hinv
  | close p fd => exact h.close hs

/-- A step that does not meet the condition leaves an object without descriptor, or two objects of
one name. -/
theorem not_namesOk {a : Act} (h : NamesInv s) (hok : ¬ OpenOk fdMax s a)
    (hs : step fdMax s a = some s') : ¬ NamesOk s' := by
  intro hok'
  cases a with
  | close p fd => exact hok trivial
  | «open» p name object realloc calloc =>
    obtain ⟨hfresh, r, hr⟩ := step_open hs
    obtain ⟨hheld, hnone, hroom⟩ := by simpa only [OpenOk, not_or] using hok
    unfold binChannelOpen at hr
    split at hr
    · next hfc =>
      have hnk : ¬ Known s name := fun hk => known_iff.mp hk hfc
      cases object with
      | none => exact hnone ⟨rfl, .inl hnk⟩
      | some channel =>
        rcases openNew_some fdMax s p name channel realloc calloc with ⟨l, hf, ho⟩ | ⟨l, fd, hf, -⟩
        · rw [ho] at hr
          obtain ⟨-, rfl⟩ := Prod.mk.inj (Option.some.inj hr)
          obtain ⟨q, i, refCount, hq⟩ := (hok'.exact channel).mp List.mem_cons_self
          refine hfresh channel rfl (h.refs q i channel ⟨refCount, ?_⟩)
          simp only [State.setTable, withObject, Function.update_apply] at hq
          split at hq
          · next hqp =>
            rw [hqp]
            exact (fdNew_none hf i _).mp hq
          · exact hq
        · exact hroom ⟨hnk, fdNew_snd_ne_none.mp (by rw [hf]; exact Option.some_ne_none fd)⟩
    · next channel hfc =>
      obtain ⟨hc, hn⟩ := findChannel_some hfc
      split at hr
      · next fd hsr => exact hheld ⟨channel, hc, hn, (fdSearch_found hsr).1⟩
      · next hsr =>
        obtain ⟨hnm, -⟩ := fdSearch_missing hsr
        cases object with
        | none => exact hnone ⟨rfl, .inr hnm⟩
        | some new =>
          have hnew := hfresh new rfl
          have hboth : s'.objects = new :: s.objects ∧
              s'.name = Function.update s.name new (name.take rtNameMax) := by
            rcases openNew_some fdMax s p name new realloc calloc with ⟨l, -, ho⟩ | ⟨l, fd, -, ho⟩
            · rw [ho] at hr
              obtain ⟨-, rfl⟩ := Prod.mk.inj (Option.some.inj hr)
              exact ⟨rfl, rfl⟩
            · rw [ho] at hr
              obtain ⟨-, rfl⟩ := Prod.mk.inj (Option.some.inj hr)
              exact ⟨rfl, rfl⟩
          obtain ⟨hobj, hname⟩ := hboth
          have he := hok'.unique channel new (by rw [hobj]; exact List.mem_cons_of_mem _ hc)
            (by rw [hobj]; exact List.mem_cons_self)
            (by
              rw [hname, Function.update_self,
                Function.update_of_ne (ne_of_mem_of_not_mem hc hnew)]
              exact rtStrncmp_trans hn (rtStrncmp_symm (rtStrncmp_take _ _)))
          exact hnew (he ▸ hc)
      · cases hr

theorem step_name {a : Act} (hs : step fdMax s a = some s') (hc : c ∈ s.objects) :
    s'.name c = s.name c := by
  cases a with
  | close p fd =>
    simp only [step, binChannelClose] at hs
    split at hs
    · split at hs
      · rw [← Option.some.inj hs]
        rfl
      · cases hs
    · rw [← Option.some.inj hs]
      rfl
    · cases hs
  | «open» p name object realloc calloc =>
    obtain ⟨hfresh, r, hr⟩ := step_open hs
    have hnew : (r, s') = openNew fdMax s p name object realloc calloc → s'.name c = s.name c := by
      intro he
      cases object with
      | none => rw [(Prod.mk.inj he).2]
      | some channel =>
        have hne := ne_of_mem_of_not_mem hc (hfresh channel rfl)
        rcases openNew_some fdMax s p name channel realloc calloc with ⟨l, -, ho⟩ | ⟨l, fd, -, ho⟩
        · rw [ho] at he
          rw [(Prod.mk.inj he).2]
          exact Function.update_of_ne hne _ _
        · rw [ho] at he
          rw [(Prod.mk.inj he).2]
          exact Function.update_of_ne hne _ _
    unfold binChannelOpen at hr
    split at hr
    · exact hnew (Option.some.inj hr).symm
    · split at hr
      · rw [← (Prod.mk.inj (Option.some.inj hr)).2]
        rfl
      · exact hnew (Option.some.inj hr).symm
      · cases hr

/-! ## Runs -/

theorem NamesInv.init (files : Nat → List (Option Nat)) : NamesInv (State.init files) := by
  have hno : ∀ p fd refCount c : Nat,
      ((State.init files).fds p)[fd]? ≠ some (some (DfsFd.mk refCount (some c))) := by
    intro p fd refCount c h
    simp only [State.init, List.getElem?_map] at h
    obtain ⟨x, -, hx⟩ := Option.map_eq_some_iff.mp h
    obtain ⟨r, -, hr⟩ := Option.map_eq_some_iff.mp hx
    cases congrArg DfsFd.data hr
  exact ⟨fun p fd c ⟨r, h⟩ => absurd h (hno p fd r c), fun c hc => absurd hc List.not_mem_nil,
    fun p fd q i c ⟨r, h⟩ => absurd h (hno p fd r c), fun p fd c => hno p fd 0 c, List.nodup_nil,
    fun c c' hc => absurd hc List.not_mem_nil⟩

/-- A later open of the same name returns a descriptor of the same channel, unless the channel was
deleted in between. -/
def SameChannel (fdMax : Nat) (s : State) (c : Nat) (name : List UInt8) : Prop :=
  ∀ bs t, exec (step fdMax) s bs = some t → Along (step fdMax) (OpenOk fdMax) s bs →
    Visits (step fdMax) (fun u => c ∈ u.objects) s bs →
    ∀ q object realloc calloc, (∀ c', object = some c' → c' ∉ t.objects) →
      OpenOk fdMax t (.open q name object realloc calloc) →
      ∀ (fd : Nat) (t' : State), binChannelOpen fdMax t q name object realloc calloc =
        some (fd + dfsFdOffset, t') → Refers t' q fd c

theorem NamesInv.sameChannel (h : NamesInv s)
    (hn : rtStrncmp rtNameMax (s.name c) name = 0) : SameChannel fdMax s c name := by
  intro bs t hx ha hv q object realloc calloc hfresh hok fd t' hr
  have ht : NamesInv t := ha.inv (fun s a s' h hok hs => NamesInv.step h hok hs) hx h
  have hct : c ∈ t.objects := hv.last hx
  have hname : t.name c = s.name c := by
    clear hr hok hfresh ha ht hct hn h
    induction bs generalizing s with
    | nil =>
      cases hx
      rfl
    | cons a bs ih =>
      obtain ⟨u, hs, hx'⟩ := exec_cons_some hx
      obtain ⟨hcs, hv'⟩ := (visits_cons hs).mp hv
      rw [ih hx' hv', step_name hs hcs]
  obtain ⟨r, u, hr', hinv, hopen, hkeep⟩ := open_spec ht hok hfresh
  rw [hr] at hr'
  obtain ⟨rfl, rfl⟩ := Prod.mk.inj (Option.some.inj hr')
  obtain ⟨hcu, hnu⟩ := hkeep c hct
  rcases hopen with ⟨hneg, -⟩ | ⟨fd', c', hfd, href, hc', hn'⟩
  · have : (0 : Int) ≤ fd + dfsFdOffset := Int.add_nonneg (Int.natCast_nonneg fd) (by decide)
    omega
  · obtain rfl : fd = fd' := by omega
    obtain rfl := hinv.unique c c' hcu hc'
      (by rw [hnu, hname]; exact rtStrncmp_trans hn (rtStrncmp_symm hn'))
    exact href

/-- The channel objects are those with a descriptor, and no two have one name, in every state of
exactly those runs whose opens meet the condition. There an open returns; if it fails it changes
nothing, and else the descriptor is one of the channel of this name, as after every later open
until that channel is deleted. -/
theorem channel_names_iff {files : Nat → List (Option Nat)} {as : List Act} {t : State}
    (hx : exec (step fdMax) (State.init files) as = some t) :
    (Along (step fdMax) (OpenOk fdMax) (State.init files) as ↔
      Visits (step fdMax) NamesOk (State.init files) as) ∧
    (Along (step fdMax) (OpenOk fdMax) (State.init files) as →
      ∀ p name object realloc calloc, (∀ c, object = some c → c ∉ t.objects) →
        OpenOk fdMax t (.open p name object realloc calloc) →
        ∃ r t', binChannelOpen fdMax t p name object realloc calloc = some (r, t') ∧
          ((r < 0 ∧ t' = t) ∨ ∃ (fd : Nat) (c : Nat), r = fd + dfsFdOffset ∧ Refers t' p fd c ∧
            rtStrncmp rtNameMax (t'.name c) name = 0 ∧ SameChannel fdMax t' c name)) := by
  refine ⟨along_iff_visits (fun s => NamesInv.namesOk) (fun s a s' h hok hs =>
    NamesInv.step h hok hs) (fun s a s' h hok hs => not_namesOk h hok hs) hx (.init files), ?_⟩
  intro ha p name object realloc calloc hfresh hok
  have ht : NamesInv t := ha.inv (fun s a s' h hok hs => NamesInv.step h hok hs) hx (.init files)
  obtain ⟨r, t', hr, hinv, hopen, -⟩ := open_spec ht hok hfresh
  refine ⟨r, t', hr, hopen.imp id ?_⟩
  rintro ⟨fd, c, hfd, href, -, hn⟩
  exact ⟨fd, c, hfd, href, hn, hinv.sameChannel hn⟩

/-- Two opens of one process, and a close. -/
def openTwice : List Act :=
  [.open 1 [104] (some 7) true true, .open 1 [104] none true true, .close 1 0]

theorem channel_names_sample : ∃ t, exec (step 16) (State.init fun _ => []) openTwice = some t ∧
    Along (step 16) (OpenOk 16) (State.init fun _ => []) openTwice ∧
    Visits (step 16) NamesOk (State.init fun _ => []) openTwice := by
  have hx : (exec (step 16) (State.init fun _ => []) openTwice).map (fun t => t.fds 1) =
      some [some ⟨1, some 7⟩, none, none, none] := by decide
  obtain ⟨t, hx, -⟩ := Option.map_eq_some_iff.mp hx
  have ha : Along (step 16) (OpenOk 16) (State.init fun _ => []) openTwice := by
    refine ⟨.inr (.inr ⟨?_, ?_⟩), .inl ⟨7, ?_, ?_, ?_⟩, trivial, trivial⟩
    · rintro ⟨c, hc, -⟩
      exact absurd hc List.not_mem_nil
    · exact ⟨by decide, rfl, rfl⟩
    · exact List.mem_cons_self
    · decide
    · exact ⟨[], ⟨1, some 7⟩, [none, none, none], rfl, List.not_mem_nil, rfl⟩
  exact ⟨t, hx, ha, (channel_names_iff hx).1.mp ha⟩

/-- The opens of two processes. -/
def openOther : List Act :=
  [.open 1 [104] (some 7) true true, .open 2 [104] (some 8) true true]

/-- An open, a close of another channel of the process, and an open of the same name. -/
def openBehind : List Act :=
  [.open 1 [97] (some 7) true true, .open 1 [98] (some 8) true true, .close 1 0,
    .open 1 [98] none true true]

/-- The open of a second process makes a second channel of the same name; an open that gets no
descriptor leaves its channel behind; and an empty slot before the descriptor is read. -/
theorem channel_names_fail :
    (∃ t, exec (step 16) (State.init fun _ => []) openOther = some t ∧ t.objects = [8, 7] ∧
      t.name 7 = [104] ∧ t.name 8 = [104] ∧ Refers t 1 0 7 ∧ Refers t 2 0 8) ∧
    (∃ t, binChannelOpen 16 (State.init fun _ => []) 1 [104] (some 7) false true = some (-1, t) ∧
      t.objects = [7] ∧ t.fds 1 = []) ∧
    exec (step 16) (State.init fun _ => []) openBehind = none := by
  refine ⟨?_, ⟨_, rfl, rfl, rfl⟩, ?_⟩
  · have hx : (exec (step 16) (State.init fun _ => []) openOther).map
        (fun t => (t.objects, t.name 7, t.name 8)) = some ([8, 7], [104], [104]) := by decide
    have hf : (exec (step 16) (State.init fun _ => []) openOther).map
        (fun t => ((t.fds 1)[0]?, (t.fds 2)[0]?)) =
          some (some (some ⟨1, some 7⟩), some (some ⟨1, some 8⟩)) := by decide
    obtain ⟨t, hx, ho⟩ := Option.map_eq_some_iff.mp hx
    rw [hx] at hf
    simp only [Option.map_some, Option.some.injEq, Prod.mk.injEq] at ho hf
    exact ⟨t, hx, ho.1, ho.2.1, ho.2.2, ⟨1, hf.1⟩, ⟨1, hf.2⟩⟩
  · have h : (exec (step 16) (State.init fun _ => []) openBehind).isNone = true := by decide
    exact Option.isNone_iff_eq_none.mp h

end Tudu.ChannelOpen
