import TuduOS.Lib.Circular
import TuduOS.Shm.Bmem

/-!
# The tables of the shared memory (`lwt_shm.c`)

A block of shared memory is a `struct shm_mem`, a thread that uses some is a `struct shm_app` with a
table of its references, and a `struct shm_relation` is in a list of each of the two. The three come
from tables of eight that are never freed; each kind has its own test for a free entry.

* `LwtShm`: the tables, and the lists as the pointers of their nodes.
* `lwtShmAlloc`, `lwtShmRetain`, `lwtShmFree`: the calls, by a thread with its `lwp` (0: a kernel
  thread).
* `reclaimed_iff`: the end of a process changes no table (`lwtCleanup_eq`), so its memory is
  reclaimed if and only if its threads have none left.

A call without a value faults (it writes through a null pointer) or hangs in a `while(1)`. What
`rt_calloc` returns is a parameter of the call. `used_num` of the relation tables is never written.
-/

namespace Tudu.Shm

open Circular Lts

/-- `SHM_APP_TAB_SIZE`, which the other tables use, too -/
def shmAppTabSize : Nat := 8

/-- `SHM_MEM_REF_APPEND_NUM` -/
def shmMemRefAppendNum : Nat := 8

/-- Entry `i` of the table at the address `tab`. -/
structure Slot where
  tab : Nat
  i : Nat
  deriving DecidableEq

/-- A `rt_list_t`: the null pointer, the head in an entry, or the node in a relation. -/
inductive ListNode where
  | null
  | head (x : Slot)
  | rel (r : Slot)
  deriving DecidableEq

structure ShmMemRef where
  addr : Nat
  ref : Nat
  deriving DecidableEq

structure ShmApp where
  lwpAddr : Nat
  refTab : List ShmMemRef
  useNum : Nat
  deriving DecidableEq

structure ShmMem where
  addr : Nat
  size : Nat
  deriving DecidableEq

structure ShmRelation where
  app : Option Slot
  mem : Option Slot
  deriving DecidableEq

structure LwtShm where
  bmem : Bmem
  appTab : List Nat
  appUsedNum : Nat → Nat
  app : Slot → ShmApp
  memTab : List Nat
  memUsedNum : Nat → Nat
  mem : Slot → ShmMem
  relationTab : List Nat
  relation : Slot → ShmRelation
  /-- The lists of the `app_node`s, with their heads in the `struct shm_mem`. -/
  appNode : Links ListNode
  /-- The lists of the `mem_node`s, with their heads in the `struct shm_app`. -/
  memNode : Links ListNode
  /-- The addresses that were given to `bmem_free`. -/
  freed : List Nat

/-- What `rt_calloc` returns for a table of each kind, if it is called. -/
structure Callocs where
  app : Option Nat
  ref : Bool
  mem : Option Nat
  relation : Option Nat
  bmem : Option Nat

/-- The first entry of the tables that is found. -/
def findSlot (tabs : List Nat) (skip : Nat → Bool) (found : Slot → Bool) : Option Slot :=
  tabs.findSome? fun t =>
    if skip t then none
    else ((List.range shmAppTabSize).find? fun i => found ⟨t, i⟩).map (Slot.mk t)

/-- The links of the entries of a table that `rt_calloc` has set to zero. -/
def zeroLinks (L : Links ListNode) (node : Slot → ListNode) (t : Nat) : Links ListNode :=
  ⟨fun x => if (List.range shmAppTabSize).any (fun i => x == node ⟨t, i⟩) then .null else L.next x,
    fun x => if (List.range shmAppTabSize).any (fun i => x == node ⟨t, i⟩) then .null else L.prev x⟩

def rtListInit (L : Links ListNode) (l : ListNode) : Links ListNode := (L.setPrev l l).setNext l l

/-- A null pointer is not written through. -/
def rtListInsertAfter (L : Links ListNode) (l n : ListNode) : Option (Links ListNode) :=
  if L.next l = .null then none else some (L.insertAfter l n)

def rtListRemove (L : Links ListNode) (n : ListNode) : Option (Links ListNode) :=
  if L.next n = .null ∨ L.prev n = .null then none else some (L.remove n)

/-! ## The entries -/

/-- The pass of `get_shm_app` over the tables -/
def findFreeApp (s : LwtShm) : Option Slot :=
  findSlot s.appTab (fun t => s.appUsedNum t == shmAppTabSize) fun x => (s.app x).useNum == 0

def takeApp (s : LwtShm) (x : Slot) : LwtShm :=
  { s with
    appUsedNum := Function.update s.appUsedNum x.tab (s.appUsedNum x.tab + 1)
    memNode := rtListInit s.memNode (.head x) }

def addAppTab (s : LwtShm) (t : Nat) : LwtShm :=
  { s with
    appTab := t :: s.appTab
    appUsedNum := Function.update s.appUsedNum t 0
    app := fun x => if x.tab = t then ⟨0, [], 0⟩ else s.app x
    memNode := zeroLinks s.memNode .head t }

def getShmApp (s : LwtShm) (calloc : Option Nat) : Option Slot × LwtShm :=
  match findFreeApp s with
  | some x => (some x, takeApp s x)
  | none =>
    match calloc with
    | none => (none, s)
    | some t =>
      let s := addAppTab s t
      match findFreeApp s with
      | some x => (some x, takeApp s x)
      | none => (none, s)

def findShmApp (s : LwtShm) (lwp : Nat) : Option Slot :=
  findSlot s.appTab (fun t => s.appUsedNum t == 0) fun x => (s.app x).lwpAddr == lwp

def findFreeMem (s : LwtShm) : Option Slot :=
  findSlot s.memTab (fun t => s.memUsedNum t == shmAppTabSize) fun x => (s.mem x).size == 0

def takeMem (s : LwtShm) (x : Slot) : LwtShm :=
  { s with
    memUsedNum := Function.update s.memUsedNum x.tab (s.memUsedNum x.tab + 1)
    appNode := rtListInit s.appNode (.head x) }

def addMemTab (s : LwtShm) (t : Nat) : LwtShm :=
  { s with
    memTab := t :: s.memTab
    memUsedNum := Function.update s.memUsedNum t 0
    mem := fun x => if x.tab = t then ⟨0, 0⟩ else s.mem x
    appNode := zeroLinks s.appNode .head t }

def getShmMem (s : LwtShm) (calloc : Option Nat) : Option Slot × LwtShm :=
  match findFreeMem s with
  | some x => (some x, takeMem s x)
  | none =>
    match calloc with
    | none => (none, s)
    | some t =>
      let s := addMemTab s t
      match findFreeMem s with
      | some x => (some x, takeMem s x)
      | none => (none, s)

/-- An entry that is free keeps its address. -/
def findShmMem (s : LwtShm) (addr : Nat) : Option Slot :=
  findSlot s.memTab (fun t => s.memUsedNum t == 0) fun x => (s.mem x).addr == addr

def putShmMem (s : LwtShm) (x : Slot) : LwtShm :=
  { s with
    memUsedNum := Function.update s.memUsedNum x.tab (sub32 (s.memUsedNum x.tab) 1)
    mem := Function.update s.mem x { s.mem x with size := 0 } }

def findFreeRelation (s : LwtShm) : Option Slot :=
  findSlot s.relationTab (fun _ => false) fun r =>
    (s.relation r).app == none || s.appNode.next (.rel r) == .rel r

def addRelationTab (s : LwtShm) (t : Nat) : LwtShm :=
  { s with
    relationTab := t :: s.relationTab
    relation := fun r => if r.tab = t then ⟨none, none⟩ else s.relation r
    appNode := zeroLinks s.appNode .rel t
    memNode := zeroLinks s.memNode .rel t }

def getShmRelation (s : LwtShm) (calloc : Option Nat) : Option Slot × LwtShm :=
  match findFreeRelation s with
  | some r => (some r, s)
  | none =>
    match calloc with
    | none => (none, s)
    | some t =>
      let s := addRelationTab s t
      (findFreeRelation s, s)

/-- The place of the reference to `addr` (0: of an empty one), and the table with it. -/
def getShmMemRef (refTab : List ShmMemRef) (addr : Nat) (calloc : Bool) :
    Option (Nat × List ShmMemRef) :=
  match refTab.findIdx? fun r => r.addr != 0 && r.addr == addr with
  | some j => some (j, refTab)
  | none =>
    match refTab.findIdx? fun r => r.addr == 0 with
    | some j => some (j, refTab)
    | none =>
      if calloc then
        some (refTab.length, refTab ++ List.replicate shmMemRefAppendNum ⟨0, 0⟩)
      else none

def setApp (s : LwtShm) (x : Slot) (a : ShmApp) : LwtShm := { s with app := Function.update s.app x a }

/-! ## The calls -/

/-- The entry of the calling thread. It is looked for by `lwp`, and made for the thread. -/
def ownApp (s : LwtShm) (thread lwp : Nat) (c : Callocs) : Option Slot × LwtShm :=
  match findShmApp s lwp with
  | some x => (some x, s)
  | none =>
    match getShmApp s c.app with
    | (none, s) => (none, s)
    | (some x, s) => (some x, setApp s x { s.app x with lwpAddr := thread })

/-- The relation `r` between `x` and `m` is put into the two lists. -/
def relate (s : LwtShm) (x m r : Slot) : Option LwtShm := do
  let appNode ← rtListInsertAfter s.appNode (.head m) (.rel r)
  let memNode ← rtListInsertAfter s.memNode (.head x) (.rel r)
  some { s with
    relation := Function.update s.relation r ⟨some x, some m⟩
    appNode := appNode
    memNode := memNode }

/-- `lwt_shm_alloc` from where the entry `x` is known. Its value is the address, if there is one. -/
def allocFor (s : LwtShm) (x : Slot) (size : Int) (c : Callocs) : Option (Option Nat × LwtShm) :=
  let size := (size % 4294967296).toNat
  let memRef := getShmMemRef (s.app x).refTab 0 c.ref
  let s := match memRef with
    | none => s
    | some r => setApp s x { s.app x with refTab := r.2 }
  let m := getShmMem s c.mem
  let r := getShmRelation m.2 c.relation
  match m.1, r.1 with
  | some m, some rel =>
    let s := r.2
    let p := bmemMalloc s.bmem size c.bmem
    match p.1 with
    | none => some (none, { s with bmem := p.2, mem := Function.update s.mem m { s.mem m with addr := 0 } })
    | some addr => do
      let j ← memRef
      let a := s.app x
      let s ← relate { s with
        bmem := p.2
        mem := Function.update s.mem m ⟨addr, size⟩
        app := Function.update s.app x { a with
          useNum := (a.useNum + 1) % 65536
          refTab := a.refTab.set j.1 ⟨addr, 1⟩ } } x m rel
      some (some addr, s)
  | _, _ => some (none, r.2)

def lwtShmAlloc (s : LwtShm) (thread lwp : Nat) (size : Int) (c : Callocs) :
    Option (Option Nat × LwtShm) :=
  match ownApp s thread lwp c with
  | (none, s) => some (none, s)
  | (some x, s) => allocFor s x size c

def lwtShmRetain (s : LwtShm) (thread lwp addr : Nat) (c : Callocs) : Option (Int × LwtShm) := do
  let m ← findShmMem s addr
  let own := ownApp s thread lwp c
  let x ← own.1
  let s := own.2
  let a := s.app x
  let r ← getShmMemRef a.refTab addr c.ref
  let old ← r.2[r.1]?
  let ref := add32 old.ref 1
  if old.addr = 0 then do
    let rel := getShmRelation (setApp s x { a with refTab := r.2.set r.1 ⟨addr, ref⟩ }) c.relation
    let s := rel.2
    let rel ← rel.1
    let s ← relate (setApp s x { s.app x with useNum := (a.useNum + 1) % 65536 }) x m rel
    some (rtEok, s)
  else some (rtEok, setApp s x { a with refTab := r.2.set r.1 { old with ref := ref } })

/-- The relation of a block with an entry of the thread. A list that does not come back to its head
does not end. -/
def relationOf (s : LwtShm) (thread : Nat) (m : Slot) : Nat → ListNode → Option (Option (Slot × Slot))
  | 0, _ => none
  | n + 1, node =>
    if node = .head m then some none
    else
      match node with
      | .rel r => do
        let x ← (s.relation r).app
        if (s.app x).lwpAddr = thread then some (some (r, x))
        else relationOf s thread m n (s.appNode.next node)
      | _ => none

/-- The end of `lwt_shm_free`: a block without a relation goes. -/
def freeMem (s : LwtShm) (m : Slot) (junk : Nat) : LwtShm :=
  if s.appNode.next (.head m) = .head m then
    putShmMem { s with
      bmem := (bmemFree s.bmem (s.mem m).addr junk).2
      freed := s.freed ++ [(s.mem m).addr] } m
  else s

def lwtShmFree (n : Nat) (s : LwtShm) (thread addr : Nat) (c : Callocs) (junk : Nat) :
    Option (Int × LwtShm) := do
  let m ← findShmMem s addr
  let found ← relationOf s thread m n (s.appNode.next (.head m))
  -- a thread without a relation reads its entry through a null pointer
  let rel ← found
  let a := s.app rel.2
  let r ← getShmMemRef a.refTab addr c.ref
  let old ← r.2[r.1]?
  if old.addr = 0 then none
  else if old.ref = 0 then some (rtEok, freeMem (setApp s rel.2 { a with refTab := r.2 }) m junk)
  else if old.ref = 1 then do
    let appNode ← rtListRemove s.appNode (.rel rel.1)
    let memNode ← rtListRemove s.memNode (.rel rel.1)
    let s := setApp { s with appNode := appNode, memNode := memNode } rel.2
      { a with refTab := r.2.set r.1 ⟨0, 0⟩, useNum := (a.useNum + 65535) % 65536 }
    some (rtEok, freeMem s m junk)
  else
    some (rtEok,
      freeMem (setApp s rel.2 { a with refTab := r.2.set r.1 { old with ref := old.ref - 1 } }) m junk)

/-- The entry is looked for, and that is all. -/
def shmFreeAppByThreadAddr (s : LwtShm) (thread : Nat) : Int × LwtShm :=
  match findShmApp s thread with
  | some _ => (rtEok, s)
  | none => (-rtError, s)

/-- `struct_offset(struct rt_thread, lwp)` is a parameter. -/
def shmFreeAppByLwtAddr (lwpOffset : Nat) (s : LwtShm) (lwtAddr : Nat) : Int × LwtShm :=
  shmFreeAppByThreadAddr s (sub32 lwtAddr lwpOffset)

/-- What `lwt_ref_dec` does to the tables when the last thread of a process ends. -/
def lwtCleanup (lwpOffset : Nat) (s : LwtShm) (thread : Nat) : LwtShm :=
  (shmFreeAppByLwtAddr lwpOffset s (add32 thread lwpOffset)).2

/-! ## Runs -/

inductive ShmAct where
  | alloc (thread lwp : Nat) (size : Int) (c : Callocs)
  | retain (thread lwp addr : Nat) (c : Callocs)
  | free (thread addr : Nat) (c : Callocs) (junk : Nat)

/-- `n` bounds the length of the lists. -/
def shmStep (n : Nat) (s : LwtShm) : ShmAct → Option LwtShm
  | .alloc thread lwp size c => (lwtShmAlloc s thread lwp size c).map Prod.snd
  | .retain thread lwp addr c => (lwtShmRetain s thread lwp addr c).map Prod.snd
  | .free thread addr c junk => (lwtShmFree n s thread addr c junk).map Prod.snd

/-- `lwt_shm_init`, with its memory at `start`. -/
def lwtShmInit (start size : Nat) : LwtShm where
  bmem := bmemCreate start size
  appTab := []
  appUsedNum := fun _ => 0
  app := fun _ => ⟨0, [], 0⟩
  memTab := []
  memUsedNum := fun _ => 0
  mem := fun _ => ⟨0, 0⟩
  relationTab := []
  relation := fun _ => ⟨none, none⟩
  appNode := ⟨fun _ => .null, fun _ => .null⟩
  memNode := ⟨fun _ => .null, fun _ => .null⟩
  freed := []

/-! ## The end of a process -/

theorem lwtCleanup_eq (lwpOffset : Nat) (s : LwtShm) (thread : Nat) :
    lwtCleanup lwpOffset s thread = s := by
  unfold lwtCleanup shmFreeAppByLwtAddr shmFreeAppByThreadAddr
  cases findShmApp s (sub32 (add32 thread lwpOffset) lwpOffset) <;> rfl

/-- The entries in the tables of the threads in `T`. -/
def OfThreads (s : LwtShm) (T : Nat → Prop) (x : Slot) : Prop :=
  x.tab ∈ s.appTab ∧ x.i < shmAppTabSize ∧ T (s.app x).lwpAddr

/-- The entry `x` holds references to the block at `addr`. -/
def Holds (s : LwtShm) (x : Slot) (addr : Nat) : Prop :=
  x.tab ∈ s.appTab ∧ x.i < shmAppTabSize ∧ ∃ r ∈ (s.app x).refTab, r.addr = addr ∧ r.ref ≠ 0

/-- An entry that is in use, or has a reference. -/
def Remains (s : LwtShm) (x : Slot) : Prop :=
  (s.app x).useNum ≠ 0 ∨ ∃ r ∈ (s.app x).refTab, r.ref ≠ 0

/-- `s'` is `s` after the end of the process with the threads in `T`. -/
structure Reclaimed (s s' : LwtShm) (T : Nat → Prop) : Prop where
  gone : ∀ x, OfThreads s' T x → ¬ Remains s' x
  /-- A block that only they refer to is given to `bmem_free`. -/
  returned : ∀ m addr, (s.mem m).size ≠ 0 → (s.mem m).addr = addr → (∃ x, Holds s x addr) →
    (∀ x, Holds s x addr → OfThreads s T x) → addr ∈ s'.freed.drop s.freed.length
  others : ∀ x, ¬ T (s.app x).lwpAddr → s'.app x = s.app x

/-- A state without a reference of the process is one where nothing is left to do. -/
theorem Reclaimed.of_none {s : LwtShm} {T : Nat → Prop} (h : ∀ x, OfThreads s T x → ¬ Remains s x) :
    Reclaimed s s T where
  gone := h
  returned := by
    intro m addr _ _ hx hall
    obtain ⟨x, hx⟩ := hx
    have hrem : Remains s x := by
      obtain ⟨-, -, r, hr, -, href⟩ := hx
      exact Or.inr ⟨r, hr, href⟩
    exact absurd hrem (h x (hall x hx))
  others := fun _ _ => rfl

/-- **The end of a process.** In whatever state the last thread ends, the memory of the threads in
`T` is reclaimed if and only if no entry of theirs is in use or has a reference. -/
theorem reclaimed_iff (lwpOffset : Nat) (s : LwtShm) (thread : Nat) (T : Nat → Prop) :
    Reclaimed s (lwtCleanup lwpOffset s thread) T ↔ ∀ x, OfThreads s T x → ¬ Remains s x := by
  rw [lwtCleanup_eq]
  constructor
  · intro h
    exact h.gone
  · exact Reclaimed.of_none

/-- A thread that ends with a block: its entry remains. -/
theorem block_remains :
    ¬ ∀ (n start size : Nat) (acts : List ShmAct) (s : LwtShm) (lwpOffset thread : Nat),
      exec (shmStep n) (lwtShmInit start size) acts = some s →
      Reclaimed s (lwtCleanup lwpOffset s thread) (· = thread) := by
  intro h
  have hrun : ((exec (shmStep 8) (lwtShmInit 65536 16384)
      [.alloc 4096 8192 100 ⟨some 12288, true, some 16384, some 20480, some 24576⟩]).map
      fun s => (s.appTab, (s.app ⟨12288, 0⟩).lwpAddr, (s.app ⟨12288, 0⟩).useNum)) =
      some ([12288], 4096, 1) := by decide
  obtain ⟨s, hs, hval⟩ := Option.map_eq_some_iff.mp hrun
  simp only [Prod.mk.injEq] at hval
  obtain ⟨htab, hlwp, huse⟩ := hval
  refine (h 8 65536 16384 _ s 100 4096 hs).gone ⟨12288, 0⟩ ?_ ?_
  · rw [lwtCleanup_eq]
    exact ⟨by simp [htab], by decide, hlwp⟩
  · rw [lwtCleanup_eq]
    exact Or.inl (by omega)

end Tudu.Shm
