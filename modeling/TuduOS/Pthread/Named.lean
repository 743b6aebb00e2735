import TuduOS.Lib.Lts

/-!
# Named message queues and semaphores (`mqueue.c`, `semaphore.c`)

The two files have the same list of named objects, with `posix_mq_find` and `posix_sem_find` as
their difference. The calls are made under the lock of the list from their start to their end, so
that a call is one step. Unnamed semaphores are left out.

* `posixOpen`, `posixClose`, `posixUnlink`: the calls. What `rt_malloc` and `rt_mq_create` give is
  an argument.
* The ghost `log` has what the calls did, the newest first, and the ghost `id` of an object counts
  the objects that were made. `refs log i` is the number of opens minus the number of closes.
* `NamedOk s`: what the calls are for. `Plain k s act` is what a call is not to do.
-/

namespace Tudu.Pthread

open Lts

inductive Kind where
  | mq | sem
  deriving DecidableEq

/-- The bytes of a name, without the null. -/
abbrev Name := List UInt8

/-- `struct mqdes` and `struct posix_sem`. -/
structure Entry where
  /-- Its address. -/
  addr : Nat
  /-- `mq`, `sem`: the address of the object. -/
  obj : Nat
  /-- `rt_uint16_t` -/
  refcount : Nat
  unlinked : Bool
  name : Name
  id : Nat
  deriving DecidableEq

def rtNameMax : Nat := 8

/-- `strncmp(a, b, n) == 0` -/
def strncmpEq : Nat → List UInt8 → List UInt8 → Bool
  | 0, _, _ => true
  | n + 1, a, b =>
    a.headD 0 == b.headD 0 && (a.headD 0 == 0 || strncmpEq n a.tail b.tail)

/-- The bytes of a pointer. -/
def pointerBytes (p : Nat) : List UInt8 := (List.range 4).map fun i => UInt8.ofNat (p >>> (8 * i))

/-- What `object->name` is in the search, at an entry with the rest `l` of the list behind it.
`rt_mq_create` keeps the first bytes of the name. `posix_sem_find` takes the address of the pointer
`sem` for that of the object, and has `sem` and `next` there. -/
def Kind.objectName (k : Kind) (e : Entry) (l : List Entry) : List UInt8 :=
  match k with
  | .mq => e.name.take rtNameMax
  | .sem => pointerBytes e.obj ++ pointerBytes ((l.map Entry.addr).headD 0)

/-- `posix_mq_find`, `posix_sem_find` -/
def posixFind (k : Kind) (name : Name) : List Entry → Option Entry
  | [] => none
  | e :: l => if strncmpEq rtNameMax (k.objectName e l) name then some e else posixFind k name l

/-- `posix_mq_delete`, `posix_sem_delete` -/
def posixDelete (i : Nat) : List Entry → List Entry
  | [] => []
  | e :: l => if e.id = i then l else e :: posixDelete i l

/-- A field of the entry `i` changes. -/
def change (i : Nat) (f : Entry → Entry) (l : List Entry) : List Entry :=
  l.map fun e => if e.id = i then f e else e

inductive Event where
  /-- An open made the object. -/
  | made (name : Name) (i : Nat)
  /-- An open without `O_CREAT` found it. -/
  | found (name : Name) (i : Nat)
  | closed (i : Nat)
  | unlinked (name : Name)
  deriving DecidableEq

structure NamedSys where
  list : List Entry
  /-- The value of the semaphore `posix_mq_lock`. -/
  lock : Nat
  /-- The structures that are allocated. -/
  held : List Nat
  next : Nat
  log : List Event
  deriving DecidableEq

inductive Errno where
  | EEXIST | ENFILE | ENOENT
  deriving DecidableEq

/-- What the allocations give. -/
inductive Alloc where
  | noStruct
  | noObject (addr : Nat)
  | both (addr obj : Nat)
  deriving DecidableEq

namespace NamedSys

def release (s : NamedSys) : NamedSys := { s with lock := s.lock + 1 }

/-- `rt_free` of a structure. -/
def free (s : NamedSys) (a : Nat) : NamedSys := { s with held := s.held.erase a }

/-- The branch of `O_CREAT` after the test for `O_EXCL`. -/
def create (s : NamedSys) (name : Name) : Alloc → NamedSys × Except Errno Nat
  | .noStruct => (s.release, .error .ENFILE)
  | .noObject a => ({ s with held := a :: s.held }.release.free a, .error .ENFILE)
  | .both a o =>
    ({ s with
        list := ⟨a, o, 1, false, name, s.next⟩ :: s.list, held := a :: s.held
        next := s.next + 1, log := .made name s.next :: s.log }.release, .ok s.next)

/-- The branch without `O_CREAT`, with what the search gave. -/
def reopen (s : NamedSys) (name : Name) : Option Entry → NamedSys × Except Errno Nat
  | none => (s.release, .error .ENOENT)
  | some e =>
    ({ s with
        list := change e.id (fun e => { e with refcount := (e.refcount + 1) % 65536 }) s.list
        log := .found name e.id :: s.log }.release, .ok e.id)

/-- `mq_open`, `sem_open`; the object that is returned is given by its `id`. -/
def posixOpen (k : Kind) (s : NamedSys) (name : Name) (creat excl : Bool) (m : Alloc) :
    NamedSys × Except Errno Nat :=
  let s := { s with lock := s.lock - 1 }
  if creat = true then
    if excl = true ∧ (posixFind k name s.list).isSome then (s.release, .error .EEXIST)
    else s.create name m
  else s.reopen name (posixFind k name s.list)

/-- The entry leaves the list and is freed. -/
def remove (s : NamedSys) (e : Entry) : NamedSys :=
  { s with list := posixDelete e.id s.list }.free e.addr

/-- `mq_close`, `sem_close` of the entry `e`. -/
def posixClose (s : NamedSys) (e : Entry) : NamedSys :=
  let s := { s with lock := s.lock - 1, log := .closed e.id :: s.log }
  let n := (e.refcount + 65535) % 65536
  let s := { s with list := change e.id (fun e => { e with refcount := n }) s.list }
  if n = 0 ∧ e.unlinked = true then (s.remove e).release else s.release

/-- `mq_unlink`, `sem_unlink` -/
def posixUnlink (k : Kind) (s : NamedSys) (name : Name) : NamedSys × Except Errno Unit :=
  let s := { s with lock := s.lock - 1, log := .unlinked name :: s.log }
  match posixFind k name s.list with
  | none => (s.release, .error .ENOENT)
  | some e =>
    let s := { s with list := change e.id (fun e => { e with unlinked := true }) s.list }
    if e.refcount = 0 then ((s.remove e).release, .ok ()) else (s.release, .ok ())

end NamedSys

/-- The number of opens minus the number of closes of the object `i`. -/
def refs : List Event → Nat → Nat
  | [], _ => 0
  | .made _ j :: l, i => refs l i + if j = i then 1 else 0
  | .found _ j :: l, i => refs l i + if j = i then 1 else 0
  | .closed j :: l, i => refs l i - if j = i then 1 else 0
  | .unlinked _ :: l, i => refs l i

inductive NamedAct where
  | open (name : Name) (creat excl : Bool) (m : Alloc)
  | close (i : Nat)
  | unlink (name : Name)
  deriving DecidableEq

/-- `rt_malloc` gives memory that nobody has. -/
def Alloc.Fresh (held : List Nat) : Alloc → Prop
  | .noStruct => True
  | .noObject a => a ∉ held
  | .both a _ => a ∉ held

instance (held : List Nat) : (m : Alloc) → Decidable (m.Fresh held)
  | .noStruct => inferInstanceAs (Decidable True)
  | .noObject a => inferInstanceAs (Decidable (a ∉ held))
  | .both a _ => inferInstanceAs (Decidable (a ∉ held))

/-- The calls. What is not open is not closed; a lock that is taken has no next state. -/
def namedStep (k : Kind) (s : NamedSys) : NamedAct → Option NamedSys
  | .open name creat excl m =>
    if 0 < s.lock ∧ m.Fresh s.held then some (s.posixOpen k name creat excl m).1 else none
  | .close i =>
    if 0 < s.lock ∧ 0 < refs s.log i then (s.list.find? fun e => e.id = i).map s.posixClose
    else none
  | .unlink name => if 0 < s.lock then some (s.posixUnlink k name).1 else none

def namedInit : NamedSys := ⟨[], 1, [], 0, []⟩

/-! ## The property and the condition -/

/-- The open of `name` that returned the object `i`. -/
def Event.Opens (e : Event) (name : Name) (i : Nat) : Prop := e = .made name i ∨ e = .found name i

/-- The name of the object `i` was unlinked after it was made. -/
def Unlinked (log : List Event) (i : Nat) : Prop :=
  ∃ name l1 l2, log = l1 ++ .made name i :: l2 ∧ .unlinked name ∈ l1

structure NamedOk (s : NamedSys) : Prop where
  /-- Two opens of a name with no unlink between them give one object. -/
  same : ∀ l1 l2 l3 e e' name i j, s.log = l1 ++ e :: (l2 ++ e' :: l3) → e.Opens name i →
    e'.Opens name j → .unlinked name ∉ l2 → i = j
  /-- A name that is unlinked is found again only after it was made again. -/
  gone : ∀ l1 l2 l3 name i, s.log = l1 ++ .found name i :: (l2 ++ .unlinked name :: l3) →
    ∃ j, .made name j ∈ l2
  /-- An open that fails changes nothing. -/
  fails : ∀ k name creat excl m t e, Alloc.Fresh s.held m →
    s.posixOpen k name creat excl m = (t, .error e) → t = s
  lock : s.lock = 1
  /-- An object is freed if and only if it is unlinked and nobody has it open. -/
  freed : ∀ i < s.next, (∀ e ∈ s.list, e.id ≠ i) ↔ Unlinked s.log i ∧ refs s.log i = 0
  /-- What is in the list is what is allocated. -/
  held : s.held.Perm (s.list.map Entry.addr)

/-- The search gives the newest object of the name. -/
def Sees (k : Kind) (s : NamedSys) (name : Name) : Prop :=
  posixFind k name s.list = s.list.find? fun e => e.name = name

/-- What a call is not to do: search where the search does not see the name right, create what is
there already, find what is unlinked, open 65536 times. -/
def Plain (k : Kind) (s : NamedSys) : NamedAct → Prop
  | .open name creat excl _ =>
    Sees k s name ∧
      (creat = true → excl = false → ∀ e ∈ s.list, e.name = name → e.unlinked = true) ∧
      (creat = false → ∀ e ∈ posixFind k name s.list, e.unlinked = false ∧ e.refcount < 65535)
  | .unlink name => Sees k s name
  | .close _ => True

instance (k : Kind) (s : NamedSys) : (act : NamedAct) → Decidable (Plain k s act)
  | .open name creat excl _ =>
    inferInstanceAs (Decidable (posixFind k name s.list = _ ∧
      (creat = true → excl = false → ∀ e ∈ s.list, e.name = name → e.unlinked = true) ∧
      (creat = false → ∀ e ∈ posixFind k name s.list, e.unlinked = false ∧ e.refcount < 65535)))
  | .unlink name => inferInstanceAs (Decidable (posixFind k name s.list = _))
  | .close _ => inferInstanceAs (Decidable True)

end Tudu.Pthread
