import TuduOS.Dfs.Fd
import TuduOS.Lib.Lts

/-!
# The descriptors of the processes (`lwt.c`, `dfs.c`)

The descriptor tables of the kernel and of the processes, and the structures that all of them point
to.

* `execveFdt`: the new process gets a table with the descriptor of the console.
* `FileSys.lwtRefDec`: the cleanup of a thread; the last one closes descriptors and frees the
  process.
* `fd_new`, `fd_get` and `fd_put` run on the table of the thread that calls (`dfsFdtableGet`).

A process is named by its place in the list of processes, a thread by its process (`none`: a thread
of the kernel, also the idle thread). The cleanups run in the idle thread.

`dfs.c` sees a process as a `struct rt_lwp`, `lwt.c` makes a `struct rt_lwt`. Where the one has
`fdt`, the other has `lwp_ret` and `hlist.next`, that nothing else sets: `dfsFdt` is the table
there.
-/

namespace Tudu.Lwt

open Dfs

/-- A `struct rt_lwt`. Its `lwt_type` is `LWP_TYPE_DYN_ADDR`: `lwt_execve` gives no load address. -/
structure Proc where
  lwt : Addr
  ref : Int
  text : Option Addr
  data : Option Addr
  args : Option Addr
  /-- The block behind `fdt.fds` -/
  fds : Option Addr
  fdt : FdTable
  /-- `lwp_ret` and `hlist.next` -/
  dfsFdt : FdTable

structure FileSys where
  heap : Addr → Option DfsFd
  /-- `_fdtab` -/
  kernel : FdTable
  procs : List Proc
  /-- The structures that `dfs_file_close` has closed. -/
  closed : List Addr
  /-- The blocks of processes that were freed. -/
  freed : List Addr

namespace FileSys

def empty : FileSys := ⟨fun _ => none, ⟨0, fun _ => none⟩, [], [], []⟩

/-- `dfs_fdtable_get`, with the structures -/
def files (s : FileSys) : Option Nat → Option Files
  | none => some ⟨s.kernel, s.heap⟩
  | some i => (s.procs[i]?).map fun p => ⟨p.dfsFdt, s.heap⟩

def setFiles (s : FileSys) (f : Files) : Option Nat → FileSys
  | none => { s with heap := f.heap, kernel := f.fdt }
  | some i => { s with
    heap := f.heap
    procs := s.procs.modify i fun p => { p with dfsFdt := f.fdt } }

end FileSys

/-- `close`; `result`: what the file system answers. The structure, if it is closed. -/
def close (s : Files) (console fd result : Int) : Option (Option Addr × Files) :=
  (fdGet s console fd).bind fun r =>
    match r.1 with
    | none => some (none, r.2)
    | some d =>
      if result < 0 then (fdPut r.2 d).map fun s => (none, s)
      else
        (r.2.heap d).bind fun x =>
          let s := { r.2 with heap := Function.update r.2.heap d (some { x with path := none }) }
          ((fdPut s d).bind fun s => fdPut s d).map fun s => (some d, s)

/-- The `while` of `lwt_ref_dec`, with `lwt->fdt.maxfd`, and what it closes -/
def closeLoop (console : Int) (result : Nat → Int) : Nat → Files → Option (List Addr × Files)
  | maxfd + 2, s =>
    (close s console maxfd (result maxfd)).bind fun r =>
      (closeLoop console result (maxfd + 1) r.2).map fun t => (r.1.toList ++ t.1, t.2)
  | _, s => some ([], s)

/-- `rt_lwt_free` -/
def rtLwtFree (p : Proc) : List Addr :=
  p.text.toList ++ p.data.toList ++ p.args.toList ++ p.fds.toList ++ [p.lwt]

/-- `lwt_ref_dec` in the idle thread -/
def FileSys.lwtRefDec (s : FileSys) (i : Nat) (console : Int) (result : Nat → Int) : Option FileSys :=
  (s.procs[i]?).bind fun p =>
    if p.ref > 0 then
      if p.ref - 1 = 0 then
        (closeLoop console result p.fdt.maxfd ⟨s.kernel, s.heap⟩).map fun r =>
          ⟨r.2.heap, r.2.fdt, s.procs.eraseIdx i, s.closed ++ r.1, s.freed ++ rtLwtFree p⟩
      else some { s with procs := s.procs.set i { p with ref := p.ref - 1 } }
    else some s

/-- What `lwt_execve` gets from `rt_malloc` before its table of descriptors. -/
structure Blocks where
  lwt : Addr
  text : Addr
  data : Option Addr
  args : Addr

/-- The blocks of a new process -/
def Blocks.addrs (b : Blocks) (fds : Option Addr) : List Addr :=
  [b.text] ++ b.data.toList ++ [b.args] ++ fds.toList ++ [b.lwt]

/-- `lwt_execve` from the table of descriptors on, by a thread of `o`. `fds`: the address that
`rt_malloc` returns for it; `old`: what is in that memory. -/
def execveFdt (s : FileSys) (o : Option Nat) (console : Int) (b : Blocks) (fds : Option Addr)
    (old : Nat → Option Addr) : Option FileSys :=
  (s.files o).bind fun f =>
    (fdGet f console console).bind fun r =>
      -- `fd_put` does not take a null pointer
      r.1.bind fun d =>
        (fdPut r.2 d).bind fun f =>
          fds.bind fun a =>
            let n := (console - dfsFdOffset).toNat
            let s := s.setFiles f o
            some { s with procs := s.procs ++ [{
              lwt := b.lwt
              ref := 1
              text := some b.text
              data := b.data
              args := some b.args
              fds := some a
              fdt := ⟨n + 1, Function.update old n (some d)⟩
              dfsFdt := ⟨0, fun _ => none⟩ }] }

inductive FileAct where
  | new (o : Option Nat) (realloc : Bool) (calloc : Option Addr)
  | get (o : Option Nat) (console fd : Int)
  | put (o : Option Nat) (d : Addr)
  | execve (o : Option Nat) (console : Int) (b : Blocks) (fds : Option Addr)
    (old : Nat → Option Addr)
  /-- `sys_thread_startup` -/
  | startup (i : Nat)
  /-- The cleanup of a thread -/
  | exit (i : Nat) (console : Int) (result : Nat → Int)

def fileStep (fdMax : Nat) (s : FileSys) : FileAct → Option FileSys
  | .new o realloc calloc =>
    if calloc.all fun d => (s.heap d).isNone then
      (s.files o).bind fun f => (fdNew fdMax f realloc calloc).map fun r => s.setFiles r.2 o
    else none
  | .get o console fd => (s.files o).bind fun f => (fdGet f console fd).map fun r => s.setFiles r.2 o
  | .put o d => (s.files o).bind fun f => (fdPut f d).map fun f => s.setFiles f o
  | .execve o console b fds old =>
    -- `rt_malloc` returns no block in use
    if (b.addrs fds ++ s.procs.flatMap rtLwtFree).Nodup then execveFdt s o console b fds old
    else none
  | .startup i =>
    (s.procs[i]?).map fun p => { s with procs := s.procs.set i { p with ref := p.ref + 1 } }
  | .exit i console result => s.lwtRefDec i console result

section

variable {f f' : Files} {console fd result : Int} {a : Option Addr}

/-- `close` of a descriptor that names a structure: `fd_get`, and what follows. -/
theorem close_cases (hc : close f console fd result = some (a, f')) :
    (a = none ∧ fdGet f console fd = some (none, f')) ∨
    ∃ d f1, fdGet f console fd = some (some d, f1) ∧
      ((result < 0 ∧ a = none ∧ fdPut f1 d = some f') ∨
        (¬ result < 0 ∧ a = some d ∧ ∃ x f2, f1.heap d = some x ∧
          fdPut { f1 with heap := Function.update f1.heap d (some { x with path := none }) } d =
            some f2 ∧ fdPut f2 d = some f')) := by
  unfold close at hc
  obtain ⟨⟨b, f1⟩, hg, hc⟩ := Option.bind_eq_some_iff.mp hc
  cases b with
  | none =>
    cases hc
    exact .inl ⟨rfl, hg⟩
  | some d =>
    refine .inr ⟨d, f1, hg, ?_⟩
    dsimp only at hc
    split at hc
    · next hneg =>
      obtain ⟨f2, hp, hc⟩ := Option.map_eq_some_iff.mp hc
      cases hc
      exact .inl ⟨hneg, rfl, hp⟩
    · next hneg =>
      obtain ⟨x, hx, hc⟩ := Option.bind_eq_some_iff.mp hc
      obtain ⟨f3, hp, hc⟩ := Option.map_eq_some_iff.mp hc
      obtain ⟨f2, hp1, hp2⟩ := Option.bind_eq_some_iff.mp hp
      cases hc
      exact .inr ⟨hneg, rfl, x, f2, hx, hp1, hp2⟩

end

end Tudu.Lwt
