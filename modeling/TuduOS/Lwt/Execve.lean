import TuduOS.Kernel.Def
import TuduOS.Lwt.Def

/-!
# `lwt_execve`

The function with all that it takes: the record of the process and its slot in the map, the blocks
of its arguments, text, data and descriptor table, the file, and the thread.

* A block is named by the address that its allocation returns. What the allocator, the file system
  and `rt_thread_create` answer is in `World`; the allocator and `open` return nothing in use.
* The table of descriptors is written without a test of its allocation: the call does not return.
* `lwtExecve_early`: an error before the record exists leaves everything as it was.
* `lwtExecve_late`: one after that leaves the record or its arguments behind.
* `execve_atomic_iff`: the call is atomic exactly if it fails before the record exists, or not.

Left out: the copy of the arguments, the name in `cmd`, and what links the new process with its
parent and starts its thread.
-/

namespace Tudu.Lwt

def rtEempty : Int := 4
def rtEnosys : Int := 6
def rtEio : Int := 8

/-- `ENOMEM` of `libc_errno.h` -/
def enomem : Int := 12

/-- `sizeof(struct rt_lwt)` -/
def sizeofRtLwt : Nat := 172

/-- What the calls of `lwt_execve` answer. -/
structure World where
  /-- `rt_malloc`, by the blocks in use and the size -/
  malloc : List Nat → Nat → Option Nat
  malloc_fresh : ∀ live size a, malloc live size = some a → a ∉ live
  /-- `open`, by the descriptors in use -/
  openFile : List Nat → Option Nat
  open_fresh : ∀ fds fd, openFile fds = some fd → fd ∉ fds
  /-- `ioctl(fd, 0x0002, &env)`: `env.value_len` -/
  ioctl : Option Nat
  /-- `read`, by the number of bytes asked for -/
  read : Nat → Int
  /-- The word at `text_entry + 0x80` -/
  dataSize : Nat
  /-- `libc_stdio_get_console() - DFS_FD_OFFSET`, if `fd_get` finds the descriptor -/
  console : Option Nat
  /-- `rt_thread_create`, by the blocks in use -/
  thread : List Nat → Option Nat
  thread_fresh : ∀ live a, thread live = some a → a ∉ live

/-- The map of the processes, the blocks and the descriptors in use. -/
structure Sys where
  pids : LwtPidmap
  live : List Nat
  fds : List Nat

def rtFree (s : Sys) (a : Nat) : Sys := { s with live := s.live.erase a }

def closeFile (s : Sys) (fd : Nat) : Sys := { s with fds := s.fds.erase fd }

/-- The size that `lwt_argscopy` asks for; `argv`: the lengths of the arguments. -/
def argsSize (argv : List Nat) : Nat :=
  argv.foldl (fun size len => size + (len + 1)) (4 * 3) + 4 * argv.length

/-- `lwt_argscopy`, with the block of the arguments -/
def lwtArgscopy (w : World) (s : Sys) (argv : List Nat) : Except Int Nat × Sys :=
  match w.malloc s.live (argsSize argv) with
  | none => (.error (-rtError), s)
  | some args => (.ok args, { s with live := args :: s.live })

/-- `lwt_load` with the file open: the blocks of the text and the data -/
def loadText (w : World) (s : Sys) : Except Int (Nat × Nat) × Sys :=
  match w.ioctl with
  | none => (.error (-rtEempty), s)
  | some valueLen =>
    let textSize := rtAlign valueLen
    match w.malloc s.live textSize with
    | none => (.error (-rtEnomem), s)
    | some text =>
      let s := { s with live := text :: s.live }
      if w.read textSize ≠ textSize then (.error (-rtEio), s)
      else
        match w.malloc s.live w.dataSize with
        | none => (.error (-rtEnomem), rtFree s text)
        | some data => (.ok (text, data), { s with live := data :: s.live })

def lwtLoad (w : World) (s : Sys) : Except Int (Nat × Nat) × Sys :=
  match w.openFile s.fds with
  | none => (.error (-rtEnosys), s)
  | some fd =>
    let r := loadText w { s with fds := fd :: s.fds }
    (r.1, closeFile r.2 fd)

/-- The table of descriptors; `none`: the assertion of `fd_put`, or the write through a null
pointer. -/
def buildFdt (w : World) (s : Sys) : Option Sys :=
  match w.console with
  | none => none
  | some fd =>
    match w.malloc s.live ((fd + 1) * 4) with
    | none => none
    | some fdt => some { s with live := fdt :: s.live }

/-- `lwt_execve` from the load of the program on -/
def execveLoaded (w : World) (s : Sys) (pid : Nat) : Option (Int × Sys) :=
  match buildFdt w s with
  | none => none
  | some s =>
    match w.thread s.live with
    | none => some (-rtError, s)
    | some thread => some (pid, { s with live := thread :: s.live })

/-- `lwt_execve` from the record of the process on -/
def execveNew (w : World) (s : Sys) (lwt : Nat) (pid : Nat) (argv : List Nat) :
    Option (Int × Sys) :=
  match lwtArgscopy w s argv with
  | (.error _, s) => some (-enomem, rtFree s lwt)
  | (.ok _, s) =>
    match lwtLoad w s with
    | (.error _, s) => some (-rtError, rtFree s lwt)
    | (.ok _, s) => execveLoaded w s pid

def lwtExecve (w : World) (s : Sys) (filename : Option String) (argv : List Nat) :
    Option (Int × Sys) :=
  match filename with
  | none => some (-rtError, s)
  | some _ =>
    match rtLwtNew s.pids (w.malloc s.live sizeofRtLwt) with
    | (none, pids) => some (-rtEnomem, { s with pids := pids })
    | (some (lwt, r), pids) =>
      execveNew w { s with pids := pids, live := lwt :: s.live } lwt r.pid argv

/-! ## What the claim asks of an error -/

/-- No slot points to freed memory. -/
def NoDangling (s : Sys) : Prop := ∀ pid a, s.pids.pidmap pid = some a → a ∈ s.live

/-- Each slot has the value that it had and points to a block in use, and what the call took is
released. -/
structure Undone (s s' : Sys) : Prop where
  pidmap : s'.pids.pidmap = s.pids.pidmap
  dangling : NoDangling s'
  live : ∀ a, a ∈ s'.live → a ∈ s.live
  fds : ∀ fd, fd ∈ s'.fds → fd ∈ s.fds

/-- There is no record: every slot that the search looks at is taken, or memory has run out. -/
def NoRecord (w : World) (s : Sys) : Prop :=
  pidSearch s.pids ≥ lwtPidmapSize ∨ w.malloc s.live sizeofRtLwt = none

/-- Each call that `lwt_execve` makes for a process with this record succeeds. -/
def NothingFails (w : World) (s : Sys) (argv : List Nat) : Prop :=
  ∃ lwt args fd valueLen text data,
    w.malloc s.live sizeofRtLwt = some lwt ∧
    w.malloc (lwt :: s.live) (argsSize argv) = some args ∧
    w.openFile s.fds = some fd ∧ w.ioctl = some valueLen ∧
    w.malloc (args :: lwt :: s.live) (rtAlign valueLen) = some text ∧
    w.read (rtAlign valueLen) = rtAlign valueLen ∧
    w.malloc (text :: args :: lwt :: s.live) w.dataSize = some data ∧
    ∀ s1, buildFdt w { s with live := data :: text :: args :: lwt :: s.live } = some s1 →
      (w.thread s1.live).isSome

/-! ## The parts of the call -/

variable {w : World} {s s' : Sys} {argv : List Nat} {filename : Option String} {result : Int}
  {lwt pid a : Nat}

theorem rtLwtNew_none {p p' : LwtPidmap} {malloc : Option Nat}
    (h : rtLwtNew p malloc = (none, p')) :
    p'.pidmap = p.pidmap ∧ (pidSearch p ≥ lwtPidmapSize ∨ malloc = none) := by
  simp only [rtLwtNew] at h
  split at h
  · next hp =>
    obtain ⟨-, rfl⟩ := Prod.mk.inj h
    exact ⟨rfl, .inl hp⟩
  · cases malloc with
    | none =>
      obtain ⟨-, rfl⟩ := Prod.mk.inj h
      exact ⟨rfl, .inr rfl⟩
    | some a => cases (Prod.mk.inj h).1

theorem rtLwtNew_some {p p' : LwtPidmap} {malloc : Option Nat} {r : RtLwt}
    (h : rtLwtNew p malloc = (some (a, r), p')) :
    malloc = some a ∧ pidSearch p < lwtPidmapSize ∧
      p'.pidmap = Function.update p.pidmap r.pid (some a) := by
  simp only [rtLwtNew] at h
  split at h
  · cases (Prod.mk.inj h).1
  · next hp =>
    cases malloc with
    | none => cases (Prod.mk.inj h).1
    | some b =>
      obtain ⟨h1, rfl⟩ := Prod.mk.inj h
      obtain ⟨rfl, rfl⟩ := Prod.mk.inj (Option.some.inj h1)
      exact ⟨rfl, Nat.lt_of_not_le hp, rfl⟩

/-- A block that was in use stays so, whatever becomes of the load. -/
theorem loadText_live (ha : a ∈ s.live) : a ∈ (loadText w s).2.live := by
  simp only [loadText]
  split
  · exact ha
  · split
    · exact ha
    · next text ht =>
      have hne : a ≠ text := fun he => w.malloc_fresh _ _ _ ht (he ▸ ha)
      split
      · exact List.mem_cons_of_mem text ha
      · split
        · exact (List.mem_erase_of_ne hne).mpr (List.mem_cons_of_mem text ha)
        · exact List.mem_cons_of_mem _ (List.mem_cons_of_mem text ha)

theorem lwtLoad_live (ha : a ∈ s.live) : a ∈ (lwtLoad w s).2.live := by
  simp only [lwtLoad]
  split
  · exact ha
  · exact loadText_live (s := { s with fds := _ :: s.fds }) ha

theorem loadText_ok {text data : Nat} (h : loadText w s = (.ok (text, data), s')) :
    ∃ valueLen, w.ioctl = some valueLen ∧ w.malloc s.live (rtAlign valueLen) = some text ∧
      w.read (rtAlign valueLen) = rtAlign valueLen ∧
      w.malloc (text :: s.live) w.dataSize = some data ∧
      s' = { s with live := data :: text :: s.live } := by
  simp only [loadText] at h
  split at h
  · cases (Prod.mk.inj h).1
  · next valueLen hv =>
    split at h
    · cases (Prod.mk.inj h).1
    · next text' ht =>
      split at h
      · cases (Prod.mk.inj h).1
      · next hr =>
        split at h
        · cases (Prod.mk.inj h).1
        · next data' hd =>
          obtain ⟨h1, rfl⟩ := Prod.mk.inj h
          obtain ⟨rfl, rfl⟩ := Prod.mk.inj (Except.ok.inj h1)
          exact ⟨valueLen, hv, ht, not_not.mp hr, hd, rfl⟩

theorem loadText_of {valueLen text data : Nat} (hv : w.ioctl = some valueLen)
    (ht : w.malloc s.live (rtAlign valueLen) = some text)
    (hr : w.read (rtAlign valueLen) = rtAlign valueLen)
    (hd : w.malloc (text :: s.live) w.dataSize = some data) :
    loadText w s = (.ok (text, data), { s with live := data :: text :: s.live }) := by
  simp only [loadText, hv, ht, hr, ne_eq, not_true_eq_false, if_false, hd]

theorem lwtLoad_ok {text data : Nat} (h : lwtLoad w s = (.ok (text, data), s')) :
    ∃ fd valueLen, w.openFile s.fds = some fd ∧ w.ioctl = some valueLen ∧
      w.malloc s.live (rtAlign valueLen) = some text ∧
      w.read (rtAlign valueLen) = rtAlign valueLen ∧
      w.malloc (text :: s.live) w.dataSize = some data ∧
      s' = { s with live := data :: text :: s.live } := by
  simp only [lwtLoad] at h
  split at h
  · cases (Prod.mk.inj h).1
  · next fd hfd =>
    cases hl : loadText w { s with fds := fd :: s.fds } with
    | mk r s1 =>
      rw [hl] at h
      obtain ⟨rfl, rfl⟩ := Prod.mk.inj h
      obtain ⟨valueLen, hv, ht, hr, hd, rfl⟩ := loadText_ok hl
      refine ⟨fd, valueLen, hfd, hv, ht, hr, hd, ?_⟩
      simp only [closeFile, List.erase_cons_head]

theorem lwtLoad_of {fd valueLen text data : Nat} (hfd : w.openFile s.fds = some fd)
    (hv : w.ioctl = some valueLen) (ht : w.malloc s.live (rtAlign valueLen) = some text)
    (hr : w.read (rtAlign valueLen) = rtAlign valueLen)
    (hd : w.malloc (text :: s.live) w.dataSize = some data) :
    lwtLoad w s = (.ok (text, data), { s with live := data :: text :: s.live }) := by
  have h := loadText_of (s := { s with fds := fd :: s.fds }) hv ht hr hd
  simp only [lwtLoad, hfd, h, closeFile, List.erase_cons_head]

theorem buildFdt_live {s1 : Sys} (h : buildFdt w s = some s1) (ha : a ∈ s.live) : a ∈ s1.live := by
  unfold buildFdt at h
  split at h
  · cases h
  · split at h
    · cases h
    · rw [← Option.some.inj h]
      exact List.mem_cons_of_mem _ ha

theorem buildFdt_congr {p : LwtPidmap} (h : buildFdt w { s with pids := p } = some s') :
    ∃ s1, buildFdt w s = some s1 ∧ s1.live = s'.live := by
  unfold buildFdt at h ⊢
  split at h
  · cases h
  · split at h
    · cases h
    · next fdt hf =>
      refine ⟨{ s with live := fdt :: s.live }, ?_, ?_⟩
      · simp only [show w.malloc s.live _ = some fdt from hf]
      · rw [← Option.some.inj h]

/-! ## Errors -/

/-- An error before the record exists leaves everything as it was. -/
theorem lwtExecve_early (hd : NoDangling s) (hr : filename = none ∨ NoRecord w s)
    (h : lwtExecve w s filename argv = some (result, s')) : Undone s s' := by
  have hsame : Undone s s := ⟨rfl, hd, fun _ => id, fun _ => id⟩
  unfold lwtExecve at h
  split at h
  · obtain ⟨-, rfl⟩ := Prod.mk.inj (Option.some.inj h)
    exact hsame
  · split at h
    · next pids hn =>
      obtain ⟨-, rfl⟩ := Prod.mk.inj (Option.some.inj h)
      obtain ⟨hp, -⟩ := rtLwtNew_none hn
      refine ⟨hp, fun pid a ha => ?_, fun _ => id, fun _ => id⟩
      exact hd pid a (by rw [← hp]; exact ha)
    · next lwt r pids hn =>
      obtain ⟨hm, hlt, -⟩ := rtLwtNew_some hn
      rcases hr with hr | hr | hr
      · cases hr
      · exact absurd hlt (Nat.not_lt.mpr hr)
      · rw [hm] at hr
        cases hr

/-- One after that leaves the record, its arguments or its slot behind. -/
theorem execveNew_error {p : LwtPidmap} (hfresh : lwt ∉ s.live) (hp : p.pidmap pid = some lwt)
    (hneg : result < 0)
    (h : execveNew w { s with pids := p, live := lwt :: s.live } lwt pid argv = some (result, s')) :
    ¬ Undone s s' := by
  intro hu
  unfold execveNew lwtArgscopy at h
  cases ha : w.malloc (lwt :: s.live) (argsSize argv) with
  | none =>
    -- the slot points to the record that was freed
    rw [ha] at h
    obtain ⟨-, rfl⟩ := Prod.mk.inj (Option.some.inj h)
    have hlive := hu.dangling pid lwt hp
    rw [rtFree, List.erase_cons_head] at hlive
    exact hfresh hlive
  | some args =>
    rw [ha] at h
    have hargs : args ∉ lwt :: s.live := w.malloc_fresh _ _ _ ha
    rw [List.mem_cons, not_or] at hargs
    simp only at h
    split at h
    · next e s1 hl =>
      -- the arguments are not freed
      obtain ⟨-, rfl⟩ := Prod.mk.inj (Option.some.inj h)
      have hin : args ∈ s1.live := by
        have hll := lwtLoad_live (w := w)
          (s := { s with pids := p, live := args :: lwt :: s.live }) List.mem_cons_self
        rw [hl] at hll
        exact hll
      exact hargs.2 (hu.live args ((List.mem_erase_of_ne hargs.1).mpr hin))
    · next td s1 hl =>
      have hin : lwt ∈ s1.live := by
        have hll := lwtLoad_live (w := w) (a := lwt)
          (s := { s with pids := p, live := args :: lwt :: s.live }) (by simp)
        rw [hl] at hll
        exact hll
      unfold execveLoaded at h
      split at h
      · cases h
      · next s2 hb =>
        split at h
        · -- nothing is freed
          obtain ⟨-, rfl⟩ := Prod.mk.inj (Option.some.inj h)
          exact hfresh (hu.live lwt (buildFdt_live hb hin))
        · obtain ⟨rfl, -⟩ := Prod.mk.inj (Option.some.inj h)
          exact absurd hneg (by omega)

/-- The call succeeds exactly if nothing fails. -/
theorem execveNew_nonneg {p : LwtPidmap} (hm : w.malloc s.live sizeofRtLwt = some lwt)
    (h : execveNew w { s with pids := p, live := lwt :: s.live } lwt pid argv = some (result, s')) :
    0 ≤ result ↔ NothingFails w s argv := by
  constructor
  · intro hnn
    unfold execveNew lwtArgscopy at h
    cases ha : w.malloc (lwt :: s.live) (argsSize argv) with
    | none =>
      rw [ha] at h
      obtain ⟨rfl, -⟩ := Prod.mk.inj (Option.some.inj h)
      exact absurd hnn (by decide)
    | some args =>
      rw [ha] at h
      simp only at h
      split at h
      · obtain ⟨rfl, -⟩ := Prod.mk.inj (Option.some.inj h)
        exact absurd hnn (by decide)
      · next td s1 hl =>
        obtain ⟨text, data⟩ := td
        obtain ⟨fd, valueLen, hfd, hv, ht, hr, hd, rfl⟩ := lwtLoad_ok hl
        refine ⟨lwt, args, fd, valueLen, text, data, hm, ha, hfd, hv, ht, hr, hd, ?_⟩
        intro s1 hb
        unfold execveLoaded at h
        split at h
        · cases h
        · next s2 hb2 =>
          obtain ⟨s3, hb3, hlv⟩ := buildFdt_congr (s := { s with live := _ }) (p := p) hb2
          rw [hb] at hb3
          obtain rfl := Option.some.inj hb3
          rw [hlv]
          split at h
          · obtain ⟨rfl, -⟩ := Prod.mk.inj (Option.some.inj h)
            exact absurd hnn (by decide)
          · next thread hth =>
            rw [hth]
            rfl
  · rintro ⟨lwt', args, fd, valueLen, text, data, hm', ha, hfd, hv, ht, hr, hd, hth⟩
    rw [hm] at hm'
    obtain rfl := Option.some.inj hm'
    have hl := lwtLoad_of (w := w) (s := { s with pids := p, live := args :: lwt :: s.live })
      hfd hv ht hr hd
    unfold execveNew lwtArgscopy at h
    simp only [ha, hl] at h
    unfold execveLoaded at h
    split at h
    · cases h
    · next s2 hb2 =>
      obtain ⟨s3, hb3, hlv⟩ := buildFdt_congr (s := { s with live := _ }) (p := p) hb2
      have hsome := hth s3 hb3
      rw [hlv] at hsome
      split at h
      · next hn =>
        rw [hn] at hsome
        cases hsome
      · obtain ⟨rfl, -⟩ := Prod.mk.inj (Option.some.inj h)
        omega

/-- The call is atomic exactly if it fails before the record of the process exists, with no slot
that points to freed memory, or does not fail. -/
theorem execve_atomic_iff (h : lwtExecve w s filename argv = some (result, s')) :
    (result < 0 → Undone s s') ↔
      ((filename = none ∨ NoRecord w s) ∧ NoDangling s) ∨
        (filename ≠ none ∧ ¬ NoRecord w s ∧ NothingFails w s argv) := by
  have hearly : filename = none ∨ NoRecord w s →
      result < 0 ∧ s'.pids.pidmap = s.pids.pidmap ∧ s'.live = s.live := by
    intro hr
    unfold lwtExecve at h
    split at h
    · obtain ⟨rfl, rfl⟩ := Prod.mk.inj (Option.some.inj h)
      exact ⟨by decide, rfl, rfl⟩
    · split at h
      · next pids hn =>
        obtain ⟨rfl, rfl⟩ := Prod.mk.inj (Option.some.inj h)
        exact ⟨by decide, (rtLwtNew_none hn).1, rfl⟩
      · next lwt r pids hn =>
        obtain ⟨hm, hlt, -⟩ := rtLwtNew_some hn
        rcases hr with hr | hr | hr
        · cases hr
        · exact absurd hlt (Nat.not_lt.mpr hr)
        · rw [hm] at hr
          cases hr
  by_cases hr : filename = none ∨ NoRecord w s
  · obtain ⟨hneg, hp, hl⟩ := hearly hr
    constructor
    · intro hu
      refine .inl ⟨hr, fun pid a ha => ?_⟩
      rw [← hl]
      exact (hu hneg).dangling pid a (by rw [hp]; exact ha)
    · rintro (⟨-, hd⟩ | ⟨hf, hn, -⟩)
      · exact fun _ => lwtExecve_early hd hr h
      · exact absurd hr (not_or.mpr ⟨hf, hn⟩)
  · obtain ⟨hf, hn⟩ := not_or.mp hr
    unfold lwtExecve at h
    split at h
    · exact absurd rfl hf
    · split at h
      · next pids hnew =>
        obtain ⟨-, hc⟩ := rtLwtNew_none hnew
        exact absurd hc hn
      · next lwt r pids hnew =>
        obtain ⟨hm, -, hp⟩ := rtLwtNew_some hnew
        have hnn := execveNew_nonneg hm h
        have hslot : pids.pidmap r.pid = some lwt := by
          rw [hp, Function.update_self]
        constructor
        · intro hu
          refine .inr ⟨hf, hn, hnn.mp ?_⟩
          by_contra hneg
          have hneg' : result < 0 := by omega
          exact execveNew_error (w.malloc_fresh _ _ _ hm) hslot hneg' h (hu hneg')
        · rintro (⟨hr', -⟩ | ⟨-, -, hok⟩)
          · exact absurd hr' hr
          · intro hneg
            have := hnn.mpr hok
            omega

/-- A number above all of the list. -/
def above (l : List Nat) : Nat := l.foldr max 0 + 1

theorem above_not_mem (l : List Nat) : above l ∉ l := by
  have hle : ∀ a, a ∈ l → a ≤ l.foldr max 0 := by
    induction l with
    | nil =>
      intro a ha
      cases ha
    | cons b l ih =>
      intro a ha
      rw [List.foldr_cons]
      rcases List.mem_cons.mp ha with rfl | ha
      · exact Nat.le_max_left _ _
      · exact Nat.le_trans (ih a ha) (Nat.le_max_right _ _)
  intro hm
  exact Nat.not_succ_le_self _ (hle _ hm)

/-- A file of 256 bytes and memory for `blocks` blocks. -/
def worldOf (blocks : Nat) : World where
  malloc live _ := if live.length < blocks then some (above live) else none
  malloc_fresh live _ a h := by
    split at h
    · rw [← Option.some.inj h]
      exact above_not_mem live
    · cases h
  openFile fds := some (above fds)
  open_fresh fds fd h := by
    rw [← Option.some.inj h]
    exact above_not_mem fds
  ioctl := some 256
  read size := size
  dataSize := 64
  console := some 0
  thread live := some (above live)
  thread_fresh live a h := by
    rw [← Option.some.inj h]
    exact above_not_mem live

/-- No process, no block in use, no open file. -/
def sysInit : Sys := ⟨⟨fun _ => none, 0⟩, [], []⟩

/-- With memory for all blocks the first process gets the number 0. -/
theorem execve_atomic_sample : ∃ s', lwtExecve (worldOf 5) sysInit (some "bin/app") [3] =
      some (0, s') ∧ (((0 : Int) < 0 → Undone sysInit s') ↔
        ((some "bin/app" = none ∨ NoRecord (worldOf 5) sysInit) ∧ NoDangling sysInit) ∨
          (some "bin/app" ≠ none ∧ ¬ NoRecord (worldOf 5) sysInit ∧
            NothingFails (worldOf 5) sysInit [3])) := by
  have hx : (lwtExecve (worldOf 5) sysInit (some "bin/app") [3]).map (fun r => r.1) = some 0 := by
    decide
  obtain ⟨⟨r, s'⟩, hx, rfl⟩ := Option.map_eq_some_iff.mp hx
  exact ⟨s', hx, execve_atomic_iff hx⟩

/-- Memory for the record only: the copy of the arguments fails, and the slot of the process points
to the record, which is freed. With memory for the arguments too these are not freed. -/
theorem execve_leaks : (∃ s', lwtExecve (worldOf 1) sysInit (some "bin/app") [3] =
      some (-enomem, s') ∧ s'.pids.pidmap 0 = some 1 ∧ s'.live = []) ∧
    ∃ s', lwtExecve (worldOf 2) sysInit (some "bin/app") [3] = some (-rtError, s') ∧
      s'.pids.pidmap 0 = some 1 ∧ s'.live = [2] := by
  have h1 : (lwtExecve (worldOf 1) sysInit (some "bin/app") [3]).map
      (fun r => (r.1, r.2.pids.pidmap 0, r.2.live)) = some (-enomem, some 1, []) := by decide
  have h2 : (lwtExecve (worldOf 2) sysInit (some "bin/app") [3]).map
      (fun r => (r.1, r.2.pids.pidmap 0, r.2.live)) = some (-rtError, some 1, [2]) := by decide
  obtain ⟨⟨r1, s1⟩, h1, ho1⟩ := Option.map_eq_some_iff.mp h1
  obtain ⟨⟨r2, s2⟩, h2, ho2⟩ := Option.map_eq_some_iff.mp h2
  simp only [Prod.mk.injEq] at ho1 ho2
  obtain ⟨rfl, ho1⟩ := ho1
  obtain ⟨rfl, ho2⟩ := ho2
  exact ⟨⟨s1, h1, ho1⟩, s2, h2, ho2⟩

end Tudu.Lwt
