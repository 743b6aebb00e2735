import Mathlib.Logic.Function.Basic

/-!
# Processes (`lwt.c`)

A `struct rt_lwt` is named by its address. `struct lwt_pidmap` maps each process number to a
process.

* `rtLwtNew`: the search for a process number, and the new process in its slot.
* `lwtRefInc`, `lwtRefDec`: the count of references to a process; the last one takes the process
  out of the map and frees it.
-/

namespace Tudu.Lwt

/-- `LWT_PIDMAP_SIZE` -/
def lwtPidmapSize : Nat := 10

/-- `struct rt_lwt`: the process number, the references, and the threads (`t_grp`, in order). -/
structure RtLwt where
  pid : Nat
  ref : Int
  tGrp : List Nat
  deriving DecidableEq

structure LwtPidmap where
  pidmap : Nat → Option Nat
  lastpid : Nat

/-- The `for` of `rt_lwt_new`: it stops at the first empty slot, and at `lastpid` at the latest. -/
def pidSearch (p : LwtPidmap) : Nat :=
  ((List.range p.lastpid).find? fun pid => (p.pidmap pid).isNone).getD p.lastpid

/-- `rt_lwt_new`; `malloc`: the address that `rt_malloc` returns. -/
def rtLwtNew (p : LwtPidmap) (malloc : Option Nat) : Option (Nat × RtLwt) × LwtPidmap :=
  let pid := pidSearch p
  if pid ≥ lwtPidmapSize then (none, { p with lastpid := 0 })
  else
    let p := { p with lastpid := pid + 1 }
    match malloc with
    | none => (none, p)
    | some a => (some (a, ⟨pid, 1, []⟩), { p with pidmap := Function.update p.pidmap pid (some a) })

/-- `lwt_ref_inc` -/
def lwtRefInc (lwt : RtLwt) : RtLwt := { lwt with ref := lwt.ref + 1 }

/-- `lwt_ref_dec`, and whether it frees the process. -/
def lwtRefDec (p : LwtPidmap) (lwt : RtLwt) : LwtPidmap × RtLwt × Bool :=
  if lwt.ref > 0 then
    let lwt := { lwt with ref := lwt.ref - 1 }
    if lwt.ref = 0 then
      ({ p with pidmap := Function.update p.pidmap lwt.pid none }, lwt, true)
    else (p, lwt, false)
  else (p, lwt, false)

/-! ## The search -/

/-- The search stops at an empty slot, or with none below it at `lastpid`. -/
theorem pidSearch_cases (p : LwtPidmap) :
    (pidSearch p < p.lastpid ∧ p.pidmap (pidSearch p) = none) ∨
      (pidSearch p = p.lastpid ∧ ∀ pid, pid < p.lastpid → p.pidmap pid ≠ none) := by
  unfold pidSearch
  cases hf : (List.range p.lastpid).find? fun pid => (p.pidmap pid).isNone with
  | some pid =>
    have hlt := List.mem_range.mp (List.mem_of_find?_eq_some hf)
    have hnone := List.find?_some hf
    exact .inl ⟨hlt, by simpa using hnone⟩
  | none =>
    refine .inr ⟨rfl, fun pid hlt => ?_⟩
    have := List.find?_eq_none.mp hf pid (List.mem_range.mpr hlt)
    simpa using this

end Tudu.Lwt
