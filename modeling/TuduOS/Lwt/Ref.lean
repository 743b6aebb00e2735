import TuduOS.Lib.Lts
import TuduOS.Lwt.Def

/-!
# The reference count of a process

One process from the moment `lwt_execve` has linked its main thread: the threads that it creates,
starts, ends and deletes, and the idle thread that runs their cleanups. Each section with
interrupts disabled is one step, and so is each statement of `lwt_execve` behind the link; the
threads, `lwt_execve` and the idle thread interleave.

* `RefRun`: the process, its threads, the defunct list; `uaf` records a use of the freed process.
  The mark `counted` of a thread says that a reference was taken for it: by `rt_lwt_new` for the
  main thread, by `sys_thread_startup` for the others.
* `RefOk s`: the process is freed once, by the cleanup of the last thread of `t_grp`; nothing uses
  it afterwards; `ref` counts the `counted` threads.
* `RefKeeps s act`: `lwt_execve` writes `ref = 1` when it is 1; a thread is started once; a cleanup
  is of a counted thread, and the one that drops the last reference leaves no thread behind that
  was never started.

**The runs along `RefKeeps` are the runs through `RefOk` states** (`lwt_ref_iff`).
-/

namespace Tudu.Lwt

open Lts

inductive ThrStat where
  | absent | init | ready | close
  deriving DecidableEq

/-- A thread of the process. `starts`: the thread that it is starting, between `lwt_ref_inc` and
`rt_thread_startup`. -/
structure LwtThread where
  stat : ThrStat
  counted : Bool
  starts : Option Nat
  deriving DecidableEq

/-- How far `lwt_execve` is: the main thread is linked, it is started, `ref` is set again. -/
inductive Execve where
  | linked | started | done
  deriving DecidableEq

structure RefRun where
  pids : LwtPidmap
  lwt : RtLwt
  /-- How often the process was freed. -/
  freed : Nat
  thr : Nat → LwtThread
  /-- `rt_thread_defunct` -/
  defunct : List Nat
  execve : Execve
  /-- The freed process was used. -/
  uaf : Bool

inductive RefAct where
  /-- `lwt_execve`: `rt_thread_startup(thread)`. -/
  | startMain
  /-- `lwt_execve`: `lwt->ref = 1`. -/
  | setRef
  /-- `sys_thread_create` of `t` by the thread `c`. -/
  | create (c t : Nat)
  /-- `sys_thread_startup(t)` by the thread `c`: `lwt_ref_inc`. -/
  | refInc (c t : Nat)
  /-- `sys_thread_startup` by the thread `c`: `rt_thread_startup`. -/
  | startup (c : Nat)
  /-- `rt_thread_exit` of the thread `t`. -/
  | exit (t : Nat)
  /-- `rt_thread_delete(t)`. -/
  | delete (t : Nat)
  /-- The idle thread takes a defunct thread and runs its cleanup. -/
  | cleanup
  deriving DecidableEq

/-- The main thread of the process. -/
def mainThread : Nat := 0

/-- A use of the process. -/
def RefRun.touch (s : RefRun) : RefRun := { s with uaf := s.uaf || decide (0 < s.freed) }

def RefRun.setThr (s : RefRun) (t : Nat) (x : LwtThread) : RefRun :=
  { s with thr := Function.update s.thr t x }

/-- A thread ends: it is closed and goes to the front of the defunct list. -/
def RefRun.close (s : RefRun) (t : Nat) : RefRun :=
  { s.setThr t { s.thr t with stat := .close } with defunct := t :: s.defunct }

/-- `lwt_cleanup` and `lwt_son_cleanup`, which do the same to the process. -/
def lwtCleanup (s : RefRun) (t : Nat) : RefRun :=
  let s := s.touch
  let (pids, lwt, freed) := lwtRefDec s.pids { s.lwt with tGrp := s.lwt.tGrp.erase t }
  { s with pids, lwt, freed := if freed then s.freed + 1 else s.freed }

/-- One step. `rt_thread_startup` asserts that the thread was not started before. -/
def refStep (s : RefRun) : RefAct → Option RefRun
  | .startMain =>
    if s.execve = .linked ∧ (s.thr mainThread).stat = .init then
      some { s.setThr mainThread { s.thr mainThread with stat := .ready } with execve := .started }
    else none
  | .setRef =>
    if s.execve = .started then
      some { s.touch with execve := .done, lwt := { s.lwt with ref := 1 } }
    else none
  | .create c t =>
    if (s.thr c).stat = .ready ∧ (s.thr c).starts = none ∧ (s.thr t).stat = .absent then
      some { s.touch.setThr t ⟨.init, false, none⟩ with
        lwt := { s.lwt with tGrp := s.lwt.tGrp ++ [t] } }
    else none
  | .refInc c t =>
    if (s.thr c).stat = .ready ∧ (s.thr c).starts = none ∧ (s.thr t).stat ≠ .absent then
      let s := { s.touch.setThr t { s.thr t with counted := true } with lwt := lwtRefInc s.lwt }
      some (s.setThr c { s.thr c with starts := some t })
    else none
  | .startup c =>
    match (s.thr c).starts with
    | none => none
    | some t =>
      if (s.thr c).stat = .ready ∧ (s.thr t).stat = .init then
        let s := s.setThr t { s.thr t with stat := .ready }
        some (s.setThr c { s.thr c with starts := none })
      else none
  | .exit t =>
    if (s.thr t).stat = .ready ∧ (s.thr t).starts = none then some (s.close t) else none
  | .delete t =>
    if (s.thr t).stat = .init ∨ (s.thr t).stat = .ready then some (s.close t) else none
  | .cleanup =>
    match s.defunct with
    | [] => none
    | t :: ts => some (lwtCleanup { s.setThr t ⟨.absent, false, none⟩ with defunct := ts } t)

/-- `lwt_execve` has linked the main thread of the process `a`, the number of which is `pid`. -/
def refInit (pids : LwtPidmap) (pid : Nat) : RefRun where
  pids := pids
  lwt := ⟨pid, 1, [mainThread]⟩
  freed := 0
  thr := fun t => if t = mainThread then ⟨.init, true, none⟩ else ⟨.absent, false, none⟩
  defunct := []
  execve := .linked
  uaf := false

/-- The process is freed once, by the cleanup of the last thread of `t_grp`; nothing uses it
afterwards; `ref` counts the threads for which a reference was taken. -/
structure RefOk (s : RefRun) : Prop where
  uaf : s.uaf = false
  freed : s.freed = if s.lwt.tGrp = [] then 1 else 0
  quiet : 0 < s.freed → s.defunct = [] ∧ ∀ t, (s.thr t).stat ≠ .ready
  count : s.lwt.ref = s.lwt.tGrp.countP fun t => (s.thr t).counted

/-- A step that keeps the count (module doc). -/
def RefKeeps (s : RefRun) : RefAct → Prop
  | .setRef => s.lwt.ref = 1
  | .refInc _ t => (s.thr t).counted = false
  | .cleanup => ∀ t ∈ s.defunct.head?, (s.thr t).counted = true ∧
      (1 < s.lwt.ref ∨ ∀ u ∈ s.lwt.tGrp, (s.thr u).counted = true)
  | _ => True

instance (s : RefRun) : ∀ act, Decidable (RefKeeps s act)
  | .setRef => inferInstanceAs (Decidable (s.lwt.ref = 1))
  | .refInc _ t => inferInstanceAs (Decidable ((s.thr t).counted = false))
  | .cleanup => inferInstanceAs (Decidable (∀ t ∈ s.defunct.head?, (s.thr t).counted = true ∧
      (1 < s.lwt.ref ∨ ∀ u ∈ s.lwt.tGrp, (s.thr u).counted = true)))
  | .startMain | .create .. | .startup _ | .exit _ | .delete _ => inferInstanceAs (Decidable True)

/-- The invariant: `t_grp` lists the threads that are there, the defunct list the closed ones, and
a process with threads has references. -/
structure RefInv (s : RefRun) : Prop extends RefOk s where
  nodup : s.lwt.tGrp.Nodup
  mem : ∀ t, t ∈ s.lwt.tGrp ↔ (s.thr t).stat ≠ .absent
  closed : ∀ t, t ∈ s.defunct ↔ (s.thr t).stat = .close
  once : s.defunct.Nodup
  pos : s.lwt.tGrp ≠ [] → 0 < s.lwt.ref

variable {s s' : RefRun}

@[simp] theorem setThr_stat (s : RefRun) (t u : Nat) (x : LwtThread) :
    ((s.setThr t x).thr u).stat = if u = t then x.stat else (s.thr u).stat := by
  by_cases h : u = t
  · subst h; simp [RefRun.setThr]
  · simp [RefRun.setThr, h]

@[simp] theorem setThr_counted (s : RefRun) (t u : Nat) (x : LwtThread) :
    ((s.setThr t x).thr u).counted = if u = t then x.counted else (s.thr u).counted := by
  by_cases h : u = t
  · subst h; simp [RefRun.setThr]
  · simp [RefRun.setThr, h]

@[simp] theorem setThr_defunct (s : RefRun) (t : Nat) (x : LwtThread) :
    (s.setThr t x).defunct = s.defunct := rfl

/-! ## The invariant -/

/-- When a thread is there, the process is not freed. -/
theorem RefInv.freed_zero (h : RefInv s) {t : Nat} (ht : (s.thr t).stat ≠ .absent) :
    s.freed = 0 := by
  have hmem : s.lwt.tGrp ≠ [] := List.ne_nil_of_mem ((h.mem t).mpr ht)
  rw [h.freed, if_neg hmem]

/-- The process is quiet when its threads are gone. -/
theorem quiet_of (hfreed : s.freed = if s.lwt.tGrp = [] then 1 else 0)
    (hmem : ∀ t, t ∈ s.lwt.tGrp ↔ (s.thr t).stat ≠ .absent)
    (hclosed : ∀ t, t ∈ s.defunct ↔ (s.thr t).stat = .close) (hf : 0 < s.freed) :
    s.defunct = [] ∧ ∀ t, (s.thr t).stat ≠ .ready := by
  have hnil : s.lwt.tGrp = [] := by
    by_contra hne
    rw [hfreed, if_neg hne] at hf
    exact Nat.lt_irrefl _ hf
  have habs : ∀ t, (s.thr t).stat = .absent := by
    intro t
    by_contra hne
    have := (hmem t).mpr hne
    rw [hnil] at this
    cases this
  refine ⟨List.eq_nil_iff_forall_not_mem.mpr fun t ht => ?_, fun t => by rw [habs t]; decide⟩
  have := (hclosed t).mp ht
  rw [habs t] at this
  cases this

/-- A step that leaves the process alone, makes no thread come or go, and keeps the defunct list
true to the states of the threads. -/
theorem RefInv.restat (h : RefInv s) (hlwt : s'.lwt = s.lwt) (hfreed : s'.freed = s.freed)
    (huaf : s'.uaf = s.uaf) (hcounted : ∀ t, (s'.thr t).counted = (s.thr t).counted)
    (habs : ∀ t, (s'.thr t).stat = .absent ↔ (s.thr t).stat = .absent)
    (hclosed : ∀ t, t ∈ s'.defunct ↔ (s'.thr t).stat = .close) (honce : s'.defunct.Nodup) :
    RefInv s' := by
  have hmem : ∀ t, t ∈ s'.lwt.tGrp ↔ (s'.thr t).stat ≠ .absent := fun t => by
    rw [hlwt, h.mem t, ne_eq, ne_eq, habs t]
  have hf : s'.freed = if s'.lwt.tGrp = [] then 1 else 0 := by rw [hfreed, hlwt, h.freed]
  refine ⟨⟨huaf.trans h.uaf, hf, quiet_of hf hmem hclosed, ?_⟩, hlwt ▸ h.nodup, hmem, hclosed,
    honce, hlwt ▸ h.pos⟩
  simp only [hlwt, hcounted]
  exact h.count

/-! ## Threads that start and end -/

theorem RefInv.execve (h : RefInv s) (e : Execve) : RefInv { s with execve := e } :=
  h.restat rfl rfl rfl (fun _ => rfl) (fun _ => Iff.rfl) h.closed h.once

/-- What one thread is starting is its own matter. -/
theorem RefInv.setStarts (h : RefInv s) (c : Nat) (x : Option Nat) :
    RefInv (s.setThr c { s.thr c with starts := x }) := by
  have hstat : ∀ t, ((s.setThr c { s.thr c with starts := x }).thr t).stat = (s.thr t).stat := by
    intro t
    by_cases ht : t = c <;> simp [ht]
  refine h.restat rfl rfl rfl (fun t => ?_) (fun t => by rw [hstat]) (fun t => ?_) h.once
  · by_cases ht : t = c <;> simp [ht]
  · rw [hstat]
    exact h.closed t

theorem RefInv.ready (h : RefInv s) {t : Nat} (ht : (s.thr t).stat = .init) :
    RefInv (s.setThr t { s.thr t with stat := .ready }) := by
  refine h.restat rfl rfl rfl (fun u => ?_) (fun u => ?_) (fun u => ?_) h.once
  · by_cases hu : u = t <;> simp [hu]
  · by_cases hu : u = t <;> simp [hu, ht]
  · have hc := h.closed u
    by_cases hu : u = t
    · subst hu; simpa [ht] using hc
    · simpa [hu] using hc

theorem RefInv.close (h : RefInv s) {t : Nat}
    (ht : (s.thr t).stat = .init ∨ (s.thr t).stat = .ready) : RefInv (s.close t) := by
  have habs : (s.thr t).stat ≠ .absent := by rcases ht with ht | ht <;> rw [ht] <;> decide
  have hopen : (s.thr t).stat ≠ .close := by rcases ht with ht | ht <;> rw [ht] <;> decide
  refine h.restat rfl rfl rfl (fun u => ?_) (fun u => ?_) (fun u => ?_) ?_
  · by_cases hu : u = t <;> simp [RefRun.close, hu]
  · by_cases hu : u = t <;> simp [RefRun.close, hu, habs]
  · have hc := h.closed u
    by_cases hu : u = t
    · subst hu; simp [RefRun.close]
    · simpa [RefRun.close, hu] using hc
  · exact List.nodup_cons.mpr ⟨fun hm => hopen ((h.closed t).mp hm), h.once⟩

/-! ## The count -/

theorem touch_eq (hf : s.freed = 0) : s.touch = s := by
  have hu : (s.uaf || decide (0 < s.freed)) = s.uaf := by simp [hf]
  rw [RefRun.touch, hu]

/-- The count of `counted` threads does not see a thread that is not in the list. -/
theorem countP_setThr {l : List Nat} {t : Nat} (ht : t ∉ l) (x : LwtThread) :
    (l.countP fun u => ((s.setThr t x).thr u).counted) = l.countP fun u => (s.thr u).counted := by
  refine List.countP_congr fun u hu => ?_
  have hut : u ≠ t := fun e => ht (e ▸ hu)
  simp [hut]

/-- The list without one thread. -/
theorem countP_erase_add {l : List Nat} {t : Nat} (ht : t ∈ l) (f : Nat → Bool) :
    (l.erase t).countP f + (if f t then 1 else 0) = l.countP f := by
  rw [(List.perm_cons_erase ht).countP_eq, List.countP_cons]

theorem RefInv.create (h : RefInv s) {c t : Nat} (hc : (s.thr c).stat = .ready)
    (ht : (s.thr t).stat = .absent) :
    RefInv { s.touch.setThr t ⟨.init, false, none⟩ with
      lwt := { s.lwt with tGrp := s.lwt.tGrp ++ [t] } } := by
  have hthere : (s.thr c).stat ≠ .absent := by rw [hc]; decide
  have hf := h.freed_zero hthere
  have htn : t ∉ s.lwt.tGrp := fun hm => (h.mem t).mp hm ht
  have hpos := h.pos (List.ne_nil_of_mem ((h.mem c).mpr hthere))
  rw [touch_eq hf]
  refine ⟨⟨h.uaf, ?_, fun hlt => ?_, ?_⟩, ?_, fun u => ?_, fun u => ?_, h.once, fun _ => hpos⟩
  · show s.freed = if s.lwt.tGrp ++ [t] = [] then 1 else 0
    rw [hf, if_neg (List.append_ne_nil_of_right_ne_nil _ (List.cons_ne_nil _ _))]
  · have : 0 < s.freed := hlt
    omega
  · have hcount := h.count
    rw [← countP_setThr htn ⟨.init, false, none⟩] at hcount
    show s.lwt.ref = (s.lwt.tGrp ++ [t]).countP _
    rw [List.countP_append, hcount]
    simp [RefRun.setThr]
  · exact List.nodup_append.mpr ⟨h.nodup, List.nodup_cons.mpr ⟨List.not_mem_nil, List.nodup_nil⟩,
      fun a ha b hb e => htn (List.mem_singleton.mp hb ▸ e ▸ ha)⟩
  · by_cases hu : u = t
    · subst hu; simp [RefRun.setThr]
    · simpa [RefRun.setThr, hu] using h.mem u
  · have hcl := h.closed u
    by_cases hu : u = t
    · subst hu; simpa [RefRun.setThr, ht] using hcl
    · simpa [RefRun.setThr, hu] using hcl

/-- A reference for a thread that had none. -/
theorem RefInv.refInc (h : RefInv s) {t : Nat} (ht : (s.thr t).stat ≠ .absent)
    (hn : (s.thr t).counted = false) :
    RefInv { s.touch.setThr t { s.thr t with counted := true } with lwt := lwtRefInc s.lwt } := by
  have hf := h.freed_zero ht
  have hmem := (h.mem t).mpr ht
  have hpos := h.pos (List.ne_nil_of_mem hmem)
  have hstat : ∀ u, ((s.setThr t { s.thr t with counted := true }).thr u).stat = (s.thr u).stat := by
    intro u
    by_cases hu : u = t <;> simp [hu]
  rw [touch_eq hf]
  refine ⟨⟨h.uaf, h.freed, fun hlt => ?_, ?_⟩, h.nodup, fun u => ?_, fun u => ?_, h.once, fun _ => ?_⟩
  · have : 0 < s.freed := hlt
    omega
  · have hout : t ∉ s.lwt.tGrp.erase t := fun hm => ((List.Nodup.mem_erase_iff h.nodup).mp hm).1 rfl
    have h1 := countP_erase_add hmem fun u => (s.thr u).counted
    have h2 := countP_erase_add hmem fun u =>
      ((s.setThr t { s.thr t with counted := true }).thr u).counted
    rw [countP_setThr hout, if_pos (by simp [RefRun.setThr])] at h2
    rw [if_neg (by simp [hn])] at h1
    have hcount := h.count
    have hup : s.lwt.ref + 1 = ((s.lwt.tGrp.countP fun u =>
        ((s.setThr t { s.thr t with counted := true }).thr u).counted : Nat) : Int) := by
      omega
    exact hup
  · exact (h.mem u).trans (by rw [hstat])
  · exact (h.closed u).trans (by rw [hstat])
  · show 0 < s.lwt.ref + 1
    omega

/-! ## The cleanup -/

/-- What the cleanup of the thread `t` does to a process that is not freed. -/
theorem lwtCleanup_eq {t : Nat} (hf : s.freed = 0) (hpos : 0 < s.lwt.ref) :
    (lwtCleanup s t).lwt = { s.lwt with ref := s.lwt.ref - 1, tGrp := s.lwt.tGrp.erase t } ∧
      (lwtCleanup s t).freed = (if s.lwt.ref = 1 then 1 else 0) ∧
      (lwtCleanup s t).uaf = s.uaf ∧ (lwtCleanup s t).thr = s.thr ∧
      (lwtCleanup s t).defunct = s.defunct := by
  unfold lwtCleanup lwtRefDec
  rw [touch_eq hf]
  by_cases h1 : s.lwt.ref = 1
  · simp [h1, hf]
  · have h1' : ¬ s.lwt.ref - 1 = 0 := by omega
    simp [hpos, h1, h1', hf]

/-- The defunct thread `t` without its object. -/
def RefRun.reap (s : RefRun) (t : Nat) (ts : List Nat) : RefRun :=
  { s.setThr t ⟨.absent, false, none⟩ with defunct := ts }

theorem RefInv.cleanup (h : RefInv s) {t : Nat} {ts : List Nat} (hd : s.defunct = t :: ts)
    (hct : (s.thr t).counted = true)
    (hlast : 1 < s.lwt.ref ∨ ∀ u ∈ s.lwt.tGrp, (s.thr u).counted = true) :
    RefInv (lwtCleanup (s.reap t ts) t) := by
  have hstat : (s.thr t).stat = .close := (h.closed t).mp (hd ▸ List.mem_cons_self)
  have hthere : (s.thr t).stat ≠ .absent := by rw [hstat]; decide
  have hf := h.freed_zero hthere
  have hmem := (h.mem t).mpr hthere
  have hpos := h.pos (List.ne_nil_of_mem hmem)
  obtain ⟨hts, honce⟩ := List.nodup_cons.mp (hd ▸ h.once)
  obtain ⟨hl, hfr, hua, hth, hde⟩ := lwtCleanup_eq (s := s.reap t ts) (t := t) hf hpos
  have hout : t ∉ s.lwt.tGrp.erase t := fun hm => ((List.Nodup.mem_erase_iff h.nodup).mp hm).1 rfl
  have hcount : s.lwt.ref - 1 =
      ((s.lwt.tGrp.erase t).countP fun u => ((s.reap t ts).thr u).counted : Nat) := by
    have h1 := countP_erase_add hmem fun u => (s.thr u).counted
    rw [if_pos hct, ← countP_setThr hout ⟨.absent, false, none⟩] at h1
    have h2 := h.count
    show _ = (((s.lwt.tGrp.erase t).countP fun u =>
      ((s.setThr t ⟨.absent, false, none⟩).thr u).counted : Nat) : Int)
    omega
  -- the last reference and the last thread go together
  have hiff : s.lwt.ref = 1 ↔ s.lwt.tGrp.erase t = [] := by
    constructor
    · intro h1
      have hall := hlast.resolve_left (by omega)
      have hlen : s.lwt.tGrp.length = 1 := by
        have h2 := h.count
        rw [List.countP_eq_length.mpr hall] at h2
        omega
      exact List.eq_nil_of_length_eq_zero (by rw [List.length_erase_of_mem hmem, hlen])
    · intro h1
      rw [h1, List.countP_nil] at hcount
      omega
  have hmem' : ∀ u, u ∈ s.lwt.tGrp.erase t ↔ ((s.reap t ts).thr u).stat ≠ .absent := by
    intro u
    rw [List.Nodup.mem_erase_iff h.nodup, h.mem u]
    by_cases hu : u = t <;> simp [RefRun.reap, hu]
  have hclosed : ∀ u, u ∈ ts ↔ ((s.reap t ts).thr u).stat = .close := by
    intro u
    have hc := h.closed u
    rw [hd, List.mem_cons] at hc
    by_cases hu : u = t
    · subst hu; simp [RefRun.reap, RefRun.setThr, hts]
    · simpa [RefRun.reap, RefRun.setThr, hu] using hc
  have hfreed : (lwtCleanup (s.reap t ts) t).freed =
      if (lwtCleanup (s.reap t ts) t).lwt.tGrp = [] then 1 else 0 := by
    rw [hfr, hl]
    exact if_congr hiff rfl rfl
  have hmem'' : ∀ u, u ∈ (lwtCleanup (s.reap t ts) t).lwt.tGrp ↔
      ((lwtCleanup (s.reap t ts) t).thr u).stat ≠ .absent := by
    rw [hl, hth]
    exact hmem'
  have hclosed' : ∀ u, u ∈ (lwtCleanup (s.reap t ts) t).defunct ↔
      ((lwtCleanup (s.reap t ts) t).thr u).stat = .close := by
    rw [hde, hth]
    exact hclosed
  refine ⟨⟨hua.trans h.uaf, hfreed, quiet_of hfreed hmem'' hclosed', ?_⟩, ?_, hmem'', hclosed', ?_, ?_⟩
  · rw [hl, hth]
    exact hcount
  · rw [hl]
    exact h.nodup.erase t
  · rw [hde]
    exact honce
  · rw [hl]
    intro hne
    have : s.lwt.ref ≠ 1 := fun h1 => hne (hiff.mp h1)
    show 0 < s.lwt.ref - 1
    omega

/-- A cleanup of a thread that was not counted, or one that drops the last reference and leaves a
thread behind. -/
theorem RefInv.cleanup_lost (h : RefInv s) {t : Nat} {ts : List Nat} (hd : s.defunct = t :: ts)
    (hbad : ¬ ((s.thr t).counted = true ∧
      (1 < s.lwt.ref ∨ ∀ u ∈ s.lwt.tGrp, (s.thr u).counted = true))) :
    ¬ RefOk (lwtCleanup (s.reap t ts) t) := by
  have hstat : (s.thr t).stat = .close := (h.closed t).mp (hd ▸ List.mem_cons_self)
  have hthere : (s.thr t).stat ≠ .absent := by rw [hstat]; decide
  have hf := h.freed_zero hthere
  have hmem := (h.mem t).mpr hthere
  have hpos := h.pos (List.ne_nil_of_mem hmem)
  obtain ⟨hl, hfr, -, hth, -⟩ := lwtCleanup_eq (s := s.reap t ts) (t := t) hf hpos
  have hout : t ∉ s.lwt.tGrp.erase t := fun hm => ((List.Nodup.mem_erase_iff h.nodup).mp hm).1 rfl
  intro hP
  by_cases hct : (s.thr t).counted = true
  · -- the last reference goes, and `u` stays
    have hlast : ¬ (1 < s.lwt.ref ∨ ∀ u ∈ s.lwt.tGrp, (s.thr u).counted = true) :=
      fun hx => hbad ⟨hct, hx⟩
    obtain ⟨hle, hsome⟩ := not_or.mp hlast
    obtain ⟨u, hsome⟩ := Classical.not_forall.mp hsome
    obtain ⟨hu, hcu⟩ := Classical.not_imp.mp hsome
    have hut : u ≠ t := fun e => hcu (e ▸ hct)
    have hne : s.lwt.tGrp.erase t ≠ [] := List.ne_nil_of_mem ((List.mem_erase_of_ne hut).mpr hu)
    have hfreed : (if s.lwt.ref = 1 then 1 else 0) = if s.lwt.tGrp.erase t = [] then 1 else 0 := by
      have := hP.freed
      rwa [hfr, hl] at this
    rw [if_neg hne, if_pos (by omega)] at hfreed
    cases hfreed
  · -- a reference goes that was not taken
    have h1 := countP_erase_add hmem fun u => (s.thr u).counted
    rw [if_neg hct, ← countP_setThr hout ⟨.absent, false, none⟩] at h1
    have h2 := h.count
    have h3 := hP.count
    rw [hl, hth] at h3
    have h4 : s.lwt.ref - 1 = (((s.lwt.tGrp.erase t).countP fun u =>
      ((s.setThr t ⟨.absent, false, none⟩).thr u).counted : Nat) : Int) := h3
    omega

/-! ## Runs -/

theorem RefInv.init (pids : LwtPidmap) (pid : Nat) : RefInv (refInit pids pid) where
  uaf := rfl
  freed := rfl
  quiet := fun h => absurd h (Nat.lt_irrefl 0)
  count := rfl
  nodup := by simp [refInit]
  mem := fun t => by
    by_cases ht : t = mainThread <;> simp [refInit, ht]
  closed := fun t => by
    by_cases ht : t = mainThread <;> simp [refInit, ht]
  once := List.nodup_nil
  pos := fun _ => Int.one_pos

/-- `lwt_execve` writes the count that is there. -/
theorem RefInv.setRef (h : RefInv s) (hc : s.lwt.ref = 1) :
    RefInv { s.touch with execve := .done, lwt := { s.lwt with ref := 1 } } := by
  have hf : s.freed = 0 := by
    rw [h.freed]
    refine if_neg fun hnil => ?_
    have hcount := h.count
    rw [hc, hnil, List.countP_nil] at hcount
    cases hcount
  have hlwt : { s.lwt with ref := 1 } = s.lwt := by rw [← hc]
  rw [touch_eq hf, hlwt]
  exact h.execve _

theorem RefInv.step (h : RefInv s) {act : RefAct} (hc : RefKeeps s act)
    (hs : refStep s act = some s') : RefInv s' := by
  cases act with
  | startMain =>
    simp only [refStep, Option.ite_none_right_eq_some, Option.some_inj] at hs
    obtain ⟨⟨-, hstat⟩, rfl⟩ := hs
    exact (h.ready hstat).execve _
  | setRef =>
    simp only [refStep, Option.ite_none_right_eq_some, Option.some_inj] at hs
    obtain ⟨-, rfl⟩ := hs
    exact h.setRef hc
  | create c t =>
    simp only [refStep, Option.ite_none_right_eq_some, Option.some_inj] at hs
    obtain ⟨⟨hstat, -, habs⟩, rfl⟩ := hs
    exact h.create hstat habs
  | refInc c t =>
    simp only [refStep, Option.ite_none_right_eq_some, Option.some_inj] at hs
    obtain ⟨⟨-, -, hthere⟩, rfl⟩ := hs
    exact (h.refInc hthere hc).setStarts c _
  | startup c =>
    simp only [refStep] at hs
    split at hs
    · cases hs
    · simp only [Option.ite_none_right_eq_some, Option.some_inj] at hs
      obtain ⟨⟨-, hstat⟩, rfl⟩ := hs
      exact (h.ready hstat).setStarts c _
  | exit t =>
    simp only [refStep, Option.ite_none_right_eq_some, Option.some_inj] at hs
    obtain ⟨⟨hstat, -⟩, rfl⟩ := hs
    exact h.close (.inr hstat)
  | delete t =>
    simp only [refStep, Option.ite_none_right_eq_some, Option.some_inj] at hs
    obtain ⟨hstat, rfl⟩ := hs
    exact h.close hstat
  | cleanup =>
    simp only [refStep] at hs
    split at hs
    · cases hs
    · next t ts hd =>
      cases hs
      have hct := hc t (by rw [hd]; rfl)
      exact h.cleanup hd hct.1 hct.2

theorem RefInv.step_lost (h : RefInv s) {act : RefAct} (hc : ¬ RefKeeps s act)
    (hs : refStep s act = some s') : ¬ RefOk s' := by
  have hcount := h.count
  cases act with
  | startMain | create | startup | exit | delete => exact absurd trivial hc
  | setRef =>
    simp only [refStep, Option.ite_none_right_eq_some, Option.some_inj] at hs
    obtain ⟨-, rfl⟩ := hs
    intro hP
    have hcount' : (1 : Int) = (s.lwt.tGrp.countP fun t => (s.thr t).counted : Nat) := hP.count
    exact hc (hcount.trans hcount'.symm)
  | refInc c t =>
    simp only [refStep, Option.ite_none_right_eq_some, Option.some_inj] at hs
    obtain ⟨-, hs⟩ := hs
    -- the thread was counted before
    have ht : (s.thr t).counted = true := by simpa [RefKeeps] using hc
    have hlwt : s'.lwt = lwtRefInc s.lwt := by rw [← hs]; rfl
    have hinner : ∀ u, ((s.touch.setThr t { s.thr t with counted := true }).thr u).counted =
        (s.thr u).counted := by
      intro u
      rw [setThr_counted]
      split
      · next hu => rw [hu, ht]
      · rfl
    have hsame : ∀ u, (s'.thr u).counted = (s.thr u).counted := by
      intro u
      rw [← hs, setThr_counted]
      split
      · next hu => rw [hu]; exact hinner c
      · exact hinner u
    intro hP
    have hcount' := hP.count
    simp only [hlwt, hsame, lwtRefInc] at hcount'
    omega
  | cleanup =>
    simp only [refStep] at hs
    split at hs
    · cases hs
    · next t ts hd =>
      cases hs
      refine h.cleanup_lost hd fun hx => hc fun u hu => ?_
      obtain rfl : t = u := by simpa [hd] using hu
      exact hx

/-- **The runs along `RefKeeps` are the runs in which the process is freed once, by the cleanup of
its last thread, and is not used afterwards. In them `ref` is the number of threads in `t_grp` when
each of these was started.** -/
theorem lwt_ref_iff (pids : LwtPidmap) (pid : Nat) (acts : List RefAct) (s : RefRun)
    (hx : exec refStep (refInit pids pid) acts = some s) :
    (Along refStep RefKeeps (refInit pids pid) acts ↔
      Visits refStep RefOk (refInit pids pid) acts) ∧
    (Along refStep RefKeeps (refInit pids pid) acts →
      (s.lwt.ref = s.lwt.tGrp.length ↔ ∀ t ∈ s.lwt.tGrp, (s.thr t).counted = true)) := by
  constructor
  · exact along_iff_visits (fun _ h => h.toRefOk) (fun _ _ _ h hc hs => h.step hc hs)
      (fun _ _ _ h hc hs => h.step_lost hc hs) hx (RefInv.init pids pid)
  · intro hc
    have h : RefInv s := hc.inv (fun _ _ _ h hc hs => h.step hc hs) hx (RefInv.init pids pid)
    rw [h.count, Int.natCast_inj, List.countP_eq_length]

/-- A process with two threads: both are started, both exit, and the second cleanup frees it. -/
theorem lwt_ref_iff_two : Visits refStep RefOk (refInit ⟨fun _ => none, 1⟩ 0)
    [.startMain, .setRef, .create 0 1, .refInc 0 1, .startup 0, .exit 1, .exit 0, .cleanup,
      .cleanup] :=
  ((lwt_ref_iff _ _ _ _ rfl).1).mp (by decide)

/-- A thread that was created and not started, both threads deleted: the cleanup of the main thread
frees the process, and the cleanup of the other uses it. -/
theorem lwt_ref_use_after_free : ¬ ∀ (pids : LwtPidmap) (pid : Nat) (acts : List RefAct)
    (s : RefRun), exec refStep (refInit pids pid) acts = some s → RefOk s := by
  intro h
  have hu := (h ⟨fun _ => none, 1⟩ 0
    [.startMain, .setRef, .create 0 1, .delete 1, .delete 0, .cleanup, .cleanup] _ rfl).uaf
  exact absurd hu (by decide)

end Tudu.Lwt
