import TuduOS.Kernel.Listed
import TuduOS.Lib.Lts

/-!
# Completions (`completion.c`)

One thread waits; any threads and interrupts call `rt_completion_done`. A section with interrupts
disabled is one step. `rt_completion_done` tests the flag before its section, and
`rt_completion_wait` reads `thread->error` before its last one; in between anything may happen.

* `suspended_list` is the list 0.
* `isr`: the interrupts that are between the test and the section of `rt_completion_done`.
* `log`: the calls that went through a section, each with the flag it left: `done` for
  `rt_completion_done`, `ret` for the end of `rt_completion_wait`.

A thread that its timer woke up clears the flag as well. `not_lost_iff`: nothing is lost just as
long as no `rt_completion_done` comes between the timer and that (`NoLate`).
-/

namespace Tudu.Completion

open Kern Lts

/-- `RT_UNCOMPLETED`, `RT_COMPLETED` -/
inductive Flag where
  | uncompleted | completed
  deriving DecidableEq

inductive Pc where
  | user
  /-- In `rt_schedule` in `rt_completion_wait`. -/
  | waiting
  /-- `result` was read, before the last section of `rt_completion_wait`. -/
  | woken (result : Int)
  /-- The test of `rt_completion_done` found `RT_UNCOMPLETED`. -/
  | done
  deriving DecidableEq

inductive Ev where
  | done
  | ret (r : Int)
  deriving DecidableEq

structure ComSys where
  kern : Kern
  flag : Flag
  pc : Nat → Pc
  isr : Nat
  log : List (Ev × Flag)

namespace ComSys

def setKern (s : ComSys) (k : Kern) : ComSys := { s with kern := k }

def goto (s : ComSys) (t : Nat) (p : Pc) : ComSys := { s with pc := Function.update s.pc t p }

/-- A section leaves the flag `f`. -/
def leave (s : ComSys) (f : Flag) (e : Ev) : ComSys :=
  { s with flag := f, log := s.log ++ [(e, f)] }

end ComSys

open ComSys

/-- `rt_completion_wait`, to its end or to `rt_schedule`. -/
def rtCompletionWait (s : ComSys) (timeout : Int) : Option ComSys :=
  if s.flag ≠ .completed then
    if s.kern.suspendThread 0 = [] then
      if timeout = 0 then some (s.leave s.flag (.ret (-rtEtimeout)))
      else (s.kern.waitOn 0 0 timeout).map fun k => (s.setKern k).goto s.kern.current .waiting
    else none
  else some (s.leave .uncompleted (.ret rtEok))

/-- The section of `rt_completion_done`. -/
def doneSection (s : ComSys) : ComSys :=
  (s.leave .completed .done).setKern (s.kern.resumeFirst 0)

inductive ComAct where
  /-- An interrupt, or `rt_schedule`, switches to the ready thread `u`. -/
  | preempt (u : Nat)
  /-- The current thread calls `rt_completion_wait`. -/
  | wait (timeout : Int)
  /-- The current thread calls `rt_completion_done`, and tests the flag. -/
  | done
  /-- The current thread goes on in its call. -/
  | goOn
  /-- An interrupt calls `rt_completion_done`, and tests the flag. -/
  | isrDone
  /-- An interrupt goes on with its `rt_completion_done`. -/
  | isrSection
  /-- The timer of the thread `u` expires. -/
  | timeout (u : Nat)
  deriving DecidableEq

def goOn (s : ComSys) : Option ComSys :=
  let t := s.kern.current
  match s.pc t with
  | .user => none
  | .waiting =>
    if (s.kern.thread t).stat = .ready then some (s.goto t (.woken (s.kern.thread t).error))
    else none
  | .woken result => some ((s.leave .uncompleted (.ret result)).goto t .user)
  | .done => some ((doneSection s).goto t .user)

/-- `w` is the thread that waits. -/
def comStep (w : Nat) (s : ComSys) : ComAct → Option ComSys
  | .preempt u =>
    if (s.kern.thread u).stat = .ready then some (s.setKern { s.kern with current := u }) else none
  | .wait timeout =>
    match s.pc s.kern.current with
    | .user => if s.kern.current = w then rtCompletionWait s timeout else none
    | _ => none
  | .done =>
    match s.pc s.kern.current with
    | .user => if s.flag = .completed then some s else some (s.goto s.kern.current .done)
    | _ => none
  | .goOn => goOn s
  | .isrDone => if s.flag = .completed then some s else some { s with isr := s.isr + 1 }
  | .isrSection => if 0 < s.isr then some { doneSection s with isr := s.isr - 1 } else none
  | .timeout u => (s.kern.rtThreadTimeout u).map s.setKern

/-- `rt_completion_init`, with all threads ready. -/
def rtCompletionInit (priority : Nat → Nat) : ComSys where
  kern := ⟨0, fun t => ⟨.ready, rtEok, priority t, false, false, false⟩, fun _ => []⟩
  flag := .uncompleted
  pc := fun _ => .user
  isr := 0
  log := []

/-! ## The property and the condition -/

def isEok (e : Ev × Flag) : Bool := decide (e.1 = .ret rtEok)

/-- The property: from a `done` to the next call that leaves `RT_UNCOMPLETED`, just one wait
returns `RT_EOK`; and a wait that does so comes behind a `done`, and no other such wait between
them. -/
structure NotLost (log : List (Ev × Flag)) : Prop where
  served : ∀ l1 l2 e l3 f, log = l1 ++ (.done, f) :: (l2 ++ e :: l3) →
    (∀ x ∈ l2, x.2 = .completed) → e.2 = .uncompleted → (l2 ++ [e]).countP isEok = 1
  earned : ∀ l1 f l3, log = l1 ++ (.ret rtEok, f) :: l3 →
    ∃ a b f', l1 = a ++ (.done, f') :: b ∧ ∀ x ∈ b, isEok x = false

/-- The waiting thread is back from its wait. -/
def Pc.returned : Pc → Prop
  | .waiting => False
  | .woken _ => False
  | _ => True

/-- The thread `w` was woken up by its timer, and has yet to clear the flag. -/
def TimedOut (w : Nat) (s : ComSys) : Prop :=
  match s.pc w with
  | .waiting => (s.kern.thread w).stat = .ready ∧ (s.kern.thread w).error ≠ rtEok
  | .woken result => result ≠ rtEok
  | _ => False

/-- The step is the section of a `rt_completion_done`. -/
def Sets (s : ComSys) : ComAct → Prop
  | .goOn => s.pc s.kern.current = .done
  | .isrSection => True
  | _ => False

/-- No `rt_completion_done` sets the flag between the timer of `w` and the section in which `w`
clears the flag. -/
def NoLate (w : Nat) (s : ComSys) (act : ComAct) : Prop := Sets s act → ¬ TimedOut w s

variable {w t : Nat} {s s' : ComSys} {act : ComAct} {log a c : List (Ev × Flag)} {e x : Ev × Flag}

/-! ## The log -/

def lastFlag (log : List (Ev × Flag)) : Flag :=
  match log.getLast? with
  | some e => e.2
  | none => .uncompleted

/-- The flags in the log are those that the calls leave. -/
def Flags (log : List (Ev × Flag)) : Prop := ∀ e ∈ log, e.1 = .done ↔ e.2 = .completed

@[simp] theorem lastFlag_snoc : lastFlag (log ++ [e]) = e.2 := by
  simp [lastFlag]

theorem lastFlag_completed (hl : lastFlag log = .completed) :
    ∃ l x, log = l ++ [x] ∧ x.2 = .completed := by
  rcases List.eq_nil_or_concat' log with rfl | ⟨l, x, rfl⟩
  · cases hl
  · rw [lastFlag_snoc] at hl
    exact ⟨l, x, rfl, hl⟩

theorem Flags.snoc (hf : Flags log) (he : e.1 = .done ↔ e.2 = .completed) : Flags (log ++ [e]) := by
  intro x hx
  rcases List.mem_append.mp hx with hx | hx
  · exact hf x hx
  · rw [List.mem_singleton.mp hx]
    exact he

/-- The place of an entry in a log with one more. -/
theorem snoc_split (h : log ++ [e] = a ++ x :: c) :
    (c = [] ∧ x = e ∧ log = a) ∨ ∃ c', c = c' ++ [e] ∧ log = a ++ x :: c' := by
  rcases List.eq_nil_or_concat' c with rfl | ⟨c', y, rfl⟩
  · obtain ⟨hl, he⟩ := List.append_inj' h rfl
    exact .inl ⟨rfl, (List.cons.inj he).1.symm, hl⟩
  · rw [← List.cons_append, ← List.append_assoc] at h
    obtain ⟨hl, he⟩ := List.append_inj' h rfl
    rw [(List.cons.inj he).1]
    exact .inr ⟨c', rfl, hl⟩

theorem NotLost.nil : NotLost [] :=
  ⟨fun l1 _ _ _ _ h => absurd h.symm (List.append_ne_nil_of_right_ne_nil l1 (List.cons_ne_nil _ _)),
    fun l1 _ _ h => absurd h.symm (List.append_ne_nil_of_right_ne_nil l1 (List.cons_ne_nil _ _))⟩

theorem NotLost.init (h : NotLost (log ++ [e])) : NotLost log := by
  constructor
  · intro l1 l2 x l3 f hl
    refine h.served l1 l2 x (l3 ++ [e]) f ?_
    rw [hl]
    simp
  · intro l1 f l3 hl
    refine h.earned l1 f (l3 ++ [e]) ?_
    rw [hl]
    simp

/-- No wait that returns `RT_EOK` leaves `RT_COMPLETED`. -/
theorem Flags.isEok_of_completed (hf : Flags log) (hx : x ∈ log) (hc : x.2 = .completed) :
    isEok x = false := by
  have hd : x.1 = .done := (hf x hx).mpr hc
  rw [isEok, hd]
  rfl

/-- One more entry. -/
theorem notLost_snoc (hf : Flags log) (he : e.1 = .done ↔ e.2 = .completed)
    (hr : e.1 = .ret rtEok → lastFlag log = .completed) :
    NotLost (log ++ [e]) ↔
      NotLost log ∧ (lastFlag log = .completed → e.1 = .done ∨ e.1 = .ret rtEok) := by
  constructor
  · refine fun h => ⟨h.init, fun hl => ?_⟩
    obtain ⟨l, x, rfl, hx⟩ := lastFlag_completed hl
    by_cases hd : e.1 = .done
    · exact .inl hd
    · have hu : e.2 = .uncompleted := by
        cases h2 : e.2 with
        | uncompleted => rfl
        | completed => exact absurd (he.mpr h2) hd
      have hxd : x.1 = .done :=
        (hf x (List.mem_append_right _ (List.mem_singleton_self x))).mpr hx
      have hcount := h.served l [] e [] x.2 (by rw [← hxd]; simp)
        (fun y hy => absurd hy List.not_mem_nil) hu
      refine .inr (of_decide_eq_true ?_)
      by_contra hno
      simp [isEok, hno] at hcount
  · rintro ⟨h, hlast⟩
    constructor
    · intro l1 l2 y l3 f hl hall hy
      rw [← List.cons_append, ← List.append_assoc] at hl
      rcases snoc_split hl with ⟨rfl, rfl, rfl⟩ | ⟨c', rfl, hl'⟩
      · have hcomp : lastFlag (l1 ++ (.done, f) :: l2) = .completed := by
          rcases List.eq_nil_or_concat' l2 with rfl | ⟨l, x, rfl⟩
          · rw [lastFlag_snoc]
            exact (hf (.done, f) (by simp)).mp rfl
          · rw [← List.cons_append, ← List.append_assoc, lastFlag_snoc]
            exact hall x (by simp)
        have hzero : l2.countP isEok = 0 := List.countP_eq_zero.mpr fun x hx => by
          rw [hf.isEok_of_completed (by simp [hx]) (hall x hx)]
          decide
        have heok : y.1 = .ret rtEok := (hlast hcomp).resolve_left fun hd => by
          rw [he.mp hd] at hy
          cases hy
        rw [List.countP_append, hzero, List.countP_singleton, isEok, heok]
        rfl
      · exact h.served l1 l2 y c' f (by rw [hl']; simp) hall hy
    · intro l1 f l3 hl
      rcases snoc_split hl with ⟨rfl, rfl, rfl⟩ | ⟨c', rfl, hl'⟩
      · obtain ⟨l, x, rfl, hx⟩ := lastFlag_completed (hr rfl)
        have hxd : x.1 = .done :=
          (hf x (List.mem_append_right _ (List.mem_singleton_self x))).mpr hx
        refine ⟨l, [], x.2, ?_, fun y hy => absurd hy List.not_mem_nil⟩
        rw [← hxd]
      · exact h.earned l1 f c' hl'

/-! ## The invariant -/

def Pc.waits : Pc → Option Nat
  | .waiting => some 0
  | _ => none

theorem Pc.of_waits {p : Pc} {q : Nat} (h : p.waits = some q) : p = .waiting ∧ q = 0 := by
  cases p <;> simp [Pc.waits] at h ⊢
  exact h.symm

/-- The thread `w` was woken up by a `rt_completion_done`, and has yet to clear the flag. -/
def Woken (w : Nat) (s : ComSys) : Prop :=
  match s.pc w with
  | .waiting => (s.kern.thread w).stat = .ready ∧ (s.kern.thread w).error = rtEok
  | .woken result => result = rtEok
  | _ => False

structure ComInv (w : Nat) (s : ComSys) : Prop where
  listed : Listed s.kern fun t => (s.pc t).waits
  one : ∀ t, ¬ (s.pc t).returned → t = w
  flags : Flags s.log
  last : lastFlag s.log = s.flag
  susp : (s.kern.thread w).stat = .suspend → s.flag = .uncompleted
  woken : Woken w s → s.flag = .completed

/-- No `rt_completion_done` is lost, and none will be. -/
def Good (w : Nat) (s : ComSys) : Prop :=
  NotLost s.log ∧ ¬ (s.flag = .completed ∧ TimedOut w s)

theorem timedOut_congr (hp : s'.pc w = s.pc w) (ht : s'.kern.thread w = s.kern.thread w) :
    TimedOut w s' ↔ TimedOut w s := by
  unfold TimedOut
  rw [hp, ht]

theorem woken_congr (hp : s'.pc w = s.pc w) (ht : s'.kern.thread w = s.kern.thread w) :
    Woken w s' ↔ Woken w s := by
  unfold Woken
  rw [hp, ht]

theorem not_timedOut (hp : (s.pc w).returned) : ¬ TimedOut w s := by
  unfold TimedOut
  revert hp
  cases s.pc w <;> simp [Pc.returned]

theorem not_woken (hp : (s.pc w).returned) : ¬ Woken w s := by
  unfold Woken
  revert hp
  cases s.pc w <;> simp [Pc.returned]

/-- A step without a section of a call. -/
theorem good_congr (hl : s'.log = s.log) (hf : s'.flag = s.flag)
    (ht : s.flag = .completed → (TimedOut w s' ↔ TimedOut w s)) : Good w s' ↔ Good w s := by
  unfold Good
  rw [hl, hf]
  exact and_congr_right fun _ => not_congr (and_congr_right ht)

/-- One more section. -/
theorem ComInv.snoc {f : Flag} {v : Ev} (h : ComInv w s) (he : v = .done ↔ f = .completed)
    (hr : v = .ret rtEok → s.flag = .completed) : NotLost (s.leave f v).log ↔
      NotLost s.log ∧ (s.flag = .completed → v = .done ∨ v = .ret rtEok) := by
  rw [← h.last]
  exact notLost_snoc h.flags he fun hv => h.last.trans (hr hv)

/-! ## The steps -/

/-- A ready thread goes on in the code, without a section. -/
theorem ComInv.goto {p : Pc} (h : ComInv w s) (ht : (s.kern.thread t).stat = .ready)
    (hp : (s.pc t).returned) (hp' : p.returned) :
    ComInv w (s.goto t p) ∧ (Good w (s.goto t p) ↔ Good w s) := by
  have hpc : ∀ u, u ≠ t → (s.goto t p).pc u = s.pc u := fun u hu => Function.update_of_ne hu ..
  have hself : (s.goto t p).pc t = p := Function.update_self ..
  refine ⟨⟨h.listed.goto ht fun u hu => congrArg Pc.waits (hpc u hu), fun u hu => ?_, h.flags,
    h.last, h.susp, fun hw => ?_⟩, good_congr rfl rfl fun _ => ?_⟩
  · by_cases hut : u = t
    · subst hut
      rw [hself] at hu
      exact absurd hp' hu
    · rw [hpc u hut] at hu
      exact h.one u hu
  · by_cases hwt : w = t
    · subst hwt
      exact absurd hw (not_woken (by rwa [hself]))
    · exact h.woken ((woken_congr (hpc w hwt) rfl).mp hw)
  · by_cases hwt : w = t
    · subst hwt
      exact iff_of_false (not_timedOut (by rwa [hself])) (not_timedOut hp)
    · exact timedOut_congr (hpc w hwt) rfl

/-- The thread `w` ends its call of `rt_completion_wait`, or begins and ends it at once. -/
theorem ComInv.ret {r : Int} (h : ComInv w s) (ht : (s.kern.thread w).stat = .ready)
    (hr : r = rtEok → s.flag = .completed) :
    ComInv w ((s.leave .uncompleted (.ret r)).goto w .user) ∧
      (Good w ((s.leave .uncompleted (.ret r)).goto w .user) ↔
        NotLost s.log ∧ (s.flag = .completed → r = rtEok)) := by
  have hpc : ∀ u, u ≠ w → Function.update s.pc w .user u = s.pc u :=
    fun u hu => Function.update_of_ne hu ..
  have hself : ((s.leave .uncompleted (.ret r)).goto w .user).pc w = .user :=
    Function.update_self ..
  have hev : (Ev.ret r = .done ↔ Flag.uncompleted = .completed) := by simp
  refine ⟨⟨h.listed.goto ht fun u hu => congrArg Pc.waits (hpc u hu), fun u hu => ?_,
    h.flags.snoc hev, lastFlag_snoc, fun _ => rfl, fun hw => ?_⟩, ?_⟩
  · by_contra huw
    change ¬ (Function.update s.pc w .user u).returned at hu
    rw [hpc u huw] at hu
    exact huw (h.one u hu)
  · refine absurd hw (not_woken ?_)
    rw [hself]
    trivial
  · have hlog := h.snoc hev fun he => hr (Ev.ret.inj he)
    show NotLost (s.leave .uncompleted (.ret r)).log ∧ _ ↔ _
    rw [hlog]
    constructor
    · rintro ⟨⟨hn, hl⟩, -⟩
      exact ⟨hn, fun hf => (hl hf).elim (fun he => by cases he) Ev.ret.inj⟩
    · rintro ⟨hn, hl⟩
      exact ⟨⟨hn, fun hf => .inr (congrArg Ev.ret (hl hf))⟩, fun hb => by cases hb.1⟩

theorem ComInv.wait_step {timeout : Int} (h : ComInv w s) (hc : s.kern.current = w)
    (hp : s.pc w = .user) (hs : rtCompletionWait s timeout = some s') :
    ComInv w s' ∧ (Good w s' ↔ Good w s) := by
  have ht : (s.kern.thread w).stat = .ready := h.listed.ready_of_on (t := w) (by rw [hp]; rfl)
  have hnt : ¬ TimedOut w s := not_timedOut (by rw [hp]; trivial)
  have hgood : Good w s ↔ NotLost s.log := and_iff_left fun hb => hnt hb.2
  have hsame : Function.update s.pc w .user = s.pc := by
    rw [← hp]
    exact Function.update_eq_self w s.pc
  have hgoto : ∀ r, (s.leave .uncompleted (.ret r)).goto w .user =
      s.leave .uncompleted (.ret r) := fun r => by
    simp only [ComSys.goto, ComSys.leave, hsame]
  unfold rtCompletionWait at hs
  split at hs
  · next hflag =>
    have hun : s.flag = .uncompleted := by
      cases hf : s.flag with
      | uncompleted => rfl
      | completed => exact absurd hf hflag
    split at hs
    · split at hs
      · cases hs
        obtain ⟨hi, hg⟩ := h.ret (r := -rtEtimeout) ht fun he => absurd he (by decide)
        rw [hgoto] at hi hg
        rw [hun, hg, hgood]
        exact ⟨hi, and_iff_left fun hf => by rw [hun] at hf; cases hf⟩
      · obtain ⟨k, hk, rfl⟩ := Option.map_eq_some_iff.mp hs
        subst hc
        have hpc : ∀ u, u ≠ s.kern.current →
            Function.update s.pc s.kern.current .waiting u = s.pc u :=
          fun u hu => Function.update_of_ne hu ..
        have hself : Function.update s.pc s.kern.current .waiting s.kern.current = .waiting :=
          Function.update_self ..
        have hthr := (waitOn_self hk).1
        refine ⟨⟨h.listed.waitOn hk (fun u hu => congrArg Pc.waits (hpc u hu))
          (congrArg Pc.waits hself) ht, fun u hu => ?_, h.flags, h.last, fun _ => hun,
          fun hw => ?_⟩, good_congr rfl rfl fun hf => ?_⟩
        · by_contra huw
          change ¬ (Function.update s.pc s.kern.current .waiting u).returned at hu
          rw [hpc u huw] at hu
          exact huw (h.one u hu)
        · simp only [Woken, ComSys.goto, ComSys.setKern, hself, hthr] at hw
          exact absurd hw.1 (by decide)
        · rw [hun] at hf
          cases hf
    · cases hs
  · next hflag =>
    cases hs
    obtain ⟨hi, hg⟩ := h.ret (r := rtEok) ht fun _ => not_not.mp hflag
    rw [hgoto] at hi hg
    rw [hg, hgood]
    exact ⟨hi, and_iff_left fun _ => rfl⟩

/-- What `rt_completion_done` does for the waiting thread. -/
theorem ComInv.resume (h : ComInv w s) : ((s.kern.resumeFirst 0).thread w).stat = .ready ∧
    match (s.kern.thread w).stat with
    | .ready => (s.kern.resumeFirst 0).thread w = s.kern.thread w
    | .suspend => s.pc w = .waiting ∧ ((s.kern.resumeFirst 0).thread w).error = rtEok := by
  rcases resumeFirst_cases (q := 0) h.listed with ⟨hnil, hsame⟩ | ⟨u, -, hs, herr, hw, hthr, -⟩
  · cases hst : (s.kern.thread w).stat with
    | ready =>
      rw [hsame]
      exact ⟨hst, rfl⟩
    | suspend =>
      obtain ⟨q, hq⟩ := h.listed.susp w hst
      obtain ⟨-, rfl⟩ := Pc.of_waits (h.listed.listed q w hq).2
      rw [hnil] at hq
      exact absurd hq List.not_mem_nil
  · have hpu : s.pc u = .waiting := (Pc.of_waits hw).1
    have huw : u = w := h.one u (by rw [hpu]; exact fun hn => hn)
    subst huw
    rw [hthr, if_pos rfl, hs]
    exact ⟨rfl, hpu, herr⟩

/-- The section of `rt_completion_done`, by an interrupt or by a thread that is behind its test. -/
theorem ComInv.done_section {g : Nat → Pc} {i : Nat} (h : ComInv w s)
    (hg : ∀ u, g u = s.pc u ∨ s.pc u = .done ∧ g u = .user) :
    ComInv w { doneSection s with isr := i, pc := g } ∧
      (Good w { doneSection s with isr := i, pc := g } ↔ Good w s ∧ ¬ TimedOut w s) := by
  have hret : ∀ u, (g u).returned ↔ (s.pc u).returned := fun u => by
    rcases hg u with he | ⟨hd, hu⟩
    · rw [he]
    · rw [hd, hu]
      exact Iff.rfl
  have hon : ∀ u, (g u).waits = (s.pc u).waits := fun u => by
    rcases hg u with he | ⟨hd, hu⟩
    · rw [he]
    · rw [hd, hu]
      rfl
  obtain ⟨hready, hres⟩ := h.resume
  have htimed : TimedOut w { doneSection s with isr := i, pc := g } ↔ TimedOut w s := by
    rcases hg w with he | ⟨hd, hu⟩
    · cases hst : (s.kern.thread w).stat with
      | ready =>
        rw [hst] at hres
        exact timedOut_congr he hres
      | suspend =>
        rw [hst] at hres
        obtain ⟨hpw, herr⟩ := hres
        simp only [TimedOut, he, hpw, hst]
        refine iff_of_false (fun hb => hb.2 herr) fun hb => ?_
        cases hb.1
    · refine iff_of_false (not_timedOut ?_) (not_timedOut ?_)
      · show (g w).returned
        rw [hu]
        trivial
      · rw [hd]
        trivial
  refine ⟨⟨h.listed.resumeFirst.congr_on fun u _ => hon u, fun u hu => ?_, ?_, lastFlag_snoc,
    fun hsus => ?_, fun _ => rfl⟩, ?_⟩
  · exact h.one u fun hn => hu ((hret u).mpr hn)
  · exact h.flags.snoc (by simp)
  · have hs' : ((s.kern.resumeFirst 0).thread w).stat = .suspend := hsus
    rw [hready] at hs'
    cases hs'
  · have hlog := h.snoc (f := .completed) (v := .done) (by simp) fun he => by cases he
    show NotLost (s.leave .completed .done).log ∧ _ ↔ _
    rw [hlog, htimed, Good]
    constructor
    · rintro ⟨⟨hn, -⟩, hb⟩
      have hnt : ¬ TimedOut w s := fun ht => hb ⟨rfl, ht⟩
      exact ⟨⟨hn, fun hb => hnt hb.2⟩, hnt⟩
    · rintro ⟨⟨hn, -⟩, hnt⟩
      exact ⟨⟨hn, fun _ => .inl rfl⟩, fun hb => hnt hb.2⟩

/-- The timer of a thread expires. -/
theorem ComInv.timeout_step {k : Kern} {u : Nat} (h : ComInv w s)
    (hk : s.kern.rtThreadTimeout u = some k) :
    ComInv w (s.setKern k) ∧ (Good w (s.setKern k) ↔ Good w s) := by
  obtain ⟨hsus, -, -, hthr, -⟩ := rtThreadTimeout_some hk
  obtain ⟨q, hq⟩ := h.listed.susp u hsus
  have hpu : s.pc u = .waiting := (Pc.of_waits (h.listed.listed q u hq).2).1
  have huw : u = w := h.one u (by rw [hpu]; exact fun hn => hn)
  subst huw
  have hflag := h.susp hsus
  refine ⟨⟨h.listed.timeout hk, h.one, h.flags, h.last, fun _ => hflag, fun hw => ?_⟩,
    good_congr rfl rfl fun hf => ?_⟩
  · simp only [Woken, ComSys.setKern, hpu, hthr, if_true] at hw
    exact absurd hw.2 (by decide)
  · rw [hflag] at hf
    cases hf

/-- The waiting thread goes on in its call. -/
theorem ComInv.goOn_step (h : ComInv w s) (hs : goOn s = some s') :
    ComInv w s' ∧ (Good w s' ↔ Good w s ∧ NoLate w s .goOn) := by
  have hno : ∀ p, s.pc s.kern.current = p → p ≠ .done → NoLate w s .goOn := fun p hp hn hd =>
    absurd (hp.symm.trans hd) hn
  simp only [goOn] at hs
  split at hs
  · cases hs
  · next hp =>
    split at hs
    · next ht =>
      cases hs
      have hw : s.kern.current = w := h.one _ (by rw [hp]; exact fun hn => hn)
      rw [hw] at hp ht ⊢
      have hpc : ∀ u p, u ≠ w → Function.update s.pc w p u = s.pc u :=
        fun u p hu => Function.update_of_ne hu ..
      have hself : ∀ p, Function.update s.pc w p w = p := fun p => Function.update_self ..
      rw [and_iff_left (hno _ (hw ▸ hp) (by decide))]
      refine ⟨⟨h.listed.goto ht fun u hu => congrArg Pc.waits (hpc u _ hu), fun u hu => ?_, h.flags,
        h.last, h.susp, fun hwo => h.woken ?_⟩, good_congr rfl rfl fun _ => ?_⟩
      · by_contra huw
        change ¬ (Function.update s.pc w (.woken (s.kern.thread w).error) u).returned at hu
        rw [hpc u _ huw] at hu
        exact huw (h.one u hu)
      · simp only [Woken, ComSys.goto, hself] at hwo
        simp only [Woken, hp]
        exact ⟨ht, hwo⟩
      · simp only [TimedOut, ComSys.goto, hself, hp, ht, true_and]
    · cases hs
  · next r hp =>
    cases hs
    have hw : s.kern.current = w := h.one _ (by rw [hp]; exact fun hn => hn)
    rw [hw] at hp ⊢
    have ht : (s.kern.thread w).stat = .ready := h.listed.ready_of_on (t := w) (by rw [hp]; rfl)
    have hwok : r = rtEok → s.flag = .completed := fun hr => h.woken (by
      simp only [Woken, hp]
      exact hr)
    obtain ⟨hi, hg⟩ := h.ret (r := r) ht hwok
    refine ⟨hi, ?_⟩
    rw [hg, and_iff_left (hno _ (hw ▸ hp) (by simp)), Good]
    refine and_congr_right fun _ => ?_
    simp only [TimedOut, hp]
    rw [not_and, not_not]
  · next hp =>
    cases hs
    have hd := h.done_section (g := Function.update s.pc s.kern.current .user) (i := s.isr)
      fun u => by
        by_cases hu : u = s.kern.current
        · subst hu
          exact .inr ⟨hp, Function.update_self ..⟩
        · exact .inl (Function.update_of_ne hu ..)
    refine ⟨hd.1, hd.2.trans (and_congr_right fun _ => ?_)⟩
    exact ⟨fun hn _ => hn, fun hn => hn hp⟩

/-- A step keeps the log good just when it is not a late `rt_completion_done`. -/
theorem ComInv.step (h : ComInv w s) (hs : comStep w s act = some s') :
    ComInv w s' ∧ (Good w s' ↔ Good w s ∧ NoLate w s act) := by
  have hquiet : (∀ hi : Sets s act, False) → (ComInv w s' ∧ (Good w s' ↔ Good w s)) →
      ComInv w s' ∧ (Good w s' ↔ Good w s ∧ NoLate w s act) := fun hn hg =>
    ⟨hg.1, hg.2.trans (and_iff_left fun hi => (hn hi).elim).symm⟩
  cases act with
  | preempt u =>
    simp only [comStep] at hs
    split at hs <;> cases hs
    refine hquiet (fun hi => hi) ⟨⟨h.listed.preempt, h.one, h.flags, h.last, h.susp, h.woken⟩,
      good_congr rfl rfl fun _ => Iff.rfl⟩
  | wait timeout =>
    simp only [comStep] at hs
    split at hs
    · next hp =>
      split at hs
      · next hc => exact hquiet (fun hi => hi) (h.wait_step hc (hc ▸ hp) hs)
      · cases hs
    · cases hs
  | done =>
    simp only [comStep] at hs
    refine hquiet (fun hi => hi) ?_
    split at hs
    · next hp =>
      split at hs <;> cases hs
      · exact ⟨h, Iff.rfl⟩
      · exact h.goto (h.listed.ready_of_on (by rw [hp]; rfl)) (by rw [hp]; trivial) trivial
    · cases hs
  | goOn => exact h.goOn_step hs
  | isrDone =>
    simp only [comStep] at hs
    refine hquiet (fun hi => hi) ?_
    split at hs <;> cases hs
    · exact ⟨h, Iff.rfl⟩
    · exact ⟨⟨h.listed, h.one, h.flags, h.last, h.susp, h.woken⟩,
        good_congr rfl rfl fun _ => Iff.rfl⟩
  | isrSection =>
    simp only [comStep] at hs
    split at hs <;> cases hs
    have hd := h.done_section (g := s.pc) (i := s.isr - 1) fun u => .inl rfl
    refine ⟨hd.1, hd.2.trans (and_congr_right fun _ => ?_)⟩
    exact ⟨fun hn _ => hn, fun hn => hn trivial⟩
  | timeout u =>
    obtain ⟨k, hk, rfl⟩ := Option.map_eq_some_iff.mp hs
    exact hquiet (fun hi => hi) (h.timeout_step hk)

theorem init_comInv {priority : Nat → Nat} : ComInv w (rtCompletionInit priority) where
  listed := ⟨fun q u hu => absurd hu List.not_mem_nil, fun u hu => (by cases hu),
    fun u hu => (by cases hu)⟩
  one t ht := absurd trivial ht
  flags e he := absurd he List.not_mem_nil
  last := rfl
  susp _ := rfl
  woken h := h.elim

/-- **No completion is lost.** In every run in which no `rt_completion_done` sets the flag between
the timer of the waiting thread and the section in which that thread clears the flag, each one is
answered by one wait that returns `RT_EOK`, and no wait returns `RT_EOK` without one. Once the
waiting thread is back from its wait, these are the only such runs. -/
theorem not_lost_iff (w : Nat) (priority : Nat → Nat) (acts : List ComAct) (s : ComSys)
    (hx : exec (comStep w) (rtCompletionInit priority) acts = some s) :
    (Along (comStep w) (NoLate w) (rtCompletionInit priority) acts → NotLost s.log) ∧
      ((s.pc w).returned → NotLost s.log →
        Along (comStep w) (NoLate w) (rtCompletionInit priority) acts) := by
  have hgood : Good w (rtCompletionInit priority) := ⟨NotLost.nil, fun hb => by cases hb.1⟩
  have hiff := along_iff_last (C := NoLate w) (fun s a s' hi hs => ComInv.step hi hs) hx init_comInv
  refine ⟨fun hc => (hiff.mp ⟨hgood, hc⟩).1, fun hr hn => ?_⟩
  exact (hiff.mpr ⟨hn, fun hb => not_timedOut hr hb.2⟩).2

instance (s : ComSys) (act : ComAct) : Decidable (Sets s act) :=
  match act with
  | .goOn => inferInstanceAs (Decidable (s.pc s.kern.current = .done))
  | .isrSection => inferInstanceAs (Decidable True)
  | .preempt _ | .wait _ | .done | .isrDone | .timeout _ => inferInstanceAs (Decidable False)

instance (w : Nat) (s : ComSys) : Decidable (TimedOut w s) :=
  match hp : s.pc w with
  | .waiting => decidable_of_iff ((s.kern.thread w).stat = .ready ∧
      (s.kern.thread w).error ≠ rtEok) (by simp only [TimedOut, hp])
  | .woken r => decidable_of_iff (r ≠ rtEok) (by simp only [TimedOut, hp])
  | .user => isFalse (not_timedOut (by rw [hp]; trivial))
  | .done => isFalse (not_timedOut (by rw [hp]; trivial))

instance (w : Nat) (s : ComSys) (act : ComAct) : Decidable (NoLate w s act) :=
  inferInstanceAs (Decidable (_ → _))

/-- Thread 1 waits for one tick, and an interrupt completes before its timer expires. -/
def timelyRun : List ComAct :=
  [.preempt 1, .wait 1, .preempt 0, .isrDone, .isrSection, .preempt 1, .goOn, .goOn]

theorem not_lost_timely : ∃ s, exec (comStep 1) (rtCompletionInit fun _ => 0) timelyRun = some s ∧
    s.log = [(.done, .completed), (.ret rtEok, .uncompleted)] ∧ NotLost s.log := by
  have hx : (exec (comStep 1) (rtCompletionInit fun _ => 0) timelyRun).map ComSys.log =
      some [(.done, .completed), (.ret rtEok, .uncompleted)] := by decide +kernel
  obtain ⟨s, hs, hlog⟩ := Option.map_eq_some_iff.mp hx
  exact ⟨s, hs, hlog, (not_lost_iff 1 (fun _ => 0) timelyRun s hs).1 (by decide +kernel)⟩

/-- Thread 1 waits for one tick. Its timer expires, and then an interrupt completes. -/
def lateRun : List ComAct :=
  [.preempt 1, .wait 1, .preempt 0, .timeout 1, .isrDone, .isrSection, .preempt 1, .goOn, .goOn]

theorem lateRun_lost : ∃ s, exec (comStep 1) (rtCompletionInit fun _ => 0) lateRun = some s ∧
    s.log = [(.done, .completed), (.ret (-rtEtimeout), .uncompleted)] ∧ ¬ NotLost s.log := by
  have hx : (exec (comStep 1) (rtCompletionInit fun _ => 0) lateRun).map ComSys.log =
      some [(.done, .completed), (.ret (-rtEtimeout), .uncompleted)] := by decide +kernel
  obtain ⟨s, hs, hlog⟩ := Option.map_eq_some_iff.mp hx
  refine ⟨s, hs, hlog, fun hn => ?_⟩
  have hcount := hn.served [] [] (.ret (-rtEtimeout), .uncompleted) [] .completed
    (by rw [hlog]; rfl) (fun x hx => absurd hx List.not_mem_nil) rfl
  revert hcount
  decide

end Tudu.Completion
