import TuduOS.Drivers.DataQueue
import TuduOS.Kernel.Listed
import TuduOS.Lib.AtLeast

/-!
# The waiting threads of the data queue

A push resumes one thread of `suspended_pop_list`, and a pop that leaves at most `lwm` items one of
`suspended_push_list`. A resumed thread may find its cell taken and wait again, but then the queue
is full, or empty, again.

* `Covered`: where a thread waits, enough threads have been resumed: as many pops as there are
  items, and as many pushes as the queue needs to have more than `lwm` items.
* `WaitInv.step`: every step keeps this, but a push that makes the indices equal behind a full lap
  while a thread waits in a push (`Laps`).
* `none_stranded`: every run without such a push.
-/

namespace Tudu.DataQueue

open Kern Lts

/-- The list that a thread waits on. -/
def Pc.waits : Pc → Option Nat
  | .pushWait _ _ => some 0
  | .popWait _ => some 1
  | _ => none

/-- The list that a thread, back from its wait, has been on. -/
def Pc.again : Pc → Option Nat
  | .pushAgain _ _ => some 0
  | .popAgain _ => some 1
  | _ => none

/-! ## The property and the condition -/

def Suspended (s : DqSys) (q u : Nat) : Prop :=
  (s.kern.thread u).stat = .suspend ∧ (s.pc u).waits = some q

/-- A thread that waited on the list `q` was resumed by a call, and has yet to run its section. -/
def Resumed (k : Kern) (pc : Nat → Pc) (q u : Nat) : Prop :=
  (k.thread u).stat = .ready ∧
    ((pc u).waits = some q ∧ (k.thread u).error = rtEok ∨ (pc u).again = some q)

/-- No waiting thread is left behind. -/
structure NoneStranded (s : DqSys) : Prop where
  push : ∀ u, Suspended s 0 u → s.dq.level ≤ s.dq.lwm → ∃ w, Resumed s.kern s.pc 0 w
  pop : ∀ u, Suspended s 1 u → s.dq.level ≠ 0 → ∃ w, Resumed s.kern s.pc 1 w

/-- The step stores an item behind 65535 others. -/
def Laps (s : DqSys) (act : DqAct) : Prop := Stores s act ∧ s.dq.level = 65535

/-- No thread waits in a push when the indices become equal by a lap. -/
def NoLap (s : DqSys) (act : DqAct) : Prop := Laps s act → s.kern.suspendThread 0 = []

/-! ## The invariant -/

/-- Where a thread waits on the list `q`, `n` others that waited on it are yet to run. -/
def Covered (k : Kern) (pc : Nat → Pc) (q n : Nat) : Prop :=
  k.suspendThread q ≠ [] → AtLeast (Resumed k pc q) n

structure WaitInv (s : DqSys) : Prop where
  fits : Fits s.dq
  lwm : s.dq.lwm < s.dq.size
  listed : Listed s.kern fun t => (s.pc t).waits
  push : Covered s.kern s.pc 0 (s.dq.lwm + 1 - s.dq.level)
  pop : Covered s.kern s.pc 1 s.dq.level

variable {s s' : DqSys} {act : DqAct} {item : RtDataItem} {timeout : Int} {k k' : Kern}
  {pc g : Nat → Pc} {t u q m n : Nat}

theorem WaitInv.noneStranded (h : WaitInv s) : NoneStranded s := by
  have hne : ∀ q u, Suspended s q u → s.kern.suspendThread q ≠ [] := fun q u hu hn => by
    have hm := h.listed.mem hu.1 hu.2
    rw [hn] at hm
    exact List.not_mem_nil hm
  constructor
  · intro u hu hle
    exact (h.push (hne 0 u hu)).exists_of_pos (by omega)
  · intro u hu hle
    exact (h.pop (hne 1 u hu)).exists_of_pos (Nat.pos_of_ne_zero hle)

/-! ## Threads go on -/

theorem Covered.keep (h : Covered k pc q n) (hm : m ≤ n)
    (hl : k'.suspendThread q ≠ [] → k.suspendThread q ≠ [])
    (hr : ∀ u, Resumed k pc q u → Resumed k' g q u) : Covered k' g q m :=
  fun hne => (h (hl hne)).mono hm hr

/-- The thread `t` runs its section. -/
theorem Covered.spend (h : Covered k pc q n) (hm : m + 1 ≤ n ∨ m = 0)
    (hl : k'.suspendThread q ≠ [] → k.suspendThread q ≠ [])
    (hr : ∀ u, u ≠ t → Resumed k pc q u → Resumed k' g q u) : Covered k' g q m := by
  intro hne
  rcases hm with hm | rfl
  · exact (h (hl hne)).spend hm hr
  · exact AtLeast.zero

/-- The first thread of a list is resumed. -/
theorem Covered.wake (h : Covered k pc q n) (hk : Listed k fun t => (pc t).waits) (hm : m ≤ n + 1)
    (hpc : ∀ u, (k.thread u).stat = .suspend ∨ Resumed k pc q u → g u = pc u) :
    Covered (k.resumeFirst q) g q m := by
  intro hne
  rcases resumeFirst_cases (q := q) hk with ⟨hnil, hsame⟩ | ⟨u, hu, hs, herr, hon, hthr, hlist⟩
  · rw [hsame] at hne
    exact absurd hnil hne
  · have hbefore : k.suspendThread q ≠ [] := fun hn => by
      rw [hn] at hu
      exact List.not_mem_nil hu
    have hnot : ¬ Resumed k pc q u := fun hr => by
      have := hs.symm.trans hr.1
      cases this
    refine ((h hbefore).add hnot (Q := Resumed (k.resumeFirst q) g q) ?_ fun w hw => ?_).mono hm
      fun _ hw => hw
    · refine ⟨?_, .inl ⟨?_, ?_⟩⟩
      · rw [hthr, if_pos rfl]
      · rw [hpc u (.inl hs)]
        exact hon
      · rw [hthr, if_pos rfl]
        exact herr
    · have hwu : w ≠ u := fun he => hnot (he ▸ hw)
      obtain ⟨hst, hor⟩ := hw
      refine ⟨?_, ?_⟩
      · rw [hthr, if_neg hwu]
        exact hst
      · rw [hthr, if_neg hwu, hpc w (.inr ⟨hst, hor⟩)]
        exact hor

/-- A thread of another list is resumed. -/
theorem resumeFirst_keeps {p : Nat} (hk : Listed k fun t => (pc t).waits) :
    ((k.resumeFirst p).suspendThread q ≠ [] → k.suspendThread q ≠ []) ∧
      ∀ u, Resumed k pc q u → Resumed (k.resumeFirst p) pc q u := by
  rcases resumeFirst_cases (q := p) hk with ⟨-, hsame⟩ | ⟨u, -, hs, -, -, hthr, hlist⟩
  · rw [hsame]
    exact ⟨fun h => h, fun u h => h⟩
  · refine ⟨fun hne hn => ?_, fun w hw => ?_⟩
    · obtain ⟨w, hw⟩ := List.exists_mem_of_ne_nil _ hne
      have := ((hlist q w).mp hw).1
      rw [hn] at this
      exact List.not_mem_nil this
    · have hwu : w ≠ u := fun he => by
        have := hs.symm.trans (he ▸ hw.1)
        cases this
      unfold Resumed
      rw [hthr, if_neg hwu]
      exact hw

/-- The place of a thread alone changes. -/
theorem Resumed.congr (h : Resumed k pc q u) (hpc : g u = pc u) : Resumed k g q u := by
  unfold Resumed
  rw [hpc]
  exact h

/-! ## The sections -/

theorem level_lt (s : DqSys) : s.dq.level < 2 ^ 16 := Nat.mod_lt _ (by decide)

/-- An item is stored, by the thread `t` or by an interrupt. -/
theorem WaitInv.store (h : WaitInv s) (hlap : s.dq.level = 65535 → s.kern.suspendThread 0 = [])
    (hl : Listed s.kern fun t => (g t).waits)
    (hpop : ∀ u, Resumed s.kern s.pc 1 u → g u = s.pc u) (ht : ∀ u, u ≠ t → g u = s.pc u)
    (hsus : ∀ u, (s.kern.thread u).stat = .suspend → g u = s.pc u) :
    WaitInv { store s item with pc := g } := by
  obtain ⟨hf, hlwm, hk, hpu, hpo⟩ := h
  have hput := hf.put
  have hget := hf.get
  have hlt := level_lt s
  have hl0 : s.dq.level = (s.dq.putIndex + (2 ^ 16 - s.dq.getIndex)) % 2 ^ 16 := rfl
  have hlevel : (DataQueue.store s item).dq.level = (s.dq.level + 1) % 2 ^ 16 := by
    show ((s.dq.putIndex + 1) % 2 ^ 16 + (2 ^ 16 - s.dq.getIndex)) % 2 ^ 16 = _
    omega
  refine ⟨⟨hf.pos, hf.small, Nat.mod_lt _ (by decide), hf.get⟩, hlwm, hl.resumeFirst, ?_, ?_⟩
  · show Covered (s.kern.resumeFirst 1) g 0 (s.dq.lwm + 1 - (DataQueue.store s item).dq.level)
    obtain ⟨hlists, hres⟩ := resumeFirst_keeps (p := 1) (q := 0) hk
    by_cases hfull : s.dq.level = 65535
    · exact fun hne => absurd (hlap hfull) (hlists hne)
    · rw [hlevel]
      exact hpu.spend (t := t) (by omega) hlists fun u hu hr => (hres u hr).congr (ht u hu)
  · show Covered (s.kern.resumeFirst 1) g 1 (DataQueue.store s item).dq.level
    rw [hlevel]
    exact hpo.wake hk (by omega) fun u hu => hu.elim (hsus u) (hpop u)

/-- An item is fetched, by the thread `t` or by an interrupt. -/
theorem WaitInv.fetch (h : WaitInv s) (hsome : s.dq.getIndex ≠ s.dq.putIndex)
    (hl : Listed s.kern fun t => (g t).waits)
    (hpush : ∀ u, Resumed s.kern s.pc 0 u → g u = s.pc u) (ht : ∀ u, u ≠ t → g u = s.pc u)
    (hsus : ∀ u, (s.kern.thread u).stat = .suspend → g u = s.pc u) :
    WaitInv { fetch s with pc := g } := by
  obtain ⟨hf, hlwm, hk, hpu, hpo⟩ := h
  have hput := hf.put
  have hget := hf.get
  have hlevel := level_fetch hf hsome
  have hl1 : (DataQueue.fetch s).dq.level =
      (s.dq.putIndex + (2 ^ 16 - (s.dq.getIndex + 1) % 2 ^ 16)) % 2 ^ 16 := rfl
  refine ⟨⟨hf.pos, hf.small, hf.put, Nat.mod_lt _ (by decide)⟩, hlwm, ?_, ?_, ?_⟩
  · show Listed (if _ then s.kern.resumeFirst 0 else s.kern) _
    split
    · exact hl.resumeFirst
    · exact hl
  · show Covered (if (s.dq.putIndex : Int) - ((s.dq.getIndex + 1) % 2 ^ 16 : Nat) ≤ s.dq.lwm then
      s.kern.resumeFirst 0 else s.kern) g 0 (s.dq.lwm + 1 - (DataQueue.fetch s).dq.level)
    split
    · exact hpu.wake hk (by omega) fun u hu => hu.elim (hsus u) (hpush u)
    · next hle =>
      have hzero : s.dq.lwm + 1 - (DataQueue.fetch s).dq.level = 0 := by omega
      rw [hzero]
      exact fun _ => AtLeast.zero
  · show Covered (if _ then s.kern.resumeFirst 0 else s.kern) g 1 (DataQueue.fetch s).dq.level
    split
    · obtain ⟨hlists, hres⟩ := resumeFirst_keeps (p := 0) (q := 1) hk
      exact hpo.spend (t := t) (by omega) hlists fun u hu hr => (hres u hr).congr (ht u hu)
    · exact hpo.spend (t := t) (by omega) id fun u hu hr => hr.congr (ht u hu)

/-- The current thread waits on the list `q`, and no thread has to be resumed for those there. -/
theorem WaitInv.wait {p : Pc} (h : WaitInv s) (hw : wait s q timeout p = some s')
    (hp : p.waits = some q) (ht : (s.kern.thread s.kern.current).stat = .ready)
    (h0 : q = 0 → s.dq.lwm + 1 - s.dq.level = 0) (h1 : q = 1 → s.dq.level = 0)
    (hres : ∀ x, x ≠ q → ¬ Resumed s.kern s.pc x s.kern.current) : WaitInv s' := by
  obtain ⟨k, hk, rfl⟩ := Option.map_eq_some_iff.mp hw
  obtain ⟨hf, hlwm, hl, hpu, hpo⟩ := h
  have hpc : ∀ u, u ≠ s.kern.current → Function.update s.pc s.kern.current p u = s.pc u :=
    fun u hu => Function.update_of_ne hu ..
  have hkeep : ∀ x n, (x = q → n = 0) → Covered s.kern s.pc x n →
      Covered k (Function.update s.pc s.kern.current p) x n := by
    intro x n hx hc
    by_cases hxq : x = q
    · rw [hx hxq]
      exact fun _ => AtLeast.zero
    · refine hc.keep (Nat.le_refl n) (fun hne hn => ?_) fun u hu => ?_
      · obtain ⟨u, hu⟩ := List.exists_mem_of_ne_nil _ hne
        rcases mem_waitOn hk hu with hm | ⟨-, he⟩
        · rw [hn] at hm
          exact List.not_mem_nil hm
        · exact hxq he
      · have hne : u ≠ s.kern.current := fun he => hres x hxq (he ▸ hu)
        unfold Resumed
        rw [waitOn_thread hk hne, hpc u hne]
        exact hu
  refine ⟨hf, hlwm, hl.waitOn hk (fun u hu => ?_) ?_ ht, hkeep 0 _ (fun he => h0 he.symm) hpu,
    hkeep 1 _ (fun he => h1 he.symm) hpo⟩
  · exact congrArg Pc.waits (hpc u hu)
  · show (Function.update s.pc s.kern.current p s.kern.current).waits = some q
    rw [Function.update_self]
    exact hp

/-- A ready thread goes to another place, where it still counts if it did. -/
theorem WaitInv.goto {p : Pc} (h : WaitInv s) (ht : (s.kern.thread t).stat = .ready)
    (hr : ∀ q, Resumed s.kern s.pc q t → p.again = some q ∨
      q = 0 ∧ s.dq.lwm + 1 - s.dq.level = 0 ∨ q = 1 ∧ s.dq.level = 0) :
    WaitInv (s.goto t p) := by
  obtain ⟨hf, hlwm, hl, hpu, hpo⟩ := h
  have hpc : ∀ u, u ≠ t → Function.update s.pc t p u = s.pc u :=
    fun u hu => Function.update_of_ne hu ..
  have hkeep : ∀ q n, (Resumed s.kern s.pc q t → p.again = some q ∨ n = 0) →
      Covered s.kern s.pc q n → Covered s.kern (Function.update s.pc t p) q n := by
    intro q n hq hc hne
    by_cases hn : n = 0
    · rw [hn]
      exact AtLeast.zero
    · refine (hc hne).mono (Nat.le_refl n) fun u hu => ?_
      by_cases hut : u = t
      · subst hut
        refine ⟨ht, .inr ?_⟩
        rw [Function.update_self]
        exact (hq hu).resolve_right hn
      · exact hu.congr (hpc u hut)
  refine ⟨hf, hlwm, hl.goto ht fun u hu => congrArg Pc.waits (hpc u hu), hkeep 0 _ (fun hq => ?_)
    hpu, hkeep 1 _ (fun hq => ?_) hpo⟩
  · rcases hr 0 hq with hp | ⟨-, hz⟩ | ⟨h01, -⟩
    · exact .inl hp
    · exact .inr hz
    · cases h01
  · rcases hr 1 hq with hp | ⟨h10, -⟩ | ⟨-, hz⟩
    · exact .inl hp
    · cases h10
    · exact .inr hz

/-! ## The steps -/

/-- A thread that is not in a wait is ready, and counts for the list of its place at most. -/
theorem WaitInv.section (h : WaitInv s) (hw : (s.pc t).waits = none)
    (hx : (s.pc t).again = none ∨ (s.pc t).again = some q) :
    (s.kern.thread t).stat = .ready ∧ (∀ x, x ≠ q → ¬ Resumed s.kern s.pc x t) ∧
      ∀ u, (s.kern.thread u).stat = .suspend → u ≠ t := by
  have ht := h.listed.ready_of_on (t := t) hw
  refine ⟨ht, fun x hxq hr => ?_, fun u hu he => ?_⟩
  · rcases hr.2 with ⟨hwx, -⟩ | ha
    · rw [hw] at hwx
      cases hwx
    · rcases hx with hx | hx
      · rw [hx] at ha
        cases ha
      · rw [hx] at ha
        exact hxq (Option.some.inj ha).symm
  · rw [he, ht] at hu
    cases hu

theorem WaitInv.push_step (h : WaitInv s) (hw : (s.pc s.kern.current).waits = none)
    (hx : (s.pc s.kern.current).again = none ∨ (s.pc s.kern.current).again = some 0)
    (hlap : s.dq.full = false → s.dq.level = 65535 → s.kern.suspendThread 0 = [])
    (hs : rtDataQueuePush s item timeout = some s') : WaitInv s' := by
  obtain ⟨ht, hother, hsus⟩ := h.section hw hx
  have hpc : ∀ u p, u ≠ s.kern.current → Function.update s.pc s.kern.current p u = s.pc u :=
    fun u p hu => Function.update_of_ne hu ..
  simp only [rtDataQueuePush] at hs
  split at hs
  · next hfull =>
    have hlevel := (h.fits.full_iff.mp hfull).2
    have hlwm := h.lwm
    split at hs
    · cases hs
      refine h.goto ht fun q hr => ?_
      by_cases hq : q = 0
      · exact .inr (.inl ⟨hq, by omega⟩)
      · exact absurd hr (hother q hq)
    · exact h.wait hs rfl ht (fun _ => by omega) (fun he => by cases he) hother
  · next hfull =>
    cases hs
    refine h.store (g := Function.update s.pc s.kern.current (.done rtEok))
      (t := s.kern.current) (hlap (Bool.eq_false_iff.mpr hfull)) ?_ (fun u hu => ?_)
      (fun u hu => hpc u _ hu) fun u hu => hpc u _ (hsus u hu)
    · exact h.listed.goto ht fun u hu => congrArg Pc.waits (hpc u _ hu)
    · exact hpc u _ fun he => hother 1 (by decide) (he ▸ hu)

theorem WaitInv.pop_step (h : WaitInv s) (hw : (s.pc s.kern.current).waits = none)
    (hx : (s.pc s.kern.current).again = none ∨ (s.pc s.kern.current).again = some 1)
    (hs : rtDataQueuePop s timeout = some s') : WaitInv s' := by
  obtain ⟨ht, hother, hsus⟩ := h.section hw hx
  have hpc : ∀ u p, u ≠ s.kern.current → Function.update s.pc s.kern.current p u = s.pc u :=
    fun u p hu => Function.update_of_ne hu ..
  simp only [rtDataQueuePop] at hs
  split at hs
  · next hempty =>
    have hlevel := h.fits.level_zero.mpr hempty
    split at hs
    · cases hs
      refine h.goto ht fun q hr => ?_
      by_cases hq : q = 1
      · exact .inr (.inr ⟨hq, hlevel⟩)
      · exact absurd hr (hother q hq)
    · exact h.wait hs rfl ht (fun he => by cases he) (fun _ => hlevel) hother
  · next hsome =>
    cases hs
    refine h.fetch (g := Function.update s.pc s.kern.current (.done rtEok))
      (t := s.kern.current) hsome ?_ (fun u hu => ?_)
      (fun u hu => hpc u _ hu) fun u hu => hpc u _ (hsus u hu)
    · exact h.listed.goto ht fun u hu => congrArg Pc.waits (hpc u _ hu)
    · exact hpc u _ fun he => hother 0 (by decide) (he ▸ hu)

theorem WaitInv.afterWait_step {p : Pc} (h : WaitInv s)
    (hp : (s.pc s.kern.current).waits = some q) (ha : (s.pc s.kern.current).again = none)
    (hpa : p.again = some q) (hs : afterWait s p = some s') : WaitInv s' := by
  simp only [afterWait] at hs
  split at hs
  · next ht =>
    split at hs
    · next herr =>
      cases hs
      refine h.goto ht fun q hr => ?_
      rcases hr.2 with ⟨-, he⟩ | hr
      · exact absurd he herr
      · rw [ha] at hr
        cases hr
    · cases hs
      refine h.goto ht fun x hr => .inl ?_
      rcases hr.2 with ⟨hx, -⟩ | hr
      · rw [hpa, ← hp, hx]
      · rw [ha] at hr
        cases hr
  · cases hs

theorem WaitInv.timeout_step (h : WaitInv s) (hk : s.kern.rtThreadTimeout u = some k) :
    WaitInv (s.setKern k) := by
  obtain ⟨hs, -, -, hthr, hlist⟩ := rtThreadTimeout_some hk
  have hkeep : ∀ q n, Covered s.kern s.pc q n → Covered k s.pc q n := by
    intro q n hc
    refine hc.keep (Nat.le_refl n) (fun hne hn => ?_) fun w hw => ?_
    · rw [hlist, hn] at hne
      exact hne rfl
    · have hwu : w ≠ u := fun he => by
        have := hs.symm.trans (he ▸ hw.1)
        cases this
      unfold Resumed
      rw [hthr, if_neg hwu]
      exact hw
  exact ⟨h.fits, h.lwm, h.listed.timeout hk, hkeep 0 _ h.push, hkeep 1 _ h.pop⟩

theorem WaitInv.step (h : WaitInv s) (hc : NoLap s act) (hs : dqStep s act = some s') :
    WaitInv s' := by
  cases act with
  | preempt u =>
    simp only [dqStep] at hs
    split at hs <;> cases hs
    exact ⟨h.fits, h.lwm, h.listed.preempt, h.push, h.pop⟩
  | push item timeout =>
    simp only [dqStep] at hs
    split at hs
    · next hpc =>
      exact h.push_step (by rw [hpc]; rfl) (.inl (by rw [hpc]; rfl)) (fun hf hl => hc ⟨hf, hl⟩) hs
    · cases hs
  | pop timeout =>
    simp only [dqStep] at hs
    split at hs
    · next hpc => exact h.pop_step (by rw [hpc]; rfl) (.inl (by rw [hpc]; rfl)) hs
    · cases hs
  | goOn =>
    simp only [dqStep] at hs
    unfold goOn at hs
    split at hs
    · cases hs
    · next hpc =>
      exact h.afterWait_step (q := 0) (by rw [hpc]; rfl) (by rw [hpc]; rfl) rfl hs
    · next hpc =>
      exact h.push_step (by rw [hpc]; rfl) (.inr (by rw [hpc]; rfl))
        (fun hf hl => hc ⟨⟨hf, by rw [hpc]; rfl⟩, hl⟩) hs
    · next hpc =>
      exact h.afterWait_step (q := 1) (by rw [hpc]; rfl) (by rw [hpc]; rfl) rfl hs
    · next hpc => exact h.pop_step (by rw [hpc]; rfl) (.inr (by rw [hpc]; rfl)) hs
    · next r hpc =>
      cases hs
      have hw : (s.pc s.kern.current).waits = none := by rw [hpc]; rfl
      have ha : (s.pc s.kern.current).again = none := by rw [hpc]; rfl
      obtain ⟨ht, hother, -⟩ := h.section (q := 2) hw (.inl ha)
      obtain ⟨-, hother', -⟩ := h.section (q := 0) hw (.inl ha)
      refine h.goto ht fun q hr => ?_
      by_cases hq : q = 0
      · exact absurd hr (hother q (by rw [hq]; decide))
      · exact absurd hr (hother' q hq)
  | isrPush item =>
    simp only [dqStep] at hs
    split at hs <;> cases hs
    · exact h
    · next hfull =>
      exact h.store (t := s.kern.current) (fun hl => hc ⟨Bool.eq_false_iff.mpr hfull, hl⟩) h.listed
        (fun _ _ => rfl) (fun _ _ => rfl) fun _ _ => rfl
  | isrPop =>
    simp only [dqStep] at hs
    split at hs <;> cases hs
    · exact h
    · next hsome =>
      exact h.fetch (t := s.kern.current) hsome h.listed (fun _ _ => rfl) (fun _ _ => rfl)
        fun _ _ => rfl
  | timeout u =>
    obtain ⟨k, hk, rfl⟩ := Option.map_eq_some_iff.mp hs
    exact h.timeout_step hk

theorem init_waitInv {queue : Nat → RtDataItem} {size lwm : Nat} {priority : Nat → Nat}
    (hlwm : lwm < size) (hsmall : size < 2 ^ 16) :
    WaitInv (rtDataQueueInit queue size lwm priority) where
  fits := init_fits (Nat.zero_lt_of_lt hlwm) hsmall
  lwm := hlwm
  listed := ⟨fun q u hu => absurd hu List.not_mem_nil, fun u hu => (by cases hu),
    fun u hu => (by cases hu)⟩
  push hne := absurd rfl hne
  pop hne := absurd rfl hne

/-- **No waiting thread is left behind.** In every run in which no push laps the queue while a
thread waits in a push, whatever the timeouts: where a thread waits in a push, the queue has more
than `lwm` items, or a resumed push is yet to run; and where a thread waits in a pop, the queue is
empty, or a resumed pop is yet to run. -/
theorem none_stranded (queue : Nat → RtDataItem) (size lwm : Nat) (priority : Nat → Nat)
    (hlwm : lwm < size) (hsmall : size < 2 ^ 16) (acts : List DqAct) (s : DqSys)
    (hx : exec dqStep (rtDataQueueInit queue size lwm priority) acts = some s)
    (hc : Along dqStep NoLap (rtDataQueueInit queue size lwm priority) acts) : NoneStranded s :=
  (Along.inv (I := WaitInv) (fun _ _ _ h hr hs => h.step hr hs) hc hx
    (init_waitInv hlwm hsmall)).noneStranded

/-- A queue of 2 items. -/
def twoItems : DqSys := rtDataQueueInit (fun _ => ⟨0, 0⟩) 2 0 (fun _ => 0)

/-- The queue is full, and the thread 1 waits in a push. -/
def fullRun : List DqAct :=
  pushNow ++ pushNow ++ [.preempt 1, .push ⟨9, 1⟩ (-1), .preempt 0]

instance (s : DqSys) (act : DqAct) : Decidable (NoLap s act) :=
  match s.kern.suspendThread 0 with
  | [] => inferInstanceAs (Decidable (_ ∧ _ → _))
  | _ :: _ => inferInstanceAs (Decidable (_ ∧ _ → _))

/-- Thread 1 waits in a push until the queue is empty. -/
def fullPopRun : List DqAct := fullRun ++ popNow ++ popNow

theorem none_stranded_two : ∃ s, exec dqStep twoItems fullPopRun = some s ∧
    (s.kern.thread 1).stat = .ready ∧ NoneStranded s := by
  have hx : (exec dqStep twoItems fullPopRun).map (fun s => (s.kern.thread 1).stat) =
      some .ready := by decide +kernel
  obtain ⟨s, hs, hp⟩ := Option.map_eq_some_iff.mp hx
  exact ⟨s, hs, hp, none_stranded _ 2 0 _ (by decide) (by decide) fullPopRun s hs
    (by decide +kernel)⟩

/-! ## Behind a lap -/

/-- The queue is full, thread 0 is at work, and thread 1 waits. -/
theorem fullRun_at : ∃ s, exec dqStep twoItems fullRun = some s ∧
    At s.kern s.pc 2 0 0 2 s ∧ s.pc s.kern.current = .user ∧ s.kern.suspendThread 1 = [] ∧
    s.pc 1 = .pushWait ⟨9, 1⟩ (-1) ∧ (s.kern.thread 1).stat = .suspend ∧
      ∀ u, u ≠ 1 → s.pc u = .user := by
  refine ⟨_, rfl, ⟨rfl, rfl, rfl, rfl, rfl, rfl⟩, rfl, rfl, rfl, rfl, fun u hu => ?_⟩
  match u with
  | 0 => rfl
  | 1 => exact absurd rfl hu
  | u + 2 => rfl

def swapsTo (n : Nat) : List DqAct := (List.replicate n (popNow ++ pushNow)).flatten

theorem swapsTo_succ (n : Nat) : swapsTo (n + 1) = swapsTo n ++ (popNow ++ pushNow) := by
  rw [swapsTo, List.replicate_succ', List.flatten_concat, ← swapsTo]

def pushes (n : Nat) : List DqAct := (List.replicate n pushNow).flatten

theorem pushes_succ (n : Nat) : pushes (n + 1) = pushes n ++ pushNow := by
  rw [pushes, List.replicate_succ', List.flatten_concat, ← pushes]

section Lap

variable {pcs : Nat → Pc}

/-- An item goes and one comes, until `put_index` wraps. -/
theorem At.swaps (h : At k pcs 2 0 0 2 s) (hu : pcs k.current = .user)
    (hq : k.suspendThread 1 = []) {n : Nat} (hn : n ≤ 65534) : ∃ s',
    exec dqStep s (swapsTo n) = some s' ∧ At k pcs 2 0 n ((n + 2) % 2 ^ 16) s' := by
  induction n with
  | zero => exact ⟨s, rfl, h⟩
  | succ n ih =>
    obtain ⟨s', hx, hs⟩ := ih (Nat.le_of_succ_le hn)
    rw [Nat.mod_eq_of_lt (by omega)] at hs
    obtain ⟨s1, hx1, hs1⟩ := hs.pop hu (fun hle => by omega) (by omega)
    rw [Nat.mod_eq_of_lt (by omega)] at hs1
    obtain ⟨s2, hx2, hs2⟩ := hs1.push hu hq (by omega)
    refine ⟨s2, ?_, hs2⟩
    rw [swapsTo_succ, exec_append hx, exec_append hx1, hx2]

/-- Behind the wrap, items come without an end. -/
theorem At.pushes (h : At k pcs 2 0 65534 0 s) (hu : pcs k.current = .user)
    (hq : k.suspendThread 1 = []) {n : Nat} (hn : n ≤ 65534) : ∃ s',
    exec dqStep s (pushes n) = some s' ∧ At k pcs 2 0 65534 n s' := by
  induction n with
  | zero => exact ⟨s, rfl, h⟩
  | succ n ih =>
    obtain ⟨s', hx, hs⟩ := ih (Nat.le_of_succ_le hn)
    obtain ⟨s1, hx1, hs1⟩ := hs.push hu hq (by omega)
    rw [Nat.mod_eq_of_lt (by omega)] at hs1
    refine ⟨s1, ?_, hs1⟩
    rw [pushes_succ, exec_append hx, hx1]

end Lap

/-- While thread 1 waits in a push, thread 0 pushes 65536 items more than it pops. -/
def lapWaitRun : List DqAct := fullRun ++ (swapsTo 65534 ++ pushes 65534)

theorem lapWaitRun_stranded : ∃ s, exec dqStep twoItems lapWaitRun = some s ∧ Suspended s 0 1 ∧
    s.dq.level = 0 ∧ ¬ NoneStranded s := by
  obtain ⟨s0, hx0, hat, hu, hq, hpc, hst, hothers⟩ := fullRun_at
  obtain ⟨s1, hx1, hs1⟩ := hat.swaps hu hq (Nat.le_refl 65534)
  obtain ⟨s2, hx2, hs2⟩ := hs1.pushes hu hq (Nat.le_refl 65534)
  have hsus : Suspended s2 0 1 := by
    unfold Suspended
    rw [hs2.kern, hs2.pc, hpc]
    exact ⟨hst, rfl⟩
  have hlevel : s2.dq.level = 0 := by
    rw [RtDataQueue.level, hs2.get, hs2.put]
    decide
  refine ⟨s2, ?_, hsus, hlevel, fun hn => ?_⟩
  · rw [lapWaitRun, exec_append hx0, exec_append hx1, hx2]
  · obtain ⟨w, hw⟩ := hn.push 1 hsus (by rw [hlevel]; exact Nat.zero_le _)
    rw [hs2.kern, hs2.pc] at hw
    by_cases hw1 : w = 1
    · rw [hw1, Resumed, hst] at hw
      cases hw.1
    · rw [Resumed, hothers w hw1] at hw
      rcases hw.2 with ⟨he, -⟩ | he <;> cases he

end Tudu.DataQueue
