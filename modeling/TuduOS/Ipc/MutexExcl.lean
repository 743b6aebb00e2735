import TuduOS.Ipc.MutexWait

/-!
# Mutual exclusion

At most one thread is between a successful `rt_mutex_take` and its last `rt_mutex_release`, and
`value` is 1 if and only if there is no owner (`Excl`). The code breaks this where a wait that a
signal ended tries again with interrupts enabled: between `mutex->value --` and
`mutex->owner = thread` the value is 0 and there is no owner, and a thread that runs in between may
do the same.

* **The condition** (`ExclKeeps`). No wait comes as far as `mutex->value --` again (`NoRetry`). A
  thread that a signal made ready before its `rt_schedule` does not go on without handling it
  (`TestHandled`), and none is resumed on its way to the list (`LinkWhole`). `hold` does not wrap:
  at most 256 nested takes (`Nested`).
* **The invariant** (`HoldInv`, with `WaitInv`). `hold` counts at least the takes of the owner
  that it has not released (`depth`), and nobody else has one. A thread that waits has none.
-/

namespace Tudu.Mutex

open Kern MutexSys Lts

/-- The property: mutual exclusion, and `value` tells if there is an owner. -/
structure Excl (s : MutexSys) : Prop where
  value : ∀ m, (s.mutex m).value = 0 ∨ (s.mutex m).value = 1
  free : ∀ m, (s.mutex m).value = 1 ↔ (s.mutex m).owner = none
  one : ∀ m t u, 0 < s.held t m → 0 < s.held u m → t = u

/-! ## The condition -/

/-- No thread runs `mutex->value --` with interrupts enabled. -/
def NoRetry (s : MutexSys) (act : MutexAct) : Prop := ∀ p ∈ stmtOf s act, p.2 ≠ .dec

/-- The owner does not take the mutex again where `hold` has wrapped to 0. -/
def Nested (s : MutexSys) : MutexAct → Prop
  | .take m _ => (s.mutex m).owner = some s.kern.current → (s.mutex m).hold ≠ 0
  | _ => True

structure ExclKeeps (s : MutexSys) (act : MutexAct) : Prop where
  retry : NoRetry s act
  test : TestHandled s act
  link : LinkWhole s act
  nested : Nested s act

instance (s : MutexSys) : ∀ act, Decidable (Nested s act)
  | .take m _ => inferInstanceAs (Decidable
      ((s.mutex m).owner = some s.kern.current → (s.mutex m).hold ≠ 0))
  | .preempt _ | .stmt | .schedule _ | .ret | .release _ | .timeout _ | .sigResume _
  | .sigHandle _ => inferInstanceAs (Decidable True)

instance (s : MutexSys) (act : MutexAct) : Decidable (ExclKeeps s act) :=
  have : Decidable (NoRetry s act) :=
    inferInstanceAs (Decidable (∀ p ∈ stmtOf s act, p.2 ≠ .dec))
  decidable_of_iff (NoRetry s act ∧ TestHandled s act ∧ LinkWhole s act ∧ Nested s act)
    ⟨fun h => ⟨h.1, h.2.1, h.2.2.1, h.2.2.2⟩, fun h => ⟨h.retry, h.test, h.link, h.nested⟩⟩

theorem ExclKeeps.wait {s : MutexSys} {act : MutexAct} (h : ExclKeeps s act) : WaitKeeps s act :=
  ⟨fun p hp e => absurd e (h.retry p hp), h.link⟩

/-! ## The invariant -/

/-- The takes that `hold` stands for: 256 when it has wrapped. -/
def depth (hold : Nat) : Nat := if hold = 0 then 2 ^ 8 else hold

theorem depth_pos (n : Nat) : 0 < depth n := by
  unfold depth
  split <;> omega

/-- What is true of a mutex and the takes of it that are not released. -/
def HoldOk (x : RtMutex) (held : Nat → Nat) : Prop :=
  match x.owner with
  | none => x.hold = 0 ∧ ∀ u, held u = 0
  | some t => x.hold < 2 ^ 8 ∧ held t ≤ depth x.hold ∧ ∀ u, u ≠ t → held u = 0

/-- The phases behind `mutex->value --`. -/
def Ph.retried : Ph → Bool
  | .own | .prio | .hold => true
  | _ => false

structure HoldInv (s : MutexSys) : Prop where
  mutex : ∀ m, HoldOk (s.mutex m) fun t => s.held t m
  waits : ∀ t m time ph, s.pc t = .take m time ph → ph.retried = false ∧ s.held t m = 0

variable {s s' : MutexSys} {k : Kern} {t u m : Nat}

theorem HoldOk.of_owner {x : RtMutex} {held : Nat → Nat} (ho : x.owner = some t)
    (hlt : x.hold < 2 ^ 8) (hd : held t ≤ depth x.hold) (hz : ∀ u, u ≠ t → held u = 0) :
    HoldOk x held := by
  unfold HoldOk
  rw [ho]
  exact ⟨hlt, hd, hz⟩

theorem HoldOk.of_free {x : RtMutex} {held : Nat → Nat} (ho : x.owner = none) (h0 : x.hold = 0)
    (hz : ∀ u, held u = 0) : HoldOk x held := by
  unfold HoldOk
  rw [ho]
  exact ⟨h0, hz⟩

theorem HoldOk.owned {x : RtMutex} {held : Nat → Nat} (h : HoldOk x held) (ho : x.owner = some t) :
    x.hold < 2 ^ 8 ∧ held t ≤ depth x.hold ∧ ∀ u, u ≠ t → held u = 0 := by
  unfold HoldOk at h
  rwa [ho] at h

theorem HoldOk.unowned {x : RtMutex} {held : Nat → Nat} (h : HoldOk x held) (ho : x.owner = none) :
    x.hold = 0 ∧ ∀ u, held u = 0 := by
  unfold HoldOk at h
  rwa [ho] at h

theorem HoldOk.zero {x : RtMutex} {held : Nat → Nat} (h : HoldOk x held) (ho : x.owner ≠ some t) :
    held t = 0 := by
  cases hv : x.owner with
  | none => exact (h.unowned hv).2 t
  | some v => exact (h.owned hv).2.2 t fun e => ho (e ▸ hv)

/-- `mutex->owner` is the only thread with a take that is not released. -/
theorem HoldInv.owner (h : HoldInv s) (hh : 0 < s.held t m) : (s.mutex m).owner = some t := by
  by_contra ho
  have := (h.mutex m).zero ho
  omega

/-- A step of the thread `t` on the mutex `m`. -/
theorem HoldInv.update (h : HoldInv s) (t m : Nat) (hpc : ∀ u, u ≠ t → s'.pc u = s.pc u)
    (hmx : ∀ q, q ≠ m → s'.mutex q = s.mutex q)
    (hheld : ∀ u q, u ≠ t ∨ q ≠ m → s'.held u q = s.held u q)
    (hm : HoldOk (s'.mutex m) fun u => s'.held u m)
    (ht : ∀ q time ph, s'.pc t = .take q time ph → ph.retried = false ∧ s'.held t q = 0) :
    HoldInv s' := by
  constructor
  · intro q
    by_cases hq : q = m
    · subst hq; exact hm
    · have : (fun u => s'.held u q) = fun u => s.held u q := funext fun u => hheld u q (.inr hq)
      rw [hmx q hq, this]
      exact h.mutex q
  · intro u q time ph hp
    by_cases hu : u = t
    · subst hu; exact ht q time ph hp
    · rw [hpc u hu] at hp
      rw [hheld u q (.inl hu)]
      exact h.waits u q time ph hp

theorem HoldInv.setKern (h : HoldInv s) (k : Kern) : HoldInv (s.setKern k) := ⟨h.mutex, h.waits⟩

theorem HoldInv.goto (h : HoldInv s) (t : Nat) (p : Pc)
    (ht : ∀ q time ph, p = .take q time ph → ph.retried = false ∧ s.held t q = 0) :
    HoldInv (s.goto t p) := by
  refine h.update t 0 (fun u hu => ?_) (fun _ _ => rfl) (fun _ _ _ => rfl) (h.mutex 0) ?_
  · rw [goto_pc, if_neg hu]
  · rw [goto_pc, if_pos rfl]
    exact ht

/-- The thread goes on in the same take. -/
theorem HoldInv.goOn (h : HoldInv s) {time : Int} {ph : Ph} (hp : s.pc t = .take m time ph)
    {ph' : Ph} (hph : ph'.retried = false) : HoldInv (s.goto t (.take m time ph')) := by
  refine h.goto t _ fun q time' ph'' e => ?_
  cases e
  exact ⟨hph, (h.waits t m time ph hp).2⟩

theorem HoldInv.goKern (h : HoldInv s) {time : Int} {ph : Ph} (hp : s.pc t = .take m time ph)
    {ph' : Ph} (hph : ph'.retried = false) : HoldInv ((s.setKern k).goto t (.take m time ph')) :=
  HoldInv.goOn (h.setKern k) hp hph

/-- A take that fails. -/
theorem HoldInv.fail (h : HoldInv s) (t m : Nat) {r : Int} (hr : r ≠ rtEok) :
    HoldInv (s.finish t m r) := by
  have hheld : ∀ u q, (s.finish t m r).held u q = s.held u q := by
    intro u q
    simp only [finish, if_neg hr, setHeld_held, goto_held]
    split
    · next e => rw [e.1, e.2]
    · rfl
  refine h.update t m (fun u hu => ?_) (fun _ _ => rfl) (fun u q _ => hheld u q) ?_ ?_
  · simp only [finish, setHeld_pc, goto_pc, if_neg hu]
  · simp only [hheld]
    exact h.mutex m
  · intro q time ph e
    simp only [finish, setHeld_pc, goto_pc, if_pos] at e
    cases e

/-- A take that succeeds: the thread owns the mutex, with `hold` for one more take. -/
theorem HoldInv.succeed (h : HoldInv s) (t m : Nat) {x : RtMutex} (ho : x.owner = some t)
    (hlt : x.hold < 2 ^ 8) (hd : s.held t m + 1 ≤ depth x.hold)
    (hz : ∀ u, u ≠ t → s.held u m = 0) : HoldInv ((s.setMutex m x).finish t m rtEok) := by
  have hheld : ∀ u q, ((s.setMutex m x).finish t m rtEok).held u q =
      if u = t ∧ q = m then s.held t m + 1 else s.held u q := by
    intro u q
    simp only [finish, if_pos, setHeld_held, goto_held, setMutex_held]
  refine h.update t m (fun u hu => ?_) (fun q hq => ?_) (fun u q hne => ?_) ?_ ?_
  · simp only [finish, setHeld_pc, goto_pc, if_neg hu, setMutex_pc]
  · simp only [finish, setHeld_mutex, goto_mutex, setMutex_mutex, if_neg hq]
  · rw [hheld, if_neg (by tauto)]
  · have hm : ((s.setMutex m x).finish t m rtEok).mutex m = x := by
      simp only [finish, setHeld_mutex, goto_mutex, setMutex_mutex, if_pos]
    rw [hm]
    refine .of_owner ho hlt ?_ fun u hu => ?_
    · rw [hheld, if_pos ⟨rfl, rfl⟩]
      exact hd
    · rw [hheld, if_neg fun e => hu e.1]
      exact hz u hu
  · intro q time ph e
    simp only [finish, setHeld_pc, goto_pc, if_pos] at e
    cases e

/-! ## The steps -/

/-- Free mutexes have no takes that are not released. -/
theorem HoldInv.tryTake (h : HoldInv s) (hw : WaitInv s) {time : Int}
    (hn : Nested s (.take m time)) (hs : rtMutexTake s m time = some s') : HoldInv s' := by
  unfold rtMutexTake at hs
  simp only at hs
  split at hs
  · next ho =>
    -- one more take by the owner
    cases hs
    obtain ⟨hlt, hd, hz⟩ := (h.mutex m).owned ho
    refine (h.setKern _).succeed _ m (x := { s.mutex m with hold := _ }) ho
      (Nat.mod_lt _ (by omega)) ?_ hz
    have h0 := hn ho
    simp only [depth, if_neg h0] at hd
    show s.held s.kern.current m + 1 ≤ depth (((s.mutex m).hold + 1) % 2 ^ 8)
    unfold depth
    split <;> omega
  split at hs
  · next hv =>
    cases hs
    have hfree : (s.mutex m).owner = none := by
      rcases hw.mutex m with hm | hm | hm
      · exact hm.2.1
      · omega
      · omega
    obtain ⟨h0, hz⟩ := (h.mutex m).unowned hfree
    refine (h.setKern _).succeed _ m (x := { s.mutex m with
      value := _, owner := _, originalPriority := _, hold := _ }) rfl (Nat.mod_lt _ (by omega)) ?_
      fun u _ => hz u
    show s.held s.kern.current m + 1 ≤ depth (((s.mutex m).hold + 1) % 2 ^ 8)
    have hcur : s.held s.kern.current m = 0 := hz s.kern.current
    rw [h0, hcur]
    decide
  split at hs
  · cases hs
    exact ((h.setKern _).setKern _).fail _ m (by decide)
  next hne _ _ =>
  split at hs
  · cases hs
  · obtain ⟨k, -, rfl⟩ := Option.map_eq_some_iff.mp hs
    refine ((h.setKern _).setKern _).goto _ _ fun q time' ph e => ?_
    cases e
    exact ⟨rfl, (h.mutex m).zero hne⟩

/-- A statement of the rest of `rt_mutex_take`. -/
theorem HoldInv.stmt (h : HoldInv s) (hw : WaitInv s) {time : Int} {ph : Ph}
    (hp : s.pc s.kern.current = .take m time ph) (hdec : ph ≠ .dec)
    (htest : ph = .test → (s.kern.thread s.kern.current).sigPending = true → (s.kern.thread s.kern.current).error = rtEok → (s.mutex m).owner = some s.kern.current)
    (hs : takeStmt s m time ph = some s') : HoldInv s' := by
  have hok := hw.thread s.kern.current
  rw [hp] at hok
  obtain ⟨hret, hz⟩ := h.waits _ _ _ _ hp
  cases ph with
  | sched => cases hs
  | dec => exact absurd rfl hdec
  | own | prio | hold => cases hret
  | test =>
    simp only [takeStmt] at hs
    split at hs <;> cases hs
    · exact h.goOn hp rfl
    · next he =>
      -- the thread was handed the mutex
      have he := not_not.mp he
      have ho : (s.mutex m).owner = some s.kern.current :=
        (hok.1.2 he).elim id fun hsig => htest rfl hsig he
      obtain ⟨hlt, -, hz'⟩ := (h.mutex m).owned ho
      have hself : s.setMutex m (s.mutex m) = s := by
        simp [MutexSys.setMutex]
      have := h.succeed s.kern.current m ho hlt (by
        rw [hz]
        exact depth_pos _) hz'
      rwa [hself] at this
  | fail =>
    cases hs
    exact h.fail _ m hok.1.2
  | poll =>
    simp only [takeStmt] at hs
    split at hs <;> cases hs
    · exact (h.setKern _).fail _ m (by decide)
    · exact h.goOn hp rfl
  | switched | testIntr | again | inherit | raise =>
    simp only [takeStmt] at hs
    repeat' split at hs
    all_goals cases hs
    all_goals first | exact h.goOn hp rfl | exact h.goKern hp rfl
  | susp | timer =>
    cases hs
    exact h.goKern hp rfl
  | link =>
    obtain ⟨k, -, rfl⟩ := Option.map_eq_some_iff.mp hs
    exact h.goKern hp rfl

/-- The release of one take, at the mutex `x` that it leaves. -/
theorem HoldInv.releaseTo (h : HoldInv s) (hp : s.pc t = .user) {x : RtMutex}
    (hx : HoldOk x fun u => if u = t then s.held t m - 1 else s.held u m) :
    HoldInv ((s.setHeld t m (s.held t m - 1)).setMutex m x) := by
  refine h.update t m (fun _ _ => rfl) (fun q hq => ?_) (fun u q hne => ?_) ?_ ?_
  · simp only [setMutex_mutex, if_neg hq, setHeld_mutex]
  · simp only [setMutex_held, setHeld_held]
    rw [if_neg (by tauto)]
  · simpa only [setMutex_mutex, if_pos, setMutex_held, setHeld_held, and_true] using hx
  · intro q time ph e
    rw [setMutex_pc, setHeld_pc, hp] at e
    cases e

theorem HoldInv.release (h : HoldInv s) (hp : s.pc s.kern.current = .user) (m : Nat) :
    HoldInv (rtMutexRelease s m) := by
  rcases rtMutexRelease_cases s m with ⟨-, he⟩ | ⟨n, k, ho, hn, -, -, -, hx⟩
  · rw [he]
    exact h.setKern _
  obtain ⟨hlt, hd, hz⟩ := (h.mutex m).owned ho
  have hrest : ∀ u, u ≠ s.kern.current →
      (if u = s.kern.current then s.held s.kern.current m - 1 else s.held u m) = 0 := by
    intro u hu
    rw [if_neg hu]
    exact hz u hu
  -- the last hold is the last take
  have hlast : n = 0 → ∀ u,
      (if u = s.kern.current then s.held s.kern.current m - 1 else s.held u m) = 0 := by
    intro h0 u
    split
    · have h1 : (s.mutex m).hold = 1 := by omega
      have hd : s.held s.kern.current m ≤ 1 := by simpa [h1, depth] using hd
      omega
    · exact hz u (by assumption)
  rcases hx with ⟨h0, he⟩ | ⟨h0, u, us, p, -, he⟩ | ⟨h0, -, he⟩
  · rw [he]
    refine h.releaseTo hp (.of_owner ho (by simp only; omega) ?_ hrest)
    rw [if_pos rfl]
    simp only [depth] at hd ⊢
    split at hd <;> split <;> omega
  · rw [he]
    refine (h.releaseTo hp (.of_owner rfl (by simp only; omega) ?_ fun v _ => ?_)).setKern _
    · rw [hlast h0]
      exact Nat.zero_le _
    · exact hlast h0 v
  · rw [he]
    exact (h.releaseTo hp (.of_free rfl rfl fun v => hlast h0 v)).setKern _

theorem HoldInv.step (h : HoldInv s) (hw : WaitInv s) {act : MutexAct} (hc : ExclKeeps s act)
    (hs : mutexStep s act = some s') : HoldInv s' := by
  cases act with
  | preempt u =>
    simp only [mutexStep] at hs
    split at hs <;> cases hs
    exact h.setKern _
  | take m time =>
    simp only [mutexStep] at hs
    split at hs
    · exact h.tryTake hw hc.nested hs
    · cases hs
  | stmt =>
    have hretry := hc.retry
    have htest := hc.test
    simp only [mutexStep] at hs
    split at hs
    · next m time ph hp =>
      exact h.stmt hw hp (hretry _ (stmtOf_stmt hp)) (htest _ (stmtOf_stmt hp)) hs
    · cases hs
  | schedule next =>
    simp only [mutexStep] at hs
    split at hs
    · next m time hp =>
      repeat' split at hs
      all_goals cases hs
      · exact HoldInv.setKern (h.goOn hp rfl) _
      · exact h.goOn hp rfl
    · cases hs
  | ret =>
    simp only [mutexStep] at hs
    split at hs <;> cases hs
    exact h.goto _ _ fun _ _ _ e => by cases e
  | release m =>
    simp only [mutexStep] at hs
    split at hs <;> cases hs
    exact h.release ‹_› m
  | timeout u | sigResume u | sigHandle u =>
    obtain ⟨k, -, rfl⟩ := Option.map_eq_some_iff.mp hs
    exact h.setKern k

theorem HoldInv.init (flag priority : Nat → Nat) : HoldInv (mutexInit flag priority) :=
  ⟨fun _ => ⟨rfl, fun _ => rfl⟩, fun _ _ _ _ h => by cases h⟩

/-! ## Every run -/

theorem WaitInv.excl (hw : WaitInv s) (h : HoldInv s) : Excl s := by
  have hval : ∀ m, (s.mutex m).value = 1 ∧ (s.mutex m).owner = none ∨
      (s.mutex m).value = 0 ∧ (s.mutex m).owner ≠ none := by
    intro m
    rcases hw.mutex m with hm | ⟨-, -, v, hv, -⟩ | hm
    · exact .inl ⟨hm.1, hm.2.1⟩
    · cases hp : s.pc v with
      | take q time ph =>
        have hret := (h.waits v q time ph hp).1
        rw [hp] at hv
        cases ph <;> first | exact absurd hv id | cases hret
      | user | done => rw [hp] at hv; exact absurd hv id
    · exact .inr ⟨hm.1, hm.2.1⟩
  refine ⟨fun m => ?_, fun m => ?_, fun m t u ht hu => ?_⟩
  · exact (hval m).elim (fun e => .inr e.1) fun e => .inl e.1
  · rcases hval m with ⟨hv, ho⟩ | ⟨hv, ho⟩
    · simp [hv, ho]
    · simp [hv, ho]
  · exact Option.some.inj ((h.owner ht).symm.trans (h.owner hu))

/-- `mutex->value --` with interrupts enabled breaks the property at once. -/
theorem dec_not_excl (h : Excl s) (hp : s.pc s.kern.current = .take m time .dec)
    (hs : mutexStep s .stmt = some s') : ¬ Excl s' := by
  intro h'
  simp only [mutexStep, hp, takeStmt] at hs
  cases hs
  have hv := h'.value m
  have hf := h'.free m
  simp only [goto_mutex, setMutex_mutex, if_pos] at hv hf
  rcases h.value m with h0 | h1
  · rw [h0] at hv
    omega
  · rw [← h.free m, h1] at hf
    simp at hf

/-- **Mutual exclusion.** In every run that meets the condition, at most one thread is between a
successful take of a mutex and its last release, and `value` is 1 if and only if there is no
owner. -/
theorem mutex_excl (flag priority : Nat → Nat) (acts : List MutexAct) (s : MutexSys)
    (hx : exec mutexStep (mutexInit flag priority) acts = some s)
    (hc : Along mutexStep ExclKeeps (mutexInit flag priority) acts) : Excl s := by
  have hinv : WaitInv s ∧ HoldInv s := by
    refine hc.inv (I := fun s => WaitInv s ∧ HoldInv s) (fun s act s' h hk hs => ?_) hx
      ⟨.init flag priority, .init flag priority⟩
    exact ⟨h.1.step hk.wait hs, h.2.step h.1 hk hs⟩
  exact hinv.1.excl hinv.2

theorem mutex_excl_handover : ∃ s, exec mutexStep (mutexInit (fun _ => 0) fun _ => 10) handOver =
    some s ∧ Excl s ∧ s.held 1 0 = 1 :=
  ⟨_, rfl, mutex_excl (fun _ => 0) (fun _ => 10) handOver _ rfl (by decide), by decide⟩

/-- A signal ends the wait of the thread 1, the mutex is released, and between the test of
`mutex->value` and `mutex->value --` of the second try the thread 2 takes the mutex: both have it.
-/
theorem mutex_retry_races : ¬ ∀ (flag priority : Nat → Nat) (acts : List MutexAct) (s : MutexSys),
    exec mutexStep (mutexInit flag priority) acts = some s → Excl s := by
  intro h
  have hone := (h (fun _ => 0) (fun _ => 10)
    [.take 0 (-1), .ret, .preempt 1, .take 0 (-1), .schedule (some 0), .sigResume 1, .release 0,
      .preempt 1, .stmt, .stmt, .stmt, .stmt, .preempt 2, .take 0 (-1), .ret, .preempt 1,
      .stmt, .stmt, .stmt, .stmt] _ rfl).one 0 1 2 (by decide) (by decide)
  cases hone

end Tudu.Mutex
