import TuduOS.Ipc.MutexWait

/-!
# The owner of a mutex does not wait for it

No thread is on the suspend list of a mutex that it owns, and `rt_mutex_take` returns `RT_EOK` if
and only if the caller is then the owner (`OwnerOk`). The code breaks this where a thread that was
handed the mutex has `-RT_EINTR` in `error`, from this wait or from an earlier round of it: it goes
back to `__again`, and suspends itself on the list of its own mutex.

* **The condition** (`OwnerKeeps`). `rt_mutex_release` hands the mutex only to a thread without an
  error (`HandsOver`), and such a thread handles no signal before it has tested `error`
  (`OwnerQuiet`). With it, what `WaitKeeps` and `TestHandled` say.
* **The invariant** (`OwnInv`, with `WaitInv`). A waiting thread that owns the mutex was handed it,
  and is ready and without an error until the test; or it is in the second half of a second try.
-/

namespace Tudu.Mutex

open Kern MutexSys Lts

/-- The property: no owner on the list of its mutex, and `RT_EOK` means ownership. -/
structure OwnerOk (s : MutexSys) : Prop where
  off : ∀ t m, s.Owns t m → ¬ s.On t m
  ret : ∀ t m r, s.pc t = .done m r → (r = rtEok ↔ s.Owns t m)

/-! ## The condition -/

/-- The phases from the hand-over to the test of `error`. -/
def Ph.handed : Ph → Bool
  | .sched | .switched | .test => true
  | _ => false

/-- The last release hands the mutex to a thread without an error. -/
def HandsOver (s : MutexSys) : MutexAct → Prop
  | .release m => (s.mutex m).owner = some s.kern.current → (s.mutex m).hold % 2 ^ 8 = 1 →
      ∀ u ∈ (s.kern.suspendThread m).head?, (s.kern.thread u).error = rtEok
  | _ => True

/-- A thread that was handed the mutex handles no signal before it tests `error`. -/
def OwnerQuiet (s : MutexSys) : MutexAct → Prop
  | .sigHandle u => ∀ p ∈ (s.pc u).phase, p.2.handed = true → (s.mutex p.1).owner ≠ some u
  | .stmt => ∀ p ∈ (s.pc s.kern.current).phase, p.2 = .switched →
      (s.kern.thread s.kern.current).sigPending = true →
        (s.mutex p.1).owner ≠ some s.kern.current
  | _ => True

structure OwnerKeeps (s : MutexSys) (act : MutexAct) : Prop extends WaitKeeps s act where
  test : TestHandled s act
  hand : HandsOver s act
  quiet : OwnerQuiet s act

instance (s : MutexSys) : ∀ act, Decidable (HandsOver s act)
  | .release m => inferInstanceAs (Decidable ((s.mutex m).owner = some s.kern.current →
      (s.mutex m).hold % 2 ^ 8 = 1 →
        ∀ u ∈ (s.kern.suspendThread m).head?, (s.kern.thread u).error = rtEok))
  | .preempt _ | .take .. | .stmt | .schedule _ | .ret | .timeout _ | .sigResume _
  | .sigHandle _ => inferInstanceAs (Decidable True)

instance (s : MutexSys) : ∀ act, Decidable (OwnerQuiet s act)
  | .sigHandle u => inferInstanceAs (Decidable (∀ p ∈ (s.pc u).phase, p.2.handed = true →
      (s.mutex p.1).owner ≠ some u))
  | .stmt => inferInstanceAs (Decidable (∀ p ∈ (s.pc s.kern.current).phase, p.2 = .switched →
      (s.kern.thread s.kern.current).sigPending = true →
        (s.mutex p.1).owner ≠ some s.kern.current))
  | .preempt _ | .take .. | .schedule _ | .ret | .release _ | .timeout _ | .sigResume _ =>
    inferInstanceAs (Decidable True)

instance (s : MutexSys) (act : MutexAct) : Decidable (OwnerKeeps s act) :=
  decidable_of_iff (DecFree s act ∧ LinkWhole s act ∧ TestHandled s act ∧ HandsOver s act ∧
    OwnerQuiet s act)
    ⟨fun h => ⟨⟨h.1, h.2.1⟩, h.2.2.1, h.2.2.2.1, h.2.2.2.2⟩,
      fun h => ⟨h.dec, h.link, h.test, h.hand, h.quiet⟩⟩

/-! ## The invariant -/

/-- What is true of a thread in a take of a mutex that it owns. -/
def GotOk (x : Thread) : Ph → Prop
  | .sched | .switched | .test => x.error = rtEok ∧ x.stat = .ready
  | .prio | .hold => True
  | _ => False

/-- What is true of a thread; `own m`: it owns `m`. -/
def OwnOk (x : Thread) (own : Nat → Prop) : Pc → Prop
  | .user => True
  | .take m _ ph => own m → GotOk x ph
  | .done m r => r = rtEok ↔ own m

def OwnInv (s : MutexSys) : Prop := ∀ t, OwnOk (s.kern.thread t) (s.Owns t) (s.pc t)

variable {s s' : MutexSys} {k : Kern} {t u m : Nat}

theorem OwnOk.mono {x y : Thread} {own own' : Nat → Prop} {p : Pc} (h : OwnOk x own p)
    (hs : p ≠ .user → Same x y) (ho : p ≠ .user → ∀ m, own m ↔ own' m) : OwnOk y own' p := by
  cases p with
  | user => trivial
  | done m r => exact h.trans (ho (by simp) m)
  | take m time ph =>
    intro hown
    have hg := h ((ho (by simp) m).mpr hown)
    have hxy := hs (by simp)
    cases ph with
    | sched | switched | test => exact ⟨hxy.error.trans hg.1, hxy.stat.trans hg.2⟩
    | _ => exact hg

/-- A step that changes one thread and one mutex, and the owner of the mutex for no other thread
that is in a take. -/
theorem OwnInv.update (h : OwnInv s) (t m : Nat) (hpc : ∀ u, u ≠ t → s'.pc u = s.pc u)
    (hsame : ∀ u, u ≠ t → s.pc u ≠ .user → Same (s.kern.thread u) (s'.kern.thread u))
    (hmx : ∀ q, q ≠ m → s'.mutex q = s.mutex q)
    (hown : ∀ u, u ≠ t → s.pc u ≠ .user → (s.Owns u m ↔ s'.Owns u m))
    (ht : OwnOk (s'.kern.thread t) (s'.Owns t) (s'.pc t)) : OwnInv s' := by
  intro u
  by_cases hu : u = t
  · subst hu; exact ht
  · rw [hpc u hu]
    refine (h u).mono (hsame u hu) fun hp q => ?_
    by_cases hq : q = m
    · subst hq; exact hown u hu hp
    · unfold Owns
      rw [hmx q hq]

/-- A step of one thread that changes no mutex. -/
theorem OwnInv.gotoKern (h : OwnInv s) (t : Nat) (p : Pc)
    (hsame : ∀ u, u ≠ t → Same (s.kern.thread u) (k.thread u))
    (ht : OwnOk (k.thread t) (s.Owns t) p) : OwnInv ((s.setKern k).goto t p) := by
  refine h.update t 0 (fun u hu => ?_) (fun u hu _ => hsame u hu) (fun _ _ => rfl)
    (fun _ _ _ => Iff.rfl) ?_
  · rw [goto_pc, if_neg hu, setKern_pc]
  · rw [goto_pc, if_pos rfl]
    exact ht

theorem OwnInv.goto (h : OwnInv s) (t : Nat) (p : Pc)
    (ht : OwnOk (s.kern.thread t) (s.Owns t) p) : OwnInv (s.goto t p) :=
  h.gotoKern (k := s.kern) t p (fun _ _ => .refl _) ht

/-- Changes of other things than threads, owners and places. -/
theorem OwnInv.congr (h : OwnInv s) (hpc : s'.pc = s.pc)
    (hsame : ∀ u, Same (s.kern.thread u) (s'.kern.thread u))
    (ho : ∀ q, (s'.mutex q).owner = (s.mutex q).owner) : OwnInv s' := by
  intro u
  rw [hpc]
  refine (h u).mono (fun _ => hsame u) fun _ q => ?_
  unfold Owns
  rw [ho q]

/-- The result of a take. -/
theorem OwnInv.finish (h : OwnInv s) (t m : Nat) (r : Int) (hr : r = rtEok ↔ s.Owns t m) :
    OwnInv (s.finish t m r) :=
  OwnInv.congr (h.goto t (.done m r) hr) rfl (fun _ => .refl _) fun _ => rfl

/-- A waiting thread that owns the mutex is not suspended. -/
theorem OwnInv.ready (h : OwnInv s) (hw : WaitInv s) {time : Int} {ph : Ph}
    (hp : s.pc t = .take m time ph) (ho : s.Owns t m) : (s.kern.thread t).stat = .ready := by
  have hg := h t
  have hok := hw.thread t
  rw [hp] at hg hok
  have hg := hg ho
  cases ph with
  | sched | switched | test => exact hg.2
  | prio | hold => exact hok.1.1
  | _ => exact absurd hg id

theorem OwnInv.ownerOk (h : OwnInv s) (hw : WaitInv s) : OwnerOk s := by
  constructor
  · intro t m ho hon
    have hok := hw.thread t
    cases hp : s.pc t with
    | user | done =>
      rw [hp] at hok
      exact hok.2 m hon
    | take q time ph =>
      rw [hp] at hok
      obtain ⟨rfl, -, hsus⟩ := hok.2 m hon
      rw [h.ready hw hp ho] at hsus
      cases hsus
  · intro t m r hp
    have hg := h t
    rw [hp] at hg
    exact hg

/-! ## A take -/

theorem setError_same {e : Int} (hu : u ≠ t) : Same (k.thread u) ((k.setError t e).thread u) := by
  rw [setError, setThread_thread, if_neg hu]
  exact .refl _

theorem rtThreadSuspend_same (hu : u ≠ t) : Same (k.thread u) ((k.rtThreadSuspend t).thread u) := by
  unfold rtThreadSuspend
  split
  · rw [setThread_thread, if_neg hu]
    exact .refl _
  · exact .refl _

theorem rtIpcListInsert_same {flag : Nat} {k' : Kern} (hk : k.rtIpcListInsert m t flag = some k')
    (hu : u ≠ t) : Same (k.thread u) (k'.thread u) := by
  obtain ⟨-, hthr, -⟩ := rtIpcListInsert_some hk
  rw [hthr, if_neg hu]
  exact .refl _

theorem startTimer_same {c : Prop} [Decidable c] (hu : u ≠ t) :
    Same (k.thread u) ((if c then k.startTimer t else k).thread u) := by
  rw [startTimer_thread, if_neg hu]
  exact .refl _

/-- A thread that gets a free mutex. -/
theorem OwnInv.get (h : OwnInv s) (ho : (s.mutex m).owner = none) {x : RtMutex} {p : Pc}
    (hx : x.owner = some t) (hsame : ∀ u, u ≠ t → Same (s.kern.thread u) (k.thread u))
    (hp : OwnOk (k.thread t) (fun q => q = m ∨ s.Owns t q) p) :
    OwnInv (((s.setKern k).setMutex m x).goto t p) := by
  have hself : ∀ q, (((s.setKern k).setMutex m x).goto t p).Owns t q ↔ q = m ∨ s.Owns t q := by
    intro q
    unfold Owns
    by_cases hq : q = m
    · subst hq; simp [hx]
    · simp [hq]
  refine h.update t m (fun u hu => ?_) (fun u hu _ => hsame u hu) (fun q hq => ?_) ?_ ?_
  · rw [goto_pc, if_neg hu, setMutex_pc, setKern_pc]
  · rw [goto_mutex, setMutex_mutex, if_neg hq, setKern_mutex]
  · intro u hu _
    unfold Owns
    simp [ho, hx, hu.symm]
  · rw [goto_pc, if_pos rfl]
    exact hp.mono (fun _ => .refl _) fun _ q => (hself q).symm

/-- The first try of `rt_mutex_take`. -/
theorem OwnInv.take (h : OwnInv s) (hw : WaitInv s) {time : Int}
    (hs : rtMutexTake s m time = some s') : OwnInv s' := by
  unfold rtMutexTake at hs
  simp only at hs
  split at hs
  · next ho =>
    cases hs
    refine OwnInv.congr ((h.gotoKern _ (.done m rtEok) (fun u hu => setError_same hu)
      (iff_of_true rfl ho))) rfl (fun _ => .refl _) fun q => ?_
    simp only [MutexSys.finish, setHeld_mutex, goto_mutex, setMutex_mutex, setKern_mutex]
    split
    · next hq => rw [hq]
    · rfl
  split at hs
  · next hv =>
    cases hs
    have hfree : (s.mutex m).owner = none := by
      rcases hw.mutex m with hm | hm | hm
      · exact hm.2.1
      · omega
      · omega
    refine OwnInv.congr (h.get hfree rfl (fun u hu => setError_same hu)
      (p := .done m rtEok) (iff_of_true rfl (.inl rfl))) rfl (fun _ => .refl _) fun _ => rfl
  next hne _ =>
  split at hs
  · cases hs
    refine OwnInv.congr (h.gotoKern _ (.done m (-rtEtimeout)) (fun u hu => ?_)
      (iff_of_false (by decide) hne)) rfl (fun _ => .refl _) fun _ => rfl
    exact (setError_same hu).trans (setError_same hu)
  split at hs
  · cases hs
  · next o _ =>
    obtain ⟨k, hk, rfl⟩ := Option.map_eq_some_iff.mp hs
    refine h.gotoKern _ _ (fun u hu => ?_) fun ho => absurd ho hne
    refine Same.trans ?_ (startTimer_same hu)
    refine Same.trans ?_ (rtIpcListInsert_same hk hu)
    refine Same.trans ?_ (rtThreadSuspend_same hu)
    split
    · exact (setError_same hu).trans (changePriority_same ..)
    · exact setError_same hu

/-- A statement after which the thread waits on, without the mutex. -/
theorem OwnInv.unowned (h : OwnInv s) {time : Int} {ph : Ph} (hno : ¬ s.Owns t m)
    (hsame : ∀ u, u ≠ t → Same (s.kern.thread u) (k.thread u)) :
    OwnInv ((s.setKern k).goto t (.take m time ph)) :=
  h.gotoKern t _ hsame fun ho => absurd ho hno

/-- A statement of the rest of `rt_mutex_take`. -/
theorem OwnInv.stmt (h : OwnInv s) (hw : WaitInv s) {time : Int} {ph : Ph}
    (hp : s.pc s.kern.current = .take m time ph)
    (htest : ph = .test → (s.kern.thread s.kern.current).sigPending = true → (s.kern.thread s.kern.current).error = rtEok → s.Owns s.kern.current m)
    (hquiet : ph = .switched → (s.kern.thread s.kern.current).sigPending = true → ¬ s.Owns s.kern.current m)
    (hs : takeStmt s m time ph = some s') : OwnInv s' := by
  have hg := h s.kern.current
  have hok := hw.thread s.kern.current
  rw [hp] at hg hok
  cases ph with
  | sched => cases hs
  | switched =>
    simp only [takeStmt] at hs
    split at hs
    · next hr =>
      cases hs
      split
      · next hsig =>
        refine h.unowned (hquiet rfl hsig) fun u hu => ?_
        rw [setThread_thread, if_neg hu]
        exact .refl _
      · exact h.goto _ _ fun ho => ⟨(hg ho).1, hr⟩
    · cases hs
  | test =>
    simp only [takeStmt] at hs
    split at hs <;> cases hs
    · next he => exact h.goto _ _ fun ho => absurd (hg ho).1 he
    · next he =>
      have he := not_not.mp he
      refine h.finish _ m _ (iff_of_true rfl ?_)
      exact (hok.1.2 he).elim id fun hsig => htest rfl hsig he
  | testIntr | again =>
    simp only [takeStmt] at hs
    split at hs <;> cases hs
    · exact h.goto _ _ fun ho => absurd (hg ho) id
    · exact h.goto _ _ fun ho => absurd (hg ho) id
  | fail =>
    cases hs
    exact h.finish _ m _ (iff_of_false hok.1.2 fun ho => hg ho)
  | dec =>
    cases hs
    refine OwnInv.congr (h.goto s.kern.current (.take m time .own) fun ho => absurd (hg ho) id)
      rfl (fun _ => .refl _) fun q => ?_
    simp only [goto_mutex, setMutex_mutex]
    split
    · next hq => rw [hq]
    · rfl
  | own =>
    cases hs
    have hat : AtOwn m (s.pc s.kern.current) := by
      rw [hp]
      rfl
    have hfree : (s.mutex m).owner = none := by
      rcases hw.mutex m with hm | hm | hm
      · exact absurd hat (hm.2.2 _)
      · exact hm.2.1
      · exact absurd hat (hm.2.2 _)
    exact h.get (k := s.kern) hfree rfl (fun _ _ => .refl _) fun _ => trivial
  | prio =>
    cases hs
    refine OwnInv.congr (h.goto s.kern.current (.take m time .hold) fun _ => trivial)
      rfl (fun _ => .refl _) fun q => ?_
    simp only [goto_mutex, setMutex_mutex]
    split
    · next hq => rw [hq]
    · rfl
  | hold =>
    cases hs
    refine OwnInv.congr (h.finish s.kern.current m rtEok (iff_of_true rfl hok.1.2.2))
      rfl (fun _ => .refl _) fun q => ?_
    simp only [MutexSys.finish, setHeld_mutex, goto_mutex, setMutex_mutex]
    split
    · next hq => rw [hq]
    · rfl
  | poll =>
    simp only [takeStmt] at hs
    split at hs <;> cases hs
    · refine OwnInv.congr (h.gotoKern _ (.done m (-rtEtimeout)) (fun u hu => setError_same hu)
        (iff_of_false (by decide) fun ho => hg ho)) rfl (fun _ => .refl _) fun _ => rfl
    · exact h.goto _ _ fun ho => absurd (hg ho) id
  | inherit =>
    simp only [takeStmt] at hs
    split at hs
    · cases hs
    · split at hs <;> cases hs
      · exact h.goto _ _ fun ho => absurd (hg ho) id
      · exact h.goto _ _ fun ho => absurd (hg ho) id
  | raise =>
    simp only [takeStmt] at hs
    split at hs <;> cases hs
    exact h.unowned (fun ho => hg ho) fun u _ => changePriority_same ..
  | susp =>
    cases hs
    exact h.unowned (fun ho => hg ho) fun u hu => rtThreadSuspend_same hu
  | link =>
    obtain ⟨k, hk, rfl⟩ := Option.map_eq_some_iff.mp hs
    exact h.unowned (fun ho => hg ho) fun u hu => rtIpcListInsert_same hk hu
  | timer =>
    cases hs
    exact h.unowned (fun ho => hg ho) fun u hu => startTimer_same hu

/-! ## The other steps -/

/-- The mutex goes to the first waiting thread, which has no error. -/
theorem OwnInv.release (h : OwnInv s) (hw : WaitInv s) (hp : s.pc s.kern.current = .user)
    (hh : HandsOver s (.release m)) : OwnInv (rtMutexRelease s m) := by
  rcases rtMutexRelease_cases s m with ⟨-, he⟩ | ⟨n, k, ho, hn, hsame, hsus, -, hx⟩
  · rw [he]
    refine h.update s.kern.current m (fun _ _ => rfl) (fun u hu _ => setError_same hu)
      (fun _ _ => rfl) (fun _ _ _ => Iff.rfl) ?_
    rw [setKern_pc, hp]
    trivial
  -- no waiting thread loses the mutex
  have hlose : ∀ u, s.pc u ≠ .user → ¬ s.Owns u m := by
    intro u hpu hown
    have : s.kern.current = u := Option.some.inj (ho.symm.trans hown)
    exact hpu (this ▸ hp)
  rcases hx with ⟨-, he⟩ | ⟨h0, u, us, p, hl, he⟩ | ⟨-, -, he⟩
  · rw [he]
    refine OwnInv.congr h rfl (fun _ => .refl _) fun q => ?_
    simp only [setMutex_mutex, setHeld_mutex]
    split
    · next hq => rw [hq]
    · rfl
  · rw [he]
    have hu : u ∈ s.kern.suspendThread m := by
      rw [← hsus, hl]
      exact List.mem_cons_self
    have herr : (s.kern.thread u).error = rtEok := by
      refine hh ho (by omega) u ?_
      rw [← hsus, hl]
      rfl
    have hok := hw.thread u
    have hother : ∀ v, v ≠ u → Same (k.thread v) ((k.rtThreadResume u).thread v) := by
      intro v hv
      unfold rtThreadResume
      split
      · rw [unlinkReady_thread, if_neg hv]
        exact .refl _
      · exact .refl _
    refine h.update u m (fun _ _ => rfl) (fun v hv _ => (hsame v).trans (hother v hv))
      (fun q hq => ?_) (fun v hv hpv => ?_) ?_
    · simp only [setKern_mutex, setMutex_mutex, if_neg hq, setHeld_mutex]
    · refine iff_of_false (hlose v hpv) ?_
      unfold Owns
      simpa using hv.symm
    · cases hpu : s.pc u with
      | user | done =>
        rw [hpu] at hok
        exact absurd hu (hok.2 m)
      | take q time ph =>
        rw [hpu] at hok
        obtain ⟨rfl, hlk, hst⟩ := hok.2 m hu
        have hres : k.rtThreadResume u = k.unlinkReady u := if_pos ((hsame u).stat.trans hst)
        have hgot : ((k.unlinkReady u).thread u).error = rtEok ∧
            ((k.unlinkReady u).thread u).stat = .ready := by
          rw [unlinkReady_thread, if_pos rfl]
          exact ⟨(hsame u).error.trans herr, rfl⟩
        rw [hres]
        simp only [setKern_pc, setMutex_pc, setHeld_pc, hpu]
        intro _
        cases ph with
        | sched | switched => exact hgot
        | timer => exact absurd herr hok.1
        | _ => cases hlk
  · rw [he]
    refine h.update s.kern.current m (fun _ _ => rfl) (fun v _ _ => hsame v) (fun q hq => ?_)
      (fun v _ hpv => ?_) ?_
    · simp only [setKern_mutex, setMutex_mutex, if_neg hq, setHeld_mutex]
    · refine iff_of_false (hlose v hpv) ?_
      unfold Owns
      simp
    · simp only [setKern_pc, setMutex_pc, setHeld_pc, hp]
      trivial

/-- A change of a thread that is not in a take of a mutex that it owns, or not on its way to the
test. -/
theorem OwnInv.one (h : OwnInv s) (u : Nat)
    (hsame : ∀ v, v ≠ u → Same (s.kern.thread v) (k.thread v))
    (hu : ∀ m time ph, s.pc u = .take m time ph → s.Owns u m → ph.handed = false) :
    OwnInv (s.setKern k) := by
  refine h.update u 0 (fun _ _ => rfl) (fun v hv _ => hsame v hv) (fun _ _ => rfl)
    (fun _ _ _ => Iff.rfl) ?_
  have hg := h u
  rw [setKern_pc]
  cases hp : s.pc u with
  | user => trivial
  | done m r =>
    rw [hp] at hg
    exact hg
  | take m time ph =>
    rw [hp] at hg
    intro ho
    have hh := hu m time ph hp ho
    have hg := hg ho
    cases ph with
    | sched | switched | test => cases hh
    | _ => exact hg

/-- A thread that is suspended does not own the mutex that it waits for. -/
theorem OwnInv.wake (h : OwnInv s) (hw : WaitInv s) (hu : (s.kern.thread u).stat = .suspend)
    (hsame : ∀ v, v ≠ u → Same (s.kern.thread v) (k.thread v)) : OwnInv (s.setKern k) := by
  refine h.one u hsame fun m time ph hp ho => ?_
  rw [h.ready hw hp ho] at hu
  cases hu

theorem OwnInv.step (h : OwnInv s) (hw : WaitInv s) {act : MutexAct} (hc : OwnerKeeps s act)
    (hs : mutexStep s act = some s') : OwnInv s' := by
  cases act with
  | preempt u =>
    simp only [mutexStep] at hs
    split at hs <;> cases hs
    exact h
  | take m time =>
    simp only [mutexStep] at hs
    split at hs
    · exact h.take hw hs
    · cases hs
  | stmt =>
    have htest := hc.test
    have hquiet := hc.quiet
    simp only [mutexStep] at hs
    split at hs
    · next m time ph hp =>
      exact h.stmt hw hp (htest _ (stmtOf_stmt hp)) (hquiet _ (stmtOf_stmt hp)) hs
    · cases hs
  | schedule next =>
    simp only [mutexStep] at hs
    split at hs
    · next m time hp =>
      have hg := h s.kern.current
      rw [hp] at hg
      repeat' split at hs
      all_goals cases hs
      · exact OwnInv.congr (h.goto s.kern.current (.take m time .switched) fun ho => hg ho) rfl
          (fun _ => .refl _) fun _ => rfl
      · exact h.goto _ _ fun ho => hg ho
    · cases hs
  | ret =>
    simp only [mutexStep] at hs
    split at hs <;> cases hs
    exact h.goto _ _ trivial
  | release m =>
    simp only [mutexStep] at hs
    split at hs <;> cases hs
    exact h.release hw ‹_› hc.hand
  | timeout u =>
    obtain ⟨k, hk, rfl⟩ := Option.map_eq_some_iff.mp hs
    unfold rtThreadTimeout at hk
    split at hk <;> cases hk
    next hu =>
    refine h.wake hw hu.1 fun v hv => ?_
    rw [unlinkReady_thread, if_neg hv]
    exact setError_same hv
  | sigResume u =>
    obtain ⟨k, hk, rfl⟩ := Option.map_eq_some_iff.mp hs
    unfold Kern.sigResume at hk
    split at hk <;> cases hk
    refine h.wake hw ‹_› fun v hv => ?_
    rw [setThread_thread, if_neg hv, unlinkReady_thread, if_neg hv]
    exact .refl _
  | sigHandle u =>
    have hquiet := hc.quiet
    obtain ⟨k, hk, rfl⟩ := Option.map_eq_some_iff.mp hs
    unfold Kern.sigHandle at hk
    split at hk <;> cases hk
    refine h.one u (fun v hv => ?_) fun m time ph hp ho => ?_
    · rw [setThread_thread, if_neg hv]
      exact .refl _
    · by_contra hne
      exact hquiet (m, ph) (by rw [hp]; rfl) (by simpa using hne) ho

theorem OwnInv.init (flag priority : Nat → Nat) : OwnInv (mutexInit flag priority) :=
  fun _ => trivial

/-- **The owner does not wait for its mutex.** In every run that meets the condition, no owner of a
mutex is on its suspend list, and `rt_mutex_take` returns `RT_EOK` if and only if the caller is then
the owner. -/
theorem mutex_owner_ok (flag priority : Nat → Nat) (acts : List MutexAct) (s : MutexSys)
    (hx : exec mutexStep (mutexInit flag priority) acts = some s)
    (hc : Along mutexStep OwnerKeeps (mutexInit flag priority) acts) : OwnerOk s := by
  have hinv : WaitInv s ∧ OwnInv s := by
    refine hc.inv (I := fun s => WaitInv s ∧ OwnInv s) (fun s act s' h hk hs => ?_) hx
      ⟨.init flag priority, .init flag priority⟩
    exact ⟨h.1.step hk.toWaitKeeps hs, h.2.step h.1 hk hs⟩
  exact hinv.2.ownerOk hinv.1

theorem mutex_owner_ok_handover : ∃ s, exec mutexStep (mutexInit (fun _ => 0) fun _ => 10)
    handOver = some s ∧ OwnerOk s ∧ s.Owns 1 0 :=
  ⟨_, rfl, mutex_owner_ok (fun _ => 0) (fun _ => 10) handOver _ rfl (by decide), rfl⟩

/-- A signal ends the first round of the wait of the thread 1, which waits on with `-RT_EINTR` in
`error`. Handed the mutex, it reads the old error and goes on the list of its own mutex. -/
theorem mutex_owner_waits : ¬ ∀ (flag priority : Nat → Nat) (acts : List MutexAct) (s : MutexSys),
    exec mutexStep (mutexInit flag priority) acts = some s → OwnerOk s := by
  intro h
  have hoff := (h (fun _ => 0) (fun _ => 10)
    [.take 0 (-1), .ret, .preempt 1, .take 0 (-1), .schedule (some 0), .sigResume 1, .preempt 1,
      .stmt, .stmt, .stmt, .stmt, .stmt, .stmt, .stmt, .stmt, .stmt, .schedule (some 0), .release 0,
      .preempt 1, .stmt, .stmt, .stmt, .stmt, .stmt, .stmt, .stmt, .stmt, .stmt] _ rfl).off 1 0
  exact hoff rfl (by decide)

end Tudu.Mutex
