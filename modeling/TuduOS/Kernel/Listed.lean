import TuduOS.Kernel.Wait

/-!
# Threads that wait on lists

For objects whose functions wait at some places of the code only: `on t` is the list that the thread
`t` waits on where it is, if any.

* `Listed`: who is suspended is on the list of its place, without an error so far, and who is on a
  list is suspended.
* What the operations of `Kernel/Wait.lean` leave of it, and who is resumed by them.
-/

namespace Tudu

namespace Kern

/-- The suspended threads are those on the lists, each at a place where it waits on its list. -/
structure Listed (k : Kern) (on : Nat → Option Nat) : Prop where
  listed : ∀ q u, u ∈ k.suspendThread q → (k.thread u).stat = .suspend ∧ on u = some q
  susp : ∀ u, (k.thread u).stat = .suspend → ∃ q, u ∈ k.suspendThread q
  error : ∀ u, (k.thread u).stat = .suspend → (k.thread u).error = rtEok

variable {k k' : Kern} {on on' : Nat → Option Nat} {q p t u flag : Nat} {ticks : Int}

namespace Listed

theorem ready_of_on (h : Listed k on) (ht : on t = none) : (k.thread t).stat = .ready := by
  cases hs : (k.thread t).stat with
  | ready => rfl
  | suspend =>
    obtain ⟨q, hq⟩ := h.susp t hs
    rw [(h.listed q t hq).2] at ht
    cases ht

/-- A suspended thread is on the list of its place. -/
theorem mem (h : Listed k on) (hs : (k.thread u).stat = .suspend) (hq : on u = some q) :
    u ∈ k.suspendThread q := by
  obtain ⟨p, hp⟩ := h.susp u hs
  rw [(h.listed p u hp).2] at hq
  rw [← Option.some.inj hq]
  exact hp

theorem congr_on (h : Listed k on)
    (ho : ∀ u, (k.thread u).stat = .suspend → on' u = on u) : Listed k on' :=
  ⟨fun q u hu => ⟨(h.listed q u hu).1, (ho u (h.listed q u hu).1).trans (h.listed q u hu).2⟩,
    h.susp, h.error⟩

/-- A ready thread goes elsewhere. -/
theorem goto (h : Listed k on) (ht : (k.thread t).stat = .ready) (ho : ∀ u, u ≠ t → on' u = on u) :
    Listed k on' := by
  refine h.congr_on fun u hu => ho u ?_
  rintro rfl
  rw [ht] at hu
  cases hu

theorem preempt (h : Listed k on) : Listed { k with current := u } on :=
  ⟨h.listed, h.susp, h.error⟩

/-- The current thread waits at the end of the list `q`. -/
theorem waitOn (h : Listed k on) (hw : k.waitOn q 0 ticks = some k')
    (ho : ∀ u, u ≠ k.current → on' u = on u) (hc : on' k.current = some q)
    (ht : (k.thread k.current).stat = .ready) : Listed k' on' := by
  have hnot : ∀ q, k.current ∉ k.suspendThread q := fun q hm => by
    rw [(h.listed q _ hm).1] at ht
    cases ht
  obtain ⟨k1, hk, hlist, -⟩ := waitOn_some hw
  refine ⟨fun p u hu => ?_, fun u hu => ?_, fun u hu => ?_⟩
  · rcases mem_waitOn hw hu with hm | ⟨rfl, rfl⟩
    · have hne : u ≠ k.current := fun he => hnot p (he ▸ hm)
      rw [waitOn_thread hw hne, ho u hne]
      exact h.listed p u hm
    · exact ⟨(waitOn_self hw).1, hc⟩
  · rw [hlist]
    by_cases hne : u = k.current
    · subst hne
      obtain ⟨-, -, hsus, -⟩ := rtIpcListSuspend_some hk
      refine ⟨q, ?_⟩
      rw [hsus, Function.update_self, insertFlag, if_pos rfl]
      exact List.mem_append_right _ (List.mem_singleton_self _)
    · rw [waitOn_thread hw hne] at hu
      obtain ⟨p, hp⟩ := h.susp u hu
      exact ⟨p, mem_rtIpcListSuspend_of_mem hk hp⟩
  · by_cases hne : u = k.current
    · rw [hne]
      exact (waitOn_self hw).2
    · rw [waitOn_thread hw hne] at hu ⊢
      exact h.error u hu

/-- A resumed thread is ready, and on no list. -/
theorem rtThreadResume (h : Listed k on) : Listed (k.rtThreadResume t) on := by
  refine ⟨fun q u hu => ?_, fun u hu => ?_, fun u hu => ?_⟩
  · obtain ⟨hm, hne⟩ := mem_rtThreadResume.mp hu
    rw [rtThreadResume_thread, if_neg fun he => hne he.1 he.2]
    exact h.listed q u hm
  · rw [rtThreadResume_thread] at hu
    split at hu
    · cases hu
    · next hno =>
      obtain ⟨q, hq⟩ := h.susp u hu
      exact ⟨q, mem_rtThreadResume.mpr ⟨hq, fun he hs => hno ⟨he, hs⟩⟩⟩
  · rw [rtThreadResume_thread] at hu ⊢
    split at hu
    · cases hu
    · next hno =>
      rw [if_neg hno]
      exact h.error u hu

theorem resumeFirst (h : Listed k on) : Listed (k.resumeFirst q) on := by
  unfold Kern.resumeFirst
  split
  · exact h.rtThreadResume
  · exact h

theorem timeout (h : Listed k on) (ht : k.rtThreadTimeout t = some k') : Listed k' on := by
  obtain ⟨-, -, -, hthr, hlist⟩ := rtThreadTimeout_some ht
  refine ⟨fun q u hu => ?_, fun u hu => ?_, fun u hu => ?_⟩
  · rw [hlist] at hu
    obtain ⟨hm, hne⟩ := List.mem_filter.mp hu
    rw [hthr, if_neg (of_decide_eq_true hne)]
    exact h.listed q u hm
  · rw [hthr] at hu
    split at hu
    · cases hu
    · next hne =>
      obtain ⟨q, hq⟩ := h.susp u hu
      refine ⟨q, ?_⟩
      rw [hlist]
      exact List.mem_filter.mpr ⟨hq, decide_eq_true hne⟩
  · rw [hthr] at hu ⊢
    split at hu
    · cases hu
    · next hne =>
      rw [if_neg hne]
      exact h.error u hu

end Listed

/-- `resumeFirst` finds nobody, or makes the first thread of the list ready. -/
theorem resumeFirst_cases (h : Listed k on) :
    k.suspendThread q = [] ∧ k.resumeFirst q = k ∨
    ∃ u, u ∈ k.suspendThread q ∧ (k.thread u).stat = .suspend ∧ (k.thread u).error = rtEok ∧
      on u = some q ∧
      (∀ w, (k.resumeFirst q).thread w = if w = u then
        { k.thread u with stat := .ready, timer := false, linked := false } else k.thread w) ∧
      ∀ p w, w ∈ (k.resumeFirst q).suspendThread p ↔ w ∈ k.suspendThread p ∧ w ≠ u := by
  cases hq : k.suspendThread q with
  | nil => exact .inl ⟨rfl, by rw [resumeFirst, hq]⟩
  | cons u l =>
    have hm : u ∈ k.suspendThread q := by
      rw [hq]
      exact List.mem_cons_self
    obtain ⟨hs, hon⟩ := h.listed q u hm
    have hr : k.resumeFirst q = k.rtThreadResume u := by rw [resumeFirst, hq]
    refine .inr ⟨u, hq ▸ hm, hs, h.error u hs, hon, fun w => ?_, fun p w => ?_⟩
    · rw [hr, rtThreadResume_thread]
      simp only [hs, and_true]
    · rw [hr, mem_rtThreadResume]
      simp only [hs, ne_eq, not_true_eq_false, imp_false]

end Kern

end Tudu
