import Mathlib.Data.List.Forall2
import Mathlib.Data.List.Nodup
import Mathlib.Data.List.Perm.Subperm
import Mathlib.Data.List.Range
import TuduOS.Ipc.MessageQueue
import TuduOS.Lib.Chain

/-!
# The buffers and the order of a message queue

* `Shape x F Q l`: the queue object alone. `F` are the buffers on the free list, `Q` those on the
  message list, and `Q` holds the messages `l` in order.
* `Conserved`: the lists, and the threads that have the other buffers in their hands.
* `PcOk`: what a thread relies on in the buffer in its hands: no other thread writes it, and no
  operation on the lists does.
* `MqInv.move`: one thread does an operation on one queue, and everything else stays.
-/

namespace Tudu.MessageQueue

open Kern Lts Chain

/-- The buffer of the queue `m` in the hands of a thread. -/
def Pc.block (m : Nat) : Pc → Option Nat
  | .sendTaken m' b _ => if m' = m then some b else none
  | .sendCopy m' b _ => if m' = m then some b else none
  | .sendLink m' b _ => if m' = m then some b else none
  | .urgentCopy m' b _ => if m' = m then some b else none
  | .urgentLink m' b _ => if m' = m then some b else none
  | .recvCopy m' b _ _ => if m' = m then some b else none
  | .recvFree m' b _ _ _ => if m' = m then some b else none
  | _ => none

/-- The buffer `b` holds the message `c`. -/
def Stored (x : RtMq) (b : Nat) (c : Msg) : Prop :=
  c.length ≤ x.msgSize ∧ (x.data b).take c.length = c

/-- The queue object, but for `entry`. -/
structure Shape (x : RtMq) (F Q : List Nat) (l : List Msg) : Prop where
  free : IsChain x.next x.free F
  msgs : IsChain x.next x.head Q
  tail : x.tail = Q.getLast?
  nodup : (F ++ Q).Nodup
  order : List.Forall₂ (Stored x) Q l

/-- The property of the queue `m`: its free list is `F` and its message list is `Q`. -/
structure Lists (s : MqSys) (m : Nat) (F Q : List Nat) : Prop where
  shape : Shape (s.mq m) F Q (s.queue m)
  entry : (s.mq m).entry = Q.length
  /-- A buffer in a thread's hands is on no list. -/
  apart : ∀ t b, (s.pc t).block m = some b → b ∉ F ++ Q
  /-- It is in the hands of that thread alone. -/
  one : ∀ t u b, (s.pc t).block m = some b → (s.pc u).block m = some b → t = u
  /-- There is no other buffer. -/
  cover : ∀ b, b < (s.mq m).maxMsgs ↔ b ∈ F ++ Q ∨ ∃ t, (s.pc t).block m = some b

/-- The property of the queue `m`. -/
def Conserved (s : MqSys) (m : Nat) : Prop := ∃ F Q, Lists s m F Q

variable {x x' : RtMq} {F Q L : List Nat} {l l' : List Msg} {b d m n t u : Nat} {c : Msg}
  {o : Option Nat}

/-! ## The queue object -/

theorem Stored.congr (h : Stored x b c) (hs : x'.msgSize = x.msgSize)
    (hd : x'.data b = x.data b) : Stored x' b c := by
  unfold Stored
  rw [hs, hd]
  exact h

theorem stored_congr (h : List.Forall₂ (Stored x) Q l) (hs : x'.msgSize = x.msgSize)
    (hd : ∀ b ∈ Q, x'.data b = x.data b) : List.Forall₂ (Stored x') Q l := by
  induction h with
  | nil => exact .nil
  | cons hb _ ih =>
    refine .cons (hb.congr hs (hd _ List.mem_cons_self)) (ih fun b hb => ?_)
    exact hd b (List.mem_cons_of_mem _ hb)

/-- The contents after a copy: the message, and what was behind it. -/
theorem stored_copyIn (hc : c.length ≤ x.msgSize) : Stored (x.copyIn b c) b c := by
  refine ⟨hc, ?_⟩
  simp [RtMq.copyIn]

theorem Shape.withEntry (h : Shape x F Q l) (e : Nat) : Shape { x with entry := e } F Q l :=
  ⟨h.free, h.msgs, h.tail, h.nodup, h.order⟩

theorem Shape.setNext (h : Shape x F Q l) (hb : b ∉ F ++ Q) (p : Option Nat) :
    Shape (x.setNext b p) F Q l := by
  rw [List.mem_append, not_or] at hb
  exact ⟨h.free.update hb.1 p, h.msgs.update hb.2 p, h.tail, h.nodup, h.order⟩

theorem Shape.copyIn (h : Shape x F Q l) (hb : b ∉ F ++ Q) (c : Msg) :
    Shape (x.copyIn b c) F Q l := by
  refine ⟨h.free, h.msgs, h.tail, h.nodup, stored_congr h.order rfl fun d hd => ?_⟩
  refine Function.update_of_ne ?_ ..
  rintro rfl
  exact hb (List.mem_append_right _ hd)

theorem Shape.takeFree (h : Shape x (b :: F) Q l) : Shape (x.takeFree b) F Q l :=
  ⟨h.free.tail, h.msgs, h.tail, (List.nodup_cons.mp h.nodup).2, h.order⟩

theorem Shape.putFree (h : Shape x F Q l) (hb : b ∉ F ++ Q) : Shape (x.putFree b) (b :: F) Q l := by
  have hn : ((b :: F) ++ Q).Nodup := List.nodup_cons.mpr ⟨hb, h.nodup⟩
  rw [List.mem_append, not_or] at hb
  exact ⟨h.free.cons hb.1, h.msgs.update hb.2 _, h.tail, hn, h.order⟩

theorem nodup_append_cons (h : (F ++ Q).Nodup) (hb : b ∉ F ++ Q) : (F ++ b :: Q).Nodup := by
  rw [List.nodup_middle]
  exact List.nodup_cons.mpr ⟨hb, h⟩

theorem Shape.linkHead (h : Shape x F Q l) (hb : b ∉ F ++ Q) (hc : Stored x b c) :
    Shape (x.linkHead b) F (b :: Q) (c :: l) := by
  have hn := nodup_append_cons h.nodup hb
  rw [List.mem_append, not_or] at hb
  refine ⟨h.free.update hb.1 _, h.msgs.cons hb.2, ?_, hn, .cons hc h.order⟩
  show (if x.tail = none then some b else x.tail) = _
  rw [h.tail]
  cases Q with
  | nil => rfl
  | cons d Q => rw [if_neg (by simp), List.getLast?_cons_cons]

theorem Shape.linkTail (h : Shape x F Q l) (hb : b ∉ F ++ Q) (hnext : x.next b = none)
    (hc : Stored x b c) : Shape (x.linkTail b) F (Q ++ [b]) (l ++ [c]) := by
  have hn : (F ++ (Q ++ [b])).Nodup := by
    rw [← List.append_assoc, ← List.concat_eq_append]
    exact h.nodup.concat hb
  have horder : List.Forall₂ (Stored x) (Q ++ [b]) (l ++ [c]) :=
    List.rel_append h.order (.cons hc .nil)
  rw [List.mem_append, not_or] at hb
  rcases List.eq_nil_or_concat' Q with rfl | ⟨Q, t, rfl⟩
  · have ht : x.tail = none := h.tail
    have hh : x.head = none := h.msgs
    simp only [RtMq.linkTail, ht, hh]
    exact ⟨h.free, ⟨rfl, hnext⟩, rfl, hn, horder⟩
  · have ht : x.tail = some t := h.tail.trans List.getLast?_concat
    have hh : x.head ≠ none := by
      intro e
      have hmsgs := h.msgs
      rw [e] at hmsgs
      exact absurd hmsgs.eq_nil (by simp)
    simp only [RtMq.linkTail, ht, if_neg hh]
    have hnd : (F ++ (Q ++ [t])).Nodup := h.nodup
    rw [List.nodup_append] at hnd
    obtain ⟨-, hQ, hdis⟩ := hnd
    have htF : t ∉ F := fun hm => hdis t hm t (by simp) rfl
    have htQ : t ∉ Q := by
      rw [List.nodup_append] at hQ
      exact fun hm => hQ.2.2 t hm t (by simp) rfl
    have hbQ : b ∉ Q ∧ b ≠ t := by simpa [not_or] using hb.2
    refine ⟨h.free.update htF _, h.msgs.concat htQ hbQ.1 hbQ.2 hnext, ?_, hn, horder⟩
    exact List.getLast?_concat.symm

theorem linkTail_fields : (x.linkTail b).entry = (x.entry + 1) % 2 ^ 16 ∧
    (x.linkTail b).msgSize = x.msgSize ∧ (x.linkTail b).maxMsgs = x.maxMsgs ∧
    (x.linkTail b).data = x.data := by
  unfold RtMq.linkTail
  cases x.tail <;> exact ⟨rfl, rfl, rfl, rfl⟩

/-- A link writes the last buffer. -/
theorem linkTail_next (hd : x.tail ≠ some d) : (x.linkTail b).next d = x.next d := by
  unfold RtMq.linkTail
  cases ht : x.tail with
  | none => rfl
  | some t =>
    rw [ht] at hd
    exact Function.update_of_ne (fun e => hd (by rw [e])) ..

theorem Shape.tail_mem (h : Shape x F Q l) (hd : x.tail = some d) : d ∈ Q := by
  rw [h.tail] at hd
  exact List.mem_of_getLast? hd

theorem Shape.unlinkHead (h : Shape x F (b :: Q) l) : Shape (x.unlinkHead b) F Q l.tail := by
  have hn : b ∉ F ++ Q ∧ (F ++ Q).Nodup := by
    have hnd := h.nodup
    rw [List.nodup_middle] at hnd
    exact List.nodup_cons.mp hnd
  refine ⟨h.free, h.msgs.tail, ?_, hn.2, ?_⟩
  · show (if x.tail = some b then none else x.tail) = _
    rw [h.tail]
    cases Q with
    | nil => exact if_pos rfl
    | cons d Q =>
      rw [List.getLast?_cons_cons, if_neg]
      intro e
      exact hn.1 (List.mem_append_right _ (List.mem_of_getLast? e))
  · cases h.order with
    | cons _ hord => exact hord

/-- The initial list: the buffers are put on the free list one after the other. -/
theorem Shape.foldl_putFree (h : Shape x F Q l) (hL : L.Nodup) (hd : ∀ b ∈ L, b ∉ F ++ Q) :
    Shape (L.foldl RtMq.putFree x) (L.reverse ++ F) Q l := by
  induction L generalizing x F with
  | nil => exact h
  | cons b L ih =>
    obtain ⟨hbL, hL⟩ := List.nodup_cons.mp hL
    rw [List.foldl_cons, List.reverse_cons, List.append_assoc]
    refine ih (h.putFree (hd b List.mem_cons_self)) hL fun d hdL => ?_
    show d ∉ b :: (F ++ Q)
    rw [List.mem_cons, not_or]
    refine ⟨?_, hd d (List.mem_cons_of_mem _ hdL)⟩
    rintro rfl
    exact hbL hdL

theorem foldl_putFree_fields : (L.foldl RtMq.putFree x).msgSize = x.msgSize ∧
    (L.foldl RtMq.putFree x).maxMsgs = x.maxMsgs ∧ (L.foldl RtMq.putFree x).entry = x.entry := by
  induction L generalizing x with
  | nil => exact ⟨rfl, rfl, rfl⟩
  | cons b L ih => exact ih

/-- The loop of a reset moves the buffers of the message list to the free list, and needs one round
for each. -/
theorem resetLoop_returns (h : Shape x F Q l) (hn : Q.length ≤ n) :
    ∃ x', x.resetLoop n = some x' ∧ Shape x' (Q.reverse ++ F) [] [] ∧ x'.msgSize = x.msgSize ∧
      x'.maxMsgs = x.maxMsgs ∧ x'.data = x.data ∧ ∀ b, b ∉ Q → x'.next b = x.next b := by
  induction Q generalizing n x F l with
  | nil =>
    have hh : x.head = none := h.msgs
    refine ⟨x, ?_, ?_, rfl, rfl, rfl, fun _ _ => rfl⟩
    · unfold RtMq.resetLoop
      rw [hh]
    · have ho := h.order
      cases ho
      exact h
  | cons b Q ih =>
    obtain ⟨n, rfl⟩ : ∃ k, n = k + 1 := ⟨n - 1, by simp only [List.length_cons] at hn; omega⟩
    have hb : b ∉ F ++ Q := by
      have hnd := h.nodup
      rw [List.perm_middle.nodup_iff] at hnd
      exact (List.nodup_cons.mp hnd).1
    obtain ⟨x', hx, hs, hsize, hmax, hdata, hnext⟩ :=
      ih (h.unlinkHead.putFree hb) (Nat.le_of_succ_le_succ hn)
    refine ⟨x', ?_, ?_, hsize, hmax, hdata, fun d hd => ?_⟩
    · have hh : x.head = some b := h.msgs.1
      unfold RtMq.resetLoop
      simp only [hh]
      exact hx
    · rw [List.reverse_cons, List.append_assoc]
      exact hs
    · rw [List.mem_cons, not_or] at hd
      exact (hnext d hd.2).trans (Function.update_of_ne hd.1 ..)

/-! ## A thread and its buffer -/

/-- What a thread relies on in the buffer in its hands, and `r` of a receive: the bytes of the
message `c`, as many as the caller has room for. -/
def PcOk (mq : Nat → RtMq) : Pc → Prop
  | .sendWait m c _ _ => c.length ≤ (mq m).msgSize
  | .sendAgain m c _ _ => c.length ≤ (mq m).msgSize
  | .sendTaken m _ c => c.length ≤ (mq m).msgSize
  | .sendCopy m b c => c.length ≤ (mq m).msgSize ∧ (mq m).next b = none
  | .sendLink m b c => Stored (mq m) b c ∧ (mq m).next b = none
  | .urgentCopy m _ c => c.length ≤ (mq m).msgSize
  | .urgentLink m b c => Stored (mq m) b c
  | .recvCopy m b _ c => Stored (mq m) b c
  | .recvFree _ _ size c r => c.take size <+: r
  | _ => True

/-- The other threads: the buffers in their hands are not written. -/
theorem PcOk.congr {mq mq' : Nat → RtMq} {p : Pc} (h : PcOk mq p)
    (hs : ∀ m, (mq' m).msgSize = (mq m).msgSize)
    (hb : ∀ m b, p.block m = some b →
      (mq' m).next b = (mq m).next b ∧ (mq' m).data b = (mq m).data b) : PcOk mq' p := by
  cases p with
  | sendWait m c | sendAgain m c | sendTaken m b c | urgentCopy m b c =>
    exact Nat.le_trans h (Nat.le_of_eq (hs m).symm)
  | sendCopy m b c =>
    exact ⟨Nat.le_trans h.1 (Nat.le_of_eq (hs m).symm), (hb m b (if_pos rfl)).1.trans h.2⟩
  | sendLink m b c =>
    obtain ⟨hn, hd⟩ := hb m b (if_pos rfl)
    exact ⟨h.1.congr (hs m) hd, hn.trans h.2⟩
  | urgentLink m b c | recvCopy m b size c => exact Stored.congr h (hs m) (hb m b (if_pos rfl)).2
  | recvFree m b size c r => exact h
  | user | recvWait | recvAgain | done => trivial

/-- What holds in every state of every run; `N` are the sizes and the numbers of buffers. -/
structure MqInv (N : Nat → Nat × Nat) (s : MqSys) : Prop where
  lists : ∀ m, Conserved s m
  pcs : ∀ t, PcOk s.mq (s.pc t)
  size : ∀ m, ((s.mq m).msgSize, (s.mq m).maxMsgs) = N m
  small : ∀ m, (s.mq m).maxMsgs < 2 ^ 16

/-- The operation of one thread on a queue with the buffers `L` on its lists: `o` is in the hands
of the thread before it, `d` after it. -/
structure Move (x x' : RtMq) (l' : List Msg) (L : List Nat) (o d : Option Nat) (F Q : List Nat) :
    Prop where
  shape : Shape x' F Q l'
  entry : x'.entry = Q.length
  mem : ∀ b, b ∈ F ++ Q ∨ d = some b ↔ b ∈ L ∨ o = some b
  apart : ∀ b, d = some b → b ∉ F ++ Q
  size : x'.msgSize = x.msgSize
  max : x'.maxMsgs = x.maxMsgs
  frame : ∀ b, b ∉ L → o ≠ some b → x'.next b = x.next b ∧ x'.data b = x.data b

variable {N : Nat → Nat × Nat} {s s' : MqSys} {p : Pc}

/-- The lists of a queue hold at most `max_msgs` buffers. -/
theorem Lists.length_le (h : Lists s m F Q) : Q.length ≤ (s.mq m).maxMsgs := by
  have hQ : Q.Nodup := (List.nodup_append.mp h.shape.nodup).2.1
  have hsub : Q ⊆ List.range (s.mq m).maxMsgs := fun b hb =>
    List.mem_range.mpr ((h.cover b).mpr (.inl (List.mem_append_right _ hb)))
  simpa using (hQ.subperm hsub).length_le

/-- A queue that a step leaves alone. -/
theorem Lists.congr (h : Lists s m F Q) (hmq : s'.mq m = s.mq m) (hq : s'.queue m = s.queue m)
    (hb : ∀ t, (s'.pc t).block m = (s.pc t).block m) : Lists s' m F Q := by
  refine ⟨?_, ?_, ?_, ?_, ?_⟩
  · rw [hmq, hq]
    exact h.shape
  · rw [hmq]
    exact h.entry
  · simpa only [hb] using h.apart
  · simpa only [hb] using h.one
  · simpa only [hb, hmq] using h.cover

/-- The queue that the thread `t` works on. -/
theorem Lists.move (h : Lists s m F Q) {F' Q' : List Nat}
    (hm : Move (s.mq m) (s'.mq m) (s'.queue m) (F ++ Q) ((s.pc t).block m) ((s'.pc t).block m) F' Q')
    (hpc : ∀ u, u ≠ t → s'.pc u = s.pc u) : Lists s' m F' Q' := by
  -- a buffer in the hands of another thread is not the one that `t` had, and on no list
  have hother : ∀ u b, u ≠ t → (s.pc u).block m = some b →
      b ∉ F' ++ Q' ∧ (s'.pc t).block m ≠ some b := by
    intro u b hu hb
    have hnot := mt (hm.mem b).mp (not_or.mpr
      ⟨h.apart u b hb, fun ht => hu (h.one u t b hb ht)⟩)
    exact not_or.mp hnot
  refine ⟨hm.shape, hm.entry, fun u b hb => ?_, fun u v b hu hv => ?_, fun b => ?_⟩
  · by_cases hu : u = t
    · subst hu
      exact hm.apart b hb
    · rw [hpc u hu] at hb
      exact (hother u b hu hb).1
  · by_cases hut : u = t
    · by_cases hvt : v = t
      · rw [hut, hvt]
      · rw [hut] at hu
        rw [hpc v hvt] at hv
        exact absurd hu (hother v b hvt hv).2
    · rw [hpc u hut] at hu
      by_cases hvt : v = t
      · rw [hvt] at hv
        exact absurd hv (hother u b hut hu).2
      · rw [hpc v hvt] at hv
        exact h.one u v b hu hv
  · rw [hm.max, h.cover b]
    constructor
    · rintro (hb | ⟨u, hu⟩)
      · exact ((hm.mem b).mpr (.inl hb)).imp_right fun ht => ⟨t, ht⟩
      · by_cases hut : u = t
        · rw [hut] at hu
          exact ((hm.mem b).mpr (.inr hu)).imp_right fun ht => ⟨t, ht⟩
        · exact .inr ⟨u, by rw [hpc u hut]; exact hu⟩
    · rintro (hb | ⟨u, hu⟩)
      · exact ((hm.mem b).mp (.inl hb)).imp_right fun ht => ⟨t, ht⟩
      · by_cases hut : u = t
        · rw [hut] at hu
          exact ((hm.mem b).mp (.inr hu)).imp_right fun ht => ⟨t, ht⟩
        · rw [hpc u hut] at hu
          exact .inr ⟨u, hu⟩

/-- One thread does an operation on one queue, and everything else stays. -/
theorem MqInv.move (h : MqInv N s) (hk : Lists s m F Q) {F' Q' : List Nat}
    (hm : Move (s.mq m) x' l' (F ++ Q) ((s.pc t).block m) (p.block m) F' Q')
    (hmq : s'.mq = Function.update s.mq m x') (hq : s'.queue = Function.update s.queue m l')
    (hpc : s'.pc = Function.update s.pc t p)
    (hb : ∀ n, n ≠ m → p.block n = (s.pc t).block n) (hp : PcOk s'.mq p) : MqInv N s' := by
  have hself : s'.mq m = x' := by rw [hmq, Function.update_self]
  have hmqn : ∀ n, n ≠ m → s'.mq n = s.mq n := fun n hn => by rw [hmq, Function.update_of_ne hn]
  have ht : s'.pc t = p := by rw [hpc, Function.update_self]
  have hu : ∀ u, u ≠ t → s'.pc u = s.pc u := fun u hu => by rw [hpc, Function.update_of_ne hu]
  refine ⟨fun n => ?_, fun u => ?_, fun n => ?_, fun n => ?_⟩
  · by_cases hn : n = m
    · subst hn
      refine ⟨F', Q', hk.move (t := t) ?_ hu⟩
      rw [hself, ht, hq, Function.update_self]
      exact hm
    · obtain ⟨F, Q, hl⟩ := h.lists n
      refine ⟨F, Q, hl.congr (hmqn n hn) (by rw [hq, Function.update_of_ne hn]) fun u => ?_⟩
      by_cases hut : u = t
      · rw [hut, ht, hb n hn]
      · rw [hu u hut]
  · by_cases hut : u = t
    · rw [hut, ht]
      exact hp
    · rw [hu u hut]
      refine (h.pcs u).congr (fun n => ?_) fun n b hbu => ?_
      · by_cases hn : n = m
        · rw [hn, hself, hm.size]
        · rw [hmqn n hn]
      · by_cases hn : n = m
        · subst hn
          rw [hself]
          exact hm.frame b (hk.apart u b hbu) fun hbt => hut (hk.one u t b hbu hbt)
        · rw [hmqn n hn]
          exact ⟨rfl, rfl⟩
  · by_cases hn : n = m
    · rw [hn, hself, hm.size, hm.max]
      exact h.size m
    · rw [hmqn n hn]
      exact h.size n
  · by_cases hn : n = m
    · rw [hn, hself, hm.max]
      exact h.small m
    · rw [hmqn n hn]
      exact h.small n

/-- A step that leaves the queues: the thread has the buffer in its hands that it had. -/
theorem MqInv.goto (h : MqInv N s) (hmq : s'.mq = s.mq) (hq : s'.queue = s.queue)
    (hpc : s'.pc = Function.update s.pc t p) (hb : ∀ m, p.block m = (s.pc t).block m)
    (hp : PcOk s.mq p) : MqInv N s' := by
  have hblock : ∀ u m, (s'.pc u).block m = (s.pc u).block m := by
    intro u m
    rw [hpc, Function.update_apply]
    split
    · next hu => rw [hu, hb]
    · rfl
  refine ⟨fun m => ?_, fun u => ?_, fun m => ?_, fun m => ?_⟩
  · obtain ⟨F, Q, hl⟩ := h.lists m
    exact ⟨F, Q, hl.congr (by rw [hmq]) (by rw [hq]) (hblock · m)⟩
  · rw [hmq, hpc, Function.update_apply]
    split
    · exact hp
    · exact h.pcs u
  · rw [hmq]
    exact h.size m
  · rw [hmq]
    exact h.small m

theorem MqInv.congr (h : MqInv N s) (hmq : s'.mq = s.mq) (hq : s'.queue = s.queue)
    (hpc : s'.pc = s.pc) : MqInv N s' := by
  refine h.goto (t := 0) (p := s.pc 0) hmq hq ?_ (fun _ => rfl) (h.pcs 0)
  rw [hpc, Function.update_eq_self]

/-! ## The steps -/

variable {timeout : Int} {delta size : Nat} {act : MqAct}

/-- The first buffer is taken off the free list. -/
theorem Lists.takeFree (hk : Lists s m F Q) (hf : (s.mq m).free = some b)
    (ho : (s.pc t).block m = none) (hd : p.block m = some b) :
    ∃ F', Move (s.mq m) ((s.mq m).takeFree b) (s.queue m) (F ++ Q) ((s.pc t).block m)
      (p.block m) F' Q := by
  have hfree := hk.shape.free
  rw [hf] at hfree
  obtain ⟨F', rfl, -⟩ := hfree.eq_cons
  have hn : b ∉ F' ++ Q := (List.nodup_cons.mp hk.shape.nodup).1
  refine ⟨F', hk.shape.takeFree, hk.entry, fun d => ?_, ?_, rfl, rfl, fun _ _ _ => ⟨rfl, rfl⟩⟩
  · rw [ho, hd]
    grind
  · rw [hd]
    rintro d ⟨rfl⟩
    exact hn

/-- The first message is taken off the message list. -/
theorem Lists.unlinkHead (hk : Lists s m F Q) (hh : (s.mq m).head = some b)
    (hsmall : (s.mq m).maxMsgs < 2 ^ 16) (ho : (s.pc t).block m = none)
    (hd : p.block m = some b) :
    ∃ Q', Stored (s.mq m) b ((s.queue m).headD []) ∧
      Move (s.mq m) { (s.mq m).unlinkHead b with
        entry := ((s.mq m).entry + (2 ^ 16 - 1)) % 2 ^ 16 } (s.queue m).tail
      (F ++ Q) ((s.pc t).block m) (p.block m) F Q' := by
  have hmsgs := hk.shape.msgs
  rw [hh] at hmsgs
  obtain ⟨Q', rfl, -⟩ := hmsgs.eq_cons
  have hn : b ∉ F ++ Q' := by
    have hnd := hk.shape.nodup
    rw [List.perm_middle.nodup_iff] at hnd
    exact (List.nodup_cons.mp hnd).1
  have hstored : Stored (s.mq m) b ((s.queue m).headD []) := by
    have ho := hk.shape.order
    generalize s.queue m = l at ho
    cases ho with
    | cons hb _ => exact hb
  refine ⟨Q', hstored, hk.shape.unlinkHead.withEntry _, ?_, fun d => ?_, ?_, rfl, rfl,
    fun _ _ _ => ⟨rfl, rfl⟩⟩
  · show ((s.mq m).entry + (2 ^ 16 - 1)) % 2 ^ 16 = Q'.length
    have hle := hk.length_le
    rw [hk.entry]
    rw [List.length_cons] at hle ⊢
    omega
  · rw [ho, hd]
    grind
  · rw [hd]
    rintro d ⟨rfl⟩
    exact hn

/-- The thread writes the buffer in its hands. -/
theorem Lists.write (hk : Lists s m F Q) (ho : (s.pc t).block m = some b)
    (hd : p.block m = some b) (hx : Shape x' F Q (s.queue m)) (he : x'.entry = (s.mq m).entry)
    (hs : x'.msgSize = (s.mq m).msgSize) (hmax : x'.maxMsgs = (s.mq m).maxMsgs)
    (hw : ∀ d, d ≠ b → x'.next d = (s.mq m).next d ∧ x'.data d = (s.mq m).data d) :
    Move (s.mq m) x' (s.queue m) (F ++ Q) ((s.pc t).block m) (p.block m) F Q := by
  refine ⟨hx, he.trans hk.entry, fun d => by rw [ho, hd], fun d hb => ?_, hs, hmax,
    fun d _ hdb => hw d fun e => hdb (by rw [ho, e])⟩
  exact hk.apart t d (ho.trans (hd.symm.trans hb))

/-- The thread puts its buffer on the message list, at `Q'`. -/
theorem Lists.link (hk : Lists s m F Q) {Q' : List Nat} (ho : (s.pc t).block m = some b)
    (hd : p.block m = none) (hsmall : (s.mq m).maxMsgs < 2 ^ 16) (hx : Shape x' F Q' l')
    (hQ : Q'.Perm (b :: Q)) (he : x'.entry = ((s.mq m).entry + 1) % 2 ^ 16)
    (hs : x'.msgSize = (s.mq m).msgSize) (hmax : x'.maxMsgs = (s.mq m).maxMsgs)
    (hw : ∀ d, d ∉ Q → d ≠ b → x'.next d = (s.mq m).next d ∧ x'.data d = (s.mq m).data d) :
    Move (s.mq m) x' l' (F ++ Q) ((s.pc t).block m) (p.block m) F Q' := by
  have hlen : Q.length + 1 ≤ (s.mq m).maxMsgs := by
    have hnd : (b :: Q).Nodup := by
      refine List.nodup_cons.mpr ⟨fun hb => ?_, (List.nodup_append.mp hk.shape.nodup).2.1⟩
      exact hk.apart t b ho (List.mem_append_right _ hb)
    have hsub : b :: Q ⊆ List.range (s.mq m).maxMsgs := by
      intro d hdm
      rw [List.mem_range, hk.cover]
      rcases List.mem_cons.mp hdm with rfl | hdm
      · exact .inr ⟨t, ho⟩
      · exact .inl (List.mem_append_right _ hdm)
    simpa using (hnd.subperm hsub).length_le
  refine ⟨hx, ?_, fun d => ?_, ?_, hs, hmax, fun d hdl hdb => ?_⟩
  · rw [he, hk.entry, hQ.length_eq, List.length_cons]
    exact Nat.mod_eq_of_lt (by omega)
  · rw [ho, hd, List.mem_append, List.mem_append, hQ.mem_iff, List.mem_cons]
    grind
  · rw [hd]
    rintro d ⟨⟩
  · rw [List.mem_append, not_or] at hdl
    exact hw d hdl.2 fun e => hdb (by rw [ho, e])

/-- The thread puts its buffer on the free list. -/
theorem Lists.putFree (hk : Lists s m F Q) (ho : (s.pc t).block m = some b)
    (hd : p.block m = none) : Move (s.mq m) ((s.mq m).putFree b) (s.queue m) (F ++ Q)
      ((s.pc t).block m) (p.block m) (b :: F) Q := by
  refine ⟨hk.shape.putFree (hk.apart t b ho), hk.entry, fun d => ?_, ?_, rfl, rfl,
    fun d _ hdb => ⟨Function.update_of_ne (fun e => hdb (by rw [ho, e])) .., rfl⟩⟩
  · rw [ho, hd]
    grind
  · rw [hd]
    rintro d ⟨⟩

theorem sendLoop_inv (h : MqInv N s) (hc : c.length ≤ (s.mq m).msgSize)
    (ho : ∀ n, (s.pc s.kern.current).block n = none)
    (hs : sendLoop s m c timeout delta = some s') : MqInv N s' := by
  unfold sendLoop at hs
  split at hs
  · split at hs
    · cases hs
      exact h.goto rfl rfl rfl (fun n => (ho n).symm) trivial
    · obtain ⟨k, -, rfl⟩ := Option.map_eq_some_iff.mp hs
      exact h.goto rfl rfl rfl (fun n => (ho n).symm) hc
  · next b hf =>
    cases hs
    obtain ⟨F, Q, hk⟩ := h.lists m
    obtain ⟨F', hm⟩ := hk.takeFree (p := .sendTaken m b c) hf (ho m) (if_pos rfl)
    refine h.move hk hm rfl (Function.update_eq_self ..).symm rfl (fun n hn => ?_) ?_
    · rw [ho]
      exact if_neg (Ne.symm hn)
    · show c.length ≤ (Function.update s.mq m ((s.mq m).takeFree b) m).msgSize
      rw [Function.update_self]
      exact hc

theorem rtMqUrgent_inv (h : MqInv N s) (ho : ∀ n, (s.pc s.kern.current).block n = none)
    (hs : rtMqUrgent s m c = some s') : MqInv N s' := by
  unfold rtMqUrgent at hs
  split at hs
  · cases hs
  · split at hs
    · cases hs
      exact h.goto rfl rfl rfl (fun n => (ho n).symm) trivial
    · next hc =>
      split at hs
      · cases hs
        exact h.goto rfl rfl rfl (fun n => (ho n).symm) trivial
      · next b hf =>
        cases hs
        obtain ⟨F, Q, hk⟩ := h.lists m
        obtain ⟨F', hm⟩ := hk.takeFree (p := .urgentCopy m b c) hf (ho m) (if_pos rfl)
        refine h.move hk hm rfl (Function.update_eq_self ..).symm rfl (fun n hn => ?_) ?_
        · rw [ho]
          exact if_neg (Ne.symm hn)
        · show c.length ≤ (Function.update s.mq m ((s.mq m).takeFree b) m).msgSize
          rw [Function.update_self]
          exact Nat.le_of_not_lt hc

theorem recvLoop_inv (h : MqInv N s) (ho : ∀ n, (s.pc s.kern.current).block n = none)
    (hs : recvLoop s m size timeout delta = some s') : MqInv N s' := by
  simp only [recvLoop] at hs
  split at hs
  · split at hs
    · cases hs
      exact h.goto rfl rfl rfl (fun n => (ho n).symm) trivial
    · obtain ⟨k, -, rfl⟩ := Option.map_eq_some_iff.mp hs
      exact h.goto rfl rfl rfl (fun n => (ho n).symm) trivial
  · split at hs
    · cases hs
    · next b hh =>
      cases hs
      obtain ⟨F, Q, hk⟩ := h.lists m
      obtain ⟨Q', hstored, hm⟩ := hk.unlinkHead
        (p := .recvCopy m b size ((s.queue m).headD [])) hh (h.small m) (ho m) (if_pos rfl)
      refine h.move hk hm rfl rfl rfl (fun n hn => ?_) ?_
      · rw [ho]
        exact if_neg (Ne.symm hn)
      · show Stored (Function.update s.mq m _ m) b _
        rw [Function.update_self]
        exact hstored.congr rfl rfl

theorem afterWait_inv (h : MqInv N s) (ho : ∀ n, (s.pc s.kern.current).block n = none)
    (hp : PcOk s.mq p) (hpb : ∀ n, p.block n = none) (hs : afterWait s p = some s') :
    MqInv N s' := by
  simp only [afterWait] at hs
  split at hs
  · split at hs
    · cases hs
      exact h.goto rfl rfl rfl (fun n => (ho n).symm) trivial
    · cases hs
      exact h.goto rfl rfl rfl (fun n => (hpb n).trans (ho n).symm) hp
  · cases hs

theorem rtMqReset_inv (h : MqInv N s) (m : Nat) : ∃ s', rtMqReset s m = some s' ∧ MqInv N s' := by
  obtain ⟨F, Q, hk⟩ := h.lists m
  obtain ⟨x, hx, hshape, hsize, hmax, hdata, hnext⟩ := resetLoop_returns hk.shape hk.length_le
  refine ⟨_, by rw [rtMqReset, hx]; rfl, ?_⟩
  have hmem : ∀ b, b ∈ Q.reverse ++ F ++ [] ↔ b ∈ F ++ Q := fun b => by
    simp only [List.append_nil, List.mem_append, List.mem_reverse]
    exact or_comm
  have hm : Move (s.mq m) { x with entry := 0 } [] (F ++ Q) ((s.pc 0).block m)
      ((s.pc 0).block m) (Q.reverse ++ F) [] := by
    refine ⟨hshape.withEntry 0, rfl, fun b => by rw [hmem], fun b hb => ?_, hsize, hmax,
      fun b hb _ => ⟨hnext b fun hq => hb (List.mem_append_right _ hq), by rw [hdata]⟩⟩
    rw [hmem]
    exact hk.apart 0 b hb
  refine h.move hk hm rfl rfl (Function.update_eq_self ..).symm (fun _ _ => rfl) ?_
  refine (h.pcs 0).congr (fun n => ?_) fun n b hb => ?_
  · show (Function.update s.mq m _ n).msgSize = _
    rw [Function.update_apply]
    split
    · next hn => rw [hn]; exact hsize
    · rfl
  · show (Function.update s.mq m _ n).next b = _ ∧ (Function.update s.mq m _ n).data b = _
    rw [Function.update_apply]
    split
    · next hn =>
      subst hn
      refine ⟨hnext b fun hq => ?_, by rw [hdata]⟩
      exact hk.apart 0 b hb (List.mem_append_right _ hq)
    · exact ⟨rfl, rfl⟩

/-- A thread writes the buffer in its hands. -/
theorem MqInv.write (h : MqInv N s) (ho : (s.pc t).block m = some b)
    (hd : ∀ n, p.block n = (s.pc t).block n)
    (hx : ∀ F Q, Shape (s.mq m) F Q (s.queue m) → b ∉ F ++ Q → Shape x' F Q (s.queue m))
    (he : x'.entry = (s.mq m).entry) (hs : x'.msgSize = (s.mq m).msgSize)
    (hmax : x'.maxMsgs = (s.mq m).maxMsgs)
    (hw : ∀ d, d ≠ b → x'.next d = (s.mq m).next d ∧ x'.data d = (s.mq m).data d)
    (hp : PcOk (Function.update s.mq m x') p) : MqInv N ((s.setMq m x').goto t p) := by
  obtain ⟨F, Q, hk⟩ := h.lists m
  have hm := hk.write (p := p) ho ((hd m).trans ho) (hx F Q hk.shape (hk.apart t b ho)) he hs hmax hw
  exact h.move hk hm rfl (Function.update_eq_self ..).symm rfl (fun n _ => hd n) hp

/-- A thread links its buffer as the last message. -/
theorem linkTail_inv (h : MqInv N s) (hpc : s.pc t = .sendLink m b c) (k : Kern) (r : Int) :
    MqInv N ((((s.setMq m ((s.mq m).linkTail b)).setQueue m (s.queue m ++ [c])).setKern k).goto t
      (.done r)) := by
  obtain ⟨F, Q, hk⟩ := h.lists m
  have ho : (s.pc t).block m = some b := by rw [hpc]; exact if_pos rfl
  have hp := h.pcs t
  rw [hpc] at hp
  obtain ⟨he, hsize, hmax, hdata⟩ := linkTail_fields (x := s.mq m) (b := b)
  have hm := hk.link (p := .done r) ho rfl (h.small m)
    (hk.shape.linkTail (hk.apart t b ho) hp.2 hp.1) (List.perm_append_singleton b Q) he hsize hmax
    fun d hd _ => ⟨linkTail_next fun e => hd (hk.shape.tail_mem e), by rw [hdata]⟩
  refine h.move hk hm rfl rfl rfl (fun n hn => ?_) trivial
  rw [hpc]
  exact (if_neg (Ne.symm hn)).symm

/-- A thread links its buffer as the first message. -/
theorem linkHead_inv (h : MqInv N s) (hpc : s.pc t = .urgentLink m b c) (k : Kern) (r : Int) :
    MqInv N ((((s.setMq m ((s.mq m).linkHead b)).setQueue m (c :: s.queue m)).setKern k).goto t
      (.done r)) := by
  obtain ⟨F, Q, hk⟩ := h.lists m
  have ho : (s.pc t).block m = some b := by rw [hpc]; exact if_pos rfl
  have hp := h.pcs t
  rw [hpc] at hp
  have hm := hk.link (p := .done r) ho rfl (h.small m)
    (hk.shape.linkHead (hk.apart t b ho) hp) (List.Perm.refl _) rfl rfl rfl
    fun d _ hd => ⟨Function.update_of_ne hd .., rfl⟩
  refine h.move hk hm rfl rfl rfl (fun n hn => ?_) trivial
  rw [hpc]
  exact (if_neg (Ne.symm hn)).symm

/-- A thread puts the buffer that it has read on the free list. -/
theorem putFree_inv (h : MqInv N s) {r : Msg} (hpc : s.pc t = .recvFree m b size c r) (k : Kern)
    (e : Int) : MqInv N (((s.setMq m ((s.mq m).putFree b)).setKern k).goto t (.done e)) := by
  obtain ⟨F, Q, hk⟩ := h.lists m
  have ho : (s.pc t).block m = some b := by rw [hpc]; exact if_pos rfl
  refine h.move hk (hk.putFree (p := .done e) ho rfl) rfl (Function.update_eq_self ..).symm rfl
    (fun n hn => ?_) trivial
  rw [hpc]
  exact (if_neg (Ne.symm hn)).symm

/-- What a receive copies begins with the message. -/
theorem Stored.take_prefix (h : Stored x b c) :
    c.take size <+: (x.data b).take (min size x.msgSize) := by
  obtain ⟨hlen, htake⟩ := h
  have hle : min size c.length ≤ min size x.msgSize := by omega
  have hpre := List.take_prefix_take_left (l := x.data b) hle
  rwa [← List.take_take, htake] at hpre

theorem goOn_inv (h : MqInv N s) (hs : goOn s = some s') : MqInv N s' := by
  have hp := h.pcs s.kern.current
  simp only [goOn] at hs
  split at hs
  · cases hs
  · next m c timeout delta hpc =>
    rw [hpc] at hp
    exact afterWait_inv (p := .sendAgain m c timeout delta) h (fun n => by rw [hpc]; rfl) hp
      (fun _ => rfl) hs
  · next m c timeout delta hpc =>
    rw [hpc] at hp
    exact sendLoop_inv h hp (fun n => by rw [hpc]; rfl) hs
  · next m b c hpc =>
    -- `msg->next = RT_NULL`
    rw [hpc] at hp
    cases hs
    refine h.write (b := b) (by rw [hpc]; exact if_pos rfl) (fun n => by rw [hpc]; rfl)
      (fun F Q hk hb => hk.setNext hb none) rfl rfl rfl
      (fun d hd => ⟨Function.update_of_ne hd .., rfl⟩) ?_
    show _ ≤ (Function.update s.mq m _ m).msgSize ∧ (Function.update s.mq m _ m).next b = none
    rw [Function.update_self]
    exact ⟨hp, Function.update_self ..⟩
  · next m b c hpc =>
    rw [hpc] at hp
    cases hs
    refine h.write (b := b) (by rw [hpc]; exact if_pos rfl) (fun n => by rw [hpc]; rfl)
      (fun F Q hk hb => hk.copyIn hb c) rfl rfl rfl
      (fun d hd => ⟨rfl, Function.update_of_ne hd ..⟩) ?_
    show Stored (Function.update s.mq m _ m) b c ∧ (Function.update s.mq m _ m).next b = none
    rw [Function.update_self]
    exact ⟨stored_copyIn hp.1, hp.2⟩
  · next m b c hpc =>
    cases hs
    exact linkTail_inv h hpc _ _
  · next m b c hpc =>
    rw [hpc] at hp
    cases hs
    refine h.write (b := b) (by rw [hpc]; exact if_pos rfl) (fun n => by rw [hpc]; rfl)
      (fun F Q hk hb => hk.copyIn hb c) rfl rfl rfl
      (fun d hd => ⟨rfl, Function.update_of_ne hd ..⟩) ?_
    show Stored (Function.update s.mq m _ m) b c
    rw [Function.update_self]
    exact stored_copyIn hp
  · next m b c hpc =>
    cases hs
    exact linkHead_inv h hpc _ _
  · next m size timeout delta hpc =>
    exact afterWait_inv (p := .recvAgain m size timeout delta) h (fun n => by rw [hpc]; rfl)
      trivial (fun _ => rfl) hs
  · next m size timeout delta hpc =>
    exact recvLoop_inv h (fun n => by rw [hpc]; rfl) hs
  · next m b size c hpc =>
    rw [hpc] at hp
    cases hs
    exact h.goto rfl rfl rfl (fun n => by rw [hpc]; rfl) hp.take_prefix
  · next m b size c r hpc =>
    cases hs
    exact putFree_inv h hpc _ _
  · next r hpc =>
    cases hs
    exact h.goto rfl rfl rfl (fun n => by rw [hpc]; rfl) trivial

/-- The step lemma. -/
theorem MqInv.step (h : MqInv N s) (hs : mqStep s act = some s') : MqInv N s' := by
  cases act with
  | preempt u =>
    simp only [mqStep] at hs
    split at hs <;> cases hs
    exact h.congr rfl rfl rfl
  | send m c timeout =>
    simp only [mqStep] at hs
    split at hs
    · next hpc =>
      have ho : ∀ n, (s.pc s.kern.current).block n = none := fun n => by rw [hpc]; rfl
      simp only [rtMqSendWait] at hs
      split at hs
      · cases hs
      · split at hs
        · cases hs
          exact h.goto rfl rfl rfl (fun n => (ho n).symm) trivial
        · next hc =>
          split at hs
          · cases hs
            exact h.goto rfl rfl rfl (fun n => (ho n).symm) trivial
          · exact sendLoop_inv h (Nat.le_of_not_lt hc) ho hs
    · cases hs
  | urgent m c =>
    simp only [mqStep] at hs
    split at hs
    · next hpc => exact rtMqUrgent_inv h (fun n => by rw [hpc]; rfl) hs
    · cases hs
  | recv m size timeout =>
    simp only [mqStep] at hs
    split at hs
    · next hpc =>
      have ho : ∀ n, (s.pc s.kern.current).block n = none := fun n => by rw [hpc]; rfl
      simp only [rtMqRecv] at hs
      split at hs
      · cases hs
      · split at hs
        · cases hs
          exact h.goto rfl rfl rfl (fun n => (ho n).symm) trivial
        · exact recvLoop_inv h ho hs
    · cases hs
  | goOn => exact goOn_inv h hs
  | reset m =>
    obtain ⟨s1, hr, h1⟩ := rtMqReset_inv h m
    rw [mqStep, hr] at hs
    cases hs
    exact h1
  | timeout u =>
    obtain ⟨k, -, rfl⟩ := Option.map_eq_some_iff.mp hs
    exact h.congr rfl rfl rfl
  | tick =>
    cases hs
    exact h.congr rfl rfl rfl

/-- The size of a message and the number of the buffers of each queue. -/
def sizes (msgSize poolSize : Nat → Nat) (m : Nat) : Nat × Nat :=
  (rtAlign (msgSize m) % 2 ^ 16, poolSize m / (rtAlign (msgSize m) % 2 ^ 16 + 4) % 2 ^ 16)

theorem mqInit_inv (msgSize poolSize flag priority : Nat → Nat) (next : Nat → Nat → Option Nat)
    (data : Nat → Nat → Msg) :
    MqInv (sizes msgSize poolSize) (mqInit msgSize poolSize flag priority next data) := by
  have hsize : ∀ m, (((mqInit msgSize poolSize flag priority next data).mq m).msgSize,
      ((mqInit msgSize poolSize flag priority next data).mq m).maxMsgs) =
        sizes msgSize poolSize m := fun m =>
    Prod.ext foldl_putFree_fields.1 foldl_putFree_fields.2.1
  have hmax : ∀ m, ((mqInit msgSize poolSize flag priority next data).mq m).maxMsgs =
      (sizes msgSize poolSize m).2 := fun m => congrArg Prod.snd (hsize m)
  refine ⟨fun m => ?_, fun _ => trivial, hsize, fun m => ?_⟩
  · refine ⟨_, [], Shape.foldl_putFree (F := []) ⟨rfl, rfl, rfl, .nil, .nil⟩ List.nodup_range
      fun _ _ => List.not_mem_nil, foldl_putFree_fields.2.2, ?_, ?_, fun b => ?_⟩
    · rintro t b ⟨⟩
    · rintro t u b ⟨⟩
    · rw [hmax]
      constructor
      · intro hb
        exact .inl (by simpa [sizes] using hb)
      · rintro (hb | ⟨t, ⟨⟩⟩)
        simpa [sizes] using hb
  · rw [hmax]
    exact Nat.mod_lt _ (by decide)

/-! ## The result -/

/-- **Every buffer is in one place, and the messages come in order.** In every run, a buffer of a
queue is on its free list, on its message list or in the hands of one thread; `entry` and
`msg_queue_tail` fit the message list, which holds the messages of the queue in order. A receive
gets the bytes of the message that it took, as many as it has room for; and a reset returns. -/
theorem mq_conserved (msgSize poolSize flag priority : Nat → Nat) (next : Nat → Nat → Option Nat)
    (data : Nat → Nat → Msg) (acts : List MqAct) (s : MqSys)
    (hx : exec mqStep (mqInit msgSize poolSize flag priority next data) acts = some s) (m : Nat) :
    ((s.mq m).msgSize, (s.mq m).maxMsgs) = sizes msgSize poolSize m ∧ Conserved s m ∧
      (∀ t b size c r, s.pc t = .recvFree m b size c r → c.take size <+: r) ∧
      (mqStep s (.reset m)).isSome := by
  have h : MqInv (sizes msgSize poolSize) s :=
    exec_inv (fun s act s' h hs => h.step hs) hx (mqInit_inv ..)
  refine ⟨h.size m, h.lists m, fun t b size c r hpc => ?_, ?_⟩
  · have hp := h.pcs t
    rw [hpc] at hp
    exact hp
  · obtain ⟨s', hr, -⟩ := rtMqReset_inv h m
    rw [mqStep, hr]
    rfl

/-- A queue with three buffers. The thread 1 sends an urgent message and takes it while the thread 0
is between its two sections; then the queue is reset while the thread 2 has a buffer. -/
def interleaved : List MqAct :=
  [.send 0 [1, 2, 3, 4, 5] 0, .goOn, .preempt 1, .send 0 [6] 0, .goOn, .goOn, .goOn, .goOn,
    .urgent 0 [7, 8], .goOn, .goOn, .preempt 0, .goOn, .goOn, .preempt 1, .goOn, .recv 0 9 0,
    .goOn, .preempt 2, .recv 0 9 5, .reset 0, .preempt 1]

theorem mq_conserved_interleaved : ∃ s, exec mqStep (mqInit (fun _ => 5) (fun _ => 36) (fun _ => 0)
    (fun _ => 10) (fun _ _ => none) fun _ _ => []) interleaved = some s ∧
      ((s.mq 0).msgSize, (s.mq 0).maxMsgs) = (8, 3) ∧ Conserved s 0 ∧
      s.pc 1 = .recvFree 0 0 9 [7, 8] [7, 8] ∧ s.pc 2 = .recvCopy 0 1 9 [6] ∧ s.queue 0 = [] := by
  have h := mq_conserved (fun _ => 5) (fun _ => 36) (fun _ => 0) (fun _ => 10) (fun _ _ => none)
    (fun _ _ => []) interleaved _ rfl 0
  exact ⟨_, rfl, rfl, h.2.1, rfl, rfl, rfl⟩

end Tudu.MessageQueue
