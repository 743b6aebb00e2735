import TuduOS.Drivers.DataQueue

/-!
# Sending by DMA (`serial.c`)

Writers put their buffers into a data queue of 8 items. The one that finds no transfer activated
starts one, with its own buffer; when a transfer is done, the interrupt takes the buffer off the
queue and starts the next one with the head.

* The steps of the data queue are those of `dqStep`. A writer is at `push` in `rt_data_queue_push`,
  at `pushed` behind it, and at `start` between the section that sets `activated` and
  `dma_transmit`.
* `running` is the controller: the interrupt comes only when a transfer has been started.
* The ghosts are `sent`, the buffers that were given to `dma_transmit`, and `clash`: a transfer was
  started while one was running.

Between the push and the section another writer may push, and start its own buffer, which is not the
head: `tx_exact` says that this is all that may go wrong, besides the wrap of the data queue.
-/

namespace Tudu.SerialTx

open DataQueue Kern Lts

inductive TxPc where
  | user
  | push (item : RtDataItem)
  | pushed (item : RtDataItem)
  | start (item : RtDataItem)
  deriving DecidableEq

structure TxSys where
  dq : DqSys
  activated : Bool
  running : Bool
  txPc : Nat → TxPc
  sent : List RtDataItem
  clash : Bool

namespace TxSys

def setDq (s : TxSys) (q : DqSys) : TxSys := { s with dq := q }

def goto (s : TxSys) (t : Nat) (p : TxPc) : TxSys := { s with txPc := Function.update s.txPc t p }

end TxSys

open TxSys

/-- `serial->ops->dma_transmit` -/
def dmaTransmit (s : TxSys) (item : RtDataItem) : TxSys :=
  { s with sent := s.sent ++ [item], running := true, clash := s.clash || s.running }

/-- `RT_SERIAL_EVENT_TX_DMADONE`. What `rt_data_queue_peak` returns is the item at `get_index`. -/
def txDmaDone (s : TxSys) : Option TxSys :=
  (dqStep s.dq .isrPop).map fun q =>
    let s := { s with running := false, dq := q }
    if q.dq.getIndex = q.dq.putIndex then { s with activated := false }
    else dmaTransmit { s with activated := true } (q.dq.queue (q.dq.getIndex % q.dq.size))

inductive TxAct where
  /-- An interrupt, or `rt_schedule`, switches to the ready thread `u`. -/
  | preempt (u : Nat)
  /-- The current thread calls `_serial_dma_tx`. -/
  | write (item : RtDataItem)
  /-- The current thread goes on in its call. -/
  | goOn
  /-- The transfer is done. -/
  | dmaDone
  deriving DecidableEq

/-- `_serial_dma_tx`, in its parts. -/
def serialDmaTx (s : TxSys) : Option TxSys :=
  let t := s.dq.kern.current
  match s.txPc t with
  | .user => none
  | .push item =>
    (dqStep s.dq .goOn).map fun q =>
      match s.dq.pc t with
      | .done r => (s.setDq q).goto t (if r = rtEok then .pushed item else .user)
      | _ => s.setDq q
  | .pushed item =>
    if s.activated then some (s.goto t .user)
    else some ({ s with activated := true }.goto t (.start item))
  | .start item => some ((dmaTransmit s item).goto t .user)

def txStep (s : TxSys) : TxAct → Option TxSys
  | .preempt u => (dqStep s.dq (.preempt u)).map s.setDq
  | .write item =>
    match s.txPc s.dq.kern.current with
    | .user => (dqStep s.dq (.push item (-1))).map fun q =>
      (s.setDq q).goto s.dq.kern.current (.push item)
    | _ => none
  | .goOn => serialDmaTx s
  | .dmaDone => if s.running then txDmaDone s else none

/-- `rt_serial_open` with `RT_DEVICE_FLAG_DMA_TX` -/
def txOpen (queue : Nat → RtDataItem) (priority : Nat → Nat) : TxSys where
  dq := rtDataQueueInit queue 8 4 priority
  activated := false
  running := false
  txPc := fun _ => .user
  sent := []
  clash := false

/-! ## The property and the condition -/

/-- The push of the thread has succeeded, and it has not looked at `activated` yet. -/
def JustPushed (s : TxSys) (t : Nat) : Prop :=
  ∃ item, s.txPc t = .pushed item ∨ s.txPc t = .push item ∧ s.dq.pc t = .done rtEok

/-- The thread has set `activated`, and has not started its transfer yet. -/
def Starts (s : TxSys) (t : Nat) : Prop := ∃ item, s.txPc t = .start item

/-- The items of the queue whose transfer has not been started. -/
def unsent (s : TxSys) : List RtDataItem :=
  if s.running then s.dq.dq.items.drop 1 else s.dq.dq.items

/-- Every buffer is sent once, in the order of the pushes, and one at a time. -/
structure Exact (s : TxSys) : Prop where
  order : s.sent ++ unsent s = s.dq.pushed
  single : s.clash = false
  idle : s.activated = false → s.dq.dq.items = [] ∨ ∃ t, JustPushed s t
  /-- What is in the queue goes on being sent. -/
  goesOn : s.dq.dq.items ≠ [] → s.running = true ∨ ∃ t, JustPushed s t ∨ Starts s t

/-- The step of the data queue that a step makes. -/
def dqAct (s : TxSys) : TxAct → Option DqAct
  | .preempt u => some (.preempt u)
  | .write item => some (.push item (-1))
  | .goOn =>
    match s.txPc s.dq.kern.current with
    | .push _ => some .goOn
    | _ => none
  | .dmaDone => some .isrPop

/-- The buffer of a writer that finds no transfer activated, and is about to start its own. -/
def takesOver (s : TxSys) : TxAct → Option RtDataItem
  | .goOn =>
    match s.txPc s.dq.kern.current with
    | .pushed item => if s.activated then none else some item
    | _ => none
  | _ => none

/-- A writer that starts a transfer has the head of the queue, and a push does not find the queue
behind the wrap of its indices (`StoresInRoom`). -/
structure StartsHead (s : TxSys) (act : TxAct) : Prop where
  head : ∀ item ∈ takesOver s act, s.dq.dq.items.head? = some item
  room : ∀ a ∈ dqAct s act, StoresInRoom s.dq a

instance (s : TxSys) (act : TxAct) : Decidable (StartsHead s act) :=
  decidable_of_iff ((∀ item ∈ takesOver s act, s.dq.dq.items.head? = some item) ∧
    ∀ a ∈ dqAct s act, StoresInRoom s.dq a) ⟨fun h => ⟨h.1, h.2⟩, fun h => ⟨h.1, h.2⟩⟩

/-! ## The steps of the data queue -/

/-- Where a writer may be in the data queue. -/
def InPush : TxPc → Pc → Prop
  | .push item, .pushWait i timeout => i = item ∧ timeout = -1
  | .push item, .pushAgain i timeout => i = item ∧ timeout = -1
  | .push _, .done _ => True
  | .push _, _ => False
  | _, p => p = .user

/-- What the thread `t` does in `rt_data_queue_push`: it goes on waiting, or stores its item. -/
inductive PushStep (q q' : DqSys) (t : Nat) (item : RtDataItem) : Prop
  | waits (p : Pc) (hp : InPush (.push item) p) (hok : p ≠ .done rtEok)
      (hpc : q'.pc = Function.update q.pc t p) (hdq : q'.dq = q.dq) (hpu : q'.pushed = q.pushed)
      (hpo : q'.popped = q.popped)
  | stored (hfull : q.dq.full = false) (heq : q' = (store q item).goto t (.done rtEok))

section Dq

variable {q q' : DqSys} {act : DqAct} {item : RtDataItem} {t : Nat}

theorem pushStep_push (h : rtDataQueuePush q item (-1) = some q') :
    PushStep q q' q.kern.current item := by
  simp only [rtDataQueuePush] at h
  split at h
  · split at h
    · cases h
      exact .waits (.done (-rtEtimeout)) trivial (by decide) rfl rfl rfl rfl
    · obtain ⟨k, -, rfl⟩ := Option.map_eq_some_iff.mp h
      exact .waits (.pushWait item (-1)) ⟨rfl, rfl⟩ (fun hp => (by cases hp)) rfl rfl rfl rfl
  · next hfull =>
    cases h
    exact .stored (Bool.eq_false_iff.mpr hfull) rfl

theorem pushStep_goOn (hin : InPush (.push item) (q.pc q.kern.current))
    (hnd : ∀ r, q.pc q.kern.current ≠ .done r) (h : dqStep q .goOn = some q') :
    PushStep q q' q.kern.current item := by
  simp only [dqStep] at h
  unfold goOn at h
  split at h
  · cases h
  · next i timeout hpc =>
    rw [hpc] at hin
    obtain ⟨rfl, rfl⟩ := hin
    simp only [afterWait] at h
    split at h
    · split at h
      · next herr =>
        cases h
        refine .waits (.done (q.kern.thread q.kern.current).error) trivial ?_ rfl rfl rfl rfl
        intro hp
        injection hp with hp
        exact herr hp
      · cases h
        exact .waits (.pushAgain i (-1)) ⟨rfl, rfl⟩ (fun hp => (by cases hp)) rfl rfl rfl rfl
    · cases h
  · next i timeout hpc =>
    rw [hpc] at hin
    obtain ⟨rfl, rfl⟩ := hin
    exact pushStep_push h
  · next hpc =>
    rw [hpc] at hin
    cases hin
  · next hpc =>
    rw [hpc] at hin
    cases hin
  · next r hpc => exact absurd hpc (hnd r)

theorem items_eq_nil (h : Fits q.dq) : q.dq.items = [] ↔ q.dq.getIndex = q.dq.putIndex := by
  rw [← h.level_zero, RtDataQueue.items, List.map_eq_nil_iff, List.range_eq_nil]

/-- A push that stores leaves the first item where it is. -/
theorem head_store (hs : (store q item).dq.items = q.dq.items ++ [item]) {x : RtDataItem}
    (hx : q.dq.items.head? = some x) : (store q item).dq.items.head? = some x := by
  rw [hs]
  cases hi : q.dq.items with
  | nil =>
    rw [hi] at hx
    cases hx
  | cons y l =>
    rw [hi] at hx
    exact hx

end Dq

/-! ## The invariant -/

structure TxInv (s : TxSys) : Prop where
  fits : Fits s.dq.dq
  fifo : Fifo s.dq
  single : s.clash = false
  pcs : ∀ t, InPush (s.txPc t) (s.dq.pc t)
  sent : s.sent = s.dq.popped ++ if s.running then s.dq.dq.items.take 1 else []
  runs : s.running = true → s.activated = true ∧ s.dq.dq.items ≠ [] ∧ ∀ t, ¬ Starts s t
  starter : ∀ t item, s.txPc t = .start item → s.activated = true ∧
    s.dq.dq.items.head? = some item ∧ ∀ u, Starts s u → u = t
  active : s.activated = true → s.running = true ∨ ∃ t, Starts s t
  idle : s.activated = false → s.dq.dq.items = [] ∨ ∃ t, JustPushed s t

section Inv

variable {s s' : TxSys} {q : DqSys} {item : RtDataItem} {t : Nat}

theorem TxInv.exact (h : TxInv s) : Exact s where
  order := by
    rw [h.sent, unsent, ← h.fifo.order, List.append_assoc]
    split
    · rw [List.take_append_drop]
    · rw [List.nil_append]
  single := h.single
  idle := h.idle
  goesOn := by
    intro hne
    cases ha : s.activated with
    | false =>
      obtain ⟨t, ht⟩ := (h.idle ha).resolve_left hne
      exact Or.inr ⟨t, Or.inl ht⟩
    | true =>
      rcases h.active ha with hr | ⟨t, ht⟩
      · exact Or.inl hr
      · exact Or.inr ⟨t, Or.inr ht⟩

theorem starts_goto {p : TxPc} {u : Nat} (hu : u ≠ t) : Starts (s.goto t p) u ↔ Starts s u := by
  simp only [Starts, TxSys.goto, Function.update_of_ne hu]

/-- Only the thread `t` has gone on. -/
structure Moves (s s' : TxSys) (t : Nat) : Prop where
  txPc : ∀ u, u ≠ t → s'.txPc u = s.txPc u
  pc : ∀ u, u ≠ t → s'.dq.pc u = s.dq.pc u

theorem Moves.starts_iff (h : Moves s s' t) {u : Nat} (hu : u ≠ t) : Starts s' u ↔ Starts s u := by
  simp only [Starts, h.txPc u hu]

theorem Moves.justPushed_iff (h : Moves s s' t) {u : Nat} (hu : u ≠ t) :
    JustPushed s' u ↔ JustPushed s u := by
  simp only [JustPushed, h.txPc u hu, h.pc u hu]

/-- The step of a thread that neither was about to start nor is. -/
theorem TxInv.moves (h : TxInv s) (hm : Moves s s' t) (hfits : Fits s'.dq.dq) (hfifo : Fifo s'.dq)
    (hact : s'.activated = s.activated) (hrun : s'.running = s.running) (hsent : s'.sent = s.sent)
    (hclash : s'.clash = s.clash) (hpo : s'.dq.popped = s.dq.popped)
    (hpc : InPush (s'.txPc t) (s'.dq.pc t)) (hst : ¬ Starts s t) (hst' : ¬ Starts s' t)
    (hhead : ∀ x, s.dq.dq.items.head? = some x → s'.dq.dq.items.head? = some x)
    (hidle : s.activated = false → s'.dq.dq.items = [] ∨ ∃ u, JustPushed s' u) : TxInv s' where
  fits := hfits
  fifo := hfifo
  single := hclash.trans h.single
  pcs := by
    intro u
    by_cases hu : u = t
    · rw [hu]
      exact hpc
    · rw [hm.txPc u hu, hm.pc u hu]
      exact h.pcs u
  sent := by
    rw [hsent, hpo, hrun, h.sent]
    cases hr : s.running with
    | false => rfl
    | true =>
      obtain ⟨x, l, hx⟩ := List.exists_cons_of_ne_nil (h.runs hr).2.1
      have hx' := hhead x (by rw [hx]; rfl)
      obtain ⟨l', hl'⟩ := List.head?_eq_some_iff.mp hx'
      rw [hx, hl']
      rfl
  runs := by
    rw [hrun, hact]
    intro hr
    obtain ⟨ha, hne, hno⟩ := h.runs hr
    refine ⟨ha, ?_, fun u => ?_⟩
    · obtain ⟨x, l, hx⟩ := List.exists_cons_of_ne_nil hne
      have hx' := hhead x (by rw [hx]; rfl)
      intro hnil
      rw [hnil] at hx'
      cases hx'
    · by_cases hu : u = t
      · rw [hu]
        exact hst'
      · rw [hm.starts_iff hu]
        exact hno u
  starter := by
    intro u item hu
    have hut : u ≠ t := by
      rintro rfl
      exact hst' ⟨item, hu⟩
    rw [hm.txPc u hut] at hu
    obtain ⟨ha, hx, huniq⟩ := h.starter u item hu
    refine ⟨hact.trans ha, hhead item hx, fun v hv => ?_⟩
    have hvt : v ≠ t := by
      rintro rfl
      exact hst' hv
    exact huniq v ((hm.starts_iff hvt).mp hv)
  active := by
    rw [hact, hrun]
    intro ha
    rcases h.active ha with hr | ⟨u, hu⟩
    · exact Or.inl hr
    · have hut : u ≠ t := by
        rintro rfl
        exact hst hu
      exact Or.inr ⟨u, (hm.starts_iff hut).mpr hu⟩
  idle := by
    rw [hact]
    exact hidle

/-- A writer goes on in its push. -/
theorem TxInv.push (h : TxInv s) (hp : PushStep s.dq q t item) (hfits : Fits q.dq) (hfifo : Fifo q)
    (ht : ¬ JustPushed s t) (hst : ¬ Starts s t) : TxInv ((s.setDq q).goto t (.push item)) := by
  have htx : ∀ u, u ≠ t → ((s.setDq q).goto t (.push item)).txPc u = s.txPc u :=
    fun u hu => Function.update_of_ne hu ..
  have htxt : ((s.setDq q).goto t (.push item)).txPc t = .push item := Function.update_self ..
  have hst' : ¬ Starts ((s.setDq q).goto t (.push item)) t := by
    rintro ⟨i, hi⟩
    rw [htxt] at hi
    cases hi
  cases hp with
  | waits p hin hok hpc hdq hpu hpo =>
    have hm : Moves s ((s.setDq q).goto t (.push item)) t := by
      refine ⟨htx, fun u hu => ?_⟩
      show q.pc u = s.dq.pc u
      rw [hpc, Function.update_of_ne hu]
    have hitems : ((s.setDq q).goto t (.push item)).dq.dq.items = s.dq.dq.items :=
      congrArg RtDataQueue.items hdq
    refine h.moves hm hfits hfifo rfl rfl rfl rfl hpo ?_ hst hst' (fun x hx => by rw [hitems, hx])
      fun ha => ?_
    · rw [htxt]
      show InPush _ (q.pc t)
      rw [hpc, Function.update_self]
      exact hin
    · rw [hitems]
      rcases h.idle ha with hnil | ⟨u, hu⟩
      · exact Or.inl hnil
      · have hut : u ≠ t := by
          rintro rfl
          exact ht hu
        exact Or.inr ⟨u, (hm.justPushed_iff hut).mpr hu⟩
  | stored hfull heq =>
    subst heq
    have hm : Moves s ((s.setDq ((store s.dq item).goto t (.done rtEok))).goto t (.push item)) t :=
      ⟨htx, fun u hu => Function.update_of_ne hu ..⟩
    have hitems : (store s.dq item).dq.items = s.dq.dq.items ++ [item] := by
      have horder : s.dq.popped ++ (store s.dq item).dq.items = s.dq.pushed ++ [item] := hfifo.order
      rw [← h.fifo.order, List.append_assoc] at horder
      exact List.append_cancel_left horder
    have hpc : ((s.setDq ((store s.dq item).goto t (.done rtEok))).goto t (.push item)).dq.pc t =
        .done rtEok := Function.update_self ..
    refine h.moves hm hfits hfifo rfl rfl rfl rfl rfl ?_ hst hst' (fun x => head_store hitems) ?_
    · rw [htxt, hpc]
      trivial
    · intro _
      exact Or.inr ⟨t, item, Or.inr ⟨htxt, hpc⟩⟩

/-- The push of the writer returns. -/
theorem TxInv.pushReturns (h : TxInv s) {r : Int} (htx : s.txPc t = .push item)
    (hpc : s.dq.pc t = .done r) (hfifo : Fifo (s.dq.goto t .user)) :
    TxInv ((s.setDq (s.dq.goto t .user)).goto t (if r = rtEok then .pushed item else .user)) := by
  have hm : Moves s ((s.setDq (s.dq.goto t .user)).goto t
      (if r = rtEok then .pushed item else .user)) t :=
    ⟨fun u hu => Function.update_of_ne hu .., fun u hu => Function.update_of_ne hu ..⟩
  have htx' : ((s.setDq (s.dq.goto t .user)).goto t
      (if r = rtEok then .pushed item else .user)).txPc t =
        if r = rtEok then .pushed item else .user :=
    Function.update_self ..
  have hpc' : ((s.setDq (s.dq.goto t .user)).goto t
      (if r = rtEok then .pushed item else .user)).dq.pc t = .user := Function.update_self ..
  refine h.moves hm h.fits hfifo rfl rfl rfl rfl rfl ?_ ?_ ?_ (fun x hx => hx) fun ha => ?_
  · rw [htx', hpc']
    split <;> rfl
  · rintro ⟨i, hi⟩
    rw [htx] at hi
    cases hi
  · rintro ⟨i, hi⟩
    rw [htx'] at hi
    split at hi <;> cases hi
  · rcases h.idle ha with hnil | ⟨u, hu⟩
    · exact Or.inl hnil
    · refine Or.inr ⟨u, ?_⟩
      by_cases hut : u = t
      · subst hut
        obtain ⟨i, hi | ⟨-, hd⟩⟩ := hu
        · rw [htx] at hi
          cases hi
        · rw [hpc] at hd
          cases hd
          exact ⟨item, Or.inl (htx'.trans (if_pos rfl))⟩
      · exact (hm.justPushed_iff hut).mpr hu

/-- Behind its push, the writer finds a transfer activated. -/
theorem TxInv.leaves (h : TxInv s) (htx : s.txPc t = .pushed item) (ha : s.activated = true) :
    TxInv (s.goto t .user) := by
  have hm : Moves s (s.goto t .user) t := ⟨fun u hu => Function.update_of_ne hu .., fun _ _ => rfl⟩
  have htx' : (s.goto t .user).txPc t = .user := Function.update_self ..
  refine h.moves hm h.fits h.fifo rfl rfl rfl rfl rfl ?_ ?_ ?_ (fun x hx => hx) fun hn => ?_
  · have hpc := h.pcs t
    rw [htx] at hpc
    rw [htx']
    exact hpc
  · rintro ⟨i, hi⟩
    rw [htx] at hi
    cases hi
  · rintro ⟨i, hi⟩
    rw [htx'] at hi
    cases hi
  · rw [ha] at hn
    cases hn

/-- Where no transfer is activated, none is running and none is about to start. -/
theorem TxInv.quiet (h : TxInv s) (ha : s.activated = false) :
    s.running = false ∧ ∀ u, ¬ Starts s u := by
  constructor
  · refine Bool.eq_false_iff.mpr fun hr => ?_
    rw [(h.runs hr).1] at ha
    cases ha
  · rintro u ⟨i, hi⟩
    rw [(h.starter u i hi).1] at ha
    cases ha

/-- It finds none, and is to start one; its item is the head of the queue. -/
theorem TxInv.takesOver (h : TxInv s) (htx : s.txPc t = .pushed item) (ha : s.activated = false)
    (hhead : s.dq.dq.items.head? = some item) :
    TxInv ({ s with activated := true }.goto t (.start item)) := by
  obtain ⟨hrun, hno⟩ := h.quiet ha
  have htx' : ({ s with activated := true }.goto t (.start item)).txPc t = .start item :=
    Function.update_self ..
  have hstarts : ∀ u, Starts ({ s with activated := true }.goto t (.start item)) u → u = t := by
    intro u hu
    by_contra hut
    exact hno u ((starts_goto hut).mp hu)
  refine ⟨h.fits, h.fifo, h.single, fun u => ?_, h.sent, fun hr => ?_, fun u i hu => ?_,
    fun _ => Or.inr ⟨t, item, htx'⟩, fun hn => ?_⟩
  · by_cases hut : u = t
    · subst hut
      have hpc := h.pcs u
      rw [htx] at hpc
      rw [htx']
      exact hpc
    · show InPush (Function.update s.txPc t (TxPc.start item) u) _
      rw [Function.update_of_ne hut]
      exact h.pcs u
  · have hr' : s.running = true := hr
    rw [hrun] at hr'
    cases hr'
  · obtain rfl := hstarts u ⟨i, hu⟩
    rw [htx'] at hu
    cases hu
    exact ⟨rfl, hhead, hstarts⟩
  · cases hn

/-- It starts the transfer. -/
theorem TxInv.starts (h : TxInv s) (htx : s.txPc t = .start item) :
    TxInv ((dmaTransmit s item).goto t .user) := by
  obtain ⟨ha, hhead, huniq⟩ := h.starter t item htx
  obtain ⟨l, hl⟩ := List.head?_eq_some_iff.mp hhead
  have hrun : s.running = false :=
    Bool.eq_false_iff.mpr fun hr => (h.runs hr).2.2 t ⟨item, htx⟩
  have htx' : ((dmaTransmit s item).goto t .user).txPc t = .user := Function.update_self ..
  have hno : ∀ u, ¬ Starts ((dmaTransmit s item).goto t .user) u := by
    rintro u ⟨i, hi⟩
    by_cases hut : u = t
    · rw [hut, htx'] at hi
      cases hi
    · exact hut (huniq u ((starts_goto hut).mp ⟨i, hi⟩))
  refine ⟨h.fits, ⟨h.fifo.order, h.fifo.room⟩, ?_, fun u => ?_, ?_, fun _ => ⟨ha, ?_, hno⟩,
    fun u i hu => absurd ⟨i, hu⟩ (hno u), fun _ => Or.inl rfl, fun hn => ?_⟩
  · show (s.clash || s.running) = false
    rw [h.single, hrun]
    rfl
  · by_cases hut : u = t
    · subst hut
      have hpc := h.pcs u
      rw [htx] at hpc
      rw [htx']
      exact hpc
    · show InPush (Function.update s.txPc t TxPc.user u) _
      rw [Function.update_of_ne hut]
      exact h.pcs u
  · have hs := h.sent
    rw [hrun, if_neg Bool.false_ne_true, List.append_nil] at hs
    show s.sent ++ [item] = s.dq.popped ++ s.dq.dq.items.take 1
    rw [hs, hl]
    rfl
  · rw [show ((dmaTransmit s item).goto t .user).dq.dq.items = s.dq.dq.items from rfl, hl]
    exact List.cons_ne_nil item l
  · have hn' : s.activated = false := hn
    rw [ha] at hn'
    cases hn'

/-- The transfer is done: the head goes off the queue, and the next one is started. -/
theorem TxInv.done (h : TxInv s) (hr : s.running = true) (hd : txDmaDone s = some s')
    (hfits : Fits (fetch s.dq).dq) (hfifo : Fifo (fetch s.dq)) : TxInv s' := by
  obtain ⟨-, hne, hno⟩ := h.runs hr
  have hsome : s.dq.dq.getIndex ≠ s.dq.dq.putIndex := fun he => hne ((items_eq_nil h.fits).mpr he)
  have hsent := h.sent
  rw [hr, if_pos rfl, items_fetch h.fits hsome, List.take_succ_cons, List.take_zero] at hsent
  simp only [txDmaDone, dqStep, if_neg hsome, Option.map_some, Option.some.injEq] at hd
  split at hd
  · next hempty =>
    subst hd
    have hnil := (items_eq_nil hfits).mpr hempty
    refine ⟨hfits, hfifo, h.single, h.pcs, ?_, fun hn => (by cases hn), ?_,
      fun hn => (by cases hn), fun _ => Or.inl hnil⟩
    · show s.sent = (fetch s.dq).popped ++ []
      rw [hsent, List.append_nil]
      rfl
    · intro u i hu
      exact absurd ⟨i, hu⟩ (hno u)
  · next hmore =>
    subst hd
    have hnext := items_fetch hfits hmore
    refine ⟨hfits, hfifo, ?_, h.pcs, ?_, fun _ => ⟨rfl, ?_, hno⟩, ?_, fun _ => Or.inl rfl,
      fun hn => (by cases hn)⟩
    · show (s.clash || false) = false
      rw [h.single]
      rfl
    · show s.sent ++ [_] = (fetch s.dq).popped ++ (fetch s.dq).dq.items.take 1
      rw [hsent, hnext]
      rfl
    · show (fetch s.dq).dq.items ≠ []
      rw [hnext]
      exact List.cons_ne_nil _ _
    · intro u i hu
      exact absurd ⟨i, hu⟩ (hno u)

theorem TxInv.goOn (h : TxInv s) {act : TxAct} (hact : act = .goOn) (hc : StartsHead s act)
    (hs : serialDmaTx s = some s') : TxInv s' := by
  subst hact
  simp only [serialDmaTx] at hs
  split at hs
  · cases hs
  · next item htx =>
    obtain ⟨q, hq, rfl⟩ := Option.map_eq_some_iff.mp hs
    have hfits := (h.fits.step hq).1
    have hfifo := h.fifo.step h.fits (hc.room .goOn (by simp only [dqAct, htx, Option.mem_def])) hq
    split
    · next r hpc =>
      have hg : q = s.dq.goto s.dq.kern.current .user := by
        simp only [dqStep, DataQueue.goOn, hpc] at hq
        exact (Option.some.inj hq).symm
      subst hg
      exact h.pushReturns htx hpc hfifo
    · next hnd =>
      have hin := h.pcs s.dq.kern.current
      rw [htx] at hin
      have hgoto : s.setDq q = (s.setDq q).goto s.dq.kern.current (.push item) := by
        rw [TxSys.goto, TxSys.setDq, ← htx, Function.update_eq_self]
      rw [hgoto]
      refine h.push (pushStep_goOn hin hnd hq) hfits hfifo ?_ ?_
      · rintro ⟨i, hi | ⟨-, hd⟩⟩
        · rw [htx] at hi
          cases hi
        · exact hnd rtEok hd
      · rintro ⟨i, hi⟩
        rw [htx] at hi
        cases hi
  · next item htx =>
    split at hs
    · next ha =>
      cases hs
      exact h.leaves htx ha
    · next ha =>
      cases hs
      have ha' := Bool.eq_false_iff.mpr ha
      have hmem : item ∈ SerialTx.takesOver s .goOn := by
        simp only [SerialTx.takesOver, htx, ha', Bool.false_eq_true, if_false, Option.mem_def]
      exact h.takesOver htx ha' (hc.head item hmem)
  · next item htx =>
    cases hs
    exact h.starts htx

theorem TxInv.step (h : TxInv s) {act : TxAct} (hc : StartsHead s act)
    (hs : txStep s act = some s') : TxInv s' := by
  cases act with
  | preempt u =>
    obtain ⟨q, hq, rfl⟩ := Option.map_eq_some_iff.mp hs
    have hfifo := h.fifo.step h.fits (hc.room _ rfl) hq
    simp only [dqStep] at hq
    split at hq <;> cases hq
    exact ⟨h.fits, hfifo, h.single, h.pcs, h.sent, h.runs, h.starter, h.active, h.idle⟩
  | write item =>
    simp only [txStep] at hs
    split at hs
    · next htx =>
      obtain ⟨q, hq, rfl⟩ := Option.map_eq_some_iff.mp hs
      have hpc := h.pcs s.dq.kern.current
      rw [htx] at hpc
      have hfits := (h.fits.step hq).1
      have hfifo := h.fifo.step h.fits (hc.room _ rfl) hq
      have hpush : rtDataQueuePush s.dq item (-1) = some q := by
        simp only [dqStep, show s.dq.pc s.dq.kern.current = .user from hpc] at hq
        exact hq
      refine h.push (pushStep_push hpush) hfits hfifo ?_ ?_
      · rintro ⟨i, hi | ⟨hi, -⟩⟩ <;> rw [htx] at hi <;> cases hi
      · rintro ⟨i, hi⟩
        rw [htx] at hi
        cases hi
    · cases hs
  | goOn => exact h.goOn rfl hc hs
  | dmaDone =>
    simp only [txStep] at hs
    split at hs
    · next hr =>
      have hsome : s.dq.dq.getIndex ≠ s.dq.dq.putIndex :=
        fun he => (h.runs hr).2.1 ((items_eq_nil h.fits).mpr he)
      have hq : dqStep s.dq .isrPop = some (fetch s.dq) := by
        simp only [dqStep, if_neg hsome]
      exact h.done hr hs (h.fits.step hq).1 (h.fifo.step h.fits (hc.room _ rfl) hq)
    · cases hs

end Inv

theorem txOpen_inv (queue : Nat → RtDataItem) (priority : Nat → Nat) :
    TxInv (txOpen queue priority) where
  fits := init_fits (by decide) (by decide)
  fifo := init_fifo
  single := rfl
  pcs := fun _ => rfl
  sent := rfl
  runs := fun h => (by cases h)
  starter := fun _ _ h => (by cases h)
  active := fun h => (by cases h)
  idle := fun _ => Or.inl ((items_eq_nil (init_fits (by decide) (by decide))).mpr rfl)

/-- **When the DMA sends every buffer once.** In every run in which each writer that starts a
transfer has the head of the queue, and each push finds room, the buffers given to the DMA are the
first of the pushed ones, in order; the others are in the queue and go on being sent, a transfer is
started only when none runs, and `activated` is cleared only with the queue empty, or with a writer
behind its push that is still to look at it. -/
theorem tx_exact (queue : Nat → RtDataItem) (priority : Nat → Nat) (acts : List TxAct) (s : TxSys)
    (hx : exec txStep (txOpen queue priority) acts = some s)
    (hc : Along txStep StartsHead (txOpen queue priority) acts) : Exact s :=
  (Along.inv (I := TxInv) (fun _ _ _ h hr hs => h.step hr hs) hc hx
    (txOpen_inv queue priority)).exact

def idleTx : TxSys := txOpen (fun _ => ⟨0, 0⟩) (fun _ => 0)

/-- The second writer pushes while the buffer of the first one is sent. -/
def inTurn : List TxAct :=
  [.write ⟨1, 4⟩, .goOn, .goOn, .goOn, .preempt 1, .write ⟨2, 4⟩, .goOn, .goOn, .dmaDone]

theorem tx_exact_inTurn : ∃ s, exec txStep idleTx inTurn = some s ∧ s.sent = [⟨1, 4⟩, ⟨2, 4⟩] ∧
    Exact s := by
  have hx : (exec txStep idleTx inTurn).map TxSys.sent = some [⟨1, 4⟩, ⟨2, 4⟩] := by decide +kernel
  obtain ⟨s, hs, hsent⟩ := Option.map_eq_some_iff.mp hx
  exact ⟨s, hs, hsent, tx_exact _ _ inTurn s hs (by decide +kernel)⟩

/-- Between the push of the first writer and its section, the second writer pushes, and starts its
own buffer. -/
def overtaken : List TxAct :=
  [.write ⟨1, 4⟩, .preempt 1, .write ⟨2, 4⟩, .goOn, .goOn, .goOn, .dmaDone]

/-- The buffer of the second writer is sent twice, and that of the first one never. -/
theorem overtaken_sent : ∃ s, exec txStep idleTx overtaken = some s ∧
    s.dq.pushed = [⟨1, 4⟩, ⟨2, 4⟩] ∧ s.sent = [⟨2, 4⟩, ⟨2, 4⟩] ∧ ¬ Exact s := by
  have hx : (exec txStep idleTx overtaken).map (fun s => (s.dq.pushed, s.sent)) =
      some ([⟨1, 4⟩, ⟨2, 4⟩], [⟨2, 4⟩, ⟨2, 4⟩]) := by decide +kernel
  obtain ⟨s, hs, he⟩ := Option.map_eq_some_iff.mp hx
  obtain ⟨hpu, hsent⟩ := Prod.mk.inj he
  refine ⟨s, hs, hpu, hsent, fun h => ?_⟩
  have horder := h.order
  rw [hpu, hsent] at horder
  injection horder with hfirst
  revert hfirst
  decide

end Tudu.SerialTx
