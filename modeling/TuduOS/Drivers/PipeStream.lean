import TuduOS.Drivers.Pipe

/-!
# The byte stream of a pipe

* `Stream`: what a step may change of the bytes; `step_stream`: how it does.
* `StreamInv`: no byte is stored but accepted, returned, lost or in the fifo, and without a loss
  they are in order.
* `stream_iff`: up to the first read that returns 0, what was accepted was returned, just as long
  as the fifo is empty whenever a read returns 0 or a close destroys it (`Drained`).
-/

namespace Tudu.Pipe

open Lts RingBuffer

/-! ## The condition -/

/-- The thread is at the test of a read that finds no writer. -/
def Pc.ends (x : RtPipe) : Pc → Prop
  | .readBody _ _ => x.writers = 0
  | _ => False

/-- The thread destroys the fifo, or puts another in its place. -/
def Pc.drops (x : RtPipe) : Pc → Prop
  | .openBody _ _ => x.refCount = 0
  | .closeFifo => x.refCount = 1
  | .closeDelete => x.refCount = 0 ∧ x.isNamed = false
  | _ => False

/-- The step is the test of a read that finds no writer. -/
def Ends (s : PipeSys) : PipeAct → Prop
  | .reads _ => s.pipe.writers = 0
  | .goOn => (s.pc s.kern.current).ends s.pipe
  | _ => False

/-- The fifo goes in this step. -/
def Drops (s : PipeSys) : PipeAct → Prop
  | .goOn => (s.pc s.kern.current).drops s.pipe
  | _ => False

/-- Until a read has returned 0: the fifo is empty when one does, and when the fifo goes. -/
def Drained (s : PipeSys) (act : PipeAct) : Prop :=
  s.eof = none → Ends s act ∨ Drops s act → bytes s.pipe.fifo = []

/-! ## What a step does to the bytes -/

structure Stream where
  fifo : Option RtRingbuffer
  accepted : List UInt8
  returned : List UInt8
  lost : List UInt8
  eof : Option (List UInt8 × List UInt8)

def PipeSys.stream (s : PipeSys) : Stream := ⟨s.pipe.fifo, s.accepted, s.returned, s.lost, s.eof⟩

namespace Stream

def drop (x : Stream) (f : Option RtRingbuffer) : Stream :=
  { x with fifo := f, lost := x.lost ++ bytes x.fifo }

def finish (x : Stream) : Stream :=
  { x with eof := match x.eof with
    | none => some (x.returned, x.accepted)
    | some y => some y }

def get (x : Stream) (rb : RtRingbuffer) (ptr : Nat → UInt8) (length : UInt16) : Stream :=
  let r := rb.get ptr length
  { x with fifo := some r.1, returned := x.returned ++ (List.range r.2.1).map r.2.2 }

def put (x : Stream) (rb : RtRingbuffer) (ptr : Nat → UInt8) (length : UInt16) : Stream :=
  let r := rb.put ptr length
  { x with fifo := some r.1, accepted := x.accepted ++ (List.range r.2).map ptr }

end Stream

/-- The ways in which the bytes change. -/
inductive Moves (s : PipeSys) (act : PipeAct) : Stream → Prop where
  | stay (he : ¬ Ends s act) (hd : ¬ Drops s act) : Moves s act s.stream
  | finish (he : Ends s act) (hd : ¬ Drops s act) : Moves s act s.stream.finish
  | drop (he : ¬ Ends s act) (hd : Drops s act) (f : Option RtRingbuffer)
      (hf : ∀ rb, f = some rb → Holds rb []) : Moves s act (s.stream.drop f)
  | get (he : ¬ Ends s act) (hd : ¬ Drops s act) (rb : RtRingbuffer) (hf : s.pipe.fifo = some rb)
      (ptr : Nat → UInt8) (length : UInt16) : Moves s act (s.stream.get rb ptr length)
  | put (he : ¬ Ends s act) (hd : ¬ Drops s act) (rb : RtRingbuffer) (hf : s.pipe.fifo = some rb)
      (ptr : Nat → UInt8) (length : UInt16) : Moves s act (s.stream.put rb ptr length)

variable {s s' : PipeSys} {act : PipeAct} {p : Pc} {c : Call}

theorem rtRingbufferCreate_holds {size : Nat} {mem : Option (Nat → UInt8)} {rb : RtRingbuffer}
    (h : rtRingbufferCreate size mem = some (some rb)) : Holds rb [] := by
  unfold rtRingbufferCreate at h
  split at h
  · cases h
  · split at h
    · cases h
    · split at h
      · next hsize =>
        cases h
        exact holds_init _ (by omega) (by omega)
      · cases h

theorem call_stream (h : call s p = some s') : s'.stream = s.stream := by
  unfold call at h
  split at h <;> cases h
  rfl

theorem take_stream (h : s.take p = some s') : s'.stream = s.stream := by
  unfold PipeSys.take at h
  split at h <;> cases h
  rfl

theorem pipeFopsOpen_moves {m : AccMode} {mem : Option (Nat → UInt8)}
    (hp : s.pc s.kern.current = .openBody m mem) (h : pipeFopsOpen s m mem = some s') :
    Moves s .goOn s'.stream := by
  have he : ¬ Ends s .goOn := by
    rw [Ends, hp]
    exact id
  have hd : Drops s .goOn ↔ s.pipe.refCount = 0 := by
    rw [Drops, hp]
    exact Iff.rfl
  unfold pipeFopsOpen at h
  split at h
  · next href =>
    obtain ⟨f, hf, rfl⟩ := Option.map_eq_some_iff.mp h
    have hholds : ∀ rb, f = some rb → Holds rb [] := fun rb hrb =>
      rtRingbufferCreate_holds (hrb ▸ hf)
    have hm := Moves.drop he (hd.mpr href) f hholds
    split
    · exact hm
    · exact hm
  · next href =>
    cases h
    exact .stay he fun hn => href (hd.mp hn)

theorem pipeFopsRead_moves {again : Bool} (hp : s.pc s.kern.current = .readBody c again)
    (h : pipeFopsRead s c = some s') : Moves s .goOn s'.stream := by
  have he : Ends s .goOn ↔ s.pipe.writers = 0 := by
    rw [Ends, hp]
    exact Iff.rfl
  have hd : ¬ Drops s .goOn := by
    rw [Drops, hp]
    exact id
  unfold pipeFopsRead at h
  split at h
  · next hw =>
    cases h
    exact .finish (he.mpr hw) hd
  · next hw =>
    obtain ⟨rb, hf, rfl⟩ := Option.map_eq_some_iff.mp h
    have hm := Moves.get (fun hn => hw (he.mp hn)) hd rb hf c.buf c.count.toUInt16
    simp only
    split
    · exact hm
    · split <;> exact hm

theorem pipeFopsWrite_moves {ret : UInt32} {wakeup : Bool}
    (hp : s.pc s.kern.current = .writeBody c ret wakeup)
    (h : pipeFopsWrite s c ret wakeup = some s') : Moves s .goOn s'.stream := by
  have he : ¬ Ends s .goOn := by
    rw [Ends, hp]
    exact id
  have hd : ¬ Drops s .goOn := by
    rw [Drops, hp]
    exact id
  unfold pipeFopsWrite at h
  split at h
  · cases h
    exact .stay he hd
  · obtain ⟨rb, hf, rfl⟩ := Option.map_eq_some_iff.mp h
    have hm := Moves.put he hd rb hf (fun i => c.buf (ret.toNat + i)) (c.count - ret).toUInt16
    simp only
    split
    · exact hm
    · split <;> exact hm

theorem goOn_moves (h : goOn s = some s') : Moves s .goOn s'.stream := by
  unfold goOn at h
  generalize hp : s.pc s.kern.current = p at h
  have hstay : ¬ p.ends s.pipe → ¬ p.drops s.pipe → s'.stream = s.stream →
      Moves s .goOn s'.stream := by
    intro he hd hs
    rw [hs]
    subst hp
    exact .stay he hd
  cases p with
  | user => cases h
  | openTake _ _ | closeTake _ | readTake _ _ | writeTake _ _ _ => exact hstay id id (take_stream h)
  | openBody m mem => exact pipeFopsOpen_moves hp h
  | openOut _ | closeBody _ | closeOut | readUnlock _ | readKick _ | readWait _ | readWake _
  | readOut _ | writeUnlock _ _ | writeKick _ _ | writeWait _ _ | writeOut _ _ | ret _ =>
    cases h
    exact hstay id id rfl
  | closeWakeReader | closeWakeWriter | writeWake _ _ =>
    cases h
    refine hstay id id ?_
    split <;> rfl
  | closeFifo =>
    cases h
    have hd : Drops s .goOn ↔ s.pipe.refCount = 1 := by
      rw [Drops, hp]
      exact Iff.rfl
    by_cases href : s.pipe.refCount = 1
    · have he : ¬ Ends s .goOn := by
        rw [Ends, hp]
        exact id
      have hm := Moves.drop he (hd.mpr href) none fun rb hrb => by cases hrb
      simp only [closeFifo, if_pos href]
      exact hm
    · refine hstay id href ?_
      simp only [closeFifo, if_neg href]
      rfl
  | closeDelete =>
    cases h
    have hd : Drops s .goOn ↔ closesLast s = true := by
      rw [Drops, hp, closesLast, Bool.and_eq_true, decide_eq_true_eq, Bool.not_eq_true']
      exact Iff.rfl
    by_cases href : closesLast s = true
    · have he : ¬ Ends s .goOn := by
        rw [Ends, hp]
        exact id
      have hm := Moves.drop he (hd.mpr href) none fun rb hrb => by cases hrb
      rw [if_pos href]
      exact hm
    · refine hstay id ?_ ?_
      · rw [Drops, hp] at hd
        exact fun hn => href (hd.mp hn)
      · rw [if_neg href]
        rfl
  | readBody c again => exact pipeFopsRead_moves hp h
  | readSleep c =>
    simp only at h
    split at h <;> cases h
    exact hstay id id rfl
  | writeBody c ret wakeup => exact pipeFopsWrite_moves hp h
  | writeSleep c ret =>
    simp only at h
    split at h <;> cases h
    exact hstay id id rfl

theorem step_moves (h : pipeStep s act = some s') : Moves s act s'.stream := by
  unfold pipeStep at h
  split at h
  · cases act with
    | preempt u =>
      simp only at h
      split at h <;> cases h
      exact .stay id id
    | opens m mem =>
      rw [call_stream h]
      exact .stay id id
    | closes m =>
      rw [call_stream h]
      exact .stay id id
    | reads c =>
      simp only at h
      split at h
      · next hw =>
        rw [call_stream h]
        exact .finish hw id
      · next hw =>
        rw [call_stream h]
        exact .stay hw id
    | writes c =>
      simp only at h
      have hs : s'.stream = s.stream := by
        split at h
        · exact call_stream h
        · split at h <;> exact call_stream h
      rw [hs]
      exact .stay id id
    | goOn => exact goOn_moves h
  · cases h

/-! ## The invariant -/

/-- Every accepted byte was returned, is lost or is in the fifo. -/
structure StreamInv (x : Stream) : Prop where
  holds : ∀ rb, x.fifo = some rb → Holds rb (bytes x.fifo)
  count : x.accepted.length = x.returned.length + x.lost.length + (bytes x.fifo).length
  order : x.lost = [] → x.accepted = x.returned ++ bytes x.fifo

/-- Nothing is lost so far, or nothing was when a read returned 0. -/
def Stream.Kept (x : Stream) : Prop :=
  match x.eof with
  | none => x.lost = []
  | some y => y.1 = y.2

theorem bytes_of_holds {rb : RtRingbuffer} {q : List UInt8} (h : Holds rb q) :
    bytes (some rb) = q := by
  show Ring.contents rb.buffer rb.bufferSize rb.readIndex rb.dataLen = q
  rw [h.wf.dataLen]
  exact h.contents

namespace StreamInv

variable {x : Stream} {rb : RtRingbuffer} {ptr : Nat → UInt8} {length : UInt16}

theorem finish (h : StreamInv x) : StreamInv x.finish := ⟨h.holds, h.count, h.order⟩

theorem drop {f : Option RtRingbuffer} (h : StreamInv x) (hf : ∀ rb, f = some rb → Holds rb []) :
    StreamInv (x.drop f) := by
  have hnil : bytes f = [] := by
    cases f with
    | none => rfl
    | some rb => exact bytes_of_holds (hf rb rfl)
  refine ⟨fun rb hrb => ?_, ?_, fun hl => ?_⟩
  · show Holds rb (bytes f)
    rw [hnil]
    exact hf rb hrb
  · show x.accepted.length = x.returned.length + (x.lost ++ bytes x.fifo).length + (bytes f).length
    rw [h.count, hnil, List.length_append, List.length_nil]
    omega
  · obtain ⟨hl, hb⟩ := List.append_eq_nil_iff.mp hl
    show x.accepted = x.returned ++ bytes f
    rw [h.order hl, hb, hnil]

theorem get (h : StreamInv x) (hf : x.fifo = some rb) : StreamInv (x.get rb ptr length) := by
  have hq := h.holds rb hf
  generalize hb : bytes x.fifo = q at hq
  obtain ⟨hh, -, hlen, hmem⟩ := hq.get ptr length
  have htake : (List.range (rb.get ptr length).2.1).map (rb.get ptr length).2.2 =
      q.take (min length.toNat q.length) := by
    rw [hlen, hmem]
    refine List.ext_getElem (by simp) fun i h1 h2 => ?_
    rw [List.length_map, List.length_range] at h1
    rw [List.getElem_map, List.getElem_range, List.getElem_take, if_pos h1]
    exact (List.getElem_eq_getD 0).symm
  have hb' : bytes (some (rb.get ptr length).1) = q.drop (min length.toNat q.length) :=
    bytes_of_holds hh
  refine ⟨fun rb' hrb => ?_, ?_, fun hl => ?_⟩
  · cases hrb
    show Holds _ (bytes (some (rb.get ptr length).1))
    rw [hb']
    exact hh
  · show x.accepted.length = (x.returned ++ (List.range _).map _).length + x.lost.length +
      (bytes (some (rb.get ptr length).1)).length
    rw [hb', htake, h.count, hb, List.length_append, List.length_take, List.length_drop]
    omega
  · show x.accepted = (x.returned ++ (List.range _).map _) ++ bytes (some (rb.get ptr length).1)
    rw [hb', htake, h.order hl, hb, List.append_assoc, List.take_append_drop]

theorem put (h : StreamInv x) (hf : x.fifo = some rb) : StreamInv (x.put rb ptr length) := by
  have hq := h.holds rb hf
  generalize hb : bytes x.fifo = q at hq
  obtain ⟨hh, -, hlen⟩ := hq.put ptr length
  rw [← hlen] at hh
  have hb' : bytes (some (rb.put ptr length).1) =
      q ++ (List.range (rb.put ptr length).2).map ptr := bytes_of_holds hh
  refine ⟨fun rb' hrb => ?_, ?_, fun hl => ?_⟩
  · cases hrb
    show Holds _ (bytes (some (rb.put ptr length).1))
    rw [hb']
    exact hh
  · show (x.accepted ++ (List.range _).map _).length = x.returned.length + x.lost.length +
      (bytes (some (rb.put ptr length).1)).length
    rw [hb', List.length_append, List.length_append, h.count, hb]
    omega
  · show x.accepted ++ (List.range _).map _ = x.returned ++ bytes (some (rb.put ptr length).1)
    rw [hb', h.order hl, hb, List.append_assoc]

/-- What was accepted was returned just if nothing is lost, or in the fifo. -/
theorem returned_eq_accepted (h : StreamInv x) :
    x.returned = x.accepted ↔ x.lost = [] ∧ bytes x.fifo = [] := by
  constructor
  · intro he
    have hc := h.count
    rw [← he] at hc
    exact ⟨List.eq_nil_of_length_eq_zero (by omega), List.eq_nil_of_length_eq_zero (by omega)⟩
  · rintro ⟨hl, hb⟩
    rw [h.order hl, hb, List.append_nil]

end StreamInv

/-- A step keeps all bytes just when it meets the condition. -/
theorem StreamInv.step (h : StreamInv s.stream) (hs : pipeStep s act = some s') :
    StreamInv s'.stream ∧ (s'.stream.Kept ↔ s.stream.Kept ∧ Drained s act) := by
  have hout : ¬ Ends s act → ¬ Drops s act → Drained s act := fun he hd _ hor =>
    (hor.elim he hd).elim
  have hm := step_moves hs
  generalize s'.stream = y at hm
  cases hm with
  | stay he hd => exact ⟨h, (and_iff_left (hout he hd)).symm⟩
  | get he hd rb hf ptr length => exact ⟨h.get hf, (and_iff_left (hout he hd)).symm⟩
  | put he hd rb hf ptr length => exact ⟨h.put hf, (and_iff_left (hout he hd)).symm⟩
  | finish he hd =>
    refine ⟨h.finish, ?_⟩
    cases hx : s.eof with
    | none =>
      have hk : s.stream.Kept ↔ s.lost = [] := by
        simp only [Stream.Kept, PipeSys.stream, hx]
      have hk' : s.stream.finish.Kept ↔ s.returned = s.accepted := by
        simp only [Stream.Kept, Stream.finish, PipeSys.stream, hx]
      have hc : Drained s act ↔ bytes s.pipe.fifo = [] :=
        ⟨fun hc => hc hx (.inl he), fun hb _ _ => hb⟩
      rw [hk, hk', hc]
      exact h.returned_eq_accepted
    | some y =>
      have hk : s.stream.finish.Kept ↔ s.stream.Kept := by
        simp only [Stream.Kept, Stream.finish, PipeSys.stream, hx]
      rw [hk]
      exact (and_iff_left fun hn => by rw [hx] at hn; cases hn).symm
  | drop he hd f hf =>
    refine ⟨h.drop hf, ?_⟩
    cases hx : s.eof with
    | none =>
      have hk : s.stream.Kept ↔ s.lost = [] := by
        simp only [Stream.Kept, PipeSys.stream, hx]
      have hk' : (s.stream.drop f).Kept ↔ s.lost ++ bytes s.pipe.fifo = [] := by
        simp only [Stream.Kept, Stream.drop, PipeSys.stream, hx]
      have hc : Drained s act ↔ bytes s.pipe.fifo = [] :=
        ⟨fun hc => hc hx (.inr hd), fun hb _ _ => hb⟩
      rw [hk, hk', hc, List.append_eq_nil_iff]
    | some y =>
      have hk : (s.stream.drop f).Kept ↔ s.stream.Kept := by
        simp only [Stream.Kept, Stream.drop, PipeSys.stream, hx]
      rw [hk]
      exact (and_iff_left fun hn => by rw [hx] at hn; cases hn).symm

theorem StreamInv.init {bufsz : Nat} {isNamed : Bool} {priority : Nat → Nat} :
    StreamInv (rtPipeCreate bufsz isNamed priority).stream :=
  ⟨fun _ hrb => absurd hrb (Option.some_ne_none _).symm, rfl, fun _ => rfl⟩

/-- **The byte stream of a pipe.** In every run of any threads and descriptors, whatever the buffer
size and the counts: when a read returns 0 for the first time, the bytes that were returned are
those that were accepted, just if until then the fifo was empty at every such return and whenever it
was destroyed. -/
theorem stream_iff (bufsz : Nat) (isNamed : Bool) (priority : Nat → Nat) (acts : List PipeAct)
    (s : PipeSys) (returned accepted : List UInt8)
    (hx : exec pipeStep (rtPipeCreate bufsz isNamed priority) acts = some s)
    (he : s.eof = some (returned, accepted)) :
    returned = accepted ↔ Along pipeStep Drained (rtPipeCreate bufsz isNamed priority) acts := by
  have hiff := along_iff_last (C := Drained) (P := fun s => s.stream.Kept)
    (fun s a s' hi hs => StreamInv.step hi hs) hx StreamInv.init
  have hk : s.stream.Kept ↔ returned = accepted := by
    simp only [Stream.Kept, PipeSys.stream, he]
  rw [← hk, ← hiff]
  exact ⟨fun h => h.2, fun h => ⟨rfl, h⟩⟩

/-- A blocking call for one byte, a 7. -/
def oneByte : Call := ⟨false, fun _ => 7, 1⟩

def goOns (n : Nat) : List PipeAct := List.replicate n .goOn

/-- Thread 0 opens a reader and a writer. -/
def openRun : List PipeAct :=
  [.opens .rdonly (some fun _ => 0)] ++ goOns 4 ++ [.opens .wronly none] ++ goOns 4

/-- Thread 1 writes one byte. -/
def writeRun : List PipeAct := openRun ++ [.preempt 1, .writes oneByte] ++ goOns 5

/-- The writer is closed once the byte was read. -/
def readCloseRun : List PipeAct :=
  writeRun ++ [.preempt 0, .reads oneByte] ++ goOns 5 ++ [.preempt 1, .closes .wronly] ++
    goOns 8 ++ [.preempt 0, .reads oneByte]

theorem stream_readClose : ∃ s,
    exec pipeStep (rtPipeCreate 64 true fun _ => 0) readCloseRun = some s ∧
      s.eof = some ([7], [7]) ∧
        Along pipeStep Drained (rtPipeCreate 64 true fun _ => 0) readCloseRun := by
  have hx : (exec pipeStep (rtPipeCreate 64 true fun _ => 0) readCloseRun).map PipeSys.eof =
      some (some ([7], [7])) := by decide +kernel
  obtain ⟨s, hs, he⟩ := Option.map_eq_some_iff.mp hx
  exact ⟨s, hs, he, (stream_iff 64 true (fun _ => 0) readCloseRun s [7] [7] hs he).mp rfl⟩

/-- The writer is closed with the byte in the fifo. -/
def closeReadRun : List PipeAct :=
  writeRun ++ [.closes .wronly] ++ goOns 8 ++ [.preempt 0, .reads oneByte]

theorem closeReadRun_loses : ∃ s returned accepted,
    exec pipeStep (rtPipeCreate 64 true fun _ => 0) closeReadRun = some s ∧
      s.eof = some (returned, accepted) ∧ accepted = [7] ∧ returned ≠ accepted := by
  have hx : (exec pipeStep (rtPipeCreate 64 true fun _ => 0) closeReadRun).map PipeSys.eof =
      some (some ([], [7])) := by decide +kernel
  obtain ⟨s, hs, he⟩ := Option.map_eq_some_iff.mp hx
  exact ⟨s, [], [7], hs, he, rfl, by decide⟩

end Tudu.Pipe
