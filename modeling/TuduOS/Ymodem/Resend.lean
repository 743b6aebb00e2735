import Mathlib.Data.List.Chain
import TuduOS.Ymodem.Packet

/-!
# A file over a line that loses answers

The header of the file has been received, and `_rym_do_trans` answers it. The sender numbers the
header 0 and the blocks from 1 on; it goes on with what comes next when it takes an `ACK`, and sends
the same once more whenever it likes, since the `ACK` may be lost or late. Nothing it sends is lost.

* `sched` is what the sender and the channel do before each read of the receiver. Every order of
  losses, of late answers and of repeated blocks is one of these lists.
* The ghost `again` counts the blocks that were sent again.

The receiver looks at the number of a packet only to ignore the header sent again; it gives a
repeated block to `on_data` once more. `rymDoTrans_once`: a file is received as it is if and only if
no block is sent again.
-/

namespace Tudu.Ymodem

inductive SendAct where
  /-- The sender takes an `ACK`. -/
  | ack
  /-- The channel drops an `ACK`. -/
  | drop
  /-- The sender sends what it sent last once more. -/
  | resend
  deriving DecidableEq

structure Link where
  /-- The bytes on the line to the receiver. -/
  line : List Byte
  /-- The `ACK`s on the line to the sender. -/
  back : Nat
  /-- The number of what the sender sent last; behind the blocks it is that of `EOT`. -/
  idx : Nat
  sched : List (List SendAct)
  again : Nat

namespace File

/-- The block number `i`. -/
def blockAt (f : File) : Nat → Option Packet
  | 0 => none
  | i + 1 => f.blocks[i]?

/-- What goes over the line under the number `i`. -/
def frameAt (f : File) (i : Nat) : List Byte :=
  if i = 0 then f.header.frame 0
  else
    match f.blockAt i with
    | some p => p.frame (UInt8.ofNat i)
    | none => [rymCodeEot]

end File

namespace Link

def act (f : File) (s : Link) : SendAct → Link
  | .ack =>
    if s.back = 0 then s
    else if s.idx ≤ f.blocks.length then
      { s with line := s.line ++ f.frameAt (s.idx + 1), back := s.back - 1, idx := s.idx + 1 }
    else { s with back := s.back - 1 }
  | .drop => { s with back := s.back - 1 }
  | .resend =>
    { s with
      line := s.line ++ f.frameAt s.idx
      again := s.again + (f.blockAt s.idx).toList.length }

/-- What happens before a read. -/
def wait (f : File) (s : Link) : Link :=
  match s.sched with
  | [] => s
  | acts :: sched => { acts.foldl (act f) s with sched := sched }

/-- The header is sent, and has been received. -/
def start (sched : List (List SendAct)) : Link := ⟨[], 0, 0, sched, 0⟩

end Link

def linkPort (f : File) : Port Link where
  read := fun s n => ((s.wait f).line.take n, { s.wait f with line := (s.wait f).line.drop n })
  write := fun s b => if b = rymCodeAck then { s with back := s.back + 1 } else s

/-! ## The sender -/

/-- What the receiver has got, and what it is still to get: `got` are the blocks, `last` is the
number of what it read last, and `q` are the numbers of what is on the line. -/
structure Sends (f : File) (s : Link) (got : List Packet) (last : Nat) (q : List Nat) : Prop where
  line : s.line = q.flatMap f.frameAt
  chain : List.IsChain (fun a b => a ≤ b ∧ b ≤ a + 1) (last :: q)
  idx : (last :: q).getLast? = some s.idx
  count : (got ++ q.filterMap f.blockAt).length = (f.blocks.take s.idx).length + s.again
  order : s.again = 0 → got ++ q.filterMap f.blockAt = f.blocks.take s.idx

variable {f : File} {s s' : Link} {got : List Packet} {last i : Nat} {q : List Nat}

theorem take_succ_block (f : File) (i : Nat) :
    f.blocks.take (i + 1) = f.blocks.take i ++ (f.blockAt (i + 1)).toList :=
  List.take_add_one

/-- The number `j` is sent. -/
theorem Sends.push (h : Sends f s got last q) {j : Nat} (hj : s.idx ≤ j ∧ j ≤ s.idx + 1)
    (hline : s'.line = s.line ++ f.frameAt j) (hidx : s'.idx = j)
    (hcount : (f.blocks.take s.idx).length + s.again + (f.blockAt j).toList.length =
      (f.blocks.take j).length + s'.again)
    (horder : s'.again = 0 → s.again = 0 ∧
      f.blocks.take s.idx ++ (f.blockAt j).toList = f.blocks.take j) :
    Sends f s' got last (q ++ [j]) := by
  have hone : [j].filterMap f.blockAt = (f.blockAt j).toList := by
    cases hb : f.blockAt j <;> simp [hb]
  refine ⟨?_, ?_, ?_, ?_, fun ha => ?_⟩
  · rw [hline, h.line, List.flatMap_append, List.flatMap_singleton]
  · rw [← List.cons_append, List.isChain_append]
    refine ⟨h.chain, List.isChain_singleton j, fun x hx y hy => ?_⟩
    rw [h.idx] at hx
    cases hx
    cases hy
    exact hj
  · rw [← List.cons_append, List.getLast?_concat, hidx]
  · rw [List.filterMap_append, ← List.append_assoc, List.length_append, h.count, hone, hidx, hcount]
  · obtain ⟨ha', htake⟩ := horder ha
    rw [List.filterMap_append, ← List.append_assoc, h.order ha', hone, htake, hidx]

theorem Sends.act (h : Sends f s got last q) (a : SendAct) :
    ∃ q', Sends f (s.act f a) got last q' := by
  cases a with
  | ack =>
    simp only [Link.act]
    split
    · exact ⟨q, h⟩
    · split
      · refine ⟨q ++ [s.idx + 1], h.push ⟨Nat.le_succ _, Nat.le_refl _⟩ rfl rfl ?_ fun ha => ?_⟩
        · show _ = (f.blocks.take (s.idx + 1)).length + s.again
          rw [take_succ_block, List.length_append, Nat.add_right_comm]
        · exact ⟨ha, (take_succ_block f s.idx).symm⟩
      · exact ⟨q, h.line, h.chain, h.idx, h.count, h.order⟩
  | drop => exact ⟨q, h.line, h.chain, h.idx, h.count, h.order⟩
  | resend =>
    refine ⟨q ++ [s.idx], h.push ⟨Nat.le_refl _, Nat.le_succ _⟩ rfl rfl (Nat.add_assoc ..) ?_⟩
    intro ha
    obtain ⟨ha', hb⟩ := Nat.add_eq_zero_iff.mp ha
    exact ⟨ha', by rw [List.length_eq_zero_iff.mp hb, List.append_nil]⟩

theorem Sends.acts (h : Sends f s got last q) (as : List SendAct) :
    ∃ q', Sends f (as.foldl (Link.act f) s) got last q' := by
  induction as generalizing s q with
  | nil => exact ⟨q, h⟩
  | cons a as ih =>
    obtain ⟨q', h'⟩ := h.act a
    exact ih h'

theorem Sends.wait (h : Sends f s got last q) : ∃ q', Sends f (s.wait f) got last q' := by
  unfold Link.wait
  split
  · exact ⟨q, h⟩
  · next acts sched _ =>
    obtain ⟨q', h'⟩ := h.acts acts
    exact ⟨q', h'.line, h'.chain, h'.idx, h'.count, h'.order⟩

/-- The sender does not see what is on the line. -/
theorem act_line (f : File) (s : Link) (a : SendAct) (l : List Byte) :
    Link.act f { s with line := l ++ s.line } a =
      { s.act f a with line := l ++ (s.act f a).line } := by
  cases a with
  | ack =>
    simp only [Link.act]
    split
    · rfl
    · split
      · rw [List.append_assoc]
      · rfl
  | drop => rfl
  | resend => simp only [Link.act, List.append_assoc]

theorem acts_line (f : File) (as : List SendAct) (s : Link) (l : List Byte) :
    as.foldl (Link.act f) { s with line := l ++ s.line } =
      { as.foldl (Link.act f) s with line := l ++ (as.foldl (Link.act f) s).line } := by
  induction as generalizing s with
  | nil => rfl
  | cons a as ih => rw [List.foldl_cons, act_line, ih, List.foldl_cons]

theorem wait_line (f : File) (s : Link) (l : List Byte) :
    Link.wait f { s with line := l ++ s.line } =
      { s.wait f with line := l ++ (s.wait f).line } := by
  obtain ⟨line, back, idx, sched, again⟩ := s
  cases sched with
  | nil => rfl
  | cons acts sched =>
    exact congrArg (fun x : Link => { x with sched := sched })
      (acts_line f acts ⟨line, back, idx, acts :: sched, again⟩ l)

/-! ## The receiver -/

/-- The first thing on the line is taken off it. -/
theorem Sends.pop (h : Sends f s got last (i :: q)) :
    s.line = f.frameAt i ++ q.flatMap f.frameAt ∧
      Sends f { s with line := q.flatMap f.frameAt } (got ++ (f.blockAt i).toList) i q := by
  have hsplit : (i :: q).filterMap f.blockAt = (f.blockAt i).toList ++ q.filterMap f.blockAt := by
    rw [List.filterMap_cons]
    cases f.blockAt i <;> rfl
  refine ⟨h.line, rfl, h.chain.of_cons, ?_, ?_, fun ha => ?_⟩
  · have hidx := h.idx
    rwa [List.getLast?_cons_cons] at hidx
  · rw [List.append_assoc, ← hsplit]
    exact h.count
  · rw [List.append_assoc, ← hsplit]
    exact h.order ha

/-- Behind `EOT` there is no block on the line. -/
theorem Sends.eot (h : Sends f s got last (i :: q)) (hi : f.blocks.length < i) :
    got.length = f.blocks.length + s.again ∧ (s.again = 0 → got = f.blocks) := by
  have hsorted : (i :: q).Pairwise (· ≤ ·) :=
    List.isChain_iff_pairwise.mp (h.chain.of_cons.imp fun _ _ hab => hab.1)
  have hle : ∀ j ∈ i :: q, i ≤ j := by
    intro j hj
    rcases List.mem_cons.mp hj with rfl | hj
    · exact Nat.le_refl _
    · exact List.rel_of_pairwise_cons hsorted hj
  have hnone : ∀ j, i ≤ j → f.blockAt j = none := by
    intro j hj
    cases j with
    | zero => rfl
    | succ j => exact List.getElem?_eq_none (by omega)
  have hnil : (i :: q).filterMap f.blockAt = [] :=
    List.filterMap_eq_nil_iff.mpr fun j hj => hnone j (hle j hj)
  have hidx : i ≤ s.idx := by
    have hlast := h.idx
    rw [List.getLast?_cons_cons] at hlast
    exact hle s.idx (List.mem_of_getLast? hlast)
  have htake : f.blocks.take s.idx = f.blocks := List.take_of_length_le (by omega)
  have hcount := h.count
  have horder := h.order
  rw [hnil, List.append_nil, htake] at hcount horder
  exact ⟨hcount, horder⟩

section Receive

variable {onBegin : Option (List Call → List Byte → Byte)} {onData : List Call → List Byte → Byte}
  {c : RymCtx Link}

def dataCall (p : Packet) : Call := .onData p.data

/-- Only before the first block the receiver is in its stage `ESTABLISHED`. -/
def StageOf (c : RymCtx Link) (last : Nat) : Prop := c.stage = .established ↔ last = 0

/-- A turn of the loop fails, or has read `EOT`, or goes on with one block more or none. -/
inductive Turn (f : File) (c : RymCtx Link) (got : List Packet) : Option Int × RymCtx Link → Prop
  | error (err : Int) (c' : RymCtx Link) (h : err ≠ rtEok) : Turn f c got (some err, c')
  | done (c' : RymCtx Link) (hcalls : c'.calls = c.calls)
      (hcount : got.length = f.blocks.length + c'.dev.again)
      (horder : c'.dev.again = 0 → got = f.blocks) : Turn f c got (some rtEok, c')
  | goesOn (c' : RymCtx Link) (g : List Packet) (last : Nat) (q : List Nat)
      (hcalls : c'.calls = c.calls ++ g.map dataCall) (hs : Sends f c'.dev (got ++ g) last q)
      (hstage : StageOf c' last) : Turn f c got (none, c')

/-- The answer of `on_data`. -/
theorem Turn.answer {c' : RymCtx Link} {g : List Packet} (code : Byte)
    (hcalls : c'.calls = c.calls ++ g.map dataCall) (hs : Sends f c'.dev (got ++ g) last q)
    (hstage : StageOf c' last) : Turn f c got (rymAnswer (linkPort f) code c') := by
  unfold rymAnswer
  split
  · exact .error _ _ (by decide)
  · split
    · refine .goesOn _ g last q hcalls ?_ hstage
      exact ⟨hs.line, hs.chain, hs.idx, hs.count, hs.order⟩
    · exact .goesOn _ g last q hcalls hs hstage

/-- The two reads of a packet. -/
theorem read_packet (p : Packet) (n : Byte) (hs : Sends f s (got ++ (f.blockAt i).toList) i q) :
    ∃ s' q', (linkPort f).read { s with line := p.body n ++ s.line } (p.size + 4) = (p.body n, s') ∧
      Sends f s' (got ++ (f.blockAt i).toList) i q' := by
  obtain ⟨q', hs'⟩ := hs.wait
  refine ⟨s.wait f, q', ?_, hs'⟩
  simp only [linkPort, wait_line, ← p.length_body n, List.take_left, List.drop_left]

theorem turn_spec (h : Sends f c.dev got last q) (hstage : StageOf c last) :
    Turn f c got (rymTransTurn (linkPort f) ⟨onBegin, some onData⟩ c) := by
  obtain ⟨q1, h1⟩ := h.wait
  cases q1 with
  | nil =>
    have hread : (linkPort f).read c.dev 1 = ([], c.dev.wait f) := by
      have hline : (c.dev.wait f).line = [] := h1.line
      show (_, { c.dev.wait f with line := (c.dev.wait f).line.drop 1 }) = _
      rw [hline, List.take_nil, List.drop_nil, ← hline]
    rw [rymTransTurn_none hread]
    exact .error _ _ (by decide)
  | cons i q2 =>
    obtain ⟨hline, hpop⟩ := h1.pop
    have hrel : last ≤ i ∧ i ≤ last + 1 := h1.chain.rel
    have hread : ∀ {b l}, f.frameAt i = b :: l → (linkPort f).read c.dev 1 =
        ([b], { c.dev.wait f with line := l ++ q2.flatMap f.frameAt }) := by
      intro b l hb
      show (_, { c.dev.wait f with line := (c.dev.wait f).line.drop 1 }) = _
      rw [hline, hb]
      rfl
    by_cases hi : i = 0
    · have hlast : last = 0 := by omega
      have hframe : f.frameAt i = f.header.code :: f.header.body 0 := if_pos hi
      obtain ⟨s', q', hbody, hs'⟩ := read_packet f.header 0 hpop
      rw [rymTransTurn_again (hread hframe) hbody (hstage.mpr hlast)]
      subst hi
      rw [File.blockAt, Option.toList_none] at hs'
      exact .goesOn _ [] 0 q' (List.append_nil _).symm hs' ⟨fun _ => rfl, fun _ => hstage.mpr hlast⟩
    · cases hb : f.blockAt i with
      | none =>
        have hframe : f.frameAt i = rymCodeEot :: [] := by
          rw [File.frameAt, if_neg hi, hb]
        have hlen : f.blocks.length < i := by
          obtain ⟨k, rfl⟩ := Nat.exists_eq_succ_of_ne_zero hi
          exact Nat.lt_succ_of_le (List.getElem?_eq_none_iff.mp hb)
        obtain ⟨hcount, horder⟩ := h1.eot hlen
        rw [rymTransTurn_eot (hread hframe)]
        exact .done _ rfl hcount horder
      | some p =>
        have hframe : f.frameAt i = p.code :: p.body (UInt8.ofNat i) := by
          rw [File.frameAt, if_neg hi, hb]
          rfl
        have hnum : c.stage = .established → UInt8.ofNat i ≠ 0 := by
          intro hst
          have hlast := hstage.mp hst
          have hone : i = 1 := by omega
          rw [hone]
          decide
        obtain ⟨s', q', hbody, hs'⟩ := read_packet p (UInt8.ofNat i) hpop
        rw [hb, Option.toList_some] at hs'
        rw [rymTransTurn_packet (hread hframe) hbody hnum]
        exact Turn.answer _ rfl hs' ⟨fun hst => (by cases hst), fun h0 => absurd h0 hi⟩

/-- What `on_data` has got when the loop returns `RT_EOK`. -/
theorem transLoop_spec {fuel : Nat} {c' : RymCtx Link} (h : Sends f c.dev got last q)
    (hstage : StageOf c last)
    (hx : rymTransLoop (linkPort f) ⟨onBegin, some onData⟩ fuel c = some (rtEok, c')) :
    ∃ g, c'.calls = c.calls ++ g.map dataCall ∧
      (got ++ g).length = f.blocks.length + c'.dev.again ∧
      (c'.dev.again = 0 → got ++ g = f.blocks) := by
  induction fuel generalizing c got last q with
  | zero => cases hx
  | succ fuel ih =>
    have hturn : Turn f c got (rymTransTurn (linkPort f) ⟨onBegin, some onData⟩ c) :=
      turn_spec h hstage
    rw [rymTransLoop] at hx
    generalize rymTransTurn (linkPort f) ⟨onBegin, some onData⟩ c = r at hx hturn
    cases hturn with
    | error err c1 herr =>
      cases hx
      exact absurd rfl herr
    | done c1 hcalls hcount horder =>
      cases hx
      refine ⟨[], ?_, ?_, ?_⟩
      · rw [hcalls, List.map_nil, List.append_nil]
      · rw [List.append_nil]
        exact hcount
      · rw [List.append_nil]
        exact horder
    | goesOn c1 g last' q' hcalls hs hst =>
      obtain ⟨g', hcalls', hcount, horder⟩ := ih hs hst hx
      refine ⟨g ++ g', ?_, ?_, ?_⟩
      · rw [hcalls', hcalls, List.map_append, List.append_assoc]
      · rw [← List.append_assoc]
        exact hcount
      · rw [← List.append_assoc]
        exact horder

theorem start_sends (f : File) (sched : List (List SendAct)) : Sends f (Link.start sched) [] 0 [] :=
  ⟨rfl, List.isChain_singleton 0, rfl, rfl, fun _ => rfl⟩

end Receive

/-- **When a file is received as it is.** Whatever answers are lost, whenever the sender sends a
block again, and whatever `on_data` answers: if `_rym_do_trans` returns `RT_EOK`, `on_data` has got
the blocks of the file, each once and in order, if and only if no block was sent again. -/
theorem rymDoTrans_once (f : File) (sched : List (List SendAct))
    (onBegin : Option (List Call → List Byte → Byte)) (onData : List Call → List Byte → Byte)
    (fuel : Nat) (c c' : RymCtx Link) (hdev : c.dev = Link.start sched)
    (h : rymDoTrans (linkPort f) ⟨onBegin, some onData⟩ fuel c = some (rtEok, c')) :
    c'.calls = c.calls ++ f.blocks.map dataCall ↔ c'.dev.again = 0 := by
  have hs := start_sends f sched
  have hsends : Sends f { Link.start sched with back := 1 } [] 0 [] :=
    ⟨hs.line, hs.chain, hs.idx, hs.count, hs.order⟩
  have hputs : (rymPutchar (linkPort f) (rymPutchar (linkPort f) c rymCodeAck) rymCodeC).dev =
      { Link.start sched with back := 1 } := by
    show (linkPort f).write ((linkPort f).write c.dev rymCodeAck) rymCodeC = _
    rw [hdev]
    rfl
  obtain ⟨g, hcalls, hcount, horder⟩ := transLoop_spec
    (c := { rymPutchar (linkPort f) (rymPutchar (linkPort f) c rymCodeAck) rymCodeC with
      stage := .established }) (by rw [← hputs] at hsends; exact hsends)
    ⟨fun _ => rfl, fun _ => rfl⟩ h
  have hcalls' : c'.calls = c.calls ++ g.map dataCall := hcalls
  rw [hcalls', List.append_cancel_left_eq]
  constructor
  · intro hg
    have hlen := congrArg List.length hg
    rw [List.length_map, List.length_map] at hlen
    rw [List.nil_append] at hcount
    omega
  · intro ha
    rw [← horder ha, List.nil_append]

section OneBlock

def sevens : Packet := ⟨false, List.replicate 128 7, List.length_replicate⟩

/-- A file of one block. -/
def oneBlock : File := ⟨nameHeader false, [sevens], nameHeader_named false⟩

def ackData : Callbacks := ⟨none, some fun _ _ => rymCodeAck⟩

/-- `_rym_do_trans` on that file. -/
def oneBlockRun (sched : List (List SendAct)) : Option (Int × RymCtx Link) :=
  rymDoTrans (linkPort oneBlock) ackData 4 ⟨.establishing, fun _ => 0, Link.start sched, []⟩

variable {c : RymCtx Link} {b a : Nat} {l : List (List SendAct)}

/-- The block is all there is on the line. -/
theorem turn_sevens
    (hw : c.dev.wait oneBlock = ⟨sevens.frame 1, b, 1, [] :: l, a⟩) :
    ∃ c', rymTransTurn (linkPort oneBlock) ackData c = (none, c') ∧
      c'.dev = ⟨[], b + 1, 1, l, a⟩ ∧ c'.calls = c.calls ++ [dataCall sevens] := by
  have hcode : (linkPort oneBlock).read c.dev 1 =
      ([sevens.code], ⟨sevens.body 1, b, 1, [] :: l, a⟩) := by
    simp only [linkPort, hw]
    rfl
  have hbody : (linkPort oneBlock).read ⟨sevens.body 1, b, 1, [] :: l, a⟩
      (sevens.size + 4) = (sevens.body 1, ⟨[], b, 1, l, a⟩) := by
    rw [← sevens.length_body 1]
    simp only [linkPort, Link.wait, List.foldl_nil, List.take_length, List.drop_length]
  rw [rymTransTurn_packet hcode hbody (fun _ => by decide)]
  exact ⟨_, rfl, rfl, rfl⟩

/-- `EOT` is all there is. -/
theorem turn_last (hw : c.dev.wait oneBlock = ⟨[rymCodeEot], b, 2, l, a⟩) :
    ∃ c', rymTransTurn (linkPort oneBlock) ackData c = (some rtEok, c') ∧
      c'.dev = ⟨[], b, 2, l, a⟩ ∧ c'.calls = c.calls := by
  have hcode : (linkPort oneBlock).read c.dev 1 =
      ([rymCodeEot], ⟨[], b, 2, l, a⟩) := by
    simp only [linkPort, hw]
    rfl
  rw [rymTransTurn_eot hcode]
  exact ⟨_, rfl, rfl, rfl⟩

theorem oneBlockRun_eq (sched : List (List SendAct)) :
    oneBlockRun sched = rymTransLoop (linkPort oneBlock) ackData 4
      ⟨.established, fun _ => 0, ⟨[], 1, 0, sched, 0⟩, []⟩ := by
  have hc : rymCodeC ≠ rymCodeAck := by decide
  simp only [oneBlockRun, rymDoTrans, rymPutchar, linkPort, Link.start, if_true, if_neg hc]

end OneBlock

theorem oneBlock_once : ∃ c', oneBlockRun [[.ack], [], [.ack]] = some (rtEok, c') ∧
    (c'.calls = oneBlock.blocks.map dataCall ↔ c'.dev.again = 0) ∧ c'.dev.again = 0 := by
  obtain ⟨c1, h1, hd1, -⟩ := turn_sevens (c := ⟨.established, fun _ => 0,
    ⟨[], 1, 0, [[.ack], [], [.ack]], 0⟩, []⟩) (b := 0) (l := [[.ack]]) (a := 0) rfl
  obtain ⟨c2, h2, hd2, -⟩ := turn_last (c := c1) (b := 0) (l := []) (a := 0)
    (by rw [hd1]; rfl)
  have hr : oneBlockRun [[.ack], [], [.ack]] = some (rtEok, c2) := by
    rw [oneBlockRun_eq, rymTransLoop, h1]
    simp only [rymTransLoop, h2]
  exact ⟨c2, hr, rymDoTrans_once oneBlock _ none _ 4 _ c2 rfl hr, by rw [hd2]⟩

/-- The `ACK` of the block is dropped, and the block sent again. -/
theorem oneBlock_twice :
    ∃ c', oneBlockRun [[.ack], [], [.drop, .resend], [], [.ack]] = some (rtEok, c') ∧
      c'.calls = [dataCall sevens, dataCall sevens] ∧ c'.calls ≠ oneBlock.blocks.map dataCall := by
  obtain ⟨c1, h1, hd1, hc1⟩ := turn_sevens (c := ⟨.established, fun _ => 0,
    ⟨[], 1, 0, [[.ack], [], [.drop, .resend], [], [.ack]], 0⟩, []⟩) (b := 0)
    (l := [[.drop, .resend], [], [.ack]]) (a := 0) rfl
  obtain ⟨c2, h2, hd2, hc2⟩ := turn_sevens (c := c1) (b := 0) (l := [[.ack]]) (a := 1)
    (by rw [hd1]; rfl)
  obtain ⟨c3, h3, hd3, hc3⟩ := turn_last (c := c2) (b := 0) (l := []) (a := 1)
    (by rw [hd2]; rfl)
  have hcalls : c3.calls = [dataCall sevens, dataCall sevens] := by
    rw [hc3, hc2, hc1]
    rfl
  refine ⟨c3, ?_, hcalls, fun hc => ?_⟩
  · rw [oneBlockRun_eq, rymTransLoop, h1]
    simp only [rymTransLoop, h2, h3]
  · rw [hcalls] at hc
    exact absurd (congrArg List.length hc) (by decide)

end Tudu.Ymodem
