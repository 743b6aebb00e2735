import TuduOS.Ymodem.Packet

/-!
# A session without loss

The sender of a session sends one thing at a time, and waits for the answer to it: to a header
`ACK` and `C`, to a block `ACK`, to the first `EOT` `NAK`, to the second one `ACK` and `C`. It comes
too late for the first `late` `C` of the handshake.

* `rymDoRecv_accepts`: what a receiver needs to get every file of the session.
* `_rym_do_fin` reads a packet of 128 bytes behind the code of one of 1024, so that the header of
  the second file, or of a later one, has to be a small one.
-/

namespace Tudu.Ymodem

/-- What is sent at once, and the answers that are waited for behind it. -/
structure Item where
  frame : List Byte
  replies : List Byte

structure Sender where
  /-- The bytes on the line that have not been read. -/
  line : List Byte
  awaited : List Byte
  script : List Item

namespace Sender

/-- The first item of the script is sent. -/
def sendNext (s : Sender) : Sender :=
  match s.script with
  | [] => { s with awaited := [] }
  | i :: script => ⟨s.line ++ i.frame, i.replies, script⟩

def hear (s : Sender) (b : Byte) : Sender :=
  match s.awaited with
  | [] => s
  | a :: awaited =>
    if a ≠ b then s
    else if awaited = [] then s.sendNext
    else { s with awaited := awaited }

end Sender

def senderPort : Port Sender where
  read := fun s n => (s.line.take n, { s with line := s.line.drop n })
  write := Sender.hear

/-- The header that ends a session. -/
def emptyHeader (big : Bool) : Packet :=
  ⟨big, List.replicate (if big then 1024 else 128) 0, List.length_replicate⟩

structure Session where
  first : File
  rest : List File
  last : Bool
  late : Nat

/-- The blocks of a file, numbered from `k` on modulo 256. -/
def dataItems : Nat → List Packet → List Item
  | _, [] => []
  | k, p :: blocks => ⟨p.frame (UInt8.ofNat k), [rymCodeAck]⟩ :: dataItems (k + 1) blocks

/-- What is sent behind the header of a file. -/
def fileItems (f : File) (next : List Item) : List Item :=
  dataItems 1 f.blocks ++
    ⟨[rymCodeEot], [rymCodeNak]⟩ :: ⟨[rymCodeEot], [rymCodeAck, rymCodeC]⟩ :: next

def headerItem (p : Packet) (replies : List Byte) : Item := ⟨p.frame 0, replies⟩

/-- The files `fs`, and the end of the session. -/
def script (last : Bool) : List File → List Item
  | [] => [headerItem (emptyHeader last) [rymCodeAck]]
  | f :: fs => headerItem f.header [rymCodeAck, rymCodeC] :: fileItems f (script last fs)

namespace Session

def files (ss : Session) : List File := ss.first :: ss.rest

def start (ss : Session) : Sender :=
  ⟨[], List.replicate (ss.late + 1) rymCodeC, script ss.last ss.files⟩

end Session

/-- The callbacks that always answer `RYM_CODE_ACK`. -/
def ackCallbacks : Callbacks := ⟨some fun _ _ => rymCodeAck, some fun _ _ => rymCodeAck⟩

def blockCalls (f : File) : List Call := f.blocks.map fun p => .onData p.data

def fileCalls (f : File) : List Call := .onBegin f.header.data :: blockCalls f

/-! ## The property and the condition -/

variable (ss : Session) (clock : Nat → Nat) (ms100 : Nat) (mem : Option (Nat → Byte)) (tmSec : Nat)

/-- The property: the session is received, and each file goes to the callbacks, in order. -/
def Accepts : Prop :=
  ∃ n, ∀ fuel, n ≤ fuel → ∃ c,
    rymDoRecv senderPort ackCallbacks clock ms100 fuel mem ss.start tmSec = some (rtEok, c) ∧
      c.calls = ss.files.flatMap fileCalls

structure Receivable : Prop where
  /-- `rt_malloc` gives the buffer. -/
  memory : mem ≠ none
  /-- The sender hears a `C` before the handshake times out. -/
  answered : ss.late < tmSec
  /-- The clock does not wrap in the 100 ms behind the first code, and is read again within them. -/
  tick : clock 1 ≤ (clock 0 + ms100) % 4294967296
  small : ∀ f ∈ ss.rest, f.header.big = false

/-- The byte of a large header behind what `_rym_do_fin` reads of it is no code. -/
def File.Plain (f : File) : Prop :=
  f.header.big = true → ∀ b, f.header.data[130]? = some b → b ≠ rymCodeEot ∧ dataSz b = none

variable {ss clock ms100 mem tmSec}

/-! ## The sender -/

/-- The sender, when it has sent the first of the items. -/
def Sender.at : List Item → Sender
  | [] => ⟨[], [], []⟩
  | i :: items => ⟨i.frame, i.replies, items⟩

theorem senderPort_write (s : Sender) (b : Byte) : senderPort.write s b = s.hear b := rfl

theorem hear_last (a : Byte) (items : List Item) :
    Sender.hear ⟨[], [a], items⟩ a = Sender.at items := by
  cases items <;> simp [Sender.hear, Sender.sendNext, Sender.at]

theorem hear_more (a b : Byte) (l awaited : List Byte) (items : List Item) :
    Sender.hear ⟨l, a :: b :: awaited, items⟩ a = ⟨l, b :: awaited, items⟩ := by
  simp [Sender.hear]

section Turns

variable {cb : Callbacks} {c : RymCtx Sender} {b : Byte} {l replies : List Byte} {items : List Item}
  {p : Packet} {n : Byte}

theorem read_code (h : c.dev = ⟨b :: l, replies, items⟩) :
    senderPort.read c.dev 1 = ([b], ⟨l, replies, items⟩) := by
  rw [h]
  rfl

theorem read_body (p : Packet) (n : Byte) (l replies : List Byte) (items : List Item) :
    senderPort.read ⟨p.body n ++ l, replies, items⟩ (p.size + 4) =
      (p.body n, ⟨l, replies, items⟩) := by
  simp only [senderPort, ← p.length_body n, List.take_left, List.drop_left]

/-- A block goes to `on_data`, and is answered. -/
theorem turn_block (h : c.dev = ⟨p.frame n, [rymCodeAck], items⟩)
    (hn : c.stage = .established → n ≠ 0) :
    ∃ c', rymTransTurn senderPort ackCallbacks c = (none, c') ∧ c'.dev = Sender.at items ∧
      c'.stage = .transmitting ∧ c'.calls = c.calls ++ [.onData p.data] := by
  have hbody := read_body p n [] [rymCodeAck] items
  rw [List.append_nil] at hbody
  rw [rymTransTurn_packet (read_code h) hbody hn]
  exact ⟨_, rfl, hear_last rymCodeAck items, rfl, rfl⟩

theorem transLoop_blocks (blocks : List Packet) (next : List Item) (k : Nat) (c : RymCtx Sender)
    (h : c.dev = Sender.at (dataItems k blocks ++ ⟨[rymCodeEot], [rymCodeNak]⟩ :: next))
    (hn : c.stage = .established → UInt8.ofNat k ≠ 0) {fuel : Nat} (hf : blocks.length < fuel) :
    ∃ c', rymTransLoop senderPort ackCallbacks fuel c = some (rtEok, c') ∧
      c'.dev = ⟨[], [rymCodeNak], next⟩ ∧
      c'.calls = c.calls ++ blocks.map fun p => .onData p.data := by
  induction blocks generalizing k c fuel with
  | nil =>
    obtain ⟨fuel, rfl⟩ := Nat.exists_eq_add_of_lt hf
    refine ⟨{ c with buf := poke c.buf 0 [rymCodeEot], dev := ⟨[], [rymCodeNak], next⟩ }, ?_, rfl,
      (List.append_nil _).symm⟩
    rw [rymTransLoop, rymTransTurn_eot (read_code h)]
  | cons p blocks ih =>
    obtain ⟨fuel, rfl⟩ := Nat.exists_eq_add_of_lt hf
    have hle : blocks.length + 1 ≤ (p :: blocks).length + fuel := Nat.le_add_right _ _
    obtain ⟨c1, hturn, hdev, hstage, hcalls⟩ := turn_block h hn
    obtain ⟨c2, hloop, hdev', hcalls'⟩ := ih (k + 1) c1 hdev
      (fun hs => (by rw [hstage] at hs; cases hs)) (Nat.lt_of_lt_of_le (Nat.lt_succ_self _) hle)
    refine ⟨c2, ?_, hdev', ?_⟩
    · rw [rymTransLoop, hturn]
      exact hloop
    · rw [hcalls', hcalls, List.append_assoc]
      rfl

/-- The blocks of a file are received. -/
theorem doTrans_file {f : File} {next : List Item}
    (h : c.dev = ⟨[], [rymCodeAck, rymCodeC], fileItems f next⟩) {fuel : Nat}
    (hf : f.blocks.length < fuel) :
    ∃ c', rymDoTrans senderPort ackCallbacks fuel c = some (rtEok, c') ∧
      c'.dev = ⟨[], [rymCodeNak], ⟨[rymCodeEot], [rymCodeAck, rymCodeC]⟩ :: next⟩ ∧
      c'.calls = c.calls ++ blockCalls f := by
  refine transLoop_blocks f.blocks _ 1 _ ?_ (fun _ => by decide) hf
  show Sender.hear (Sender.hear c.dev rymCodeAck) rymCodeC = _
  rw [h, hear_more, hear_last]
  rfl

/-- `_rym_do_fin` up to its checks: 132 bytes of the header that follows are read. -/
theorem doFin_header {cb : Callbacks}
    (h : c.dev = ⟨[], [rymCodeNak], ⟨[rymCodeEot], [rymCodeAck, rymCodeC]⟩ ::
      headerItem p replies :: items⟩) :
    rymDoFin senderPort cb c = checkFin senderPort cb p.size 132
      ⟨.finishing, poke (poke (poke c.buf 0 [rymCodeEot]) 0 [p.code]) 1 ((p.body 0).take 132),
        ⟨(p.body 0).drop 132, replies, items⟩, c.calls⟩ := by
  have hlen : ((p.body 0).take 132).length = 132 := by
    rw [List.length_take, p.length_body, Packet.size]
    split <;> omega
  have heot : senderPort.read (senderPort.write c.dev rymCodeNak) 1 =
      ([rymCodeEot], ⟨[], [rymCodeAck, rymCodeC], headerItem p replies :: items⟩) := by
    rw [h]
    rw [senderPort_write, hear_last]
    rfl
  have hcode : senderPort.read (senderPort.write (senderPort.write ⟨[], [rymCodeAck, rymCodeC],
      headerItem p replies :: items⟩ rymCodeAck) rymCodeC) 1 =
        ([p.code], ⟨p.body 0, replies, items⟩) := by
    rw [senderPort_write, senderPort_write, hear_more, hear_last]
    rfl
  rw [rymDoFin_eq heot hcode rfl]
  exact congrArg (fun i => checkFin senderPort cb p.size i _) hlen

/-- The checks of `_rym_do_fin` on a small header. -/
theorem checkFin_small (h : Holds c.buf p 0) (hsmall : p.big = false)
    (hname : p.data.head? ≠ some 0) :
    checkFin senderPort ackCallbacks p.size 132 c =
      (rtEok, { c with calls := c.calls ++ [.onBegin p.data] }) := by
  have hsize : p.size = 128 := by rw [Packet.size, hsmall]; rfl
  have hdata := h.data
  have hcrc := h.crc
  have hfirst : c.buf 3 ≠ 0 := by
    rw [h.first] at hname
    exact fun h0 => hname (congrArg some h0)
  have hcompl : c.buf 2 = 0xFF := h.compl
  rw [hsize] at hdata hcrc ⊢
  simp only [checkFin, rymSohPkgSz, Nat.reduceAdd, Nat.reduceSub] at *
  simp [h.num, hcompl, hdata, hcrc, hfirst, ackCallbacks, callOnBegin]

/-- Those on the header of 128 zeros. -/
theorem checkFin_empty {sz : Nat} (h : Holds c.buf (emptyHeader false) 0) :
    checkFin senderPort ackCallbacks sz 132 c =
      (rtEok, rymPutchar senderPort { c with stage := .finished } rymCodeAck) := by
  have hdata : payload c.buf 128 = List.replicate 128 0 := h.data
  have hcrc : recvCrc (c.buf (128 + 3)) (c.buf (128 + 4)) = crc16 (List.replicate 128 0) := h.crc
  have hfirst : c.buf 3 = 0 := (Option.some.inj h.first).symm
  have hcompl : c.buf 2 = 0xFF := h.compl
  simp only [checkFin, rymSohPkgSz, Nat.reduceAdd, Nat.reduceSub] at *
  simp [h.num, hcompl, hdata, hcrc, hfirst]

/-- On a header that does not begin with zero: the session goes on with what is on the line, or
ends with an error. -/
theorem checkFin_dev {sz i : Nat} (hfirst : c.buf 3 ≠ 0) :
    (checkFin senderPort ackCallbacks sz i c).1 ≠ rtEok ∨
      ∃ c', checkFin senderPort ackCallbacks sz i c = (rtEok, c') ∧ c'.dev = c.dev ∧
        c'.stage = c.stage := by
  have hdsz : -rymErrDsz ≠ rtEok := by decide
  have hseq : -rymErrSeq ≠ rtEok := by decide
  have hcrc : -rymErrCrc ≠ rtEok := by decide
  unfold checkFin
  split
  · exact Or.inl hdsz
  · split
    · exact Or.inl hseq
    · split
      · exact Or.inl hcrc
      · rw [if_neg (fun h => h rfl)]
        exact Or.inr ⟨_, rfl, rfl, rfl⟩

/-- The header of a further file, a small one, is received. -/
theorem doFin_small {f : File}
    (h : c.dev = ⟨[], [rymCodeNak], ⟨[rymCodeEot], [rymCodeAck, rymCodeC]⟩ ::
      headerItem f.header replies :: items⟩) (hsmall : f.header.big = false) :
    ∃ c', rymDoFin senderPort ackCallbacks c = (rtEok, c') ∧ c'.dev = ⟨[], replies, items⟩ ∧
      c'.stage = .finishing ∧ c'.calls = c.calls ++ [.onBegin f.header.data] := by
  have hlen : (f.header.body 0).length = 132 := by
    rw [Packet.length_body, Packet.size, hsmall]
    rfl
  rw [doFin_header h, List.take_of_length_le (Nat.le_of_eq hlen),
    List.drop_of_length_le (Nat.le_of_eq hlen)]
  exact ⟨_, checkFin_small (holds_poke ..) hsmall f.named, rfl, rfl, rfl⟩

/-- The end of the session is received, whichever size its header has. -/
theorem doFin_last {last : Bool}
    (h : c.dev = ⟨[], [rymCodeNak], ⟨[rymCodeEot], [rymCodeAck, rymCodeC]⟩ :: script last []⟩) :
    ∃ c', rymDoFin senderPort ackCallbacks c = (rtEok, c') ∧ c'.stage = .finished ∧
      c'.calls = c.calls := by
  have hbody : ((emptyHeader last).body 0).take 132 = (emptyHeader false).body 0 := by
    have hz : ∀ big, (emptyHeader big).body 0 =
        0 :: 0xFF :: (List.replicate (if big then 1024 else 128) 0 ++ List.replicate 2 0) := by
      intro big
      rw [Packet.body, emptyHeader, crc16_zeros]
      rfl
    rw [hz, hz, ← List.replicate_add, ← List.replicate_add, List.take_succ_cons,
      List.take_succ_cons, List.take_replicate]
    cases last <;> rfl
  rw [doFin_header h, hbody]
  exact ⟨_, checkFin_empty (holds_poke ..), rfl, rfl⟩

/-- Behind a large header, 896 bytes of it are still on the line. -/
theorem doFin_large {f : File}
    (h : c.dev = ⟨[], [rymCodeNak], ⟨[rymCodeEot], [rymCodeAck, rymCodeC]⟩ ::
      headerItem f.header [rymCodeAck, rymCodeC] :: items⟩) (hlarge : f.header.big = true) :
    (rymDoFin senderPort ackCallbacks c).1 ≠ rtEok ∨
      ∃ c' b l, rymDoFin senderPort ackCallbacks c = (rtEok, c') ∧ c'.stage = .finishing ∧
        f.header.data[130]? = some b ∧ c'.dev = ⟨b :: l, [rymCodeAck, rymCodeC], items⟩ := by
  have hlen : f.header.data.length = 1024 := by rw [f.header.length_data, if_pos hlarge]
  have hfirst : poke (poke (poke c.buf 0 [rymCodeEot]) 0 [f.header.code]) 1
      ((f.header.body 0).take 132) 3 ≠ 0 := by
    have hname := f.named
    rw [List.head?_eq_getElem?, List.getElem?_eq_getElem (by omega)] at hname
    rw [poke_add _ 1 (j := 2) (b := f.header.data[0]) ?_]
    · exact fun h0 => hname (congrArg some h0)
    · rw [List.getElem?_take_of_lt (by decide), Packet.body, List.getElem?_cons_succ,
        List.getElem?_cons_succ, List.getElem?_append_left (by omega), List.getElem?_eq_getElem]
  rw [doFin_header h]
  generalize poke (poke (poke c.buf 0 [rymCodeEot]) 0 [f.header.code]) 1
    ((f.header.body 0).take 132) = buf at hfirst ⊢
  have hdev := @checkFin_dev ⟨.finishing, buf,
    ⟨(f.header.body 0).drop 132, [rymCodeAck, rymCodeC], items⟩, c.calls⟩ f.header.size 132 hfirst
  rcases hdev with hbad | ⟨c', hc', hdev, hstage⟩
  · exact Or.inl hbad
  · have hb : f.header.data[130]? = some f.header.data[130] := List.getElem?_eq_getElem (by omega)
    refine Or.inr ⟨c', f.header.data[130], ((f.header.body 0).drop 133), hc', hstage, hb, ?_⟩
    rw [hdev]
    refine congrArg (fun l => (⟨l, _, _⟩ : Sender)) ?_
    rw [List.drop_eq_getElem_cons (by rw [Packet.length_body, Packet.size, hlarge]; decide)]
    refine congrArg (· :: _) ?_
    simp only [Packet.body, List.getElem_cons_succ]
    exact List.getElem_append_left (by omega)

/-- A receiver that reads the rest of a large header finds no code. -/
theorem doTrans_rest (h : c.dev = ⟨b :: l, [rymCodeAck, rymCodeC], items⟩) (heot : b ≠ rymCodeEot)
    (hb : dataSz b = none) {fuel : Nat} (hf : 0 < fuel) :
    ∃ c', rymDoTrans senderPort ackCallbacks fuel c = some (-rymErrCode, c') := by
  obtain ⟨fuel, rfl⟩ := Nat.exists_eq_add_of_lt hf
  have hsent : ∃ l' r i, senderPort.write (senderPort.write c.dev rymCodeAck) rymCodeC =
      ⟨b :: l', r, i⟩ := by
    rw [h, senderPort_write, senderPort_write, hear_more]
    cases items with
    | nil => exact ⟨l, [], [], rfl⟩
    | cons i items => exact ⟨l ++ i.frame, i.replies, items, rfl⟩
  obtain ⟨l', r, i, hs⟩ := hsent
  rw [rymDoTrans, rymTransLoop, rymTransTurn_bad (read_code hs) heot hb]
  exact ⟨_, rfl⟩

end Turns

/-! ## The session -/

theorem recvLoop_files {last : Bool} (fs : List File) (f : File) (c : RymCtx Sender)
    (h : c.dev = ⟨[], [rymCodeAck, rymCodeC], fileItems f (script last fs)⟩)
    (hsmall : ∀ g ∈ fs, g.header.big = false) {fuel n : Nat}
    (hfuel : ∀ g ∈ f :: fs, g.blocks.length < fuel) (hn : fs.length < n) :
    ∃ c', rymRecvLoop senderPort ackCallbacks fuel n c = some (rtEok, c') ∧
      c'.calls = c.calls ++ (blockCalls f ++ fs.flatMap fileCalls) := by
  induction fs generalizing f c n with
  | nil =>
    obtain ⟨n, rfl⟩ := Nat.exists_eq_add_of_lt hn
    obtain ⟨c1, htrans, hdev, hcalls⟩ := doTrans_file h (hfuel f List.mem_cons_self)
    obtain ⟨c2, hfin, hstage, hcalls'⟩ := doFin_last hdev
    refine ⟨c2, ?_, ?_⟩
    · simp only [rymRecvLoop, htrans, hfin, hstage, ne_eq, not_true_eq_false, if_false, if_true]
    · rw [hcalls', hcalls, List.flatMap_nil, List.append_nil]
  | cons g fs ih =>
    obtain ⟨n, rfl⟩ := Nat.exists_eq_add_of_lt hn
    obtain ⟨c1, htrans, hdev, hcalls⟩ := doTrans_file h (hfuel f List.mem_cons_self)
    obtain ⟨c2, hfin, hdev', hstage, hcalls'⟩ := doFin_small hdev (hsmall g List.mem_cons_self)
    obtain ⟨c3, hloop, hcalls''⟩ := ih g c2 hdev' (fun x hx => hsmall x (List.mem_cons_of_mem _ hx))
      (fun x hx => hfuel x (List.mem_cons_of_mem _ hx))
      (n := (g :: fs).length + n) (Nat.lt_of_lt_of_le (Nat.lt_succ_self _) (Nat.le_add_right _ _))
    have hgo : ¬ (RymStage.finishing = .finished) := fun h => (by cases h)
    refine ⟨c3, ?_, ?_⟩
    · simp only [rymRecvLoop, htrans, hfin, hstage, ne_eq, not_true_eq_false, if_false, hgo, hloop]
    · rw [hcalls'', hcalls', hcalls, List.flatMap_cons, fileCalls]
      simp only [List.append_assoc, List.cons_append, List.nil_append]

/-- A large header behind the first file ends the session with an error. -/
theorem recvLoop_large {last : Bool} (fs : List File) (f : File) (c : RymCtx Sender)
    (h : c.dev = ⟨[], [rymCodeAck, rymCodeC], fileItems f (script last fs)⟩)
    (hplain : ∀ g ∈ fs, g.Plain) (hlarge : ∃ g ∈ fs, g.header.big = true) {fuel n : Nat}
    (hfuel : ∀ g ∈ f :: fs, g.blocks.length < fuel) (hn : fs.length < n) :
    ∃ err c', rymRecvLoop senderPort ackCallbacks fuel n c = some (err, c') ∧ err ≠ rtEok := by
  induction fs generalizing f c n with
  | nil =>
    obtain ⟨g, hg, -⟩ := hlarge
    cases hg
  | cons g fs ih =>
    obtain ⟨n, rfl⟩ := Nat.exists_eq_add_of_lt hn
    obtain ⟨c1, htrans, hdev, -⟩ := doTrans_file h (hfuel f List.mem_cons_self)
    have hn' : fs.length < (g :: fs).length + n :=
      Nat.lt_of_lt_of_le (Nat.lt_succ_self _) (Nat.le_add_right _ _)
    cases hbig : g.header.big with
    | false =>
      obtain ⟨c2, hfin, hdev', hstage, -⟩ := doFin_small hdev hbig
      have hlarge' : ∃ x ∈ fs, x.header.big = true := by
        obtain ⟨x, hx, hxb⟩ := hlarge
        rcases List.mem_cons.mp hx with rfl | hx
        · rw [hbig] at hxb
          cases hxb
        · exact ⟨x, hx, hxb⟩
      obtain ⟨err, c3, hloop, herr⟩ := ih g c2 hdev'
        (fun x hx => hplain x (List.mem_cons_of_mem _ hx)) hlarge'
        (fun x hx => hfuel x (List.mem_cons_of_mem _ hx)) hn'
      have hgo : ¬ (RymStage.finishing = .finished) := fun h => (by cases h)
      refine ⟨err, c3, ?_, herr⟩
      simp only [rymRecvLoop, htrans, hfin, hstage, ne_eq, not_true_eq_false, if_false, hgo, hloop]
    | true =>
      rcases doFin_large hdev hbig with hbad | ⟨c2, b, l, hfin, hstage, hb, hdev'⟩
      · refine ⟨_, (rymDoFin senderPort ackCallbacks c1).2, ?_, hbad⟩
        simp only [rymRecvLoop, htrans, ne_eq, not_true_eq_false, if_false, hbad, not_false_eq_true,
          if_true]
      · obtain ⟨heot, hcode⟩ := hplain g List.mem_cons_self hbig b hb
        obtain ⟨n', hn''⟩ := Nat.exists_eq_add_of_lt hn'
        have hpos := Nat.zero_lt_of_lt (hfuel f List.mem_cons_self)
        obtain ⟨c3, hrest⟩ := doTrans_rest hdev' heot hcode hpos
        have hgo : ¬ (RymStage.finishing = .finished) := fun h => (by cases h)
        have herr : -rymErrCode ≠ rtEok := by decide
        refine ⟨-rymErrCode, c3, ?_, herr⟩
        rw [hn'']
        simp only [rymRecvLoop, htrans, hfin, hstage, ne_eq, not_true_eq_false, if_false, hgo,
          hrest, herr, not_false_eq_true, if_true]

/-! ## The handshake -/

/-- The checks of the handshake on a header. -/
theorem checkHandshake_header {c : RymCtx Sender} {p : Packet} (h : Holds c.buf p 0) :
    checkHandshake ackCallbacks p.size (p.size + 4) c =
      (rtEok, { c with calls := c.calls ++ [.onBegin p.data] }) := by
  have hcompl : c.buf 2 = 0xFF := h.compl
  simp [checkHandshake, h.num, hcompl, h.data, h.crc, ackCallbacks, callOnBegin]

/-- The sender answers the `C` number `late + 1`, if there is one. -/
theorem waitPacket_spec {p : Packet} {replies : List Byte} {items : List Item} (late tmSec : Nat)
    (c : RymCtx Sender)
    (h : c.dev = ⟨[], List.replicate (late + 1) rymCodeC, headerItem p replies :: items⟩) :
    (late < tmSec → ∃ c', waitPacket senderPort tmSec c = (some p.size, c') ∧
      c'.dev = ⟨p.body 0, replies, items⟩ ∧ c'.calls = c.calls) ∧
    (tmSec ≤ late → ∃ c', waitPacket senderPort tmSec c = (none, c')) := by
  induction tmSec generalizing late c with
  | zero => exact ⟨fun hlt => absurd hlt (Nat.not_lt_zero _), fun _ => ⟨c, rfl⟩⟩
  | succ n ih =>
    cases late with
    | zero =>
      refine ⟨fun _ => ?_, fun hle => absurd hle (Nat.not_succ_le_zero _)⟩
      have hread : senderPort.read (rymPutchar senderPort c rymCodeC).dev 1 =
          ([p.code], ⟨p.body 0, replies, items⟩) := by
        show senderPort.read (senderPort.write c.dev rymCodeC) 1 = _
        rw [h, senderPort_write, List.replicate_one, hear_last]
        rfl
      rw [waitPacket, rymReadCode_some hread, p.dataSz_code]
      exact ⟨_, rfl, rfl, rfl⟩
    | succ late =>
      have hread : senderPort.read (rymPutchar senderPort c rymCodeC).dev 1 =
          ([], ⟨[], List.replicate (late + 1) rymCodeC, headerItem p replies :: items⟩) := by
        show senderPort.read (senderPort.write c.dev rymCodeC) 1 = _
        rw [h, senderPort_write, List.replicate_succ, List.replicate_succ, hear_more,
          ← List.replicate_succ]
        rfl
      have hnone : dataSz rymCodeNone = none := rfl
      rw [waitPacket, rymReadCode_none hread]
      simp only [hnone]
      obtain ⟨hgot, htmo⟩ := ih late { rymPutchar senderPort c rymCodeC with
        dev := ⟨[], List.replicate (late + 1) rymCodeC, headerItem p replies :: items⟩ } rfl
      exact ⟨fun hlt => hgot (Nat.lt_of_succ_lt_succ hlt),
        fun hle => htmo (Nat.le_of_succ_le_succ hle)⟩

/-- The first packet is read at once, if the clock allows it. -/
theorem readPacket_spec {p : Packet} {replies : List Byte} {items : List Item} {c : RymCtx Sender}
    (limit : Nat) (h : c.dev = ⟨p.body 0, replies, items⟩) {fuel : Nat} (hf : 1 < fuel) :
    (clock 1 ≤ limit → readPacket senderPort clock limit (p.size + 4) fuel 1 0 c =
      some (p.size + 4,
        { c with buf := poke c.buf 1 (p.body 0), dev := ⟨[], replies, items⟩ })) ∧
    (limit < clock 1 →
      readPacket senderPort clock limit (p.size + 4) fuel 1 0 c = some (0, c)) := by
  obtain ⟨m, rfl⟩ : ∃ m, fuel = m + 2 := ⟨fuel - 2, by omega⟩
  constructor
  · intro hle
    have hbody := read_body p 0 [] replies items
    rw [List.append_nil, ← h] at hbody
    have hlt : ¬ (clock 2 ≤ limit ∧ p.size + 4 < p.size + 4) := fun h => Nat.lt_irrefl _ h.2
    rw [readPacket, if_pos ⟨hle, Nat.succ_pos _⟩, rymReadData_eq hbody, p.length_body, Nat.zero_add,
      readPacket, if_neg hlt]
  · intro hlt
    rw [readPacket, if_neg (fun h => Nat.not_le_of_lt hlt h.1)]

/-! ## The whole session -/

/-- The fuel of a session. -/
def Session.fuel (ss : Session) : Nat :=
  ss.files.length + (ss.files.map fun f => f.blocks.length).foldr (· + ·) 0 + 2

theorem blocks_lt_fuel {f : File} (h : f ∈ ss.files) : f.blocks.length < ss.fuel := by
  have hle : ∀ fs : List File, f ∈ fs →
      f.blocks.length ≤ (fs.map fun f => f.blocks.length).foldr (· + ·) 0 := by
    intro fs
    induction fs with
    | nil => exact fun hf => absurd hf List.not_mem_nil
    | cons g fs ih =>
      intro hf
      rw [List.map_cons, List.foldr_cons]
      rcases List.mem_cons.mp hf with rfl | hf
      · exact Nat.le_add_right _ _
      · exact Nat.le_trans (ih hf) (Nat.le_add_left _ _)
  have hblocks := hle ss.files h
  unfold Session.fuel
  omega

/-- The handshake of a session, when its sender is heard and the clock allows it. -/
theorem handshake_session (buf : Nat → Byte) (hlate : ss.late < tmSec)
    (htick : clock 1 ≤ (clock 0 + ms100) % 4294967296) {fuel : Nat} (hf : 1 < fuel) :
    ∃ c, rymDoHandshake senderPort ackCallbacks clock ms100 fuel ⟨.none, buf, ss.start, []⟩ tmSec =
        some (rtEok, c) ∧
      c.dev = ⟨[], [rymCodeAck, rymCodeC], fileItems ss.first (script ss.last ss.rest)⟩ ∧
      c.calls = [.onBegin ss.first.header.data] := by
  obtain ⟨c1, hwait, hdev, hcalls⟩ :=
    (waitPacket_spec ss.late tmSec ⟨.establishing, buf, ss.start, []⟩ rfl).1 hlate
  have hread := (readPacket_spec _ hdev hf).1 htick
  refine ⟨⟨c1.stage, poke c1.buf 1 (ss.first.header.body 0),
    ⟨[], [rymCodeAck, rymCodeC], fileItems ss.first (script ss.last ss.rest)⟩,
    c1.calls ++ [.onBegin ss.first.header.data]⟩, ?_, rfl, ?_⟩
  · rw [rymDoHandshake, hwait]
    simp only [hread, Option.map_some]
    rw [checkHandshake_header (holds_poke ..)]
  · rw [hcalls]
    rfl

/-- A session that is not heard, or whose first packet meets the end of the clock. -/
theorem handshake_fails (buf : Nat → Byte)
    (h : tmSec ≤ ss.late ∨ (clock 0 + ms100) % 4294967296 < clock 1) {fuel : Nat} (hf : 1 < fuel) :
    ∃ err c, rymDoHandshake senderPort ackCallbacks clock ms100 fuel ⟨.none, buf, ss.start, []⟩
      tmSec = some (err, c) ∧ err ≠ rtEok := by
  have hspec := waitPacket_spec ss.late tmSec ⟨.establishing, buf, ss.start, []⟩ rfl
  by_cases hlate : ss.late < tmSec
  · have htick := h.resolve_left (Nat.not_le_of_lt hlate)
    obtain ⟨c1, hwait, hdev, -⟩ := hspec.1 hlate
    have hread := (readPacket_spec _ hdev hf).2 htick
    have herr : -rymErrDsz ≠ rtEok := by decide
    have hne : (0 : Nat) ≠ ss.first.header.size + 4 := (Nat.succ_ne_zero _).symm
    refine ⟨-rymErrDsz, c1, ?_, herr⟩
    rw [rymDoHandshake, hwait]
    simp only [hread, Option.map_some, checkHandshake, if_pos hne]
  · obtain ⟨c1, hwait⟩ := hspec.2 (Nat.le_of_not_lt hlate)
    have herr : -rymErrTmo ≠ rtEok := by decide
    refine ⟨-rymErrTmo, c1, ?_, herr⟩
    rw [rymDoHandshake, hwait]

theorem accepts_of_receivable (h : Receivable ss clock ms100 mem tmSec) :
    Accepts ss clock ms100 mem tmSec := by
  obtain ⟨buf, rfl⟩ := Option.ne_none_iff_exists'.mp h.memory
  refine ⟨ss.fuel, fun fuel hle => ?_⟩
  have hfuel : ss.files.length + 1 < fuel := by
    unfold Session.fuel at hle
    omega
  have hlen : ss.files.length = ss.rest.length + 1 := rfl
  obtain ⟨c1, hshake, hdev, hcalls⟩ := handshake_session buf h.answered h.tick
    (show 1 < fuel by omega)
  obtain ⟨c2, hloop, hcalls'⟩ := recvLoop_files ss.rest ss.first c1 hdev h.small
    (fun g hg => Nat.lt_of_lt_of_le (blocks_lt_fuel hg) hle) (show ss.rest.length < fuel by omega)
  refine ⟨c2, ?_, ?_⟩
  · simp only [rymDoRecv, hshake, ne_eq, not_true_eq_false, if_false, hloop]
  · rw [hcalls', hcalls]
    rfl

/-- Where one of the conditions fails, `_rym_do_recv` returns an error. -/
theorem recv_fails (hplain : ∀ f ∈ ss.rest, f.Plain) (h : ¬ Receivable ss clock ms100 mem tmSec)
    {fuel : Nat} (hle : ss.fuel ≤ fuel) :
    ∃ err c, rymDoRecv senderPort ackCallbacks clock ms100 fuel mem ss.start tmSec = some (err, c) ∧
      err ≠ rtEok := by
  have hfuel : ss.files.length + 1 < fuel := by
    unfold Session.fuel at hle
    omega
  have hlen : ss.files.length = ss.rest.length + 1 := rfl
  cases mem with
  | none => exact ⟨-rtEnomem, _, rfl, by decide⟩
  | some buf =>
    by_cases hshake : ss.late < tmSec ∧ clock 1 ≤ (clock 0 + ms100) % 4294967296
    · have hlarge : ∃ g ∈ ss.rest, g.header.big = true := by
        by_contra hno
        refine h ⟨fun hn => (by cases hn), hshake.1, hshake.2, fun f hf => ?_⟩
        exact Bool.eq_false_iff.mpr fun hb => hno ⟨f, hf, hb⟩
      obtain ⟨c1, hs, hdev, -⟩ := handshake_session buf hshake.1 hshake.2 (show 1 < fuel by omega)
      obtain ⟨err, c2, hloop, herr⟩ := recvLoop_large ss.rest ss.first c1 hdev hplain hlarge
        (fun g hg => Nat.lt_of_lt_of_le (blocks_lt_fuel hg) hle)
        (show ss.rest.length < fuel by omega)
      refine ⟨err, c2, ?_, herr⟩
      simp only [rymDoRecv, hs, ne_eq, not_true_eq_false, if_false, hloop]
    · have hbad : tmSec ≤ ss.late ∨ (clock 0 + ms100) % 4294967296 < clock 1 := by
        rcases Nat.lt_or_ge ss.late tmSec with hlt | hge
        · exact Or.inr (Nat.lt_of_not_le fun hle => hshake ⟨hlt, hle⟩)
        · exact Or.inl hge
      obtain ⟨err, c1, hs, herr⟩ := handshake_fails buf hbad (show 1 < fuel by omega)
      refine ⟨err, c1, ?_, herr⟩
      simp only [rymDoRecv, hs, herr, ne_eq, not_false_eq_true, if_true]

theorem not_accepts (hplain : ∀ f ∈ ss.rest, f.Plain) (h : ¬ Receivable ss clock ms100 mem tmSec) :
    ¬ Accepts ss clock ms100 mem tmSec := by
  rintro ⟨n, hn⟩
  obtain ⟨c, hc, -⟩ := hn (max n ss.fuel) (Nat.le_max_left _ _)
  obtain ⟨err, c', hc', herr⟩ := recv_fails hplain h (Nat.le_max_right n ss.fuel)
  rw [hc] at hc'
  cases hc'
  exact herr rfl

/-- **What a receiver needs to get a session.** A session whose further headers are small is
received, with every header and every block given to the callbacks once and in order. One with a
large further header is not, unless the header has the byte of a code in its place 130. -/
theorem rymDoRecv_accepts (ss : Session) (clock : Nat → Nat) (ms100 : Nat)
    (mem : Option (Nat → Byte)) (tmSec : Nat) :
    (Receivable ss clock ms100 mem tmSec → Accepts ss clock ms100 mem tmSec) ∧
    ((∀ f ∈ ss.rest, f.Plain) → Accepts ss clock ms100 mem tmSec →
      Receivable ss clock ms100 mem tmSec) := by
  refine ⟨accepts_of_receivable, fun hplain hacc => ?_⟩
  by_contra hno
  exact not_accepts hplain hno hacc

/-- Two empty files; the header of the second one is large. -/
def largeSecond : Session where
  first := ⟨nameHeader false, [], nameHeader_named false⟩
  rest := [⟨nameHeader true, [], nameHeader_named true⟩]
  last := false
  late := 0

/-- The header of the second file is small. -/
def smallSecond : Session :=
  { largeSecond with rest := [⟨nameHeader false, [], nameHeader_named false⟩] }

theorem smallSecond_accepted : Accepts smallSecond (fun _ => 0) 100 (some fun _ => 0) 10 :=
  (rymDoRecv_accepts smallSecond (fun _ => 0) 100 (some fun _ => 0) 10).1 {
    memory := Option.some_ne_none _
    answered := by decide
    tick := by decide
    small := fun _ hf => by rw [List.mem_singleton.mp hf]; rfl }

theorem largeSecond_not_accepted : ¬ Accepts largeSecond (fun _ => 0) 100 (some fun _ => 0) 10 := by
  have hplain : ∀ f ∈ largeSecond.rest, f.Plain := by
    intro f hf _ b hb
    obtain rfl := List.mem_singleton.mp hf
    have hzero : (nameHeader true).data[130]? = some 0 := by
      rw [nameHeader, List.getElem?_cons_succ, List.getElem?_replicate]
      rfl
    obtain rfl := Option.some.inj (hzero.symm.trans hb)
    exact ⟨by decide, by decide⟩
  have hno : ¬ Receivable largeSecond (fun _ => 0) 100 (some fun _ => 0) 10 := fun h =>
    Bool.noConfusion (h.small _ List.mem_cons_self)
  exact not_accepts hplain hno

end Tudu.Ymodem
