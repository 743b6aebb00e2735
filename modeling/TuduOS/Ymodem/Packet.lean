import TuduOS.Ymodem.Receive

/-!
# Packets

A packet has 128 or 1024 bytes of data, and goes over the line as its code, its number, the
complement of it, the data and the checksum of the data. `Holds` is what the buffer has when such a
packet has been read; the functions of the receiver are run from it.
-/

namespace Tudu.Ymodem

structure Packet where
  big : Bool
  data : List Byte
  length_data : data.length = if big then 1024 else 128

namespace Packet

def size (p : Packet) : Nat := if p.big then 1024 else 128

def code (p : Packet) : Byte := if p.big then rymCodeStx else rymCodeSoh

/-- What is behind the code of the packet number `n`. -/
def body (p : Packet) (n : Byte) : List Byte :=
  n :: ~~~n :: (p.data ++ [(crc16 p.data >>> 8).toUInt8, (crc16 p.data).toUInt8])

def frame (p : Packet) (n : Byte) : List Byte := p.code :: p.body n

variable (p : Packet) (n : Byte)

theorem length_eq : p.data.length = p.size := p.length_data

theorem length_body : (p.body n).length = p.size + 4 := by
  simp only [body, List.length_cons, List.length_append, List.length_nil, p.length_eq]

@[simp] theorem dataSz_code : dataSz p.code = some p.size := by
  unfold dataSz code size
  cases p.big <;> rfl

theorem code_ne_eot : p.code ≠ rymCodeEot := by
  unfold code
  cases p.big <;> decide

end Packet

structure File where
  header : Packet
  blocks : List Packet
  /-- A header begins with the name of the file. -/
  named : header.data.head? ≠ some 0

/-- A header with a name of one letter. -/
def nameHeader (big : Bool) : Packet :=
  ⟨big, 0x61 :: List.replicate (if big then 1023 else 127) 0, by
    rw [List.length_cons, List.length_replicate]
    cases big <;> rfl⟩

theorem nameHeader_named (big : Bool) : (nameHeader big).data.head? ≠ some 0 := by
  rw [nameHeader, List.head?_cons]
  decide

/-! ## The buffer -/

theorem recvCrc_split (crc : UInt16) : recvCrc (crc >>> 8).toUInt8 crc.toUInt8 = crc := by
  apply UInt16.toNat_inj.mp
  have hc : crc.toNat < 2 ^ 16 := crc.toNat_lt
  have hlo : crc.toNat % 2 ^ 8 < 2 ^ 8 := Nat.mod_lt _ (Nat.two_pow_pos 8)
  rw [recvCrc, UInt16.toNat_or, UInt16.toNat_shiftLeft, UInt8.toNat_toUInt16,
    UInt8.toNat_toUInt16, UInt16.toNat_toUInt8, UInt16.toNat_toUInt8, UInt16.toNat_shiftRight]
  show (crc.toNat >>> 8 % 2 ^ 8) <<< 8 % 2 ^ 16 ||| crc.toNat % 2 ^ 8 = crc.toNat
  rw [Nat.shiftRight_eq_div_pow, Nat.mod_eq_of_lt (show crc.toNat / 2 ^ 8 < 2 ^ 8 by omega),
    Nat.shiftLeft_eq, Nat.mod_eq_of_lt (by omega), ← Nat.shiftLeft_eq,
    ← Nat.shiftLeft_add_eq_or_of_lt hlo, Nat.shiftLeft_eq]
  omega

theorem toNat_add_not (n : Byte) : n.toNat + (~~~n).toNat = 0xFF := by
  have hn : n.toNat < 256 := n.toNat_lt
  have hnot : (~~~n).toNat = 255 - n.toNat := UInt8.toNat_not n
  omega

/-- The checksum of zeros is zero. -/
theorem crc16_zeros (n : Nat) : crc16 (List.replicate n 0) = 0 := by
  have hstep : crcByte 0 0 = 0 := by decide
  rw [crc16]
  induction n with
  | zero => rfl
  | succ n ih => rw [List.replicate_succ, List.foldl_cons, hstep, ih]

theorem poke_add (buf : Nat → Byte) (i : Nat) {bs : List Byte} {j : Nat} {b : Byte}
    (h : bs[j]? = some b) : poke buf i bs (i + j) = b := by
  rw [poke, if_neg (by omega), Nat.add_sub_cancel_left, h]
  rfl

/-- The buffer has the packet number `n` behind its first cell. -/
structure Holds (buf : Nat → Byte) (p : Packet) (n : Byte) : Prop where
  num : buf 1 = n
  compl : buf 2 = ~~~n
  data : payload buf p.size = p.data
  crc : recvCrc (buf (p.size + 3)) (buf (p.size + 4)) = crc16 p.data

theorem Holds.first {buf : Nat → Byte} {p : Packet} {n : Byte} (h : Holds buf p n) :
    p.data.head? = some (buf 3) := by
  obtain ⟨m, hm⟩ : ∃ m, p.size = m + 1 := by
    unfold Packet.size
    split <;> exact ⟨_, rfl⟩
  rw [← h.data, hm, payload, List.range_succ_eq_map]
  rfl

theorem payload_poke (buf : Nat → Byte) (a b : Byte) (l r : List Byte) :
    payload (poke buf 1 (a :: b :: (l ++ r))) l.length = l := by
  unfold payload
  apply List.ext_getElem
  · rw [List.length_map, List.length_range]
  · intro i hi hl
    rw [List.getElem_map, List.getElem_range, show 3 + i = 1 + (i + 2) by omega]
    refine poke_add buf 1 ?_
    rw [List.getElem?_cons_succ, List.getElem?_cons_succ, List.getElem?_append_left hl,
      List.getElem?_eq_getElem hl]

theorem holds_poke (buf : Nat → Byte) (p : Packet) (n : Byte) :
    Holds (poke buf 1 (p.body n)) p n where
  num := poke_add buf 1 (j := 0) rfl
  compl := poke_add buf 1 (j := 1) rfl
  data := by
    have h := payload_poke buf n (~~~n) p.data
      [(crc16 p.data >>> 8).toUInt8, (crc16 p.data).toUInt8]
    rw [p.length_eq] at h
    exact h
  crc := by
    have hhi : poke buf 1 (p.body n) (p.size + 3) = (crc16 p.data >>> 8).toUInt8 := by
      rw [show p.size + 3 = 1 + (p.size + 2) by omega]
      refine poke_add buf 1 ?_
      rw [Packet.body, List.getElem?_cons_succ, List.getElem?_cons_succ, ← p.length_eq,
        List.getElem?_append_right (Nat.le_refl _), Nat.sub_self]
      rfl
    have hlo : poke buf 1 (p.body n) (p.size + 4) = (crc16 p.data).toUInt8 := by
      rw [show p.size + 4 = 1 + (p.size + 1 + 2) by omega]
      refine poke_add buf 1 ?_
      rw [Packet.body, List.getElem?_cons_succ, List.getElem?_cons_succ, ← p.length_eq,
        List.getElem?_append_right (Nat.le_succ _), Nat.succ_sub (Nat.le_refl _), Nat.sub_self]
      rfl
    rw [hhi, hlo, recvCrc_split]

/-! ## The receiver -/

section Receive

variable {σ : Type} {P : Port σ} {cb : Callbacks} {c : RymCtx σ} {d d' : σ} {p : Packet}
  {n b : Byte}

/-- The context when the code `b` and the bytes `bs` behind it have been read. -/
def RymCtx.took (c : RymCtx σ) (b : Byte) (bs : List Byte) (d : σ) : RymCtx σ :=
  { c with buf := poke (poke c.buf 0 [b]) 1 bs, dev := d }

theorem rymReadCode_some (h : P.read c.dev 1 = ([b], d)) :
    rymReadCode P c = (b, { c with buf := poke c.buf 0 [b], dev := d }) := by
  rw [rymReadCode, h]

theorem rymReadCode_none (h : P.read c.dev 1 = ([], d)) :
    rymReadCode P c = (rymCodeNone, { c with dev := d }) := by
  rw [rymReadCode, h]

theorem rymReadData_eq {len : Nat} {bs : List Byte} (h : P.read c.dev len = (bs, d)) :
    rymReadData P c len = (bs.length, { c with buf := poke c.buf 1 bs, dev := d }) := by
  rw [rymReadData, h]

/-- A packet, other than the header sent again, goes to `on_data`. -/
theorem rymTransTurn_packet (hcode : P.read c.dev 1 = ([p.code], d))
    (hbody : P.read d (p.size + 4) = (p.body n, d')) (hn : c.stage = .established → n ≠ 0) :
    rymTransTurn P cb c =
      rymAnswer P
        (callOnData cb { c.took p.code (p.body n) d' with stage := .transmitting } p.data).1
        (callOnData cb { c.took p.code (p.body n) d' with stage := .transmitting } p.data).2 := by
  have hh := holds_poke (poke c.buf 0 [p.code]) p n
  have hstage : ¬ (c.stage = .established ∧ n = 0) := fun h => hn h.1 h.2
  have hdata : rymTransData P cb { c with buf := poke c.buf 0 [p.code], dev := d } p.size =
      (rtEok,
        callOnData cb { c.took p.code (p.body n) d' with stage := .transmitting } p.data) := by
    rw [rymTransData, rymReadData_eq hbody]
    simp only [p.length_body, ne_eq, not_true_eq_false, if_false, hh.num, hh.compl, hh.crc,
      hh.data, toNat_add_not, hstage, RymCtx.took]
  rw [rymTransTurn, rymReadCode_some hcode]
  simp only [if_neg p.code_ne_eot, p.dataSz_code, hdata, ne_eq, not_true_eq_false, if_false]

/-- The header, sent again before the first block, is read and ignored. -/
theorem rymTransTurn_again (hcode : P.read c.dev 1 = ([p.code], d))
    (hbody : P.read d (p.size + 4) = (p.body 0, d')) (hstage : c.stage = .established) :
    rymTransTurn P cb c = (none, c.took p.code (p.body 0) d') := by
  have hh := holds_poke (poke c.buf 0 [p.code]) p 0
  have hdata : rymTransData P cb { c with buf := poke c.buf 0 [p.code], dev := d } p.size =
      (rtEok, rymCodeNone, c.took p.code (p.body 0) d') := by
    rw [rymTransData, rymReadData_eq hbody]
    simp only [p.length_body, ne_eq, not_true_eq_false, if_false, hh.num, hh.compl,
      toNat_add_not, hstage, and_self, if_true, RymCtx.took]
  rw [rymTransTurn, rymReadCode_some hcode]
  simp only [if_neg p.code_ne_eot, p.dataSz_code, hdata, ne_eq, not_true_eq_false, if_false]
  rfl

theorem rymTransTurn_eot (hcode : P.read c.dev 1 = ([rymCodeEot], d)) :
    rymTransTurn P cb c = (some rtEok, { c with buf := poke c.buf 0 [rymCodeEot], dev := d }) := by
  rw [rymTransTurn, rymReadCode_some hcode]
  rfl

/-- A byte that is no code ends the transfer. -/
theorem rymTransTurn_bad (hcode : P.read c.dev 1 = ([b], d)) (heot : b ≠ rymCodeEot)
    (hb : dataSz b = none) :
    rymTransTurn P cb c = (some (-rymErrCode), { c with buf := poke c.buf 0 [b], dev := d }) := by
  rw [rymTransTurn, rymReadCode_some hcode]
  simp only [if_neg heot, hb]

theorem rymTransTurn_none (hcode : P.read c.dev 1 = ([], d)) :
    rymTransTurn P cb c = (some (-rymErrCode), { c with dev := d }) := by
  rw [rymTransTurn, rymReadCode_none hcode]
  rfl

/-- `_rym_do_fin` up to its checks. -/
theorem rymDoFin_eq {d1 d2 d3 : σ} {bs : List Byte}
    (heot : P.read (P.write c.dev rymCodeNak) 1 = ([rymCodeEot], d1))
    (hcode : P.read (P.write (P.write d1 rymCodeAck) rymCodeC) 1 = ([p.code], d2))
    (hbody : P.read d2 (rymSohPkgSz - 1) = (bs, d3)) :
    rymDoFin P cb c = checkFin P cb p.size bs.length
      ⟨.finishing, poke (poke (poke c.buf 0 [rymCodeEot]) 0 [p.code]) 1 bs, d3, c.calls⟩ := by
  rw [rymDoFin, rymReadCode_some (c := rymPutchar P { c with stage := .finishing } rymCodeNak) heot]
  simp only [ne_eq, not_true_eq_false, if_false, rymPutchar]
  rw [rymReadCode_some (c := ⟨.finishing, _, P.write (P.write d1 rymCodeAck) rymCodeC, _⟩) hcode]
  simp only [p.dataSz_code]
  rw [rymReadData_eq (c := ⟨.finishing, _, d2, _⟩) hbody]

end Receive

end Tudu.Ymodem
