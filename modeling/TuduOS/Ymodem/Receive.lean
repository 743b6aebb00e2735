import Mathlib.Logic.Function.Basic
import Mathlib.Data.List.Basic

/-!
# The YMODEM receiver (`ymodem.c`)

* `Port` is the device as the receiver sees it, with whoever is at its other end in its state.
  `read` waits: it gives the bytes that are there or come in time, at most as many as asked for.
* The buffer of `ctx` has 1029 cells; what was read before stays in it.
* `calls` records the calls of `on_begin` and `on_data`. What they answer may depend on the calls
  before. What `on_end` answers is ignored, and its calls are left out.
* A loop that no bound of the source ends has fuel. `clock k` is what `rt_tick_get` returns the
  `k`-th time.
-/

namespace Tudu.Ymodem

abbrev Byte := UInt8

/-- The values of `enum rym_code`, as bytes. -/
def rymCodeNone : Byte := 0x00
def rymCodeSoh : Byte := 0x01
def rymCodeStx : Byte := 0x02
def rymCodeEot : Byte := 0x04
def rymCodeAck : Byte := 0x06
def rymCodeNak : Byte := 0x15
def rymCodeCan : Byte := 0x18
def rymCodeC : Byte := 0x43

def rtEok : Int := 0
def rtEnomem : Int := 5
def rymErrTmo : Int := 0x70
def rymErrCode : Int := 0x71
def rymErrSeq : Int := 0x72
def rymErrCrc : Int := 0x73
def rymErrDsz : Int := 0x74
def rymErrCan : Int := 0x75

/-- `_RYM_SOH_PKG_SZ` and `_RYM_STX_PKG_SZ` -/
def rymSohPkgSz : Nat := 1 + 2 + 128 + 2
def rymEndSessionSendCanNum : Nat := 7

inductive RymStage where
  | none
  | establishing
  | established
  | transmitting
  | finishing
  | finished
  deriving DecidableEq

/-! ## The checksum -/

/-- A turn of the inner loop of `CRC16`. -/
def crcShift (crc : UInt16) : UInt16 :=
  if crc &&& 0x8000 ≠ 0 then crc <<< 1 ^^^ 0x1021 else crc <<< 1

def crcByte (crc : UInt16) (q : Byte) : UInt16 :=
  crcShift (crcShift (crcShift (crcShift (crcShift (crcShift (crcShift (crcShift
    (crc ^^^ q.toUInt16 <<< 8))))))))

def crc16 (q : List Byte) : UInt16 := q.foldl crcByte 0

/-- `(rt_uint16_t)(hi << 8) | lo` -/
def recvCrc (hi lo : Byte) : UInt16 := hi.toUInt16 <<< 8 ||| lo.toUInt16

/-! ## The receiver -/

structure Port (σ : Type) where
  read : σ → Nat → List Byte × σ
  write : σ → Byte → σ

inductive Call where
  | onBegin (buf : List Byte)
  | onData (buf : List Byte)
  deriving DecidableEq

/-- `on_begin` and `on_data`, or `RT_NULL`. -/
structure Callbacks where
  onBegin : Option (List Call → List Byte → Byte)
  onData : Option (List Call → List Byte → Byte)

structure RymCtx (σ : Type) where
  stage : RymStage
  buf : Nat → Byte
  dev : σ
  calls : List Call

/-- The buffer with the bytes `bs` from the cell `i` on. -/
def poke (buf : Nat → Byte) (i : Nat) (bs : List Byte) : Nat → Byte := fun j =>
  if j < i then buf j else bs[j - i]?.getD (buf j)

/-- The `n` bytes from `buf + 3` on. -/
def payload (buf : Nat → Byte) (n : Nat) : List Byte := (List.range n).map fun i => buf (3 + i)

section Receive

variable {σ : Type} (P : Port σ) (cb : Callbacks)

def rymReadCode (c : RymCtx σ) : Byte × RymCtx σ :=
  match P.read c.dev 1 with
  | (b :: _, d) => (b, { c with buf := poke c.buf 0 [b], dev := d })
  | ([], d) => (rymCodeNone, { c with dev := d })

def rymReadData (c : RymCtx σ) (len : Nat) : Nat × RymCtx σ :=
  ((P.read c.dev len).1.length,
    { c with buf := poke c.buf 1 (P.read c.dev len).1, dev := (P.read c.dev len).2 })

def rymPutchar (c : RymCtx σ) (code : Byte) : RymCtx σ := { c with dev := P.write c.dev code }

/-- The size of the data behind the code, where the code is that of a packet. -/
def dataSz (code : Byte) : Option Nat :=
  if code = rymCodeSoh then some 128 else if code = rymCodeStx then some 1024 else none

def callOnBegin (c : RymCtx σ) (buf : List Byte) : Byte × RymCtx σ :=
  match cb.onBegin with
  | none => (rymCodeAck, c)
  | some f => (f c.calls buf, { c with calls := c.calls ++ [.onBegin buf] })

def callOnData (c : RymCtx σ) (buf : List Byte) : Byte × RymCtx σ :=
  match cb.onData with
  | none => (rymCodeAck, c)
  | some f => (f c.calls buf, { c with calls := c.calls ++ [.onData buf] })

/-- The loop of `_rym_do_handshake` that sends `C`: the size of the data of the packet that
begins. -/
def waitPacket : Nat → RymCtx σ → Option Nat × RymCtx σ
  | 0, c => (none, c)
  | n + 1, c =>
    match dataSz (rymReadCode P (rymPutchar P c rymCodeC)).1 with
    | some sz => (some sz, (rymReadCode P (rymPutchar P c rymCodeC)).2)
    | none => waitPacket n (rymReadCode P (rymPutchar P c rymCodeC)).2

/-- The loop that reads the packet; `i` bytes are there, and the clock has been read `k` times. -/
def readPacket (clock : Nat → Nat) (limit len : Nat) :
    Nat → Nat → Nat → RymCtx σ → Option (Nat × RymCtx σ)
  | 0, _, _, _ => none
  | fuel + 1, k, i, c =>
    if clock k ≤ limit ∧ i < len then
      readPacket clock limit len fuel (k + 1) (i + (rymReadData P c len).1) (rymReadData P c len).2
    else some (i, c)

/-- Behind the read of the first packet. -/
def checkHandshake (sz i : Nat) (c : RymCtx σ) : Int × RymCtx σ :=
  if i ≠ sz + 4 then (-rymErrDsz, c)
  else if c.buf 1 ≠ 0 ∨ c.buf 2 ≠ 0xFF then (-rymErrSeq, c)
  else if recvCrc (c.buf (sz + 3)) (c.buf (sz + 4)) ≠ crc16 (payload c.buf sz) then (-rymErrCrc, c)
  else if (callOnBegin cb c (payload c.buf sz)).1 ≠ rymCodeAck then
    (-rymErrCan, (callOnBegin cb c (payload c.buf sz)).2)
  else (rtEok, (callOnBegin cb c (payload c.buf sz)).2)

/-- `ms100` is `rt_tick_from_millisecond(100)`. -/
def rymDoHandshake (clock : Nat → Nat) (ms100 fuel : Nat) (c : RymCtx σ) (tmSec : Nat) :
    Option (Int × RymCtx σ) :=
  match waitPacket P tmSec { c with stage := .establishing } with
  | (none, c) => some (-rymErrTmo, c)
  | (some sz, c) =>
    (readPacket P clock ((clock 0 + ms100) % 4294967296) (sz + 4) fuel 1 0 c).map fun r =>
      checkHandshake cb sz r.1 r.2

/-- `_rym_trans_data`: the error, the code and the context. -/
def rymTransData (c : RymCtx σ) (sz : Nat) : Int × Byte × RymCtx σ :=
  match rymReadData P c (sz + 4) with
  | (i, c) =>
    if i ≠ sz + 4 then (-rymErrDsz, rymCodeNone, c)
    else if (c.buf 1).toNat + (c.buf 2).toNat ≠ 0xFF then (-rymErrSeq, rymCodeNone, c)
    else if c.stage = .established ∧ c.buf 1 = 0 then (rtEok, rymCodeNone, c)
    else if recvCrc (c.buf (sz + 3)) (c.buf (sz + 4)) ≠ crc16 (payload c.buf sz) then
      (-rymErrCrc, rymCodeNone, { c with stage := .transmitting })
    else (rtEok, callOnData cb { c with stage := .transmitting } (payload c.buf sz))

/-- The answer to a packet, in `_rym_do_trans`; it returns where there is an error code. -/
def rymAnswer (code : Byte) (c : RymCtx σ) : Option Int × RymCtx σ :=
  if code = rymCodeCan then
    (some (-rymErrCan), (List.replicate rymEndSessionSendCanNum rymCodeCan).foldl (rymPutchar P) c)
  else if code = rymCodeAck then (none, rymPutchar P c rymCodeAck)
  else (none, c)

/-- A turn of the loop of `_rym_do_trans`. -/
def rymTransTurn (c : RymCtx σ) : Option Int × RymCtx σ :=
  match rymReadCode P c with
  | (code, c) =>
    if code = rymCodeEot then (some rtEok, c)
    else match dataSz code with
      | none => (some (-rymErrCode), c)
      | some sz =>
        match rymTransData P cb c sz with
        | (err, code, c) => if err ≠ rtEok then (some err, c) else rymAnswer P code c

def rymTransLoop : Nat → RymCtx σ → Option (Int × RymCtx σ)
  | 0, _ => none
  | fuel + 1, c =>
    match rymTransTurn P cb c with
    | (some err, c) => some (err, c)
    | (none, c) => rymTransLoop fuel c

def rymDoTrans (fuel : Nat) (c : RymCtx σ) : Option (Int × RymCtx σ) :=
  rymTransLoop P cb fuel
    { rymPutchar P (rymPutchar P c rymCodeAck) rymCodeC with stage := .established }

/-- Behind the read of a packet in `_rym_do_fin`, which is one of 128 bytes whatever its code is. -/
def checkFin (sz i : Nat) (c : RymCtx σ) : Int × RymCtx σ :=
  if i ≠ rymSohPkgSz - 1 then (-rymErrDsz, c)
  else if c.buf 1 ≠ 0 ∨ c.buf 2 ≠ 0xFF then (-rymErrSeq, c)
  else if recvCrc (c.buf (rymSohPkgSz - 2)) (c.buf (rymSohPkgSz - 1)) ≠
      crc16 (payload c.buf (rymSohPkgSz - 5)) then (-rymErrCrc, c)
  else if c.buf 3 ≠ 0 then
    if (callOnBegin cb c (payload c.buf sz)).1 ≠ rymCodeAck then
      (-rymErrCan, (callOnBegin cb c (payload c.buf sz)).2)
    else (rtEok, (callOnBegin cb c (payload c.buf sz)).2)
  else (rtEok, rymPutchar P { c with stage := .finished } rymCodeAck)

def rymDoFin (c : RymCtx σ) : Int × RymCtx σ :=
  match rymReadCode P (rymPutchar P { c with stage := .finishing } rymCodeNak) with
  | (code, c) =>
    if code ≠ rymCodeEot then (-rymErrCode, c)
    else
      match rymReadCode P (rymPutchar P (rymPutchar P c rymCodeAck) rymCodeC) with
      | (code, c) =>
        match dataSz code with
        | none => (-rymErrCode, c)
        | some sz =>
          match rymReadData P c (rymSohPkgSz - 1) with
          | (i, c) => checkFin P cb sz i c

/-- The loop of `_rym_do_recv`, a turn for each file. -/
def rymRecvLoop (fuel : Nat) : Nat → RymCtx σ → Option (Int × RymCtx σ)
  | 0, _ => none
  | n + 1, c =>
    match rymDoTrans P cb fuel c with
    | none => none
    | some (err, c) =>
      if err ≠ rtEok then some (err, c)
      else
        match rymDoFin P cb c with
        | (err, c) =>
          if err ≠ rtEok then some (err, c)
          else if c.stage = .finished then some (err, c)
          else rymRecvLoop fuel n c

/-- `_rym_do_recv`; `mem` is what is in the memory that `rt_malloc` gives, or `RT_NULL`. -/
def rymDoRecv (clock : Nat → Nat) (ms100 fuel : Nat) (mem : Option (Nat → Byte)) (dev : σ)
    (handshakeTimeout : Nat) : Option (Int × RymCtx σ) :=
  match mem with
  | none => some (-rtEnomem, ⟨.none, fun _ => 0, dev, []⟩)
  | some buf =>
    match rymDoHandshake P cb clock ms100 fuel ⟨.none, buf, dev, []⟩ handshakeTimeout with
    | none => none
    | some (err, c) => if err ≠ rtEok then some (err, c) else rymRecvLoop P cb fuel fuel c

end Receive

end Tudu.Ymodem
