import TuduOS.Lib.Lts
import TuduOS.Lib.Newest

/-!
# The receive fifo of a serial device (`serial.c`)

The two ways of receiving into a fifo of `bufsz` bytes: by interrupt (`dma = false`), a byte at a
time, and by DMA (`dma = true`), where the hardware writes into the fifo and the interrupt tells
how many bytes.

* The indices are `rt_uint16_t`, `bufsz` is a field of 16 bits, lengths have 32.
* An interrupt comes between two critical sections. A read by interrupt has one for each byte
  (`readRound`), a read by DMA has one.
* The bytes of an `RX_DMADONE` are in the fifo when it comes.

`viewStep` is what the fifo is for: the newest bytes, at most as many as fit, in order.
-/

namespace Tudu.Serial

open Lts Newest

/-- `rt_uint16_t` -/
def u16 (n : Nat) : Nat := n % 65536

/-- `(int)` of an `rt_size_t` -/
def toInt (n : Nat) : Int := if n < 2147483648 then n else n - 4294967296

structure RxFifo where
  buffer : Nat → UInt8
  putIndex : Nat
  getIndex : Nat
  isFull : Bool

/-- `rt_serial_open` -/
def RxFifo.opened : RxFifo := ⟨fun _ => 0, 0, 0, false⟩

/-- `n` bytes from `buffer + i` -/
def bytes (buffer : Nat → UInt8) (i n : Nat) : List UInt8 :=
  (List.range n).map fun k => buffer (i + k)

section Fifo

variable (bufsz : Nat) (x : RxFifo)

/-- `_serial_fifo_calc_recved_len` -/
def recvedLen : Nat :=
  if x.putIndex = x.getIndex then
    if x.isFull then bufsz else 0
  else if x.putIndex > x.getIndex then x.putIndex - x.getIndex
  else bufsz - (x.getIndex - x.putIndex)

/-! ## By interrupt -/

/-- A byte of `RX_IND` -/
def intRx (ch : UInt8) : RxFifo :=
  let buffer := Function.update x.buffer x.putIndex ch
  let put := u16 (x.putIndex + 1)
  let put := if put ≥ bufsz then 0 else put
  if put = x.getIndex then
    let get := u16 (x.getIndex + 1)
    { x with
      buffer := buffer
      putIndex := put
      getIndex := if get ≥ bufsz then 0 else get
      isFull := true }
  else { x with buffer := buffer, putIndex := put }

/-- A critical section of `_serial_int_rx`: `none` if there is no data. -/
def readRound : Option (UInt8 × RxFifo) :=
  if x.getIndex = x.putIndex ∧ x.isFull = false then none
  else
    let get := u16 (x.getIndex + 1)
    some (x.buffer x.getIndex,
      { x with getIndex := if get ≥ bufsz then 0 else get, isFull := false })

/-! ## By DMA -/

/-- `rt_dma_recv_update_get_index` -/
def updateGetIndex (len : Nat) : RxFifo :=
  let get := u16 (x.getIndex + len)
  { x with
    isFull := if x.isFull ∧ len ≠ 0 then false else x.isFull
    getIndex := if get ≥ bufsz then get % bufsz else get }

/-- `rt_dma_recv_update_put_index` -/
def updatePutIndex (len : Nat) : RxFifo :=
  let put := u16 (x.putIndex + len)
  let wrapped := if put ≥ bufsz then put % bufsz else put
  let x :=
    if x.getIndex ≤ x.putIndex then
      { x with
        putIndex := wrapped
        isFull := if put ≥ bufsz ∧ wrapped ≥ x.getIndex then true else x.isFull }
    else if put ≥ x.getIndex then { x with putIndex := wrapped, isFull := true }
    else { x with putIndex := put }
  if x.isFull then { x with getIndex := x.putIndex } else x

/-- `_serial_dma_rx`. There is no next state if it copies more than there is. -/
def dmaRx (length : Nat) : Option (List UInt8 × RxFifo) :=
  let recved := recvedLen bufsz x
  let recv := if toInt length < recved then length else recved
  if recv ≤ recved then
    let data :=
      if x.getIndex + recv < bufsz then bytes x.buffer x.getIndex recv
      else bytes x.buffer x.getIndex (bufsz - x.getIndex) ++
        bytes x.buffer 0 (recv + x.getIndex - bufsz)
    some (data, updateGetIndex bufsz x recv)
  else none

/-- The bytes that are reported. -/
def reported : List UInt8 := Ring.contents x.buffer bufsz x.getIndex (recvedLen bufsz x)

end Fifo

/-! ## The device -/

inductive Act where
  /-- `RX_IND`, with what `getc` returns -/
  | rxInd (data : List UInt8)
  /-- a read by interrupt begins -/
  | read (length : Nat)
  | readRound
  /-- `RX_DMADONE` -/
  | dmaDone (data : List UInt8)
  | dmaRead (length : Nat)

structure Device where
  fifo : RxFifo
  /-- where the DMA writes next -/
  hw : Nat
  /-- `length` of the read by interrupt -/
  left : Nat
  /-- what all reads returned -/
  returned : List UInt8

def Device.opened : Device := ⟨.opened, 0, 0, []⟩

def step (bufsz : Nat) (dma : Bool) (d : Device) : Act → Option Device
  | .rxInd data => if dma then none else some { d with fifo := data.foldl (intRx bufsz) d.fifo }
  | .read n => if dma ∨ d.left ≠ 0 then none else some { d with left := n }
  | .readRound =>
    if dma ∨ d.left = 0 then none
    else
      match Serial.readRound bufsz d.fifo with
      | none => some { d with left := 0 }
      | some (ch, x) =>
        some { d with fifo := x, left := d.left - 1, returned := d.returned ++ [ch] }
  | .dmaDone data =>
    if dma ∧ 1 ≤ data.length ∧ data.length ≤ bufsz then
      let buffer := writeAll bufsz d.fifo.buffer d.hw data
      some { d with
        fifo := updatePutIndex bufsz { d.fifo with buffer := buffer } data.length
        hw := (d.hw + data.length) % bufsz }
    else none
  | .dmaRead n =>
    if dma then
      (dmaRx bufsz d.fifo n).map fun r => { d with fifo := r.2, returned := d.returned ++ r.1 }
    else none

/-! ## What the fifo is for -/

structure View where
  unread : List UInt8
  left : Nat
  returned : List UInt8

def View.opened : View := ⟨[], 0, []⟩

def capacity (bufsz : Nat) (dma : Bool) : Nat := if dma then bufsz else bufsz - 1

/-- The oldest bytes go where more than the capacity are unread. -/
def View.receive (cap : Nat) (v : View) (data : List UInt8) : View :=
  { v with unread := newest cap (v.unread ++ data) }

def View.take (v : View) (n : Nat) : View :=
  { v with unread := v.unread.drop n, returned := v.returned ++ v.unread.take n }

def viewStep (bufsz : Nat) (dma : Bool) (v : View) : Act → Option View
  | .rxInd data => if dma then none else some (v.receive (capacity bufsz dma) data)
  | .read n => if dma ∨ v.left ≠ 0 then none else some { v with left := n }
  | .readRound =>
    if dma ∨ v.left = 0 then none
    else if v.unread = [] then some { v with left := 0 }
    else some { v.take 1 with left := v.left - 1 }
  | .dmaDone data =>
    if dma ∧ 1 ≤ data.length ∧ data.length ≤ bufsz then some (v.receive (capacity bufsz dma) data)
    else none
  | .dmaRead n => if dma then some (v.take n) else none

def Device.view (bufsz : Nat) (d : Device) : View := ⟨reported bufsz d.fifo, d.left, d.returned⟩

/-- The device and the view take every step of the run alike, and the indices stay in the fifo. -/
def Keeps (bufsz : Nat) (dma : Bool) (as : List Act) : Prop :=
  (exec (step bufsz dma) .opened as).map (Device.view bufsz) =
      exec (viewStep bufsz dma) .opened as ∧
    ∀ d, exec (step bufsz dma) .opened as = some d →
      d.fifo.putIndex < bufsz ∧ d.fifo.getIndex < bufsz

/-- No index passes 16 bits before it wraps, and a length is no negative `int`. -/
def Narrow (bufsz : Nat) (d : Device) : Act → Prop
  | .dmaDone data => d.fifo.putIndex + data.length < 65536
  | .dmaRead n => n < 2147483648 ∧ d.fifo.getIndex + min n (recvedLen bufsz d.fifo) < 65536
  | _ => True

instance (bufsz : Nat) (d : Device) : DecidablePred (Narrow bufsz d)
  | .dmaDone _ => inferInstanceAs (Decidable (_ < _))
  | .dmaRead _ => inferInstanceAs (Decidable (_ ∧ _))
  | .rxInd _ | .read _ | .readRound => inferInstanceAs (Decidable True)

end Tudu.Serial
