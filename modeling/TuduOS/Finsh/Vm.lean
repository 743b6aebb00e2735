import TuduOS.Lib.Straight
import Mathlib.Data.BitVec
import Mathlib.Logic.Function.Basic

/-!
# The virtual machine of the shell (`finsh_vm.c`, `finsh_ops.c`)

A stack machine over bytes, words and double words. A slot of its stack is a union: an operation of
a byte or a word changes the lower bytes of the slot and leaves the others as they are.

* Addresses, `long` and pointers have 32 bits, and the lowest byte comes first.
* `Machine`: whether a `char` has a sign, what comes of an operation that C leaves undefined, and
  the functions that a line can call.
* `Memory` is the memory of the variables. The text segment, the stack and the pointers of the
  machine are not in it.
* An access beside the stack is a fault, and so is an operation that `op_table` has no function for.
-/

namespace Tudu.Finsh

/-- `FINSH_STACK_MAX` -/
def finshStackMax : Nat := 64

/-- `FINSH_TEXT_MAX` -/
def finshTextMax : Nat := 128

inductive Width where
  | byte | word | dword
  deriving DecidableEq

namespace Width

@[simp] def bytes : Width → Nat
  | byte => 1
  | word => 2
  | dword => 4

@[simp] def bits : Width → Nat
  | byte => 8
  | word => 16
  | dword => 32

end Width

abbrev Memory := BitVec 32 → BitVec 8

namespace Memory

def load (mem : Memory) : (w : Width) → BitVec 32 → BitVec w.bits
  | .byte, a => mem a
  | .word, a => mem (a + 1#32) ++ mem a
  | .dword, a => mem (a + 3#32) ++ mem (a + 2#32) ++ mem (a + 1#32) ++ mem a

/-- The bytes `x` at the address `a`. -/
def store (mem : Memory) (w : Width) (a : BitVec 32) (x : BitVec w.bits) : Memory := fun b =>
  if (b - a).toNat < w.bytes then x.extractLsb' (8 * (b - a).toNat) 8 else mem b

end Memory

/-! ## The slots -/

/-- `char_value`, `short_value` or `long_value` of a slot. -/
def readSlot (w : Width) (v : BitVec 32) : BitVec w.bits := v.setWidth w.bits

def writeSlot (w : Width) (v : BitVec 32) (x : BitVec w.bits) : BitVec 32 :=
  ((v >>> w.bits) <<< w.bits) ||| x.setWidth 32

inductive BinOp where
  | add | sub | div | mod | mul | and | or | xor | shl | shr
  deriving DecidableEq

structure Machine where
  charSigned : Bool
  undef : BinOp → (w : Width) → BitVec w.bits → BitVec w.bits → BitVec w.bits
  call : BitVec 32 → List (BitVec 32) → Memory → BitVec 32 × Memory

namespace Machine

variable (m : Machine)

def signed (w : Width) : Bool := w != .byte || m.charSigned

/-- C does not say what the operation gives. -/
def Undefined (f : BinOp) (w : Width) (a b : BitVec w.bits) : Prop :=
  match f with
  | .div | .mod => b = 0 ∨ w = .dword ∧ a = BitVec.intMin w.bits ∧ b = -1
  | .shl | .shr => 32 ≤ b.toNat
  | _ => False

instance (f : BinOp) (w : Width) (a b : BitVec w.bits) : Decidable (Undefined f w a b) := by
  cases f <;> unfold Undefined <;> infer_instance

/-- The operation on two values of one width, cut down to this width. -/
def binOp (f : BinOp) (w : Width) (a b : BitVec w.bits) : BitVec w.bits :=
  if Undefined f w a b then m.undef f w a b
  else match f with
    | .add => a + b
    | .sub => a - b
    | .mul => a * b
    | .and => a &&& b
    | .or => a ||| b
    | .xor => a ^^^ b
    | .div => if m.signed w then a.sdiv b else a / b
    | .mod => if m.signed w then a.srem b else a % b
    | .shl => a <<< b.toNat
    | .shr => if m.signed w then a.sshiftRight b.toNat else a >>> b.toNat

end Machine

/-! ## The operations -/

/-- A fault of the machine: beside the stack, beside `op_table`, or beside `parameterv` of
`OP_call`. -/
inductive VmFault where
  | stack | op | parameters
  deriving DecidableEq

structure Vm where
  /-- `finsh_sp - finsh_vm_stack` -/
  sp : Nat
  stack : Nat → BitVec 32
  mem : Memory

abbrev VmStep := Vm → Except VmFault Vm

/-- The slot `k` below the stack pointer. -/
def Vm.slot (s : Vm) (k : Nat) : BitVec 32 := s.stack (s.sp - k)

/-- The slot `k` below the stack pointer is written, and the pointer set to `sp`. -/
def Vm.put (s : Vm) (k : Nat) (w : Width) (x : BitVec w.bits) (sp : Nat) : Vm :=
  { s with sp := sp, stack := Function.update s.stack (s.sp - k) (writeSlot w (s.slot k) x) }

def opBin (m : Machine) (f : BinOp) (w : Width) : VmStep := fun s =>
  if 2 ≤ s.sp then
    .ok (s.put 2 w (m.binOp f w (readSlot w (s.slot 2)) (readSlot w (s.slot 1))) (s.sp - 1))
  else .error .stack

def opBw (w : Width) : VmStep := fun s =>
  if 1 ≤ s.sp then .ok (s.put 1 w (~~~ readSlot w (s.slot 1)) s.sp) else .error .stack

def opLd (w : Width) (x : BitVec w.bits) : VmStep := fun s =>
  if s.sp < finshStackMax then .ok (s.put 0 w x (s.sp + 1)) else .error .stack

def opLdValue (w : Width) (a : BitVec 32) : VmStep := fun s => opLd w (s.mem.load w a) s

def opLdValueStack (w : Width) : VmStep := fun s =>
  if 1 ≤ s.sp then .ok (s.put 1 w (s.mem.load w (s.slot 1)) s.sp) else .error .stack

def opSt (w : Width) : VmStep := fun s =>
  if 2 ≤ s.sp then
    .ok { s with sp := s.sp - 1, mem := s.mem.store w (s.slot 2) (readSlot w (s.slot 1)) }
  else .error .stack

def opPop : VmStep := fun s =>
  if 1 ≤ s.sp then .ok { s with sp := s.sp - 1 } else .error .stack

/-- The parameters, the last of them on top. -/
def Vm.parameters (s : Vm) (n : Nat) : List (BitVec 32) :=
  if n = 0 then [0] else (List.range n).map fun i => s.slot (n - i)

def opCall (m : Machine) (n : Nat) : VmStep := fun s =>
  if 16 < n then .error .parameters
  else if n + 1 ≤ s.sp then
    let r := m.call (s.slot (n + 1)) (s.parameters n) s.mem
    .ok { s.put (n + 1) .dword r.1 (s.sp - n) with mem := r.2 }
  else .error .stack

/-- The functions of `op_table`. -/
inductive Op where
  | noOp | bin (f : BinOp) (w : Width) | bw (w : Width) | ld (w : Width) | ldValue (w : Width)
  | st (w : Width) | pop | call | ldValueStack (w : Width)
  deriving DecidableEq

def opTable : List Op :=
  [.noOp,
    .bin .add .byte, .bin .add .word, .bin .add .dword,
    .bin .sub .byte, .bin .sub .word, .bin .sub .dword,
    .bin .div .byte, .bin .div .word, .bin .div .dword,
    .bin .mod .byte, .bin .mod .word, .bin .mod .dword,
    .bin .mul .byte, .bin .mul .word, .bin .mul .dword,
    .bin .and .byte, .bin .and .word, .bin .and .dword,
    .bin .or .byte, .bin .or .word, .bin .or .dword,
    .bin .xor .byte, .bin .xor .word, .bin .xor .dword,
    .bw .byte, .bw .word, .bw .dword,
    .bin .shl .byte, .bin .shl .word, .bin .shl .dword,
    .bin .shr .byte, .bin .shr .word, .bin .shr .dword,
    .ld .byte, .ld .word, .ld .dword,
    .ldValue .byte, .ldValue .word, .ldValue .dword,
    .st .byte, .st .word, .st .dword,
    .pop, .call,
    .ldValueStack .byte, .ldValueStack .word, .ldValueStack .dword]

/-- The bytes at `pc`: `*finsh_pc`, `FINSH_GET16` or `FINSH_GET32`. -/
def getOperand (text : Nat → BitVec 8) (pc : Nat) : (w : Width) → BitVec w.bits
  | .byte => text pc
  | .word => text (pc + 1) ++ text pc
  | .dword => text (pc + 3) ++ text (pc + 2) ++ text (pc + 1) ++ text pc

/-- A function of the table, with `finsh_pc` behind its number. -/
def Op.run (m : Machine) (text : Nat → BitVec 8) (pc : Nat) (s : Vm) :
    Op → Except VmFault (Nat × Vm)
  | .noOp => .ok (pc, s)
  | .bin f w => (opBin m f w s).map fun s' => (pc, s')
  | .bw w => (opBw w s).map fun s' => (pc, s')
  | .ld w => (opLd w (getOperand text pc w) s).map fun s' => (pc + w.bytes, s')
  | .ldValue w => (opLdValue w (getOperand text pc .dword) s).map fun s' => (pc + 4, s')
  | .st w => (opSt w s).map fun s' => (pc, s')
  | .pop => (opPop s).map fun s' => (pc, s')
  | .call => (opCall m (text pc).toNat s).map fun s' => (pc + 1, s')
  | .ldValueStack w => (opLdValueStack w s).map fun s' => (pc, s')

/-- A round of the loop of `finsh_vm_run`. -/
def finshVmStep (m : Machine) (text : Nat → BitVec 8) (pc : Nat) (s : Vm) :
    Except VmFault (Nat × Vm) :=
  match opTable[(text pc).toNat]? with
  | none => .error .op
  | some op => op.run m text (pc + 1) s

/-- `finsh_vm_run`, on the stack that `finsh_compiler_run` has cleared. -/
def finshVmRun (m : Machine) (text : Nat → BitVec 8) (mem : Memory) : Except VmFault Vm :=
  Straight.loop (finshVmStep m text) finshTextMax finshTextMax 0 ⟨0, fun _ => 0, mem⟩

/-! ## Instructions -/

/-- An operation with its operand. -/
inductive Instr where
  | noOp | bin (f : BinOp) (w : Width) | bw (w : Width) | ld (w : Width) (x : BitVec w.bits)
  | ldValue (w : Width) (a : BitVec 32) | st (w : Width) | pop | call (n : BitVec 8)
  | ldValueStack (w : Width)

/-- The number of the function with the first width, and with the others behind it. -/
def Width.code (first : Nat) : Width → BitVec 8
  | .byte => BitVec.ofNat 8 first
  | .word => BitVec.ofNat 8 (first + 1)
  | .dword => BitVec.ofNat 8 (first + 2)

/-- `FINSH_OP_ADD_BYTE` and so on. -/
def BinOp.first : BinOp → Nat
  | .add => 0x01
  | .sub => 0x04
  | .div => 0x07
  | .mod => 0x0A
  | .mul => 0x0D
  | .and => 0x10
  | .or => 0x13
  | .xor => 0x16
  | .shl => 0x1C
  | .shr => 0x1F

/-- `FINSH_OP_NOOP` and the other numbers of `finsh_ops.h`. -/
def Op.code : Op → BitVec 8
  | .noOp => 0x00
  | .bin f w => w.code f.first
  | .bw w => w.code 0x19
  | .ld w => w.code 0x22
  | .ldValue w => w.code 0x25
  | .st w => w.code 0x28
  | .pop => 0x2B
  | .call => 0x2C
  | .ldValueStack w => w.code 0x2D

/-- `*x`, `FINSH_SET16` or `FINSH_SET32`. -/
def setOperand : (w : Width) → BitVec w.bits → List (BitVec 8)
  | .byte, x => [x]
  | .word, x => [x.extractLsb' 0 8, x.extractLsb' 8 8]
  | .dword, x =>
    [x.extractLsb' 0 8, x.extractLsb' 8 8, x.extractLsb' 16 8, x.extractLsb' 24 8]

namespace Instr

def op : Instr → Op
  | noOp => .noOp
  | bin f w => .bin f w
  | bw w => .bw w
  | ld w _ => .ld w
  | ldValue w _ => .ldValue w
  | st w => .st w
  | pop => .pop
  | call _ => .call
  | ldValueStack w => .ldValueStack w

def operand : Instr → List (BitVec 8)
  | ld w x => setOperand w x
  | ldValue _ a => setOperand .dword a
  | call n => [n]
  | _ => []

def encode (i : Instr) : List (BitVec 8) := i.op.code :: i.operand

def exec (m : Machine) : Instr → VmStep
  | noOp => .ok
  | bin f w => opBin m f w
  | bw w => opBw w
  | ld w x => opLd w x
  | ldValue w a => opLdValue w a
  | st w => opSt w
  | pop => opPop
  | call n => opCall m n.toNat
  | ldValueStack w => opLdValueStack w

/-- How many values the instruction takes from the stack, and how many it leaves there. -/
def takes : Instr → Nat
  | bin .. | st _ => 2
  | bw _ | pop | ldValueStack _ => 1
  | call n => n.toNat + 1
  | _ => 0

def leaves : Instr → Nat
  | noOp | pop => 0
  | _ => 1

end Instr

/-! ## Code -/

section

variable {m : Machine} {text : Nat → BitVec 8} {pc : Nat} {s s' : Vm} {w : Width}

theorem opTable_code (op : Op) : opTable[op.code.toNat]? = some op := by
  cases op with
  | bin f w => cases f <;> cases w <;> rfl
  | bw w => cases w <;> rfl
  | ld w => cases w <;> rfl
  | ldValue w => cases w <;> rfl
  | st w => cases w <;> rfl
  | ldValueStack w => cases w <;> rfl
  | _ => rfl

@[simp] theorem length_setOperand (x : BitVec w.bits) : (setOperand w x).length = w.bytes := by
  cases w <;> rfl

theorem append_bytes_word (x : BitVec 16) : x.extractLsb' 8 8 ++ x.extractLsb' 0 8 = x := by
  apply BitVec.eq_of_getLsbD_eq
  intro i hi
  simp only [BitVec.getLsbD_append, BitVec.getLsbD_extractLsb']
  by_cases h : i < 8
  · simp [h]
  · simp [h, show i - 8 < 8 by omega, show 8 + (i - 8) = i by omega]

theorem append_bytes_dword (x : BitVec 32) :
    x.extractLsb' 24 8 ++ x.extractLsb' 16 8 ++ x.extractLsb' 8 8 ++ x.extractLsb' 0 8 = x := by
  apply BitVec.eq_of_getLsbD_eq
  intro i hi
  simp only [BitVec.getLsbD_append, BitVec.getLsbD_extractLsb']
  by_cases h8 : i < 8
  · simp [h8]
  by_cases h16 : i < 16
  · simp [h8, show i - 8 < 8 by omega, show 8 + (i - 8) = i by omega]
  by_cases h24 : i < 24
  · simp [h8, show ¬ i - 8 < 8 by omega, show i - 8 - 8 < 8 by omega,
      show 16 + (i - 8 - 8) = i by omega]
  · simp [h8, show ¬ i - 8 < 8 by omega, show ¬ i - 8 - 8 < 8 by omega,
      show i - 8 - 8 - 8 < 8 by omega, show 24 + (i - 8 - 8 - 8) = i by omega]

theorem getOperand_at {x : BitVec w.bits} (h : Straight.At text (setOperand w x) pc) :
    getOperand text pc w = x := by
  cases w with
  | byte => exact h.head
  | word =>
    have h0 := h.head
    have h1 := h.tail.head
    unfold getOperand
    rw [h0, h1]
    exact append_bytes_word x
  | dword =>
    have h0 := h.head
    have h1 := h.tail.head
    have h2 := h.tail.tail.head
    have h3 := h.tail.tail.tail.head
    unfold getOperand
    rw [h0, h1, h2, h3]
    exact append_bytes_dword x

/-- A round of the loop at an encoded instruction. -/
theorem finshVmStep_at {i : Instr} (h : Straight.At text i.encode pc) :
    finshVmStep m text pc s = (i.exec m s).map fun s' => (pc + i.encode.length, s') := by
  have hop : text pc = i.op.code := h.head
  have hx : Straight.At text i.operand (pc + 1) := h.tail
  unfold finshVmStep
  rw [hop, opTable_code]
  cases i with
  | ld w x =>
    change (opLd w (getOperand text (pc + 1) w) s).map _ = (opLd w x s).map _
    rw [getOperand_at hx]
    congr 1
    funext s'
    change (pc + 1 + w.bytes, s') = (pc + ((setOperand w x).length + 1), s')
    rw [length_setOperand, Nat.add_assoc, Nat.add_comm 1]
  | ldValue w a =>
    change (opLdValue w (getOperand text (pc + 1) .dword) s).map _ = (opLdValue w a s).map _
    rw [getOperand_at (w := .dword) hx]
    rfl
  | call n =>
    change (opCall m (text (pc + 1)).toNat s).map _ = (opCall m n.toNat s).map _
    rw [hx.head]
    rfl
  | _ => rfl

/-- The machine, and what its text has for an instruction. -/
def coding (m : Machine) : Straight.Coding (BitVec 8) Instr Vm VmFault where
  encode := Instr.encode
  exec := Instr.exec m
  step := finshVmStep m
  encode_ne _ := List.cons_ne_nil _ _
  step_at _ _ _ _ h := finshVmStep_at h

/-- The text segment with the code, and with the zeros that `memset` leaves behind it. -/
def textSegment (code : List (BitVec 8)) : Nat → BitVec 8 := fun i => code.getD i 0

theorem execAll_noOp (n : Nat) : (coding m).execAll (List.replicate n .noOp) s = .ok s := by
  induction n with
  | zero => rfl
  | succ n ih => exact ih

theorem encodeAll_noOp (n : Nat) :
    (coding m).encodeAll (List.replicate n .noOp) = List.replicate n 0 := by
  induction n with
  | zero => rfl
  | succ n ih =>
    rw [List.replicate_succ, List.replicate_succ, Straight.Coding.encodeAll_cons, ih]
    rfl

/-- The machine runs the code of a line, and the zeros behind it do nothing. -/
theorem finshVmRun_eq {l : List Instr} (hfit : ((coding m).encodeAll l).length ≤ finshTextMax)
    (mem : Memory) :
    finshVmRun m (textSegment ((coding m).encodeAll l)) mem =
      (coding m).execAll l ⟨0, fun _ => 0, mem⟩ := by
  have hlen := Straight.Coding.length_le_encodeAll (m := coding m) (l := l)
  have hsum : ((coding m).encodeAll l).length +
      (finshTextMax - ((coding m).encodeAll l).length) = finshTextMax := by omega
  generalize hn : finshTextMax - ((coding m).encodeAll l).length = n at hsum
  have hpad : (coding m).encodeAll (l ++ List.replicate n .noOp) =
      (coding m).encodeAll l ++ List.replicate n 0 := by
    rw [← encodeAll_noOp (m := m)]
    exact List.flatMap_append
  have hat : Straight.At (textSegment ((coding m).encodeAll l))
      ((coding m).encodeAll (l ++ List.replicate n .noOp)) 0 := by
    intro i hi
    simp only [hpad, Nat.zero_add, textSegment, List.getD_eq_getElem?_getD]
    by_cases hlt : i < ((coding m).encodeAll l).length
    · rw [List.getElem?_eq_getElem hlt, List.getElem_append_left hlt]
      rfl
    · rw [List.getElem?_eq_none (by omega), List.getElem_append_right (by omega),
        List.getElem_replicate]
      rfl
  have htotal : ((coding m).encodeAll (l ++ List.replicate n Instr.noOp)).length = finshTextMax := by
    rw [hpad, List.length_append, List.length_replicate]
    exact hsum
  have hrounds : finshTextMax =
      (l ++ List.replicate n Instr.noOp).length + (finshTextMax - (l.length + n)) := by
    rw [List.length_append, List.length_replicate]
    omega
  unfold finshVmRun
  nth_rewrite 2 [hrounds]
  refine (Straight.Coding.loop_at (m := coding m) hat (by omega)).trans ?_
  rw [Straight.Coding.execAll_append]
  cases (coding m).execAll l ⟨0, fun _ => 0, mem⟩ with
  | error e => rfl
  | ok s' =>
    change (((coding m).execAll (List.replicate n .noOp) s').bind _) = _
    rw [execAll_noOp]
    exact Straight.loop_ge (by omega)

end

end Tudu.Finsh
