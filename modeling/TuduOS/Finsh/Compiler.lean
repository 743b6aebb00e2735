import TuduOS.Finsh.Parser
import TuduOS.Finsh.Vm

/-!
# The compiler of the shell (`finsh_compiler.c`)

`finshTypeCheck` puts a width on every node, and a mark on those whose address is wanted, and
`finshCompile` makes the code, children first. The code is a list of instructions: the bytes that
the source writes one after the other are their encoding. What `finsh_error_set` is called with is a
list.

* `Layout`: where the variables and the strings of the shell are.
* A null child of an assignment is a fault in the source; the parser makes none without an error.
-/

namespace Tudu.Finsh

/-- `FINSH_DATA_TYPE_VOID` and so on. -/
def dataTypeVoid : Nat := 0
def dataTypeByte : Nat := 1
def dataTypeWord : Nat := 2
def dataTypeDword : Nat := 3

/-- The data type of a variable. -/
def FinshType.dataType : FinshType → Option Nat
  | void => some dataTypeVoid
  | char | uchar => some dataTypeByte
  | short | ushort => some dataTypeWord
  | int | uint | long | ulong => some dataTypeDword
  | charp | voidp | shortp | intp | longp => some dataTypeDword
  | unknown => none

/-- The width that a variable is loaded with. There is none for `void *`. -/
def FinshType.loadWidth : FinshType → Option Width
  | char | uchar => some .byte
  | short | ushort => some .word
  | int | uint | long | ulong | charp | shortp | intp | longp => some .dword
  | void | voidp | unknown => none

/-- The width of a data type. -/
def dataWidth (dataType : Nat) : Option Width :=
  if dataType = dataTypeByte then some .byte
  else if dataType = dataTypeWord then some .word
  else if dataType = dataTypeDword then some .dword
  else none

def Node.nodeType : Node → Option NodeType
  | null => none
  | node d _ _ => some d.nodeType

def Node.dataType : Node → Nat
  | null => 0
  | node d _ _ => d.dataType

def Node.symbol : Node → Option Symbol
  | null => none
  | node d _ _ => d.symbol

/-! ## The type check -/

/-- Whether the address of the child is wanted. -/
def childAddress (type : NodeType) (isAddr : Bool) : Bool :=
  match type with
  | .assign | .preinc | .predec | .getaddr => true
  | .getvalue => false
  | _ => isAddr

/-- The data type of a node without a child, and the error. -/
def leafType (d : NodeData) : Nat × List FinshError :=
  match d.nodeType with
  | .id =>
    match d.symbol with
    | some (.var _ type) | some (.sysvar _ type _) =>
      match type.dataType with
      | some dataType => (dataType, [])
      | none => (d.dataType, [.unknownType])
    | _ => (d.dataType, [])
  | .valueChar => (dataTypeByte, [])
  | .valueInt | .valueLong | .valueString | .valueNull => (dataTypeDword, [])
  | _ => (d.dataType, [])

/-- `node->idtype |= is_addr`, but for a function -/
def markAddress (d : NodeData) (isAddr : Bool) : Bool :=
  match d.symbol with
  | some (.syscall ..) => d.address
  | _ => d.address || isAddr

/-- `finsh_type_check`: the tree, and the errors. -/
def finshTypeCheck : Node → Bool → Node × List FinshError
  | .null, _ => (.null, [])
  | .node d c s, isAddr =>
    let child := finshTypeCheck c (childAddress d.nodeType isAddr)
    let sibling := finshTypeCheck s false
    let own := if c.isNull then leafType d else (child.1.dataType, [])
    (.node { d with address := markAddress d isAddr, dataType := own.1 } child.1 sibling.1,
      child.2 ++ sibling.2 ++ own.2)

/-! ## The code -/

structure Layout where
  /-- `global_variable` -/
  globalVariable : BitVec 32
  /-- The place of a string in the heap. -/
  stringAt : List Char → BitVec 32

/-- The pointer of an identifier node, read as a pointer to a `struct finsh_var`. -/
def Layout.idVar (layout : Layout) : Symbol → BitVec 32
  | .var slot _ => layout.globalVariable + BitVec.ofNat 32 (24 * slot)
  | .sysvar item _ _ => item
  | .syscall item _ => item

/-- `&(var->value)` -/
def Layout.idValue (layout : Layout) (symbol : Symbol) : BitVec 32 :=
  layout.idVar symbol + 20

/-- The code of a variable at an address. -/
def loadCode (type : FinshType) (address : BitVec 32) (isAddr : Bool) : List Instr :=
  match type.loadWidth with
  | none => []
  | some w => if isAddr then [.ld .dword address] else [.ldValue w address]

def idCode (layout : Layout) (isAddr : Bool) : Symbol → List Instr
  | .syscall _ func => [.ld .dword func]
  | .sysvar _ type address => loadCode type address isAddr
  | .var slot type => loadCode type (layout.idValue (.var slot type)) isAddr

def widthCode (dataType : Nat) (code : Width → List Instr) : List Instr :=
  match dataWidth dataType with
  | none => []
  | some w => code w

def binaryCode (dataType : Nat) (f : BinOp) : List Instr :=
  widthCode dataType fun w => [.bin f w]

/-- `ld_byte 1`, `ld_word 1` or `ld_dword 1` -/
def ldOne (w : Width) : Instr := .ld w 1

def preCode (f : BinOp) (address : BitVec 32) (w : Width) : List Instr :=
  [.ldValue w address, ldOne w, .bin f w, .st w, .ldValueStack .dword]

def postCode (f : BinOp) (address : BitVec 32) (w : Width) : List Instr :=
  [.ld .dword address, .ldValue w address, ldOne w, .bin f w, .st w, .pop]

/-- The code of `++` and `--` on an identifier. -/
def stepCode (layout : Layout) (code : BitVec 32 → Width → List Instr) (dataType : Nat)
    (child : Node) : List Instr :=
  if child.nodeType = some .id then
    match child.symbol with
    | some symbol => widthCode dataType (code (layout.idValue symbol))
    | none => []
  else []

/-- The number of siblings behind a node. -/
def Node.siblings : Node → Nat
  | null => 0
  | node _ _ s => if s.isNull then 0 else s.siblings + 1

/-- The store of an assignment, and the value loaded again. -/
def assignCode (dataType : Nat) : List Instr × List FinshError :=
  match dataWidth dataType with
  | none => ([], [.unknownType])
  | some w => ([.st w, .ldValueStack w], [])

/-- The code of one node, behind the code of its children. -/
def nodeCode (layout : Layout) (d : NodeData) (child : Node) : List Instr × List FinshError :=
  match d.nodeType with
  | .id =>
    match d.symbol with
    | some symbol => (idCode layout d.address symbol, [])
    | none => ([], [])
  | .valueChar => ([.ld .byte (d.value.setWidth 8)], [])
  | .valueInt | .valueLong => ([.ld .dword d.value], [])
  | .valueNull => ([.ld .dword 0], [])
  | .valueString => ([.ld .dword (layout.stringAt d.string)], [])
  | .add => (binaryCode d.dataType .add, [])
  | .sub => (binaryCode d.dataType .sub, [])
  | .mul => (binaryCode d.dataType .mul, [])
  | .div => (binaryCode d.dataType .div, [])
  | .mod => (binaryCode d.dataType .mod, [])
  | .and => (binaryCode d.dataType .and, [])
  | .or => (binaryCode d.dataType .or, [])
  | .xor => (binaryCode d.dataType .xor, [])
  | .bitwise => (widthCode d.dataType fun w => [.bw w], [])
  | .shl => (binaryCode d.dataType .shl, [])
  | .shr => (binaryCode d.dataType .shr, [])
  | .func => (if child.isNull then [] else [.call (BitVec.ofNat 8 child.siblings)], [])
  | .assign =>
    if child.nodeType = some .id then assignCode child.dataType
    else if child.nodeType = some .getvalue then assignCode (child.dataType % 16)
    else ([], [])
  | .preinc => (stepCode layout (preCode .add) d.dataType child, [])
  | .predec => (stepCode layout (preCode .sub) d.dataType child, [])
  | .inc => (stepCode layout (postCode .add) d.dataType child, [])
  | .dec => (stepCode layout (postCode .sub) d.dataType child, [])
  | .null => ([.noOp, .noOp, .noOp, .noOp], [])
  | .getvalue => (if d.address then [] else widthCode d.dataType fun w => [.ldValueStack w], [])
  | .getaddr => ([], [])
  | .cast => ([], [.unknownNode])

/-- `finsh_compile` -/
def finshCompile (layout : Layout) : Node → List Instr × List FinshError
  | .null => ([], [])
  | .node d c s =>
    let child := finshCompile layout c
    let own := nodeCode layout d c
    let sibling := finshCompile layout s
    (child.1 ++ own.1 ++ sibling.1, child.2 ++ own.2 ++ sibling.2)

/-- The loop of `finsh_compiler_run`: every tree without its siblings, and a `POP` behind all but
the last. -/
def compileStatements (layout : Layout) : Node → List Instr × List FinshError
  | .null => ([], [])
  | .node d c s =>
    let current := finshCompile layout (.node d c .null)
    let rest := compileStatements layout s
    if s.isNull then current
    else (current.1 ++ .pop :: rest.1, current.2 ++ rest.2)

/-- `finsh_compiler_run` -/
def finshCompilerRun (layout : Layout) (root : Node) : List Instr × List FinshError :=
  let checked := finshTypeCheck root false
  let code := compileStatements layout checked.1
  (code.1, checked.2 ++ code.2)

/-- The bytes that are written to the text segment. -/
def encodeText (l : List Instr) : List (BitVec 8) := l.flatMap Instr.encode

end Tudu.Finsh
