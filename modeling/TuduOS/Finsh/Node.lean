import TuduOS.Finsh.Token

/-!
# The nodes of the syntax tree and the variables of the shell (`finsh_node.c`, `finsh_var.c`)

A node points to its first child and to its next sibling. As a node is linked in once, the tree that
hangs on a pointer is a value: `Node.null` is the null pointer.

* A node of an identifier keeps what its pointer leads to: the type of the variable, and the address
  of a system variable or a function. What the tables of the system have for a name is `Symbols`.
* A node of a string keeps the string itself. Its place in the heap of the shell is the subject of
  `TuduOS.Finsh.Strings`.
-/

namespace Tudu.Finsh

/-- `enum finsh_type` -/
inductive FinshType where
  | unknown | void | voidp | char | uchar | charp | short | ushort | shortp | int | uint | intp
  | long | ulong | longp
  deriving DecidableEq

/-- The number of the type. -/
def FinshType.number : FinshType → Nat
  | unknown => 0
  | void => 1
  | voidp => 2
  | char => 3
  | uchar => 4
  | charp => 5
  | short => 6
  | ushort => 7
  | shortp => 8
  | int => 9
  | uint => 10
  | intp => 11
  | long => 12
  | ulong => 13
  | longp => 14

/-- `FINSH_NODE_ID` and the other types of nodes. -/
inductive NodeType where
  | id | valueChar | valueInt | valueLong | valueString | valueNull
  | add | sub | mul | div | mod | and | or | xor | bitwise | shl | shr
  | func | assign | cast | preinc | predec | inc | dec | getvalue | getaddr | null
  deriving DecidableEq

/-- What the pointer of an identifier leads to: an entry of the table of variables, a
`struct finsh_sysvar` or a `struct finsh_syscall`. -/
inductive Symbol where
  | var (slot : Nat) (type : FinshType)
  | sysvar (item : BitVec 32) (type : FinshType) (address : BitVec 32)
  | syscall (item : BitVec 32) (func : BitVec 32)
  deriving DecidableEq

/-- The fields of `struct finsh_node` but for the links. `address` is the bit `FINSH_IDTYPE_ADDRESS`
of `idtype`; the other bits say which kind of `symbol` there is. -/
structure NodeData where
  nodeType : NodeType
  dataType : Nat
  address : Bool
  value : BitVec 32
  string : List Char
  symbol : Option Symbol
  deriving DecidableEq

inductive Node where
  | null
  | node (data : NodeData) (child sibling : Node)
  deriving DecidableEq

namespace Node

def isNull : Node → Bool
  | null => true
  | node .. => false

def setSibling : Node → Node → Node
  | null, _ => null
  | node d c _, s => node d c s

def setDataType (type : Nat) : Node → Node
  | null => null
  | node d c s => node { d with dataType := type } c s

/-- The nodes one after the other. -/
def chain : List Node → Node
  | [] => null
  | a :: l => a.setSibling (chain l)

/-- How many nodes there are. -/
def size : Node → Nat
  | null => 0
  | node _ c s => 1 + c.size + s.size

@[simp] theorem size_setSibling_null (a : Node) : (a.setSibling null).size ≤ a.size := by
  cases a
  · exact Nat.le_refl _
  · exact Nat.le_add_right _ _

theorem size_setSibling_le (a s : Node) : (a.setSibling s).size ≤ a.size + s.size := by
  cases a
  · exact Nat.zero_le _
  · simp only [setSibling, size]
    omega

@[simp] theorem size_setDataType (a : Node) (t : Nat) : (a.setDataType t).size = a.size := by
  cases a <;> rfl

end Node

/-! ## The variables -/

/-- `FINSH_NAME_MAX` -/
def finshNameMax : Nat := 16

/-- `struct finsh_var`, but for the value. -/
structure FinshVar where
  name : List Char
  type : FinshType
  deriving DecidableEq

/-- The `FINSH_VARIABLE_MAX` entries of `global_variable`. -/
def finshVarInit : List FinshVar := List.replicate 8 ⟨[], .unknown⟩

/-- `finsh_var_insert`: there is no value if the source returns -1. -/
def finshVarInsert (vars : List FinshVar) (name : List Char) (type : FinshType) :
    Option (List FinshVar) :=
  if vars.any fun v => v.name == name then none
  else (vars.findIdx? fun v => v.type == .unknown).map fun i => vars.set i ⟨name, type⟩

/-- `finsh_var_lookup` -/
def finshVarLookup (vars : List FinshVar) (name : List Char) : Option Symbol :=
  (vars.findIdx? fun v => v.name == name).bind fun i =>
    vars[i]?.map fun v => .var i v.type

structure FinshSysvar where
  item : BitVec 32
  type : FinshType
  address : BitVec 32

structure FinshSyscall where
  item : BitVec 32
  func : BitVec 32

/-- What `finsh_sysvar_lookup` and `finsh_syscall_lookup` find. -/
structure Symbols where
  sysvar : List Char → Option FinshSysvar
  syscall : List Char → Option FinshSyscall

/-- The search of `finsh_node_new_id`. -/
def Symbols.lookup (symbols : Symbols) (vars : List FinshVar) (name : List Char) : Option Symbol :=
  match finshVarLookup vars name with
  | some symbol => some symbol
  | none =>
    match symbols.sysvar name with
    | some sysvar => some (.sysvar sysvar.item sysvar.type sysvar.address)
    | none => (symbols.syscall name).map fun syscall => .syscall syscall.item syscall.func

end Tudu.Finsh
