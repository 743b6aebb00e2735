import TuduOS.Finsh.Buffers

/-!
# What the code of a line does

* `Expr`: the integer expressions over the variables of the shell; `tree` is the tree that the
  parser makes of one, and `eval` its meaning. An operation has the width of its left operand, an
  assignment that of its variable.
* `Wide`: the other operand is not narrower. A load of a narrow value leaves the upper bytes of its
  slot as they were, and a wider operation would read them.
* `code`: the instructions, which leave the value of the expression on the stack (`Leaves`).
-/

namespace Tudu.Finsh

/-- The types of the integers. -/
inductive IntType where
  | char | uchar | short | ushort | int | uint | long | ulong

namespace IntType

def toType : IntType → FinshType
  | char => .char
  | uchar => .uchar
  | short => .short
  | ushort => .ushort
  | int => .int
  | uint => .uint
  | long => .long
  | ulong => .ulong

def width : IntType → Width
  | char | uchar => .byte
  | short | ushort => .word
  | int | uint | long | ulong => .dword

end IntType

/-- A variable of the shell, or one of the system. -/
inductive IntVar where
  | user (slot : Nat) (type : IntType)
  | system (item : BitVec 32) (type : IntType) (address : BitVec 32)

namespace IntVar

def symbol : IntVar → Symbol
  | user slot type => .var slot type.toType
  | system item type address => .sysvar item type.toType address

def width : IntVar → Width
  | user _ type | system _ type _ => type.width

def address (layout : Layout) : IntVar → BitVec 32
  | user slot type => layout.idValue (.var slot type.toType)
  | system _ _ address => address

def node (x : IntVar) (s : Node) : Node :=
  .node { NodeData.ofType .id with symbol := some x.symbol } .null s

end IntVar

def BinOp.nodeType : BinOp → NodeType
  | .add => .add
  | .sub => .sub
  | .div => .div
  | .mod => .mod
  | .mul => .mul
  | .and => .and
  | .or => .or
  | .xor => .xor
  | .shl => .shl
  | .shr => .shr

/-- `++` and `--` are those of the variables of the shell. -/
inductive Expr where
  | char (v : BitVec 32)
  | int (v : BitVec 32)
  | long (v : BitVec 32)
  | var (x : IntVar)
  | bin (f : BinOp) (a b : Expr)
  | bitwise (a : Expr)
  | assign (x : IntVar) (a : Expr)
  | pre (down : Bool) (slot : Nat) (type : IntType)
  | post (down : Bool) (slot : Nat) (type : IntType)

namespace Expr

def width : Expr → Width
  | char _ => .byte
  | int _ | long _ => .dword
  | var x | assign x _ => x.width
  | bin _ a _ | bitwise a => a.width
  | pre _ _ type | post _ _ type => type.width

/-- The tree of the expression, with the siblings behind it. -/
def tree : Expr → Node → Node
  | char v, s => .node { NodeData.ofType .valueChar with value := v } .null s
  | int v, s => .node { NodeData.ofType .valueInt with value := v } .null s
  | long v, s => .node { NodeData.ofType .valueLong with value := v } .null s
  | var x, s => x.node s
  | bin f a b, s => .node (.ofType f.nodeType) (a.tree (b.tree .null)) s
  | bitwise a, s => .node (.ofType .bitwise) (a.tree .null) s
  | assign x a, s => .node (.ofType .assign) (x.node (a.tree .null)) s
  | pre down slot type, s =>
    .node (.ofType (if down then .predec else .preinc)) ((IntVar.user slot type).node .null) s
  | post down slot type, s =>
    .node (.ofType (if down then .dec else .inc)) ((IntVar.user slot type).node .null) s

/-- No operand is narrower than the operation. -/
def Wide : Expr → Prop
  | bin _ a b => a.Wide ∧ b.Wide ∧ a.width.bits ≤ b.width.bits
  | bitwise a => a.Wide
  | assign x a => a.Wide ∧ x.width.bits ≤ a.width.bits
  | _ => True

/-- The operation of `--` or `++`. -/
def stepOp (down : Bool) : BinOp := if down then .sub else .add

section

variable (m : Machine) (layout : Layout)

/-- The value of a variable one up or down. -/
def stepped (down : Bool) (x : IntVar) (mem : Memory) : BitVec x.width.bits :=
  m.binOp (stepOp down) x.width (mem.load x.width (x.address layout)) 1

/-- The memory behind `++` or `--`. -/
def stepMem (down : Bool) (x : IntVar) (mem : Memory) : Memory :=
  mem.store x.width (x.address layout) (stepped m layout down x mem)

/-- The value, and the memory behind it. -/
def eval : (e : Expr) → Memory → BitVec e.width.bits × Memory
  | char v, mem => (v.setWidth 8, mem)
  | int v, mem => (v, mem)
  | long v, mem => (v, mem)
  | var x, mem => (mem.load x.width (x.address layout), mem)
  | bin f a b, mem =>
    let left := a.eval mem
    let right := b.eval left.2
    (m.binOp f a.width left.1 (right.1.setWidth a.width.bits), right.2)
  | bitwise a, mem =>
    let r := a.eval mem
    (~~~ r.1, r.2)
  | assign x a, mem =>
    let r := a.eval mem
    let v := r.1.setWidth x.width.bits
    (v, r.2.store x.width (x.address layout) v)
  | pre down slot type, mem =>
    (stepped m layout down (.user slot type) mem, stepMem m layout down (.user slot type) mem)
  | post down slot type, mem =>
    (mem.load type.width ((IntVar.user slot type).address layout),
      stepMem m layout down (.user slot type) mem)

end

/-- The instructions of the expression. -/
def code (layout : Layout) : Expr → List Instr
  | char v => [.ld .byte (v.setWidth 8)]
  | int v | long v => [.ld .dword v]
  | var x => [.ldValue x.width (x.address layout)]
  | bin f a b => a.code layout ++ b.code layout ++ [.bin f a.width]
  | bitwise a => a.code layout ++ [.bw a.width]
  | assign x a =>
    .ld .dword (x.address layout) :: a.code layout ++ [.st x.width, .ldValueStack x.width]
  | pre down slot type =>
    let adr := (IntVar.user slot type).address layout
    .ld .dword adr :: preCode (stepOp down) adr type.width
  | post down slot type =>
    let adr := (IntVar.user slot type).address layout
    .ldValue type.width adr :: postCode (stepOp down) adr type.width

end Expr

/-! ## The compiler makes this code -/

def Width.dataType : Width → Nat
  | .byte => dataTypeByte
  | .word => dataTypeWord
  | .dword => dataTypeDword

theorem dataWidth_dataType (w : Width) : dataWidth w.dataType = some w := by cases w <;> rfl

theorem IntType.dataType_toType (t : IntType) : t.toType.dataType = some t.width.dataType := by
  cases t <;> rfl

theorem IntType.loadWidth_toType (t : IntType) : t.toType.loadWidth = some t.width := by
  cases t <;> rfl

section

variable {layout : Layout} {isAddr : Bool} {c s : Node} {l l' own : List Instr}

theorem widthCode_dataType (w : Width) (code : Width → List Instr) :
    widthCode w.dataType code = code w := by
  rw [widthCode, dataWidth_dataType]

theorem IntVar.idCode_symbol (x : IntVar) : idCode layout isAddr x.symbol =
    [if isAddr then .ld .dword (x.address layout) else .ldValue x.width (x.address layout)] := by
  cases x with
  | user slot type | system item type address =>
    simp only [IntVar.symbol, idCode, loadCode, IntType.loadWidth_toType]
    cases isAddr <;> rfl

theorem IntVar.leafType_node (x : IntVar) :
    leafType { NodeData.ofType .id with symbol := some x.symbol } = (x.width.dataType, []) := by
  cases x with
  | user slot type | system item type address =>
    simp only [leafType, NodeData.ofType, IntVar.symbol, IntType.dataType_toType]
    rfl

theorem IntVar.type_node (x : IntVar) (s : Node) : (x.node s).type = x.width.dataType :=
  congrArg Prod.fst x.leafType_node

/-- The check finds no error in the nodes, and their code is `l`. -/
def Compiles (layout : Layout) (c : Node) (isAddr : Bool) (l : List Instr) : Prop :=
  (finshTypeCheck c isAddr).2 = [] ∧ finshCompile layout (finshTypeCheck c isAddr).1 = (l, [])

theorem IntVar.compile_node (x : IntVar) (isAddr : Bool) (h : Compiles layout c false l) :
    Compiles layout (x.node c) isAddr ((if isAddr then .ld .dword (x.address layout)
      else .ldValue x.width (x.address layout)) :: l) := by
  have hmark : markAddress { NodeData.ofType .id with symbol := some x.symbol } isAddr =
      isAddr := by
    cases x <;> exact Bool.false_or _
  unfold IntVar.node Compiles
  simp only [finshTypeCheck, Node.isNull, if_true, x.leafType_node, hmark]
  refine ⟨by simp [h.1], ?_⟩
  simp only [finshCompile, nodeCode, NodeData.ofType, x.idCode_symbol, h.2]
  rfl

/-- A node with a child and siblings behind it. -/
theorem compile_inner {type : NodeType} (hc : c.isNull = false)
    (hchild : Compiles layout c (childAddress type false) l)
    (hown : nodeCode layout { NodeData.ofType type with dataType := c.type } (finshTypeCheck c (childAddress type false)).1 = (own, []))
    (hs : Compiles layout s false l') :
    Compiles layout (.node (.ofType type) c s) false (l ++ own ++ l') := by
  have hcheck : finshTypeCheck (.node (.ofType type) c s) false =
      (.node { NodeData.ofType type with dataType := c.type }
        (finshTypeCheck c (childAddress type false)).1 (finshTypeCheck s false).1,
        (finshTypeCheck c (childAddress type false)).2 ++ (finshTypeCheck s false).2) := by
    rw [finshTypeCheck, if_neg (by simp [hc]), dataType_typeCheck, List.append_nil]
    rfl
  unfold Compiles
  rw [hcheck]
  refine ⟨by rw [hchild.1, hs.1]; rfl, ?_⟩
  rw [finshCompile, hchild.2, hown, hs.2]
  rfl

theorem IntVar.stepCode_user (code : BitVec 32 → Width → List Instr) (slot : Nat) (type : IntType) :
    stepCode layout code (IntVar.user slot type).width.dataType
      (finshTypeCheck ((IntVar.user slot type).node .null) isAddr).1 =
      code ((IntVar.user slot type).address layout) type.width := by
  rw [stepCode, nodeType_typeCheck, symbol_typeCheck]
  exact widthCode_dataType ..

namespace Expr

theorem isNull_tree (e : Expr) (s : Node) : (e.tree s).isNull = false := by cases e <;> rfl

theorem type_tree (e : Expr) (s : Node) : (e.tree s).type = e.width.dataType := by
  induction e generalizing s with
  | var x => exact x.type_node s
  | bin f a b iha _ =>
    rw [tree, Node.type, isNull_tree]
    exact iha _
  | bitwise a ih =>
    rw [tree, Node.type, isNull_tree]
    exact ih _
  | assign x a => exact x.type_node (a.tree .null)
  | pre down slot type | post down slot type => exact IntVar.type_node _ .null
  | _ => rfl

/-- The code of the tree is that of the expression. -/
theorem compile_tree (e : Expr) (h : Compiles layout s false l) :
    Compiles layout (e.tree s) false (e.code layout ++ l) := by
  have hnil : Compiles layout .null false [] := ⟨rfl, rfl⟩
  induction e generalizing s l with
  | char v | int v | long v =>
    exact ⟨(List.append_nil _).trans h.1,
      congrArg (fun r : List Instr × List FinshError => (_ :: r.1, r.2)) h.2⟩
  | var x => exact x.compile_node false h
  | bin f a b iha ihb =>
    have haddr : childAddress f.nodeType false = false := by cases f <;> rfl
    have hown : ∀ c, nodeCode layout { NodeData.ofType f.nodeType with
        dataType := a.width.dataType } c = ([.bin f a.width], []) := by
      intro c
      cases f <;> exact congrArg (·, []) (widthCode_dataType ..)
    have hnode := compile_inner (a.isNull_tree _) (haddr.symm ▸ iha (ihb hnil))
      (by rw [type_tree, hown]) h
    simpa [code, tree] using hnode
  | bitwise a ih =>
    have hnode : Compiles layout ((bitwise a).tree s) false _ := compile_inner (a.isNull_tree _)
      (ih hnil) (by rw [type_tree]; exact congrArg (·, []) (widthCode_dataType ..)) h
    simpa [code] using hnode
  | assign x a ih =>
    have hchild := x.compile_node true (ih hnil)
    have hown : assignCode (finshTypeCheck (x.node (a.tree .null)) true).1.dataType =
        ([.st x.width, .ldValueStack x.width], []) := by
      rw [dataType_typeCheck, x.type_node, assignCode, dataWidth_dataType]
    have hnode : Compiles layout ((assign x a).tree s) false _ := compile_inner rfl hchild hown h
    simpa [code] using hnode
  | pre down slot type =>
    have hchild := (IntVar.user slot type).compile_node true hnil
    show Compiles layout (.node (.ofType (if down then .predec else .preinc)) _ s) false
      ([.ld .dword _] ++ preCode (stepOp down) _ type.width ++ l)
    refine compile_inner rfl ?_ ?_ h
    · cases down <;> exact hchild
    · rw [IntVar.type_node]
      cases down <;> exact congrArg (·, []) (IntVar.stepCode_user ..)
  | post down slot type =>
    have hchild := (IntVar.user slot type).compile_node false hnil
    show Compiles layout (.node (.ofType (if down then .dec else .inc)) _ s) false
      ([.ldValue type.width _] ++ postCode (stepOp down) _ type.width ++ l)
    refine compile_inner rfl ?_ ?_ h
    · cases down <;> exact hchild
    · rw [IntVar.type_node]
      cases down <;> exact congrArg (·, []) (IntVar.stepCode_user ..)

end Expr

end

/-! ## The slots and the memory -/

theorem readSlot_writeSlot {w : Width} (v : BitVec 32) (x : BitVec w.bits) :
    readSlot w (writeSlot w v x) = x := by
  apply BitVec.eq_of_getLsbD_eq
  intro i hi
  have h32 : i < 32 := by cases w <;> simp at hi <;> omega
  simp [-Width.bits, readSlot, writeSlot, hi, h32]

theorem readSlot_narrow {w w' : Width} (h : w'.bits ≤ w.bits) (v : BitVec 32) :
    readSlot w' v = (readSlot w v).setWidth w'.bits :=
  (BitVec.setWidth_setWidth_of_le v h).symm

theorem setWidth_bytes (x3 x2 x1 x0 : BitVec 8) :
    (x3 ++ x2 ++ x1 ++ x0).setWidth (8 + 8) = x1 ++ x0 := by
  apply BitVec.eq_of_getLsbD_eq
  intro i hi
  by_cases h : i < 8
  · simp only [BitVec.getLsbD_setWidth, BitVec.getLsbD_append, hi, h, decide_true, Bool.true_and,
      if_true]
  · simp only [BitVec.getLsbD_setWidth, BitVec.getLsbD_append, hi, h, show i - 8 < 8 by omega,
      decide_true, Bool.true_and, if_true, if_false]

/-- The lower bytes of a double word. -/
theorem load_narrow (mem : Memory) (w : Width) (a : BitVec 32) :
    (mem.load .dword a).setWidth w.bits = mem.load w a := by
  cases w with
  | byte => exact BitVec.setWidth_append_eq_right
  | word => exact setWidth_bytes ..
  | dword => exact BitVec.setWidth_eq _

theorem load_store {mem : Memory} {w : Width} {a : BitVec 32} {x : BitVec w.bits} :
    (mem.store w a x).load w a = x := by
  cases w with
  | byte =>
    simp [Memory.load, Memory.store]
    exact BitVec.extractLsb'_eq_self
  | word =>
    simp [Memory.load, Memory.store]
    exact append_bytes_word x
  | dword =>
    simp [Memory.load, Memory.store]
    exact append_bytes_dword x

theorem Vm.put_stack (s : Vm) (k : Nat) (w : Width) (x : BitVec w.bits) (sp : Nat) :
    (s.put k w x sp).stack = Function.update s.stack (s.sp - k) (writeSlot w (s.slot k) x) := rfl

/-! ## The code leaves the value -/

/-- From `s` to `s'` one value is left on the stack. -/
structure Leaves (s : Vm) {w : Width} (r : BitVec w.bits × Memory) (s' : Vm) : Prop where
  sp : s'.sp = s.sp + 1
  below : ∀ i < s.sp, s'.stack i = s.stack i
  value : readSlot w (s'.stack s.sp) = r.1
  mem : s'.mem = r.2

section

variable {m : Machine} {layout : Layout} {s s1 s2 : Vm} {w w' : Width} {mem : Memory}
  {a : BitVec w.bits × Memory} {b : BitVec w'.bits × Memory}

theorem Leaves.narrow (h : Leaves s a s1) (hle : w'.bits ≤ w.bits) :
    Leaves s (a.1.setWidth w'.bits, a.2) s1 :=
  ⟨h.sp, h.below, by rw [readSlot_narrow hle, h.value], h.mem⟩

theorem Leaves.slot_one (h : Leaves s a s1) : readSlot w (s1.slot 1) = a.1 := by
  rw [Vm.slot, h.sp]
  exact h.value

theorem Leaves.slot_two (ha : Leaves s a s1) (hb : Leaves s1 b s2) :
    readSlot w (s2.slot 2) = a.1 := by
  rw [Vm.slot, hb.sp, ha.sp]
  exact (congrArg _ (hb.below s.sp (by rw [ha.sp]; omega))).trans ha.value

/-- The value on top is replaced. -/
theorem Leaves.put (h : Leaves s a s1) (x : BitVec w'.bits) :
    Leaves s (x, a.2) (s1.put 1 w' x s1.sp) := by
  have hsp : s1.sp - 1 = s.sp := by rw [h.sp, Nat.add_sub_cancel]
  refine ⟨h.sp, fun i hi => ?_, ?_, h.mem⟩
  · rw [Vm.put_stack, hsp, Function.update_of_ne (Nat.ne_of_lt hi), h.below i hi]
  · rw [Vm.put_stack, hsp, Function.update_self, readSlot_writeSlot]

/-- The value on top is dropped, and the memory changes. -/
theorem Leaves.drop (ha : Leaves s a s1) (hb : Leaves s1 b s2) (mem : Memory) :
    Leaves s (a.1, mem) ⟨s2.sp - 1, s2.stack, mem⟩ where
  sp := by rw [hb.sp, ha.sp, Nat.add_sub_cancel]
  below i hi := (hb.below i (by rw [ha.sp]; omega)).trans (ha.below i hi)
  value := (congrArg _ (hb.below s.sp (by rw [ha.sp]; omega))).trans ha.value
  mem := rfl

theorem ld_leaves (hroom : s.sp < finshStackMax) (x : BitVec w.bits) :
    ∃ s', opLd w x s = .ok s' ∧ Leaves s (x, s.mem) s' := by
  refine ⟨_, if_pos hroom, rfl, fun i hi => ?_, ?_, rfl⟩
  · exact Function.update_of_ne (by omega) ..
  · rw [Vm.put_stack, Nat.sub_zero, Function.update_self, readSlot_writeSlot]

theorem bin_leaves (f : BinOp) (ha : Leaves s a s1) (hb : Leaves s1 b s2) (hle : w.bits ≤ w'.bits) :
    ∃ s', opBin m f w s2 = .ok s' ∧ Leaves s (m.binOp f w a.1 (b.1.setWidth w.bits), b.2) s' := by
  have hsp := ha.sp
  have hsp' := hb.sp
  refine ⟨_, if_pos (by omega), ?_, fun i hi => ?_, ?_, hb.mem⟩
  · show s2.sp - 1 = _
    omega
  · rw [Vm.put_stack, Function.update_of_ne (show i ≠ s2.sp - 2 by omega), hb.below i (by omega),
      ha.below i hi]
  · rw [Vm.put_stack, show s2.sp - 2 = s.sp by omega, Function.update_self, readSlot_writeSlot,
      ha.slot_two hb, readSlot_narrow hle, hb.slot_one]

/-- The store of a value below which its address is. -/
theorem st_leaves {adr : BitVec 32} (ha : Leaves (w := .dword) s (adr, mem) s1)
    (hb : Leaves s1 b s2) (hle : w.bits ≤ w'.bits) : ∃ s', opSt w s2 = .ok s' ∧
      Leaves (w := .dword) s (adr, b.2.store w adr (b.1.setWidth w.bits)) s' := by
  have hsp := ha.sp
  have hsp' := hb.sp
  have hadr : s2.slot 2 = adr := (BitVec.setWidth_eq _).symm.trans (ha.slot_two hb)
  have hmem : s2.mem.store w (s2.slot 2) (readSlot w (s2.slot 1)) =
      b.2.store w adr (b.1.setWidth w.bits) := by
    rw [hadr, readSlot_narrow hle, hb.slot_one, hb.mem]
  exact ⟨_, if_pos (by omega), hmem ▸ ha.drop hb _⟩

theorem ldValueStack_leaves {adr : BitVec 32} (h : Leaves (w := .dword) s (adr, mem) s1) :
    ∃ s', opLdValueStack w s1 = .ok s' ∧ Leaves s (mem.load w adr, mem) s' := by
  have hsp := h.sp
  have hadr : s1.slot 1 = adr := (BitVec.setWidth_eq _).symm.trans h.slot_one
  have hval : s1.mem.load w (s1.slot 1) = mem.load w adr := by rw [hadr, h.mem]
  exact ⟨_, if_pos (by omega), hval ▸ h.put _⟩

theorem bw_leaves (h : Leaves s a s1) : ∃ s', opBw w s1 = .ok s' ∧ Leaves s (~~~ a.1, a.2) s' := by
  have hsp := h.sp
  exact ⟨_, if_pos (by omega), h.slot_one ▸ h.put _⟩

theorem pop_leaves (ha : Leaves s a s1) (hb : Leaves s1 b s2) :
    ∃ s', opPop s2 = .ok s' ∧ Leaves s (a.1, b.2) s' := by
  have hsp := hb.sp
  exact ⟨_, if_pos (by omega), hb.mem ▸ ha.drop hb _⟩

theorem execAll_cons_ok {i : Instr} {l : List Instr} (h : i.exec m s = .ok s1) :
    (coding m).execAll (i :: l) s = (coding m).execAll l s1 := by
  rw [Straight.Coding.execAll_cons]
  show (i.exec m s).bind _ = _
  rw [h]
  rfl

/-- `++` or `--`: the variable one up or down, and its address on the stack. -/
theorem step_leaves (f : BinOp) (adr : BitVec 32) (w : Width) (hroom : s.sp + 3 ≤ finshStackMax) :
    ∃ s', (coding m).execAll [.ld .dword adr, .ldValue w adr, ldOne w, .bin f w, .st w] s = .ok s' ∧
      Leaves (w := .dword) s
        (adr, s.mem.store w adr (m.binOp f w (s.mem.load w adr) 1)) s' := by
  obtain ⟨s1, hx1, h1⟩ := ld_leaves (w := .dword) (s := s) (by omega) adr
  have hsp1 := h1.sp
  obtain ⟨s2, hx2, h2⟩ := ld_leaves (w := w) (s := s1) (by omega) (s1.mem.load w adr)
  have hsp2 := h2.sp
  obtain ⟨s3, hx3, h3⟩ := ld_leaves (w := w) (s := s2) (by omega) 1
  obtain ⟨s4, hx4, h4⟩ := bin_leaves (m := m) f h2 h3 (Nat.le_refl _)
  have hm1 : s1.mem = s.mem := h1.mem
  have hm2 : s2.mem = s1.mem := h2.mem
  simp only [hm2, hm1, BitVec.setWidth_eq] at h4
  obtain ⟨s5, hx5, h5⟩ := st_leaves h1 h4 (Nat.le_refl _)
  refine ⟨s5, ?_, ?_⟩
  · rw [execAll_cons_ok (i := .ld .dword adr) hx1, execAll_cons_ok (i := .ldValue w adr) hx2,
      execAll_cons_ok (i := ldOne w) hx3, execAll_cons_ok (i := .bin f w) hx4,
      execAll_cons_ok (i := .st w) hx5]
    rfl
  · simpa only [BitVec.setWidth_eq] using h5

namespace Expr

/-- A value takes two bytes of code, so that the text is full before the stack. -/
theorem two_le_length (layout : Layout) (e : Expr) : 2 ≤ (encodeText (e.code layout)).length := by
  induction e with
  | bin f a b iha _ =>
    rw [code, length_encodeText_append, length_encodeText_append]
    omega
  | bitwise a ih =>
    rw [code, length_encodeText_append]
    omega
  | char v => exact Nat.le_refl 2
  | int v | long v | var x => exact (show 2 ≤ 5 by decide)
  | assign x a | pre down slot type | post down slot type =>
    refine Nat.le_trans (show 2 ≤ 5 by decide) ?_
    exact length_encodeText_cons ▸ Nat.le_add_right ..

/-- The code of an expression, from any stack with room for it. -/
theorem exec_code (layout : Layout) (e : Expr) (hw : e.Wide)
    (hroom : 2 * s.sp + (encodeText (e.code layout)).length ≤ finshTextMax) :
    ∃ s', (coding m).execAll (e.code layout) s = .ok s' ∧ Leaves s (e.eval m layout s.mem) s' := by
  unfold finshTextMax at hroom
  have hfree : s.sp < finshStackMax := by
    have := two_le_length layout e
    unfold finshStackMax
    omega
  induction e generalizing s with
  | char v =>
    obtain ⟨s1, hx, h⟩ := ld_leaves (w := .byte) hfree (v.setWidth 8)
    exact ⟨s1, execAll_cons_ok (i := .ld .byte _) hx, h⟩
  | int v | long v =>
    obtain ⟨s1, hx, h⟩ := ld_leaves (w := .dword) hfree v
    exact ⟨s1, execAll_cons_ok (i := .ld .dword _) hx, h⟩
  | var x =>
    obtain ⟨s1, hx, h⟩ := ld_leaves (w := x.width) hfree (s.mem.load x.width (x.address layout))
    exact ⟨s1, execAll_cons_ok (i := .ldValue _ _) hx, h⟩
  | bin f a b iha ihb =>
    obtain ⟨hwa, hwb, hle⟩ := hw
    have hlen := two_le_length layout a
    have hlen' := two_le_length layout b
    rw [code, length_encodeText_append, length_encodeText_append] at hroom
    obtain ⟨s1, hx1, h1⟩ := iha hwa (by omega) hfree
    have hsp := h1.sp
    obtain ⟨s2, hx2, h2⟩ := ihb (s := s1) hwb (by omega) (by unfold finshStackMax; omega)
    rw [h1.mem] at h2
    obtain ⟨s3, hx3, h3⟩ := bin_leaves (m := m) f h1 h2 hle
    refine ⟨s3, ?_, h3⟩
    have hab := (Straight.Coding.execAll_append_ok hx1).trans hx2
    exact (Straight.Coding.execAll_append_ok hab).trans (execAll_cons_ok (i := .bin f a.width) hx3)
  | bitwise a ih =>
    rw [code, length_encodeText_append] at hroom
    obtain ⟨s1, hx1, h1⟩ := ih hw (by omega) hfree
    obtain ⟨s2, hx2, h2⟩ := bw_leaves h1
    exact ⟨s2, (Straight.Coding.execAll_append_ok hx1).trans
      (execAll_cons_ok (i := .bw a.width) hx2), h2⟩
  | assign x a ih =>
    obtain ⟨hwa, hle⟩ := hw
    have hlen := two_le_length layout a
    rw [code, List.cons_append, length_encodeText_cons, length_encodeText_append] at hroom
    have hld : (Instr.ld .dword (x.address layout)).encode.length = 5 := rfl
    obtain ⟨s1, hx1, h1⟩ := ld_leaves (w := .dword) hfree (x.address layout)
    have hsp := h1.sp
    obtain ⟨s2, hx2, h2⟩ := ih (s := s1) hwa (by omega) (by unfold finshStackMax; omega)
    rw [h1.mem] at h2
    obtain ⟨s3, hx3, h3⟩ := st_leaves (w := x.width) h1 h2 hle
    obtain ⟨s4, hx4, h4⟩ := ldValueStack_leaves (w := x.width) h3
    rw [load_store] at h4
    refine ⟨s4, ?_, h4⟩
    rw [code, List.cons_append, execAll_cons_ok (i := .ld .dword _) hx1,
      Straight.Coding.execAll_append_ok hx2, execAll_cons_ok (i := .st _) hx3]
    exact execAll_cons_ok (i := .ldValueStack _) hx4
  | pre down slot type =>
    obtain ⟨adr, hadr⟩ : ∃ adr, (IntVar.user slot type).address layout = adr := ⟨_, rfl⟩
    have hlen : (encodeText (preCode (stepOp down) adr type.width)).length = 9 + type.width.bytes :=
      (hasEffect_pre ..).bytes
    have hld : (Instr.ld .dword adr).encode.length = 5 := rfl
    rw [code, hadr, length_encodeText_cons, hlen, hld] at hroom
    obtain ⟨s1, hx1, h1⟩ := step_leaves (m := m) (s := s) (stepOp down) adr type.width
      (by unfold finshStackMax; omega)
    obtain ⟨s2, hx2, h2⟩ := ldValueStack_leaves (w := .dword) h1
    have h3 := h2.narrow (show type.width.bits ≤ Width.dword.bits by cases type <;> decide)
    rw [load_narrow, load_store] at h3
    subst hadr
    exact ⟨s2, (Straight.Coding.execAll_append_ok hx1).trans
      (execAll_cons_ok (i := .ldValueStack .dword) hx2), h3⟩
  | post down slot type =>
    obtain ⟨adr, hadr⟩ : ∃ adr, (IntVar.user slot type).address layout = adr := ⟨_, rfl⟩
    have hlen : (encodeText (postCode (stepOp down) adr type.width)).length =
        14 + type.width.bytes := (hasEffect_post ..).bytes
    rw [code, hadr, length_encodeText_cons, hlen] at hroom
    obtain ⟨s1, hx1, h1⟩ := ld_leaves (w := type.width) hfree
      (s.mem.load type.width adr)
    have hsp := h1.sp
    obtain ⟨s2, hx2, h2⟩ := step_leaves (m := m) (s := s1) (stepOp down) adr type.width
      (by unfold finshStackMax; omega)
    rw [h1.mem] at h2
    obtain ⟨s3, hx3, h3⟩ := pop_leaves h1 h2
    subst hadr
    refine ⟨s3, ?_, h3⟩
    refine (execAll_cons_ok (i := .ldValue type.width _) hx1).trans ?_
    exact (Straight.Coding.execAll_append_ok hx2).trans (execAll_cons_ok (i := .pop) hx3)

end Expr

/-! ## Lines -/

/-- The statements `es`, and the last one. -/
def line (es : List Expr) (e : Expr) : Node := es.foldr Expr.tree (e.tree .null)

def lineCode (layout : Layout) (es : List Expr) (e : Expr) : List Instr :=
  es.foldr (fun x l => x.code layout ++ .pop :: l) (e.code layout)

/-- The memory behind the statements. -/
def evalAll (m : Machine) (layout : Layout) (es : List Expr) (mem : Memory) : Memory :=
  es.foldl (fun mem x => (x.eval m layout mem).2) mem

theorem Expr.check_tree (e : Expr) : ∃ d c, ∀ s,
    (finshTypeCheck (e.tree s) false).1 = .node d c (finshTypeCheck s false).1 := by
  cases e <;> exact ⟨_, _, fun _ => rfl⟩

theorem compile_line (es : List Expr) (e : Expr) :
    finshCompilerRun layout (line es e) = (lineCode layout es e, []) := by
  have hone : ∀ x : Expr, Compiles layout (x.tree .null) false (x.code layout) := fun x => by
    simpa using x.compile_tree (s := .null) (l := []) ⟨rfl, rfl⟩
  suffices h : (∃ l, Compiles layout (line es e) false l) ∧
      compileStatements layout (finshTypeCheck (line es e) false).1 = (lineCode layout es e, []) by
    obtain ⟨⟨l, hl⟩, hcode⟩ := h
    rw [finshCompilerRun, hl.1, hcode]
    rfl
  induction es with
  | nil =>
    obtain ⟨d, c, hdc⟩ := e.check_tree
    have hcode := (hone e).2
    refine ⟨⟨_, hone e⟩, ?_⟩
    rw [hdc] at hcode
    show compileStatements layout (finshTypeCheck (e.tree .null) false).1 = _
    rw [hdc, compileStatements]
    exact hcode
  | cons x es ih =>
    obtain ⟨⟨l, hl⟩, hih⟩ := ih
    obtain ⟨d, c, hdc⟩ := x.check_tree
    have hcode := (hone x).2
    rw [hdc] at hcode
    refine ⟨⟨_, x.compile_tree hl⟩, ?_⟩
    show compileStatements layout (finshTypeCheck (x.tree (line es e)) false).1 = _
    have hnull : (finshTypeCheck (line es e) false).1.isNull = false := by
      rw [isNull_typeCheck]
      cases es <;> exact Expr.isNull_tree ..
    rw [hdc, compileStatements, hnull, hih]
    exact congrArg (fun r : List Instr × List FinshError =>
      (r.1 ++ .pop :: lineCode layout es e, r.2 ++ [])) hcode

theorem exec_line (es : List Expr) (e : Expr) (hw : ∀ x ∈ es, x.Wide) (hwe : e.Wide)
    (hroom : 2 * s.sp + (encodeText (lineCode layout es e)).length ≤ finshTextMax) :
    ∃ s', (coding m).execAll (lineCode layout es e) s = .ok s' ∧
      Leaves s (e.eval m layout (evalAll m layout es s.mem)) s' := by
  induction es generalizing s with
  | nil => exact e.exec_code layout hwe hroom
  | cons x es ih =>
    rw [lineCode, List.foldr_cons, length_encodeText_append, length_encodeText_cons] at hroom
    obtain ⟨s1, hx1, h1⟩ :=
      x.exec_code (m := m) (s := s) layout (hw x List.mem_cons_self) (by omega)
    have hpop : opPop s1 = .ok ⟨s.sp, s1.stack, (x.eval m layout s.mem).2⟩ := by
      rw [opPop, if_pos (by rw [h1.sp]; omega), ← h1.mem, h1.sp]
      rfl
    obtain ⟨s2, hx2, h2⟩ := ih (s := ⟨s.sp, s1.stack, _⟩)
      (fun y hy => hw y (List.mem_cons_of_mem x hy)) (by
        show 2 * s.sp + (encodeText (lineCode layout es e)).length ≤ _
        rw [lineCode]
        omega)
    refine ⟨s2, ?_, h2.sp, fun i hi => (h2.below i hi).trans (h1.below i hi), h2.value, h2.mem⟩
    refine (Straight.Coding.execAll_append_ok hx1).trans (.trans ?_ hx2)
    exact execAll_cons_ok (i := .pop) hpop

/-- The code of a line that fits into the text segment leaves the value of its last statement on the
stack, and nothing else there, and it changes the memory as the statements do. -/
theorem compiler_correct (layout : Layout) (es : List Expr) (e : Expr) (hw : ∀ x ∈ es, x.Wide)
    (hwe : e.Wide)
    (hfit : (encodeText (finshCompilerRun layout (line es e)).1).length ≤ finshTextMax)
    (mem : Memory) :
    (finshCompilerRun layout (line es e)).2 = [] ∧ ∃ s,
      finshVmRun m (textSegment (encodeText (finshCompilerRun layout (line es e)).1)) mem = .ok s ∧
        s.sp = 1 ∧
        readSlot e.width (s.stack 0) = (e.eval m layout (evalAll m layout es mem)).1 ∧
        s.mem = (e.eval m layout (evalAll m layout es mem)).2 := by
  rw [compile_line] at hfit ⊢
  obtain ⟨s, hx, h⟩ := exec_line (m := m) (s := ⟨0, fun _ => 0, mem⟩) es e hw hwe
    ((Nat.zero_add _).trans_le hfit)
  exact ⟨rfl, s, (finshVmRun_eq hfit mem).trans hx, h.sp, h.value, h.mem⟩

end

/-- A processor on which `char` has a sign, and no functions. -/
def signedMachine : Machine := ⟨true, fun _ _ a _ => a, fun _ _ mem => (0, mem)⟩

/-- `a = 3 + 4 * b` -/
def assignSum : Expr :=
  .assign (.user 0 .int) (.bin .add (.int 3) (.bin .mul (.int 4) (.var (.user 1 .int))))

/-- `b` is 5 and `c` 9. -/
def fiveNine : Memory := fun a => if a = 300 then 5 else if a = 324 then 9 else 0

/-- `a = 3 + 4 * b; c++` with a `char` `c`. -/
theorem compiler_correct_two : ∃ s, finshVmRun signedMachine (textSegment (encodeText
      (finshCompilerRun ⟨256, fun _ => 0⟩ (line [assignSum] (.post false 2 .char))).1)) fiveNine =
        .ok s ∧
    s.sp = 1 ∧ s.mem.load .dword 276 = 23 ∧ s.mem.load .byte 324 = 10 := by
  have hwide : assignSum.Wide := ⟨⟨trivial, ⟨trivial, trivial, Nat.le_refl _⟩, Nat.le_refl _⟩,
    Nat.le_refl _⟩
  obtain ⟨-, s, hx, hsp, -, hmem⟩ := compiler_correct (m := signedMachine) ⟨256, fun _ => 0⟩
    [assignSum] (.post false 2 .char) (List.forall_mem_singleton.mpr hwide) trivial
    (by decide +kernel) fiveNine
  refine ⟨s, hx, hsp, ?_, ?_⟩
  · rw [hmem]
    decide +kernel
  · rw [hmem]
    decide +kernel

end Tudu.Finsh
