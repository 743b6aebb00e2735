import TuduOS.Finsh.Compiler
import TuduOS.Finsh.NodeTable

/-!
# The text segment and the stack of the shell

The code of a line is as long as the nodes of its tree make it, and a value that an operation takes
from the stack must have been left there by the nodes before it. Neither is looked at when the line
is compiled or run: `line_stays_iff` says which lines stay in the buffers.

* `Effect`: the bytes of a node's code, the values that it takes and the values that it leaves.
* `lineSize`, `lineHeight`: the bytes of a line, and the values that it leaves on the stack.
-/

namespace Tudu.Finsh

open Straight

/-! ## The stack -/

/-- The height of the stack behind an operation, if the values that it takes are there. -/
def heightAfter (takes leaves h : Nat) : Option Nat :=
  if takes ≤ h then some (h - takes + leaves) else none

/-- The height of the stack behind the code. -/
def heights : List Instr → Nat → Option Nat
  | [], h => some h
  | i :: l, h => (heightAfter i.takes i.leaves h).bind (heights l)

/-- No call has more parameters than `OP_call` has room for. -/
def FewParameters (l : List Instr) : Prop := ∀ n, .call n ∈ l → n.toNat ≤ 16

section Stack

variable {m : Machine} {s s' : Vm} {i : Instr} {l k : List Instr} {h : Nat}

theorem heights_append : heights (l ++ k) h = (heights l h).bind (heights k) := by
  induction l generalizing h with
  | nil => rfl
  | cons i l ih =>
    change (heightAfter i.takes i.leaves h).bind (heights (l ++ k)) =
      ((heightAfter i.takes i.leaves h).bind (heights l)).bind (heights k)
    cases heightAfter i.takes i.leaves h with
    | none => rfl
    | some h' => exact ih

/-- The stack has no room for a value only if there is no room for its code in the text either. -/
theorem exec_height (hn : ∀ n, i = .call n → n.toNat ≤ 16)
    (hroom : 2 * s.sp + i.encode.length ≤ finshTextMax) :
    match heightAfter i.takes i.leaves s.sp with
    | none => i.exec m s = .error .stack
    | some h => ∃ s', i.exec m s = .ok s' ∧ s'.sp = h := by
  have htext : finshTextMax = 128 := rfl
  have hstack : finshStackMax = 64 := rfl
  unfold heightAfter
  by_cases hle : i.takes ≤ s.sp
  · rw [if_pos hle]
    have hld : ∀ (w : Width) (x : BitVec w.bits), s.sp < finshStackMax →
        ∃ s', opLd w x s = .ok s' ∧ s'.sp = s.sp + 1 := fun w x hlt => ⟨_, if_pos hlt, rfl⟩
    cases i with
    | noOp => exact ⟨s, rfl, rfl⟩
    | bin _ _ | st _ =>
      exact ⟨_, if_pos hle, show s.sp - 1 = s.sp - 2 + 1 by simp only [Instr.takes] at hle; omega⟩
    | bw _ | ldValueStack _ =>
      exact ⟨_, if_pos hle, show s.sp = s.sp - 1 + 1 by simp only [Instr.takes] at hle; omega⟩
    | ld w x =>
      have hlen : 2 ≤ (Instr.ld w x).encode.length := by
        change 2 ≤ (setOperand w x).length + 1
        rw [length_setOperand]
        cases w <;> decide
      exact hld w x (by omega)
    | ldValue w a =>
      have hlen : (Instr.ldValue w a).encode.length = 5 := rfl
      exact hld w _ (by omega)
    | pop => exact ⟨_, if_pos hle, rfl⟩
    | call n =>
      have hnot : ¬ 16 < n.toNat := Nat.not_lt_of_le (hn n rfl)
      refine ⟨_, (if_neg hnot).trans (if_pos hle), ?_⟩
      simp only [Instr.takes] at hle
      change s.sp - n.toNat = s.sp - (n.toNat + 1) + 1
      omega
  · rw [if_neg hle]
    cases i with
    | bin f w => exact if_neg hle
    | bw w => exact if_neg hle
    | st w => exact if_neg hle
    | pop => exact if_neg hle
    | call n => exact (if_neg (Nat.not_lt_of_le (hn n rfl))).trans (if_neg hle)
    | ldValueStack w => exact if_neg hle
    | _ => exact absurd (Nat.zero_le _) hle

/-- Every value has two bytes of code. -/
theorem leaves_le (i : Instr) : 2 * i.leaves ≤ 2 * i.takes + i.encode.length := by
  cases i with
  | ld w x =>
    have hlen : (setOperand w x).length = w.bytes := length_setOperand x
    change 2 * 1 ≤ 2 * 0 + ((setOperand w x).length + 1)
    have hpos : 1 ≤ w.bytes := by cases w <;> decide
    omega
  | call n =>
    change 2 * 1 ≤ 2 * (n.toNat + 1) + 2
    omega
  | _ => exact Nat.le_of_ble_eq_true rfl

theorem length_encodeText_cons :
    (encodeText (i :: l)).length = i.encode.length + (encodeText l).length := by
  unfold encodeText
  rw [List.flatMap_cons, List.length_append]

theorem length_encodeText_append :
    (encodeText (l ++ k)).length = (encodeText l).length + (encodeText k).length := by
  unfold encodeText
  rw [List.flatMap_append, List.length_append]

/-- Code that fits in the text segment runs as long as the values that it takes are on the stack. -/
theorem execAll_height (hn : FewParameters l)
    (hroom : 2 * s.sp + (encodeText l).length ≤ finshTextMax) :
    match heights l s.sp with
    | none => (coding m).execAll l s = .error .stack
    | some h => ∃ s', (coding m).execAll l s = .ok s' ∧ s'.sp = h := by
  induction l generalizing s with
  | nil => exact ⟨s, rfl, rfl⟩
  | cons i l ih =>
    rw [length_encodeText_cons] at hroom
    have hi := exec_height (m := m) (s := s) (i := i)
      (fun n he => hn n (he ▸ List.mem_cons_self)) (by omega)
    have hle := leaves_le i
    change match (heightAfter i.takes i.leaves s.sp).bind (heights l) with
      | none => ((i.exec m s).bind ((coding m).execAll l)) = .error .stack
      | some h => ∃ s', ((i.exec m s).bind ((coding m).execAll l)) = .ok s' ∧ s'.sp = h
    cases hh : heightAfter i.takes i.leaves s.sp with
    | none =>
      rw [hh] at hi
      exact congrArg (fun r => Except.bind r ((coding m).execAll l)) hi
    | some h' =>
      rw [hh] at hi
      obtain ⟨s', hexec, hsp⟩ := hi
      rw [hexec, ← hsp]
      refine ih (fun n hmem => hn n (List.mem_cons_of_mem _ hmem)) ?_
      unfold heightAfter at hh
      by_cases hc : i.takes ≤ s.sp
      · rw [if_pos hc] at hh
        cases hh
        omega
      · rw [if_neg hc] at hh
        cases hh

end Stack

/-! ## The effect of a node -/

structure Effect where
  bytes : Nat
  takes : Nat
  leaves : Nat

/-- No code. -/
def Effect.none : Effect := ⟨0, 0, 0⟩

/-- The type that a tree gets: that of its first leaf. -/
def Node.type : Node → Nat
  | null => 0
  | node d c _ => if c.isNull then (leafType d).1 else c.type

/-- Code for the types that have a width. -/
def widthEffect (type : Nat) (e : Width → Effect) : Effect :=
  match dataWidth type with
  | none => .none
  | some w => e w

/-- A variable of type `void` or `void *` leaves nothing. -/
def symbolEffect : Symbol → Effect
  | .syscall .. => ⟨5, 0, 1⟩
  | .sysvar _ type _ | .var _ type => if type.loadWidth.isSome then ⟨5, 0, 1⟩ else .none

/-- `++` and `--` have code only on an identifier. -/
def stepEffect (type : Nat) (child : Node) (e : Width → Effect) : Effect :=
  if child.nodeType = some .id ∧ child.symbol.isSome then widthEffect type e else .none

def nodeEffect (d : NodeData) (child : Node) (address : Bool) : Effect :=
  let type := if child.isNull then (leafType d).1 else child.type
  match d.nodeType with
  | .id => d.symbol.elim .none symbolEffect
  | .valueChar => ⟨2, 0, 1⟩
  | .valueInt | .valueLong | .valueNull | .valueString => ⟨5, 0, 1⟩
  | .add | .sub | .mul | .div | .mod | .and | .or | .xor | .shl | .shr =>
    widthEffect type fun _ => ⟨1, 2, 1⟩
  | .bitwise => widthEffect type fun _ => ⟨1, 1, 1⟩
  | .func => if child.isNull then .none else ⟨2, child.siblings + 1, 1⟩
  | .assign =>
    if child.nodeType = some .id then widthEffect child.type fun _ => ⟨2, 2, 1⟩
    else if child.nodeType = some .getvalue then widthEffect (child.type % 16) fun _ => ⟨2, 2, 1⟩
    else .none
  | .preinc | .predec => stepEffect type child fun w => ⟨9 + w.bytes, 1, 1⟩
  | .inc | .dec => stepEffect type child fun w => ⟨14 + w.bytes, 0, 0⟩
  | .null => ⟨4, 0, 0⟩
  | .getvalue => if address then .none else widthEffect type fun _ => ⟨1, 1, 1⟩
  | .getaddr | .cast => .none

/-- The bytes of the code of a tree and its siblings. -/
def textSize : Node → Bool → Nat
  | .null, _ => 0
  | .node d c s, isAddr =>
    textSize c (childAddress d.nodeType isAddr) + (nodeEffect d c (markAddress d isAddr)).bytes +
      textSize s false

/-- The height of the stack behind a tree and its siblings. -/
def textHeight : Node → Bool → Nat → Option Nat
  | .null, _, h => some h
  | .node d c s, isAddr, h =>
    let e := nodeEffect d c (markAddress d isAddr)
    (textHeight c (childAddress d.nodeType isAddr) h).bind fun h1 =>
      (heightAfter e.takes e.leaves h1).bind (textHeight s false)

/-- The bytes of the code of a line, with a `POP` between two statements. -/
def lineSize : Node → Nat
  | .null => 0
  | .node d c s =>
    if s.isNull then textSize (.node d c .null) false
    else textSize (.node d c .null) false + 1 + lineSize s

/-- The height of the stack behind a line. -/
def lineHeight : Node → Nat → Option Nat
  | .null, h => some h
  | .node d c s, h =>
    if s.isNull then textHeight (.node d c .null) false h
    else (textHeight (.node d c .null) false h).bind fun h1 =>
      (heightAfter 1 0 h1).bind (lineHeight s)

/-- The compiler has no error to report about the node. -/
def NodeTyped (d : NodeData) (child : Node) : Prop :=
  (child.isNull = true → (leafType d).2 = []) ∧
    match d.nodeType with
    | .assign =>
      (child.nodeType = some .id → (dataWidth child.type).isSome = true) ∧
        (child.nodeType = some .getvalue → (dataWidth (child.type % 16)).isSome = true)
    | .cast => False
    | _ => True

def Typed : Node → Prop
  | .null => True
  | .node d c s => Typed c ∧ NodeTyped d c ∧ Typed s

/-! ## The code of a tree -/

section Code

variable {layout : Layout} {d : NodeData} {c : Node} {isAddr : Bool}

theorem isNull_typeCheck : (finshTypeCheck c isAddr).1.isNull = c.isNull := by
  cases c <;> rfl

theorem nodeType_typeCheck : (finshTypeCheck c isAddr).1.nodeType = c.nodeType := by
  cases c <;> rfl

theorem symbol_typeCheck : (finshTypeCheck c isAddr).1.symbol = c.symbol := by
  cases c <;> rfl

theorem siblings_typeCheck : (finshTypeCheck c isAddr).1.siblings = c.siblings := by
  induction c generalizing isAddr with
  | null => rfl
  | node d c s _ ihs =>
    change (if (finshTypeCheck s false).1.isNull then 0 else (finshTypeCheck s false).1.siblings + 1) =
      (if s.isNull then 0 else s.siblings + 1)
    rw [isNull_typeCheck, ihs]

theorem dataType_typeCheck : (finshTypeCheck c isAddr).1.dataType = c.type := by
  induction c generalizing isAddr with
  | null => rfl
  | node d c s ihc _ =>
    change (if c.isNull then leafType d else
      ((finshTypeCheck c (childAddress d.nodeType isAddr)).1.dataType, [])).1 =
      if c.isNull then (leafType d).1 else c.type
    rw [ihc]
    split <;> rfl

/-- The bytes of the code, and the height of the stack behind it. -/
structure HasCode (l : List Instr) (bytes : Nat) (height : Nat → Option Nat) : Prop where
  bytes : (encodeText l).length = bytes
  height : ∀ h, heights l h = height h
  few : FewParameters l

theorem HasCode.append {l k : List Instr} {n n' : Nat} {f g : Nat → Option Nat} (hl : HasCode l n f)
    (hk : HasCode k n' g) : HasCode (l ++ k) (n + n') fun h => (f h).bind g where
  bytes := by rw [length_encodeText_append, hl.bytes, hk.bytes]
  height h := by
    rw [heights_append, hl.height]
    congr 1
    funext h'
    exact hk.height h'
  few n hn := by
    cases List.mem_append.mp hn with
    | inl h => exact hl.few n h
    | inr h => exact hk.few n h

/-- The code has the effect. -/
def HasEffect (l : List Instr) (e : Effect) : Prop :=
  HasCode l e.bytes (heightAfter e.takes e.leaves)

theorem hasEffect_nil : HasEffect [] .none where
  bytes := rfl
  height _ := rfl
  few _ hn := absurd hn List.not_mem_nil

theorem hasEffect_single (i : Instr) (hn : FewParameters [i]) :
    HasEffect [i] ⟨i.encode.length, i.takes, i.leaves⟩ where
  bytes := by
    rw [length_encodeText_cons]
    rfl
  height _ := Option.bind_fun_some _
  few := hn

theorem fewParameters_op {i : Instr} (h : i.op ≠ .call) : FewParameters [i] := by
  intro n hn
  exact absurd (congrArg Instr.op (List.mem_singleton.mp hn)).symm h

theorem hasEffect_width {type : Nat} {code : Width → List Instr} {e : Width → Effect}
    (h : ∀ w, HasEffect (code w) (e w)) : HasEffect (widthCode type code) (widthEffect type e) := by
  unfold widthCode widthEffect
  cases dataWidth type with
  | none => exact hasEffect_nil
  | some w => exact h w

theorem hasEffect_symbol (symbol : Symbol) (a : Bool) :
    HasEffect (idCode layout a symbol) (symbolEffect symbol) := by
  have hld : ∀ address : BitVec 32, HasEffect [.ld .dword address] ⟨5, 0, 1⟩ := fun address =>
    hasEffect_single _ (fewParameters_op Op.noConfusion)
  have hload : ∀ (type : FinshType) (address : BitVec 32), HasEffect (loadCode type address a)
      (if type.loadWidth.isSome then ⟨5, 0, 1⟩ else .none) := by
    intro type address
    unfold loadCode
    cases type.loadWidth with
    | none => exact hasEffect_nil
    | some w =>
      cases a with
      | true => exact hld address
      | false => exact hasEffect_single (.ldValue w address) (fewParameters_op Op.noConfusion)
  cases symbol with
  | syscall item func => exact hld func
  | sysvar item type address => exact hload type address
  | var slot type => exact hload type _

theorem hasEffect_pre (f : BinOp) (a : BitVec 32) (w : Width) :
    HasEffect (preCode f a w) ⟨9 + w.bytes, 1, 1⟩ where
  bytes := by cases w <;> rfl
  height h := by cases h <;> rfl
  few n hn := by simp [preCode, ldOne] at hn

theorem hasEffect_post (f : BinOp) (a : BitVec 32) (w : Width) :
    HasEffect (postCode f a w) ⟨14 + w.bytes, 0, 0⟩ where
  bytes := by cases w <;> rfl
  height _ := rfl
  few n hn := by simp [postCode, ldOne] at hn

theorem hasEffect_step {type : Nat} {child : Node} {code : BitVec 32 → Width → List Instr}
    {e : Width → Effect} (h : ∀ a w, HasEffect (code a w) (e w)) :
    HasEffect (stepCode layout code type child) (stepEffect type child e) := by
  unfold stepCode stepEffect
  by_cases hid : child.nodeType = some .id
  · rw [if_pos hid]
    cases hs : child.symbol with
    | none =>
      have hno : ¬ (child.nodeType = some .id ∧ (none : Option Symbol).isSome = true) :=
        fun hc => absurd hc.2 Bool.false_ne_true
      rw [if_neg hno]
      exact hasEffect_nil
    | some symbol =>
      rw [if_pos ⟨hid, rfl⟩]
      exact hasEffect_width (h _)
  · rw [if_neg hid, if_neg fun hc => hid hc.1]
    exact hasEffect_nil

theorem hasEffect_assign (type : Nat) :
    HasEffect (assignCode type).1 (widthEffect type fun _ => ⟨2, 2, 1⟩) := by
  unfold assignCode widthEffect
  cases dataWidth type with
  | none => exact hasEffect_nil
  | some w =>
    exact {
      bytes := rfl
      height := fun h => by
        cases h with
        | zero => rfl
        | succ h => cases h <;> rfl
      few := fun n hn => by simp at hn }

/-- The code of a node behind the type check. -/
theorem hasEffect_node (layout : Layout) (hsib : c.siblings ≤ finshNodeMax)
    (isAddr isChildAddr : Bool) {type : Nat}
    (htype : type = if c.isNull then (leafType d).1 else c.type) :
    HasEffect (nodeCode layout { d with address := markAddress d isAddr, dataType := type }
      (finshTypeCheck c isChildAddr).1).1 (nodeEffect d c (markAddress d isAddr)) := by
  have hmax : finshNodeMax = 16 := rfl
  have hone : ∀ i : Instr, i.op ≠ .call → HasEffect [i] ⟨i.encode.length, i.takes, i.leaves⟩ :=
    fun i hi => hasEffect_single i (fewParameters_op hi)
  have hstep : ∀ (code : BitVec 32 → Width → List Instr) (e : Width → Effect),
      (∀ a w, HasEffect (code a w) (e w)) →
      HasEffect (stepCode layout code type (finshTypeCheck c isChildAddr).1) (stepEffect type c e) := by
    intro code e h
    have heq : stepEffect type (finshTypeCheck c isChildAddr).1 e = stepEffect type c e := by
      unfold stepEffect
      rw [nodeType_typeCheck, symbol_typeCheck]
    exact heq ▸ hasEffect_step h
  have hbin : ∀ f : BinOp, HasEffect (binaryCode type f) (widthEffect type fun _ => ⟨1, 2, 1⟩) :=
    fun f => hasEffect_width fun w => hone _ Op.noConfusion
  unfold nodeCode nodeEffect
  simp only [isNull_typeCheck, nodeType_typeCheck, siblings_typeCheck, dataType_typeCheck, ← htype]
  cases d.nodeType with
  | id =>
    cases d.symbol with
    | none => exact hasEffect_nil
    | some symbol => exact hasEffect_symbol symbol _
  | valueChar | valueInt | valueLong | valueString | valueNull => exact hone _ Op.noConfusion
  | bitwise => exact hasEffect_width fun w => hone _ Op.noConfusion
  | func =>
    by_cases hc : c.isNull = true
    · simp only [hc, if_true]
      exact hasEffect_nil
    · simp only [hc]
      have hval : (BitVec.ofNat 8 c.siblings).toNat = c.siblings := by
        rw [BitVec.toNat_ofNat]
        exact Nat.mod_eq_of_lt (by omega)
      have h := hasEffect_single (.call (BitVec.ofNat 8 c.siblings)) (by
        intro n hn
        cases List.mem_singleton.mp hn
        omega)
      simp only [Instr.takes, hval] at h
      exact h
  | assign =>
    by_cases hid : c.nodeType = some .id
    · simp only [hid, if_true]
      exact hasEffect_assign _
    · by_cases hget : c.nodeType = some .getvalue
      · simp only [hget, if_true]
        exact hasEffect_assign _
      · simp only [hid, hget]
        exact hasEffect_nil
  | preinc => exact hstep _ _ fun a w => hasEffect_pre .add a w
  | predec => exact hstep _ _ fun a w => hasEffect_pre .sub a w
  | inc => exact hstep _ _ fun a w => hasEffect_post .add a w
  | dec => exact hstep _ _ fun a w => hasEffect_post .sub a w
  | null => exact {
      bytes := rfl
      height := fun _ => rfl
      few := fun n hn => by simp at hn }
  | getvalue =>
    cases markAddress d isAddr with
    | true => exact hasEffect_nil
    | false => exact hasEffect_width fun w => hone _ Op.noConfusion
  | getaddr => exact hasEffect_nil
  | cast => exact hasEffect_nil
  | _ => exact hbin _

theorem siblings_le_size (c : Node) : c.siblings ≤ c.size := by
  induction c with
  | null => exact Nat.le_refl _
  | node d c s _ ihs =>
    simp only [Node.siblings, Node.size]
    split
    · exact Nat.zero_le _
    · omega

/-- The code of a tree, behind the type check. -/
theorem hasCode_tree (layout : Layout) (isAddr : Bool) (hsize : c.size ≤ finshNodeMax) :
    HasCode (finshCompile layout (finshTypeCheck c isAddr).1).1 (textSize c isAddr)
      (textHeight c isAddr) := by
  induction c generalizing isAddr with
  | null => exact {
      bytes := rfl
      height := fun _ => rfl
      few := fun _ hn => absurd hn List.not_mem_nil }
  | node d c s ihc ihs =>
    simp only [Node.size] at hsize
    have hsib := siblings_le_size c
    have hc := @ihc (childAddress d.nodeType isAddr) (by omega)
    have hs := @ihs false (by omega)
    have htype : (if c.isNull then leafType d else
        ((finshTypeCheck c (childAddress d.nodeType isAddr)).1.dataType, [])).1 =
        if c.isNull then (leafType d).1 else c.type := by
      rw [dataType_typeCheck]
      split <;> rfl
    have hle : c.siblings ≤ finshNodeMax := by omega
    have hnode := hasEffect_node layout hle isAddr (childAddress d.nodeType isAddr) htype
    have hall := (hc.append hnode).append hs
    refine { bytes := hall.bytes, height := fun h => (hall.height h).trans ?_, few := hall.few }
    exact Option.bind_assoc _ _ _

/-- The compiler reports no error about a node. -/
theorem nodeCode_errors (layout : Layout) (d : NodeData) (c : Node) (isAddr isChildAddr : Bool)
    (type : Nat) :
    (nodeCode layout { d with address := markAddress d isAddr, dataType := type }
      (finshTypeCheck c isChildAddr).1).2 = [] ↔
    match d.nodeType with
    | .assign =>
      (c.nodeType = some .id → (dataWidth c.type).isSome = true) ∧
        (c.nodeType = some .getvalue → (dataWidth (c.type % 16)).isSome = true)
    | .cast => False
    | _ => True := by
  have hassign : ∀ t, (assignCode t).2 = [] ↔ (dataWidth t).isSome = true := by
    intro t
    unfold assignCode
    cases dataWidth t with
    | none => exact iff_of_false (List.cons_ne_nil _ _) Bool.false_ne_true
    | some w => exact iff_of_true rfl rfl
  unfold nodeCode
  simp only [nodeType_typeCheck, dataType_typeCheck]
  cases d.nodeType with
  | id => cases d.symbol <;> exact iff_of_true rfl trivial
  | assign =>
    by_cases hid : c.nodeType = some .id
    · simp only [hid, if_true, hassign, true_imp_iff, Option.some.injEq, reduceCtorEq, false_imp_iff,
        and_true]
    · by_cases hget : c.nodeType = some .getvalue
      · simp only [hget, if_true, hassign, true_imp_iff, Option.some.injEq, reduceCtorEq,
          false_imp_iff, true_and, if_false]
      · simp only [hid, hget, if_false, false_imp_iff, and_self]
  | cast => exact iff_of_false (List.cons_ne_nil _ _) not_false
  | _ => exact iff_of_true rfl trivial

/-- The errors of the check and of the compiler, each one after the other. -/
theorem append_errors {t1 t2 t3 e1 e2 e3 : List FinshError} :
    t1 ++ t2 ++ t3 = [] ∧ e1 ++ e2 ++ e3 = [] ↔
      (t1 = [] ∧ e1 = []) ∧ (t3 = [] ∧ e2 = []) ∧ t2 = [] ∧ e3 = [] := by
  simp only [List.append_eq_nil_iff]
  constructor
  · rintro ⟨⟨⟨h1, h2⟩, h3⟩, ⟨h4, h5⟩, h6⟩
    exact ⟨⟨h1, h4⟩, ⟨h3, h5⟩, h2, h6⟩
  · rintro ⟨⟨h1, h4⟩, ⟨h3, h5⟩, h2, h6⟩
    exact ⟨⟨⟨h1, h2⟩, h3⟩, ⟨h4, h5⟩, h6⟩

theorem errors_tree (layout : Layout) (c : Node) (isAddr : Bool) :
    (finshTypeCheck c isAddr).2 = [] ∧
    (finshCompile layout (finshTypeCheck c isAddr).1).2 = [] ↔ Typed c := by
  induction c generalizing isAddr with
  | null => exact iff_of_true ⟨rfl, rfl⟩ trivial
  | node d c s ihc ihs =>
    have hc := @ihc (childAddress d.nodeType isAddr)
    have hs := @ihs false
    have hown := nodeCode_errors layout d c isAddr (childAddress d.nodeType isAddr)
      (if c.isNull then leafType d else
        ((finshTypeCheck c (childAddress d.nodeType isAddr)).1.dataType, [])).1
    have hleaf : (if c.isNull then leafType d else
        ((finshTypeCheck c (childAddress d.nodeType isAddr)).1.dataType, [])).2 = [] ↔
        (c.isNull = true → (leafType d).2 = []) := by
      by_cases hnull : c.isNull = true
      · rw [if_pos hnull, forall_prop_of_true hnull]
      · rw [if_neg hnull, forall_prop_of_false hnull]
        exact iff_of_true rfl trivial
    have htyped : Typed (.node d c s) ↔ Typed c ∧ NodeTyped d c ∧ Typed s := Iff.rfl
    rw [htyped, ← hc, ← hs, NodeTyped, ← hown, ← hleaf]
    exact append_errors

/-- The code of a line, behind the type check. -/
theorem hasCode_line (layout : Layout) (hsize : c.size ≤ finshNodeMax) :
    HasCode (compileStatements layout (finshTypeCheck c false).1).1 (lineSize c) (lineHeight c) := by
  induction c with
  | null => exact {
      bytes := rfl
      height := fun _ => rfl
      few := fun _ hn => absurd hn List.not_mem_nil }
  | node d c s _ ihs =>
    simp only [Node.size] at hsize
    have hle : (Node.node d c .null).size ≤ finshNodeMax := by
      simp only [Node.size]
      omega
    have hone := hasCode_tree layout false hle
    have hrest := ihs (by omega)
    by_cases hnull : s.isNull = true
    · have hbytes : lineSize (.node d c s) = textSize (.node d c .null) false := if_pos hnull
      have hheight : lineHeight (.node d c s) = textHeight (.node d c .null) false :=
        funext fun h => if_pos hnull
      have hcode : (compileStatements layout (finshTypeCheck (.node d c s) false).1).1 =
          (finshCompile layout (finshTypeCheck (.node d c .null) false).1).1 :=
        congrArg Prod.fst (if_pos (isNull_typeCheck.trans hnull))
      rw [hcode, hbytes, hheight]
      exact hone
    · have hbytes : lineSize (.node d c s) =
          textSize (.node d c .null) false + (1 + lineSize s) :=
        (if_neg hnull).trans (Nat.add_assoc _ _ _)
      have hheight : lineHeight (.node d c s) = fun h =>
          (textHeight (.node d c .null) false h).bind fun h1 =>
            (heightAfter 1 0 h1).bind (lineHeight s) :=
        funext fun h => if_neg hnull
      have hcode : (compileStatements layout (finshTypeCheck (.node d c s) false).1).1 =
          (finshCompile layout (finshTypeCheck (.node d c .null) false).1).1 ++ ([.pop] ++
            (compileStatements layout (finshTypeCheck s false).1).1) :=
        congrArg Prod.fst (if_neg (isNull_typeCheck.symm ▸ hnull))
      have hpop : HasEffect [.pop] ⟨1, 1, 0⟩ :=
        hasEffect_single .pop (fewParameters_op Op.noConfusion)
      rw [hcode, hbytes, hheight]
      exact hone.append (HasCode.append hpop hrest)

theorem typed_cut {d : NodeData} {c s : Node} :
    Typed (.node d c s) ↔ Typed (.node d c .null) ∧ Typed s := by
  constructor
  · rintro ⟨hc, hd, hs⟩
    exact ⟨⟨hc, hd, trivial⟩, hs⟩
  · rintro ⟨⟨hc, hd, -⟩, hs⟩
    exact ⟨hc, hd, hs⟩

/-- The errors of the check of a node. -/
theorem typeCheck_errors {s : Node} : (finshTypeCheck (.node d c s) isAddr).2 =
    (finshTypeCheck c (childAddress d.nodeType isAddr)).2 ++ (finshTypeCheck s false).2 ++
      (if c.isNull then leafType d else
        ((finshTypeCheck c (childAddress d.nodeType isAddr)).1.dataType, [])).2 := rfl

theorem errors_line (layout : Layout) (c : Node) : (finshTypeCheck c false).2 = [] ∧
    (compileStatements layout (finshTypeCheck c false).1).2 = [] ↔ Typed c := by
  induction c with
  | null => exact iff_of_true ⟨rfl, rfl⟩ trivial
  | node d c s _ ihs =>
    have hone := errors_tree layout (.node d c .null) false
    by_cases hnull : s.isNull = true
    · have hs : s = .null := by
        cases s with
        | null => rfl
        | node _ _ _ => cases hnull
      subst hs
      exact hone
    · have hcode : (compileStatements layout (finshTypeCheck (.node d c s) false).1).2 =
          (finshCompile layout (finshTypeCheck (.node d c .null) false).1).2 ++
            (compileStatements layout (finshTypeCheck s false).1).2 :=
        congrArg Prod.snd (if_neg (isNull_typeCheck.symm ▸ hnull))
      rw [typed_cut, ← hone, ← ihs, hcode]
      simp only [typeCheck_errors, List.append_eq_nil_iff]
      constructor
      · rintro ⟨⟨⟨h1, h2⟩, h3⟩, h4, h5⟩
        exact ⟨⟨⟨⟨h1, rfl⟩, h3⟩, h4⟩, h2, h5⟩
      · rintro ⟨⟨⟨⟨h1, -⟩, h3⟩, h4⟩, h2, h5⟩
        exact ⟨⟨⟨h1, h2⟩, h3⟩, h4, h5⟩

end Code

/-! ## Lines -/

/-- `FINSH_CMD_SIZE` -/
def finshCmdSize : Nat := 80

/-- The compiler writes no byte behind the text segment, and the machine moves the stack pointer to
no place beside the stack. It runs only if there has been no error. -/
def InBuffers (layout : Layout) (m : Machine) (mem : Memory) (root : Node) : Prop :=
  (encodeText (finshCompilerRun layout root).1).length ≤ finshTextMax ∧
    ((finshCompilerRun layout root).2 = [] →
      finshVmRun m (textSegment (encodeText (finshCompilerRun layout root).1)) mem ≠
        .error .stack)

/-- The nodes of the line have room in the text segment, and no operation takes a value that has not
been left for it. -/
def Room (root : Node) : Prop :=
  lineSize root ≤ finshTextMax ∧ (Typed root → (lineHeight root 0).isSome = true)

theorem inBuffers_iff {layout : Layout} {m : Machine} {mem : Memory} {root : Node}
    (hsize : root.size ≤ finshNodeMax) : InBuffers layout m mem root ↔ Room root := by
  have hcode := hasCode_line layout hsize
  have herrors : (finshCompilerRun layout root).2 = [] ↔ Typed root := by
    rw [← errors_line layout, ← List.append_eq_nil_iff]
    rfl
  have hbytes : (encodeText (finshCompilerRun layout root).1).length = lineSize root := hcode.bytes
  have hheight : heights (finshCompilerRun layout root).1 0 = lineHeight root 0 := hcode.height 0
  unfold InBuffers Room
  rw [hbytes, herrors]
  refine and_congr_right fun hfit => imp_congr_right fun _ => ?_
  have hrun := finshVmRun_eq (m := m) (l := (finshCompilerRun layout root).1) (hbytes ▸ hfit) mem
  have hexec := execAll_height (m := m) (s := ⟨0, fun _ => 0, mem⟩) hcode.few
    (by rw [Nat.mul_zero, Nat.zero_add]; exact hbytes ▸ hfit)
  change finshVmRun m (textSegment ((coding m).encodeAll (finshCompilerRun layout root).1)) mem ≠ _ ↔ _
  rw [hrun, ← hheight]
  change match heights (finshCompilerRun layout root).1 0 with
    | none => _
    | some h => _ at hexec
  cases hh : heights (finshCompilerRun layout root).1 0 with
  | none =>
    rw [hh] at hexec
    exact iff_of_false (fun h => h hexec) Bool.false_ne_true
  | some h =>
    rw [hh] at hexec
    obtain ⟨s', hok, -⟩ := hexec
    refine iff_of_true (fun herr => ?_) rfl
    cases hok.symm.trans herr

section Line

variable {symbols : Symbols} {vars : List FinshVar} {line : List Char} {root : Node}
  {p : Parser FinshToken}

/-- A line that the parser accepts, with the variables of the lines before: the tree of the line. -/
def Accepts (symbols : Symbols) (vars : List FinshVar) (line : List Char) (root : Node) : Prop :=
  ∃ n p, (finshParserRun finshTokens symbols n).run
    (finshParserInit (finshTokenInit line) vars) = some (root, p) ∧ p.errno = .ok

end Line

/-- A shell without system variables and system calls. -/
def noSymbols : Symbols := ⟨fun _ => none, fun _ => none⟩

def noCalls : Machine := ⟨true, fun _ _ a _ => a, fun _ _ mem => (0, mem)⟩

def emptyLayout : Layout := ⟨0, fun _ => 0⟩

/-- What the room for a line depends on, and the error number behind the parser. -/
def lineRoom (line : List Char) : Option ((Nat × Bool) × FinshError) :=
  ((finshParserRun finshTokens noSymbols 10).run
    (finshParserInit (finshTokenInit line) finshVarInit)).map
      fun r => ((lineSize r.1, (lineHeight r.1 0).isSome), r.2.errno)

theorem accepts_of_room {line : List Char} {size : Nat} {fits : Bool}
    (h : lineRoom line = some ((size, fits), .ok)) :
    ∃ root, Accepts noSymbols finshVarInit line root ∧ lineSize root = size ∧
      (lineHeight root 0).isSome = fits := by
  obtain ⟨⟨root, p⟩, hrun, heq⟩ := Option.map_eq_some_iff.mp h
  obtain ⟨hroom, hok⟩ := Prod.mk.inj heq
  obtain ⟨hsize, hfits⟩ := Prod.mk.inj hroom
  exact ⟨root, ⟨10, p, hrun, hok⟩, hsize, hfits⟩

end Tudu.Finsh
