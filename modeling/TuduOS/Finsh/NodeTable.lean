import TuduOS.Finsh.Parser
import TuduOS.Lib.Wp

/-!
# The table of the nodes

The tree of a line is made of nodes of the table, each of them once: `finshParserRun_size`.

* `New k μ f`: the result of `f` has at most `μ` nodes, where `k` were there before and the others
  are allocated by `f`.
-/

namespace Tudu.Finsh

open Wp

section

variable {σ α β : Type} {tokens : Tokens σ} {symbols : Symbols} {k c : Nat}

def New (k : Nat) (μ : α → Nat) (f : ParserM σ α) : Prop :=
  ∀ p : Parser σ, p.nodes ≤ finshNodeMax → wp f (fun a p' =>
    μ a + p.nodes ≤ p'.nodes + k ∧ p.nodes ≤ p'.nodes ∧ p'.nodes ≤ finshNodeMax) p

namespace New

variable {μ : α → Nat} {ν : β → Nat} {f f' : ParserM σ α} {g : α → ParserM σ β} {a : α}

theorem pure (h : μ a ≤ k) : New k μ (Pure.pure a : ParserM σ α) := by
  intro p hp
  rw [wp_pure]
  exact ⟨by omega, Nat.le_refl _, hp⟩

theorem failure : New k μ (Alternative.failure : ParserM σ α) := fun _ _ => wp_failure

theorem bind (hf : New k μ f) (hg : ∀ a, New (μ a) ν (g a)) : New k ν (f >>= g) := by
  intro p hp
  rw [wp_bind]
  refine wp_mono (hf p hp) fun a p1 h1 => ?_
  obtain ⟨hle, hmono, hmax⟩ := h1
  refine wp_mono (hg a p1 hmax) fun b p2 h2 => ?_
  obtain ⟨hle', hmono', hmax'⟩ := h2
  exact ⟨by omega, by omega, hmax'⟩

theorem frame (hf : New k μ f) (c : Nat) : New (k + c) (fun a => μ a + c) f := by
  intro p hp
  refine wp_mono (hf p hp) fun a p' h => ?_
  obtain ⟨hle, hmono, hmax⟩ := h
  refine ⟨?_, hmono, hmax⟩
  change μ a + c + p.nodes ≤ _
  omega

theorem mono {μ' : α → Nat} {k' : Nat} (hf : New k μ f) (hk : k ≤ k') (hμ : ∀ a, μ' a ≤ μ a) :
    New k' μ' f := by
  intro p hp
  refine wp_mono (hf p hp) fun a p' h => ?_
  obtain ⟨hle, hmono, hmax⟩ := h
  have := hμ a
  exact ⟨by omega, hmono, hmax⟩

theorem ite {C : Prop} [Decidable C] (hf : C → New k μ f) (hf' : ¬ C → New k μ f') :
    New k μ (if C then f else f') :=
  fun p hp => wp_ite (fun h => hf h p hp) fun h => hf' h p hp

/-- A function without nodes keeps those that are there. -/
theorem keep (hf : New 0 (fun _ => 0) f) : New k (fun _ => k) f := by
  have h := hf.frame k
  simpa only [Nat.zero_add] using h

end New

/-- The function has no nodes. -/
abbrev Plain (f : ParserM σ α) : Prop := New 0 (fun _ => 0) f

theorem plain_modify {u : Parser σ → Parser σ} (h : ∀ p, (u p).nodes = p.nodes) :
    Plain (modify u : ParserM σ PUnit) := by
  intro p hp
  rw [wp_modify, h]
  exact ⟨Nat.le_of_eq (Nat.zero_add _), Nat.le_refl _, hp⟩

theorem plain_get : Plain (get : ParserM σ (Parser σ)) := by
  intro p hp
  rw [wp_get]
  exact ⟨Nat.le_of_eq (Nat.zero_add _), Nat.le_refl _, hp⟩

/-! ## Tokens and nodes -/

theorem plain_errorSet (e : FinshError) : Plain (finshErrorSet e : ParserM σ Unit) :=
  plain_modify fun _ => rfl

theorem plain_replay : Plain (finshTokenReplay : ParserM σ Unit) :=
  plain_modify fun _ => rfl

theorem plain_nextToken : Plain (nextToken tokens) := by
  intro p hp t p' hr
  change (if p.replay then _ else _) = some (t, p') at hr
  by_cases h : p.replay = true
  · rw [if_pos h] at hr
    cases hr
    exact ⟨Nat.le_of_eq (Nat.zero_add _), Nat.le_refl _, hp⟩
  · rw [if_neg h] at hr
    obtain ⟨r, -, hr⟩ := Option.map_eq_some_iff.mp hr
    cases hr
    exact ⟨Nat.le_of_eq (Nat.zero_add _), Nat.le_refl _, hp⟩

theorem plain_checkToken (t u : TokenType) : Plain (checkToken t u : ParserM σ Unit) :=
  .ite (fun _ => .pure (Nat.le_refl _))
    fun _ => .bind (plain_errorSet _) fun _ => plain_replay

theorem plain_matchToken (t : TokenType) : Plain (matchToken tokens t) :=
  .bind plain_nextToken fun _ => plain_checkToken _ _

theorem new_allocate (d : NodeData) : New 0 Node.size (finshNodeAllocate d : ParserM σ Node) := by
  intro p hp a p' hr
  change (if p.nodes = finshNodeMax then _ else _) = some (a, p') at hr
  by_cases h : p.nodes = finshNodeMax
  · rw [if_pos h] at hr
    cases hr
    refine ⟨?_, Nat.le_refl _, hp⟩
    simp only [Node.size, Nat.zero_add, Nat.add_zero, Nat.le_refl]
  · rw [if_neg h] at hr
    cases hr
    refine ⟨?_, Nat.le_succ _, ?_⟩
    · simp only [Node.size]
      omega
    · change p.nodes + 1 ≤ finshNodeMax
      omega

theorem new_node (d : NodeData) : New 0 Node.size (finshNodeNew d : ParserM σ Node) := by
  refine .bind (new_allocate d) fun a => ?_
  exact .ite (fun _ => .bind (plain_errorSet _).keep fun _ => .pure (Nat.le_refl _))
    fun _ => .pure (Nat.le_refl _)

theorem new_nodeId (id : List Char) : New 0 Node.size (finshNodeNewId symbols id : ParserM σ Node) := by
  refine .bind plain_get fun p => ?_
  cases symbols.lookup p.vars id with
  | some symbol => exact new_node _
  | none => exact .bind (plain_errorSet _) fun _ => .pure (Nat.le_refl _)

theorem new_makeSysNode (type : NodeType) (a b : Node) :
    New (a.size + b.size) Node.size (makeSysNode type a b : ParserM σ Node) := by
  have halloc := (new_allocate (σ := σ) (.ofType type)).frame (a.size + b.size)
  rw [Nat.zero_add] at halloc
  refine .bind halloc fun n => ?_
  refine .ite (fun _ => ?_) fun hn => ?_
  · exact .bind (plain_errorSet _).keep fun _ => .pure (Nat.le_add_right _ _)
  · refine .pure ?_
    have hlink := Node.size_setSibling_le a b
    have hpos : 1 ≤ n.size := by
      cases n with
      | null => exact absurd (Bool.or_true _) hn
      | node d c s => exact Nat.le_trans (Nat.le_add_right 1 _) (Nat.le_add_right _ _)
    simp only [Node.size]
    omega

/-! ## Types and identifiers -/

theorem plain_procPointer (t : FinshType) : Plain (procPointer tokens t) :=
  .bind plain_nextToken fun _ => .ite (fun _ => .pure (Nat.le_refl _))
    fun _ => .bind plain_replay fun _ => .pure (Nat.le_refl _)

theorem plain_typeUnknown : Plain (typeUnknown : ParserM σ FinshType) :=
  .bind plain_replay fun _ => .bind (plain_errorSet _) fun _ => .pure (Nat.le_refl _)

theorem plain_procType : Plain (procType tokens) := by
  refine .bind plain_nextToken fun t => ?_
  cases baseType t with
  | some type => exact plain_procPointer _
  | none =>
    refine .ite (fun _ => ?_) fun _ => plain_typeUnknown
    refine .bind plain_nextToken fun u => ?_
    cases unsignedType u with
    | some type => exact plain_procPointer _
    | none =>
      refine .ite (fun _ => plain_typeUnknown) fun _ => ?_
      exact .bind plain_replay fun _ => .bind (plain_errorSet _) fun _ => plain_procPointer _

theorem plain_procIdentifier : Plain (procIdentifier tokens) :=
  .bind (plain_matchToken _) fun _ => .bind plain_get fun _ => .pure (Nat.le_refl _)

/-! ## Expressions -/

variable {assign cast : ParserM σ Node}

theorem new_binaryNode (type : NodeType) (left right : Node) :
    New (right.size + left.size) Node.size (binaryNode type left right : ParserM σ Node) := by
  refine .ite (fun _ => ?_) fun _ => ?_
  · exact .bind (plain_errorSet _).keep fun _ => .pure (Nat.le_add_left _ _)
  · exact (new_makeSysNode type left right).mono (by omega) fun _ => Nat.le_refl _

theorem new_procBinaryLoop {op : TokenType → Option NodeType} {operand : ParserM σ Node}
    (hop : New 0 Node.size operand) (n : Nat) (t : TokenType) (left : Node) :
    New left.size Node.size (procBinaryLoop tokens op operand n t left) := by
  induction n generalizing t left with
  | zero => exact .failure
  | succ n ih =>
    unfold procBinaryLoop
    cases op t with
    | none => exact .bind plain_replay.keep fun _ => .pure (Nat.le_refl _)
    | some type =>
      have hright := hop.frame left.size
      rw [Nat.zero_add] at hright
      refine .bind hright fun right => ?_
      exact .bind (new_binaryNode type left right) fun left' =>
        .bind plain_nextToken.keep fun u => ih u left'

theorem new_procBinary {op : TokenType → Option NodeType} {operand : ParserM σ Node} {n : Nat}
    (hop : New 0 Node.size operand) : New 0 Node.size (procBinary tokens op n operand) :=
  .bind hop fun left => .bind plain_nextToken.keep fun t => new_procBinaryLoop hop n t left

theorem new_procInclusiveOrExpr {n : Nat} (hcast : New 0 Node.size cast) :
    New 0 Node.size (procInclusiveOrExpr tokens n cast) :=
  new_procBinary (new_procBinary (new_procBinary (new_procBinary (new_procBinary
    (new_procBinary hcast)))))

/-- The nodes of a list of trees. -/
def sizes (l : List Node) : Nat := (l.map Node.size).sum

theorem size_chain_le (l : List Node) : (Node.chain l).size ≤ sizes l := by
  induction l with
  | nil => exact Nat.le_refl _
  | cons a l ih =>
    have hle := Node.size_setSibling_le a (.chain l)
    have hsum : sizes (a :: l) = a.size + sizes l := List.sum_cons
    change (a.setSibling (.chain l)).size ≤ _
    omega

theorem sizes_append (l k : List Node) : sizes (l ++ k) = sizes l + sizes k := by
  unfold sizes
  rw [List.map_append, List.sum_append]

theorem sizes_single (a : Node) : sizes [a] = a.size := Nat.add_zero _

theorem new_addParam (params : List Node) (a : Node) :
    New (a.size + sizes params) sizes (addParam params a : ParserM σ (List Node)) := by
  refine .ite (fun _ => ?_) fun _ => ?_
  · exact .bind (plain_errorSet _).keep fun _ => .pure (Nat.le_add_left _ _)
  · refine .pure ?_
    rw [sizes_append, sizes_single, Nat.add_comm]

theorem new_procParamLoop (hassign : New 0 Node.size assign) (n : Nat) (t : TokenType)
    (params : List Node) :
    New (sizes params) Node.size (procParamLoop tokens assign n t params) := by
  induction n generalizing t params with
  | zero => exact .failure
  | succ n ih =>
    unfold procParamLoop
    refine .ite (fun _ => ?_) fun _ => ?_
    · have hnext := hassign.frame (sizes params)
      rw [Nat.zero_add] at hnext
      refine .bind hnext fun a => .bind (new_addParam params a) fun params' => ?_
      exact .bind plain_nextToken.keep fun u => ih u params'
    · exact .bind plain_replay.keep fun _ => .pure (size_chain_le params)

theorem new_procParamList {n : Nat} (hassign : New 0 Node.size assign) :
    New 0 Node.size (procParamList tokens n assign) := by
  refine .bind hassign fun a => .ite (fun _ => .pure (Nat.zero_le _)) fun _ => ?_
  refine .bind plain_nextToken.keep fun t => ?_
  have h : New (sizes [a]) Node.size (procParamLoop tokens assign n t [a]) :=
    new_procParamLoop hassign n t [a]
  rwa [sizes_single] at h

theorem new_procPrimaryExpr (hassign : New 0 Node.size assign) :
    New 0 Node.size (procPrimaryExpr tokens symbols assign) := by
  have hget : ∀ g : Parser σ → ParserM σ Node, (∀ p, New 0 Node.size (g p)) →
      New 0 Node.size (get >>= g) := fun g hg => .bind plain_get hg
  refine .bind plain_nextToken fun t => ?_
  split
  · exact .bind plain_replay fun _ => .bind plain_procIdentifier fun id => new_nodeId id
  · exact .bind hassign fun a => .bind (plain_matchToken _).keep fun _ => .pure (Nat.le_refl _)
  · exact hget _ fun p => new_node _
  · exact hget _ fun p => new_node _
  · exact hget _ fun p => new_node _
  · exact hget _ fun p => new_node _
  · exact new_node _
  · exact .bind (plain_errorSet _) fun _ => .pure (Nat.zero_le _)

theorem new_procCall {n : Nat} (hassign : New 0 Node.size assign) :
    New 0 Node.size (procCall tokens n assign) := by
  refine .bind plain_nextToken fun t => .ite (fun _ => .pure (Nat.zero_le _)) fun _ => ?_
  refine .bind plain_replay fun _ => .bind (new_procParamList hassign) fun a => ?_
  exact .bind (plain_matchToken _).keep fun _ => .pure (Nat.le_refl _)

theorem new_procPostfixLoop {m : Nat} (hassign : New 0 Node.size assign) (n : Nat) (t : TokenType)
    (expr : Node) : New expr.size Node.size (procPostfixLoop tokens m assign n t expr) := by
  induction n generalizing t expr with
  | zero => exact .failure
  | succ n ih =>
    have hnext : ∀ e : Node, New e.size Node.size
        (nextToken tokens >>= fun u => procPostfixLoop tokens m assign n u e) := fun e =>
      .bind plain_nextToken.keep fun u => ih u e
    unfold procPostfixLoop
    refine .ite (fun _ => ?_) fun _ => .ite (fun _ => ?_) fun _ => .ite (fun _ => ?_) fun _ => ?_
    · exact .bind (new_makeSysNode .inc expr .null) hnext
    · exact .bind (new_makeSysNode .dec expr .null) hnext
    · have hnew : New 0 Node.size (procCall tokens m assign) := new_procCall hassign
      have hcall := hnew.frame expr.size
      rw [Nat.zero_add] at hcall
      refine .bind hcall fun params => .bind ?_ hnext
      exact (new_makeSysNode .func expr params).mono (by omega) fun _ => Nat.le_refl _
    · exact .bind plain_replay.keep fun _ => .pure (Nat.le_refl _)

theorem new_procPostfixExpr {n : Nat} (hassign : New 0 Node.size assign) :
    New 0 Node.size (procPostfixExpr tokens symbols n assign) :=
  .bind (new_procPrimaryExpr hassign) fun a => .bind plain_nextToken.keep fun t =>
    new_procPostfixLoop hassign n t a

theorem new_procUnaryExpr {n : Nat} (hassign : New 0 Node.size assign)
    (hcast : New 0 Node.size cast) :
    New 0 Node.size (procUnaryExpr tokens symbols n assign cast) := by
  refine .bind plain_nextToken fun t => ?_
  cases unaryOp t with
  | some type => exact .bind hcast fun a => new_makeSysNode type a .null
  | none =>
    refine .ite (fun _ => hcast) fun _ => .ite (fun _ => ?_) fun _ => ?_
    · refine .bind hcast fun a => ?_
      have hzero := (new_node (σ := σ) { NodeData.ofType .valueLong with value := 0 }).frame a.size
      rw [Nat.zero_add] at hzero
      exact .bind hzero fun z => new_makeSysNode .sub z a
    · exact .bind plain_replay fun _ => new_procPostfixExpr hassign

theorem new_exprs (n : Nat) : New 0 Node.size (procAssignExpr tokens symbols n) ∧
    New 0 Node.size (procCastExpr tokens symbols n) := by
  induction n with
  | zero => exact ⟨.failure, .failure⟩
  | succ n ih =>
    obtain ⟨hassign, hcast⟩ := ih
    have hunary : New 0 Node.size (procUnaryExpr tokens symbols n (procAssignExpr tokens symbols n)
        (procCastExpr tokens symbols n)) := new_procUnaryExpr hassign hcast
    constructor
    · unfold procAssignExpr
      refine .bind (new_procInclusiveOrExpr hcast) fun or => .bind plain_nextToken.keep fun t => ?_
      refine .ite (fun _ => ?_) fun _ => .bind plain_replay.keep fun _ => .pure (Nat.le_refl _)
      have h := hassign.frame or.size
      rw [Nat.zero_add] at h
      exact .bind h fun a => (new_makeSysNode .assign or a).mono (by omega) fun _ => Nat.le_refl _
    · unfold procCastExpr
      refine .bind plain_nextToken fun t => .ite (fun _ => ?_) fun _ =>
        .bind plain_replay fun _ => hunary
      refine .bind plain_procType fun type => .bind (plain_matchToken _) fun _ => ?_
      refine .bind hcast fun a => .ite (fun _ => ?_) fun _ => ?_
      · exact (New.bind plain_replay.keep fun _ => hunary.mono (Nat.zero_le _) fun _ => Nat.le_refl _)
      · exact .pure (Nat.le_of_eq (Node.size_setDataType a _))

/-! ## Statements -/

theorem new_procExprStatement (n : Nat) : New 0 Node.size (procExprStatement tokens symbols n) := by
  refine .bind plain_nextToken fun t => .ite (fun _ => .pure (Nat.zero_le _)) fun _ => ?_
  refine .bind plain_replay fun _ => .bind (new_exprs n).1 fun a => ?_
  exact .bind (plain_matchToken _).keep fun _ => .pure (Nat.le_refl _)

theorem plain_procDeclarator (type : FinshType) : Plain (procDeclarator tokens type) := by
  refine .bind plain_procIdentifier fun id => .bind plain_get fun p => ?_
  cases finshVarInsert p.vars id type with
  | some vars => exact .bind (plain_modify fun _ => rfl) fun _ => .pure (Nat.le_refl _)
  | none => exact .bind (plain_errorSet _) fun _ => .pure (Nat.le_refl _)

theorem new_procInitializer (n : Nat) (id : List Char) :
    New 0 (fun r => sizes r.1.toList) (procInitializer tokens symbols n id) := by
  refine .bind (new_exprs n).1 fun a => .ite (fun _ => .pure (Nat.zero_le _)) fun _ => ?_
  have hnew : New 0 Node.size (finshNodeNewId symbols id : ParserM σ Node) := new_nodeId id
  have hid := hnew.frame a.size
  rw [Nat.zero_add] at hid
  refine .bind hid fun i => .bind (new_makeSysNode .assign i a) fun node => ?_
  exact .bind plain_nextToken.keep fun u => .pure (Nat.le_of_eq (sizes_single node))

theorem new_procDeclLoop {m : Nat} {type : FinshType} (n : Nat) (t : TokenType) (nodes : List Node) :
    New (sizes nodes) Node.size (procDeclLoop tokens symbols m type n t nodes) := by
  induction n generalizing t nodes with
  | zero => exact .failure
  | succ n ih =>
    unfold procDeclLoop
    refine .ite (fun _ => ?_) fun _ => ?_
    · refine .bind (plain_procDeclarator type).keep fun id => .bind plain_nextToken.keep fun u => ?_
      refine .ite (fun _ => ?_) fun _ => ih u nodes
      have hnew : New 0 (fun r => sizes r.1.toList) (procInitializer tokens symbols m id) :=
        new_procInitializer m id
      have hinit := hnew.frame (sizes nodes)
      rw [Nat.zero_add] at hinit
      refine .bind hinit fun r => (ih _ _).mono ?_ fun _ => Nat.le_refl _
      rw [sizes_append, Nat.add_comm]
    · exact .bind (plain_checkToken _ _).keep fun _ => .pure (size_chain_le nodes)

theorem new_procVariableDecl (n : Nat) : New 0 Node.size (procVariableDecl tokens symbols n) := by
  refine .bind plain_procType fun type => .bind (plain_procDeclarator type) fun id => ?_
  refine .bind plain_nextToken fun t => ?_
  split
  · exact new_procDeclLoop n _ []
  · exact .bind (new_procInitializer n id) fun r => new_procDeclLoop n _ _
  · exact .pure (Nat.zero_le _)
  · exact .bind (plain_errorSet _) fun _ => .pure (Nat.zero_le _)

theorem new_procStatement (m : Nat) (t : TokenType) :
    New 0 Node.size (procStatement tokens symbols m t) :=
  .ite (fun _ => new_procVariableDecl m) fun _ => new_procExprStatement m

theorem plain_skipToken (t : TokenType) : Plain (skipToken tokens t) :=
  .ite (fun _ => .pure (Nat.le_refl _))
    fun _ => .bind plain_nextToken fun _ => .pure (Nat.le_refl _)

theorem new_finshParserLoop {m : Nat} (n : Nat) (t : TokenType) (done : List Node) (node : Node) :
    New (sizes done + node.size) Node.size (finshParserLoop tokens symbols m n t done node) := by
  induction n generalizing t done node with
  | zero => exact .failure
  | succ n ih =>
    unfold finshParserLoop
    refine .ite (fun _ => ?_) fun _ => ?_
    · have hle := size_chain_le (done ++ [node])
      rw [sizes_append, sizes_single] at hle
      exact .pure hle
    refine .bind plain_replay.keep fun _ => ?_
    have hnew : New 0 Node.size (procStatement tokens symbols m t) := new_procStatement m t
    have hframe := hnew.frame (sizes done + node.size)
    rw [Nat.zero_add] at hframe
    refine .bind hframe fun a => ?_
    refine .ite (fun _ => .ite (fun _ => .pure (Nat.zero_le _)) fun _ => ?_) fun _ =>
      .ite (fun _ => ?_) fun _ => ?_
    · exact .bind plain_nextToken.keep fun u => (ih u [] a).mono
        (by rw [sizes]; simp only [List.map_nil, List.sum_nil]; omega) fun _ => Nat.le_refl _
    · have hcut := Node.size_setSibling_null node
      refine .bind (plain_skipToken t).keep fun _ => .bind plain_nextToken.keep fun u => ?_
      exact (ih u done _).mono (by omega) fun _ => Nat.le_refl _
    · refine .bind plain_nextToken.keep fun u => (ih u _ a).mono ?_ fun _ => Nat.le_refl _
      rw [sizes_append, sizes_single]
      omega

/-- The tree of a line has no more nodes than the table. -/
theorem finshParserRun_size {n : Nat} {rest : σ} {vars : List FinshVar} {root : Node} {p : Parser σ}
    (h : (finshParserRun tokens symbols n).run (finshParserInit rest vars) = some (root, p)) :
    root.size ≤ finshNodeMax := by
  have hnew : New 0 Node.size (finshParserRun tokens symbols n) :=
    .bind plain_nextToken fun t => new_finshParserLoop n t [] .null
  have hres := hnew (finshParserInit rest vars) (Nat.zero_le _) root p h
  obtain ⟨hle, -, hmax⟩ := hres
  omega

end

end Tudu.Finsh
