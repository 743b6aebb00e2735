import TuduOS.Finsh.Node

/-!
# The parser of the shell (`finsh_parser.c`)

A recursive descent with one token of replay. The functions that the source calls for a level of the
grammar are here functions of what they call for the next one; `procAssignExpr` and `procCastExpr`
tie them together.

* Where the tokens come from is a parameter: `finshTokens` is the scanner, `givenTokens` a list.
* A loop and a recursion have no value if they take more than the given number of rounds.
* The tree has no value where the scanner has none.
-/

namespace Tudu.Finsh

/-- `FINSH_NODE_MAX` -/
def finshNodeMax : Nat := 16

/-- What the parser reads of a token. -/
structure Lexeme where
  type : TokenType
  value : BitVec 32 := 0
  string : List Char := []
  deriving DecidableEq

/-- A source of tokens. A token can come with an error that the scanner sets. -/
structure Tokens (σ : Type) where
  run : σ → Option (Lexeme × Option FinshError × σ)

/-- The scanner. -/
def finshTokens : Tokens FinshToken where
  run s := s.tokenRun.map fun r =>
    (⟨r.1.currentToken, r.1.value, r.1.string⟩, r.2, r.1)

/-- The tokens of a list, and none behind them. -/
def givenTokens : Tokens (List (Lexeme × Option FinshError)) where
  run
    | [] => none
    | r :: l => some (r.1, r.2, l)

/-- What the parser works on: the source of the tokens, the current token, `global_errno`, how many
nodes of `global_node_table` are in use, and the variables. -/
structure Parser (σ : Type) where
  rest : σ
  token : Lexeme
  replay : Bool
  errno : FinshError
  nodes : Nat
  vars : List FinshVar

abbrev ParserM (σ : Type) := StateT (Parser σ) Option

section

variable {σ : Type} (tokens : Tokens σ) (symbols : Symbols)

/-! ## Tokens and nodes -/

def finshErrorSet (error : FinshError) : ParserM σ Unit :=
  modify fun p => { p with errno := error }

def finshTokenReplay : ParserM σ Unit :=
  modify fun p => { p with replay := true }

/-- `finsh_token_token` -/
def nextToken : ParserM σ TokenType := fun p =>
  if p.replay then some (p.token.type, { p with replay := false })
  else (tokens.run p.rest).map fun r =>
    (r.1.type, { p with rest := r.2.2, token := r.1, errno := r.2.1.getD p.errno })

def checkToken (token type : TokenType) : ParserM σ Unit :=
  if token = type then pure ()
  else do
    finshErrorSet .invalidToken
    finshTokenReplay

def matchToken (type : TokenType) : ParserM σ Unit := do
  let token ← nextToken tokens
  checkToken token type

/-- The fields that `memset` leaves behind the type. -/
def NodeData.ofType (type : NodeType) : NodeData := ⟨type, 0, false, 0, [], none⟩

def finshNodeAllocate (data : NodeData) : ParserM σ Node := fun p =>
  if p.nodes = finshNodeMax then some (.null, p)
  else some (.node data .null .null, { p with nodes := p.nodes + 1 })

/-- The nodes of values: `finsh_node_new_char` and the functions beside it. -/
def finshNodeNew (data : NodeData) : ParserM σ Node := do
  let node ← finshNodeAllocate data
  if node.isNull then do
    finshErrorSet .memoryFull
    pure node
  else pure node

def finshNodeNewChar (c : BitVec 32) : ParserM σ Node :=
  finshNodeNew { NodeData.ofType .valueChar with value := c &&& 0xFF#32 }

def finshNodeNewInt (i : BitVec 32) : ParserM σ Node :=
  finshNodeNew { NodeData.ofType .valueInt with value := i }

def finshNodeNewLong (l : BitVec 32) : ParserM σ Node :=
  finshNodeNew { NodeData.ofType .valueLong with value := l }

/-- `finsh_node_new_string`, without the heap. -/
def finshNodeNewStr (s : List Char) : ParserM σ Node :=
  finshNodeNew { NodeData.ofType .valueString with string := s }

def finshNodeNewPtr : ParserM σ Node :=
  finshNodeNew (NodeData.ofType .valueNull)

def finshNodeNewId (id : List Char) : ParserM σ Node := do
  match symbols.lookup (← get).vars id with
  | some symbol => finshNodeNew { NodeData.ofType .id with symbol := some symbol }
  | none => do
    finshErrorSet .unknownSymbol
    pure .null

def makeSysNode (type : NodeType) (node1 node2 : Node) : ParserM σ Node := do
  let node ← finshNodeAllocate (.ofType type)
  if node1.isNull || node.isNull then do
    finshErrorSet .nullNode
    pure node
  else pure (.node (.ofType type) (node1.setSibling node2) .null)

/-! ## Types and identifiers -/

/-- The type that a keyword stands for. -/
def baseType : TokenType → Option FinshType
  | .void => some .void
  | .char => some .char
  | .short => some .short
  | .int => some .int
  | .long => some .long
  | _ => none

def unsignedType : TokenType → Option FinshType
  | .char => some .uchar
  | .short => some .ushort
  | .int => some .uint
  | .long => some .ulong
  | _ => none

def pointerType : FinshType → FinshType
  | .void => .voidp
  | .char | .uchar => .charp
  | .short | .ushort => .shortp
  | .int | .uint => .intp
  | .long | .ulong => .longp
  | _ => .voidp

/-- The end of `proc_type`: a pointer. -/
def procPointer (type : FinshType) : ParserM σ FinshType := do
  let token ← nextToken tokens
  if token = .mul then pure (pointerType type)
  else do
    finshTokenReplay
    pure type

/-- `__return` of `proc_type`. -/
def typeUnknown : ParserM σ FinshType := do
  finshTokenReplay
  finshErrorSet .unknownType
  pure .unknown

/-- `unsigned` before something that is no type is an error, and the end is looked for all the same;
`unsigned void` is another one, without that. -/
def procType : ParserM σ FinshType := do
  let token ← nextToken tokens
  match baseType token with
  | some type => procPointer tokens type
  | none =>
    if token = .unsigned then do
      let token ← nextToken tokens
      match unsignedType token with
      | some type => procPointer tokens type
      | none =>
        if token = .void then typeUnknown
        else do
          finshTokenReplay
          finshErrorSet .expectType
          procPointer tokens .unknown
    else typeUnknown

/-- The name is cut off behind `FINSH_NAME_MAX` characters, and the byte behind it taken to be null. -/
def procIdentifier : ParserM σ (List Char) := do
  matchToken tokens .identifier
  pure ((← get).token.string.take finshNameMax)

/-! ## Expressions -/

/-- A binary operator whose right side is there. -/
def binaryNode (type : NodeType) (left right : Node) : ParserM σ Node :=
  if right.isNull then do
    finshErrorSet .expectOperator
    pure left
  else makeSysNode type left right

/-- The loop of a level of binary operators. -/
def procBinaryLoop (op : TokenType → Option NodeType) (operand : ParserM σ Node) :
    Nat → TokenType → Node → ParserM σ Node
  | 0, _, _ => failure
  | n + 1, token, left =>
    match op token with
    | none => do
      finshTokenReplay
      pure left
    | some type => do
      let right ← operand
      let left ← binaryNode type left right
      let token ← nextToken tokens
      procBinaryLoop op operand n token left

def procBinary (op : TokenType → Option NodeType) (n : Nat) (operand : ParserM σ Node) :
    ParserM σ Node := do
  let left ← operand
  let token ← nextToken tokens
  procBinaryLoop tokens op operand n token left

def multiplicativeOp : TokenType → Option NodeType
  | .mul => some .mul
  | .div => some .div
  | .mod => some .mod
  | _ => none

def additiveOp : TokenType → Option NodeType
  | .sub => some .sub
  | .add => some .add
  | _ => none

def shiftOp : TokenType → Option NodeType
  | .shl => some .shl
  | .shr => some .shr
  | _ => none

def andOp : TokenType → Option NodeType
  | .and => some .and
  | _ => none

def exclusiveOrOp : TokenType → Option NodeType
  | .xor => some .xor
  | _ => none

def inclusiveOrOp : TokenType → Option NodeType
  | .or => some .or
  | _ => none

def procMultiplicativeExpr (n : Nat) (cast : ParserM σ Node) : ParserM σ Node :=
  procBinary tokens multiplicativeOp n cast

def procAdditiveExpr (n : Nat) (cast : ParserM σ Node) : ParserM σ Node :=
  procBinary tokens additiveOp n (procMultiplicativeExpr tokens n cast)

def procShiftExpr (n : Nat) (cast : ParserM σ Node) : ParserM σ Node :=
  procBinary tokens shiftOp n (procAdditiveExpr tokens n cast)

def procAndExpr (n : Nat) (cast : ParserM σ Node) : ParserM σ Node :=
  procBinary tokens andOp n (procShiftExpr tokens n cast)

def procExclusiveOrExpr (n : Nat) (cast : ParserM σ Node) : ParserM σ Node :=
  procBinary tokens exclusiveOrOp n (procAndExpr tokens n cast)

def procInclusiveOrExpr (n : Nat) (cast : ParserM σ Node) : ParserM σ Node :=
  procBinary tokens inclusiveOrOp n (procExclusiveOrExpr tokens n cast)

/-- The parameters with one more, if it is there. -/
def addParam (params : List Node) (next : Node) : ParserM σ (List Node) :=
  if next.isNull then do
    finshErrorSet .expectOperator
    pure params
  else pure (params ++ [next])

/-- The loop of `proc_param_list`, with the parameters so far. -/
def procParamLoop (assign : ParserM σ Node) : Nat → TokenType → List Node → ParserM σ Node
  | 0, _, _ => failure
  | n + 1, token, params =>
    if token = .comma then do
      let next ← assign
      let params ← addParam params next
      let token ← nextToken tokens
      procParamLoop assign n token params
    else do
      finshTokenReplay
      pure (.chain params)

def procParamList (n : Nat) (assign : ParserM σ Node) : ParserM σ Node := do
  let first ← assign
  if first.isNull then pure .null
  else do
    let token ← nextToken tokens
    procParamLoop tokens assign n token [first]

def procPrimaryExpr (assign : ParserM σ Node) : ParserM σ Node := do
  let token ← nextToken tokens
  match token with
  | .identifier => do
    finshTokenReplay
    let id ← procIdentifier tokens
    finshNodeNewId symbols id
  | .leftParen => do
    let expr ← assign
    matchToken tokens .rightParen
    pure expr
  | .valueInt => do finshNodeNewInt (← get).token.value
  | .valueLong => do finshNodeNewLong (← get).token.value
  | .valueChar => do finshNodeNewChar (← get).token.value
  | .valueString => do finshNodeNewStr (← get).token.string
  | .valueNull => finshNodeNewPtr
  | _ => do
    finshErrorSet .invalidToken
    pure .null

/-- The parameters of a call. -/
def procCall (n : Nat) (assign : ParserM σ Node) : ParserM σ Node := do
  let token ← nextToken tokens
  if token = .rightParen then pure .null
  else do
    finshTokenReplay
    let params ← procParamList tokens n assign
    matchToken tokens .rightParen
    pure params

def procPostfixLoop (m : Nat) (assign : ParserM σ Node) :
    Nat → TokenType → Node → ParserM σ Node
  | 0, _, _ => failure
  | n + 1, token, expr => do
    if token = .inc then
      let expr ← makeSysNode .inc expr .null
      let token ← nextToken tokens
      procPostfixLoop m assign n token expr
    else if token = .dec then
      let expr ← makeSysNode .dec expr .null
      let token ← nextToken tokens
      procPostfixLoop m assign n token expr
    else if token = .leftParen then
      let params ← procCall tokens m assign
      let expr ← makeSysNode .func expr params
      let token ← nextToken tokens
      procPostfixLoop m assign n token expr
    else
      finshTokenReplay
      pure expr

def procPostfixExpr (n : Nat) (assign : ParserM σ Node) : ParserM σ Node := do
  let expr ← procPrimaryExpr tokens symbols assign
  let token ← nextToken tokens
  procPostfixLoop tokens n assign n token expr

/-- The nodes of the prefix operators that take the tree of their operand. -/
def unaryOp : TokenType → Option NodeType
  | .inc => some .preinc
  | .dec => some .predec
  | .bitwise => some .bitwise
  | .mul => some .getvalue
  | .and => some .getaddr
  | _ => none

def procUnaryExpr (n : Nat) (assign cast : ParserM σ Node) : ParserM σ Node := do
  let token ← nextToken tokens
  match unaryOp token with
  | some type => do
    let operand ← cast
    makeSysNode type operand .null
  | none =>
    if token = .add then cast
    else if token = .sub then do
      let operand ← cast
      let zero ← finshNodeNewLong 0
      makeSysNode .sub zero operand
    else do
      finshTokenReplay
      procPostfixExpr tokens symbols n assign

mutual

def procAssignExpr : Nat → ParserM σ Node
  | 0 => failure
  | n + 1 => do
    let or ← procInclusiveOrExpr tokens n (procCastExpr n)
    let token ← nextToken tokens
    if token = .assign then do
      let assign ← procAssignExpr n
      makeSysNode .assign or assign
    else do
      finshTokenReplay
      pure or

def procCastExpr : Nat → ParserM σ Node
  | 0 => failure
  | n + 1 => do
    let token ← nextToken tokens
    if token = .leftParen then do
      let type ← procType tokens
      matchToken tokens .rightParen
      let cast ← procCastExpr n
      if cast.isNull then do
        finshTokenReplay
        procUnaryExpr tokens symbols n (procAssignExpr n) (procCastExpr n)
      else pure (cast.setDataType type.number)
    else do
      finshTokenReplay
      procUnaryExpr tokens symbols n (procAssignExpr n) (procCastExpr n)

end

/-! ## Statements -/

def procExpr (n : Nat) : ParserM σ Node := procAssignExpr tokens symbols n

def procExprStatement (n : Nat) : ParserM σ Node := do
  let token ← nextToken tokens
  if token = .semicolon then pure .null
  else do
    finshTokenReplay
    let expr ← procExpr tokens symbols n
    matchToken tokens .semicolon
    pure expr

/-- The name of a declared variable. -/
def procDeclarator (type : FinshType) : ParserM σ (List Char) := do
  let id ← procIdentifier tokens
  match finshVarInsert (← get).vars id type with
  | some vars => modify fun p => { p with vars := vars }
  | none => finshErrorSet .variableExist
  pure id

/-- The right side behind `=`, with the token behind it. -/
def procInitializer (n : Nat) (id : List Char) : ParserM σ (Option Node × TokenType) := do
  let assign ← procAssignExpr tokens symbols n
  if assign.isNull then pure (none, .assign)
  else do
    let idnode ← finshNodeNewId symbols id
    let node ← makeSysNode .assign idnode assign
    let token ← nextToken tokens
    pure (some node, token)

/-- The loop over the declarators behind a comma. -/
def procDeclLoop (m : Nat) (type : FinshType) : Nat → TokenType → List Node → ParserM σ Node
  | 0, _, _ => failure
  | n + 1, token, nodes =>
    if token = .comma then do
      let id ← procDeclarator tokens type
      let token ← nextToken tokens
      if token = .assign then do
        let r ← procInitializer tokens symbols m id
        procDeclLoop m type n r.2 (nodes ++ r.1.toList)
      else procDeclLoop m type n token nodes
    else do
      checkToken token .semicolon
      pure (.chain nodes)

def procVariableDecl (n : Nat) : ParserM σ Node := do
  let type ← procType tokens
  let id ← procDeclarator tokens type
  let token ← nextToken tokens
  match token with
  | .comma => procDeclLoop tokens symbols n type n token []
  | .assign => do
    let r ← procInitializer tokens symbols n id
    procDeclLoop tokens symbols n type n r.2 r.1.toList
  | .semicolon => pure .null
  | _ => do
    finshErrorSet .expectType
    pure .null

/-- A declaration or an expression begins with this token. -/
def isDecl (token : TokenType) : Bool := (baseType token).isSome || token == .unsigned

def procStatement (m : Nat) (token : TokenType) : ParserM σ Node :=
  if isDecl token then procVariableDecl tokens symbols m else procExprStatement tokens symbols m

/-- Behind a statement without a tree, which neither declares nor begins with a name, a token more
is read. -/
def skipToken (token : TokenType) : ParserM σ Unit :=
  if isDecl token || token == .identifier then pure ()
  else do
    let _ ← nextToken tokens
    pure ()

/-- The loop of `finsh_parser_run`. The nodes of the list `done` have their siblings; the next
statement becomes the sibling of `node`, in place of those that a declaration has put there. -/
def finshParserLoop (m : Nat) : Nat → TokenType → List Node → Node → ParserM σ Node
  | 0, _, _, _ => failure
  | n + 1, token, done, node =>
    if token = .eof ∨ token = .bad then pure (.chain (done ++ [node]))
    else do
      finshTokenReplay
      let statement ← procStatement tokens symbols m token
      if node.isNull then
        if statement.isNull then pure .null
        else do
          let token ← nextToken tokens
          finshParserLoop m n token [] statement
      else if statement.isNull then do
        skipToken tokens token
        let token ← nextToken tokens
        finshParserLoop m n token done (node.setSibling .null)
      else do
        let token ← nextToken tokens
        finshParserLoop m n token (done ++ [node]) statement

/-- `finsh_parser_run`: the root of the tree. -/
def finshParserRun (n : Nat) : ParserM σ Node := do
  let token ← nextToken tokens
  finshParserLoop tokens symbols n n token [] .null

end

/-- The state behind `finsh_flush` and `finsh_token_init`, with the variables of the lines before. -/
def finshParserInit {σ : Type} (rest : σ) (vars : List FinshVar) : Parser σ where
  rest := rest
  token := ⟨.bad, 0, []⟩
  replay := false
  errno := .ok
  nodes := 0
  vars := vars

end Tudu.Finsh
