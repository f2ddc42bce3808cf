import Fhevm.LibrarySolidity.Operators

/-!
# The generated library

The code generator writes the functions of the library `FHE`, which contracts call with handles of
encrypted types, and those of `Impl`, which call the executor. A function of the library is modelled
by its signature and by what its body does.

## Main definitions

* `Impl.binary` and its siblings — the calls of the executor.
* `LibFunction` — a function of the library.
* `generateFHEOperators` — all functions, one generator for each family of them.
-/

namespace Fhevm.LibrarySolidity

open Foundation Host

/-! ## Calls of the executor -/

/-- The chain and the transaction in which a contract, the sender of the context, runs. -/
structure Execution where
  deployment : Deployment
  signatures : SignatureScheme
  context : Context

/-- The contracts of the host, and the events of the executor for calls of the library, newest
first. -/
structure LibraryState where
  host : HostState
  events : List TfheEvent

variable (E : Execution)

def callExecutor (call : ExecutorCall) (s : LibraryState) : Result (Bytes32 × LibraryState) := do
  let ((result, event), host) ←
    executorCall E.deployment E.signatures E.context s.host call
  return (result, { host := host, events := event :: s.events })

namespace Impl

/-- The operator that a function of `Impl` is generated from. -/
def operatorNamed (name : OperatorName) : Option Operator :=
  ALL_OPERATORS.find? fun operator => operator.name = name

/-- `handleSolidityBinaryOperatorForImpl`: the function has the argument `scalar` only if the
operator has both overloads. -/
def scalarByte (op : Operator) (scalar : Bool) : UInt8 :=
  if op.hasScalar && op.hasEncrypted then if scalar then 0x01 else 0x00
  else if op.hasScalar then 0x01 else 0x00

def binary (name : OperatorName) (lhs rhs : Bytes32) (scalar : Bool) (s : LibraryState) :
    Result (Bytes32 × LibraryState) :=
  match operatorNamed name with
  | some op =>
    match op.arguments with
    | .binary fheLibName => callExecutor E (.binary fheLibName lhs rhs (scalarByte op scalar)) s
    -- there is no function with these arguments
    | .unary _ => .error .panic
  | none => .error .panic

/-- `handleUnaryOperatorForImpl` -/
def unary (name : OperatorName) (ct : Bytes32) (s : LibraryState) : Result (Bytes32 × LibraryState) :=
  match operatorNamed name with
  | some op =>
    match op.arguments with
    | .unary fheLibName => callExecutor E (.unary fheLibName ct) s
    | .binary _ => .error .panic
  | none => .error .panic

def select (control ifTrue ifFalse : Bytes32) (s : LibraryState) :
    Result (Bytes32 × LibraryState) :=
  callExecutor E (.fheIfThenElse control ifTrue ifFalse) s

def cast (ciphertext : Bytes32) (toType : FheType) (s : LibraryState) :
    Result (Bytes32 × LibraryState) :=
  callExecutor E (.cast ciphertext toType) s

def trivialEncrypt (value : BitVec 256) (toType : FheType) (s : LibraryState) :
    Result (Bytes32 × LibraryState) :=
  callExecutor E (.trivialEncrypt value toType) s

end Impl

/-! ## Functions of the library -/

inductive ParamType
  | encrypted (type : TypeName)
  | clear (type : ClearType)
deriving DecidableEq, Repr

inductive FunctionName
  | operator (name : OperatorName)
  /-- `asEbool`, `asEuint8`, … -/
  | asE (type : TypeName)
deriving DecidableEq, Repr

/-- A function with its body, which is given its arguments by position: handles, and the words of
plaintexts. -/
structure LibFunction where
  name : FunctionName
  params : List ParamType
  returnType : TypeName
  body : (Nat → Bytes32) → LibraryState → Result (Bytes32 × LibraryState)

/-- `handleSolidityTFHEIsInitialized` -/
def isInitialized (v : Bytes32) : Bool := v != 0

/-- `if (!isInitialized(v)) { v = asE…(0); }` -/
def checkInitialized (type : TypeName) (v : Bytes32) (s : LibraryState) :
    Result (Bytes32 × LibraryState) :=
  if isInitialized v then return (v, s) else Impl.trivialEncrypt E 0 type.fheType s

/-- The cast of an operand to the type of the wider one, where it is not that type. -/
def widen (needed : Bool) (v : Bytes32) (output : TypeName) (s : LibraryState) :
    Result (Bytes32 × LibraryState) :=
  if needed then Impl.cast E v output.fheType s else return (v, s)

/-- The body of the operators on two handles, of which one may have to be cast. -/
def encryptedOperator (name : OperatorName) (lhs rhs output : TypeName)
    (castLeftToRight castRightToLeft : Bool) (args : Nat → Bytes32) (s : LibraryState) :
    Result (Bytes32 × LibraryState) := do
  let (a, s) ← checkInitialized E lhs (args 0) s
  let (b, s) ← checkInitialized E rhs (args 1) s
  let (a, s) ← widen E castLeftToRight a output s
  let (b, s) ← widen E castRightToLeft b output s
  Impl.binary E name a b false s

def ReturnType.typeName (returnType : ReturnType) (euint : TypeName) : TypeName :=
  match returnType with
  | .euint => euint
  | .ebool => .fhe .bool

def Operator.isBinary (operator : Operator) : Bool :=
  match operator.arguments with
  | .binary _ => true
  | .unary _ => false

def handleSolidityTFHEEncryptedOperatorForTwoEncryptedTypes (lhsFheType rhsFheType : AdjustedFheType)
    (operator : Operator) : List LibFunction :=
  if operator.shiftOperator || operator.rotateOperator then []
  else if !operator.hasEncrypted || !operator.isBinary then []
  else if !lhsFheType.supportedOperators.contains operator.name ||
      !rhsFheType.supportedOperators.contains operator.name then []
  else if lhsFheType.type.isUint && rhsFheType.type.isUint then
    let castLeftToRight := decide (lhsFheType.bitLength < rhsFheType.bitLength)
    let castRightToLeft := decide (lhsFheType.bitLength > rhsFheType.bitLength)
    -- the type with the larger number of bits
    let output := if castLeftToRight then rhsFheType.type else lhsFheType.type
    [{ name := .operator operator.name
       params := [.encrypted lhsFheType.type, .encrypted rhsFheType.type]
       returnType := operator.returnType.typeName output
       body := encryptedOperator E operator.name lhsFheType.type rhsFheType.type output
         castLeftToRight castRightToLeft }]
  else if lhsFheType.type = .fhe .bool ∧ rhsFheType.type = .fhe .bool then
    [{ name := .operator operator.name
       params := [.encrypted (.fhe .bool), .encrypted (.fhe .bool)]
       returnType := .fhe .bool
       body := encryptedOperator E operator.name (.fhe .bool) (.fhe .bool) (.fhe .bool) false false }]
  else if lhsFheType.type = .address ∧ rhsFheType.type = .address then
    [{ name := .operator operator.name
       params := [.encrypted .address, .encrypted .address]
       returnType := .fhe .bool
       body := encryptedOperator E operator.name .address .address .address false false }]
  else []

/-- The body of the operators whose right operand is a plaintext. -/
def rightScalarOperator (name : OperatorName) (type : TypeName) (a b : Bytes32) (s : LibraryState) :
    Result (Bytes32 × LibraryState) := do
  let (a, s) ← checkInitialized E type a s
  Impl.binary E name a b true s

/-- The body of the operators whose left operand is a plaintext. -/
def leftScalarOperator (operator : Operator) (type : TypeName) (a b : Bytes32) (s : LibraryState) :
    Result (Bytes32 × LibraryState) :=
  let leftOpName := operator.leftScalarInvertOp.getD operator.name
  if operator.leftScalarEncrypt then do
    -- the order of the operands is preserved
    let (aEnc, s) ← Impl.trivialEncrypt E a type.fheType s
    let (b, s) ← checkInitialized E type b s
    Impl.binary E leftOpName aEnc b false s
  else do
    let (b, s) ← checkInitialized E type b s
    Impl.binary E leftOpName b a true s

def generateSolidityTFHEScalarOperator (fheType : AdjustedFheType) (operator : Operator) :
    List LibFunction :=
  if operator.shiftOperator || operator.rotateOperator then []
  else if !operator.isBinary then []
  else if !operator.hasScalar then []
  else if !fheType.supportedOperators.contains operator.name then []
  else
    let returnType := operator.returnType.typeName fheType.type
    let rhsScalar : LibFunction :=
      { name := .operator operator.name
        params := [.encrypted fheType.type, .clear fheType.clearMatchingType]
        returnType := returnType
        body := fun args => rightScalarOperator E operator.name fheType.type (args 0) (args 1) }
    let lhsScalar : LibFunction :=
      { name := .operator operator.name
        params := [.clear fheType.clearMatchingType, .encrypted fheType.type]
        returnType := returnType
        body := fun args => leftScalarOperator E operator fheType.type (args 0) (args 1) }
    if operator.leftScalarDisable then [rhsScalar] else [rhsScalar, lhsScalar]

def handleSolidityTFHEShiftOperator (fheType : AdjustedFheType) (operator : Operator) :
    List LibFunction :=
  if !operator.shiftOperator && !operator.rotateOperator then []
  else if fheType.supportedOperators.contains operator.name then
    let castRightToLeft := decide (fheType.bitLength > 8)
    [{ name := .operator operator.name
       params := [.encrypted fheType.type, .encrypted (.fhe .uint8)]
       returnType := fheType.type
       body := encryptedOperator E operator.name fheType.type (.fhe .uint8) fheType.type false
         castRightToLeft },
      { name := .operator operator.name
        params := [.encrypted fheType.type, .clear (.uint 8)]
        returnType := fheType.type
        body := fun args => rightScalarOperator E operator.name fheType.type (args 0) (args 1) }]
  else []

def handleSolidityTFHESelect (fheType : AdjustedFheType) : List LibFunction :=
  if fheType.supportedOperators.contains .select then
    [{ name := .operator .select
       params := [.encrypted (.fhe .bool), .encrypted fheType.type, .encrypted fheType.type]
       returnType := fheType.type
       body := fun args s => do
         let (control, s) ← checkInitialized E (.fhe .bool) (args 0) s
         let (a, s) ← checkInitialized E fheType.type (args 1) s
         let (b, s) ← checkInitialized E fheType.type (args 2) s
         Impl.select E control a b s }]
  else []

def handleSolidityTFHECustomCastBetweenTwoEuint (inputFheType outputFheType : AdjustedFheType) :
    List LibFunction :=
  if inputFheType.type = outputFheType.type || !inputFheType.type.isUint ||
      !outputFheType.type.isUint then []
  else
    [{ name := .asE outputFheType.type
       params := [.encrypted inputFheType.type]
       returnType := outputFheType.type
       body := fun args => Impl.cast E (args 0) outputFheType.type.fheType }]

def handleSolidityTFHECustomCastBetweenEboolAndEuint (fheType : AdjustedFheType) :
    List LibFunction :=
  if fheType.type.isUint then
    let fromEbool : LibFunction :=
      { name := .asE fheType.type
        params := [.encrypted (.fhe .bool)]
        returnType := fheType.type
        body := fun args => Impl.cast E (args 0) fheType.type.fheType }
    let asEbool : LibFunction :=
      { name := .asE (.fhe .bool)
        params := [.encrypted fheType.type]
        returnType := .fhe .bool
        -- `ne(value, 0)`
        body := fun args => rightScalarOperator E .ne fheType.type (args 0) 0 }
    if fheType.supportedOperators.contains .ne then [fromEbool, asEbool] else [fromEbool]
  else []

def handleSolidityTFHEUnaryOperators (fheType : AdjustedFheType) (operators : List Operator) :
    List LibFunction :=
  operators.flatMap fun op =>
    if !op.isBinary && fheType.supportedOperators.contains op.name then
      [{ name := .operator op.name
         params := [.encrypted fheType.type]
         returnType := fheType.type
         body := fun args => Impl.unary E op.name (args 0) }]
    else []

/-- The conversion of a plaintext. That of an external handle is left out. -/
def handleSolidityTFHEConvertPlaintextAndEinputToRespectiveType (fheType : AdjustedFheType) :
    List LibFunction :=
  [{ name := .asE fheType.type
     params := [.clear fheType.clearMatchingType]
     returnType := fheType.type
     body := fun args => Impl.trivialEncrypt E (args 0) fheType.type.fheType }]

def generateFHEOperators (operators : List Operator) (adjustedFheTypes : List AdjustedFheType) :
    List LibFunction :=
  (adjustedFheTypes.flatMap fun lhsFheType => adjustedFheTypes.flatMap fun rhsFheType =>
    operators.flatMap fun operator =>
      handleSolidityTFHEEncryptedOperatorForTwoEncryptedTypes E lhsFheType rhsFheType operator) ++
  (adjustedFheTypes.flatMap fun fheType => operators.flatMap fun operator =>
    generateSolidityTFHEScalarOperator E fheType operator) ++
  (adjustedFheTypes.flatMap fun fheType => operators.flatMap fun operator =>
    handleSolidityTFHEShiftOperator E fheType operator) ++
  (adjustedFheTypes.flatMap fun fheType => handleSolidityTFHESelect E fheType) ++
  (adjustedFheTypes.flatMap fun outputFheType =>
    (adjustedFheTypes.flatMap fun inputFheType =>
      handleSolidityTFHECustomCastBetweenTwoEuint E inputFheType outputFheType) ++
    handleSolidityTFHECustomCastBetweenEboolAndEuint E outputFheType) ++
  (adjustedFheTypes.flatMap fun fheType => handleSolidityTFHEUnaryOperators E fheType operators) ++
  (adjustedFheTypes.flatMap fun fheType =>
    handleSolidityTFHEConvertPlaintextAndEinputToRespectiveType E fheType)

/-- The functions of the library. -/
def library : List LibFunction := generateFHEOperators E ALL_OPERATORS adjustedFheTypes

end Fhevm.LibrarySolidity
