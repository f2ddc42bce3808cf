import Fhevm.Host.HCULimit
import Fhevm.Host.InputVerifier

/-!
# The executor of symbolic operations

Contracts call the executor with handles. It checks types and permissions, derives
the handle of the result from the operation and its operands, allows the result to the
caller for the transaction, and emits an event for the coprocessors.

## Main definitions

* `HostState` — the executor and the contracts it calls.
* `unaryOp`, `binaryOp`, `ternaryOp` — the handles of results.
* `fheAdd` and its siblings, `cast`, `trivialEncrypt`, `verifyInput`, `fheRand`,
  `fheRandBounded` — the entry points.
* `executorCall` — a call by an account.
-/

namespace Fhevm.Host

open Foundation

/-! ## Data -/

inductive Operators
  | fheAdd | fheSub | fheMul | fheDiv | fheRem | fheBitAnd | fheBitOr | fheBitXor | fheShl
  | fheShr | fheRotl | fheRotr | fheEq | fheNe | fheGe | fheGt | fheLe | fheLt | fheMin | fheMax
  | fheNeg | fheNot | verifyInput | cast | trivialEncrypt | fheIfThenElse | fheRand
  | fheRandBounded
deriving DecidableEq, Repr

def Operators.toNat (op : Operators) : Nat := op.ctorIdx

inductive BinaryOperator
  | fheAdd | fheSub | fheMul | fheDiv | fheRem | fheBitAnd | fheBitOr | fheBitXor | fheShl
  | fheShr | fheRotl | fheRotr | fheEq | fheNe | fheGe | fheGt | fheLe | fheLt | fheMin | fheMax
deriving DecidableEq, Repr

def BinaryOperator.toOperators : BinaryOperator → Operators
  | .fheAdd => .fheAdd
  | .fheSub => .fheSub
  | .fheMul => .fheMul
  | .fheDiv => .fheDiv
  | .fheRem => .fheRem
  | .fheBitAnd => .fheBitAnd
  | .fheBitOr => .fheBitOr
  | .fheBitXor => .fheBitXor
  | .fheShl => .fheShl
  | .fheShr => .fheShr
  | .fheRotl => .fheRotl
  | .fheRotr => .fheRotr
  | .fheEq => .fheEq
  | .fheNe => .fheNe
  | .fheGe => .fheGe
  | .fheGt => .fheGt
  | .fheLe => .fheLe
  | .fheLt => .fheLt
  | .fheMin => .fheMin
  | .fheMax => .fheMax

inductive UnaryOperator
  | fheNeg | fheNot
deriving DecidableEq, Repr

def UnaryOperator.toOperators : UnaryOperator → Operators
  | .fheNeg => .fheNeg
  | .fheNot => .fheNot

/-- The events of the executor. Those of the binary and of the unary operations have the same
fields. -/
inductive TfheEvent
  | binary (op : BinaryOperator) (caller : Address) (lhs rhs : Bytes32) (scalarByte : UInt8)
      (result : Bytes32)
  | unary (op : UnaryOperator) (caller : Address) (ct result : Bytes32)
  | verifyInput (caller : Address) (inputHandle : Bytes32) (userAddress : Address)
      (inputProof : Bytes) (inputType : FheType) (result : Bytes32)
  | cast (caller : Address) (ct : Bytes32) (toType : FheType) (result : Bytes32)
  | trivialEncrypt (caller : Address) (pt : BitVec 256) (toType : FheType) (result : Bytes32)
  | fheIfThenElse (caller : Address) (control ifTrue ifFalse result : Bytes32)
  | fheRand (caller : Address) (randType : FheType) (seed : BitVec 128) (result : Bytes32)
  | fheRandBounded (caller : Address) (upperBound : BitVec 256) (randType : FheType)
      (seed : BitVec 128) (result : Bytes32)
deriving DecidableEq, Repr

/-- The storage of the executor, which is a counter, and of the contracts it calls. -/
structure HostState where
  acl : ACLState
  hcu : HCUStorage
  verifier : InputVerifierState
  counterRand : Nat

/-- The result of an operation with its event, and the state after it. -/
abbrev Outcome := Result ((Bytes32 × TfheEvent) × HostState)

namespace FHEVMExecutor

variable (D : Deployment)

/-! ## Checks -/

def uint8To128 : List FheType := [.uint8, .uint16, .uint32, .uint64, .uint128]

def uint8To256 : List FheType := [.uint8, .uint16, .uint32, .uint64, .uint128, .uint256]

def boolAndUint8To256 : List FheType :=
  [.bool, .uint8, .uint16, .uint32, .uint64, .uint128, .uint256]

def boolAndUint8To160And256 : List FheType :=
  [.bool, .uint8, .uint16, .uint32, .uint64, .uint128, .uint160, .uint256]

/-- `_typeOf`, a panic where the type byte is no type. -/
def handleType (handle : Bytes32) : Result FheType :=
  match typeOf handle with
  | some typeCt => .ok typeCt
  | none => .error .panic

def checkSupported (type : FheType) (supportedTypes : List FheType) : Result Unit :=
  require (type ∈ supportedTypes) .unsupportedType

def verifyAndReturnType (handle : Bytes32) (supportedTypes : List FheType) : Result FheType := do
  let typeCt ← handleType handle
  checkSupported typeCt supportedTypes
  return typeCt

def checkAllowed (sender : Address) (handle : Bytes32) (s : ACLState) : Result Unit :=
  require (isAllowed D handle sender s = true) (.aclNotAllowed handle sender)

def checkBoolean (scalarByte : UInt8) : Result Unit :=
  require (¬ 1 < scalarByte.toNat) .scalarByteIsNotBoolean

def isPowerOfTwo (x : BitVec 256) : Bool := decide (0 < x.toNat) && (x &&& (x - 1)) == 0

def revertUpperBoundAboveMaxTypeValue (upperBound : BitVec 256) (maxTypeValue : Nat) : Result Unit :=
  require (¬ maxTypeValue < upperBound.toNat) .upperBoundAboveMaxTypeValue

def checkBelowMaxBound (upperBound : BitVec 256) (randType : FheType) : Result Unit :=
  match randType with
  | .uint8 => revertUpperBoundAboveMaxTypeValue upperBound (2 ^ 8)
  | .uint16 => revertUpperBoundAboveMaxTypeValue upperBound (2 ^ 16)
  | .uint32 => revertUpperBoundAboveMaxTypeValue upperBound (2 ^ 32)
  | .uint64 => revertUpperBoundAboveMaxTypeValue upperBound (2 ^ 64)
  | .uint128 => revertUpperBoundAboveMaxTypeValue upperBound (2 ^ 128)
  -- there is no larger number than those of 256 bits
  | _ => .ok ()

/-! ## Handles of results -/

def opByte (op : Operators) : Bytes := [UInt8.ofNat op.toNat]

def typeByte (type : FheType) : Bytes := [UInt8.ofNat type.toNat]

def seedBytes (seed : BitVec 128) : Bytes := BigEndian.encode 16 seed.toNat

/-- The contract and the chain that most handles are derived from. -/
def chainBytes : Bytes := addressBytes D.aclAdd ++ wordBytes D.chainid

/-- The handle for a packed description of a computation. -/
def handleOf (preimage : Bytes) (resultType : FheType) : Bytes32 :=
  appendMetadataToPrehandle D.chainid (D.keccak256 preimage) resultType

/-- The result is allowed to the sender by the executor itself. -/
def allowResult (sender : Address) (result : Bytes32) (s : HostState) : Result HostState := do
  let acl ← allowTransient D D.fhevmExecutorAdd result sender s.acl
  return { s with acl := acl }

def unaryOp (op : Operators) (sender : Address) (ct : Bytes32) (s : HostState) :
    Result (Bytes32 × HostState) := do
  checkAllowed D sender ct s.acl
  let typeCt ← handleType ct
  let result := handleOf D (opByte op ++ wordBytes ct ++ chainBytes D) typeCt
  let s ← allowResult D sender result s
  return (result, s)

def binaryOp (op : Operators) (sender : Address) (lhs rhs : Bytes32) (scalar : UInt8)
    (resultType : FheType) (s : HostState) : Result (Bytes32 × HostState) := do
  checkBoolean scalar
  checkAllowed D sender lhs s.acl
  if scalar = 0x00 then
    checkAllowed D sender rhs s.acl
    let rhsType ← handleType rhs
    let lhsType ← handleType lhs
    require (lhsType = rhsType) .incompatibleTypes
  let result := handleOf D (opByte op ++ wordBytes lhs ++ wordBytes rhs ++ [scalar] ++ chainBytes D)
    resultType
  let s ← allowResult D sender result s
  return (result, s)

def ternaryOp (op : Operators) (sender : Address) (lhs middle rhs : Bytes32) (s : HostState) :
    Result (Bytes32 × HostState) := do
  checkAllowed D sender lhs s.acl
  checkAllowed D sender middle s.acl
  checkAllowed D sender rhs s.acl
  let lhsType ← handleType lhs
  let middleType ← handleType middle
  let rhsType ← handleType rhs
  require (lhsType = .bool) .unsupportedType
  require (middleType = rhsType) .incompatibleTypes
  let result := handleOf D (opByte op ++ wordBytes lhs ++ wordBytes middle ++ wordBytes rhs ++
    chainBytes D) middleType
  let s ← allowResult D sender result s
  return (result, s)

/-- `keccak256(counterRand, acl, chainid, blockhash, timestamp)`, the first 16 bytes of it. -/
def seedOf (ctx : Context) (counterRand : Nat) : BitVec 128 :=
  (D.keccak256 (BigEndian.encode 32 counterRand ++ chainBytes D ++ wordBytes ctx.blockhash ++
    BigEndian.encode 32 ctx.timestamp)).extractLsb' 128 128

def generateSeed (ctx : Context) (s : HostState) : Result (BitVec 128 × HostState) := do
  let counterRand ← increment 256 s.counterRand .panic
  return (seedOf D ctx s.counterRand, { s with counterRand := counterRand })

/-! ## Entry points -/

/-- The course of the binary operations. -/
def binaryOperation (op : BinaryOperator) (supportedTypes : List FheType)
    (resultType : FheType → FheType)
    (checkHCU : Address → FheType → UInt8 → Bytes32 → Bytes32 → Bytes32 → HCUStorage →
      Result HCUStorage)
    (ctx : Context) (lhs rhs : Bytes32) (scalarByte : UInt8) (s : HostState) : Outcome := do
  let lhsType ← verifyAndReturnType lhs supportedTypes
  let (result, s) ← binaryOp D op.toOperators ctx.sender lhs rhs scalarByte (resultType lhsType) s
  let hcu ← checkHCU D.fhevmExecutorAdd lhsType scalarByte lhs rhs result s.hcu
  return ((result, .binary op ctx.sender lhs rhs scalarByte result), { s with hcu := hcu })

def fheAdd := binaryOperation D .fheAdd uint8To128 id (checkHCUForFheAdd D)

def fheSub := binaryOperation D .fheSub uint8To128 id (checkHCUForFheSub D)

def fheMul := binaryOperation D .fheMul uint8To128 id (checkHCUForFheMul D)

def fheDiv (ctx : Context) (lhs rhs : Bytes32) (scalarByte : UInt8) (s : HostState) : Outcome := do
  require (scalarByte = 0x01) .isNotScalar
  require (rhs ≠ 0) .divisionByZero
  binaryOperation D .fheDiv uint8To128 id (checkHCUForFheDiv D) ctx lhs rhs scalarByte s

def fheRem (ctx : Context) (lhs rhs : Bytes32) (scalarByte : UInt8) (s : HostState) : Outcome := do
  require (scalarByte = 0x01) .isNotScalar
  require (rhs ≠ 0) .divisionByZero
  binaryOperation D .fheRem uint8To128 id (checkHCUForFheRem D) ctx lhs rhs scalarByte s

def fheBitAnd := binaryOperation D .fheBitAnd boolAndUint8To256 id (checkHCUForFheBitAnd D)

def fheBitOr := binaryOperation D .fheBitOr boolAndUint8To256 id (checkHCUForFheBitOr D)

def fheBitXor := binaryOperation D .fheBitXor boolAndUint8To256 id (checkHCUForFheBitXor D)

def fheShl := binaryOperation D .fheShl uint8To256 id (checkHCUForFheShl D)

def fheShr := binaryOperation D .fheShr uint8To256 id (checkHCUForFheShr D)

def fheRotl := binaryOperation D .fheRotl uint8To256 id (checkHCUForFheRotl D)

def fheRotr := binaryOperation D .fheRotr uint8To256 id (checkHCUForFheRotr D)

def fheEq := binaryOperation D .fheEq boolAndUint8To160And256 (fun _ => .bool) (checkHCUForFheEq D)

def fheNe := binaryOperation D .fheNe boolAndUint8To160And256 (fun _ => .bool) (checkHCUForFheNe D)

def fheGe := binaryOperation D .fheGe uint8To128 (fun _ => .bool) (checkHCUForFheGe D)

def fheGt := binaryOperation D .fheGt uint8To128 (fun _ => .bool) (checkHCUForFheGt D)

def fheLe := binaryOperation D .fheLe uint8To128 (fun _ => .bool) (checkHCUForFheLe D)

def fheLt := binaryOperation D .fheLt uint8To128 (fun _ => .bool) (checkHCUForFheLt D)

def fheMin := binaryOperation D .fheMin uint8To128 id (checkHCUForFheMin D)

def fheMax := binaryOperation D .fheMax uint8To128 id (checkHCUForFheMax D)
/-- The course of the unary operations. -/
def unaryOperation (op : UnaryOperator) (supportedTypes : List FheType)
    (checkHCU : Address → FheType → Bytes32 → Bytes32 → HCUStorage → Result HCUStorage)
    (ctx : Context) (ct : Bytes32) (s : HostState) : Outcome := do
  let typeCt ← verifyAndReturnType ct supportedTypes
  let (result, s) ← unaryOp D op.toOperators ctx.sender ct s
  let hcu ← checkHCU D.fhevmExecutorAdd typeCt ct result s.hcu
  return ((result, .unary op ctx.sender ct result), { s with hcu := hcu })

def fheNeg := unaryOperation D .fheNeg uint8To256 (checkHCUForFheNeg D)

def fheNot := unaryOperation D .fheNot boolAndUint8To256 (checkHCUForFheNot D)

def fheIfThenElse (ctx : Context) (control ifTrue ifFalse : Bytes32) (s : HostState) : Outcome := do
  let typeCt ← verifyAndReturnType ifTrue boolAndUint8To160And256
  let (result, s) ← ternaryOp D .fheIfThenElse ctx.sender control ifTrue ifFalse s
  let hcu ← checkHCUForIfThenElse D D.fhevmExecutorAdd typeCt control ifTrue ifFalse result s.hcu
  return ((result, .fheIfThenElse ctx.sender control ifTrue ifFalse result), { s with hcu := hcu })

def generateRand (ctx : Context) (randType : FheType) (seed : BitVec 128) (s : HostState) :
    Result (Bytes32 × HostState) := do
  checkSupported randType boolAndUint8To256
  let result := handleOf D (opByte .fheRand ++ typeByte randType ++ seedBytes seed) randType
  let hcu ← checkHCUForFheRand D D.fhevmExecutorAdd randType result s.hcu
  let s ← allowResult D ctx.sender result { s with hcu := hcu }
  return (result, s)

def fheRand (ctx : Context) (randType : FheType) (s : HostState) : Outcome := do
  let (seed, s) ← generateSeed D ctx s
  let (result, s) ← generateRand D ctx randType seed s
  return ((result, .fheRand ctx.sender randType seed result), s)

def generateRandBounded (ctx : Context) (upperBound : BitVec 256) (randType : FheType)
    (seed : BitVec 128) (s : HostState) : Result (Bytes32 × HostState) := do
  checkSupported randType uint8To256
  require (isPowerOfTwo upperBound = true) .notPowerOfTwo
  checkBelowMaxBound upperBound randType
  let result := handleOf D (opByte .fheRandBounded ++ wordBytes upperBound ++ typeByte randType ++
    seedBytes seed) randType
  let hcu ← checkHCUForFheRandBounded D D.fhevmExecutorAdd randType result s.hcu
  let s ← allowResult D ctx.sender result { s with hcu := hcu }
  return (result, s)

def fheRandBounded (ctx : Context) (upperBound : BitVec 256) (randType : FheType)
    (s : HostState) : Outcome := do
  let (seed, s) ← generateSeed D ctx s
  let (result, s) ← generateRandBounded D ctx upperBound randType seed s
  return ((result, .fheRandBounded ctx.sender upperBound randType seed result), s)

def cast (ctx : Context) (ct : Bytes32) (toType : FheType) (s : HostState) : Outcome := do
  checkAllowed D ctx.sender ct s.acl
  let typeCt ← verifyAndReturnType ct boolAndUint8To256
  checkSupported toType uint8To256
  require (typeCt ≠ toType) .invalidType
  let result := handleOf D (opByte .cast ++ wordBytes ct ++ typeByte toType ++ chainBytes D) toType
  let hcu ← checkHCUForCast D D.fhevmExecutorAdd toType ct result s.hcu
  let s ← allowResult D ctx.sender result { s with hcu := hcu }
  return ((result, .cast ctx.sender ct toType result), s)

def trivialEncrypt (ctx : Context) (pt : BitVec 256) (toType : FheType) (s : HostState) :
    Outcome := do
  checkSupported toType boolAndUint8To160And256
  let result := handleOf D (opByte .trivialEncrypt ++ wordBytes pt ++ typeByte toType ++
    chainBytes D) toType
  let hcu ← checkHCUForTrivialEncrypt D D.fhevmExecutorAdd toType result s.hcu
  let s ← allowResult D ctx.sender result { s with hcu := hcu }
  return ((result, .trivialEncrypt ctx.sender pt toType result), s)

def verifyInput (V : SignatureScheme) (ctx : Context) (inputHandle : Bytes32)
    (userAddress : Address) (inputProof : Bytes) (inputType : FheType) (s : HostState) :
    Outcome := do
  let contextUserInputs : ContextUserInputs :=
    { userAddress := userAddress, contractAddress := ctx.sender }
  let typeCt ← handleType inputHandle
  require (inputType = typeCt) .invalidType
  let (result, verifier) ← Host.verifyInput D V contextUserInputs inputHandle inputProof s.verifier
  let s ← allowResult D ctx.sender result { s with verifier := verifier }
  return ((result, .verifyInput ctx.sender inputHandle userAddress inputProof inputType result), s)

end FHEVMExecutor

/-! ## Calls -/

inductive ExecutorCall
  | binary (op : BinaryOperator) (lhs rhs : Bytes32) (scalarByte : UInt8)
  | unary (op : UnaryOperator) (ct : Bytes32)
  | fheIfThenElse (control ifTrue ifFalse : Bytes32)
  | fheRand (randType : FheType)
  | fheRandBounded (upperBound : BitVec 256) (randType : FheType)
  | cast (ct : Bytes32) (toType : FheType)
  | trivialEncrypt (pt : BitVec 256) (toType : FheType)
  | verifyInput (inputHandle : Bytes32) (userAddress : Address) (inputProof : Bytes)
      (inputType : FheType)
deriving DecidableEq, Repr

open FHEVMExecutor

variable (D : Deployment) (V : SignatureScheme)

/-- The entry point for a binary operator. -/
def binaryCall : BinaryOperator → Context → Bytes32 → Bytes32 → UInt8 → HostState → Outcome
  | .fheAdd => fheAdd D
  | .fheSub => fheSub D
  | .fheMul => fheMul D
  | .fheDiv => fheDiv D
  | .fheRem => fheRem D
  | .fheBitAnd => fheBitAnd D
  | .fheBitOr => fheBitOr D
  | .fheBitXor => fheBitXor D
  | .fheShl => fheShl D
  | .fheShr => fheShr D
  | .fheRotl => fheRotl D
  | .fheRotr => fheRotr D
  | .fheEq => fheEq D
  | .fheNe => fheNe D
  | .fheGe => fheGe D
  | .fheGt => fheGt D
  | .fheLe => fheLe D
  | .fheLt => fheLt D
  | .fheMin => fheMin D
  | .fheMax => fheMax D

/-- The entry point for a unary operator. -/
def unaryCall : UnaryOperator → Context → Bytes32 → HostState → Outcome
  | .fheNeg => fheNeg D
  | .fheNot => fheNot D

/-- What a call of the executor does. -/
def executorCall (ctx : Context) (s : HostState) : ExecutorCall → Outcome
  | .binary op lhs rhs scalarByte => binaryCall D op ctx lhs rhs scalarByte s
  | .unary op ct => unaryCall D op ctx ct s
  | .fheIfThenElse control ifTrue ifFalse =>
    FHEVMExecutor.fheIfThenElse D ctx control ifTrue ifFalse s
  | .fheRand randType => FHEVMExecutor.fheRand D ctx randType s
  | .fheRandBounded upperBound randType => FHEVMExecutor.fheRandBounded D ctx upperBound randType s
  | .cast ct toType => FHEVMExecutor.cast D ctx ct toType s
  | .trivialEncrypt pt toType => FHEVMExecutor.trivialEncrypt D ctx pt toType s
  | .verifyInput inputHandle userAddress inputProof inputType =>
    FHEVMExecutor.verifyInput D V ctx inputHandle userAddress inputProof inputType s

end Fhevm.Host
