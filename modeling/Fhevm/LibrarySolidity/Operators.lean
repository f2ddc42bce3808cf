import Fhevm.Host.ClearText

/-!
# Types and operators of the Solidity library

The code generator of the library works on two tables: the types with the operators that each
supports, and the operators with their overloads.

## Main definitions

* `ALL_OPERATORS`, `ALL_FHE_TYPE_INFOS` — the tables.
* `generateAdjustedFheTypeArray` — the types and aliases that have operators.
-/

namespace Fhevm.LibrarySolidity

open Host

/-! ## Operators -/

inductive OperatorName
  | add | sub | mul | div | rem | and | or | xor | shl | shr | rotl | rotr | eq | ne | ge | gt | le
  | lt | min | max | neg | not | select
deriving DecidableEq, Repr

/-- The number of arguments, with the function of the executor (`fheLibName`). -/
inductive OperatorArguments
  | binary (fheLibName : BinaryOperator)
  | unary (fheLibName : UnaryOperator)
deriving DecidableEq, Repr

inductive ReturnType
  | euint | ebool
deriving DecidableEq, Repr

structure Operator where
  name : OperatorName
  hasScalar : Bool
  hasEncrypted : Bool
  arguments : OperatorArguments
  returnType : ReturnType
  leftScalarEncrypt : Bool := false
  leftScalarDisable : Bool := false
  shiftOperator : Bool := false
  rotateOperator : Bool := false
  leftScalarInvertOp : Option OperatorName := none
deriving DecidableEq, Repr

def ALL_OPERATORS : List Operator :=
  [{ name := .add, hasScalar := true, hasEncrypted := true, arguments := .binary .fheAdd,
      returnType := .euint },
    { name := .sub, hasScalar := true, hasEncrypted := true, arguments := .binary .fheSub,
      returnType := .euint, leftScalarEncrypt := true },
    { name := .mul, hasScalar := true, hasEncrypted := true, arguments := .binary .fheMul,
      returnType := .euint },
    { name := .div, hasScalar := true, hasEncrypted := false, arguments := .binary .fheDiv,
      returnType := .euint, leftScalarDisable := true },
    { name := .rem, hasScalar := true, hasEncrypted := false, arguments := .binary .fheRem,
      returnType := .euint, leftScalarDisable := true },
    { name := .and, hasScalar := true, hasEncrypted := true, arguments := .binary .fheBitAnd,
      returnType := .euint },
    { name := .or, hasScalar := true, hasEncrypted := true, arguments := .binary .fheBitOr,
      returnType := .euint },
    { name := .xor, hasScalar := true, hasEncrypted := true, arguments := .binary .fheBitXor,
      returnType := .euint },
    { name := .shl, hasScalar := true, hasEncrypted := true, arguments := .binary .fheShl,
      returnType := .euint, leftScalarEncrypt := true, shiftOperator := true },
    { name := .shr, hasScalar := true, hasEncrypted := true, arguments := .binary .fheShr,
      returnType := .euint, leftScalarEncrypt := true, shiftOperator := true },
    { name := .rotl, hasScalar := true, hasEncrypted := true, arguments := .binary .fheRotl,
      returnType := .euint, leftScalarEncrypt := true, rotateOperator := true },
    { name := .rotr, hasScalar := true, hasEncrypted := true, arguments := .binary .fheRotr,
      returnType := .euint, leftScalarEncrypt := true, rotateOperator := true },
    { name := .eq, hasScalar := true, hasEncrypted := true, arguments := .binary .fheEq,
      returnType := .ebool },
    { name := .ne, hasScalar := true, hasEncrypted := true, arguments := .binary .fheNe,
      returnType := .ebool },
    { name := .ge, hasScalar := true, hasEncrypted := true, arguments := .binary .fheGe,
      returnType := .ebool, leftScalarInvertOp := some .le },
    { name := .gt, hasScalar := true, hasEncrypted := true, arguments := .binary .fheGt,
      returnType := .ebool, leftScalarInvertOp := some .lt },
    { name := .le, hasScalar := true, hasEncrypted := true, arguments := .binary .fheLe,
      returnType := .ebool, leftScalarInvertOp := some .ge },
    { name := .lt, hasScalar := true, hasEncrypted := true, arguments := .binary .fheLt,
      returnType := .ebool, leftScalarInvertOp := some .gt },
    { name := .min, hasScalar := true, hasEncrypted := true, arguments := .binary .fheMin,
      returnType := .euint },
    { name := .max, hasScalar := true, hasEncrypted := true, arguments := .binary .fheMax,
      returnType := .euint },
    { name := .neg, hasScalar := true, hasEncrypted := true, arguments := .unary .fheNeg,
      returnType := .euint },
    { name := .not, hasScalar := true, hasEncrypted := true, arguments := .unary .fheNot,
      returnType := .euint }]

/-! ## Types -/

/-- The plaintext types of Solidity. -/
inductive ClearType
  | bool
  | uint (bits : Nat)
  | address
deriving DecidableEq, Repr

def ClearType.bits : ClearType → Nat
  | .bool => 1
  | .uint bits => bits
  | .address => 160

/-- The name of a type, or of an alias that has operators. The encrypted type of the library has
the same name behind an `e`. -/
inductive TypeName
  | fhe (type : FheType)
  | address
deriving DecidableEq, Repr

/-- `type.startsWith('Uint')` -/
def TypeName.isUint : TypeName → Bool
  | .address | .fhe .bool | .fhe .asciiString => false
  | .fhe .int2 | .fhe .int4 | .fhe .int6 | .fhe .int8 | .fhe .int10 | .fhe .int12 | .fhe .int14
  | .fhe .int16 | .fhe .int24 | .fhe .int32 | .fhe .int40 | .fhe .int48 | .fhe .int56 | .fhe .int64
  | .fhe .int72 | .fhe .int80 | .fhe .int88 | .fhe .int96 | .fhe .int104 | .fhe .int112
  | .fhe .int120 | .fhe .int128 | .fhe .int136 | .fhe .int144 | .fhe .int152 | .fhe .int160
  | .fhe .int168 | .fhe .int176 | .fhe .int184 | .fhe .int192 | .fhe .int200 | .fhe .int208
  | .fhe .int216 | .fhe .int224 | .fhe .int232 | .fhe .int240 | .fhe .int248 | .fhe .int256
  | .fhe .int512 | .fhe .int1024 | .fhe .int2048 => false
  | .fhe _ => true

structure AliasFheType where
  type : TypeName
  supportedOperators : List OperatorName
  clearMatchingType : ClearType
deriving DecidableEq, Repr

structure FheTypeInfo where
  type : FheType
  supportedOperators : List OperatorName
  bitLength : Nat
  clearMatchingType : ClearType
  aliases : List AliasFheType := []
deriving DecidableEq, Repr

/-- The operators of the types from `Uint8` to `Uint128`. -/
def uintOperators : List OperatorName :=
  [.add, .sub, .mul, .div, .rem, .and, .or, .xor, .shl, .shr, .rotl, .rotr, .eq, .ne, .ge, .gt, .le,
    .lt, .min, .max, .neg, .not, .select]

/-- The types with operators or with an alias that has some. Nothing is generated for the others.
The operators without operands (`rand`, `randBounded`) are left out. -/
def ALL_FHE_TYPE_INFOS : List FheTypeInfo :=
  [{ type := .bool, supportedOperators := [.and, .or, .xor, .eq, .ne, .not, .select], bitLength := 2,
      clearMatchingType := .bool },
    { type := .uint8, supportedOperators := uintOperators, bitLength := 8,
      clearMatchingType := .uint 8 },
    { type := .uint16, supportedOperators := uintOperators, bitLength := 16,
      clearMatchingType := .uint 16 },
    { type := .uint32, supportedOperators := uintOperators, bitLength := 32,
      clearMatchingType := .uint 32 },
    { type := .uint64, supportedOperators := uintOperators, bitLength := 64,
      clearMatchingType := .uint 64 },
    { type := .uint128, supportedOperators := uintOperators, bitLength := 128,
      clearMatchingType := .uint 128 },
    { type := .uint160, supportedOperators := [], bitLength := 160, clearMatchingType := .uint 160,
      aliases :=
        [{ type := .address, supportedOperators := [.eq, .ne, .select],
           clearMatchingType := .address }] },
    { type := .uint256,
      supportedOperators := [.and, .or, .xor, .shl, .shr, .rotl, .rotr, .eq, .ne, .neg, .not,
        .select],
      bitLength := 256, clearMatchingType := .uint 256 }]

structure AdjustedFheType where
  type : TypeName
  bitLength : Nat
  supportedOperators : List OperatorName
  clearMatchingType : ClearType
  aliasType : Option FheType := none
deriving DecidableEq, Repr

/-- The types and then the aliases that have operators. -/
def generateAdjustedFheTypeArray (fheTypes : List FheTypeInfo) : List AdjustedFheType :=
  fheTypes.flatMap fun fheType =>
    let type : List AdjustedFheType :=
      if 0 < fheType.supportedOperators.length then
        [{ type := .fhe fheType.type, bitLength := fheType.bitLength,
           supportedOperators := fheType.supportedOperators,
           clearMatchingType := fheType.clearMatchingType }]
      else []
    let aliases := fheType.aliases.flatMap fun aliasType =>
      if 0 < aliasType.supportedOperators.length then
        [({ type := aliasType.type, bitLength := fheType.bitLength,
            supportedOperators := aliasType.supportedOperators,
            clearMatchingType := aliasType.clearMatchingType, aliasType := some fheType.type } :
            AdjustedFheType)]
      else []
    type ++ aliases

def adjustedFheTypes : List AdjustedFheType := generateAdjustedFheTypeArray ALL_FHE_TYPE_INFOS

/-- The type of the executor for a type name. An alias is of the type it is an alias of. -/
def TypeName.fheType : TypeName → FheType
  | .fhe type => type
  | .address => .uint160

def TypeName.bits (type : TypeName) : Nat := type.fheType.numBits

/-! ## What the tables guarantee -/

theorem fheType_of_alias : ∀ T ∈ adjustedFheTypes, ∀ aliasType ∈ T.aliasType,
    T.type.fheType = aliasType := by decide

end Fhevm.LibrarySolidity
