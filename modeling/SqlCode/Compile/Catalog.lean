import SqlCode.Fault
import SqlCode.Term.Operator

/-!
# The catalog

The lowering of every built-in operator, and the lowering of the operator of a call.
-/

namespace SqlCode

namespace Builtin

/-- A routine that null operands decide. -/
def strict (routine : String) : Lowering := .routine routine .strict false

/-- A routine that a null first operand decides. -/
def onFirst (routine : String) : Lowering := .routine routine .arg0 false

/-- A routine that sees null operands. -/
def onNulls (routine : String) : Lowering := .routine routine .none false

/-- An operator on operands of a common type, with its backup routine. -/
def operator (op : BinaryOp) (backup : String) : Lowering := .binary op .strict true (some backup)

/-- How the calls of a built-in operator become code. -/
def lowering : Builtin → Lowering
  | .row => onNulls "array"
  | .upper => strict "upper"
  | .lower => strict "lower"
  | .initCap => strict "initcap"
  | .toBase64 => strict "toBase64"
  | .fromBase64 => strict "fromBase64"
  | .md5 => strict "md5"
  | .sha1 => strict "sha1"
  | .substring => strict "substring"
  | .left => .routine "left" .any false
  | .right => .routine "right" .any false
  | .replace => strict "replace"
  | .translate3 => strict "translate3"
  | .chr => strict "chr"
  | .characterLength | .charLength => strict "charLength"
  | .concat => strict "concat"
  | .concatFunction => strict "concatMulti"
  | .concat2 => onNulls "concatWithNull"
  | .overlay => strict "overlay"
  | .position => strict "position"
  | .ascii => strict "ascii"
  | .repetition => strict "repeat"
  | .space => strict "space"
  | .strcmp => strict "strcmp"
  | .soundex => strict "soundex"
  | .difference => strict "difference"
  | .reverse => strict "reverse"
  | .trim => .trim
  | .and => .logicalAnd
  | .or => .logicalOr
  | .not => .logicalNot
  | .lessThan => operator .lessThan "lt"
  | .lessThanOrEqual => operator .lessThanOrEqual "le"
  | .greaterThan => operator .greaterThan "gt"
  | .greaterThanOrEqual => operator .greaterThanOrEqual "ge"
  | .equals => operator .equal "eq"
  | .notEquals => operator .notEqual "ne"
  | .plus => operator .add "plus"
  | .minus => operator .subtract "minus"
  | .multiply => operator .multiply "multiply"
  | .divide | .divideInteger => operator .divide "divide"
  | .unaryMinus => .unary .negate .strict
  | .unaryPlus => .unary .unaryPlus .strict
  | .mod => strict "mod"
  | .exp => strict "exp"
  | .power => strict "power"
  | .ln => strict "ln"
  | .log10 => strict "log10"
  | .abs => strict "abs"
  | .rand => .byArity "rand" .strict 0 ["rand", "randSeed"]
  | .randInteger => .byArity "rand_integer" .strict 1 ["randInteger", "randIntegerSeed"]
  | .acos => strict "acos"
  | .asin => strict "asin"
  | .atan => strict "atan"
  | .atan2 => strict "atan2"
  | .cbrt => strict "cbrt"
  | .cos => strict "cos"
  | .cosh => strict "cosh"
  | .cot => strict "cot"
  | .degrees => strict "degrees"
  | .radians => strict "radians"
  | .round => strict "round"
  | .sign => strict "sign"
  | .sin => strict "sin"
  | .sinh => strict "sinh"
  | .tan => strict "tan"
  | .tanh => strict "tanh"
  | .truncate => strict "truncate"
  | .pi => .pi
  | .datetimePlus | .minusDate => .datetime
  | .extract => .extract
  | .floor => .floor
  | .ceil => .ceil
  | .lastDay => .temporal "last_day" "lastDay" "lastDayTimestamp" false
  | .dayName => .temporal "day_name" "dayNameWithDate" "dayNameWithTimestamp" true
  | .monthName => .temporal "month_name" "monthNameWithDate" "monthNameWithTimestamp" true
  | .timestampSeconds => strict "timestampSeconds"
  | .timestampMillis => strict "timestampMillis"
  | .timestampMicros => strict "timestampMicros"
  | .unixSeconds => strict "unixSeconds"
  | .unixMillis => strict "unixMillis"
  | .unixMicros => strict "unixMicros"
  | .dateFromUnixDate => strict "dateFromUnixDate"
  | .unixDate => strict "unixDate"
  | .isNull => .predicate .isNull
  | .isNotNull => .predicate .isNotNull
  | .isTrue => .predicate .isTrue
  | .isNotTrue => .predicate .isNotTrue
  | .isFalse => .predicate .isFalse
  | .isNotFalse => .predicate .isNotFalse
  | .like => strict "like"
  | .notLike => .negation (strict "like")
  | .similarTo => strict "similar"
  | .notSimilarTo => .negation (strict "similar")
  | .posixRegexCaseInsensitive => strict "posixRegexCaseInsensitive"
  | .posixRegexCaseSensitive => strict "posixRegexCaseSensitive"
  | .negatedPosixRegexCaseInsensitive => .negation (strict "posixRegexCaseInsensitive")
  | .negatedPosixRegexCaseSensitive => .negation (strict "posixRegexCaseSensitive")
  | .regexpReplace => .byArity "regexp_replace" .strict 3 (List.replicate 4 "regexpReplace")
  | .cardinality => strict "cardinality"
  | .slice => strict "slice"
  | .element => strict "element"
  | .structAccess => .routine "structAccess" .any false
  | .memberOf => strict "memberOf"
  | .isEmpty => strict "isEmpty"
  | .isNotEmpty => .negation (strict "isEmpty")
  | .isASet => strict "isASet"
  | .isNotASet => .negation (strict "isASet")
  | .multisetIntersectDistinct => strict "multisetIntersectDistinct"
  | .multisetIntersect => strict "multisetIntersectAll"
  | .multisetExceptDistinct => strict "multisetExceptDistinct"
  | .multisetExcept => strict "multisetExceptAll"
  | .multisetUnionDistinct => strict "multisetUnionDistinct"
  | .multisetUnion => strict "multisetUnionAll"
  | .submultisetOf => strict "submultisetOf"
  | .notSubmultisetOf => .negation (strict "submultisetOf")
  | .coalesce => .coalesce
  | .cast => .cast
  | .reinterpret => .reinterpret
  | .mapValueConstructor | .arrayValueConstructor => .constructor
  | .item => .item
  | .default => .default
  | .currentValue => .sequence "sequenceCurrentValue"
  | .nextValue => .sequence "sequenceNextValue"
  | .compress => onFirst "compress"
  | .extractValue => onFirst "extractValue"
  | .xmlTransform => onFirst "xmlTransform"
  | .extractXml => onFirst "extractXml"
  | .existsNode => onFirst "existsNode"
  | .jsonValueExpression => strict "jsonValueExpression"
  | .jsonExists => onFirst "jsonExists"
  | .jsonValue => .jsonValue
  | .jsonQuery => onFirst "jsonQuery"
  | .jsonType => onFirst "jsonType"
  | .jsonDepth => onFirst "jsonDepth"
  | .jsonKeys => onFirst "jsonKeys"
  | .jsonPretty => onFirst "jsonPretty"
  | .jsonLength => onFirst "jsonLength"
  | .jsonRemove => onFirst "jsonRemove"
  | .jsonStorageSize => onFirst "jsonStorageSize"
  | .jsonObject => onNulls "jsonObject"
  | .jsonArray => onNulls "jsonArray"
  | .isJsonValue => onNulls "isJsonValue"
  | .isJsonObject => onNulls "isJsonObject"
  | .isJsonArray => onNulls "isJsonArray"
  | .isJsonScalar => onNulls "isJsonScalar"
  | .isNotJsonValue => .negation (onNulls "isJsonValue")
  | .isNotJsonObject => .negation (onNulls "isJsonObject")
  | .isNotJsonArray => .negation (onNulls "isJsonArray")
  | .isNotJsonScalar => .negation (onNulls "isJsonScalar")
  | .user | .currentUser | .sessionUser | .systemUser | .currentPath | .currentRole
  | .currentCatalog | .currentTime | .currentTimestamp | .currentDate | .localTime
  | .localTimestamp => .system

end Builtin

def UserFunction.lowering? (f : UserFunction) : Except CompileError Lowering :=
  match f.lowering with
  | some l => .ok l
  | none => .error (.configuration ("user-defined function " ++ f.name ++ " is not implementable"))

/-- How the calls of an operator become code; constructors make rows. -/
def Operator.lowering : Operator → Except CompileError Lowering
  | .builtin b => .ok b.lowering
  | .scalar f | .table f | .tableExpansion f => f.lowering?
  | .construct _ => .ok Builtin.row.lowering

end SqlCode
