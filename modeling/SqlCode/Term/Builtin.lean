import SqlCode.TimeUnit

/-!
# Built-in operators

The operators that terms are built from, with their SQL names.
-/

namespace SqlCode

inductive Builtin
  | row | upper | lower | initCap | toBase64 | fromBase64 | md5 | sha1 | substring | left | right
  | replace | translate3 | chr | characterLength | charLength | concat | concatFunction | concat2
  | overlay | position | ascii | repetition | space | strcmp | soundex | difference | reverse | trim
  | and | or | not | lessThan | lessThanOrEqual | greaterThan | greaterThanOrEqual | equals
  | notEquals | plus | minus | multiply | divide | divideInteger | unaryMinus | unaryPlus | mod
  | exp | power | ln | log10 | abs | rand | randInteger | acos | asin | atan | atan2 | cbrt | cos
  | cosh | cot | degrees | radians | round | sign | sin | sinh | tan | tanh | truncate | pi
  | datetimePlus | minusDate | extract | floor | ceil | lastDay | dayName | monthName
  | timestampSeconds | timestampMillis | timestampMicros | unixSeconds | unixMillis | unixMicros
  | dateFromUnixDate | unixDate | isNull | isNotNull | isTrue | isNotTrue | isFalse | isNotFalse
  | like | notLike | similarTo | notSimilarTo | posixRegexCaseInsensitive | posixRegexCaseSensitive
  | negatedPosixRegexCaseInsensitive | negatedPosixRegexCaseSensitive | regexpReplace | cardinality
  | slice | element | structAccess | memberOf | isEmpty | isNotEmpty | isASet | isNotASet
  | multisetIntersectDistinct | multisetIntersect | multisetExceptDistinct | multisetExcept
  | multisetUnionDistinct | multisetUnion | submultisetOf | notSubmultisetOf | coalesce | cast
  | reinterpret | mapValueConstructor | arrayValueConstructor | item | default | currentValue
  | nextValue | compress | extractValue | xmlTransform | extractXml | existsNode
  | jsonValueExpression | jsonExists | jsonValue | jsonQuery | jsonType | jsonDepth | jsonKeys
  | jsonPretty | jsonLength | jsonRemove | jsonStorageSize | jsonObject | jsonArray | isJsonValue
  | isJsonObject | isJsonArray | isJsonScalar | isNotJsonValue | isNotJsonObject | isNotJsonArray
  | isNotJsonScalar | user | currentUser | sessionUser | systemUser | currentPath | currentRole
  | currentCatalog | currentTime | currentTimestamp | currentDate | localTime | localTimestamp
deriving DecidableEq, Repr

def Builtin.all : List Builtin := (List.range (localTimestamp.ctorIdx + 1)).map ofNat

/-- The name in capitals, with a line between words. -/
def Builtin.sqlName (b : Builtin) : String :=
  let capitals (c : Char) : List Char := if c.isUpper then ['_', c] else [c.toUpper]
  if b = .repetition then "REPEAT" else String.ofList ((constructorName b).toList.flatMap capitals)

instance : Labeled Builtin := ⟨Builtin.all, Builtin.sqlName⟩

end SqlCode
