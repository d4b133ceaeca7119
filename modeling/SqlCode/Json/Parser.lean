import SqlCode.Json.Number

/-!
# Reading JSON text

A document is one value with white space around it. Names and strings have no raw control
characters, surrogate escapes come in pairs, and containers nest at most `nestingLimit` deep.
-/

namespace SqlCode

namespace Json

/-- How deep containers may nest. -/
def nestingLimit : Nat := 127

/-- White space between tokens. -/
def isBlank (c : Char) : Bool := c == ' ' || c == '\n' || c == '\t' || c == '\r'

def skipBlanks (cs : List Char) : List Char := cs.dropWhile isBlank

/-- The code unit of four hexadecimal digits. -/
def codeUnit? : List Char → Option (Nat × List Char)
  | a :: b :: c :: d :: cs => (Numeral.hexNat? [a, b, c, d]).map fun n => (n, cs)
  | _ => none

/-- The character of an escape, after its backslash. -/
def escape? : List Char → Option (Char × List Char)
  | '"' :: cs => some ('"', cs)
  | '\\' :: cs => some ('\\', cs)
  | '/' :: cs => some ('/', cs)
  | 'b' :: cs => some (Char.ofNat 8, cs)
  | 'f' :: cs => some (Char.ofNat 12, cs)
  | 'n' :: cs => some ('\n', cs)
  | 'r' :: cs => some ('\r', cs)
  | 't' :: cs => some ('\t', cs)
  | 'u' :: cs => do
    let (n, cs) ← codeUnit? cs
    if 0xdc00 ≤ n ∧ n ≤ 0xdfff then none
    else if 0xd800 ≤ n ∧ n ≤ 0xdbff then
      match cs with
      | '\\' :: 'u' :: cs =>
        let (m, cs) ← codeUnit? cs
        if 0xdc00 ≤ m ∧ m ≤ 0xdfff then
          some (Char.ofNat (0x10000 + (n - 0xd800) * 1024 + (m - 0xdc00)), cs)
        else none
      | _ => none
    else some (Char.ofNat n, cs)
  | _ => none

/-- The characters of a string up to its closing quote; `seen` holds those before, reversed. -/
def string? (fuel : Nat) (seen : List Char) (cs : List Char) : Option (String × List Char) :=
  match fuel with
  | 0 => none
  | fuel + 1 =>
    match cs with
    | [] => none
    | '"' :: cs => some (String.ofList seen.reverse, cs)
    | '\\' :: cs => do
      let (c, cs) ← escape? cs
      string? fuel (c :: seen) cs
    | c :: cs => if c.toNat < 32 then none else string? fuel (c :: seen) cs

mutual

/-- Reads a value; `depth` containers may still be opened, and `fuel` bounds the work. -/
def value? (fuel depth : Nat) (cs : List Char) : Option (Json × List Char) :=
  match fuel with
  | 0 => none
  | fuel + 1 =>
    match skipBlanks cs with
    | 'n' :: 'u' :: 'l' :: 'l' :: cs => some (.null, cs)
    | 't' :: 'r' :: 'u' :: 'e' :: cs => some (.bool true, cs)
    | 'f' :: 'a' :: 'l' :: 's' :: 'e' :: cs => some (.bool false, cs)
    | '"' :: cs => (string? (cs.length + 1) [] cs).map fun r => (.str r.1, r.2)
    | '[' :: cs =>
      match depth with
      | 0 => none
      | depth + 1 =>
        match skipBlanks cs with
        | ']' :: cs => some (.arr [], cs)
        | cs => elements? fuel depth [] cs
    | '\x7b' :: cs =>
      match depth with
      | 0 => none
      | depth + 1 =>
        match skipBlanks cs with
        | '\x7d' :: cs => some (.obj [], cs)
        | cs => members? fuel depth [] cs
    | cs => number? cs
termination_by structural fuel

/-- Reads the elements of an array that has not ended; `seen` holds those before, reversed. -/
def elements? (fuel depth : Nat) (seen : List Json) (cs : List Char) :
    Option (Json × List Char) :=
  match fuel with
  | 0 => none
  | fuel + 1 => do
    let (j, cs) ← value? fuel depth cs
    match skipBlanks cs with
    | ',' :: cs => elements? fuel depth (j :: seen) cs
    | ']' :: cs => some (.arr (j :: seen).reverse, cs)
    | _ => none
termination_by structural fuel

/-- Reads the members of an object that has not ended. -/
def members? (fuel depth : Nat) (seen : List (String × Json)) (cs : List Char) :
    Option (Json × List Char) :=
  match fuel with
  | 0 => none
  | fuel + 1 =>
    match skipBlanks cs with
    | '"' :: cs => do
      let (name, cs) ← string? (cs.length + 1) [] cs
      match skipBlanks cs with
      | ':' :: cs =>
        let (j, cs) ← value? fuel depth cs
        let seen := insert seen name j
        match skipBlanks cs with
        | ',' :: cs => members? fuel depth seen cs
        | '\x7d' :: cs => some (.obj seen, cs)
        | _ => none
      | _ => none
    | _ => none
termination_by structural fuel

end

def parse? (s : String) : Option Json := do
  let cs := s.toList
  let (j, rest) ← value? (2 * cs.length + 2) nestingLimit cs
  if skipBlanks rest = [] then some j else none

end Json

end SqlCode
