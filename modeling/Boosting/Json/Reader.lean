/- Reading JSON text.
   A strict reader: one value with nothing but blanks around it. Text is refused for any
   departure from the grammar, for unescaped control characters, for escapes that are half a
   surrogate pair, for numbers that overflow, and for arrays and objects nested too deep. -/

import Boosting.Json.Value

set_option autoImplicit false
set_option relaxedAutoImplicit false

namespace Boosting

namespace Json

/-- Arrays and objects are read to a depth below this. -/
def depthLimit : Nat := 128

def isBlank (c : Char) : Bool :=
  c == ' ' || c == '\n' || c == '\r' || c == '\t'

def skipBlanks (text : List Char) : List Char :=
  text.dropWhile isBlank

def skip? : List Char → List Char → Option (List Char)
  | [], text => some text
  | _ :: _, [] => none
  | c :: start, d :: text => if c = d then skip? start text else none

def digit? (c : Char) : Option Nat :=
  if '0' ≤ c && c ≤ '9' then some (c.toNat - '0'.toNat) else none

def digits : List Char → List Nat × List Char
  | [] => ([], [])
  | c :: text =>
    match digit? c with
    | none => ([], c :: text)
    | some d =>
      let (ds, rest) := digits text
      (d :: ds, rest)

def ofDigits (ds : List Nat) : Nat :=
  ds.foldl (fun n d => 10 * n + d) 0

def someDigits? (text : List Char) : Option (List Nat × List Char) :=
  match digits text with
  | ([], _) => none
  | found => some found

/-- The digits of an integer part, which has no leading zero. -/
def integerPart? (text : List Char) : Option (List Nat × List Char) :=
  match someDigits? text with
  | some (0 :: _ :: _, _) => none
  | found => found

def fractionPart? : List Char → Option (Option (List Nat) × List Char)
  | '.' :: text => (someDigits? text).map fun (ds, rest) => (some ds, rest)
  | text => some (none, text)

def exponentPart? : List Char → Option (Option Int × List Char)
  | [] => some (none, [])
  | c :: text =>
    if c = 'e' || c = 'E' then
      let (negated, unsigned) :=
        match text with
        | '-' :: rest => (true, rest)
        | '+' :: rest => (false, rest)
        | rest => (false, rest)
      (someDigits? unsigned).map fun (ds, rest) =>
        (some (if negated then -(ofDigits ds : Int) else (ofDigits ds : Int)), rest)
    else
      some (none, c :: text)

def numberOfParts (negated : Bool) (whole : List Nat) (fraction : Option (List Nat))
    (exponent : Option Int) : Number :=
  match fraction, exponent with
  | none, none => .ofInteger negated (ofDigits whole)
  | _, _ =>
    let after := fraction.getD []
    .real (.ofDecimal negated ⟨ofDigits (whole ++ after), exponent.getD 0 - after.length⟩)

def number? (text : List Char) : Option (Number × List Char) := do
  let (negated, unsigned) :=
    match text with
    | '-' :: rest => (true, rest)
    | rest => (false, rest)
  let (whole, rest) ← integerPart? unsigned
  let (fraction, rest) ← fractionPart? rest
  let (exponent, rest) ← exponentPart? rest
  let n := numberOfParts negated whole fraction exponent
  if n.isFinite then some (n, rest) else none

def hexDigit? (c : Char) : Option Nat :=
  if '0' ≤ c && c ≤ '9' then some (c.toNat - '0'.toNat)
  else if 'a' ≤ c && c ≤ 'f' then some (c.toNat - 'a'.toNat + 10)
  else if 'A' ≤ c && c ≤ 'F' then some (c.toNat - 'A'.toNat + 10)
  else none

def codeUnit? : List Char → Option (Nat × List Char)
  | a :: b :: c :: d :: text => do
    let unit := 4096 * (← hexDigit? a) + 256 * (← hexDigit? b) + 16 * (← hexDigit? c) +
      (← hexDigit? d)
    some (unit, text)
  | _ => none

def isLeading (unit : Nat) : Bool :=
  0xD800 ≤ unit && unit < 0xDC00

def isTrailing (unit : Nat) : Bool :=
  0xDC00 ≤ unit && unit < 0xE000

/-- The character of a numeric escape whose mark has been read; a first half needs the second one in
an escape right after it. -/
def numericEscape? (text : List Char) : Option (Char × List Char) := do
  let (unit, rest) ← codeUnit? text
  if isLeading unit then
    let after ← skip? ['\\', 'u'] rest
    let (second, rest) ← codeUnit? after
    if isTrailing second then
      some (Char.ofNat (0x10000 + (unit - 0xD800) * 0x400 + (second - 0xDC00)), rest)
    else
      none
  else if isTrailing unit then
    none
  else
    some (Char.ofNat unit, rest)

def shortEscape? : Char → Option Char
  | '"' => some '"'
  | '\\' => some '\\'
  | '/' => some '/'
  | 'b' => some '\x08'
  | 'f' => some '\x0c'
  | 'n' => some '\n'
  | 'r' => some '\r'
  | 't' => some '\t'
  | _ => none

def stringStep? : List Char → Option (Option Char × List Char)
  | [] => none
  | '"' :: text => some (none, text)
  | '\\' :: 'u' :: text => (numericEscape? text).map fun (c, rest) => (some c, rest)
  | '\\' :: c :: text => (shortEscape? c).map fun e => (some e, text)
  | c :: text => if c.toNat < 0x20 then none else some (some c, text)

/-- The characters of a string up to its closing quote, in at most `fuel` steps. -/
def stringBody? : Nat → List Char → Option (List Char × List Char)
  | 0, _ => none
  | fuel + 1, text =>
    match stringStep? text with
    | none => none
    | some (none, rest) => some ([], rest)
    | some (some c, rest) => (stringBody? fuel rest).map fun (cs, last) => (c :: cs, last)

def string? (text : List Char) : Option (String × List Char) :=
  (stringBody? (text.length + 1) text).map fun (cs, rest) => (String.ofList cs, rest)

def key? (text : List Char) : Option (String × List Char) :=
  match skipBlanks text with
  | '"' :: body => do
    let (key, rest) ← string? body
    let rest ← skip? [':'] (skipBlanks rest)
    some (key, rest)
  | _ => none

mutual

/-- A value after leading blanks, where arrays and objects may nest to a depth below `depth`. -/
def value? : Nat → Nat → List Char → Option (Value × List Char)
  | 0, _, _ => none
  | fuel + 1, depth, text =>
    match skipBlanks text with
    | [] => none
    | 'n' :: rest => (skip? ['u', 'l', 'l'] rest).map fun rest => (.null, rest)
    | 't' :: rest => (skip? ['r', 'u', 'e'] rest).map fun rest => (.boolean true, rest)
    | 'f' :: rest => (skip? ['a', 'l', 's', 'e'] rest).map fun rest => (.boolean false, rest)
    | '"' :: rest => (string? rest).map fun (s, rest) => (.string s, rest)
    | '[' :: rest =>
      if depth ≤ 1 then
        none
      else
        match skipBlanks rest with
        | ']' :: rest => some (.array [], rest)
        | rest => (items? fuel (depth - 1) rest).map fun (items, rest) => (.array items, rest)
    | '\x7b' :: rest =>
      if depth ≤ 1 then
        none
      else
        match skipBlanks rest with
        | '\x7d' :: rest => some (.object [], rest)
        | rest => (members? fuel (depth - 1) rest).map fun (members, rest) =>
          (.object members, rest)
    | text => (number? text).map fun (n, rest) => (.number n, rest)

def items? : Nat → Nat → List Char → Option (List Value × List Char)
  | 0, _, _ => none
  | fuel + 1, depth, text =>
    match value? fuel depth text with
    | none => none
    | some (item, rest) =>
      match skipBlanks rest with
      | ',' :: rest => (items? fuel depth rest).map fun (items, rest) => (item :: items, rest)
      | ']' :: rest => some ([item], rest)
      | _ => none

def members? : Nat → Nat → List Char → Option (List (String × Value) × List Char)
  | 0, _, _ => none
  | fuel + 1, depth, text =>
    match key? text with
    | none => none
    | some (key, rest) =>
      match value? fuel depth rest with
      | none => none
      | some (member, rest) =>
        match skipBlanks rest with
        | ',' :: rest =>
          (members? fuel depth rest).map fun (members, rest) => ((key, member) :: members, rest)
        | '\x7d' :: rest => some ([(key, member)], rest)
        | _ => none

end

/-- The value of a whole text. Every level of the grammar is entered at most twice for each
character, which bounds the fuel. -/
def read? (text : String) : Option Value :=
  let chars := text.toList
  match value? (2 * chars.length + 2) depthLimit chars with
  | some (value, rest) => if (skipBlanks rest).isEmpty then some value else none
  | none => none

end Json

end Boosting
