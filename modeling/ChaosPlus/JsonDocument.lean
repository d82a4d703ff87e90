import Mathlib.Algebra.Ring.Nat
import Mathlib.Data.List.Basic

/-!
# JSON documents as the standard decoder reads them

Raw bytes are decoded to code points with one replacement character for each invalid
byte, then read by a recursive-descent parser. Numbers keep their text and nesting
deeper than 10000 is refused. A parsed object lists its members as written; decoding to
a generic value keeps the last value of a repeated key. Decoding into a map also reads
every number as a double. Nothing here is about a particular schema.
-/
namespace JsonDocument

/-- A document; the entries of a parsed object stand in the order of the text. -/
inductive Json where
  | null
  | bool (value : Bool)
  | number (text : String)
  | string (text : String)
  | array (items : List Json)
  | object (entries : List (String × Json))

def replacement : Char := Char.ofNat 0xFFFD

def continuation (b : UInt8) : Bool := 0x80 ≤ b && b ≤ 0xBF

/-- The rune at the head of the bytes and its width; an invalid head byte has width one. -/
def decodeRune : List UInt8 → Char × Nat
  | [] => (replacement, 0)
  | b0 :: rest =>
    if b0 < 0x80 then (Char.ofNat b0.toNat, 1)
    else if 0xC2 ≤ b0 && b0 ≤ 0xDF then
      match rest with
      | b1 :: _ =>
        if continuation b1 then
          (Char.ofNat ((b0.toNat - 0xC0) * 64 + (b1.toNat - 0x80)), 2)
        else (replacement, 1)
      | [] => (replacement, 1)
    else if 0xE0 ≤ b0 && b0 ≤ 0xEF then
      match rest with
      | b1 :: b2 :: _ =>
        let low : UInt8 := if b0 = 0xE0 then 0xA0 else 0x80
        let high : UInt8 := if b0 = 0xED then 0x9F else 0xBF
        if low ≤ b1 && b1 ≤ high && continuation b2 then
          (Char.ofNat ((b0.toNat - 0xE0) * 4096 + (b1.toNat - 0x80) * 64 + (b2.toNat - 0x80)), 3)
        else (replacement, 1)
      | _ => (replacement, 1)
    else if 0xF0 ≤ b0 && b0 ≤ 0xF4 then
      match rest with
      | b1 :: b2 :: b3 :: _ =>
        let low : UInt8 := if b0 = 0xF0 then 0x90 else 0x80
        let high : UInt8 := if b0 = 0xF4 then 0x8F else 0xBF
        if low ≤ b1 && b1 ≤ high && continuation b2 && continuation b3 then
          (Char.ofNat ((b0.toNat - 0xF0) * 262144 + (b1.toNat - 0x80) * 4096 +
            (b2.toNat - 0x80) * 64 + (b3.toNat - 0x80)), 4)
        else (replacement, 1)
      | _ => (replacement, 1)
    else (replacement, 1)

def decodeRunes : Nat → List UInt8 → List Char
  | 0, _ => []
  | _ + 1, [] => []
  | fuel + 1, bytes =>
    let (rune, width) := decodeRune bytes
    rune :: decodeRunes fuel (bytes.drop width)

def decodeUtf8 (bytes : List UInt8) : List Char := decodeRunes bytes.length bytes

def isSpace (c : Char) : Bool := c = ' ' || c = '\t' || c = '\n' || c = '\r'

def skipSpace (cs : List Char) : List Char := cs.dropWhile isSpace

def hexDigit (c : Char) : Option Nat :=
  if '0' ≤ c && c ≤ '9' then some (c.toNat - 48)
  else if 'a' ≤ c && c ≤ 'f' then some (c.toNat - 87)
  else if 'A' ≤ c && c ≤ 'F' then some (c.toNat - 55)
  else none

/-- The code unit of an escape `\uXXXX` standing at the head. -/
def unicodeEscape : List Char → Option Nat
  | '\\' :: 'u' :: a :: b :: c :: d :: _ => do
    let a ← hexDigit a
    let b ← hexDigit b
    let c ← hexDigit c
    let d ← hexDigit d
    return ((a * 16 + b) * 16 + c) * 16 + d
  | _ => none

def isSurrogate (unit : Nat) : Bool := 0xD800 ≤ unit && unit ≤ 0xDFFF

/-- The code point of a surrogate pair; an ill-formed pair has none. -/
def decodeSurrogates (high low : Nat) : Option Char :=
  if 0xD800 ≤ high && high ≤ 0xDBFF && 0xDC00 ≤ low && low ≤ 0xDFFF then
    some (Char.ofNat (0x10000 + (high - 0xD800) * 1024 + (low - 0xDC00)))
  else none

def simpleEscape : Char → Option Char
  | '"' => some '"'
  | '\\' => some '\\'
  | '/' => some '/'
  | 'b' => some (Char.ofNat 8)
  | 'f' => some (Char.ofNat 12)
  | 'n' => some '\n'
  | 'r' => some '\r'
  | 't' => some '\t'
  | _ => none

/-- Reads a string body up to its closing quote. -/
def readString : Nat → List Char → List Char → Option (String × List Char)
  | 0, _, _ => none
  | _ + 1, _, [] => none
  | fuel + 1, acc, c :: rest =>
    if c = '"' then some (String.ofList acc.reverse, rest)
    else if c.toNat < 32 then none
    else if c = '\\' then
      match rest with
      | [] => none
      | e :: tail =>
        if e = 'u' then do
          let unit ← unicodeEscape (c :: rest)
          let after := tail.drop 4
          if isSurrogate unit then
            match (unicodeEscape after).bind (decodeSurrogates unit) with
            | some rune => readString fuel (rune :: acc) (after.drop 6)
            | none => readString fuel (replacement :: acc) after
          else readString fuel (Char.ofNat unit :: acc) after
        else do
          let rune ← simpleEscape e
          readString fuel (rune :: acc) tail
    else readString fuel (c :: acc) rest

def takeDigits (cs : List Char) : List Char × List Char :=
  cs.span Char.isDigit

def readIntegerPart (cs : List Char) : Option (List Char × List Char) :=
  match cs with
  | '0' :: rest => some (['0'], rest)
  | _ =>
    let (digits, rest) := takeDigits cs
    if digits.isEmpty then none else some (digits, rest)

def readFraction (cs : List Char) : Option (List Char × List Char) :=
  match cs with
  | '.' :: rest =>
    let (digits, rest) := takeDigits rest
    if digits.isEmpty then none else some ('.' :: digits, rest)
  | _ => some ([], cs)

def readExponent (cs : List Char) : Option (List Char × List Char) :=
  match cs with
  | e :: rest =>
    if e = 'e' || e = 'E' then
      let (sign, rest) : List Char × List Char := match rest with
        | '+' :: tail => (['+'], tail)
        | '-' :: tail => (['-'], tail)
        | _ => ([], rest)
      let (digits, rest) := takeDigits rest
      if digits.isEmpty then none else some (e :: sign ++ digits, rest)
    else some ([], cs)
  | [] => some ([], cs)

/-- Reads a number literal and keeps its text. -/
def readNumber (cs : List Char) : Option (String × List Char) := do
  let (sign, cs) : List Char × List Char := match cs with
    | '-' :: rest => (['-'], rest)
    | _ => ([], cs)
  let (whole, cs) ← readIntegerPart cs
  let (fraction, cs) ← readFraction cs
  let (exponent, cs) ← readExponent cs
  return (String.ofList (sign ++ whole ++ fraction ++ exponent), cs)

def maxNestingDepth : Nat := 10000

mutual
def readValue : Nat → Nat → List Char → Option (Json × List Char)
  | 0, _, _ => none
  | fuel + 1, depth, cs =>
    match skipSpace cs with
    | 'n' :: 'u' :: 'l' :: 'l' :: rest => some (.null, rest)
    | 't' :: 'r' :: 'u' :: 'e' :: rest => some (.bool true, rest)
    | 'f' :: 'a' :: 'l' :: 's' :: 'e' :: rest => some (.bool false, rest)
    | '"' :: rest => do
      let (text, rest) ← readString (rest.length + 1) [] rest
      return (.string text, rest)
    | '[' :: rest =>
      if depth ≥ maxNestingDepth then none
      else match skipSpace rest with
        | ']' :: rest => some (.array [], rest)
        | rest => do
          let (items, rest) ← readItems fuel (depth + 1) rest
          return (.array items, rest)
    | '{' :: rest =>
      if depth ≥ maxNestingDepth then none
      else match skipSpace rest with
        | '}' :: rest => some (.object [], rest)
        | rest => readEntries fuel (depth + 1) [] rest
    | rest => do
      let (text, rest) ← readNumber rest
      return (.number text, rest)

def readItems : Nat → Nat → List Char → Option (List Json × List Char)
  | 0, _, _ => none
  | fuel + 1, depth, cs => do
    let (item, cs) ← readValue fuel depth cs
    match skipSpace cs with
    | ',' :: rest => do
      let (items, rest) ← readItems fuel depth rest
      return (item :: items, rest)
    | ']' :: rest => return ([item], rest)
    | _ => none

def readEntries :
    Nat → Nat → List (String × Json) → List Char → Option (Json × List Char)
  | 0, _, _, _ => none
  | fuel + 1, depth, entries, cs =>
    match skipSpace cs with
    | '"' :: rest => do
      let (key, rest) ← readString (rest.length + 1) [] rest
      match skipSpace rest with
      | ':' :: rest => do
        let (value, rest) ← readValue fuel depth rest
        let entries := entries ++ [(key, value)]
        match skipSpace rest with
        | ',' :: rest => readEntries fuel depth entries rest
        | '}' :: rest => return (.object entries, rest)
        | _ => none
      | _ => none
    | _ => none
end

/-- Map assignment: an existing key keeps its place and takes the new value. -/
def assign (key : String) (value : Json) : List (String × Json) → List (String × Json)
  | [] => [(key, value)]
  | (k, v) :: rest => if k = key then (k, value) :: rest else (k, v) :: assign key value rest

mutual
/-- The generic value: every object becomes a map. -/
def normalize : Json → Json
  | .array items => .array (normalizeItems items)
  | .object entries => .object (normalizeEntries [] entries)
  | value => value

def normalizeItems : List Json → List Json
  | [] => []
  | item :: rest => normalize item :: normalizeItems rest

def normalizeEntries :
    List (String × Json) → List (String × Json) → List (String × Json)
  | done, [] => done
  | done, (key, value) :: rest => normalizeEntries (assign key (normalize value) done) rest
end

/-- One document with nothing but white space after it. -/
def parseText (cs : List Char) : Option Json := do
  let (value, rest) ← readValue (2 * cs.length + 2) 0 cs
  if (skipSpace rest).isEmpty then some value else none

def decodeText (cs : List Char) : Option Json := (parseText cs).map normalize

def digitsValue (digits : List Char) : Nat :=
  digits.foldl (fun value c => value * 10 + (c.toNat - 48)) 0

/-- Further digits of an exponent are ignored once it has five. -/
def exponentValue (digits : List Char) : Nat :=
  digits.foldl (fun value c => if value < 10000 then value * 10 + (c.toNat - 48) else value) 0

/-- The least magnitude that rounds past the largest double precision number. -/
def float64Overflow : Nat := 2 ^ 1024 - 2 ^ 970

/-- The literal reads as a double precision number without overflow. -/
def fitsFloat64 (text : String) : Bool :=
  let (mantissa, exponent) := text.toList.span fun c => c ≠ 'e' && c ≠ 'E'
  let (whole, fraction) := mantissa.span fun c => c ≠ '.'
  let value := digitsValue ((whole ++ fraction).filter Char.isDigit)
  let scale := (fraction.filter Char.isDigit).length
  match exponent.drop 1 with
  | '-' :: digits => value < float64Overflow * 10 ^ (scale + exponentValue digits)
  | digits => value * 10 ^ exponentValue (digits.filter Char.isDigit) < float64Overflow * 10 ^ scale

mutual
def numbersFit : Json → Bool
  | .number text => fitsFloat64 text
  | .array items => itemNumbersFit items
  | .object entries => entryNumbersFit entries
  | _ => true

def itemNumbersFit : List Json → Bool
  | [] => true
  | item :: rest => numbersFit item && itemNumbersFit rest

def entryNumbersFit : List (String × Json) → Bool
  | [] => true
  | (_, value) :: rest => numbersFit value && entryNumbersFit rest
end

/-- Decoding into a map of generic values; `null` gives the empty map. -/
def decodeMap (bytes : List UInt8) : Option (List (String × Json)) :=
  match parseText (decodeUtf8 bytes) with
  | some value =>
    match normalize value with
    | .object entries => if numbersFit value then some entries else none
    | .null => some []
    | _ => none
  | none => none

def encodeUtf8 (text : String) : List UInt8 := text.toList.flatMap String.utf8EncodeChar

def lookup (entries : List (String × Json)) (key : String) : Option Json :=
  entries.lookup key

end JsonDocument
