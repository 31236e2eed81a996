/-!
# JSON tokens

The lexical level of JSON. A string stays a list of `StringPart`s: escapes are recognised, but code
units outside the Basic Multilingual Plane are paired only when the text of the string is asked for, so a
string whose text nobody reads may hold an unpaired surrogate.

## Contents

* `StringPart`, `StringPart.text?`: the text of a string, if its surrogates pair up.
* `Number`: what a number literal looks like.
* `Token`, `Token.ofText?`: the tokens of a text.
-/

namespace Vr4300.Json

/-- A piece of a string literal. -/
inductive StringPart where
  /-- A character, as itself or as a short escape. -/
  | char (c : Char)
  /-- A UTF-16 code unit, written as four hexadecimal digits. -/
  | unit (n : Nat)
deriving DecidableEq, Repr, Inhabited

namespace StringPart

/-- The code unit is the first of a pair. -/
def isHighSurrogate (n : Nat) : Bool := 0xD800 ≤ n && n < 0xDC00

/-- The code unit is the second of a pair. -/
def isLowSurrogate (n : Nat) : Bool := 0xDC00 ≤ n && n < 0xE000

/-- The characters of a string; `none` if a surrogate is not part of a pair. -/
def chars? : List StringPart → Option (List Char)
  | [] => some []
  | char c :: rest => (chars? rest).map (c :: ·)
  | unit high :: unit low :: rest =>
    if isHighSurrogate high then
      if isLowSurrogate low then
        (chars? rest).map (Char.ofNat (0x10000 + (high - 0xD800) * 0x400 + (low - 0xDC00)) :: ·)
      else none
    else if isLowSurrogate high then none
    else (chars? (unit low :: rest)).map (Char.ofNat high :: ·)
  | unit n :: rest =>
    if isHighSurrogate n || isLowSurrogate n then none
    else (chars? rest).map (Char.ofNat n :: ·)

/-- The text of a string; `none` if a surrogate is not part of a pair. -/
def text? (parts : List StringPart) : Option String :=
  (chars? parts).map String.ofList

end StringPart

/-- A number literal. -/
structure Number where
  /-- A minus sign stands in front. -/
  negative : Bool
  /-- The digits before a point or exponent. -/
  whole : Nat
  /-- There is neither a point nor an exponent. -/
  isInteger : Bool
deriving DecidableEq, Repr, Inhabited

/-- The value of a literal that is written as a natural number. -/
def Number.toNat? (n : Number) : Option Nat :=
  if n.isInteger && !n.negative then some n.whole else none

/-- A token. -/
inductive Token where
  | openBrace
  | closeBrace
  | openBracket
  | closeBracket
  | comma
  | colon
  | null
  | bool (b : Bool)
  | number (n : Number)
  | string (parts : List StringPart)
deriving DecidableEq, Repr, Inhabited

namespace Token

/-- The characters that may stand between tokens. -/
def isBlank (c : Char) : Bool := c == ' ' || c == '\t' || c == '\n' || c == '\r'

/-- The value of a hexadecimal digit. -/
def hexDigit? (c : Char) : Option Nat :=
  if '0' ≤ c ∧ c ≤ '9' then some (c.toNat - '0'.toNat)
  else if 'a' ≤ c ∧ c ≤ 'f' then some (c.toNat - 'a'.toNat + 10)
  else if 'A' ≤ c ∧ c ≤ 'F' then some (c.toNat - 'A'.toNat + 10)
  else none

/-- The code unit written by four hexadecimal digits. -/
def codeUnit? (a b c d : Char) : Option Nat := do
  return (((← hexDigit? a) * 16 + (← hexDigit? b)) * 16 + (← hexDigit? c)) * 16 + (← hexDigit? d)

/-- The character of a short escape. -/
def escaped? (c : Char) : Option Char :=
  match c with
  | '"' => some '"'
  | '\\' => some '\\'
  | '/' => some '/'
  | 'b' => some '\x08'
  | 'f' => some '\x0c'
  | 'n' => some '\n'
  | 'r' => some '\r'
  | 't' => some '\t'
  | _ => none

/-- Reads a string up to its closing quote, behind the parts read so far, which are kept in reverse.
Control characters must be escaped. -/
def stringEnd? (parts : List StringPart) : List Char → Option (List StringPart × List Char)
  | [] => none
  | '"' :: rest => some (parts.reverse, rest)
  | '\\' :: 'u' :: a :: b :: c :: d :: rest =>
    match codeUnit? a b c d with
    | some n => stringEnd? (.unit n :: parts) rest
    | none => none
  | '\\' :: e :: rest =>
    match escaped? e with
    | some c => stringEnd? (.char c :: parts) rest
    | none => none
  | c :: rest => if c < ' ' || c == '\\' then none else stringEnd? (.char c :: parts) rest

/-- The decimal digits in front, and what follows them. -/
def digits (s : List Char) : List Char × List Char :=
  (s.takeWhile Char.isDigit, s.dropWhile Char.isDigit)

/-- Skips the fraction of a number, if there is one. -/
def fractionEnd? : List Char → Option (Bool × List Char)
  | '.' :: s =>
    let (ds, rest) := digits s
    if ds.isEmpty then none else some (true, rest)
  | s => some (false, s)

/-- Skips the exponent of a number, if there is one. -/
def exponentEnd? : List Char → Option (Bool × List Char)
  | [] => some (false, [])
  | c :: s =>
    if c == 'e' || c == 'E' then
      let s := match s with
        | '+' :: t | '-' :: t => t
        | _ => s
      let (ds, rest) := digits s
      if ds.isEmpty then none else some (true, rest)
    else some (false, c :: s)

/-- Reads a number without its sign. A zero in front of other digits is a number of its own. -/
def numberEnd? (negative : Bool) (s : List Char) : Option (Token × List Char) := do
  let (ds, rest) ←
    match s with
    | '0' :: rest => some (['0'], rest)
    | _ => some (digits s)
  if ds.isEmpty then none
  let whole := ds.foldl (fun n c => 10 * n + (c.toNat - '0'.toNat)) 0
  let (hasFraction, rest) ← fractionEnd? rest
  let (hasExponent, rest) ← exponentEnd? rest
  return (.number ⟨negative, whole, !hasFraction && !hasExponent⟩, rest)

/-- Reads the token in front. -/
def first? : List Char → Option (Token × List Char)
  | '{' :: s => some (openBrace, s)
  | '}' :: s => some (closeBrace, s)
  | '[' :: s => some (openBracket, s)
  | ']' :: s => some (closeBracket, s)
  | ',' :: s => some (comma, s)
  | ':' :: s => some (colon, s)
  | '"' :: s => (stringEnd? [] s).map fun (parts, rest) => (string parts, rest)
  | 'n' :: 'u' :: 'l' :: 'l' :: s => some (null, s)
  | 't' :: 'r' :: 'u' :: 'e' :: s => some (bool true, s)
  | 'f' :: 'a' :: 'l' :: 's' :: 'e' :: s => some (bool false, s)
  | '-' :: s => numberEnd? true s
  | s => numberEnd? false s

/-- Reads at most `limit` tokens, which must reach the end of the text. Tokens read are kept in
reverse. -/
def allFrom? (tokens : List Token) : Nat → List Char → Option (List Token)
  | limit, s =>
    match s.dropWhile isBlank, limit with
    | [], _ => some tokens.reverse
    | _, 0 => none
    | t, limit + 1 =>
      match first? t with
      | some (token, rest) => allFrom? (token :: tokens) limit rest
      | none => none

/-- The tokens of a text. Every token has at least one character, so their number is bounded by the
length of the text. -/
def ofText? (s : List Char) : Option (List Token) :=
  allFrom? [] s.length s

end Token

end Vr4300.Json
