import Vr4300.Json.Token

/-!
# JSON documents

A document as a tree. Objects keep their members in the order of the text, repeated keys included,
because a reader may have to refuse them.

## Contents

* `Json`, `Json.ofText?`: the document in a text.
-/

namespace Vr4300

/-- A JSON document. -/
inductive Json where
  | null
  | bool (b : Bool)
  | number (n : Json.Number)
  | string (parts : List Json.StringPart)
  | array (items : List Json)
  | object (members : List (List Json.StringPart × Json))
deriving Repr, Inhabited

namespace Json

mutual

/-- Reads a value. Every call of a reader spends one unit of `fuel`. -/
def value? (fuel : Nat) (ts : List Token) : Option (Json × List Token) :=
  match fuel with
  | 0 => none
  | fuel + 1 =>
    match ts with
    | .null :: rest => some (null, rest)
    | .bool b :: rest => some (bool b, rest)
    | .number n :: rest => some (number n, rest)
    | .string parts :: rest => some (string parts, rest)
    | .openBracket :: .closeBracket :: rest => some (array [], rest)
    | .openBrace :: .closeBrace :: rest => some (object [], rest)
    | .openBracket :: rest => items? fuel [] rest
    | .openBrace :: rest => members? fuel [] rest
    | _ => none

/-- Reads the items of an array up to its closing bracket. Items read are kept in reverse. -/
def items? (fuel : Nat) (items : List Json) (ts : List Token) : Option (Json × List Token) :=
  match fuel with
  | 0 => none
  | fuel + 1 =>
    match value? fuel ts with
    | some (v, .comma :: rest) => items? fuel (v :: items) rest
    | some (v, .closeBracket :: rest) => some (array (v :: items).reverse, rest)
    | _ => none

/-- Reads the members of an object up to its closing brace. Members read are kept in reverse. -/
def members? (fuel : Nat) (members : List (List StringPart × Json)) (ts : List Token) :
    Option (Json × List Token) :=
  match fuel with
  | 0 => none
  | fuel + 1 =>
    match ts with
    | .string key :: .colon :: ts =>
      match value? fuel ts with
      | some (v, .comma :: rest) => members? fuel ((key, v) :: members) rest
      | some (v, .closeBrace :: rest) => some (object ((key, v) :: members).reverse, rest)
      | _ => none
    | _ => none

end

/-- The document in a text, which must hold nothing else. Of two calls in a row at least one consumes a
token, so twice the number of tokens and one is fuel enough. -/
def ofText? (text : String) : Option Json := do
  let tokens ← Token.ofText? text.toList
  match value? (2 * tokens.length + 1) tokens with
  | some (v, []) => some v
  | _ => none

/-- The last member of an object with a key. -/
def member? (key : String) : Json → Option Json
  | object members => (members.reverse.find? fun (k, _) => StringPart.text? k == some key).map (·.2)
  | _ => none

end Json

end Vr4300
