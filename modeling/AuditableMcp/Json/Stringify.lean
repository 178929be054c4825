import AuditableMcp.Runtime

-- `JSON.stringify` of a JSON value, without white space.
namespace AuditableMcp

def hexEscape (c : UInt16) : List UInt16 :=
  [0x5C, 0x75, hexDigit (c.toNat / 4096), hexDigit (c.toNat / 256 % 16), hexDigit (c.toNat / 16 % 16),
   hexDigit (c.toNat % 16)]

-- The escapes of one letter, by that letter.
def shortEscapes : List (UInt16 × UInt16) :=
  [(0x22, 0x22), (0x5C, 0x5C), (0x62, 0x08), (0x74, 0x09), (0x6E, 0x0A), (0x66, 0x0C), (0x72, 0x0D)]

def quoteUnit (c : UInt16) : List UInt16 :=
  match shortEscapes.find? fun entry => entry.2 = c with
  | some (letter, _) => [0x5C, letter]
  | none => if c < 0x20 then hexEscape c else [c]

-- A surrogate without its pair is escaped.
def quoteUnits (previous : Option UInt16) : List UInt16 → List UInt16
  | [] => []
  | c :: rest =>
      let lone := (JsString.isHighSurrogate c && !(rest.head?.any JsString.isLowSurrogate)) ||
        (JsString.isLowSurrogate c && !(previous.any JsString.isHighSurrogate))
      (if lone then hexEscape c else quoteUnit c) ++ quoteUnits (some c) rest

def quote (s : JsString) : List UInt16 := 0x22 :: (quoteUnits none s.units ++ [0x22])

section

variable (number : JsNum → JsString)

-- The units of a value's text, given the text of a number.
def stringify : Json → List UInt16
  | .null => (JsString.ofString "null").units
  | .bool b => (JsString.ofString (if b then "true" else "false")).units
  | .num n => (number n).units
  | .str s => quote s
  | .arr elements => 0x5B :: (items elements ++ [0x5D])
  | .obj entries => 0x7B :: (members entries ++ [0x7D])
where
  items : List Json → List UInt16
    | [] => []
    | [value] => stringify value
    | value :: rest => stringify value ++ 0x2C :: items rest
  members : List (JsString × Json) → List UInt16
    | [] => []
    | [(name, value)] => quote name ++ 0x3A :: stringify value
    | (name, value) :: rest => quote name ++ 0x3A :: (stringify value ++ 0x2C :: members rest)

end

-- The text of a number in JSON: null where it is not finite.
def jsonNumber (P : Primitives) (n : JsNum) : JsString := if n.isFinite then P.numberToString n else "null"

def jsonText (P : Primitives) (value : Json) : JsString := ⟨stringify (jsonNumber P) value⟩

end AuditableMcp
