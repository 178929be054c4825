import AuditableMcp.Json.Value

namespace AuditableMcp

-- What a function of the SDK can throw.
inductive JsError where
  | canonicalizationError (message : JsString)
  | repositoryError
  -- A property of null or undefined was read, or an object had no primitive form.
  | typeError
  | zodError
  | usageError (message : JsString)
  -- An abort, by itself or with the fault that caused it.
  | abortedError (actionType targetRef reason : JsString)
  | abortedBy (actionType targetRef reason : JsString) (cause : JsError)
  | error (message : JsString)
deriving DecidableEq

-- The third-party functions the code calls: the RFC 8785 serializer of the
-- `canonicalize` package and noble's SHA-256. `numberToString` is the language's own
-- `Number.prototype.toString`.
structure Primitives where
  jcsCanonicalize : Json → JsString
  sha256 : List UInt8 → List UInt8
  numberToString : JsNum → JsString

-- `String(value)`. A JSON object has no callable `toString` or `valueOf` of its own, so
-- one that has a member called `toString` has no primitive form.
def stringOf (P : Primitives) : Json → Except JsError JsString
  | .null => .ok "null"
  | .bool b => .ok (if b then "true" else "false")
  | .num n => .ok (P.numberToString n)
  | .str s => .ok s
  | .arr elements => items elements
  | .obj entries => if (Json.lookup entries "toString").isSome then .error .typeError else .ok "[object Object]"
where
  items : List Json → Except JsError JsString
    | [] => .ok ""
    | [value] => if value.isNull then .ok (JsString.ofString "") else stringOf P value
    | value :: rest => do
        let first ← if value.isNull then .ok (JsString.ofString "") else stringOf P value
        let others ← items rest
        return first ++ JsString.ofString "," ++ others

-- `String(value)` where the value may be absent.
def stringOfOption (P : Primitives) : Option Json → Except JsError JsString
  | none => .ok "undefined"
  | some value => stringOf P value

-- `new TextEncoder().encode`: surrogate pairs are joined, a surrogate without its
-- pair becomes U+FFFD.
def decodeUnit (c : UInt16) : Char :=
  if JsString.isHighSurrogate c || JsString.isLowSurrogate c then '\uFFFD' else Char.ofNat c.toNat

def decodeUnits : List UInt16 → List Char
  | [] => []
  | [c] => [decodeUnit c]
  | c :: d :: rest =>
      if JsString.isHighSurrogate c && JsString.isLowSurrogate d then
        Char.ofNat (0x10000 + (c.toNat - 0xD800) * 0x400 + (d.toNat - 0xDC00)) :: decodeUnits rest
      else decodeUnit c :: decodeUnits (d :: rest)

def encodeUtf8 (s : JsString) : List UInt8 := (decodeUnits s.units).flatMap String.utf8EncodeChar

def hexDigit (n : Nat) : UInt16 := (if n < 10 then 0x30 + n else 0x57 + n).toUInt16

-- noble's `bytesToHex`
def bytesToHex (bytes : List UInt8) : JsString :=
  ⟨bytes.flatMap fun byte => [hexDigit (byte.toNat / 16), hexDigit (byte.toNat % 16)]⟩

theorem hexDigit_lt (n : Nat) (h : n < 16) : (hexDigit n).toNat < 0x80 := by
  unfold hexDigit
  split
  · simp only [Nat.toUInt16_eq, UInt16.toNat_ofNat']; omega
  · simp only [Nat.toUInt16_eq, UInt16.toNat_ofNat']; omega

-- Every character of a hex string is ASCII.
theorem bytesToHex_ascii (bytes : List UInt8) (c : UInt16) (hc : c ∈ (bytesToHex bytes).units) :
    c.toNat < 0x80 := by
  simp only [bytesToHex, List.mem_flatMap, List.mem_cons, List.not_mem_nil, or_false] at hc
  obtain ⟨byte, _, rfl | rfl⟩ := hc
  · have := byte.toNat_lt
    exact hexDigit_lt _ (by omega)
  · exact hexDigit_lt _ (Nat.mod_lt _ (by omega))

end AuditableMcp
