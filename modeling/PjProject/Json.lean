import PjProject.ScanInput

/-! JSON documents (`json.c`): the parser over the input that the scanner has left, and the writer as the
pieces it hands to its callback. -/

namespace PjProject.Json

open Scan (isxdigit hexDigitToVal)
open Scan.Input

/-- `pj_json_elem`, over the type `F` of `float`. An element without a name has the empty name. -/
inductive Elem (F : Type)
  | null (name : List UInt8)
  | bool (name : List UInt8) (value : Bool)
  | number (name : List UInt8) (num : F)
  | string (name str : List UInt8)
  | array (name : List UInt8) (children : List (Elem F))
  | obj (name : List UInt8) (children : List (Elem F))

/-- What the code does with a `float`: `pj_strtof`, negation, and printing with `%d` or `%f`. -/
structure FloatOps (F : Type) where
  strtof : List UInt8 → F
  neg : F → F
  print : F → List UInt8

variable {F : Type} (ops : FloatOps F)

/-- `float_spec`. -/
def floatSpec (c : UInt8) : Bool := (ascii ".0123456789").contains c

def isalpha (c : UInt8) : Bool := (65 ≤ c && c ≤ 90) || (97 ≤ c && c ≤ 122)

/-- The loop of `parse_quoted_string`; `none` for `on_error`. -/
def unescape : List UInt8 → Option (List UInt8)
  | [] => some []
  | 92 :: 117 :: _ :: _ :: c :: d :: more =>
    (unescape more).map ((hexDigitToVal c * 16 + hexDigitToVal d) :: ·)
  | 92 :: c :: more =>
    if c = 34 ∨ c = 92 ∨ c = 47 then (unescape more).map (c :: ·)
    else if c = 98 then (unescape more).map (8 :: ·)
    else if c = 102 then (unescape more).map (12 :: ·)
    else if c = 110 then (unescape more).map (10 :: ·)
    else if c = 114 then (unescape more).map (13 :: ·)
    else if c = 116 then (unescape more).map (9 :: ·)
    else none
  | [92] => none
  | c :: more => (unescape more).map (c :: ·)

/-- `parse_quoted_string`. -/
def parseQuotedString (l : List UInt8) : Option (List UInt8 × List UInt8) := do
  let (token, l) ← getQuotes [(34, 34)] l
  let token := token.tail.dropLast
  if token.contains 92 then
    let str ← unescape token
    some (str, l)
  else some (token, l)

/-- The first part of `parse_elem_throw`: the name, or the value of a string without a name. -/
def parseName (l : List UInt8) : Option (List UInt8 × List UInt8 × List UInt8) :=
  if peek l = 34 then do
    let (_, l) ← getChar l
    let (token, l) ← getUntilCh 34 l
    let (_, l) ← getChar l
    if peek l = 58 then
      let (_, l) ← getChar l
      some (token, [], l)
    else some ([], token, l)
  else some ([], [], l)

/-- A number: an optional minus and the characters of `float_spec`. -/
def parseNumber (name l : List UInt8) : Option (Elem F × List UInt8) :=
  if peek l = 45 then do
    let (_, l) ← getChar l
    let (token, l) ← get floatSpec l
    some (.number name (ops.neg (ops.strtof token)), l)
  else do
    let (token, l) ← get floatSpec l
    some (.number name (ops.strtof token), l)

/-- `false`, `true` or `null`. -/
def parseWord (name l : List UInt8) : Option (Elem F × List UInt8) := do
  if ← startsWith (ascii "false") l then
    let l ← advanceN 5 true l
    some (.bool name false, l)
  else if ← startsWith (ascii "true") l then
    let l ← advanceN 4 true l
    some (.bool name true, l)
  else if ← startsWith (ascii "null") l then
    let l ← advanceN 4 true l
    some (.null name, l)
  else none

/-- `while (*curptr == ',') pj_scan_get_char()`, which skips the white space behind each comma. -/
def skipCommas (l : List UInt8) : List UInt8 :=
  if peek l = 44 then l.dropWhile fun c => c == 44 || isBlank c else l

mutual

/-- `parse_elem_throw`. -/
def parseElem : Nat → List UInt8 → Result (Elem F × List UInt8)
  | 0, _ => .outOfFuel
  | n + 1, l => do
    let (name, value, l) ← .ofOption (parseName l)
    if value ≠ [] then .ok (.string name value, l) else parseValue n name l

/-- The second part of `parse_elem_throw`: the value of an element with this name. -/
def parseValue : Nat → List UInt8 → List UInt8 → Result (Elem F × List UInt8)
  | 0, _, _ => .outOfFuel
  | n + 1, name, l =>
    if floatSpec (peek l) || peek l = 45 then .ofOption (parseNumber ops name l)
    else if peek l = 34 then do
      let (str, l) ← .ofOption (parseQuotedString l)
      .ok (.string name str, l)
    else if isalpha (peek l) then .ofOption (parseWord name l)
    else if peek l = 91 then do
      let (_, l) ← .ofOption (getChar l)
      let (children, l) ← parseChildren n 93 l
      let (_, l) ← .ofOption (getChar l)
      .ok (.array name children, l)
    else if peek l = 123 then do
      let (_, l) ← .ofOption (getChar l)
      let (children, l) ← parseChildren n 125 l
      let (_, l) ← .ofOption (getChar l)
      .ok (.obj name children, l)
    else .error

/-- The loop of `parse_children`. -/
def parseChildren : Nat → UInt8 → List UInt8 → Result (List (Elem F) × List UInt8)
  | 0, _, _ => .outOfFuel
  | n + 1, endQuote, l =>
    if peek l = endQuote then .ok ([], l)
    else if peek (skipCommas l) = endQuote then .ok ([], skipCommas l)
    else do
      let (child, l) ← parseElem n (skipCommas l)
      let (more, l) ← parseChildren n endQuote l
      .ok (child :: more, l)

end

/-- `pj_json_parse`: the element and the input left behind it. A round of the three functions takes a byte,
so three times the length is fuel enough. -/
def jsonParse (buffer : List UInt8) : Result (Elem F × List UInt8) :=
  if buffer = [] then .error else parseElem ops (3 * buffer.length + 3) (skip buffer)

/-- `pj_hex_digits`. -/
def hexDigit (v : UInt8) : UInt8 := byteAt (ascii "0123456789abcdef") v.toNat

/-- `write_string_escaped`, one character. -/
def escapeByte (c : UInt8) : List UInt8 :=
  if c = 34 then [92, 34]
  else if c = 92 then [92, 92]
  else if c = 47 then [92, 47]
  else if c = 8 then [92, 98]
  else if c = 12 then [92, 102]
  else if c = 10 then [92, 110]
  else if c = 13 then [92, 114]
  else if c = 9 then [92, 116]
  else if 32 ≤ c ∧ c < 127 then [c]
  else [92, 117, 48, 48, hexDigit (c >>> 4), hexDigit (c &&& 0x0F)]

/-- `write_string_escaped`. Its chunks of up to 64 bytes are one piece here. -/
def escape (value : List UInt8) : List UInt8 := value.flatMap escapeByte

/-- `MAX_INDENT`, `PJ_JSON_INDENT_SIZE` and `PJ_JSON_NAME_MIN_LEN`. -/
def maxIndent : Nat := 100
def indentSize : Nat := 3
def nameMinLen : Nat := 20

/-- The first `indent` bytes at `indent_buf`. Behind its 100 spaces stands the `int` with the indentation. -/
def indentBytes (indent : Nat) : List UInt8 :=
  (List.replicate maxIndent 32 ++ [UInt8.ofNat indent, UInt8.ofNat (indent / 256), 0, 0]).take indent

def Elem.name : Elem F → List UInt8
  | .null name => name
  | .bool name _ => name
  | .number name _ => name
  | .string name _ => name
  | .array name _ => name
  | .obj name _ => name

/-- What `elem_write` writes before the value; `noName` is the flag `NO_NAME`. -/
def namePieces (indent : Nat) (noName : Bool) (name : List UInt8) : List (List UInt8) :=
  if name = [] then []
  else
    indentBytes indent ::
      if noName then []
      else
        [[34], escape name, [34, 58, 32]] ++
          if name.length < nameMinLen then [List.replicate (nameMinLen - name.length) 32] else []

/-- The indentation of the children in a list with names. -/
def deeper (indent : Nat) : Nat := if indent < maxIndent then indent + indentSize else indent

def firstName : List (Elem F) → List UInt8
  | [] => []
  | child :: _ => child.name

/-- `write_children`, around what it writes for the children in a simple list or in a list with names. -/
def wrapPieces (openQuote closeQuote : UInt8) (indent : Nat) (children : List (Elem F))
    (simple named : List (List UInt8)) : List (List UInt8) :=
  [[openQuote], [32]] ++
    (if firstName children = [] then simple else [10] :: (named ++ [indentBytes indent])) ++ [[closeQuote]]

mutual

/-- `elem_write`: the pieces in the order of the calls of the writer. -/
def elemPieces (indent : Nat) (noName : Bool) : Elem F → List (List UInt8)
  | .null name => namePieces indent noName name ++ [ascii "null"]
  | .bool name value => namePieces indent noName name ++ [if value then ascii "true" else ascii "false"]
  | .number name num => namePieces indent noName name ++ [ops.print num]
  | .string name str => namePieces indent noName name ++ [[34], escape str, [34]]
  | .array name children =>
    namePieces indent noName name ++ wrapPieces 91 93 indent children
      (childPieces indent true [44, 32] [] children) (childPieces (deeper indent) true [44, 10] [[10]] children)
  | .obj name children =>
    namePieces indent noName name ++ wrapPieces 123 125 indent children
      (childPieces indent false [44, 32] [] children) (childPieces (deeper indent) false [44, 10] [[10]] children)

/-- The children with `sep` between them and `last` behind the last one. -/
def childPieces (indent : Nat) (noName : Bool) (sep : List UInt8) (last : List (List UInt8)) :
    List (Elem F) → List (List UInt8)
  | [] => []
  | child :: more =>
    elemPieces indent noName child ++ (if more.isEmpty then last else [sep]) ++
      childPieces indent noName sep last more

end

mutual

/-- A number whose text does not fit in `num_buf`. -/
def hasLongNumber : Elem F → Bool
  | .number _ num => 65 ≤ (ops.print num).length
  | .array _ children => anyLongNumber children
  | .obj _ children => anyLongNumber children
  | _ => false

def anyLongNumber : List (Elem F) → Bool
  | [] => false
  | child :: more => hasLongNumber child || anyLongNumber more

end

/-- `buf_writer` over what was written and the size that is left. -/
def bufWriter : List UInt8 × Nat → List UInt8 → Option (List UInt8 × Nat)
  | (out, size), piece => if size ≤ piece.length + 1 then none else some (out ++ piece, size - piece.length)

/-- `pj_json_write` into a buffer of `size` bytes: the text, or `none` for `PJ_ETOOBIG`. -/
def jsonWrite (elem : Elem F) (size : Nat) : Option (List UInt8) :=
  if hasLongNumber ops elem then none
  else ((elemPieces ops 0 false elem).foldlM bufWriter ([], size)).map Prod.fst

end PjProject.Json
