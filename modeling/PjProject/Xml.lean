import PjProject.ScanInput

/-! XML documents (`xml.c`): the parser over the input that the scanner has left, and the printer into a
buffer of limited size. -/

namespace PjProject.Xml

open Scan.Input

/-- `pj_xml_attr`. -/
structure Attr where
  name : List UInt8
  value : List UInt8
  deriving DecidableEq

/-- `pj_xml_node`. -/
inductive Node
  | mk (name : List UInt8) (attrs : List Attr) (children : List Node) (content : List UInt8)

/-- `PJ_XML_MAX_NESTING`. -/
def maxNesting : Nat := 256

/-- The rest of a processing instruction, behind `<?`. -/
def skipPi : Nat → List UInt8 → Result (List UInt8)
  | 0, _ => .outOfFuel
  | n + 1, l => do
    let (_, l) ← .ofOption (getUntilCh 63 l)
    if peek l = 63 ∧ peek1 l = 62 then .ofOption (advanceN 2 true l)
    else
      let l ← .ofOption (advanceN 1 false l)
      skipPi n l

/-- The rest of a comment, behind `<!`. -/
def skipComment : Nat → List UInt8 → Result (List UInt8)
  | 0, _ => .outOfFuel
  | n + 1, l => do
    let (_, l) ← .ofOption (getUntilCh 62 l)
    if ← .ofOption (startsWith (ascii ">") l) then .ofOption (advanceN 1 true l)
    else
      let l ← .ofOption (advanceN 1 false l)
      skipComment n l

/-- The first loop of `xml_parse_node`, over processing instructions and comments. -/
def skipMisc : Nat → List UInt8 → Result (List UInt8)
  | 0, _ => .outOfFuel
  | n + 1, l =>
    if peek l ≠ 60 then .error
    else if peek1 l = 63 then do
      let l ← .ofOption (advanceN 2 false l)
      let l ← skipPi (l.length + 1) l
      skipMisc n l
    else do
      if ← .ofOption (startsWith (ascii "<!") l) then
        let l ← .ofOption (advanceN 2 false l)
        let l ← skipComment (l.length + 1) l
        skipMisc n l
      else .ok l

def parseAttrValue (l : List UInt8) : Result (List UInt8 × List UInt8) :=
  if peek l = 61 then do
    let (_, l) ← .ofOption (getChar l)
    let (value, l) ← .ofOption (getQuotes [(34, 34), (39, 39)] l)
    .ok (value.tail.dropLast, l)
  else .ok ([], l)

def parseAttrs : Nat → List UInt8 → Result (List Attr × List UInt8)
  | 0, _ => .outOfFuel
  | n + 1, l =>
    if peek l ≠ 62 ∧ peek l ≠ 47 then do
      let (name, l) ← .ofOption (getUntilChr (ascii "=> \t\r\n") l)
      let (value, l) ← parseAttrValue l
      let (more, l) ← parseAttrs n l
      .ok (⟨name, value⟩ :: more, l)
    else .ok ([], l)

def cdataEnd : Nat → List UInt8 → Result (List UInt8)
  | 0, _ => .outOfFuel
  | n + 1, l => do
    if ← .ofOption (startsWith (ascii "]]>") l) then .ok l
    else
      let l ← .ofOption (advanceN 1 false l)
      let (_, l) ← .ofOption (getUntilCh 93 l)
      cdataEnd n l

/-- The content up to the next tag. -/
def parseText (l : List UInt8) : Result (List UInt8 × List UInt8) :=
  if l ≠ [] ∧ peek l ≠ 60 then .ofOption (getUntilCh 60 l) else .ok ([], l)

/-- The character data of `<![CDATA[`, which replaces the content so far. -/
def parseCdata (content l : List UInt8) : Result (List UInt8 × List UInt8) :=
  if peek l = 60 ∧ peek1 l = 33 then do
    if ← .ofOption (startsWith (ascii "<![CDATA[") l) then
      let start ← .ofOption (advanceN 9 false l)
      let (_, l) ← .ofOption (getUntilCh 93 start)
      let l ← cdataEnd (l.length + 1) l
      let rest ← .ofOption (advanceN 3 true l)
      .ok (start.take (start.length - l.length), rest)
    else .ok (content, l)
  else .ok (content, l)

/-- `pj_stricmp`. -/
def stricmp (str1 str2 : List UInt8) : Int :=
  if str1 = [] then if str2 = [] then 0 else -1
  else if str2 = [] then 1
  else
    let res := Scan.Scanner.compareN toLower (min str1.length str2.length) str1 str2
    if res = 0 then
      if str1.length < str2.length then -1 else if str1.length = str2.length then 0 else 1
    else res

def expectChar (c : UInt8) (l : List UInt8) : Result (List UInt8) := do
  let (d, l) ← .ofOption (getChar l)
  if d ≠ c then .error else .ok l

def parseEnd (name l : List UInt8) : Result (List UInt8) := do
  let l ← expectChar 60 l
  let l ← expectChar 47 l
  let (endName, l) ← .ofOption (getUntilChr (ascii " \t>") l)
  if stricmp name endName ≠ 0 then .error else expectChar 62 l

mutual

/-- `xml_parse_node`. -/
def parseNode : Nat → Nat → List UInt8 → Result (Node × List UInt8)
  | 0, _, _ => .outOfFuel
  | n + 1, recLevel, l =>
    if maxNesting ≤ recLevel then .error
    else do
      let l ← skipMisc (l.length + 1) l
      let (_, l) ← .ofOption (getChar l)
      let (name, l) ← .ofOption (getUntilChr (ascii " />\t\r\n") l)
      let (attrs, l) ← parseAttrs (l.length + 1) l
      if peek l = 47 then
        let (_, l) ← .ofOption (getChar l)
        let l ← expectChar 62 l
        .ok (.mk name attrs [] [], l)
      else
        let l ← expectChar 62 l
        let (children, l) ← parseNodes n (recLevel + 1) l
        let (content, l) ← parseText l
        let (content, l) ← parseCdata content l
        let l ← parseEnd name l
        .ok (.mk name attrs children content, l)

/-- The loop over the sub nodes. -/
def parseNodes : Nat → Nat → List UInt8 → Result (List Node × List UInt8)
  | 0, _, _ => .outOfFuel
  | n + 1, recLevel, l =>
    if peek l = 60 ∧ peek1 l ≠ 47 ∧ peek1 l ≠ 33 then do
      let (node, l) ← parseNode n recLevel l
      let (more, l) ← parseNodes n recLevel l
      .ok (node :: more, l)
    else .ok ([], l)

end

/-- `pj_xml_parse`; a node takes a byte, so that twice the length is fuel enough. -/
def xmlParse (msg : List UInt8) : Result Node :=
  if msg = [] then .error
  else do
    let (node, _) ← parseNode (2 * msg.length + 2) 0 (skip msg)
    .ok node

/-- `SIZE_LEFT()`, an `int`. -/
def sizeLeft (len written : Nat) : Int := Int.bmod ((len : Int) - written) 0x100000000

/-- Write `piece` behind `p` if `need` bytes are left. -/
def put (len need : Nat) (piece p : List UInt8) : Option (List UInt8) :=
  if sizeLeft len p.length < need then none else some (p ++ piece)

def attrText (attr : Attr) : List UInt8 :=
  32 :: (attr.name ++ if attr.value = [] then [] else [61, 34] ++ attr.value ++ [34])

/-- The loop of `xml_print_node` over the attributes. -/
def printAttrs (len : Nat) : List Attr → List UInt8 → Option (List UInt8)
  | [], p => some p
  | attr :: more, p => do
    let p ← put len (attr.name.length + attr.value.length + 4) (attrText attr) p
    printAttrs len more p

def printContent (len : Nat) (content p : List UInt8) : Option (List UInt8) :=
  if content.isEmpty then some p else put len content.length content p

def endTag (name : List UInt8) : List UInt8 := [60, 47] ++ name ++ [62]

mutual

/-- `xml_print_node`: the bytes it writes, or `none` where it returns -1. -/
def printNode (indent len : Nat) : Node → Option (List UInt8)
  | .mk name attrs children content => do
    let p ← put len (name.length + indent + 5) (List.replicate indent 32 ++ 60 :: name) []
    let p ← printAttrs len attrs p
    if content.isEmpty && children.isEmpty then put len 3 [32, 47, 62] p
    else
      let p ← put len 1 [62] p
      let p ← printNodes indent len children p
      let p ← printContent len content p
      if children.isEmpty then put len (name.length + 3) (endTag name) p
      else put len (name.length + 5 + indent) (10 :: (List.replicate indent 32 ++ endTag name)) p

/-- The loop over the sub nodes. -/
def printNodes (indent len : Nat) : List Node → List UInt8 → Option (List UInt8)
  | [], p => some p
  | node :: more, p => do
    let p ← put len (indent + 3) [10] p
    let printed ← printNode (indent + 1) (sizeLeft len p.length).toNat node
    printNodes indent len more (p ++ printed)

end

/-- The prolog of `pj_xml_print`. -/
def prolog : List UInt8 := ascii "<?xml version=\"1.0\" encoding=\"UTF-8\"?>\n"

/-- `pj_xml_print`: what it returns, and that many bytes of the buffer. Where the node does not fit behind a
prolog, the -1 is lost in the length of the prolog. -/
def xmlPrint (node : Node) (len : Nat) (includeProlog : Bool) : Int × List UInt8 :=
  if len = 0 then (0, [])
  else
    let front := if includeProlog then prolog else []
    if includeProlog ∧ Int.bmod len 0x100000000 < front.length then (-1, [])
    else
      match printNode 0 (len - front.length) node with
      | none => if includeProlog then (front.length, front) else (-1, [])
      | some text =>
        if (front ++ text).length + 1 ≤ len then ((front ++ text).length + 1, front ++ text ++ [10])
        else ((front ++ text).length, front ++ text)

end PjProject.Xml
