import ClassModel.Json.Basic
import ClassModel.Decimal.Reader

/-! Reading JSON text as far as it goes.

An outline is the tree of a text up to the first place where it stops being JSON. What went wrong
there is part of the tree, so that whoever walks the tree from left to right meets the faults in
the order of the text, among faults of its own. A part that the walk passes over is held to less
than a part that it uses: the escapes of a string need not form characters there, and a number may
be too large.
-/

set_option autoImplicit false

namespace ClassModel.Json

/-- What is wrong with a text: it ends too early, it is not JSON, or it is JSON of another shape
than the one expected. -/
inductive Fault where
  | endOfText
  | malformed
  | misshapen
  deriving DecidableEq, Repr

/-- A string literal whose escapes form a text, or the fault that using it meets. -/
inductive Quoted where
  | text (value : String)
  | unreadable (fault : Fault)
  deriving Repr

/-- How a list or object ends: by its bracket, without it, or after a comma with nothing behind. -/
inductive Ending where
  | closed
  | unclosed (fault : Fault)
  | dangling (fault : Fault)
  deriving Repr

def Ending.fault? : Ending → Option Fault
  | .closed => none
  | .unclosed fault => some fault
  | .dangling fault => some fault

inductive Outline where
  | null
  | bool (value : Bool)
  | number (literal : String)
  | string (quoted : Quoted)
  | array (items : List Outline) (ending : Ending)
  | object (members : List (Quoted × Outline)) (ending : Ending)
  /-- The text cannot be read on from here. -/
  | broken (used passed : Fault)
  deriving Repr

/-! ## Leaves -/

def isJsonBlank (c : Char) : Bool := c = ' ' || c = '\n' || c = '\t' || c = '\r'

def skipBlanks (cs : List Char) : List Char := cs.dropWhile isJsonBlank

def hexValue? (c : Char) : Option Nat :=
  if '0' ≤ c && c ≤ '9' then some (c.toNat - '0'.toNat)
  else if 'a' ≤ c && c ≤ 'f' then some (c.toNat - 'a'.toNat + 10)
  else if 'A' ≤ c && c ≤ 'F' then some (c.toNat - 'A'.toNat + 10)
  else none

def fourHexDigits? (a b c d : Char) : Option Nat := do
  let a ← hexValue? a
  let b ← hexValue? b
  let c ← hexValue? c
  let d ← hexValue? d
  return ((a * 16 + b) * 16 + c) * 16 + d

/-- Too few bytes for four digits end the text; otherwise one of them is no digit. -/
def hexFault (cs : List Char) : Fault :=
  if (cs.take 4).foldl (fun bytes c => bytes + c.utf8Size) 0 < 4 then .endOfText else .malformed

def simpleEscape? : Char → Option Char
  | '"' => some '"'
  | '\\' => some '\\'
  | '/' => some '/'
  | 'b' => some '\x08'
  | 'f' => some '\x0c'
  | 'n' => some '\n'
  | 'r' => some '\r'
  | 't' => some '\t'
  | _ => none

/-- A string literal read to its closing quote, or the faults at the place where it stops. -/
inductive StringScan where
  | finished (quoted : Quoted) (rest : List Char)
  | stopped (used passed : Fault)

/-- The first half of a pair of escapes waits in `pending`; the first fault of the escapes as
characters is kept in `fault`. -/
def scanString (pending : Option Nat) (fault : Option Fault) (taken : List Char) :
    List Char → StringScan
  | [] => .stopped (fault.getD .endOfText) .endOfText
  | '"' :: rest =>
    match fault, pending with
    | some fault, _ => .finished (.unreadable fault) rest
    | none, some _ => .finished (.unreadable .malformed) rest
    | none, none => .finished (.text (String.ofList taken.reverse)) rest
  | ['\\'] => .stopped (fault.getD .endOfText) .endOfText
  | '\\' :: 'u' :: a :: b :: c :: d :: rest =>
    match fourHexDigits? a b c d with
    | none => .stopped (fault.getD .malformed) .malformed
    | some code =>
      let isHigh := 0xD800 ≤ code && code ≤ 0xDBFF
      let isLow := 0xDC00 ≤ code && code ≤ 0xDFFF
      match pending with
      | some high =>
        if isLow then
          let joined := 0x10000 + (high - 0xD800) * 0x400 + (code - 0xDC00)
          scanString none fault (Char.ofNat joined :: taken) rest
        else scanString none (fault.or (some .malformed)) taken rest
      | none =>
        if isHigh then scanString (some code) fault taken rest
        else if isLow then scanString none (fault.or (some .malformed)) taken rest
        else scanString none fault (Char.ofNat code :: taken) rest
  | '\\' :: 'u' :: rest => .stopped (fault.getD (hexFault rest)) (hexFault rest)
  | '\\' :: escape :: rest =>
    match simpleEscape? escape with
    | none => .stopped (fault.getD .malformed) .malformed
    | some c =>
      let fault := if pending.isSome then fault.or (some .malformed) else fault
      scanString none fault (c :: taken) rest
  | c :: rest =>
    if c.toNat < 0x20 then .stopped (fault.getD .malformed) .malformed
    else
      let fault := if pending.isSome then fault.or (some .malformed) else fault
      scanString none fault (c :: taken) rest

/-- A number read to its end, or the faults at the place where it stops. -/
inductive NumberScan where
  | finished (literal rest : List Char)
  | stopped (used passed : Fault)

/-- Where a digit is due: the end of the text, or another character. -/
def missingDigit (rest : List Char) : NumberScan :=
  if rest.isEmpty then .stopped .endOfText .malformed else .stopped .malformed .malformed

def scanExponent (literal rest : List Char) : NumberScan :=
  match rest with
  | mark :: after =>
    if mark = 'e' || mark = 'E' then
      let (sign, unsigned) := match after with
        | '+' :: unsigned => (['+'], unsigned)
        | '-' :: unsigned => (['-'], unsigned)
        | _ => ([], after)
      let digits := unsigned.takeWhile Char.isDigit
      if digits.isEmpty then missingDigit unsigned
      else .finished (literal ++ mark :: sign ++ digits) (unsigned.dropWhile Char.isDigit)
    else .finished literal rest
  | [] => .finished literal []

def scanFraction (literal rest : List Char) : NumberScan :=
  match rest with
  | '.' :: after =>
    let digits := after.takeWhile Char.isDigit
    let rest := after.dropWhile Char.isDigit
    if digits.isEmpty then missingDigit rest
    else scanExponent (literal ++ '.' :: digits) rest
  | _ => scanExponent literal rest

/-- A number has no leading zeros, and digits on both sides of its point. -/
def scanNumber (cs : List Char) : NumberScan :=
  let (sign, unsigned) := match cs with
    | '-' :: unsigned => (['-'], unsigned)
    | _ => ([], cs)
  let digits := unsigned.takeWhile Char.isDigit
  match digits with
  | [] => missingDigit unsigned
  | '0' :: _ :: _ => .stopped .malformed .malformed
  | _ => scanFraction (sign ++ digits) (unsigned.dropWhile Char.isDigit)

/-- The rest of a text after a word that must stand at its front. -/
def scanWord : (word cs : List Char) → Except Fault (List Char)
  | [], rest => .ok rest
  | _ :: _, [] => .error .endOfText
  | expected :: word, c :: rest => if c = expected then scanWord word rest else .error .malformed

/-! ## Trees -/

/-- An outline and the text behind it; there is none behind a broken one. -/
structure Reading where
  outline : Outline
  rest : Option (List Char)

def Reading.broken (used passed : Fault) : Reading := ⟨.broken used passed, none⟩

def Reading.ofWord (value : Outline) (word cs : List Char) : Reading :=
  match scanWord word cs with
  | .ok rest => ⟨value, some rest⟩
  | .error fault => .broken fault fault

def Reading.ofNumber (cs : List Char) : Reading :=
  match scanNumber cs with
  | .finished literal rest => ⟨.number (String.ofList literal), some rest⟩
  | .stopped used passed => .broken used passed

structure ItemsReading where
  items : List Outline
  ending : Ending
  rest : Option (List Char)

structure MembersReading where
  members : List (Quoted × Outline)
  ending : Ending
  rest : Option (List Char)

mutual

/-- Read a value. Every call takes at least one character or stops, so twice the length of the
text is fuel enough. -/
def readValue : (fuel : Nat) → List Char → Reading
  | 0, _ => .broken .endOfText .endOfText
  | fuel + 1, text =>
    match skipBlanks text with
    | [] => .broken .endOfText .endOfText
    | 'n' :: rest => .ofWord .null ['u', 'l', 'l'] rest
    | 't' :: rest => .ofWord (.bool true) ['r', 'u', 'e'] rest
    | 'f' :: rest => .ofWord (.bool false) ['a', 'l', 's', 'e'] rest
    | '"' :: rest =>
      match scanString none none [] rest with
      | .finished quoted rest => ⟨.string quoted, some rest⟩
      | .stopped used passed => .broken used passed
    | '[' :: rest =>
      let read := readItems fuel true rest
      ⟨.array read.items read.ending, read.rest⟩
    | '\x7b' :: rest =>
      let read := readMembers fuel true rest
      ⟨.object read.members read.ending, read.rest⟩
    | c :: rest =>
      if c = '-' || c.isDigit then .ofNumber (c :: rest) else .broken .malformed .malformed

/-- Read the items of a list up to its bracket; before all but the first a comma is due. -/
def readItems : (fuel : Nat) → (first : Bool) → List Char → ItemsReading
  | 0, _, _ => ⟨[], .unclosed .endOfText, none⟩
  | fuel + 1, first, text =>
    match skipBlanks text with
    | [] => ⟨[], .unclosed .endOfText, none⟩
    | ']' :: rest => ⟨[], .closed, some rest⟩
    | c :: rest =>
      if first then readItem fuel (c :: rest)
      else if c = ',' then
        match skipBlanks rest with
        | [] => ⟨[], .dangling .endOfText, none⟩
        | ']' :: _ => ⟨[], .dangling .malformed, none⟩
        | d :: rest => readItem fuel (d :: rest)
      else ⟨[], .unclosed .malformed, none⟩

def readItem : (fuel : Nat) → List Char → ItemsReading
  | 0, _ => ⟨[], .unclosed .endOfText, none⟩
  | fuel + 1, text =>
    let value := readValue fuel text
    match value.rest with
    | none => ⟨[value.outline], .closed, none⟩
    | some rest =>
      let others := readItems fuel false rest
      ⟨value.outline :: others.items, others.ending, others.rest⟩

/-- Read the members of an object up to its brace; before all but the first a comma is due. -/
def readMembers : (fuel : Nat) → (first : Bool) → List Char → MembersReading
  | 0, _, _ => ⟨[], .unclosed .endOfText, none⟩
  | fuel + 1, first, text =>
    match skipBlanks text with
    | [] => ⟨[], .unclosed .endOfText, none⟩
    | '\x7d' :: rest => ⟨[], .closed, some rest⟩
    | c :: rest =>
      if first then readMember fuel (c :: rest)
      else if c = ',' then
        match skipBlanks rest with
        | [] => ⟨[], .dangling .endOfText, none⟩
        | '\x7d' :: _ => ⟨[], .dangling .malformed, none⟩
        | d :: rest => readMember fuel (d :: rest)
      else ⟨[], .unclosed .malformed, none⟩

def readMember : (fuel : Nat) → List Char → MembersReading
  | 0, _ => ⟨[], .unclosed .endOfText, none⟩
  | fuel + 1, text =>
    match text with
    | '"' :: rest =>
      match scanString none none [] rest with
      | .stopped used passed => ⟨[(.unreadable used, .broken used passed)], .closed, none⟩
      | .finished key rest =>
        match skipBlanks rest with
        | [] => ⟨[(key, .broken .endOfText .endOfText)], .closed, none⟩
        | ':' :: rest =>
          let value := readValue fuel rest
          match value.rest with
          | none => ⟨[(key, value.outline)], .closed, none⟩
          | some rest =>
            let others := readMembers fuel false rest
            ⟨(key, value.outline) :: others.members, others.ending, others.rest⟩
        | _ => ⟨[(key, .broken .malformed .malformed)], .closed, none⟩
    | _ => ⟨[], .unclosed .malformed, none⟩

end

/-- The outline of a whole text, and whether only blanks stand behind it. -/
structure Text where
  outline : Outline
  complete : Bool

def Text.read (text : String) : Text :=
  let cs := text.toList
  let reading := readValue (2 * cs.length + 2) cs
  ⟨reading.outline, (reading.rest.map fun rest => (skipBlanks rest).isEmpty).getD true⟩

/-! ## Walking an outline -/

mutual

/-- The first fault met when a value is passed over. -/
def Outline.passedFault? : Outline → Option Fault
  | .array items ending => (passedItems? items).or ending.fault?
  | .object members ending => (passedMembers? members).or ending.fault?
  | .broken _ passed => some passed
  | _ => none

def passedItems? : List Outline → Option Fault
  | [] => none
  | item :: rest => item.passedFault?.or (passedItems? rest)

def passedMembers? : List (Quoted × Outline) → Option Fault
  | [] => none
  | (_, value) :: rest => value.passedFault?.or (passedMembers? rest)

end

def overflows (literal : String) : Bool := (Decimal.floatOf literal.toList).abs == 1.0 / 0.0

/-- The fault of a value of another shape than the one expected. A scalar is read first, a list or
an object is refused at its bracket. -/
def Outline.mismatch : Outline → Fault
  | .broken used _ => used
  | .string (.unreadable fault) => fault
  | .number literal => if overflows literal then .malformed else .misshapen
  | _ => .misshapen

mutual

def Outline.toJson? : Outline → Option Json
  | .null => some .null
  | .bool value => some (.bool value)
  | .number literal => some (.number literal)
  | .string (.text value) => some (.string value)
  | .array items .closed => (itemsToJson? items).map .array
  | .object members .closed => (membersToJson? members).map .object
  | _ => none

def itemsToJson? : List Outline → Option (List Json)
  | [] => some []
  | item :: rest => do
    let value ← item.toJson?
    let values ← itemsToJson? rest
    return value :: values

def membersToJson? : List (Quoted × Outline) → Option (List (String × Json))
  | [] => some []
  | (.text key, item) :: rest => do
    let value ← item.toJson?
    let values ← membersToJson? rest
    return (key, value) :: values
  | (.unreadable _, _) :: _ => none

end

def ofText? (text : String) : Option Json :=
  let read := Text.read text
  if read.complete then read.outline.toJson? else none

end ClassModel.Json
