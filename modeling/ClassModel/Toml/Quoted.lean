import ClassModel.Json.Printer
import ClassModel.Json.Outline

/-! Quoted texts.

There are four styles: with or without escapes, on one line or over several. The text over several
lines starts behind a line break that follows its opening quotes, and may hold up to two quotes
next to its closing ones.
-/

set_option autoImplicit false

namespace ClassModel.Toml

structure QuoteStyle where
  quote : Char
  escapes : Bool
  lines : Bool

namespace QuoteStyle

def basic : QuoteStyle := ⟨'"', true, false⟩
def literal : QuoteStyle := ⟨'\x27', false, false⟩
def basicLines : QuoteStyle := ⟨'"', true, true⟩
def literalLines : QuoteStyle := ⟨'\x27', false, true⟩

end QuoteStyle

/-- The characters that may stand in a comment or unescaped in a text: all but control characters,
and the tab among these. -/
def isTextChar (c : Char) : Bool := c = '\t' || (0x20 ≤ c.toNat && c.toNat != 0x7F)

/-! ## Reading -/

def escaped? : Char → Option Char
  | '"' => some '"'
  | '\\' => some '\\'
  | 'b' => some '\x08'
  | 'e' => some '\x1b'
  | 'f' => some '\x0c'
  | 'n' => some '\n'
  | 'r' => some '\r'
  | 't' => some '\t'
  | _ => none

/-- How many hexadecimal digits follow an escape that gives the code of a character. -/
def codeLength? : Char → Option Nat
  | 'x' => some 2
  | 'u' => some 4
  | 'U' => some 8
  | _ => none

def charOfCode? (code : Nat) : Option Char :=
  if code < 0xD800 || (0xDFFF < code && code < 0x110000) then some (Char.ofNat code) else none

/-- Where a reader stands in a quoted text. -/
inductive QuotePlace where
  | text
  /-- Behind a backslash. -/
  | escape
  /-- In the code of a character, with digits still to come. -/
  | code (left value : Nat)
  /-- Behind a backslash that ends its line. -/
  | lineEnd
  /-- In the blanks that such a backslash takes away. -/
  | margin

def isLineBlank (c : Char) : Bool := c = ' ' || c = '\t'

def isBreak (c : Char) : Bool := c = '\n' || c = '\r'

/-- How many quotes end a text here, and how many more of them belong to it; no more than five
quotes are taken at once. -/
def closing? (style : QuoteStyle) (cs : List Char) : Option (Nat × Nat) :=
  if style.lines then
    let run := ((cs.take 5).takeWhile (· = style.quote)).length
    if 3 ≤ run then some (run, run - 3) else none
  else some (1, 0)

/-- Read to the closing quotes. `taken` is the text so far, its last character first. -/
def readQuoted (style : QuoteStyle) : QuotePlace → (taken : List Char) → List Char →
    Option (String × List Char)
  | _, _, [] => none
  | place, taken, c :: rest =>
    if isBreak c && !(style.lines && (c = '\n' || rest.head? = some '\n')) then none
    else
      match place with
      | .escape =>
        match escaped? c, codeLength? c with
        | some meant, _ => readQuoted style .text (meant :: taken) rest
        | none, some length => readQuoted style (.code length 0) taken rest
        | none, none =>
          if !style.lines then none
          else if isLineBlank c || c = '\r' then readQuoted style .lineEnd taken rest
          else if c = '\n' then readQuoted style .margin taken rest
          else none
      | .code left value =>
        match Json.hexValue? c with
        | none => none
        | some digit =>
          let value := value * 16 + digit
          if 1 < left then readQuoted style (.code (left - 1) value) taken rest
          else
            match charOfCode? value with
            | some meant => readQuoted style .text (meant :: taken) rest
            | none => none
      | .lineEnd =>
        if isLineBlank c || c = '\r' then readQuoted style .lineEnd taken rest
        else if c = '\n' then readQuoted style .margin taken rest
        else none
      | _ =>
        let inMargin := match place with
          | .margin => isLineBlank c || isBreak c
          | _ => false
        if inMargin then readQuoted style .margin taken rest
        else if c = style.quote then
          match closing? style (c :: rest) with
          | some (quotes, extra) =>
            some (String.ofList (List.replicate extra c ++ taken).reverse, (c :: rest).drop quotes)
          | none => readQuoted style .text (c :: taken) rest
        else if c = '\\' && style.escapes then readQuoted style .escape taken rest
        else if isTextChar c || isBreak c then readQuoted style .text (c :: taken) rest
        else none

def dropBreak : List Char → List Char
  | '\n' :: rest => rest
  | '\r' :: '\n' :: rest => rest
  | cs => cs

def readText (cs : List Char) : Option (String × List Char) :=
  match cs with
  | '"' :: '"' :: '"' :: rest => readQuoted .basicLines .text [] (dropBreak rest)
  | '\x27' :: '\x27' :: '\x27' :: rest => readQuoted .literalLines .text [] (dropBreak rest)
  | '"' :: rest => readQuoted .basic .text [] rest
  | '\x27' :: rest => readQuoted .literal .text [] rest
  | _ => none

/-! ## Writing -/

/-- The characters of a text that need an escape wherever they stand. -/
def needsEscape (c : Char) : Bool := (c.toNat < 0x20 && c != '\n') || c.toNat = 0x7F

/-- The length of the longest run of a character. -/
def longestRun (wanted : Char) (cs : List Char) : Nat :=
  (cs.foldl (fun (best, run) c =>
    let run := if c = wanted then run + 1 else 0
    (max best run, run)) (0, 0)).1

/-- The first style in which a text can be written as it is; escapes are the last resort. -/
def chooseStyle (cs : List Char) : QuoteStyle :=
  let controls := cs.any needsEscape
  let breaks := cs.contains '\n'
  let backslashes := cs.contains '\\'
  let double := longestRun '"' cs
  let single := longestRun '\x27' cs
  if !controls && !backslashes && !breaks && double = 0 then .basic
  else if !controls && !breaks && single = 0 then .literal
  else if !controls && !backslashes && double ≤ 2 then .basicLines
  else if !controls && single ≤ 2 then .literalLines
  else if breaks then .basicLines
  else .basic

def escapeChar (c : Char) : List Char :=
  match c with
  | '\\' => ['\\', '\\']
  | '\x08' => ['\\', 'b']
  | '\t' => ['\\', 't']
  | '\n' => ['\\', 'n']
  | '\x0c' => ['\\', 'f']
  | '\r' => ['\\', 'r']
  | _ =>
    if needsEscape c then
      ['\\', 'u', '0', '0', Json.hexDigit (c.toNat / 16), (Json.hexDigit c.toNat).toUpper]
    else [c]

/-- A text with escapes. Line breaks stand as they are in a text over several lines, and so do up
to two quotes in a row. -/
def escapeText (lines : Bool) : (run : Nat) → List Char → List Char
  | _, [] => []
  | run, c :: rest =>
    if c = '"' then
      if lines && run < 2 then c :: escapeText lines (run + 1) rest
      else '\\' :: c :: escapeText lines 0 rest
    else if c = '\n' && lines then c :: escapeText lines 0 rest
    else escapeChar c ++ escapeText lines 0 rest

def QuoteStyle.write (style : QuoteStyle) (cs : List Char) : String :=
  let quotes := String.ofList (List.replicate (if style.lines then 3 else 1) style.quote)
  let opening := if style.lines && cs.contains '\n' then quotes ++ "\n" else quotes
  opening ++ String.ofList (if style.escapes then escapeText style.lines 0 cs else cs) ++ quotes

def quoteText (text : String) : String := (chooseStyle text.toList).write text.toList

end ClassModel.Toml
