/-! Lines of styled text.

A part of a line has a style and a least width, up to which it is filled with blanks. In color a
style stands before the part and the filling, and a reset behind them; a reset inside the part has
the style after it.
-/

set_option autoImplicit false

namespace ClassModel.CommandLine

inductive Ink where
  | red
  | yellow
  | cyan
  | brightGreen
  deriving DecidableEq, Repr

def Ink.code : Ink → String
  | .red => "31"
  | .yellow => "33"
  | .cyan => "36"
  | .brightGreen => "92"

structure Style where
  bold : Bool := false
  dimmed : Bool := false
  ink : Option Ink := none

namespace Style

def codes (style : Style) : List String :=
  (if style.bold then ["1"] else []) ++ (if style.dimmed then ["2"] else []) ++
    (style.ink.map Ink.code).toList

def reset : String := "\x1b[0m"

def opening (style : Style) : String := "\x1b[" ++ ";".intercalate style.codes ++ "m"

end Style

structure Span where
  text : String
  style : Style := {}
  width : Nat := 0

namespace Span

def padded (text : String) (width : Nat) : String :=
  text ++ String.ofList (List.replicate (width - text.length) ' ')

def render (color : Bool) (span : Span) : String :=
  if color && !span.style.codes.isEmpty then
    let opening := span.style.opening
    opening ++ padded (span.text.replace Style.reset (Style.reset ++ opening)) span.width ++
      Style.reset
  else padded span.text span.width

def plain (text : String) : Span := { text }
def bold (text : String) : Span := { text, style := { bold := true } }
def dimmed (text : String) : Span := { text, style := { dimmed := true } }
def inked (ink : Ink) (text : String) : Span := { text, style := { ink := some ink } }

/-- The headline of a part of a report, or the name that a report is about. -/
def titled (ink : Ink) (text : String) : Span := { text, style := { bold := true, ink := some ink } }

/-- The same part at least so wide. -/
def wide (width : Nat) (span : Span) : Span := { span with width }

end Span

abbrev Line := List Span

def Line.render (color : Bool) (line : Line) : String :=
  String.join (line.map (Span.render color)) ++ "\n"

def Line.empty : Line := []

def renderLines (color : Bool) (lines : List Line) : String :=
  String.join (lines.map (Line.render color))

end ClassModel.CommandLine
