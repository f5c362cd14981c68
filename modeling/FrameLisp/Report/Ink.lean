/-!
# Styled text

Text for a terminal, with changes of style in between. Without colour only the text is left.
-/
namespace FrameLisp.Report

inductive Colour where
  | red | green | blue | magenta
  deriving DecidableEq

def Colour.code : Colour → Nat
  | .red => 1
  | .green => 2
  | .blue => 4
  | .magenta => 5

structure Style where
  bold : Bool
  intense : Bool
  colour : Option Colour
  deriving DecidableEq

/-- A piece of output. Each style replaces the one before it. -/
inductive Ink where
  | text (s : String)
  | style (s : Style)
  | reset
  deriving DecidableEq

namespace Ink

def escape (code : String) : String := "\x1b[" ++ code ++ "m"

def resetCode : String := escape "0"

/-- An intense colour is one of the second eight of the palette. -/
def styleCode (s : Style) : String :=
  resetCode ++ (if s.bold then escape "1" else "") ++
    match s.colour with
    | none => ""
    | some c =>
      if s.intense then escape ("38;5;" ++ toString (c.code + 8))
      else escape ("3" ++ toString c.code)

def render (colour : Bool) : Ink → String
  | .text s => s
  | .style s => if colour then styleCode s else ""
  | .reset => if colour then resetCode else ""

/-- The whole output, with escape sequences where colour is wanted. -/
def renderAll (colour : Bool) (inks : List Ink) : String :=
  inks.foldl (fun out ink => out ++ ink.render colour) ""

end Ink

end FrameLisp.Report
