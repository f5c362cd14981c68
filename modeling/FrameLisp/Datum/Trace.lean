import FrameLisp.Datum.Basic

/-!
# The frames that a datum refers to

A closure refers to the frame it was made in, and the constants in its body may hold closures of
their own. `trace` lists these handles in the order of the text, with repetitions.
-/
namespace FrameLisp

open Store

mutual

def Datum.trace (out : Array Handle) : Datum → Array Handle
  | .pair _ head tail => tail.trace (head.trace out)
  | .quoted d => d.trace out
  | .closure _ l frame => l.trace (out.push frame)
  | _ => out

def Lambda.trace (out : Array Handle) : Lambda → Array Handle
  | .mk _ _ body => body.trace out

def Code.trace (out : Array Handle) : Code → Array Handle
  | .constant d => d.trace out
  | .variable _ => out
  | .assignment _ value => value.trace out
  | .definition _ value => value.trace out
  | .conditional test consequent alternative =>
    alternative.trace (consequent.trace (test.trace out))
  | .lambda l => l.trace out
  | .sequence units => Code.traceAll out units
  | .application operator operands => Code.traceAll (operator.trace out) operands

def Code.traceAll (out : Array Handle) : List Code → Array Handle
  | [] => out
  | unit :: units => Code.traceAll (unit.trace out) units

end

/-- The handles in a list of data. -/
def Datum.traceAll (data : List Datum) : Array Handle :=
  data.foldl (fun out d => d.trace out) #[]

end FrameLisp
