import FrameLisp.Datum.Basic

/-!
# The strings in a datum

No primitive makes a new string, so the strings that a program can hold are those in the data that
it was read from.
-/
namespace FrameLisp.Datum

def strings : Datum → List String
  | .string s => [s]
  | .pair _ head tail => head.strings ++ tail.strings
  | .quoted d => d.strings
  | _ => []

end FrameLisp.Datum
