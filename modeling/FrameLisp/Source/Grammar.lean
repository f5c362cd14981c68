import FrameLisp.Source.Reading

/-!
# The grammar of data

Which token sequences are forms, and what they denote, said without reading them. Comments are
left out beforehand.

    program = datum*
    datum   = atom | ' datum | ( datum* ) | ( datum+ . datum )
-/
namespace FrameLisp.Source

mutual

/-- The tokens of one datum. -/
inductive Derives : List Token → Datum → Prop
  | atom {token d} : Place.atom? token = some d → Derives [token] d
  | quote {tokens d} : Derives tokens d →
      Derives (.quote :: tokens) (.ofList [.symbol "quote", d])
  | list {tokens items} : DerivesAll tokens items →
      Derives (.leftParen :: tokens ++ [.rightParen]) (.ofList items)
  | dotted {tokens items tokens' tail} : DerivesAll tokens items → items ≠ [] →
      Derives tokens' tail →
      Derives (.leftParen :: tokens ++ .dot :: tokens' ++ [.rightParen]) (.ofChain items tail)

/-- The tokens of several data. -/
inductive DerivesAll : List Token → List Datum → Prop
  | nil : DerivesAll [] []
  | cons {tokens d tokens' ds} : Derives tokens d → DerivesAll tokens' ds →
      DerivesAll (tokens ++ tokens') (d :: ds)

end

/-- A beginning of the tokens of a program. -/
def Viable (tokens : List Token) : Prop := ∃ rest ds, DerivesAll (tokens ++ rest) ds

theorem DerivesAll.append {tokens tokens' : List Token} {ds ds' : List Datum}
    (h : DerivesAll tokens ds) (h' : DerivesAll tokens' ds') :
    DerivesAll (tokens ++ tokens') (ds ++ ds') := by
  match h with
  | .nil => exact h'
  | .cons hd hs =>
    rw [List.append_assoc]
    exact .cons hd (hs.append h')

end FrameLisp.Source
