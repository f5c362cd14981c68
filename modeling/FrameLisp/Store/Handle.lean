/-!
# Handles

A handle names a slot of an arena together with the generation in which the slot was filled. The
generation counts the removals from the slot and wraps around at `2 ^ 32`. The index is exact: it is
the one that is counted in 32 bits as long as there are fewer than `2 ^ 32` slots.
-/
namespace FrameLisp.Store

structure Handle where
  index : Nat
  generation : UInt32
  deriving DecidableEq

def Handle.text (h : Handle) : String := s!"#{h.index}@{h.generation}"

end FrameLisp.Store
