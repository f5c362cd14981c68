/-!
# Spans

A span is a stretch of a source text between two byte offsets.

Offsets are natural numbers. Where they are counted in 32 bits, they are these numbers modulo
`2 ^ 32`, so the same in a text of fewer than `2 ^ 32` bytes; beyond that a span with such offsets
does not say where it stands.
-/
namespace FrameLisp.Source

structure Span where
  start : Nat
  stop : Nat
  deriving DecidableEq

namespace Span

/-- The empty span at an offset. -/
def point (offset : Nat) : Span := ⟨offset, offset⟩

/-- The least span that holds both. -/
def merge (a b : Span) : Span := ⟨min a.start b.start, max a.stop b.stop⟩

def text (s : Span) : String := s!"{s.start}..{s.stop}"

end Span

end FrameLisp.Source
