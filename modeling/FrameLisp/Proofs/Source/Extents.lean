import FrameLisp.Proofs.Source.Built

/-!
# Where a form begins and ends

While a form is read, what is open says where the form began: at the outermost list or quote, or at
the datum itself where nothing is open. So its span reaches from the first token to the last one,
however many lists and quotes it consists of.
-/
namespace FrameLisp.Source

/-- Contexts that were opened one after the other, the outermost one at `first`, the others further
on, and all of them before an offset. Where there are none, the offset is `first` itself. -/
inductive OpenedFrom (first : Nat) : List Context → Nat → Prop
  | nil : OpenedFrom first [] first
  | quote {q within offset} : OpenedFrom first within q.start → q.start ≤ q.stop →
      q.stop ≤ offset → OpenedFrom first (.quote q :: within) offset
  | element {start read within offset} : OpenedFrom first within start → start ≤ offset →
      OpenedFrom first (.element start read :: within) offset
  | tail {start read within offset} : OpenedFrom first within start → start ≤ offset →
      OpenedFrom first (.tail start read :: within) offset

namespace Place

/-- Whether a form that begins at `first` has come to a place before an offset. -/
def OpenedFrom (first offset : Nat) : Place → Prop
  | .datum within => Source.OpenedFrom first within offset
  | .closing start _ _ within => Source.OpenedFrom first within start ∧ start ≤ offset

/-- Whether a step leads on in the form that begins at `first`, or ends it at `stop`. -/
def Step.Spans (first stop : Nat) : Step → Prop
  | .more place => ∀ offset, stop ≤ offset → place.OpenedFrom first offset
  | .form span _ => span = ⟨first, stop⟩

end Place

variable {first : Nat} {within : List Context} {place : Place} {step : Place.Step} {l : Lexeme}

theorem OpenedFrom.finish (span : Span) (h : OpenedFrom first within span.start)
    (hle : span.start ≤ span.stop) (d : Datum) :
    (Place.finish span d within).Spans first span.stop := by
  induction within generalizing span d with
  | nil =>
    cases h
    rfl
  | cons context within ih =>
    cases h with
    | @quote q _ _ h hq hstop =>
      have hmerge : q.merge span = ⟨q.start, span.stop⟩ := by
        rw [Span.merge, Nat.min_eq_left (by omega), Nat.max_eq_right (by omega)]
      have hspan : q.start ≤ span.stop := by omega
      rw [Place.finish, hmerge]
      exact ih ⟨q.start, span.stop⟩ h hspan _
    | element h hstart => exact fun offset hoffset => .element h (by omega)
    | tail h hstart => exact fun offset hoffset => ⟨h, by omega⟩

/-- What one token does to the form that it belongs to. -/
theorem Place.OpenedFrom.take (h : place.OpenedFrom first l.span.start)
    (hle : l.span.start ≤ l.span.stop) (htake : place.take l = .ok step) :
    step.Spans first l.span.stop := by
  fun_cases Place.take l place with
  | case1 start read tail within hparen =>
    simp only [Place.take, hparen, if_true, Except.ok.injEq] at htake
    obtain ⟨hwithin, hstart⟩ := h
    have hspan : start ≤ l.span.stop := by omega
    exact htake ▸ OpenedFrom.finish ⟨start, l.span.stop⟩ hwithin hspan _
  | case2 start read tail within hparen => simp [Place.take, hparen] at htake
  | case3 within hparen =>
    simp only [Place.take, hparen, Except.ok.injEq] at htake
    subst htake
    exact fun offset hoffset => .element h (by omega)
  | case4 within hquote =>
    simp only [Place.take, hquote, Except.ok.injEq] at htake
    subst htake
    exact fun offset hoffset => .quote h hle hoffset
  | case5 start read within hparen =>
    simp only [Place.take, hparen, Except.ok.injEq] at htake
    cases h with
    | element hwithin hstart =>
      have hspan : start ≤ l.span.stop := by omega
      exact htake ▸ OpenedFrom.finish ⟨start, l.span.stop⟩ hwithin hspan _
  | case6 within hparen hnot => simp [Place.take, hparen] at htake
  | case7 start d read within hdot =>
    simp only [Place.take, hdot, Except.ok.injEq] at htake
    subst htake
    cases h with
    | element hwithin hstart => exact fun offset hoffset => .tail hwithin (by omega)
  | case8 within hdot hnot => simp [Place.take, hdot] at htake
  | case9 within d _ _ _ _ _ _ hatom =>
    simp only [Place.take, hatom, Except.ok.injEq] at htake
    exact htake ▸ OpenedFrom.finish l.span h hle d
  | case10 within _ _ _ _ _ _ hatom => simp [Place.take, hatom] at htake

/-- Where nothing is open there is one place only at which a form begins. -/
theorem Place.OpenedFrom.ne_top {offset : Nat}
    (h : ∀ k, offset ≤ k → place.OpenedFrom first k) : place ≠ .top := by
  rintro rfl
  have hfirst : ∀ k, offset ≤ k → k = first := fun k hk => by
    cases h k hk
    rfl
  have hle := hfirst offset (Nat.le_refl _)
  have hlt := hfirst (offset + 1) (Nat.le_succ _)
  omega

end FrameLisp.Source
