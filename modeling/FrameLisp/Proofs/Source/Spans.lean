import FrameLisp.Proofs.Source.Chunks
import FrameLisp.Proofs.Source.Counting
import FrameLisp.Proofs.Source.Extents
import FrameLisp.Proofs.Source.Truncation

/-!
# Spans identify forms

The span of a form reaches from the first character of its first token to the last one of its last
token, however many lists and quotes it consists of. Under the span stands the form and nothing
else: that text alone is read as this one form. Outside of the spans of forms and comments stands
white space. All this is so as long as the offsets fit in 32 bits.

While a form is read, what is open says where the form began. So a reading either stands between
forms, where all that was passed is accounted for, or in a form that begins at a known place and
whose tokens are known.
-/
namespace FrameLisp.Source

section Cursors

/-- Whether a cursor stands somewhere in some characters, with its offset. -/
def Cursor.In (cs : List Char) (c : Cursor) : Prop :=
  ∃ front, cs = front ++ c.rest ∧ c.offset = width front

/-- Whether one of some spans covers an offset. -/
def Covers (spans : List Span) (offset : Nat) : Prop :=
  ∃ span ∈ spans, span.start ≤ offset ∧ offset < span.stop

theorem Covers.mono {spans spans' : List Span} {offset : Nat} (h : Covers spans offset)
    (hsub : spans ⊆ spans') : Covers spans' offset := by
  obtain ⟨span, hspan, hcovers⟩ := h
  exact ⟨span, hsub hspan, hcovers⟩

/-- The character at an offset within a stretch belongs to that stretch. -/
theorem mem_of_width {front gap rest front' back : List Char} {ch : Char}
    (h : front ++ (gap ++ rest) = front' ++ ch :: back) (hle : width front ≤ width front')
    (hlt : width front' < width front + width gap) : ch ∈ gap := by
  have hpositive := ch.utf8Size_pos
  rcases List.append_eq_append_iff.1 h with ⟨inner, rfl, hinner⟩ | ⟨inner, rfl, hinner⟩
  · rw [width_append] at hlt
    rcases List.append_eq_append_iff.1 hinner with ⟨outer, rfl, houter⟩ | ⟨outer, rfl, houter⟩
    · rw [width_append] at hlt
      omega
    · cases outer with
      | nil => simp at hlt
      | cons x outer =>
        obtain ⟨rfl, -⟩ := List.cons.inj houter
        simp
  · cases inner with
    | nil =>
      cases gap with
      | nil => simp at hlt
      | cons x gap =>
        obtain ⟨rfl, -⟩ := List.cons.inj hinner
        exact List.mem_cons_self
    | cons x inner =>
      obtain ⟨rfl, -⟩ := List.cons.inj hinner
      rw [width_append, width_cons] at hle
      omega

namespace Cursor

variable {cs : List Char} {c c' : Cursor}

theorem In.of_bound (h : c.In cs) (hrest : c'.rest <:+ c.rest) (hbound : c'.bound = c.bound) :
    c'.In cs := by
  obtain ⟨front, rfl, hoffset⟩ := h
  obtain ⟨passed, hpassed⟩ := hrest
  refine ⟨front ++ passed, by rw [List.append_assoc, hpassed], ?_⟩
  rw [bound, bound, ← hpassed, width_append] at hbound
  rw [width_append]
  omega

theorem In.scan (h : c.In cs) : c.scan.2.In cs := h.of_bound (scan_rest_suffix c) (bound_scan c)

theorem In.skip (h : c.In cs) : (c.skip Text.isBlank).In cs :=
  h.of_bound (skip_rest_suffix _ c) (bound_skip _ c)

theorem scan_offset_le (c : Cursor) : c.offset ≤ c.scan.2.offset := by
  obtain ⟨passed, hpassed⟩ := scan_rest_suffix c
  have hbound := bound_scan c
  rw [bound, bound, ← hpassed, width_append] at hbound
  omega

theorem Reaches.offset_le {row : List Item} (h : c.Reaches row c') : c.offset ≤ c'.offset := by
  induction h with
  | refl c => exact Nat.le_refl _
  | scan _ _ ih => exact (scan_offset_le _).trans ih

/-- A token reaches from behind the white space before it as far as the scan. -/
theorem span_of_scan {l : Lexeme} (h : c.scan.1 = .ok l) :
    l.span = ⟨(c.skip Text.isBlank).offset, c.scan.2.offset⟩ := by
  obtain ⟨hstop, hstart | ⟨lead, ch, -, hfault, -⟩⟩ := span_scanToken (c.skip Text.isBlank)
  · have hspan : c.scan.1.span = l.span := by rw [h]; rfl
    rw [← hspan]
    exact congrArg₂ Span.mk hstart hstop
  · exact absurd (h.symm.trans hfault) (by simp)

end Cursor

end Cursors

section Standing

/-- Whether under the span of a form stands a text that is this form on its own. -/
def Form.StandsIn (cs : List Char) (f : Form) : Prop :=
  ∃ front text back comments, cs = front ++ text ++ back ∧
    f.span = ⟨width front, width front + width text⟩ ∧
    Program.ofChars text = .ok ⟨[⟨⟨0, width text⟩, f.datum⟩], comments⟩

namespace Form.StandsIn

variable {s : String} {f : Form}

theorem bounded (h : f.StandsIn s.toList) : f.span.start < f.span.stop ∧
    IsBoundary s f.span.start ∧ IsBoundary s f.span.stop := by
  obtain ⟨front, text, back, comments, hs, hspan, halone⟩ := h
  have hne : text ≠ [] := by
    rintro rfl
    simp [Program.ofChars_nil] at halone
  obtain ⟨ch, text, rfl⟩ := List.exists_cons_of_ne_nil hne
  have hpositive : 0 < width (ch :: text) := Nat.add_pos_left ch.utf8Size_pos _
  rw [hspan, ← width_append]
  refine ⟨?_, isBoundary_of_toList (hs.trans (List.append_assoc _ _ _)), isBoundary_of_toList hs⟩
  exact width_append front _ ▸ Nat.lt_add_of_pos_right hpositive

theorem alone (hs : s.utf8ByteSize < 2 ^ 32) (h : f.StandsIn s.toList) : ∃ comments,
    Window.program (slice s f.span.start f.span.stop) =
      .ok ⟨[⟨⟨0, (slice s f.span.start f.span.stop).utf8ByteSize⟩, f.datum⟩], comments⟩ := by
  obtain ⟨front, text, back, comments, htext, hspan, halone⟩ := h
  have hslice : slice s f.span.start f.span.stop = String.ofList text := by
    rw [hspan]
    exact slice_of_toList htext
  have hwidth : width text < 2 ^ 32 := by
    rw [utf8ByteSize_eq_width, htext] at hs
    simp only [width_append] at hs
    omega
  refine ⟨comments, ?_⟩
  rw [hslice, utf8ByteSize_eq_width, String.toList_ofList, Window.program_ofList hwidth]
  exact halone

end Form.StandsIn

namespace Reading

/-- Where the forms and the comments of a reading stand. -/
def spans (r : Reading) : List Span := r.forms.toList.map Form.span ++ r.comments.toList

/-- A reading between forms has accounted for all that stands before the cursor. -/
structure Settled (cs : List Char) (r : Reading) (c : Cursor) : Prop where
  top : r.place = .top
  within : c.In cs
  forms : ∀ f ∈ r.forms.toList, f.StandsIn cs ∧ f.span.stop ≤ c.offset
  ordered : (r.forms.toList.map Form.span).Pairwise fun a b => a.stop ≤ b.start
  between : ∀ front ch back, cs = front ++ ch :: back → width front < c.offset →
    Text.isBlank ch = true ∨ Covers r.spans (width front)

/-- A reading that came by some items since a form began. -/
structure Underway (cs : List Char) (base : Reading) (begun : Cursor) (row : List Item)
    (r : Reading) (c : Cursor) : Prop where
  settled : base.Settled cs begun
  reaches : begun.Reaches row c
  read : base.read row = .ok r
  forms : r.forms = base.forms
  comments : base.comments.toList ⊆ r.comments.toList

variable {cs : List Char} {r r' base : Reading} {c begun : Cursor} {row : List Item}

namespace Settled

theorem skip (h : r.Settled cs c) : r.Settled cs (c.skip Text.isBlank) := by
  have hoffset : (c.skip Text.isBlank).offset =
      c.offset + width (c.rest.takeWhile Text.isBlank) := by rw [Cursor.skip_eq]
  refine ⟨h.top, h.within.skip, fun f hf => ⟨(h.forms f hf).1, ?_⟩, h.ordered, ?_⟩
  · have hstop := (h.forms f hf).2
    omega
  · intro front ch back hcs hlt
    by_cases hbefore : width front < c.offset
    · exact h.between front ch back hcs hbefore
    · obtain ⟨front', hcs', hfront'⟩ := h.within
      rw [← List.takeWhile_append_dropWhile (p := Text.isBlank) (l := c.rest)] at hcs'
      have hch := mem_of_width (hcs'.symm.trans hcs) (by omega) (by omega)
      exact .inl (List.mem_takeWhile_imp hch)

/-- What is passed after all was accounted for is covered by one more span. -/
theorem between_of_span (h : base.Settled cs begun) {spans : List Span} {stop : Nat}
    (hsub : base.spans ⊆ spans) (hmem : ⟨begun.offset, stop⟩ ∈ spans) {front back : List Char}
    {ch : Char} (hcs : cs = front ++ ch :: back) (hlt : width front < stop) :
    Text.isBlank ch = true ∨ Covers spans (width front) := by
  by_cases hbefore : width front < begun.offset
  · exact (h.between front ch back hcs hbefore).imp_right fun hcovers => hcovers.mono hsub
  · exact .inr ⟨_, hmem, Nat.le_of_not_lt hbefore, hlt⟩

theorem comment (h : r.Settled cs c) {span : Span} (hscan : c.scan.1 = .ok ⟨.comment, span⟩) :
    Settled cs { r with comments := r.comments.push span } c.scan.2 := by
  have hskip := h.skip
  have hspan := Cursor.span_of_scan hscan
  have hle := Cursor.scan_offset_le c
  refine ⟨h.top, h.within.scan, fun f hf => ⟨(h.forms f hf).1, ?_⟩, h.ordered, ?_⟩
  · exact (h.forms f hf).2.trans hle
  · intro front ch back hcs hlt
    refine hskip.between_of_span ?_ ?_ hcs hlt
    · simp only [spans, Array.toList_push]
      rw [← List.append_assoc]
      exact List.subset_append_left _ _
    · simp [spans, ← hspan]

theorem underway (h : r.Settled cs c) :
    Underway cs r (c.skip Text.isBlank) [] r (c.skip Text.isBlank) where
  settled := h.skip
  reaches := .refl _
  read := read_nil r
  forms := rfl
  comments := List.Subset.refl _

end Settled

/-- At the place of a form that was read from its own tokens stands that form alone. -/
theorem standsIn_of_read {f : Form} (hbase : base.place = .top) (hbegun : begun.In cs)
    (hreaches : begun.Reaches row c) (hread : base.read row = .ok r) (htop : r.place = .top)
    (hforms : r.forms = base.forms.push f) (hspan : f.span = ⟨begun.offset, c.offset⟩) :
    f.StandsIn cs := by
  obtain ⟨front, hcs, hfront⟩ := hbegun
  obtain ⟨text, htext⟩ := hreaches.rest_suffix
  have hstop : c.offset = begun.offset + width text := by
    have hbound := hreaches.bound
    rw [Cursor.bound, Cursor.bound, ← htext, width_append] at hbound
    omega
  have hlong : (Cursor.mk begun.offset text).append c.rest = begun := by
    rw [Cursor.append, htext]
  have hcut : (Cursor.mk begun.offset text).Reaches row ⟨c.offset, []⟩ :=
    Cursor.Reaches.of_append (by rwa [hlong]) (isOk_of_read_eq_ok hread) (List.nil_append _).symm
  have hend : (Cursor.mk c.offset []).items = [.ok ⟨.endOfInput, .point c.offset⟩] :=
    Cursor.items_of_isEnd rfl
  have hmoved : Cursor.mk begun.offset text = (Cursor.mk 0 text).shift begun.offset := by
    rw [Cursor.shift, Nat.zero_add]
  have hbehind : base = Reading.start.behind base.toProgram begun.offset := by
    obtain ⟨place, forms, comments⟩ := base
    obtain rfl : place = .top := hbase
    simp [behind, start, toProgram, Place.top, Place.shift]
  have hall : base.read (Cursor.mk begun.offset text).items = .ok r := by
    rw [hcut.items, hend, read_append_of_ok hread, read_cons, step_end, ending_of_top htop]
    rfl
  rw [hmoved, Cursor.items_shift, hbehind, read_behind] at hall
  cases halone : Reading.start.read (Cursor.mk 0 text).items with
  | error e => simp [halone, Except.map, Except.mapError] at hall
  | ok r₀ =>
    obtain rfl : r₀.behind base.toProgram begun.offset = r := by
      simpa [halone, Except.map, Except.mapError] using hall
    have hsingle : r₀.forms.toList.map (Form.shift begun.offset) = [f] := by
      simpa [behind, toProgram] using congrArg Array.toList hforms
    obtain ⟨f₀, hf₀, rfl⟩ := List.map_eq_singleton_iff.1 hsingle
    obtain ⟨⟨k, stop⟩, d⟩ := f₀
    simp only [Form.shift, Span.shift, Span.mk.injEq] at hspan
    obtain ⟨rfl, rfl⟩ : k = 0 ∧ stop = width text := by omega
    refine ⟨front, text, c.rest, r₀.comments.toList, ?_, ?_, ?_⟩
    · rw [List.append_assoc, htext, hcs]
    · simp [Form.shift, Span.shift, hfront, Nat.add_comm]
    · rw [Program.ofChars, Program.ofCursor_eq, halone]
      simp [Except.map, toProgram, hf₀, Form.shift]

namespace Underway

theorem next (h : Underway cs base begun row r c) (hend : ¬c.scan.1.isEnd = true)
    (hstep : r.step c.scan.1 = .ok r') (hforms : r'.forms = r.forms)
    (hcomments : r.comments.toList ⊆ r'.comments.toList) :
    Underway cs base begun (row ++ [c.scan.1]) r' c.scan.2 where
  settled := h.settled
  reaches := h.reaches.snoc hend
  read := by
    rw [read_append_of_ok h.read, read_cons, hstep]
    rfl
  forms := hforms.trans h.forms
  comments := List.Subset.trans h.comments hcomments

/-- The last token of a form. -/
theorem form (h : Underway cs base begun row r c) (hend : ¬c.scan.1.isEnd = true)
    {span : Span} {d : Datum} (hstep : r.step c.scan.1 = .ok (r.settle (.form span d)))
    (hspan : span = ⟨begun.offset, c.scan.2.offset⟩) :
    (r.settle (.form span d)).Settled cs c.scan.2 := by
  have hreaches := h.reaches.snoc hend
  have hread : base.read (row ++ [c.scan.1]) = .ok (r.settle (.form span d)) := by
    rw [read_append_of_ok h.read, read_cons, hstep]
    rfl
  have hforms : (r.settle (.form span d)).forms = base.forms.push ⟨span, d⟩ := by
    rw [← h.forms]
    rfl
  have hstands : Form.StandsIn cs ⟨span, d⟩ :=
    standsIn_of_read h.settled.top h.settled.within hreaches hread rfl hforms hspan
  have hbegun : begun.offset ≤ c.scan.2.offset := hreaches.offset_le
  refine ⟨rfl, ?_, ?_, ?_, ?_⟩
  · exact h.settled.within.of_bound hreaches.rest_suffix hreaches.bound
  · rw [hforms]
    intro f hf
    rw [Array.toList_push, List.mem_append, List.mem_singleton] at hf
    rcases hf with hf | rfl
    · exact ⟨(h.settled.forms f hf).1, (h.settled.forms f hf).2.trans hbegun⟩
    · exact ⟨hstands, by rw [hspan]⟩
  · rw [hforms, Array.toList_push, List.map_append, List.pairwise_append]
    refine ⟨h.settled.ordered, List.pairwise_singleton _ _, ?_⟩
    intro a ha b hb
    obtain ⟨f, hf, rfl⟩ := List.mem_map.1 ha
    obtain rfl : b = span := by simpa using hb
    rw [hspan]
    exact (h.settled.forms f hf).2
  · intro front ch back hcs hlt
    refine h.settled.between_of_span ?_ ?_ hcs hlt
    · refine List.append_subset.2 ⟨?_, ?_⟩
      · simp [spans, hforms]
      · exact List.Subset.trans h.comments (List.subset_append_right _ _)
    · simp [spans, hforms, ← hspan]

end Underway

/-- Whether a reading has accounted for what stands before the cursor, or has done so up to the
form that it is in. -/
inductive Accounts (cs : List Char) (r : Reading) (c : Cursor) : Prop
  | settled (h : r.Settled cs c)
  | underway {base : Reading} {begun : Cursor} {row : List Item}
      (h : Underway cs base begun row r c)
      (hplace : ∀ offset, c.offset ≤ offset → r.place.OpenedFrom begun.offset offset)

theorem Underway.token {l : Lexeme} (h : Underway cs base begun row r c)
    (hscan : c.scan.1 = .ok l) (hend : ¬c.scan.1.isEnd = true) (hcomment : l.token ≠ .comment)
    (hopen : r.place.OpenedFrom begun.offset l.span.start) (hstep : r.step c.scan.1 = .ok r') :
    r'.Accounts cs c.scan.2 := by
  have hspan := Cursor.span_of_scan hscan
  have hend' : l.token ≠ .endOfInput := by simpa [hscan, Item.isEnd] using hend
  have hle : l.span.start ≤ l.span.stop := by
    rw [hspan, ← Cursor.scan_skip]
    exact Cursor.scan_offset_le _
  have htake := hstep
  rw [hscan, step_ok hcomment hend'] at htake
  cases hplace : r.place.take l with
  | error e => simp [hplace, Except.map] at htake
  | ok step =>
    obtain rfl : r.settle step = r' := by simpa [hplace, Except.map] using htake
    have hspans := hopen.take hle hplace
    rw [hspan] at hspans
    cases step with
    | more place => exact .underway (h.next hend hstep rfl (List.Subset.refl _)) hspans
    | form span d => exact .settled (h.form hend hstep hspans)

theorem Accounts.step (h : r.Accounts cs c) (hend : ¬c.scan.1.isEnd = true)
    (hstep : r.step c.scan.1 = .ok r') : r'.Accounts cs c.scan.2 := by
  cases hscan : c.scan.1 with
  | error e => simp [hscan, Reading.step, advance] at hstep
  | ok l =>
    have hspan := Cursor.span_of_scan hscan
    by_cases hcomment : l.token = .comment
    · obtain ⟨token, span⟩ := l
      obtain rfl : token = .comment := hcomment
      obtain rfl : { r with comments := r.comments.push span } = r' := by
        simpa [hscan, Reading.step, advance] using hstep
      cases h with
      | settled h => exact .settled (h.comment hscan)
      | underway h hplace =>
        refine .underway (h.next hend hstep rfl (by simp)) fun offset hoffset => ?_
        exact hplace offset ((Cursor.scan_offset_le c).trans hoffset)
    · cases h with
      | settled h =>
        have hskip := Cursor.scan_skip c
        have hopen : r.place.OpenedFrom (c.skip Text.isBlank).offset l.span.start := by
          rw [h.top, hspan]
          exact .nil
        have haccounts := h.underway.token (by rw [hskip, hscan]) (by rwa [hskip]) hcomment hopen
          (by rwa [hskip])
        rwa [hskip] at haccounts
      | underway h hplace =>
        refine h.token hscan hend hcomment (hplace _ ?_) hstep
        rw [hspan, Cursor.skip_eq]
        exact Nat.le_add_right _ _

theorem Accounts.read (h : r.Accounts cs c) {c' : Cursor} (hreaches : c.Reaches row c')
    (hread : r.read row = .ok r') : r'.Accounts cs c' := by
  induction hreaches generalizing r with
  | refl c => exact Except.ok.inj hread ▸ h
  | @scan c _ _ hend _ ih =>
    rw [read_cons] at hread
    cases hstep : r.step c.scan.1 with
    | error e => simp [hstep, Except.bind] at hread
    | ok r₁ =>
      rw [hstep] at hread
      exact ih (h.step hend hstep) hread

theorem Accounts.settled_of_top (h : r.Accounts cs c) (htop : r.place = .top) : r.Settled cs c := by
  cases h with
  | settled h => exact h
  | underway _ hplace => exact absurd htop (Place.OpenedFrom.ne_top hplace)

theorem settled_start (cs : List Char) : start.Settled cs ⟨0, cs⟩ where
  top := rfl
  within := ⟨[], rfl, rfl⟩
  forms := by simp [start]
  ordered := .nil
  between _ _ _ _ hlt := absurd hlt (Nat.not_lt_zero _)

end Reading

end Standing

section Comments

/-- The span of a comment. -/
def Item.comment? : Item → Option Span
  | .ok ⟨.comment, span⟩ => some span
  | _ => none

namespace Reading

variable {r r' : Reading}

theorem comments_settle (r : Reading) (step : Place.Step) :
    (r.settle step).comments = r.comments := by
  cases step <;> rfl

theorem comments_of_step {item : Item} (h : r.step item = .ok r') :
    r'.comments.toList = r.comments.toList ++ item.comment?.toList := by
  cases item with
  | error e => simp [step, advance] at h
  | ok l =>
    obtain ⟨token, span⟩ := l
    by_cases hcomment : token = .comment
    · subst hcomment
      obtain rfl : { r with comments := r.comments.push span } = r' := by
        simpa [step, advance] using h
      simp [Item.comment?]
    · have hnone : Item.comment? (.ok ⟨token, span⟩) = none := by
        rw [Item.comment?]
        rintro _ ⟨⟩
        exact hcomment rfl
      have hsame : r'.comments = r.comments := by
        by_cases hend : token = .endOfInput
        · subst hend
          rw [step_end, ending] at h
          split at h
          · rw [← Except.ok.inj h]
          · cases h
        · rw [step_ok hcomment hend] at h
          cases htake : r.place.take ⟨token, span⟩ with
          | error e => simp [htake, Except.map] at h
          | ok step =>
            obtain rfl : r.settle step = r' := by simpa [htake, Except.map] using h
            exact comments_settle r step
      simp [hnone, hsame]

theorem comments_of_read {items : List Item} (h : r.read items = .ok r') :
    r'.comments.toList = r.comments.toList ++ items.filterMap Item.comment? := by
  induction items generalizing r with
  | nil =>
    obtain rfl := Except.ok.inj h
    simp
  | cons item items ih =>
    rw [read_cons] at h
    cases hstep : r.step item with
    | error e => simp [hstep, Except.bind] at h
    | ok r₁ =>
      rw [hstep] at h
      rw [ih h, comments_of_step hstep, List.filterMap_cons]
      cases item.comment? <;> simp

end Reading

end Comments

namespace Program

/-- How the forms and the comments of a program stand in its text, where it and its slices are read
with offsets of 32 bits. -/
structure StandsIn (s : String) (p : Program) : Prop where
  paired : (p.forms.map Form.span).length = p.data.length
  ordered : (p.forms.map Form.span).Pairwise fun a b => a.stop ≤ b.start
  bounded : ∀ f ∈ p.forms, f.span.start < f.span.stop ∧
    IsBoundary s f.span.start ∧ IsBoundary s f.span.stop
  /-- The slice under a form is this form, from its first character to its last. -/
  alone : ∀ f ∈ p.forms, ∃ comments, Window.program (slice s f.span.start f.span.stop) =
    .ok ⟨[⟨⟨0, (slice s f.span.start f.span.stop).utf8ByteSize⟩, f.datum⟩], comments⟩
  /-- Every character is white space, or stands in a form or in a comment. -/
  between : ∀ front ch back, s.toList = front ++ ch :: back →
    Text.isBlank ch = true ∨ Covers (p.forms.map Form.span ++ p.comments) (width front)
  /-- The comments are those of the text, inside forms and outside. -/
  comments : p.comments = (Window.items s).filterMap Item.comment?

theorem standsIn {s : String} {p : Program} (hs : s.utf8ByteSize < 2 ^ 32)
    (h : Window.program s = .ok p) : p.StandsIn s := by
  rw [Window.program_eq hs] at h
  obtain ⟨row, span, r, hitems, hread, htop, rfl⟩ := exists_of_ofCursor_eq_ok h
  obtain ⟨c, hreaches, hback⟩ :=
    Cursor.exists_reaches hitems (Cursor.not_isEnd_of_items_eq hitems)
  have hend : c.scan.1.isEnd = true := Cursor.isEnd_of_items_eq_singleton hback
  have haccounts : r.Accounts s.toList c :=
    (Reading.Accounts.settled (Reading.settled_start _)).read hreaches hread
  have hsettled := haccounts.settled_of_top htop
  refine ⟨by simp [data], hsettled.ordered, fun f hf => ?_, fun f hf => ?_, ?_, ?_⟩
  · exact (hsettled.forms f hf).1.bounded
  · exact (hsettled.forms f hf).1.alone hs
  · intro front ch back htext
    by_cases hbefore : width front < c.offset
    · exact hsettled.between front ch back htext hbefore
    · obtain ⟨front', htext', hfront'⟩ := hsettled.within
      have hlt : width front < width front' + width c.rest := by
        have hpositive := ch.utf8Size_pos
        have hwidth := congrArg width (htext.symm.trans htext')
        rw [width_append, width_append, width_cons] at hwidth
        omega
      have hsplit : front' ++ (c.rest ++ []) = front ++ ch :: back := by
        rw [List.append_nil, ← htext', htext]
      have hch : ch ∈ c.rest := mem_of_width hsplit (hfront'.ge.trans (Nat.le_of_not_lt hbefore))
        hlt
      exact .inl (Cursor.all_isBlank_of_isEnd hend ch hch)
  · have hcomments := Reading.comments_of_read hread
    have hlast : [Except.ok ⟨.endOfInput, span⟩].filterMap Item.comment? = [] := rfl
    rw [Window.items_eq hs, Cursor.ofString, hitems, List.filterMap_append, hlast,
      List.append_nil]
    simpa [Reading.start, Reading.toProgram] using hcomments

/-- Two quotes before a list with a dotted tail, in which comments hide parentheses. -/
def nested : String := "''(é . ; (\n \"ü\" ;)\n) ;'\nx ; y"

def nestedProgram : Program where
  forms := [
    ⟨⟨0, 22⟩, .ofList [.symbol "quote", .ofList [.symbol "quote",
      .ofChain [.symbol "é"] (.string "ü")]]⟩,
    ⟨⟨26, 27⟩, .symbol "x"⟩]
  comments := [⟨8, 11⟩, ⟨18, 20⟩, ⟨23, 25⟩, ⟨28, 31⟩]

theorem standsIn_nested : nested.utf8ByteSize < 2 ^ 32 ∧
    Window.program nested = .ok nestedProgram ∧ nestedProgram.StandsIn nested := by
  have hs : nested.utf8ByteSize < 2 ^ 32 := by decide
  have h : Window.program nested = .ok nestedProgram := by
    rw [Window.program_eq hs]
    with_unfolding_all rfl
  exact ⟨hs, h, standsIn hs h⟩

/-- Behind `2 ^ 32` blanks the span of a form is that of the first blank. -/
theorem not_standsIn_of_wide :
    ¬∀ (s : String) (p : Program), Window.program s = .ok p → p.StandsIn s := by
  intro h
  have hspan : Span.counted ⟨2 ^ 32, 2 ^ 32 + 1⟩ = ⟨0, 1⟩ := by decide
  have hwide := Window.program_nameBehind (2 ^ 32)
  rw [hspan] at hwide
  obtain ⟨comments, halone⟩ := (h _ _ hwide).alone _ List.mem_cons_self
  have hslice := Window.slice_nameBehind (n := 2 ^ 32) (by decide)
  have hblank : Window.program " " = .ok ⟨[], []⟩ := by
    rw [Window.program_eq (by decide)]
    refine ofChars_blank (List.forall_mem_singleton.2 ?_)
    decide
  rw [hslice, hblank] at halone
  cases halone

end Program

end FrameLisp.Source
