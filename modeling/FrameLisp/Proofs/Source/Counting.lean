import FrameLisp.Proofs.Outcomes
import FrameLisp.Proofs.Source.Derivation
import FrameLisp.Proofs.Source.Lossless

/-!
# Programs with offsets of 32 bits

Through a window a text has the same items, with offsets of 32 bits, and a program is read from
these. Reading never looks at offsets, so the forms and the error are the same but for theirs. Up to
`2 ^ 32` bytes all offsets are exact. Behind them they begin anew, so that the span of a form no
longer says where it stands.
-/
namespace FrameLisp.Source

section Offsets

def SyntaxFault.counted : SyntaxFault → SyntaxFault
  | .lexical e => .lexical e.counted
  | fault => fault

/-- The error with its offsets counted in 32 bits. -/
def SyntaxError.counted (e : SyntaxError) : SyntaxError := ⟨e.fault.counted, e.span.counted⟩

/-- Whether two outcomes are related as given, or the second is the error of the first with offsets
of 32 bits. -/
def Counts {α β : Type} (r : α → β → Prop) : Except SyntaxError α → Except SyntaxError β → Prop :=
  Parallel (fun e e' => e' = e.counted) r

/-- Whether two contexts differ in offsets alone. -/
inductive Context.Alike : Context → Context → Prop
  | quote (span span' : Span) : Alike (.quote span) (.quote span')
  | element (start start' : Nat) (read : List Datum) :
      Alike (.element start read) (.element start' read)
  | tail (start start' : Nat) (read : List Datum) : Alike (.tail start read) (.tail start' read)

namespace Place

/-- Whether two places differ in offsets alone. -/
inductive Alike : Place → Place → Prop
  | datum {within within' : List Context} (h : List.Forall₂ Context.Alike within within') :
      Alike (.datum within) (.datum within')
  | closing (start start' : Nat) (read : List Datum) (tail : Datum)
      {within within' : List Context} (h : List.Forall₂ Context.Alike within within') :
      Alike (.closing start read tail within) (.closing start' read tail within')

/-- Whether two steps differ in offsets alone. -/
inductive Step.Alike : Step → Step → Prop
  | more {place place' : Place} (h : place.Alike place') : Alike (.more place) (.more place')
  | form (span span' : Span) (d : Datum) : Alike (.form span d) (.form span' d)

theorem alike_finish {within within' : List Context}
    (h : List.Forall₂ Context.Alike within within') (span span' : Span) (d : Datum) :
    (finish span d within).Alike (finish span' d within') := by
  induction h generalizing span span' d with
  | nil => exact .form span span' d
  | cons hhead htail ih =>
    cases hhead with
    | quote => exact ih _ _ _
    | element => exact .more (.datum (.cons (.element ..) htail))
    | tail => exact .more (.closing _ _ _ _ htail)

/-- What a token leads to does not depend on offsets. -/
theorem counts_take {place place' : Place} (h : place.Alike place') (l : Lexeme) :
    Counts Step.Alike (place.take l) (place'.take l.counted) := by
  obtain ⟨token, span⟩ := l
  cases h with
  | closing start start' read tail h =>
    by_cases hparen : token = .rightParen
    · subst hparen
      exact .ok (alike_finish h _ _ _)
    · simp only [take, Lexeme.counted, hparen, if_false]
      exact .error rfl
  | datum h =>
    cases token with
    | leftParen => exact .ok (.more (.datum (.cons (.element ..) h)))
    | quote => exact .ok (.more (.datum (.cons (.quote ..) h)))
    | rightParen =>
      cases h with
      | nil => exact .error rfl
      | cons hhead htail =>
        cases hhead with
        | quote | tail => exact .error rfl
        | element => exact .ok (alike_finish htail _ _ _)
    | dot =>
      cases h with
      | nil => exact .error rfl
      | cons hhead htail =>
        cases hhead with
        | quote | tail => exact .error rfl
        | element start start' read =>
          cases read with
          | nil => exact .error rfl
          | cons d read => exact .ok (.more (.datum (.cons (.tail ..) htail)))
    | string | integer | rational | float | boolean | symbol => exact .ok (alike_finish h _ _ _)
    | comment | endOfInput => exact .error rfl

theorem atEnd_alike {place place' : Place} (h : place.Alike place') (offset : Nat) :
    place'.atEnd (offset % 2 ^ 32) = (place.atEnd offset).map SyntaxError.counted := by
  cases h with
  | closing => rfl
  | datum h => cases h <;> rfl

end Place

namespace Reading

/-- Whether two readings differ in offsets alone, which for comments are counted. -/
structure Alike (r r' : Reading) : Prop where
  place : r.place.Alike r'.place
  data : r'.forms.toList.map Form.datum = r.forms.toList.map Form.datum
  comments : r'.comments.toList = r.comments.toList.map Span.counted

variable {r r' : Reading}

theorem Alike.settle (h : r.Alike r') {step step' : Place.Step} (hstep : step.Alike step') :
    (r.settle step).Alike (r'.settle step') := by
  cases hstep with
  | more hplace => exact ⟨hplace, h.data, h.comments⟩
  | form span span' d =>
    refine ⟨.datum .nil, ?_, h.comments⟩
    simp [Reading.settle, h.data]

theorem counts_step (h : r.Alike r') (item : Item) :
    Counts Alike (r.step item) (r'.step item.counted) := by
  cases item with
  | error e => exact .error rfl
  | ok l =>
    obtain ⟨token, span⟩ := l
    by_cases hcomment : token = .comment
    · subst hcomment
      refine .ok ⟨h.place, h.data, ?_⟩
      simp [h.comments, Lexeme.counted]
    by_cases hend : token = .endOfInput
    · subst hend
      have hplace := Place.atEnd_alike h.place span.start
      rw [Item.counted, Lexeme.counted, step_end, step_end, ending, ending, Span.counted, hplace]
      cases r.place.atEnd span.start with
      | none => exact .ok h
      | some e => exact .error rfl
    · have htake := Place.counts_take h.place ⟨token, span⟩
      rw [Item.counted, step_ok hcomment hend, step_ok hcomment hend]
      generalize r.place.take ⟨token, span⟩ = x at htake ⊢
      generalize r'.place.take (Lexeme.counted ⟨token, span⟩) = x' at htake ⊢
      cases htake with
      | ok hstep => exact .ok (h.settle hstep)
      | error he => exact .error he

theorem counts_read (h : r.Alike r') (items : List Item) :
    Counts Alike (r.read items) (r'.read (items.map Item.counted)) := by
  induction items generalizing r r' with
  | nil => exact .ok h
  | cons item items ih => exact (counts_step h item).bind fun _ _ hstep => ih hstep

theorem alike_start : start.Alike start := ⟨.datum .nil, rfl, rfl⟩

end Reading

end Offsets

namespace Window

/-- The items of a text from one on, as a window comes by them, up to the end of the text. -/
def itemsFrom (s : String) (n : Nat) : List Item :=
  if (item s n).isEnd then [item s n] else item s n :: itemsFrom s (n + 1)
  termination_by (Cursor.behind s n).rest.length
  decreasing_by
    rw [Cursor.behind_succ]
    refine Cursor.scan_rest_length_lt ?_
    rwa [← Item.isEnd_counted, ← Cursor.item_eq_counted]

def items (s : String) : List Item := itemsFrom s 0

/-- The program that a text is with the offsets of a window. -/
def program (s : String) : Except SyntaxError Program :=
  (Reading.start.read (items s)).map Reading.toProgram

variable {s : String}

theorem itemsFrom_eq_counted (s : String) (n : Nat) :
    itemsFrom s n = (Cursor.behind s n).items.map Item.counted := by
  fun_induction itemsFrom s n with
  | case1 n hend =>
    rw [Cursor.item_eq_counted, Item.isEnd_counted] at hend
    rw [Cursor.items_of_isEnd hend, Cursor.item_eq_counted]
    rfl
  | case2 n hend ih =>
    rw [Cursor.item_eq_counted, Item.isEnd_counted] at hend
    rw [Cursor.items_of_not_isEnd hend, ih, Cursor.item_eq_counted, Cursor.behind_succ]
    rfl

theorem items_eq_counted (s : String) :
    items s = (Cursor.ofString s).items.map Item.counted := itemsFrom_eq_counted s 0

section Exact

theorem counted_of_mem_items {c : Cursor} (hbound : c.bound < 2 ^ 32) :
    ∀ item ∈ c.items, item.counted = item := by
  induction c using Cursor.inductionOnScan with
  | atEnd c hend =>
    rw [Cursor.items_of_isEnd hend, List.forall_mem_singleton]
    exact Cursor.counted_scan hbound
  | step c hend ih =>
    rw [Cursor.items_of_not_isEnd hend, List.forall_mem_cons]
    exact ⟨Cursor.counted_scan hbound, ih (by rwa [Cursor.bound_scan])⟩

theorem items_eq (hs : s.utf8ByteSize < 2 ^ 32) : items s = (Cursor.ofString s).items := by
  have hbound : (Cursor.ofString s).bound < 2 ^ 32 := by
    rwa [← Cursor.bound_behind s 0] at hs
  rw [items_eq_counted, List.map_congr_left (counted_of_mem_items hbound), List.map_id']

/-- Offsets of 32 bits are exact in a text of fewer than `2 ^ 32` bytes. -/
theorem program_eq (hs : s.utf8ByteSize < 2 ^ 32) : program s = Program.ofString s := by
  rw [program, items_eq hs, Program.ofString, Program.ofChars, Program.ofCursor_eq]
  rfl

theorem program_ofList {cs : List Char} (hcs : width cs < 2 ^ 32) :
    program (String.ofList cs) = Program.ofChars cs := by
  have hsize : (String.ofList cs).utf8ByteSize < 2 ^ 32 := by
    rwa [utf8ByteSize_eq_width, String.toList_ofList]
  rw [program_eq hsize, Program.ofString, String.toList_ofList]

end Exact

/-- In a text of any size, counting in 32 bits changes offsets and nothing else. -/
theorem counts_program (s : String) :
    Counts (fun p p' => p'.data = p.data ∧ p'.comments = p.comments.map Span.counted)
      (Program.ofString s) (program s) := by
  have hread := Reading.counts_read Reading.alike_start (Cursor.ofString s).items
  rw [Program.ofString, Program.ofChars, Program.ofCursor_eq, program, items_eq_counted]
  rw [Cursor.ofString] at hread ⊢
  generalize Reading.start.read (Cursor.mk 0 s.toList).items = x at hread ⊢
  generalize Reading.start.read ((Cursor.mk 0 s.toList).items.map Item.counted) = x' at hread ⊢
  cases hread with
  | ok h => exact .ok ⟨h.data, h.comments⟩
  | error he => exact .error he

theorem program_eq_error {e : SyntaxError} (he : Program.ofString s = .error e) :
    program s = .error e.counted := by
  have hcounts := counts_program s
  rw [he] at hcounts
  generalize program s = x at hcounts ⊢
  cases hcounts with
  | error he' => rw [he']

section Behind

/-- A name behind some blanks. -/
def nameBehind (n : Nat) : String := String.ofList (List.replicate n ' ' ++ ['a'])

theorem width_blanks (n : Nat) : width (List.replicate n ' ') = n := by
  induction n with
  | zero => rfl
  | succ n ih =>
    rw [List.replicate_succ, width_cons, ih, Nat.add_comm]
    rfl

theorem items_nameBehind (n : Nat) : (Cursor.ofString (nameBehind n)).items =
    [.ok ⟨.symbol "a", ⟨n, n + 1⟩⟩, .ok ⟨.endOfInput, .point (n + 1)⟩] := by
  have hblank : ∀ ch ∈ List.replicate n ' ', Text.isBlank ch = true := fun ch hch => by
    rw [List.eq_of_mem_replicate hch]
    decide
  have hname : ∀ ch ∈ ['a'].head?, Text.isBlank ch = false := by
    rintro _ ⟨⟩
    decide
  have hscan : (Cursor.ofString (nameBehind n)).scan =
      (.ok ⟨.symbol "a", ⟨n, n + 1⟩⟩, ⟨n + 1, []⟩) := by
    rw [Cursor.scan, Cursor.ofString, nameBehind, String.toList_ofList,
      Cursor.skip_append_of_blank 0 hblank hname, width_blanks, Nat.zero_add]
    rfl
  rw [Cursor.items_of_not_isEnd (by simp [hscan, Item.isEnd]), hscan, Cursor.items_of_isEnd rfl]
  rfl

/-- The offset of the name begins anew behind `2 ^ 32` blanks. -/
theorem program_nameBehind (n : Nat) :
    program (nameBehind n) = .ok ⟨[⟨Span.counted ⟨n, n + 1⟩, .symbol "a"⟩], []⟩ := by
  rw [program, items_eq_counted, items_nameBehind]
  rfl

theorem slice_nameBehind {n : Nat} (hn : 0 < n) : slice (nameBehind n) 0 1 = " " := by
  obtain ⟨n, rfl⟩ := Nat.exists_eq_add_one_of_ne_zero hn.ne'
  have htext : (nameBehind (n + 1)).toList = [] ++ [' '] ++ (List.replicate n ' ' ++ ['a']) := by
    rw [nameBehind, String.toList_ofList, List.replicate_succ]
    rfl
  exact slice_of_toList htext

end Behind

end Window

/-- Whether a text has an error when its offsets are counted in 32 bits. In a text of fewer than
`2 ^ 32` bytes they are exact all the same. -/
structure SyntaxError.CountedIn (s : String) (e : SyntaxError) : Prop where
  counted : Window.program s = .error e.counted
  same : s.utf8ByteSize < 2 ^ 32 → e.counted = e

theorem SyntaxError.countedIn_of_error {s : String} {e : SyntaxError}
    (he : Program.ofString s = .error e) : e.CountedIn s where
  counted := Window.program_eq_error he
  same hs := by
    have hcounted := Window.program_eq_error he
    rw [Window.program_eq hs, he] at hcounted
    exact (Except.error.inj hcounted).symm

end FrameLisp.Source
