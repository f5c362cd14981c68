import FrameLisp.Proofs.Datum.Observation
import FrameLisp.Proofs.Source.Items
import FrameLisp.Source.Chunk

/-!
# What is read is built from atoms

A property of data that atoms have, and that pairs take over from their parts, is a property of
every datum that is read. In particular nothing that is read holds a procedure.
-/
namespace FrameLisp.Source

/-- A property of data that can be seen from the atoms, given a property of their tokens. -/
structure Built (tokens : Token → Prop) (holds : Datum → Prop) : Prop where
  atom : ∀ {token d}, tokens token → Place.atom? token = some d → holds d
  quote : holds (.symbol "quote")
  nil : holds .nil
  pair : ∀ {head tail}, holds head → holds tail → holds (.pair none head tail)

variable {tokens : Token → Prop} {holds : Datum → Prop}

theorem Built.ofChain (hb : Built tokens holds) {items : List Datum} {tail : Datum}
    (hi : ∀ d ∈ items, holds d) (ht : holds tail) : holds (.ofChain items tail) := by
  induction items with
  | nil => exact ht
  | cons item items ih =>
    exact hb.pair (hi item List.mem_cons_self) (ih fun d hd => hi d (List.mem_cons_of_mem _ hd))

/-- All data that are kept in a context have the property. -/
def Context.All (holds : Datum → Prop) : Context → Prop
  | .quote _ => True
  | .element _ read => ∀ d ∈ read, holds d
  | .tail _ read => ∀ d ∈ read, holds d

def Place.All (holds : Datum → Prop) : Place → Prop
  | .datum within => ∀ c ∈ within, c.All holds
  | .closing _ read tail within =>
    (∀ d ∈ read, holds d) ∧ holds tail ∧ ∀ c ∈ within, c.All holds

def Place.Step.All (holds : Datum → Prop) : Place.Step → Prop
  | .more place => place.All holds
  | .form _ d => holds d

theorem Built.finish (hb : Built tokens holds) {span : Span} {d : Datum} {within : List Context}
    (hd : holds d) (hw : ∀ c ∈ within, c.All holds) : (Place.finish span d within).All holds := by
  induction within generalizing span d with
  | nil => exact hd
  | cons c within ih =>
    obtain ⟨hc, hrest⟩ := List.forall_mem_cons.1 hw
    cases c with
    | quote q =>
      exact ih (hb.pair hb.quote (hb.pair hd hb.nil)) hrest
    | element start read =>
      exact List.forall_mem_cons.2 ⟨List.forall_mem_cons.2 ⟨hd, hc⟩, hrest⟩
    | tail start read => exact ⟨hc, hd, hrest⟩

theorem Built.take (hb : Built tokens holds) {lexeme : Lexeme} {place : Place} {step : Place.Step}
    (ht : tokens lexeme.token) (hp : place.All holds) (hs : place.take lexeme = .ok step) :
    step.All holds := by
  fun_cases Place.take lexeme place with
  | case1 start read tail within hparen =>
    simp only [Place.take, hparen, if_true, Except.ok.injEq] at hs
    exact hs ▸ hb.finish (hb.ofChain (by simpa using hp.1) hp.2.1) hp.2.2
  | case2 start read tail within hparen => simp [Place.take, hparen] at hs
  | case3 within hparen =>
    simp only [Place.take, hparen, Except.ok.injEq] at hs
    exact hs ▸ List.forall_mem_cons.2 ⟨fun d hd => absurd hd List.not_mem_nil, hp⟩
  | case4 within hquote =>
    simp only [Place.take, hquote, Except.ok.injEq] at hs
    exact hs ▸ List.forall_mem_cons.2 ⟨trivial, hp⟩
  | case5 start read within hparen =>
    simp only [Place.take, hparen, Except.ok.injEq] at hs
    obtain ⟨hread, hrest⟩ := List.forall_mem_cons.1 hp
    exact hs ▸ hb.finish (hb.ofChain (fun d hd => hread d (List.mem_reverse.1 hd)) hb.nil) hrest
  | case6 within hparen hnot => simp [Place.take, hparen] at hs
  | case7 start d read within hdot =>
    simp only [Place.take, hdot, Except.ok.injEq] at hs
    obtain ⟨hread, hrest⟩ := List.forall_mem_cons.1 hp
    exact hs ▸ List.forall_mem_cons.2 ⟨hread, hrest⟩
  | case8 within hdot hnot => simp [Place.take, hdot] at hs
  | case9 within d _ _ _ _ _ _ hatom =>
    simp only [Place.take, hatom, Except.ok.injEq] at hs
    exact hs ▸ hb.finish (hb.atom ht hatom) hp
  | case10 within _ _ _ _ _ _ hatom => simp [Place.take, hatom] at hs

/-- The forms that were read have the property, and so have the data that are still open. -/
def Reading.All (holds : Datum → Prop) (r : Reading) : Prop :=
  r.place.All holds ∧ ∀ form ∈ r.forms, holds form.datum

theorem Reading.all_start : Reading.start.All holds :=
  ⟨fun c hc => absurd hc List.not_mem_nil, by simp [Reading.start]⟩

theorem Built.advance (hb : Built tokens holds) {r r' : Reading} {item : Item} (hr : r.All holds)
    (ht : ∀ lexeme, item = .ok lexeme → tokens lexeme.token) (ha : r.advance item = .more r') :
    r'.All holds := by
  cases item with
  | error e => simp [Reading.advance] at ha
  | ok lexeme =>
    have ht := ht lexeme rfl
    simp only [Reading.advance] at ha
    split at ha
    · cases ha
      exact hr
    · simp at ha
    · split at ha
      · simp at ha
      · next place hplace =>
        cases ha
        exact ⟨hb.take ht hr.1 hplace, hr.2⟩
      · next span d hform =>
        cases ha
        refine ⟨fun c hc => absurd hc List.not_mem_nil, fun form hf => ?_⟩
        rcases Array.mem_push.1 hf with hf | rfl
        · exact hr.2 form hf
        · exact hb.take ht hr.1 hform

theorem Built.run (hb : Built tokens holds) (enough : Reading → Bool) (last : Nat) {r : Reading}
    {items : List Item} (hr : r.All holds)
    (ht : ∀ lexeme, .ok lexeme ∈ items → tokens lexeme.token) :
    (r.run enough last items).2.1.All holds := by
  fun_induction Reading.run enough last r items with
  | case1 r => exact hr
  | case2 r item items r' ha henough =>
    exact hb.advance hr (fun l he => ht l (he ▸ List.mem_cons_self)) ha
  | case3 r item items r' ha henough ih =>
    exact ih (hb.advance hr (fun l he => ht l (he ▸ List.mem_cons_self)) ha)
      fun l hl => ht l (List.mem_cons_of_mem _ hl)
  | case4 r item items ha => exact hr
  | case5 r item items e ha => exact hr

/-- A property of atoms and of pairs of data is a property of all forms of a program. -/
theorem Built.ofCursor (hb : Built tokens holds) {c : Cursor} {program : Program}
    (ht : ∀ lexeme, .ok lexeme ∈ c.items → tokens lexeme.token)
    (hp : Program.ofCursor c = .ok program) : ∀ d ∈ program.data, holds d := by
  simp only [Program.ofCursor] at hp
  split at hp
  · next r rest hr =>
    cases hp
    have hall : (Reading.start.run (fun _ => false) 0
        ((Cursor.scanAll #[] c).map Prod.snd).toList).2.1.All holds :=
      hb.run _ _ Reading.all_start ht
    rw [hr] at hall
    intro d hd
    obtain ⟨form, hform, rfl⟩ := List.mem_map.1 hd
    exact hall.2 form (Array.mem_toList_iff.1 hform)
  · simp at hp

section Programs

variable (hb : Built tokens holds)
  (ht : ∀ {c : Cursor} (lexeme : Lexeme), .ok lexeme ∈ c.items → tokens lexeme.token)
include hb ht

theorem Built.ofString {source : String} {program : Program}
    (hp : Program.ofString source = .ok program) : ∀ d ∈ program.data, holds d :=
  hb.ofCursor ht hp

theorem Built.ofStream {bytes : List UInt8} {program : Program}
    (hp : Program.ofStream bytes = .ok program) : ∀ d ∈ program.data, holds d := by
  simp only [Program.ofStream] at hp
  split at hp
  · simp at hp
  · split at hp
    · next hchars =>
      cases hp
      exact hb.ofCursor ht hchars
    · simp at hp

/-- The forms of the chunks of a file. -/
theorem Built.ofLines {pending : List Char} {lines : List (List UInt8)} {data : List Datum}
    (hc : .forms data ∈ Chunk.ofLines pending lines) : ∀ d ∈ data, holds d := by
  fun_induction Chunk.ofLines pending lines with
  | case1 => simp at hc
  | case2 => simp at hc
  | case3 => simp at hc
  | case4 pending line lines cs hcs hblank ih => exact ih hc
  | case5 pending line lines cs hcs hblank pending' program hp ih =>
    rcases List.mem_cons.1 hc with he | hc
    · cases he
      exact hb.ofCursor ht hp
    · exact ih hc
  | case6 pending line lines cs hcs hblank pending' e he hincomplete ih => exact ih hc
  | case7 => simp at hc

end Programs

section Plain

theorem built_plain : Built (fun _ => True) Datum.Plain where
  atom := by
    intro token d _ hd
    cases token <;> simp only [Place.atom?, Option.some.injEq, reduceCtorEq] at hd <;>
      exact hd ▸ trivial
  quote := trivial
  nil := trivial
  pair hhead htail := ⟨hhead, htail⟩

theorem plain_of_ofString {source : String} {program : Program}
    (hp : Program.ofString source = .ok program) : ∀ d ∈ program.data, d.Plain :=
  built_plain.ofString (fun _ _ => trivial) hp

theorem plain_of_ofStream {bytes : List UInt8} {program : Program}
    (hp : Program.ofStream bytes = .ok program) : ∀ d ∈ program.data, d.Plain :=
  built_plain.ofStream (fun _ _ => trivial) hp

theorem plain_of_ofLines {pending : List Char} {lines : List (List UInt8)} {data : List Datum}
    (hc : .forms data ∈ Chunk.ofLines pending lines) : ∀ d ∈ data, d.Plain :=
  built_plain.ofLines (fun _ _ => trivial) hc

end Plain

end FrameLisp.Source
