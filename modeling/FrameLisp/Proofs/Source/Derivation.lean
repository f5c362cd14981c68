import FrameLisp.Proofs.Source.Built
import FrameLisp.Proofs.Source.Items
import FrameLisp.Source.Grammar

/-!
# Reading is deriving

A reading is a machine with a stack of open lists and quotes. The tokens since the last form spell
that stack, so they can always be completed to a form; and from any stack the tokens of a datum lead
to the place that the finished datum leads to.
-/
namespace FrameLisp.Source

section Places

/-- The tokens that opened some contexts, of which the innermost one is the first. -/
inductive Opens : List Context → List Token → Prop
  | nil : Opens [] []
  | quote {span within tokens} : Opens within tokens →
      Opens (.quote span :: within) (tokens ++ [.quote])
  | element {start read within tokens inner} : Opens within tokens →
      DerivesAll inner read.reverse →
      Opens (.element start read :: within) (tokens ++ .leftParen :: inner)
  | tail {start read within tokens inner} : Opens within tokens →
      DerivesAll inner read.reverse → read ≠ [] →
      Opens (.tail start read :: within) (tokens ++ .leftParen :: (inner ++ [.dot]))

/-- The tokens since the last form that led to a place. -/
inductive Place.LedBy : Place → List Token → Prop
  | datum {within tokens} : Opens within tokens → LedBy (.datum within) tokens
  | closing {start read tail within tokens inner inner'} : Opens within tokens →
      DerivesAll inner read.reverse → read ≠ [] → Derives inner' tail →
      LedBy (.closing start read tail within)
        (tokens ++ .leftParen :: (inner ++ .dot :: inner'))

inductive Place.Step.LedBy : Place.Step → List Token → Prop
  | more {place tokens} : place.LedBy tokens → LedBy (.more place) tokens
  | form {span d tokens} : Derives tokens d → LedBy (.form span d) tokens

variable {within : List Context} {tokens inner : List Token} {d : Datum} {place : Place}

theorem DerivesAll.single (h : Derives tokens d) : DerivesAll tokens [d] := by
  simpa using DerivesAll.cons h .nil

theorem DerivesAll.snoc {ds : List Datum} (h : DerivesAll tokens ds) (hd : Derives inner d) :
    DerivesAll (tokens ++ inner) (ds ++ [d]) :=
  h.append (.single hd)

/-- A finished datum leads on with its tokens behind those of the contexts. -/
theorem Opens.finish (hw : Opens within tokens) (hd : Derives inner d) (span : Span) :
    (Place.finish span d within).LedBy (tokens ++ inner) := by
  induction hw generalizing span d inner with
  | nil => exact .form hd
  | @quote q within tokens _ ih =>
    have hquoted : Derives (.quote :: inner) (.ofList [.symbol "quote", d]) := .quote hd
    simpa [Place.finish] using ih hquoted (q.merge span)
  | @element start read within tokens elements hw helements _ =>
    have hmore : DerivesAll (elements ++ inner) (d :: read).reverse := by
      simpa using helements.snoc hd
    have hopen : Opens (.element start (d :: read) :: within) (tokens ++ .leftParen :: _) :=
      .element hw hmore
    simpa [Place.finish] using Place.Step.LedBy.more (.datum hopen)
  | @tail start read within tokens elements hw helements hne _ =>
    have hclosing : (Place.closing start read d within).LedBy _ :=
      .closing hw helements hne hd
    simpa [Place.finish] using Place.Step.LedBy.more hclosing

/-- What one token does to the tokens that led to a place. -/
theorem Place.LedBy.take {lexeme : Lexeme} {step : Place.Step} (hp : place.LedBy tokens)
    (hs : place.take lexeme = .ok step) : step.LedBy (tokens ++ [lexeme.token]) := by
  fun_cases Place.take lexeme place with
  | case1 start read tail within hparen =>
    simp only [Place.take, hparen, if_true, Except.ok.injEq] at hs
    cases hp with
    | closing hw hread hne htail =>
      have hclosed := Derives.dotted hread (by simpa using hne) htail
      simpa [hparen, ← hs] using hw.finish hclosed ⟨start, lexeme.span.stop⟩
  | case2 start read tail within hparen => simp [Place.take, hparen] at hs
  | case3 within hparen =>
    simp only [Place.take, hparen, Except.ok.injEq] at hs
    cases hp with
    | datum hw => simpa [hparen, ← hs] using Place.Step.LedBy.more (.datum (.element hw .nil))
  | case4 within hquote =>
    simp only [Place.take, hquote, Except.ok.injEq] at hs
    cases hp with
    | datum hw => simpa [hquote, ← hs] using Place.Step.LedBy.more (.datum (.quote hw))
  | case5 start read within hparen =>
    simp only [Place.take, hparen, Except.ok.injEq] at hs
    cases hp with
    | datum hw =>
      cases hw with
      | element hw hread =>
        simpa [hparen, ← hs] using hw.finish (.list hread) ⟨start, lexeme.span.stop⟩
  | case6 within hparen hnot => simp [Place.take, hparen] at hs
  | case7 start d read within hdot =>
    simp only [Place.take, hdot, Except.ok.injEq] at hs
    cases hp with
    | datum hw =>
      cases hw with
      | element hw hread =>
        have hopen : Opens (.tail start (d :: read) :: within) _ :=
          .tail hw hread (List.cons_ne_nil d read)
        simpa [hdot, ← hs] using Place.Step.LedBy.more (.datum hopen)
  | case8 within hdot hnot => simp [Place.take, hdot] at hs
  | case9 within d _ _ _ _ _ _ hatom =>
    simp only [Place.take, hatom, Except.ok.injEq] at hs
    cases hp with
    | datum hw => simpa [← hs] using hw.finish (.atom hatom) lexeme.span
  | case10 within _ _ _ _ _ _ hatom => simp [Place.take, hatom] at hs

/-- Whatever is open can be closed behind a datum by parentheses. -/
theorem Opens.exists_derives (hw : Opens within tokens) (hd : Derives inner d) :
    ∃ k d', Derives (tokens ++ inner ++ List.replicate k .rightParen) d' := by
  induction hw generalizing d inner with
  | nil => exact ⟨0, d, by simpa using hd⟩
  | quote _ ih =>
    obtain ⟨k, d', h⟩ := ih (.quote hd)
    exact ⟨k, d', by simpa using h⟩
  | element _ helements ih =>
    obtain ⟨k, d', h⟩ := ih (.list (helements.snoc hd))
    exact ⟨k + 1, d', by simpa [List.replicate_succ] using h⟩
  | tail _ helements hne ih =>
    obtain ⟨k, d', h⟩ := ih (.dotted helements (by simpa using hne) hd)
    exact ⟨k + 1, d', by simpa [List.replicate_succ] using h⟩

/-- The tokens that led to a place are the beginning of a datum: parentheses complete it, of which
the first one opens an empty list where a datum is still to come. -/
theorem Place.LedBy.exists_derives (hp : place.LedBy tokens) : ∃ j k d,
    Derives (tokens ++ (List.replicate j .leftParen ++ List.replicate k .rightParen)) d := by
  cases hp with
  | datum hw =>
    have hempty : Derives [.leftParen, .rightParen] (.ofList []) := .list .nil
    obtain ⟨k, d, h⟩ := hw.exists_derives hempty
    exact ⟨1, k + 1, d, by simpa [List.replicate_succ] using h⟩
  | closing hw hread hne htail =>
    obtain ⟨k, d, h⟩ := hw.exists_derives (.dotted hread (by simpa using hne) htail)
    exact ⟨0, k + 1, d, by simpa [List.replicate_succ] using h⟩

end Places

namespace Reading

/-- The same reading at another place. -/
def atPlace (r : Reading) (place : Place) : Reading := { r with place }

/-- The reading after a step within a form or to the end of one. -/
def settle (r : Reading) : Place.Step → Reading
  | .more place => r.atPlace place
  | .form span datum => { r with place := .top, forms := r.forms.push ⟨span, datum⟩ }

def data (r : Reading) : List Datum := r.forms.toList.map Form.datum

@[simp] theorem settle_atPlace (r : Reading) (place : Place) (step : Place.Step) :
    (r.atPlace place).settle step = r.settle step := by
  cases step <;> rfl

/-- The reading after the items of some lexemes. -/
def readAll (r : Reading) (lexemes : List Lexeme) : Except SyntaxError Reading :=
  r.read (lexemes.map .ok)

theorem readAll_nil (r : Reading) : r.readAll [] = .ok r := rfl

theorem readAll_append_of_ok {r r' : Reading} {lexemes : List Lexeme}
    (h : r.readAll lexemes = .ok r') (lexemes' : List Lexeme) :
    r.readAll (lexemes ++ lexemes') = r'.readAll lexemes' := by
  rw [readAll, List.map_append, read_append_of_ok h]
  rfl

theorem step_ok {r : Reading} {lexeme : Lexeme} (hcomment : lexeme.token ≠ .comment)
    (hend : lexeme.token ≠ .endOfInput) :
    r.step (.ok lexeme) = (r.place.take lexeme).map r.settle := by
  obtain ⟨token, span⟩ := lexeme
  cases token with
  | comment => exact absurd rfl hcomment
  | endOfInput => exact absurd rfl hend
  | _ =>
    simp only [step, advance]
    generalize r.place.take _ = result
    cases result with
    | error e => rfl
    | ok step => cases step <;> rfl

section Tokens

variable {r : Reading} {lexeme : Lexeme} {start : Nat} {read : List Datum} {d tail : Datum}
  {within : List Context}

theorem readAll_cons_of_take {place : Place} {step : Place.Step}
    (hcomment : lexeme.token ≠ .comment) (hend : lexeme.token ≠ .endOfInput)
    (htake : place.take lexeme = .ok step) (lexemes : List Lexeme) :
    (r.atPlace place).readAll (lexeme :: lexemes) = (r.settle step).readAll lexemes := by
  have hstep : (r.atPlace place).step (.ok lexeme) = .ok (r.settle step) := by
    rw [step_ok hcomment hend, atPlace, htake]
    exact congrArg Except.ok (settle_atPlace r place step)
  rw [readAll, List.map_cons, read_cons, hstep]
  rfl

theorem readAll_atom (hatom : Place.atom? lexeme.token = some d) :
    (r.atPlace (.datum within)).readAll [lexeme] =
      .ok (r.settle (Place.finish lexeme.span d within)) := by
  have htake : (Place.datum within).take lexeme = .ok (Place.finish lexeme.span d within) := by
    cases htoken : lexeme.token <;> simp_all [Place.take, Place.atom?]
  refine readAll_cons_of_take ?_ ?_ htake []
  · intro hcomment
    simp [hcomment, Place.atom?] at hatom
  · intro hend
    simp [hend, Place.atom?] at hatom

theorem readAll_quote (hquote : lexeme.token = .quote) (lexemes : List Lexeme) :
    (r.atPlace (.datum within)).readAll (lexeme :: lexemes) =
      (r.atPlace (.datum (.quote lexeme.span :: within))).readAll lexemes := by
  have htake : (Place.datum within).take lexeme =
      .ok (.more (.datum (.quote lexeme.span :: within))) := by
    simp [Place.take, hquote]
  exact readAll_cons_of_take (by simp [hquote]) (by simp [hquote]) htake lexemes

theorem readAll_leftParen (hparen : lexeme.token = .leftParen) (lexemes : List Lexeme) :
    (r.atPlace (.datum within)).readAll (lexeme :: lexemes) =
      (r.atPlace (.datum (.element lexeme.span.start [] :: within))).readAll lexemes := by
  have htake : (Place.datum within).take lexeme =
      .ok (.more (.datum (.element lexeme.span.start [] :: within))) := by
    simp [Place.take, hparen]
  exact readAll_cons_of_take (by simp [hparen]) (by simp [hparen]) htake lexemes

theorem readAll_rightParen (hparen : lexeme.token = .rightParen) :
    (r.atPlace (.datum (.element start read :: within))).readAll [lexeme] =
      .ok (r.settle
        (Place.finish ⟨start, lexeme.span.stop⟩ (.ofList read.reverse) within)) := by
  have htake : (Place.datum (.element start read :: within)).take lexeme =
      .ok (Place.finish ⟨start, lexeme.span.stop⟩ (.ofList read.reverse) within) := by
    simp [Place.take, hparen]
  exact readAll_cons_of_take (by simp [hparen]) (by simp [hparen]) htake []

theorem readAll_dot (hdot : lexeme.token = .dot) (hne : read ≠ []) (lexemes : List Lexeme) :
    (r.atPlace (.datum (.element start read :: within))).readAll (lexeme :: lexemes) =
      (r.atPlace (.datum (.tail start read :: within))).readAll lexemes := by
  have htake : (Place.datum (.element start read :: within)).take lexeme =
      .ok (.more (.datum (.tail start read :: within))) := by
    obtain ⟨d, read, rfl⟩ := List.exists_cons_of_ne_nil hne
    simp [Place.take, hdot]
  exact readAll_cons_of_take (by simp [hdot]) (by simp [hdot]) htake lexemes

theorem readAll_closing (hparen : lexeme.token = .rightParen) :
    (r.atPlace (.closing start read tail within)).readAll [lexeme] =
      .ok (r.settle
        (Place.finish ⟨start, lexeme.span.stop⟩ (.ofChain read.reverse tail) within)) := by
  have htake : (Place.closing start read tail within).take lexeme =
      .ok (Place.finish ⟨start, lexeme.span.stop⟩ (.ofChain read.reverse tail) within) := by
    simp [Place.take, hparen]
  exact readAll_cons_of_take (by simp [hparen]) (by simp [hparen]) htake []

end Tokens

end Reading

section Completeness

/-- A list of lexemes whose tokens are given in two parts has two parts. -/
theorem exists_append_of_map_token {lexemes : List Lexeme} {tokens tokens' : List Token}
    (h : lexemes.map Lexeme.token = tokens ++ tokens') : ∃ front back,
    lexemes = front ++ back ∧ front.map Lexeme.token = tokens ∧
      back.map Lexeme.token = tokens' := by
  obtain ⟨front, back, rfl, hfront, hback⟩ := List.map_eq_append_iff.1 h
  exact ⟨front, back, rfl, hfront, hback⟩

theorem exists_cons_of_map_token {lexemes : List Lexeme} {token : Token} {tokens : List Token}
    (h : lexemes.map Lexeme.token = token :: tokens) : ∃ first rest,
    lexemes = first :: rest ∧ first.token = token ∧ rest.map Lexeme.token = tokens := by
  obtain ⟨first, rest, rfl, hfirst, hrest⟩ := List.map_eq_cons_iff.1 h
  exact ⟨first, rest, rfl, hfirst, hrest⟩

theorem exists_single_of_map_token {lexemes : List Lexeme} {token : Token}
    (h : lexemes.map Lexeme.token = [token]) : ∃ last, lexemes = [last] ∧ last.token = token := by
  obtain ⟨last, rest, rfl, hlast, hrest⟩ := exists_cons_of_map_token h
  obtain rfl := List.map_eq_nil_iff.1 hrest
  exact ⟨last, rfl, hlast⟩

open Reading

mutual

/-- From any stack the tokens of a datum lead to where the finished datum leads. -/
theorem Derives.exists_readAll {tokens : List Token} {d : Datum} {lexemes : List Lexeme}
    (h : Derives tokens d) (hl : lexemes.map Lexeme.token = tokens) (r : Reading)
    (within : List Context) : ∃ span,
    (r.atPlace (.datum within)).readAll lexemes = .ok (r.settle (Place.finish span d within)) := by
  match h with
  | .atom hatom =>
    obtain ⟨first, rfl, rfl⟩ := exists_single_of_map_token hl
    exact ⟨first.span, readAll_atom hatom⟩
  | .quote hd =>
    obtain ⟨first, rest, rfl, hfirst, hrest⟩ := exists_cons_of_map_token hl
    obtain ⟨span, hspan⟩ := hd.exists_readAll hrest r (.quote first.span :: within)
    refine ⟨first.span.merge span, ?_⟩
    rw [readAll_quote hfirst, hspan, Place.finish]
  | .list hitems =>
    obtain ⟨first, rest, rfl, hfirst, hrest⟩ := exists_cons_of_map_token hl
    obtain ⟨front, back, rfl, hfront, hback⟩ := exists_append_of_map_token hrest
    obtain ⟨last, rfl, hlast⟩ := exists_single_of_map_token hback
    refine ⟨⟨first.span.start, last.span.stop⟩, ?_⟩
    rw [readAll_leftParen hfirst,
      readAll_append_of_ok (hitems.readAll_element hfront r first.span.start [] within),
      readAll_rightParen hlast]
    simp
  | .dotted hitems hne htail =>
    obtain ⟨first, rest, rfl, hfirst, hrest⟩ := exists_cons_of_map_token (by simpa using hl)
    obtain ⟨front, back, rfl, hfront, hback⟩ := exists_append_of_map_token hrest
    obtain ⟨dot, ending, rfl, hdot, hending⟩ := exists_cons_of_map_token hback
    obtain ⟨after, closing, rfl, hafter, hclosing⟩ := exists_append_of_map_token hending
    obtain ⟨last, rfl, hlast⟩ := exists_single_of_map_token hclosing
    refine ⟨⟨first.span.start, last.span.stop⟩, ?_⟩
    obtain ⟨span, htail⟩ := htail.exists_readAll hafter r (.tail first.span.start _ :: within)
    rw [readAll_leftParen hfirst,
      readAll_append_of_ok (hitems.readAll_element hfront r first.span.start [] within),
      readAll_dot hdot (by simpa using hne), readAll_append_of_ok htail, Place.finish, settle,
      readAll_closing hlast]
    simp

/-- In a list the tokens of some data lead to behind them. -/
theorem DerivesAll.readAll_element {tokens : List Token} {ds : List Datum}
    {lexemes : List Lexeme} (h : DerivesAll tokens ds) (hl : lexemes.map Lexeme.token = tokens)
    (r : Reading) (start : Nat) (read : List Datum) (within : List Context) :
    (r.atPlace (.datum (.element start read :: within))).readAll lexemes =
      .ok (r.atPlace (.datum (.element start (ds.reverse ++ read) :: within))) := by
  match h with
  | .nil =>
    obtain rfl := List.map_eq_nil_iff.1 hl
    rfl
  | .cons (d := d) hd hds =>
    obtain ⟨front, back, rfl, hfront, hback⟩ := exists_append_of_map_token hl
    obtain ⟨span, hspan⟩ := hd.exists_readAll hfront r (.element start read :: within)
    rw [readAll_append_of_ok hspan, Place.finish, settle,
      hds.readAll_element hback r start (d :: read) within]
    simp

end

/-- Between forms the tokens of some data lead to the forms of these data. -/
theorem DerivesAll.exists_readAll_top {tokens : List Token} {ds : List Datum}
    {lexemes : List Lexeme} (h : DerivesAll tokens ds) (hl : lexemes.map Lexeme.token = tokens)
    (r : Reading) : ∃ r', (r.atPlace .top).readAll lexemes = .ok r' ∧ r'.place = .top ∧
      r'.data = r.data ++ ds := by
  induction ds generalizing tokens lexemes r with
  | nil =>
    cases h
    obtain rfl := List.map_eq_nil_iff.1 hl
    exact ⟨r.atPlace .top, rfl, rfl, by simp [atPlace, data]⟩
  | cons d ds ih =>
    cases h with
    | cons hd hds =>
      obtain ⟨front, back, rfl, hfront, hback⟩ := exists_append_of_map_token hl
      obtain ⟨span, hspan⟩ := hd.exists_readAll hfront r []
      obtain ⟨r', hr', hplace, hdata⟩ := ih hds hback (r.settle (.form span d))
      refine ⟨r', ?_, hplace, by simpa [settle, data] using hdata⟩
      rw [Place.top, readAll_append_of_ok hspan]
      exact hr'

end Completeness

section Soundness

/-- The forms of a reading, and what is open behind them, derive from the tokens. -/
structure Reading.DerivedBy (r : Reading) (tokens : List Token) : Prop where
  parts : ∃ done rest, tokens = done ++ rest ∧ DerivesAll done r.data ∧ r.place.LedBy rest

variable {r r' : Reading} {tokens : List Token}

theorem Reading.derivedBy_start : Reading.start.DerivedBy [] :=
  ⟨[], [], rfl, .nil, .datum .nil⟩

theorem Reading.DerivedBy.settle {lexeme : Lexeme} {step : Place.Step} (h : r.DerivedBy tokens)
    (htake : r.place.take lexeme = .ok step) :
    (r.settle step).DerivedBy (tokens ++ [lexeme.token]) := by
  obtain ⟨done, rest, rfl, hdone, hrest⟩ := h.parts
  have hstep := hrest.take htake
  rw [List.append_assoc]
  cases hstep with
  | more hplace => exact ⟨done, _, rfl, hdone, hplace⟩
  | @form span d _ hd =>
    refine ⟨done ++ (rest ++ [lexeme.token]), [], by simp, ?_, .datum .nil⟩
    simpa [Reading.settle, Reading.data] using hdone.snoc hd

/-- Whether a lexeme is neither a comment nor the end of the text. -/
def Lexeme.isTaken (l : Lexeme) : Bool := l.token ≠ .comment && l.token ≠ .endOfInput

theorem Reading.step_ok_of_isTaken {lexeme : Lexeme} (h : lexeme.isTaken = true) :
    r.step (.ok lexeme) = (r.place.take lexeme).map r.settle := by
  have hboth : lexeme.token ≠ .comment ∧ lexeme.token ≠ .endOfInput := by
    simpa [Lexeme.isTaken] using h
  exact step_ok hboth.1 hboth.2

theorem Reading.DerivedBy.readAll {lexemes : List Lexeme} (h : r.DerivedBy tokens)
    (ht : ∀ l ∈ lexemes, l.isTaken = true) (hr : r.readAll lexemes = .ok r') :
    r'.DerivedBy (tokens ++ lexemes.map Lexeme.token) := by
  induction lexemes generalizing r tokens with
  | nil =>
    obtain rfl : r = r' := by simpa [readAll_nil] using hr
    simpa using h
  | cons l lexemes ih =>
    obtain ⟨hl, hrest⟩ := List.forall_mem_cons.1 ht
    rw [readAll, List.map_cons, read_cons, step_ok_of_isTaken hl] at hr
    cases htake : r.place.take l with
    | error e => simp [htake, Except.map, Except.bind] at hr
    | ok step =>
      rw [htake] at hr
      simpa using ih (h.settle htake) hrest hr

/-- What was read can be completed by parentheses. -/
theorem Reading.DerivedBy.exists_derivesAll (h : r.DerivedBy tokens) : ∃ j k ds,
    DerivesAll (tokens ++ (List.replicate j .leftParen ++ List.replicate k .rightParen)) ds := by
  obtain ⟨done, rest, rfl, hdone, hrest⟩ := h.parts
  obtain ⟨j, k, d, hd⟩ := hrest.exists_derives
  refine ⟨j, k, r.data ++ [d], ?_⟩
  rw [List.append_assoc]
  exact hdone.snoc hd

theorem Reading.DerivedBy.viable (h : r.DerivedBy tokens) : Viable tokens := by
  obtain ⟨j, k, ds, hds⟩ := h.exists_derivesAll
  exact ⟨_, ds, hds⟩

theorem Reading.DerivedBy.derivesAll (h : r.DerivedBy tokens) (hplace : r.place = .top) :
    DerivesAll tokens r.data := by
  obtain ⟨done, rest, rfl, hdone, hrest⟩ := h.parts
  rw [hplace, Place.top] at hrest
  cases hrest with
  | datum hopens =>
    cases hopens
    simpa using hdone

end Soundness

end FrameLisp.Source
