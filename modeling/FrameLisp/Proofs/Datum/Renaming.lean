import Mathlib
import FrameLisp.Datum.Equality
import FrameLisp.Datum.Mentions
import FrameLisp.Datum.Text

/-!
# Data up to the handles in them

Two runs may give different handles to the frames that they make. `rename` replaces the handles in
a datum, down to the constants of the bodies of closures, and `Within` bounds what a datum holds:
the handles that occur in it and the primitives. Nothing that a program can observe of a datum
depends on its handles.
-/
namespace FrameLisp

open Store

mutual

/-- The same datum with other handles. -/
def Datum.rename (σ : Handle → Handle) : Datum → Datum
  | .number n => .number n
  | .string s => .string s
  | .boolean b => .boolean b
  | .symbol name => .symbol name
  | .pair mark head tail => .pair mark (head.rename σ) (tail.rename σ)
  | .nil => .nil
  | .quoted d => .quoted (d.rename σ)
  | .closure mark l frame => .closure mark (l.rename σ) (σ frame)
  | .primitive p => .primitive p

def Lambda.rename (σ : Handle → Handle) : Lambda → Lambda
  | .mk name parameters body => .mk name parameters (body.rename σ)

def Code.rename (σ : Handle → Handle) : Code → Code
  | .constant d => .constant (d.rename σ)
  | .variable name => .variable name
  | .assignment name value => .assignment name (value.rename σ)
  | .definition name value => .definition name (value.rename σ)
  | .conditional test consequent alternative =>
    .conditional (test.rename σ) (consequent.rename σ) (alternative.rename σ)
  | .lambda l => .lambda (l.rename σ)
  | .sequence units => .sequence (Code.renameAll σ units)
  | .application operator operands =>
    .application (operator.rename σ) (Code.renameAll σ operands)

def Code.renameAll (σ : Handle → Handle) : List Code → List Code
  | [] => []
  | unit :: units => unit.rename σ :: Code.renameAll σ units

end

attribute [simp] Datum.rename Lambda.rename Code.rename

@[simp] theorem Code.renameAll_eq_map (σ : Handle → Handle) (units : List Code) :
    Code.renameAll σ units = units.map (Code.rename σ) := by
  induction units with
  | nil => rfl
  | cons unit units ih => rw [Code.renameAll, ih, List.map_cons]

mutual

/-- All handles in a datum are in `p`, and all primitives in `q`. -/
def Datum.Within (p : Handle → Prop) (q : Primitive → Prop) : Datum → Prop
  | .number _ => True
  | .string _ => True
  | .boolean _ => True
  | .symbol _ => True
  | .pair _ head tail => head.Within p q ∧ tail.Within p q
  | .nil => True
  | .quoted d => d.Within p q
  | .closure _ l frame => p frame ∧ l.Within p q
  | .primitive primitive => q primitive

def Lambda.Within (p : Handle → Prop) (q : Primitive → Prop) : Lambda → Prop
  | .mk _ _ body => body.Within p q

def Code.Within (p : Handle → Prop) (q : Primitive → Prop) : Code → Prop
  | .constant d => d.Within p q
  | .variable _ => True
  | .assignment _ value => value.Within p q
  | .definition _ value => value.Within p q
  | .conditional test consequent alternative =>
    test.Within p q ∧ consequent.Within p q ∧ alternative.Within p q
  | .lambda l => l.Within p q
  | .sequence units => Code.AllWithin p q units
  | .application operator operands => operator.Within p q ∧ Code.AllWithin p q operands

def Code.AllWithin (p : Handle → Prop) (q : Primitive → Prop) : List Code → Prop
  | [] => True
  | unit :: units => unit.Within p q ∧ Code.AllWithin p q units

end

attribute [simp] Datum.Within Lambda.Within Code.Within

@[simp] theorem Code.allWithin_iff {p : Handle → Prop} {q : Primitive → Prop} {units : List Code} :
    Code.AllWithin p q units ↔ ∀ unit ∈ units, unit.Within p q := by
  induction units with
  | nil => simp [Code.AllWithin]
  | cons unit units ih => simp [Code.AllWithin, ih]

variable {p p' : Handle → Prop} {q : Primitive → Prop} {σ τ : Handle → Handle}

mutual

theorem Datum.Within.mentions : ∀ {d : Datum}, d.Within p q → ∀ {h}, d.Mentions h → p h
  | .pair _ _ _, hd, _, hm => by
    cases hm with
    | head hm => exact hd.1.mentions hm
    | tail hm => exact hd.2.mentions hm
  | .quoted d, hd, _, hm => by
    cases hm with
    | quoted hm => exact Datum.Within.mentions (d := d) hd hm
  | .closure _ _ _, hd, _, hm => by
    cases hm with
    | frame => exact hd.1
    | body hm => exact hd.2.mentions hm
  | .number _, _, _, hm | .string _, _, _, hm | .boolean _, _, _, hm | .symbol _, _, _, hm
  | .nil, _, _, hm | .primitive _, _, _, hm => by cases hm

theorem Lambda.Within.mentions : ∀ {l : Lambda}, l.Within p q → ∀ {h}, l.Mentions h → p h
  | .mk _ _ c, hl, _, hm => by
    cases hm with
    | body hm => exact Code.Within.mentions (c := c) hl hm

theorem Code.Within.mentions : ∀ {c : Code}, c.Within p q → ∀ {h}, c.Mentions h → p h
  | .constant d, hc, _, hm => by
    cases hm with
    | constant hm => exact Datum.Within.mentions (d := d) hc hm
  | .variable _, _, _, hm => by cases hm
  | .assignment _ c, hc, _, hm => by
    cases hm with
    | assigned hm => exact Code.Within.mentions (c := c) hc hm
  | .definition _ c, hc, _, hm => by
    cases hm with
    | defined hm => exact Code.Within.mentions (c := c) hc hm
  | .conditional _ _ _, hc, _, hm => by
    cases hm with
    | test hm => exact hc.1.mentions hm
    | consequent hm => exact hc.2.1.mentions hm
    | alternative hm => exact hc.2.2.mentions hm
  | .lambda l, hc, _, hm => by
    cases hm with
    | lambda hm => exact Lambda.Within.mentions (l := l) hc hm
  | .sequence _, hc, _, hm => by
    cases hm with
    | sequence hu hm => exact Code.AllWithin.mentions hc hu hm
  | .application _ _, hc, _, hm => by
    cases hm with
    | operator hm => exact hc.1.mentions hm
    | operand hu hm => exact Code.AllWithin.mentions hc.2 hu hm

theorem Code.AllWithin.mentions : ∀ {units : List Code}, Code.AllWithin p q units →
    ∀ {unit}, unit ∈ units → ∀ {h}, unit.Mentions h → p h
  | _ :: _, hc, _, hu, _, hm => by
    cases hu with
    | head => exact hc.1.mentions hm
    | tail _ hu => exact Code.AllWithin.mentions hc.2 hu hm

end

mutual

/-- The bound on the handles can be exchanged for any other that holds of them. -/
theorem Datum.Within.of_mentions : ∀ {d : Datum}, d.Within p q → (∀ h, d.Mentions h → p' h) →
    d.Within p' q
  | .pair _ _ _, hd, hp =>
    ⟨hd.1.of_mentions fun h hm => hp h (.head hm), hd.2.of_mentions fun h hm => hp h (.tail hm)⟩
  | .quoted d, hd, hp => Datum.Within.of_mentions (d := d) hd fun h hm => hp h (.quoted hm)
  | .closure _ _ frame, hd, hp =>
    ⟨hp frame .frame, hd.2.of_mentions fun h hm => hp h (.body hm)⟩
  | .number _, _, _ | .string _, _, _ | .boolean _, _, _ | .symbol _, _, _ | .nil, _, _ => trivial
  | .primitive _, hd, _ => hd

theorem Lambda.Within.of_mentions : ∀ {l : Lambda}, l.Within p q → (∀ h, l.Mentions h → p' h) →
    l.Within p' q
  | .mk _ _ c, hl, hp => Code.Within.of_mentions (c := c) hl fun h hm => hp h (.body hm)

theorem Code.Within.of_mentions : ∀ {c : Code}, c.Within p q → (∀ h, c.Mentions h → p' h) →
    c.Within p' q
  | .constant d, hc, hp => Datum.Within.of_mentions (d := d) hc fun h hm => hp h (.constant hm)
  | .variable _, _, _ => trivial
  | .assignment _ c, hc, hp => Code.Within.of_mentions (c := c) hc fun h hm => hp h (.assigned hm)
  | .definition _ c, hc, hp => Code.Within.of_mentions (c := c) hc fun h hm => hp h (.defined hm)
  | .conditional _ _ _, hc, hp =>
    ⟨hc.1.of_mentions fun h hm => hp h (.test hm),
      hc.2.1.of_mentions fun h hm => hp h (.consequent hm),
      hc.2.2.of_mentions fun h hm => hp h (.alternative hm)⟩
  | .lambda l, hc, hp => Lambda.Within.of_mentions (l := l) hc fun h hm => hp h (.lambda hm)
  | .sequence _, hc, hp =>
    Code.AllWithin.of_mentions hc fun _ hu h hm => hp h (.sequence hu hm)
  | .application _ _, hc, hp =>
    ⟨hc.1.of_mentions fun h hm => hp h (.operator hm),
      Code.AllWithin.of_mentions hc.2 fun _ hu h hm => hp h (.operand hu hm)⟩

theorem Code.AllWithin.of_mentions : ∀ {units : List Code}, Code.AllWithin p q units →
    (∀ unit ∈ units, ∀ h, unit.Mentions h → p' h) → Code.AllWithin p' q units
  | [], _, _ => trivial
  | unit :: _, hc, hp =>
    ⟨hc.1.of_mentions (hp unit List.mem_cons_self),
      Code.AllWithin.of_mentions hc.2 fun unit hu => hp unit (List.mem_cons_of_mem _ hu)⟩

end

mutual

/-- Without a bound, all data are within it. -/
theorem Datum.within_true : ∀ d : Datum, d.Within (fun _ => True) fun _ => True
  | .pair _ head tail => ⟨head.within_true, tail.within_true⟩
  | .quoted d => Datum.within_true d
  | .closure _ l _ => ⟨trivial, l.within_true⟩
  | .number _ | .string _ | .boolean _ | .symbol _ | .nil | .primitive _ => trivial

theorem Lambda.within_true : ∀ l : Lambda, l.Within (fun _ => True) fun _ => True
  | .mk _ _ c => Code.within_true c

theorem Code.within_true : ∀ c : Code, c.Within (fun _ => True) fun _ => True
  | .constant d => Datum.within_true d
  | .variable _ => trivial
  | .assignment _ c | .definition _ c => Code.within_true c
  | .conditional test consequent alternative =>
    ⟨test.within_true, consequent.within_true, alternative.within_true⟩
  | .lambda l => Lambda.within_true l
  | .sequence units => Code.allWithin_true units
  | .application operator operands => ⟨operator.within_true, Code.allWithin_true operands⟩

theorem Code.allWithin_true : ∀ units : List Code,
    Code.AllWithin (fun _ => True) (fun _ => True) units
  | [] => trivial
  | unit :: units => ⟨unit.within_true, Code.allWithin_true units⟩

end

theorem Datum.Within.mono {d : Datum} (hd : d.Within p q) (hp : ∀ h, p h → p' h) :
    d.Within p' q :=
  hd.of_mentions fun h hm => hp h (hd.mentions hm)

theorem Code.Within.mono {c : Code} (hc : c.Within p q) (hp : ∀ h, p h → p' h) :
    c.Within p' q :=
  hc.of_mentions fun h hm => hp h (hc.mentions hm)

mutual

/-- Renamings that agree on the handles in a datum rename it alike. -/
theorem Datum.Within.rename_congr (hσ : ∀ h, p h → σ h = τ h) :
    ∀ {d : Datum}, d.Within p q → d.rename σ = d.rename τ
  | .pair _ _ _, hd => by
    rw [Datum.rename, Datum.rename, hd.1.rename_congr hσ, hd.2.rename_congr hσ]
  | .quoted d, hd => by
    rw [Datum.rename, Datum.rename, Datum.Within.rename_congr (d := d) hσ hd]
  | .closure _ _ frame, hd => by
    rw [Datum.rename, Datum.rename, hσ frame hd.1, hd.2.rename_congr hσ]
  | .number _, _ | .string _, _ | .boolean _, _ | .symbol _, _ | .nil, _ | .primitive _, _ => rfl

theorem Lambda.Within.rename_congr (hσ : ∀ h, p h → σ h = τ h) :
    ∀ {l : Lambda}, l.Within p q → l.rename σ = l.rename τ
  | .mk _ _ c, hl => by rw [Lambda.rename, Lambda.rename, Code.Within.rename_congr (c := c) hσ hl]

theorem Code.Within.rename_congr (hσ : ∀ h, p h → σ h = τ h) :
    ∀ {c : Code}, c.Within p q → c.rename σ = c.rename τ
  | .constant d, hc => by
    rw [Code.rename, Code.rename, Datum.Within.rename_congr (d := d) hσ hc]
  | .variable _, _ => rfl
  | .assignment _ c, hc => by rw [Code.rename, Code.rename, Code.Within.rename_congr (c := c) hσ hc]
  | .definition _ c, hc => by rw [Code.rename, Code.rename, Code.Within.rename_congr (c := c) hσ hc]
  | .conditional _ _ _, hc => by
    rw [Code.rename, Code.rename, hc.1.rename_congr hσ, hc.2.1.rename_congr hσ,
      hc.2.2.rename_congr hσ]
  | .lambda l, hc => by rw [Code.rename, Code.rename, Lambda.Within.rename_congr (l := l) hσ hc]
  | .sequence _, hc => by rw [Code.rename, Code.rename, Code.AllWithin.renameAll_congr hσ hc]
  | .application _ _, hc => by
    rw [Code.rename, Code.rename, hc.1.rename_congr hσ, Code.AllWithin.renameAll_congr hσ hc.2]

theorem Code.AllWithin.renameAll_congr (hσ : ∀ h, p h → σ h = τ h) :
    ∀ {units : List Code}, Code.AllWithin p q units →
      Code.renameAll σ units = Code.renameAll τ units
  | [], _ => rfl
  | _ :: _, hc => by
    rw [Code.renameAll, Code.renameAll, hc.1.rename_congr hσ,
      Code.AllWithin.renameAll_congr hσ hc.2]

end

mutual

theorem Datum.Mentions.rename (σ : Handle → Handle) : ∀ {d : Datum} {h : Handle},
    d.Mentions h → (d.rename σ).Mentions (σ h)
  | _, _, .head hm => .head (hm.rename σ)
  | _, _, .tail hm => .tail (hm.rename σ)
  | _, _, .quoted hm => .quoted (hm.rename σ)
  | _, _, .frame => .frame
  | _, _, .body hm => .body (hm.rename σ)

theorem Lambda.Mentions.rename (σ : Handle → Handle) : ∀ {l : Lambda} {h : Handle},
    l.Mentions h → (l.rename σ).Mentions (σ h)
  | _, _, .body hm => .body (hm.rename σ)

theorem Code.Mentions.rename (σ : Handle → Handle) : ∀ {c : Code} {h : Handle},
    c.Mentions h → (c.rename σ).Mentions (σ h)
  | _, _, .constant hm => .constant (hm.rename σ)
  | _, _, .assigned hm => .assigned (hm.rename σ)
  | _, _, .defined hm => .defined (hm.rename σ)
  | _, _, .test hm => .test (hm.rename σ)
  | _, _, .consequent hm => .consequent (hm.rename σ)
  | _, _, .alternative hm => .alternative (hm.rename σ)
  | _, _, .lambda hm => .lambda (hm.rename σ)
  | .sequence units, _, .sequence hu hm => by
    rw [Code.rename, Code.renameAll_eq_map]
    exact .sequence (List.mem_map_of_mem hu) (hm.rename σ)
  | _, _, .operator hm => .operator (hm.rename σ)
  | .application operator operands, _, .operand hu hm => by
    rw [Code.rename, Code.renameAll_eq_map]
    exact .operand (List.mem_map_of_mem hu) (hm.rename σ)

end

end FrameLisp
