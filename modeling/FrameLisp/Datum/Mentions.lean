import FrameLisp.Datum.Trace

/-!
# What a datum mentions

A datum mentions the frame of every closure in it: in the parts of pairs, under quotes, and in the
constants of the bodies of closures, however deep. Tracing a datum collects exactly the handles
that it mentions.
-/
namespace FrameLisp

open Store

mutual

inductive Datum.Mentions : Datum → Handle → Prop
  | head {mark head tail h} : head.Mentions h → Datum.Mentions (.pair mark head tail) h
  | tail {mark head tail h} : tail.Mentions h → Datum.Mentions (.pair mark head tail) h
  | quoted {d h} : d.Mentions h → Datum.Mentions (.quoted d) h
  | frame {mark l h} : Datum.Mentions (.closure mark l h) h
  | body {mark l frame h} : l.Mentions h → Datum.Mentions (.closure mark l frame) h

inductive Lambda.Mentions : Lambda → Handle → Prop
  | body {name parameters body h} : body.Mentions h → Lambda.Mentions (.mk name parameters body) h

inductive Code.Mentions : Code → Handle → Prop
  | constant {d h} : d.Mentions h → Code.Mentions (.constant d) h
  | assigned {name value h} : value.Mentions h → Code.Mentions (.assignment name value) h
  | defined {name value h} : value.Mentions h → Code.Mentions (.definition name value) h
  | test {t c a h} : t.Mentions h → Code.Mentions (.conditional t c a) h
  | consequent {t c a h} : c.Mentions h → Code.Mentions (.conditional t c a) h
  | alternative {t c a h} : a.Mentions h → Code.Mentions (.conditional t c a) h
  | lambda {l h} : l.Mentions h → Code.Mentions (.lambda l) h
  | sequence {units unit h} : unit ∈ units → unit.Mentions h → Code.Mentions (.sequence units) h
  | operator {operator operands h} :
      operator.Mentions h → Code.Mentions (.application operator operands) h
  | operand {operator operands unit h} :
      unit ∈ operands → unit.Mentions h → Code.Mentions (.application operator operands) h

end

mutual

theorem Datum.mem_trace_iff {h : Handle} : ∀ (d : Datum) (out : Array Handle),
    h ∈ d.trace out ↔ h ∈ out ∨ d.Mentions h
  | .pair mark head tail, out => by
    rw [Datum.trace, Datum.mem_trace_iff tail, Datum.mem_trace_iff head, or_assoc]
    refine or_congr_right ⟨?_, ?_⟩
    · rintro (hm | hm)
      · exact .head hm
      · exact .tail hm
    · intro hm
      cases hm with
      | head hm => exact .inl hm
      | tail hm => exact .inr hm
  | .quoted d, out => by
    rw [Datum.trace, Datum.mem_trace_iff d]
    refine or_congr_right ⟨.quoted, fun hm => ?_⟩
    cases hm with
    | quoted hm => exact hm
  | .closure mark l frame, out => by
    rw [Datum.trace, Lambda.mem_trace_iff l, Array.mem_push, or_assoc]
    refine or_congr_right ⟨?_, ?_⟩
    · rintro (rfl | hm)
      · exact .frame
      · exact .body hm
    · intro hm
      cases hm with
      | frame => exact .inl rfl
      | body hm => exact .inr hm
  | .number _, out | .string _, out | .boolean _, out | .symbol _, out | .nil, out
  | .primitive _, out => by
    simp only [Datum.trace]
    exact ⟨.inl, fun hm => hm.resolve_right fun hn => by cases hn⟩

theorem Lambda.mem_trace_iff {h : Handle} : ∀ (l : Lambda) (out : Array Handle),
    h ∈ l.trace out ↔ h ∈ out ∨ l.Mentions h
  | .mk name parameters body, out => by
    rw [Lambda.trace, Code.mem_trace_iff body]
    refine or_congr_right ⟨.body, fun hm => ?_⟩
    cases hm with
    | body hm => exact hm

theorem Code.mem_trace_iff {h : Handle} : ∀ (c : Code) (out : Array Handle),
    h ∈ c.trace out ↔ h ∈ out ∨ c.Mentions h
  | .constant d, out => by
    rw [Code.trace, Datum.mem_trace_iff d]
    refine or_congr_right ⟨.constant, fun hm => ?_⟩
    cases hm with
    | constant hm => exact hm
  | .variable name, out => by
    rw [Code.trace]
    exact ⟨.inl, fun hm => hm.resolve_right fun hn => by cases hn⟩
  | .assignment name value, out => by
    rw [Code.trace, Code.mem_trace_iff value]
    refine or_congr_right ⟨.assigned, fun hm => ?_⟩
    cases hm with
    | assigned hm => exact hm
  | .definition name value, out => by
    rw [Code.trace, Code.mem_trace_iff value]
    refine or_congr_right ⟨.defined, fun hm => ?_⟩
    cases hm with
    | defined hm => exact hm
  | .conditional t c a, out => by
    rw [Code.trace, Code.mem_trace_iff a, Code.mem_trace_iff c, Code.mem_trace_iff t, or_assoc,
      or_assoc]
    refine or_congr_right ⟨?_, ?_⟩
    · rintro (hm | hm | hm)
      · exact .test hm
      · exact .consequent hm
      · exact .alternative hm
    · intro hm
      cases hm with
      | test hm => exact .inl hm
      | consequent hm => exact .inr (.inl hm)
      | alternative hm => exact .inr (.inr hm)
  | .lambda l, out => by
    rw [Code.trace, Lambda.mem_trace_iff l]
    refine or_congr_right ⟨.lambda, fun hm => ?_⟩
    cases hm with
    | lambda hm => exact hm
  | .sequence units, out => by
    rw [Code.trace, Code.mem_traceAll_iff units]
    refine or_congr_right ⟨?_, ?_⟩
    · rintro ⟨unit, hu, hm⟩
      exact .sequence hu hm
    · intro hm
      cases hm with
      | sequence hu hm => exact ⟨_, hu, hm⟩
  | .application operator operands, out => by
    rw [Code.trace, Code.mem_traceAll_iff operands, Code.mem_trace_iff operator, or_assoc]
    refine or_congr_right ⟨?_, ?_⟩
    · rintro (hm | ⟨unit, hu, hm⟩)
      · exact .operator hm
      · exact .operand hu hm
    · intro hm
      cases hm with
      | operator hm => exact .inl hm
      | operand hu hm => exact .inr ⟨_, hu, hm⟩

theorem Code.mem_traceAll_iff {h : Handle} : ∀ (units : List Code) (out : Array Handle),
    h ∈ Code.traceAll out units ↔ h ∈ out ∨ ∃ unit ∈ units, unit.Mentions h
  | [], out => by simp [Code.traceAll]
  | unit :: units, out => by
    rw [Code.traceAll, Code.mem_traceAll_iff units, Code.mem_trace_iff unit, or_assoc]
    simp

end

theorem Datum.mem_traceAll_iff {h : Handle} {data : List Datum} :
    h ∈ Datum.traceAll data ↔ ∃ d ∈ data, d.Mentions h := by
  have key : ∀ out : Array Handle,
      h ∈ data.foldl (fun out d => d.trace out) out ↔ h ∈ out ∨ ∃ d ∈ data, d.Mentions h := by
    induction data with
    | nil => simp
    | cons d data ih =>
      intro out
      rw [List.foldl_cons, ih, Datum.mem_trace_iff, or_assoc]
      simp
  simpa [Datum.traceAll] using key #[]

end FrameLisp
