import Mathlib
import DocFlow.Proofs.TypeExpr.Naming

namespace DocFlow.TypeGrammar

def flowMarks : List Mark := [.question, .bar, .openAngle, .closeAngle]

def Lexeme.IsFlow : Lexeme → Prop
  | .mark m => m ∈ flowMarks
  | .name n => '?' ∉ n
  | .string _ | .number _ => False

/-- Whether a type stands wherever one is due: at first, and behind each bar and opening angle. A
question mark leaves a type due that is due before it. One without a type behind it is the unknown
type, which has no Flow text. -/
def hasOperands (due : Bool) : List Lexeme → Bool
  | [] => !due
  | .mark .question :: ls => hasOperands due ls
  | .mark m :: ls => !due && hasOperands (m != .closeAngle) ls
  | .name _ :: ls | .string _ :: ls | .number _ :: ls => hasOperands false ls

theorem hasOperands_cons_mark {m : Mark} (hm : m ≠ .question) (due : Bool) (ls : List Lexeme) :
    hasOperands due (.mark m :: ls) = (!due && hasOperands (m != .closeAngle) ls) := by
  cases m <;> first | exact absurd rfl hm | rfl

theorem hasOperands_mark {m : Mark} (hm : m ≠ .question) (due : Bool) (ls more : List Lexeme) :
    hasOperands due (ls ++ .mark m :: more) =
      (hasOperands due ls && hasOperands (m != .closeAngle) more) := by
  induction ls generalizing due with
  | nil => exact hasOperands_cons_mark hm due more
  | cons l ls ih =>
    cases l with
    | mark m' =>
      by_cases hquestion : m' = .question
      · subst hquestion
        exact ih due
      · rw [List.cons_append, hasOperands_cons_mark hquestion, hasOperands_cons_mark hquestion, ih,
          Bool.and_assoc]
    | name | string | number => exact ih false

theorem hasOperands_bar (ls more : List Lexeme) :
    hasOperands true (ls ++ .mark .bar :: more) = (hasOperands true ls && hasOperands true more) :=
  hasOperands_mark (by decide) true ls more

theorem hasOperands_generic (n : Text) (ls : List Lexeme) :
    hasOperands true (.name n :: .mark .openAngle :: (ls ++ [.mark .closeAngle])) =
      hasOperands true ls := by
  have hclose : Mark.closeAngle ≠ .question := by decide
  have hinside := hasOperands_mark hclose true ls []
  exact hinside.trans (Bool.and_true _)

/-- Question marks behind a type change nothing. -/
theorem hasOperands_questions {qs : List Lexeme} (hqs : ∀ q ∈ qs, q = .mark .question) (due : Bool)
    (ls : List Lexeme) : hasOperands due (ls ++ qs) = hasOperands due ls := by
  induction ls generalizing due with
  | nil =>
    induction qs with
    | nil => rfl
    | cons q qs ih =>
      rw [hqs q List.mem_cons_self]
      exact ih fun q hq => hqs q (List.mem_cons_of_mem _ hq)
  | cons l ls ih =>
    cases l with
    | mark m =>
      by_cases hquestion : m = .question
      · subst hquestion
        exact ih due
      · rw [List.cons_append, hasOperands_cons_mark hquestion, hasOperands_cons_mark hquestion, ih]
    | name | string | number => exact ih false

def questions (flow : Option Text) : Nat := (flow.getD []).count '?'

theorem questions_map (flow : Option Text) :
    questions (flow.map ('?' :: ·)) ≤ questions flow + 1 := by
  cases flow with
  | none => exact Nat.zero_le _
  | some t => simp [questions]

theorem questions_ofName {n : Text} (hn : '?' ∉ n) : questions (ofName n).flow = 0 := by
  cases hreserved : isReservedName n with
  | false =>
    rw [ofName_of_free hreserved]
    exact List.count_eq_zero.2 hn
  | true =>
    rw [flow_ofName_of_reserved hreserved]
    rfl

theorem questions_genericText (base argument : Option Text) (hbase : questions base = 0) :
    questions (TypeExpr.genericText base argument) ≤ questions argument := by
  unfold TypeExpr.genericText
  split
  · split
    · exact Nat.zero_le _
    · simpa [questions] using hbase
  · exact Nat.zero_le _

theorem questions_flowEach_cons (e : TypeExpr) (es : List TypeExpr) :
    (Text.join " | ".toList (TypeExpr.flowEach (e :: es))).count '?' =
      questions e.flow + (Text.join " | ".toList (TypeExpr.flowEach es)).count '?' := by
  rw [TypeExpr.flowEach]
  cases e.flow with
  | none => simp [questions]
  | some t =>
    cases TypeExpr.flowEach es with
    | nil => simp [questions, Text.join]
    | cons u us =>
      simp [questions, Text.join, List.count_append]

theorem questions_ofMembers (es : List TypeExpr) :
    questions (ofMembers es).flow = (Text.join " | ".toList (TypeExpr.flowEach es)).count '?' := by
  unfold ofMembers
  split
  · next e => simpa [TypeExpr.flowEach, Text.join] using (questions_flowEach_cons e []).symm
  · rw [TypeExpr.flow]
    rfl

/-- A text has no more question marks than its lexemes, and fewer if an operand is missing. -/
structure Keeps (ls : List Lexeme) (marks : Nat) : Prop where
  few : marks ≤ ls.count (.mark .question)
  operands : marks = ls.count (.mark .question) → hasOperands true ls = true

namespace Keeps

variable {ls more : List Lexeme} {marks marks' : Nat}

theorem of_lt (h : marks < ls.count (.mark .question)) : Keeps ls marks :=
  ⟨h.le, fun heq => absurd heq h.ne⟩

theorem mono (h : Keeps ls marks) (hle : marks' ≤ marks) : Keeps ls marks' := by
  have hfew := h.few
  refine ⟨by omega, fun heq => ?_⟩
  apply h.operands
  omega

theorem question (h : Keeps ls marks) : Keeps (.mark .question :: ls) (marks + 1) := by
  have hfew := h.few
  have hcount : (.mark .question :: ls).count (.mark .question) =
      ls.count (.mark .question) + 1 := List.count_cons_self
  refine ⟨by omega, fun heq => ?_⟩
  have hinner := h.operands (by omega)
  exact hinner

/-- A type with question marks behind it. -/
theorem suffixes {qs : List Lexeme} (h : Keeps ls marks) (hqs : ∀ q ∈ qs, q = .mark .question) :
    Keeps (ls ++ qs) (marks + qs.length) := by
  have hfew := h.few
  have hall : qs.count (.mark .question) = qs.length :=
    List.count_eq_length.2 fun q hq => (hqs q hq).symm
  have hcount : (ls ++ qs).count (.mark .question) = ls.count (.mark .question) + qs.length := by
    rw [List.count_append, hall]
  refine ⟨by omega, fun heq => ?_⟩
  rw [hasOperands_questions hqs]
  apply h.operands
  omega

theorem bar (h : Keeps ls marks) (h' : Keeps more marks') :
    Keeps (ls ++ .mark .bar :: more) (marks + marks') := by
  have hfew := h.few
  have hfew' := h'.few
  have hcount : (ls ++ .mark .bar :: more).count (.mark .question) =
      ls.count (.mark .question) + more.count (.mark .question) := by simp
  refine ⟨by omega, fun heq => ?_⟩
  -- No side can make up for a question mark that the other one loses.
  have hfirst := h.operands (by omega)
  have hmore := h'.operands (by omega)
  rw [hasOperands_bar, hfirst, hmore, Bool.and_self]

theorem generic (h : Keeps ls marks) (n : Text) :
    Keeps (.name n :: .mark .openAngle :: (ls ++ [.mark .closeAngle])) marks := by
  have hfew := h.few
  have hcount : (.name n :: .mark .openAngle :: (ls ++ [.mark .closeAngle]) : List Lexeme).count
      (.mark .question) = ls.count (.mark .question) := by simp
  refine ⟨by omega, fun heq => ?_⟩
  rw [hasOperands_generic]
  apply h.operands
  omega

end Keeps

def Symbol.IsFlow : Symbol → Prop
  | .single | .members | .union | .basic | .arguments => True
  | .elements | .fields | .fieldValue | .params | .param => False

def Symbol.questions : (s : Symbol) → s.Value → Nat
  | .single, e | .union, e | .basic, e => TypeGrammar.questions e.flow
  | .members, es => (Text.join " | ".toList (TypeExpr.flowEach es)).count '?'
  | .arguments, es => TypeGrammar.questions (TypeExpr.flowFirst es)
  | .elements, _ | .fields, _ | .fieldValue, _ | .params, _ | .param, _ => 0

theorem mem_flowMarks {ts : List Token} (plain : ∀ t ∈ ts, t.lexeme.IsFlow) {m : Mark} {p : Nat}
    (h : ⟨.mark m, p⟩ ∈ ts) : m ∈ flowMarks := plain _ h

/-- Only question marks may stand behind a type in a Flow text. -/
theorem Suffixes.questions {e ts e' rest} (h : Suffixes e ts e' rest)
    (plain : ∀ t ∈ ts, t.lexeme.IsFlow) :
    ∃ qs, ts = qs ++ rest ∧ (∀ q ∈ qs.map Token.lexeme, q = .mark .question) ∧
      TypeGrammar.questions e'.flow ≤
        TypeGrammar.questions e.flow + (qs.map Token.lexeme).length := by
  induction h with
  | done => exact ⟨[], rfl, nofun, le_rfl⟩
  | array | optional | nonNullable =>
    exact absurd (mem_flowMarks plain List.mem_cons_self) (by decide)
  | @nullable e p ts e' rest _ ih =>
    obtain ⟨qs, rfl, hqs, hle⟩ := ih fun t ht => plain t (List.mem_cons_of_mem _ ht)
    refine ⟨⟨.mark .question, p⟩ :: qs, rfl, ?_, ?_⟩
    · rw [List.map_cons, List.forall_mem_cons]
      exact ⟨rfl, hqs⟩
    · have hown := questions_map e.flow
      rw [TypeExpr.flow] at hle
      rw [List.map_cons, List.length_cons]
      omega

/-- From lexemes of a Flow text, tokens of a symbol are taken that have as many question marks as
its value only if no operand is missing among them. -/
def KeepsMarks (s : Symbol) (ts : List Token) (v : s.Value) (rest : List Token) : Prop :=
  (∀ t ∈ ts, t.lexeme.IsFlow) →
    ∃ taken, ts = taken ++ rest ∧ Keeps (taken.map Token.lexeme) (s.questions v)

namespace KeepsMarks

variable {s : Symbol} {ts mid rest : List Token} {e : TypeExpr} {es : List TypeExpr} {p q r : Nat}

theorem foreign {m : Mark} {v : s.Value} (h : ⟨.mark m, p⟩ ∈ ts) (hm : m ∉ flowMarks) :
    KeepsMarks s ts v rest :=
  fun plain => absurd (mem_flowMarks plain h) hm

/-- The question mark of the unknown type is lost. -/
theorem unknown (suffixes : Suffixes .unknown ts e rest) :
    KeepsMarks .single (⟨.mark .question, p⟩ :: ts) e rest := by
  intro plain
  obtain ⟨qs, rfl, hqs, hle⟩ := suffixes.questions fun t ht => plain t (List.mem_cons_of_mem _ ht)
  refine ⟨⟨.mark .question, p⟩ :: qs, rfl, .of_lt ?_⟩
  have hcount := List.count_eq_length.2 fun q hq => (hqs q hq).symm
  have hnone : questions TypeExpr.unknown.flow = 0 := rfl
  rw [hnone, Nat.zero_add] at hle
  rw [List.map_cons, List.count_cons_self, hcount]
  exact Nat.lt_succ_of_le hle

theorem nullable (h : KeepsMarks .single ts e rest) :
    KeepsMarks .single (⟨.mark .question, p⟩ :: ts) (.nullable e .before) rest := by
  intro plain
  obtain ⟨taken, rfl, keeps⟩ := h fun t ht => plain t (List.mem_cons_of_mem _ ht)
  exact ⟨⟨.mark .question, p⟩ :: taken, rfl, keeps.question.mono (questions_map e.flow)⟩

theorem suffixed {e' : TypeExpr} (h : KeepsMarks .basic ts e mid)
    (suffixes : Suffixes e mid e' rest) : KeepsMarks .single ts e' rest := by
  intro plain
  obtain ⟨taken, rfl, keeps⟩ := h plain
  obtain ⟨qs, rfl, hqs, hle⟩ := suffixes.questions fun t ht => plain t (List.mem_append_right _ ht)
  refine ⟨taken ++ qs, (List.append_assoc ..).symm, ?_⟩
  rw [List.map_append]
  exact (keeps.suffixes hqs).mono hle

theorem member (h : KeepsMarks .single ts e rest) : KeepsMarks .members ts [e] rest := by
  intro plain
  obtain ⟨taken, rfl, keeps⟩ := h plain
  exact ⟨taken, rfl, keeps.mono (questions_flowEach_cons e []).le⟩

theorem bar (h : KeepsMarks .single ts e (⟨.mark .bar, p⟩ :: mid))
    (hmore : KeepsMarks .members mid es rest) : KeepsMarks .members ts (e :: es) rest := by
  intro plain
  obtain ⟨taken, rfl, keeps⟩ := h plain
  obtain ⟨more, rfl, keepsMore⟩ := hmore fun t ht =>
    plain t (List.mem_append_right _ (List.mem_cons_of_mem _ ht))
  refine ⟨taken ++ ⟨.mark .bar, p⟩ :: more, by simp, ?_⟩
  rw [List.map_append, List.map_cons, Symbol.questions, questions_flowEach_cons]
  exact keeps.bar keepsMore

theorem alternatives (h : KeepsMarks .members ts es rest) :
    KeepsMarks .union ts (ofMembers es) rest := by
  intro plain
  obtain ⟨taken, rfl, keeps⟩ := h plain
  refine ⟨taken, rfl, ?_⟩
  rw [Symbol.questions, questions_ofMembers]
  exact keeps

theorem name {n : Text} : KeepsMarks .basic (⟨.name n, p⟩ :: rest) (ofName n) rest := by
  intro plain
  have hn : '?' ∉ n := plain _ List.mem_cons_self
  refine ⟨[⟨.name n, p⟩], rfl, ?_⟩
  rw [Symbol.questions, questions_ofName hn]
  exact ⟨Nat.zero_le _, fun _ => rfl⟩

theorem generic {n : Text} {m : Mark} (opening : m = .openAngle ∨ m = .dotAngle)
    (h : KeepsMarks .arguments ts es (⟨.mark .closeAngle, r⟩ :: rest)) :
    KeepsMarks .basic (⟨.name n, p⟩ :: ⟨.mark m, q⟩ :: ts) (.generic (.named n) es) rest := by
  intro plain
  obtain ⟨taken, rfl, keeps⟩ := h fun t ht =>
    plain t (List.mem_cons_of_mem _ (List.mem_cons_of_mem _ ht))
  have hn : n.count '?' = 0 := List.count_eq_zero.2 (plain _ List.mem_cons_self)
  rcases opening with rfl | rfl
  · refine ⟨⟨.name n, p⟩ :: ⟨.mark .openAngle, q⟩ :: (taken ++ [⟨.mark .closeAngle, r⟩]),
      by simp, ?_⟩
    rw [List.map_cons, List.map_cons, List.map_append]
    exact (keeps.generic n).mono (questions_genericText (some n) (TypeExpr.flowFirst es) hn)
  · exact absurd (mem_flowMarks plain (List.mem_cons_of_mem _ List.mem_cons_self)) (by decide)

end KeepsMarks

theorem Derives.keepsMarks {s ts v rest} (h : Derives s ts v rest) (flow : s.IsFlow) :
    KeepsMarks s ts v rest := by
  -- All symbols of other types start with a mark or a literal that stands in no Flow text.
  induction h with
  | unknown _ suffixes => exact .unknown suffixes
  | nullable _ _ ih => exact .nullable (ih trivial)
  | suffixed _ suffixes ih => exact .suffixed (ih trivial) suffixes
  | member _ ih => exact .member (ih trivial)
  | bar _ _ first more => exact .bar (first trivial) (more trivial)
  | alternatives _ ih => exact .alternatives (ih trivial)
  | name => exact .name
  | generic _ opening _ ih => exact .generic opening (ih trivial)
  | argument _ ih => exact ih trivial
  | moreArguments first => exact .foreign (first.isSuffix.mem List.mem_cons_self) (by decide)
  | nonNullable | anyRest | rest | any | parens | record | tuple =>
    exact .foreign List.mem_cons_self (by decide)
  | function | functionTo => exact .foreign (List.mem_cons_of_mem _ List.mem_cons_self) (by decide)
  | string | number => exact fun plain => (plain _ List.mem_cons_self).elim
  | noElements | element | moreElements | noFields | field | moreFields | noValue | value | noParams
  | lastParam | moreParams | positional | bound => exact flow.elim

/-- What is spelled by lexemes of a Flow text has as many question marks only if no operand is
missing. -/
theorem Spells.hasOperands {ts : List Token} {e : TypeExpr} (h : Spells ts e)
    (plain : ∀ t ∈ ts, t.lexeme.IsFlow)
    (count : questions e.flow = (ts.map Token.lexeme).count (.mark .question)) :
    hasOperands true (ts.map Token.lexeme) = true := by
  obtain ⟨taken, htaken, keeps⟩ := h.keepsMarks trivial plain
  rw [List.append_nil] at htaken
  subst htaken
  exact keeps.operands count

end DocFlow.TypeGrammar
