import DocFlow.Proofs.TypeExpr.Lexing
import DocFlow.Proofs.TypeExpr.Soundness
import DocFlow.TypeExpr.Basic

namespace DocFlow

/-- All names that go into the Flow text of a type are of one kind. -/
inductive TypeExpr.NamedBy (ok : Text → Prop) : TypeExpr → Prop where
  | formless {e} (none : e.flow = none) : NamedBy ok e
  | any : NamedBy ok .any
  | named {n} (free : TypeGrammar.isReservedName n = false) (name : ok n) : NamedBy ok (.named n)
  | generic {n es} (free : TypeGrammar.isReservedName n = false) (name : ok n)
    (arguments : ∀ e ∈ es, NamedBy ok e) : NamedBy ok (.generic (.named n) es)
  | union {es} (members : ∀ e ∈ es, NamedBy ok e) : NamedBy ok (.union es)
  | nullable {e side} (inner : NamedBy ok e) : NamedBy ok (.nullable e side)
  | optional {e} (inner : NamedBy ok e) : NamedBy ok (.optional e)

namespace TypeGrammar

open TypeExpr (NamedBy)

variable {ok : Text → Prop}

def Symbol.NamedBy (ok : Text → Prop) : (s : Symbol) → s.Value → Prop
  | .single, e | .union, e | .basic, e => e.NamedBy ok
  | .members, es | .arguments, es | .elements, es => ∀ e ∈ es, e.NamedBy ok
  | .fields, _ | .fieldValue, _ | .params, _ | .param, _ => True

theorem ofName_of_free {n : Text} (free : isReservedName n = false) : ofName n = .named n := by
  simp only [isReservedName, Bool.or_eq_false_iff, beq_eq_false_iff_ne] at free
  rw [ofName, if_neg free.1.1, if_neg free.1.2, if_neg free.2]

theorem flow_ofName_of_reserved {n : Text} (reserved : isReservedName n = true) :
    (ofName n).flow = none := by
  simp only [isReservedName, Bool.or_eq_true, beq_iff_eq] at reserved
  rcases reserved with (rfl | rfl) | rfl <;> rfl

theorem namedBy_ofName {n : Text} (h : ok n) : (ofName n).NamedBy ok := by
  cases hreserved : isReservedName n with
  | false =>
    rw [ofName_of_free hreserved]
    exact .named hreserved h
  | true => exact .formless (flow_ofName_of_reserved hreserved)

theorem namedBy_ofMembers {es : List TypeExpr} (h : ∀ e ∈ es, e.NamedBy ok) :
    (ofMembers es).NamedBy ok := by
  unfold ofMembers
  split
  · exact h _ List.mem_cons_self
  · exact .union h

theorem flow_of_decimalValue {negative signed digits} {e : TypeExpr}
    (h : numeralType.decimalValue negative signed digits = .ok e) : e.flow = none := by
  unfold numeralType.decimalValue at h
  split at h
  · cases h
    rfl
  · split at h
    · cases h
      rfl
    · cases h

theorem flow_of_numeralType {t : Text} {e : TypeExpr} (h : numeralType t = .ok e) :
    e.flow = none := by
  unfold numeralType at h
  dsimp only at h
  split at h
  · next x _ _ =>
    by_cases hex : isHexMark x = true
    · rw [if_pos hex] at h
      cases h
      rfl
    · rw [if_neg hex] at h
      exact flow_of_decimalValue h
  · exact flow_of_decimalValue h

theorem Suffixes.namedBy (harray : ok "Array".toList) {e ts e' rest} (h : Suffixes e ts e' rest)
    (he : e.NamedBy ok) : e'.NamedBy ok := by
  induction h with
  | done => exact he
  | array _ ih =>
    refine ih (.generic rfl harray fun e hmem => ?_)
    rw [List.mem_singleton.1 hmem]
    exact he
  | optional _ ih => exact ih (.optional he)
  | nullable _ ih => exact ih (.nullable he)
  | nonNullable _ ih => exact ih (.formless rfl)

def NamesAre (ok : Text → Prop) (ts : List Token) : Prop := ∀ t ∈ ts, ∀ n, t.lexeme = .name n → ok n

theorem NamesAre.of_suffix {ts rest : List Token} (h : NamesAre ok ts) (sub : rest <:+ ts) :
    NamesAre ok rest := fun t ht => h t (sub.mem ht)

/-- All that is derived from tokens takes its names from them. -/
theorem Derives.namedBy (harray : ok "Array".toList) {s ts v rest} (h : Derives s ts v rest)
    (names : NamesAre ok ts) : s.NamedBy ok v := by
  induction h with
  | unknown _ suffixes => exact suffixes.namedBy harray (.formless rfl)
  | nullable _ _ ih => exact .nullable (ih (names.of_suffix (List.suffix_cons ..)))
  | nonNullable | anyRest | rest | record | tuple | string | function | functionTo =>
    exact .formless rfl
  | suffixed _ suffixes ih => exact suffixes.namedBy harray (ih names)
  | member _ ih | argument _ ih | element _ ih =>
    intro e he
    rw [List.mem_singleton.1 he]
    exact ih names
  | bar first _ ihFirst ihMore | moreArguments first _ ihFirst ihMore
  | moreElements first _ ihFirst ihMore =>
    intro e he
    rcases List.mem_cons.1 he with rfl | he
    · exact ihFirst names
    · exact ihMore (names.of_suffix ((List.suffix_cons ..).trans first.isSuffix)) e he
  | alternatives _ ih => exact namedBy_ofMembers (ih names)
  | any => exact .any
  | parens _ ih => exact .union (ih (names.of_suffix (List.suffix_cons ..)))
  | number value => exact .formless (flow_of_numeralType value)
  | name => exact namedBy_ofName (names _ List.mem_cons_self _ rfl)
  | generic free _ _ ih =>
    exact .generic free (names _ List.mem_cons_self _ rfl) (ih (names.of_suffix ⟨[_, _], rfl⟩))
  | noElements => exact nofun
  | positional | bound | noFields | field | moreFields | noValue | value | noParams | lastParam
  | moreParams => trivial

theorem namesAre_of_tokens (hname : ∀ t n rest, nameLexeme? t = some (n, rest) → ok n) {t : Text}
    {ts : List Token} (h : tokens t = .ok ts) : NamesAre ok ts := by
  intro token hmem n hn
  have hlexed := lexed_iff_tokens.2 ⟨ts, h, rfl⟩
  obtain ⟨t', rest, hread⟩ := hlexed.name_of_mem (List.mem_map.2 ⟨token, hmem, hn⟩)
  exact hname t' n rest hread

end TypeGrammar

namespace TypeExpr

theorem parse_eq_ok {text : Text} {e : TypeExpr} :
    parse text = .ok e ↔
      ∃ ts, TypeGrammar.tokens (Text.trim text) = .ok ts ∧ TypeGrammar.ofTokens ts = .ok e := by
  unfold parse
  dsimp only
  cases TypeGrammar.tokens (Text.trim text) with
  | error stray => simp
  | ok ts => cases hparsed : TypeGrammar.ofTokens ts <;> simp [Except.mapError, hparsed]

/-- Whatever holds of all names that are read, and of that of the arrays, holds of the names of a
parsed type. -/
theorem namedBy_of_parse {ok : Text → Prop} (harray : ok "Array".toList)
    (hname : ∀ t n rest, TypeGrammar.nameLexeme? t = some (n, rest) → ok n) {text : Text}
    {e : TypeExpr} (h : parse text = .ok e) : e.NamedBy ok := by
  obtain ⟨ts, hts, hparsed⟩ := parse_eq_ok.1 h
  exact TypeGrammar.Derives.namedBy harray (TypeGrammar.spells_of_ofTokens hparsed)
    (TypeGrammar.namesAre_of_tokens hname hts)

end TypeExpr

end DocFlow
