import DocFlow.Proofs.TypeExpr.Delimiter
import DocFlow.Proofs.TypeExpr.Rereading

namespace DocFlow.TypeGrammar

def Extends (ms : List Lexeme) (ts us : List Token) : Prop :=
  us.map Token.lexeme = ts.map Token.lexeme ++ ms

def Encloses (ms : List Lexeme) : Prop :=
  ∃ m more, ms = .mark m :: more ∧ (m = .closeParen ∨ m = .closeAngle)

def Plain (ts : List Token) : Prop := ∀ t ∈ ts, t.lexeme ≠ .mark .ellipsis

theorem Plain.of_suffix {ts rest : List Token} (h : Plain ts) (sub : rest <:+ ts) : Plain rest :=
  fun t ht => h t (sub.subset ht)

theorem Plain.tail {t : Token} {ts : List Token} (h : Plain (t :: ts)) : Plain ts :=
  h.of_suffix (List.suffix_cons t ts)

theorem Plain.behind {t : Token} {ts rest : List Token} (h : Plain ts) (sub : t :: rest <:+ ts) :
    Plain rest :=
  (h.of_suffix sub).tail

variable {ms : List Lexeme} {ts us : List Token}

theorem Extends.exists_cons {l : Lexeme} {p : Nat} (h : Extends ms (⟨l, p⟩ :: ts) us) :
    ∃ q us', us = ⟨l, q⟩ :: us' ∧ Extends ms ts us' := by
  obtain ⟨⟨l', q⟩, us, rfl, rfl, hus⟩ := List.map_eq_cons_iff.1 h
  exact ⟨q, us, rfl, hus⟩

namespace Encloses

variable (hms : Encloses ms)
include hms

theorem exists_of_nil (h : Extends ms [] us) :
    ∃ m q us', us = ⟨.mark m, q⟩ :: us' ∧ (m = .closeParen ∨ m = .closeAngle) := by
  obtain ⟨m, more, rfl, hm⟩ := hms
  obtain ⟨⟨l, q⟩, us, rfl, rfl, -⟩ := List.map_eq_cons_iff.1 h
  exact ⟨m, q, us, rfl, hm⟩

/-- What closes a bracket leaves a question mark alone, as the end does. -/
theorem unknown_iff (h : Extends ms ts us) :
    EndsBefore unknownFollowers us ↔ EndsBefore unknownFollowers ts := by
  rcases ts with _ | ⟨⟨l, p⟩, ts⟩
  · obtain ⟨m, q, us, rfl, hm⟩ := hms.exists_of_nil h
    refine iff_of_true ⟨m, ?_, rfl⟩ trivial
    rcases hm with rfl | rfl <;> decide
  · obtain ⟨q, us, rfl, -⟩ := h.exists_cons
    exact Iff.rfl

/-- What closes a bracket binds to no type. -/
theorem not_startsSuffix (h : Extends ms ts us) (greedy : ¬ StartsSuffix ts) : ¬ StartsSuffix us := by
  rcases ts with _ | ⟨⟨l, p⟩, ts⟩
  · obtain ⟨m, q, us, rfl, hm⟩ := hms.exists_of_nil h
    rcases hm with rfl | rfl <;> exact id
  · obtain ⟨q, us, rfl, hus⟩ := h.exists_cons
    cases l with
    | mark m =>
      cases m with
      | openBracket =>
        rcases ts with _ | ⟨⟨l, r⟩, ts⟩
        · obtain ⟨m, r, us, rfl, hm⟩ := hms.exists_of_nil hus
          rcases hm with rfl | rfl <;> exact id
        · obtain ⟨r', us, rfl, -⟩ := hus.exists_cons
          cases l with
          | mark m => cases m <;> exact greedy
          | _ => exact id
      | _ => exact greedy
    | _ => exact id

theorem suffixes {e ts e' rest us} (h : Suffixes e ts e' rest) (hus : Extends ms ts us) :
    ∃ rest', Suffixes e us e' rest' ∧ Extends ms rest rest' := by
  induction h generalizing us with
  | done greedy => exact ⟨us, .done (hms.not_startsSuffix hus greedy), hus⟩
  | array _ ih =>
    obtain ⟨q, us', rfl, hus'⟩ := hus.exists_cons
    obtain ⟨r, us'', rfl, hus''⟩ := hus'.exists_cons
    obtain ⟨rest', more, hrest⟩ := ih hus''
    exact ⟨rest', .array more, hrest⟩
  | optional _ ih =>
    obtain ⟨q, us', rfl, hus'⟩ := hus.exists_cons
    obtain ⟨rest', more, hrest⟩ := ih hus'
    exact ⟨rest', .optional more, hrest⟩
  | nullable _ ih =>
    obtain ⟨q, us', rfl, hus'⟩ := hus.exists_cons
    obtain ⟨rest', more, hrest⟩ := ih hus'
    exact ⟨rest', .nullable more, hrest⟩
  | nonNullable _ ih =>
    obtain ⟨q, us', rfl, hus'⟩ := hus.exists_cons
    obtain ⟨rest', more, hrest⟩ := ih hus'
    exact ⟨rest', .nonNullable more, hrest⟩

end Encloses

/-- Tokens of a symbol are tokens of it with others behind them, too. -/
def Extensible (ms : List Lexeme) (s : Symbol) (ts : List Token) (v : s.Value)
    (rest : List Token) : Prop :=
  Plain ts → ∀ us, Extends ms ts us → ∃ rest', Derives s us v rest' ∧ Extends ms rest rest'

namespace Extensible

variable {s s' s'' : Symbol} {v : s.Value} {v' : s'.Value} {v'' : s''.Value} {l close : Lexeme}
  {p q r c : Nat} {mid rest : List Token}

theorem nothing (step : ∀ {rest}, Derives s rest v rest) : Extensible ms s rest v rest :=
  fun _ us hus => ⟨us, step, hus⟩

theorem token (step : ∀ {p rest}, Derives s (⟨l, p⟩ :: rest) v rest) :
    Extensible ms s (⟨l, p⟩ :: rest) v rest := by
  intro _ us hus
  obtain ⟨q, us', rfl, hus'⟩ := hus.exists_cons
  exact ⟨us', step, hus'⟩

theorem alone (h : Extensible ms s ts v rest)
    (step : ∀ {ts rest}, Derives s ts v rest → Derives s' ts v' rest) :
    Extensible ms s' ts v' rest := by
  intro plain us hus
  obtain ⟨rest', inner, hrest⟩ := h plain us hus
  exact ⟨rest', step inner, hrest⟩

theorem behind (h : Extensible ms s ts v rest)
    (step : ∀ {p ts rest}, Derives s ts v rest → Derives s' (⟨l, p⟩ :: ts) v' rest) :
    Extensible ms s' (⟨l, p⟩ :: ts) v' rest := by
  intro plain us hus
  obtain ⟨q, us', rfl, hus'⟩ := hus.exists_cons
  obtain ⟨rest', inner, hrest⟩ := h plain.tail us' hus'
  exact ⟨rest', step inner, hrest⟩

theorem enclosed (h : Extensible ms s ts v (⟨close, q⟩ :: rest))
    (step : ∀ {p q ts rest}, Derives s ts v (⟨close, q⟩ :: rest) →
      Derives s' (⟨l, p⟩ :: ts) v' rest) :
    Extensible ms s' (⟨l, p⟩ :: ts) v' rest := by
  intro plain us hus
  obtain ⟨q, us', rfl, hus'⟩ := hus.exists_cons
  obtain ⟨mid, inside, hmid⟩ := h plain.tail us' hus'
  obtain ⟨r, rest', rfl, hrest⟩ := hmid.exists_cons
  exact ⟨rest', step inside, hrest⟩

theorem separated (hfirst : Derives s ts v (⟨l, p⟩ :: mid))
    (first : Extensible ms s ts v (⟨l, p⟩ :: mid)) (more : Extensible ms s' mid v' rest)
    (step : ∀ {p ts mid rest}, Derives s ts v (⟨l, p⟩ :: mid) → Derives s' mid v' rest →
      Derives s'' ts v'' rest) :
    Extensible ms s'' ts v'' rest := by
  intro plain us hus
  obtain ⟨mid, first, hmid⟩ := first plain us hus
  obtain ⟨q, mid', rfl, hmid'⟩ := hmid.exists_cons
  obtain ⟨rest', more, hrest⟩ := more (plain.behind hfirst.isSuffix) mid' hmid'
  exact ⟨rest', step first more, hrest⟩

theorem unknown (hms : Encloses ms) (alone : EndsBefore unknownFollowers ts) {e : TypeExpr}
    (suffixes : Suffixes .unknown ts e rest) :
    Extensible ms .single (⟨.mark .question, p⟩ :: ts) e rest := by
  intro _ us hus
  obtain ⟨q, us', rfl, hus'⟩ := hus.exists_cons
  obtain ⟨rest', more, hrest⟩ := hms.suffixes suffixes hus'
  exact ⟨rest', .unknown ((hms.unknown_iff hus').2 alone) more, hrest⟩

theorem nullable (hms : Encloses ms) (followed : ¬ EndsBefore unknownFollowers ts) {e : TypeExpr}
    (h : Extensible ms .single ts e rest) :
    Extensible ms .single (⟨.mark .question, p⟩ :: ts) (.nullable e .before) rest := by
  intro plain us hus
  obtain ⟨q, us', rfl, hus'⟩ := hus.exists_cons
  obtain ⟨rest', inner, hrest⟩ := h plain.tail us' hus'
  exact ⟨rest', .nullable (mt (hms.unknown_iff hus').1 followed) inner, hrest⟩

theorem ellipsis {v : s.Value} : Extensible ms s (⟨.mark .ellipsis, p⟩ :: ts) v rest :=
  fun plain _ _ => absurd rfl (plain _ List.mem_cons_self)

theorem suffixed (hms : Encloses ms) {e e' : TypeExpr} (h : Extensible ms .basic ts e mid)
    (suffixes : Suffixes e mid e' rest) : Extensible ms .single ts e' rest := by
  intro plain us hus
  obtain ⟨mid, inner, hmid⟩ := h plain us hus
  obtain ⟨rest', more, hrest⟩ := hms.suffixes suffixes hmid
  exact ⟨rest', .suffixed inner more, hrest⟩

theorem generic {n : Text} {m : Mark} {es : List TypeExpr} (free : isReservedName n = false)
    (opening : m = .openAngle ∨ m = .dotAngle)
    (h : Extensible ms .arguments ts es (⟨.mark .closeAngle, r⟩ :: rest)) :
    Extensible ms .basic (⟨.name n, p⟩ :: ⟨.mark m, q⟩ :: ts) (.generic (.named n) es) rest := by
  intro plain us hus
  obtain ⟨p, us', rfl, hus'⟩ := hus.exists_cons
  obtain ⟨q, us'', rfl, hus''⟩ := hus'.exists_cons
  obtain ⟨mid, inside, hmid⟩ := h plain.tail.tail us'' hus''
  obtain ⟨r, rest', rfl, hrest⟩ := hmid.exists_cons
  exact ⟨rest', .generic free opening inside, hrest⟩

theorem function {fs : List FunctionParam}
    (h : Extensible ms .params ts fs (⟨.mark .closeParen, r⟩ :: rest)) :
    Extensible ms .basic (⟨.name "function".toList, p⟩ :: ⟨.mark .openParen, q⟩ :: ts)
      (FunctionParam.signature fs none) rest := by
  intro plain us hus
  obtain ⟨p, us', rfl, hus'⟩ := hus.exists_cons
  obtain ⟨q, us'', rfl, hus''⟩ := hus'.exists_cons
  obtain ⟨mid, inside, hmid⟩ := h plain.tail.tail us'' hus''
  obtain ⟨r, rest', rfl, hrest⟩ := hmid.exists_cons
  exact ⟨rest', .function inside, hrest⟩

theorem functionTo {fs : List FunctionParam} {e : TypeExpr}
    (hinside : Derives .params ts fs (⟨.mark .closeParen, r⟩ :: ⟨.mark .colon, c⟩ :: mid))
    (h : Extensible ms .params ts fs (⟨.mark .closeParen, r⟩ :: ⟨.mark .colon, c⟩ :: mid))
    (hresult : Extensible ms .single mid e rest) :
    Extensible ms .basic (⟨.name "function".toList, p⟩ :: ⟨.mark .openParen, q⟩ :: ts)
      (FunctionParam.signature fs (some e)) rest := by
  intro plain us hus
  obtain ⟨p, us', rfl, hus'⟩ := hus.exists_cons
  obtain ⟨q, us'', rfl, hus''⟩ := hus'.exists_cons
  obtain ⟨mid, inside, hmid⟩ := h plain.tail.tail us'' hus''
  obtain ⟨r, mid', rfl, hmid'⟩ := hmid.exists_cons
  obtain ⟨c, mid'', rfl, hmid''⟩ := hmid'.exists_cons
  obtain ⟨rest', result, hrest⟩ :=
    hresult (plain.tail.tail.behind hinside.isSuffix).tail mid'' hmid''
  exact ⟨rest', .functionTo inside result, hrest⟩

theorem moreFields {value : Option TypeExpr} {fs : List (Text × Option TypeExpr)} (key : l.isKey)
    (hvalue : Derives .fieldValue ts value (⟨.mark .comma, c⟩ :: mid))
    (h : Extensible ms .fieldValue ts value (⟨.mark .comma, c⟩ :: mid))
    (hmore : Extensible ms .fields mid fs rest) :
    Extensible ms .fields (⟨l, p⟩ :: ts) ((keyText l.text, value) :: fs) rest := by
  intro plain us hus
  obtain ⟨q, us', rfl, hus'⟩ := hus.exists_cons
  obtain ⟨mid, value, hmid⟩ := h plain.tail us' hus'
  obtain ⟨c, mid', rfl, hmid'⟩ := hmid.exists_cons
  obtain ⟨rest', more, hrest⟩ := hmore (plain.tail.behind hvalue.isSuffix) mid' hmid'
  exact ⟨rest', .moreFields key value more, hrest⟩

theorem bound {n : Text} {b : Binder} {e : TypeExpr} (binds : Binder.ofName? n = some b)
    (h : Extensible ms .union ts e rest) :
    Extensible ms .param (⟨.name n, p⟩ :: ⟨.mark .colon, q⟩ :: ts) (.bound b e) rest := by
  intro plain us hus
  obtain ⟨p, us', rfl, hus'⟩ := hus.exists_cons
  obtain ⟨q, us'', rfl, hus''⟩ := hus'.exists_cons
  obtain ⟨rest', type, hrest⟩ := h plain.tail.tail us'' hus''
  exact ⟨rest', .bound binds type, hrest⟩

end Extensible

/-- Tokens of a symbol are tokens of it before what closes a bracket, too. Only the end of the
tokens is seen differently there, and only by what looks ahead to it. -/
theorem Encloses.extensible (hms : Encloses ms) {s ts v rest} (h : Derives s ts v rest) :
    Extensible ms s ts v rest := by
  induction h with
  | unknown alone suffixes => exact .unknown hms alone suffixes
  | nullable followed _ ih => exact .nullable hms followed ih
  | nonNullable _ ih => exact ih.behind .nonNullable
  | anyRest | rest => exact .ellipsis
  | suffixed _ suffixes ih => exact .suffixed hms ih suffixes
  | member _ ih => exact ih.alone .member
  | bar hfirst _ first more => exact .separated hfirst first more .bar
  | alternatives _ ih => exact ih.alone .alternatives
  | any => exact .token .any
  | parens _ ih => exact ih.enclosed .parens
  | record _ ih => exact ih.enclosed .record
  | tuple _ ih => exact ih.enclosed .tuple
  | string => exact .token .string
  | number value => exact .token (.number value)
  | name => exact .token .name
  | generic free opening _ ih => exact .generic free opening ih
  | function _ ih => exact .function ih
  | functionTo hinside _ inside result => exact .functionTo hinside inside result
  | argument _ ih => exact ih.alone .argument
  | moreArguments hfirst _ first more => exact .separated hfirst first more .moreArguments
  | noElements => exact .nothing .noElements
  | element _ ih => exact ih.alone .element
  | moreElements hfirst _ first more => exact .separated hfirst first more .moreElements
  | noFields => exact .nothing .noFields
  | field key _ ih => exact ih.behind (.field key)
  | moreFields key hvalue _ value more => exact .moreFields key hvalue value more
  | noValue => exact .nothing .noValue
  | value _ ih => exact ih.behind .value
  | noParams => exact .nothing .noParams
  | lastParam _ ih => exact ih.alone .lastParam
  | moreParams hfirst _ first more => exact .separated hfirst first more .moreParams
  | positional _ ih => exact ih.alone .positional
  | bound binds _ ih => exact .bound binds ih

/-- In brackets, a type is followed by the closing one. -/
theorem Spells.enclosed {e : TypeExpr} (h : Spells ts e) (plain : Plain ts)
    {m : Mark} (hm : m = .closeParen ∨ m = .closeAngle) {more : List Lexeme}
    (hus : us.map Token.lexeme = ts.map Token.lexeme ++ .mark m :: more) :
    ∃ p rest es, e = ofMembers es ∧ Derives .members us es (⟨.mark m, p⟩ :: rest) ∧
      rest.map Token.lexeme = more := by
  cases h with
  | alternatives members =>
    obtain ⟨rest', inside, hrest⟩ :=
      Encloses.extensible ⟨m, more, rfl, hm⟩ members plain us hus
    obtain ⟨⟨l, p⟩, rest, rfl, rfl, hmore⟩ := List.map_eq_cons_iff.1 hrest
    exact ⟨p, rest, _, rfl, inside, hmore⟩

theorem ofTokens_generic {e : TypeExpr} (h : Spells ts e) (plain : Plain ts) {m : Mark}
    (opening : m = .openAngle ∨ m = .dotAngle)
    (hus : us.map Token.lexeme = .name "Array".toList :: .mark m ::
      (ts.map Token.lexeme ++ [.mark .closeAngle])) :
    ofTokens us = .ok (array e) := by
  obtain ⟨⟨_, p⟩, us, rfl, rfl, hus'⟩ := List.map_eq_cons_iff.1 hus
  obtain ⟨⟨_, q⟩, us, rfl, rfl, hinside⟩ := List.map_eq_cons_iff.1 hus'
  obtain ⟨r, rest, es, rfl, members, hrest⟩ := h.enclosed plain (.inr rfl) hinside
  obtain rfl := List.map_eq_nil_iff.1 hrest
  have inside : Derives .arguments us [ofMembers es] [⟨.mark .closeAngle, r⟩] :=
    .argument (.alternatives members)
  have all : Derives .basic (⟨.name "Array".toList, p⟩ :: ⟨.mark m, q⟩ :: us)
      (array (ofMembers es)) [] := .generic (by decide) opening inside
  exact ofTokens_of_spells (.alternatives (.member (.suffixed all (.done id))))

theorem ofTokens_parens {e : TypeExpr} (h : Spells ts e) (plain : Plain ts)
    (hus : us.map Token.lexeme = .mark .openParen :: (ts.map Token.lexeme ++
      [.mark .closeParen, .mark .openBracket, .mark .closeBracket])) :
    ∃ es, e = ofMembers es ∧ ofTokens us = .ok (array (.union es)) := by
  obtain ⟨⟨_, p⟩, us, rfl, rfl, hinside⟩ := List.map_eq_cons_iff.1 hus
  obtain ⟨q, rest, es, rfl, members, hrest⟩ := h.enclosed plain (.inl rfl) hinside
  obtain ⟨⟨_, r⟩, rest, rfl, rfl, hrest'⟩ := List.map_eq_cons_iff.1 hrest
  obtain ⟨⟨_, r'⟩, rest, rfl, rfl, hend⟩ := List.map_eq_cons_iff.1 hrest'
  obtain rfl := List.map_eq_nil_iff.1 hend
  have all : Derives .single (⟨.mark .openParen, p⟩ :: us) (array (.union es)) [] :=
    .suffixed (.parens members) (.array (.done id))
  exact ⟨es, rfl, ofTokens_of_spells (.alternatives (.member all))⟩

end DocFlow.TypeGrammar

namespace DocFlow.TypeExpr

open TypeGrammar

def arrayText (element : Option Text) : Option Text := genericText (some "Array".toList) element

theorem arrayText_some {t : Text} (h : t ≠ []) :
    arrayText (some t) = some ("Array<".toList ++ t ++ ['>']) := by
  rw [arrayText, genericText, if_neg (by simp [h])]
  simp

theorem flow_array (e : TypeExpr) : (array e).flow = arrayText e.flow := by
  rw [array, flow, flow, flowFirst, arrayText]

/-- Parentheses make no difference to the Flow text of an array: a member without a text leaves an
empty one, which is no element either. -/
theorem flow_array_union (es : List TypeExpr) :
    (array (.union es)).flow = arrayText (ofMembers es).flow := by
  rw [flow_array]
  rcases es with _ | ⟨e, _ | ⟨e', es⟩⟩
  · rfl
  · rw [ofMembers, flow, flowEach]
    cases e.flow with
    | none => rfl
    | some t => rfl
  · rfl

theorem parse_of_lexed {text : Text} {ls : List Lexeme} {e : TypeExpr}
    (h : Lexed (Text.trim text) ls)
    (hparsed : ∀ us : List Token, us.map Token.lexeme = ls → ofTokens us = .ok e) :
    parse text = .ok e := by
  obtain ⟨us, hus, hlexemes⟩ := lexed_iff_tokens.1 h
  exact parse_eq_ok.2 ⟨us, hus, hparsed us hlexemes⟩

variable {t : Text}

theorem nameTail_of_parts {part rest : Text} (hpart : ∀ c ∈ part, isNamePart c = true)
    (hrest : nameTail rest = ([], rest)) : nameTail (part ++ rest) = (part, rest) := by
  induction part with
  | nil => exact hrest
  | cons c part ih =>
    rw [List.forall_mem_cons] at hpart
    rw [List.cons_append, nameTail.eq_def]
    dsimp only
    rw [if_pos hpart.1, ih hpart.2]

theorem lexeme?_array {rest : Text} (hrest : nameTail rest = ([], rest)) :
    lexeme? ('A' :: ("rray".toList ++ rest)) = some (.name "Array".toList, rest) := by
  have hparts : ∀ c ∈ "rray".toList, isNamePart c = true := List.all_eq_true.1 (by decide +kernel)
  have hspaced : spacedName? ('A' :: ("rray".toList ++ rest)) = none := rfl
  have hplain : plainName? ('A' :: ("rray".toList ++ rest)) = some ("Array".toList, rest) := by
    rw [plainName?, nameTail_of_parts hparts hrest]
    rfl
  exact lexeme?_of_isNameStart rfl (Option.or_eq_some_iff.2 (.inr ⟨hspaced, hplain⟩))

theorem nameTail_dotAngle (rest : Text) : nameTail ('.' :: '<' :: rest) = ([], '.' :: '<' :: rest) := by
  have hpart : isNamePart '.' = false := by decide +kernel
  rw [nameTail.eq_def]
  dsimp only
  have hmark : isPathMark '.' = true := rfl
  rw [if_neg (by simp [hpart]), if_pos hmark, if_neg (by decide)]

/-- An array type is read behind either opening mark, with what blanks there may be inside. -/
theorem parse_generic {ts : List Token} {e : TypeExpr} (hts : tokens (Text.trim t) = .ok ts)
    (spells : Spells ts e) (plain : Plain ts) {m : Mark} (hm : m = .openAngle ∨ m = .dotAngle)
    {opening : Text} (hname : ∀ rest, nameTail (opening ++ rest) = ([], opening ++ rest))
    (hmark : ∀ rest more, Lexed rest more → Lexed (opening ++ rest) (.mark m :: more)) :
    parse ('A' :: ("rray".toList ++ (opening ++ (t ++ ['>'])))) = .ok (array e) := by
  have hlexed : Lexed (Text.trim t) (ts.map Token.lexeme) := lexed_iff_tokens.2 ⟨ts, hts, rfl⟩
  have hclose : Lexed ['>'] [.mark .closeAngle] := .mark rfl rfl .done
  have hinside := hmark _ _ (hlexed.append_of_trim (.inr (.inr rfl)) hclose)
  have hall : Lexed ('A' :: ("rray".toList ++ (opening ++ (t ++ ['>'])))) _ :=
    .lexeme rfl (lexeme?_array (hname _)) hinside
  have hsolid : Text.Solid ('A' :: ("rray".toList ++ (opening ++ (t ++ ['>'])))) :=
    ⟨⟨'A', _, rfl, rfl⟩, 'A' :: ("rray".toList ++ (opening ++ t)), '>', by simp, rfl⟩
  rw [← hsolid.trim_eq] at hall
  exact parse_of_lexed hall fun us hus => ofTokens_generic spells plain hm hus

theorem parse_parens {ts : List Token} {e : TypeExpr} (hts : tokens (Text.trim t) = .ok ts)
    (spells : Spells ts e) (plain : Plain ts) :
    ∃ es, e = ofMembers es ∧ parse ('(' :: (t ++ [')', '[', ']'])) = .ok (array (.union es)) := by
  have hlexed : Lexed (Text.trim t) (ts.map Token.lexeme) := lexed_iff_tokens.2 ⟨ts, hts, rfl⟩
  have hclose : Lexed [')', '[', ']'] [.mark .closeParen, .mark .openBracket, .mark .closeBracket] :=
    .mark rfl rfl (.mark rfl rfl (.mark rfl rfl .done))
  have hall : Lexed ('(' :: (t ++ [')', '[', ']'])) _ :=
    .mark rfl rfl (hlexed.append_of_trim (.inr (.inl rfl)) hclose)
  have hsolid : Text.Solid ('(' :: (t ++ [')', '[', ']'])) :=
    ⟨⟨'(', _, rfl, rfl⟩, '(' :: (t ++ [')', '[']), ']', by simp, rfl⟩
  rw [← hsolid.trim_eq] at hall
  obtain ⟨us, hus, hlexemes⟩ := lexed_iff_tokens.1 hall
  obtain ⟨es, heq, hparsed⟩ := ofTokens_parens spells plain hlexemes
  exact ⟨es, heq, parse_eq_ok.2 ⟨us, hus, hparsed⟩⟩

/-- The three spellings of an array agree. Both generic ones are the same type, and all have the
same Flow text: that of an array if the element has a text that is not empty, and else none. -/
theorem array_spellings_agree {e : TypeExpr} (h : parse t = .ok e)
    (plain : ∀ ts, tokens (Text.trim t) = .ok ts → ∀ x ∈ ts, x.lexeme ≠ .mark .ellipsis) :
    ∃ e₁ e₂, parse ("Array.<".toList ++ t ++ ['>']) = .ok e₁ ∧
      parse ("Array<".toList ++ t ++ ['>']) = .ok e₁ ∧
      parse ('(' :: (t ++ [')', '[', ']'])) = .ok e₂ ∧ e₁.flow = e₂.flow ∧
      (∀ s, e.flow = some s → s ≠ [] → e₁.flow = some ("Array<".toList ++ s ++ ['>'])) ∧
      ((∀ s, e.flow = some s → s = []) → e₁.flow = none) := by
  obtain ⟨ts, hts, hparsed⟩ := parse_eq_ok.1 h
  have spells := spells_of_ofTokens hparsed
  have hplain : Plain ts := plain ts hts
  have hdotted : parse ('A' :: ("rray".toList ++ (['.', '<'] ++ (t ++ ['>'])))) = .ok (array e) :=
    parse_generic hts spells hplain (.inr rfl) nameTail_dotAngle fun _ _ hmore =>
      .lexeme rfl rfl hmore
  have hangle : parse ('A' :: ("rray".toList ++ (['<'] ++ (t ++ ['>'])))) = .ok (array e) :=
    parse_generic hts spells hplain (.inl rfl)
      (fun rest => nameTail_of_endsName (endsName_of_mem (by decide) rest))
      fun _ _ hmore => .mark rfl rfl hmore
  obtain ⟨es, rfl, hparens⟩ := parse_parens hts spells hplain
  refine ⟨_, _, by simpa using hdotted, by simpa using hangle, hparens, ?_, ?_, ?_⟩
  · rw [flow_array, flow_array_union]
  · intro s hs hne
    rw [flow_array, hs, arrayText_some hne]
  · intro hempty
    rw [flow_array]
    cases hflow : (ofMembers es).flow with
    | none => rfl
    | some s =>
      rw [hempty s hflow]
      rfl

/-- A lone question mark before the closing bracket stays alone, and blanks around it stay blanks. -/
theorem array_spellings_of_lone_question :
    ∃ e e₁ e₂, parse " a.b|? ".toList = .ok e ∧
      (∀ ts, tokens (Text.trim " a.b|? ".toList) = .ok ts → ∀ x ∈ ts, x.lexeme ≠ .mark .ellipsis) ∧
      parse "Array.< a.b|? >".toList = .ok e₁ ∧ parse "Array< a.b|? >".toList = .ok e₁ ∧
      parse "( a.b|? )[]".toList = .ok e₂ ∧ e₁.flow = e₂.flow ∧
      e₁.flow = some "Array<a.b>".toList := by
  have read : (parse " a.b|? ".toList).toOption.map flow = some (some "a.b".toList) := by
    decide +kernel
  obtain ⟨e, he, hflow⟩ := Option.map_eq_some_iff.1 read
  have hparse := eq_ok_of_toOption he
  have plain : ∀ ts, tokens (Text.trim " a.b|? ".toList) = .ok ts →
      ∀ x ∈ ts, x.lexeme ≠ .mark .ellipsis := by
    have hall : ∀ ts ∈ (tokens (Text.trim " a.b|? ".toList)).toOption,
        ∀ x ∈ ts, x.lexeme ≠ .mark .ellipsis := by
      decide +kernel
    intro ts hts
    exact hall ts (by rw [hts]; rfl)
  obtain ⟨e₁, e₂, hdotted, hangle, hparens, hsame, htext, -⟩ := array_spellings_agree hparse plain
  exact ⟨e, e₁, e₂, hparse, plain, hdotted, hangle, hparens, hsame,
    htext "a.b".toList hflow (by decide)⟩

end DocFlow.TypeExpr
