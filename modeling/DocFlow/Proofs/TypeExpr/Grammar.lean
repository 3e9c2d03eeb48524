import DocFlow.TypeExpr.Parser

namespace DocFlow.TypeGrammar

def EndsBefore (ms : List Mark) : List Token → Prop
  | [] => True
  | t :: _ => ∃ m ∈ ms, t.lexeme = .mark m

def unknownFollowers : List Mark :=
  [.comma, .closeParen, .closeAngle, .bar, .equals, .closeBracket, .closeBrace, .colon]

def restFollowers : List Mark := [.comma, .closeParen, .closeBracket]

/-- Before a mark that binds to the type in front of it: `[]`, `=`, `?` or `!`. -/
def StartsSuffix : List Token → Prop
  | ⟨.mark .openBracket, _⟩ :: ⟨.mark .closeBracket, _⟩ :: _ => True
  | ⟨.mark .equals, _⟩ :: _ => True
  | ⟨.mark .question, _⟩ :: _ => True
  | ⟨.mark .bang, _⟩ :: _ => True
  | _ => False

/-- The marks behind a type, innermost first. They are taken as long as there are any. -/
inductive Suffixes : TypeExpr → List Token → TypeExpr → List Token → Prop where
  | done {e ts} (greedy : ¬ StartsSuffix ts) : Suffixes e ts e ts
  | array {e p q ts e' rest} (more : Suffixes (array e) ts e' rest) :
    Suffixes e (⟨.mark .openBracket, p⟩ :: ⟨.mark .closeBracket, q⟩ :: ts) e' rest
  | optional {e p ts e' rest} (more : Suffixes (.optional e) ts e' rest) :
    Suffixes e (⟨.mark .equals, p⟩ :: ts) e' rest
  | nullable {e p ts e' rest} (more : Suffixes (.nullable e .after) ts e' rest) :
    Suffixes e (⟨.mark .question, p⟩ :: ts) e' rest
  | nonNullable {e p ts e' rest} (more : Suffixes (.nonNullable e) ts e' rest) :
    Suffixes e (⟨.mark .bang, p⟩ :: ts) e' rest

inductive FunctionParam where
  | positional (type : TypeExpr)
  | bound (binder : Binder) (type : TypeExpr)

namespace FunctionParam

def positional? : FunctionParam → Option TypeExpr
  | positional t => some t
  | bound .. => none

def boundBy? (b : Binder) : FunctionParam → Option TypeExpr
  | positional _ => none
  | bound b' t => if b' = b then some t else none

/-- The type that a binder has in the end: the last one counts. -/
def lastBound (b : Binder) (ps : List FunctionParam) : Option TypeExpr :=
  (ps.filterMap (boundBy? b)).getLast?

def signature (ps : List FunctionParam) (result : Option TypeExpr) : TypeExpr :=
  .function (ps.filterMap positional?) result (lastBound .this ps) (lastBound .new ps)

end FunctionParam

inductive Symbol where
  | single
  | members
  | union
  | basic
  | arguments
  | elements
  | fields
  | fieldValue
  | params
  | param

abbrev Symbol.Value : Symbol → Type
  | .single | .union | .basic => TypeExpr
  | .members | .arguments | .elements => List TypeExpr
  | .fields => List (Text × Option TypeExpr)
  | .fieldValue => Option TypeExpr
  | .params => List FunctionParam
  | .param => FunctionParam

def Lexeme.isKey : Lexeme → Prop
  | .mark _ => False
  | _ => True

/-- The tokens `ts` start with tokens of the symbol `s` that stand for a value, and leave a rest. -/
inductive Derives : (s : Symbol) → List Token → s.Value → List Token → Prop where
  | unknown {p ts e rest} (alone : EndsBefore unknownFollowers ts)
    (suffixes : Suffixes .unknown ts e rest) :
    Derives .single (⟨.mark .question, p⟩ :: ts) e rest
  | nullable {p ts e rest} (followed : ¬ EndsBefore unknownFollowers ts)
    (inner : Derives .single ts e rest) :
    Derives .single (⟨.mark .question, p⟩ :: ts) (.nullable e .before) rest
  | nonNullable {p ts e rest} (inner : Derives .single ts e rest) :
    Derives .single (⟨.mark .bang, p⟩ :: ts) (.nonNullable e) rest
  | anyRest {p rest} (alone : EndsBefore restFollowers rest) :
    Derives .single (⟨.mark .ellipsis, p⟩ :: rest) (.rest none) rest
  | rest {p ts e rest} (followed : ¬ EndsBefore restFollowers ts)
    (inner : Derives .single ts e rest) :
    Derives .single (⟨.mark .ellipsis, p⟩ :: ts) (.rest (some e)) rest
  | suffixed {ts e mid e' rest} (inner : Derives .basic ts e mid)
    (suffixes : Suffixes e mid e' rest) : Derives .single ts e' rest
  | member {ts e rest} (first : Derives .single ts e rest) : Derives .members ts [e] rest
  | bar {p ts e mid es rest} (first : Derives .single ts e (⟨.mark .bar, p⟩ :: mid))
    (more : Derives .members mid es rest) : Derives .members ts (e :: es) rest
  | alternatives {ts es rest} (members : Derives .members ts es rest) :
    Derives .union ts (ofMembers es) rest
  | any {p rest} : Derives .basic (⟨.mark .star, p⟩ :: rest) .any rest
  | parens {p q ts es rest} (inside : Derives .members ts es (⟨.mark .closeParen, q⟩ :: rest)) :
    Derives .basic (⟨.mark .openParen, p⟩ :: ts) (.union es) rest
  | record {p q ts fs rest} (inside : Derives .fields ts fs (⟨.mark .closeBrace, q⟩ :: rest)) :
    Derives .basic (⟨.mark .openBrace, p⟩ :: ts) (.record fs) rest
  | tuple {p q ts es rest} (inside : Derives .elements ts es (⟨.mark .closeBracket, q⟩ :: rest)) :
    Derives .basic (⟨.mark .openBracket, p⟩ :: ts) (.tuple es) rest
  | string {s p rest} : Derives .basic (⟨.string s, p⟩ :: rest) (.string (s.drop 1).dropLast) rest
  | number {s p e rest} (value : numeralType s = .ok e) : Derives .basic (⟨.number s, p⟩ :: rest) e rest
  | name {n p rest} : Derives .basic (⟨.name n, p⟩ :: rest) (ofName n) rest
  | generic {n m p q r ts es rest} (free : isReservedName n = false)
    (opening : m = .openAngle ∨ m = .dotAngle)
    (inside : Derives .arguments ts es (⟨.mark .closeAngle, r⟩ :: rest)) :
    Derives .basic (⟨.name n, p⟩ :: ⟨.mark m, q⟩ :: ts) (.generic (.named n) es) rest
  | function {p q r ts ps rest} (inside : Derives .params ts ps (⟨.mark .closeParen, r⟩ :: rest)) :
    Derives .basic (⟨.name "function".toList, p⟩ :: ⟨.mark .openParen, q⟩ :: ts)
      (FunctionParam.signature ps none) rest
  | functionTo {p q r c ts ps mid e rest}
    (inside : Derives .params ts ps (⟨.mark .closeParen, r⟩ :: ⟨.mark .colon, c⟩ :: mid))
    (result : Derives .single mid e rest) :
    Derives .basic (⟨.name "function".toList, p⟩ :: ⟨.mark .openParen, q⟩ :: ts)
      (FunctionParam.signature ps (some e)) rest
  | argument {ts e rest} (first : Derives .union ts e rest) : Derives .arguments ts [e] rest
  | moreArguments {p ts e mid es rest} (first : Derives .union ts e (⟨.mark .comma, p⟩ :: mid))
    (more : Derives .arguments mid es rest) : Derives .arguments ts (e :: es) rest
  | noElements {rest} : Derives .elements rest [] rest
  | element {ts e rest} (first : Derives .union ts e rest) : Derives .elements ts [e] rest
  | moreElements {p ts e mid es rest} (first : Derives .union ts e (⟨.mark .comma, p⟩ :: mid))
    (more : Derives .elements mid es rest) : Derives .elements ts (e :: es) rest
  | noFields {rest} : Derives .fields rest [] rest
  | field {l p ts v rest} (key : l.isKey) (value : Derives .fieldValue ts v rest) :
    Derives .fields (⟨l, p⟩ :: ts) [(keyText l.text, v)] rest
  | moreFields {l p c ts v mid fs rest} (key : l.isKey)
    (value : Derives .fieldValue ts v (⟨.mark .comma, c⟩ :: mid))
    (more : Derives .fields mid fs rest) :
    Derives .fields (⟨l, p⟩ :: ts) ((keyText l.text, v) :: fs) rest
  | noValue {rest} : Derives .fieldValue rest none rest
  | value {p ts e rest} (type : Derives .union ts e rest) :
    Derives .fieldValue (⟨.mark .colon, p⟩ :: ts) (some e) rest
  | noParams {rest} : Derives .params rest [] rest
  | lastParam {ts f rest} (first : Derives .param ts f rest) : Derives .params ts [f] rest
  | moreParams {p ts f mid fs rest} (first : Derives .param ts f (⟨.mark .comma, p⟩ :: mid))
    (more : Derives .params mid fs rest) : Derives .params ts (f :: fs) rest
  | positional {ts e rest} (type : Derives .union ts e rest) :
    Derives .param ts (.positional e) rest
  | bound {n b p q ts e rest} (binds : Binder.ofName? n = some b)
    (type : Derives .union ts e rest) :
    Derives .param (⟨.name n, p⟩ :: ⟨.mark .colon, q⟩ :: ts) (.bound b e) rest

def Spells (ts : List Token) (e : TypeExpr) : Prop := Derives .union ts e []

end DocFlow.TypeGrammar
