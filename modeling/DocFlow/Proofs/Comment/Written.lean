import DocFlow.Comment.Tag
import DocFlow.Proofs.Text.Trim
import DocFlow.Proofs.TypeExpr.Lexing
import DocFlow.Proofs.TypeExpr.LongInteger

namespace DocFlow

namespace Comment

/-- The depth of braces behind a text, unless a closing brace has no partner. -/
def nesting : Nat → Text → Option Nat
  | depth, [] => some depth
  | depth, c :: rest => if c = '}' ∧ depth = 0 then none else nesting (depthAfter depth c) rest

def Balanced (t : Text) : Prop := nesting 0 t = some 0

instance (t : Text) : Decidable (Balanced t) := inferInstanceAs (Decidable (_ = _))

theorem nesting_append (depth : Nat) (s t : Text) :
    nesting depth (s ++ t) = (nesting depth s).bind fun d => nesting d t := by
  induction s generalizing depth with
  | nil => rfl
  | cons c s ih =>
    rw [List.cons_append, nesting, nesting]
    split
    · rfl
    · exact ih _

theorem depthAfter_of_isBlank {c : Char} (h : Text.isBlank c = true) (depth : Nat) :
    depthAfter depth c = depth := by
  have hopen : c ≠ '{' := by
    rintro rfl
    exact absurd h (by decide)
  have hclose : c ≠ '}' := by
    rintro rfl
    exact absurd h (by decide)
  rw [depthAfter, if_neg hopen, if_neg hclose]

theorem nesting_of_isBlank {c : Char} (h : Text.isBlank c = true) (depth : Nat) :
    nesting depth [c] = some depth := by
  have hclose : c ≠ '}' := by
    rintro rfl
    exact absurd h (by decide)
  rw [nesting, if_neg fun hc => hclose hc.1, depthAfter_of_isBlank h, nesting]

/-- The brace that closes is the first one behind a text in which all are closed. -/
theorem closeBrace?_append {depth : Nat} {t : Text} (h : nesting depth t = some 0) (rest : Text) :
    closeBrace? depth (t ++ '}' :: rest) = some (t, rest) := by
  induction t generalizing depth with
  | nil =>
    cases h
    rfl
  | cons c t ih =>
    rw [nesting] at h
    split at h
    · cases h
    · next hpartner =>
      have hmore := ih h
      rw [List.cons_append]
      by_cases hclose : c = '}'
      · subst hclose
        cases depth with
        | zero => exact absurd ⟨rfl, rfl⟩ hpartner
        | succ outer =>
          have hdepth : depthAfter (outer + 1) '}' = outer := rfl
          rw [hdepth] at hmore
          rw [closeBrace?, if_pos rfl, hmore]
          rfl
      · rw [depthAfter, if_neg hclose] at hmore
        rw [closeBrace?.eq_def]
        dsimp only
        rw [if_neg hclose, hmore]
        rfl

end Comment

inductive WrittenName where
  | plain (name : Text)
  | bracketed (name : Text) (default : Option Text)

namespace WrittenName

def name : WrittenName → Text
  | plain n => n
  | bracketed n _ => n

def isBracketed : WrittenName → Bool
  | plain _ => false
  | bracketed .. => true

def inside (name : Text) : Option Text → Text
  | none => name
  | some t => name ++ '=' :: t

def text : WrittenName → Text
  | plain n => n
  | bracketed n default => '[' :: (inside n default ++ [']'])

/-- Names that are read as they are written. -/
def Normal : WrittenName → Prop
  | plain n =>
    n ≠ [] ∧ (∀ c ∈ n, Text.isBlank c = false) ∧ n.head? ≠ some '[' ∧ n.head? ≠ some '{'
  | bracketed n default =>
    n ≠ [] ∧ Text.trim n = n ∧ '=' ∉ n ∧ ']' ∉ n ∧ ∀ t ∈ default, ']' ∉ t

end WrittenName

structure WrittenTag where
  title : Text
  rawType : Option Text
  name : Option WrittenName
  description : Text

namespace WrittenTag

def partsBehindType (t : WrittenTag) : List Text :=
  (t.name.map WrittenName.text).toList ++ if t.description = [] then [] else [t.description]

def parts (t : WrittenTag) : List Text :=
  (t.rawType.map fun raw => '{' :: (raw ++ ['}'])).toList ++ t.partsBehindType

def spaced (ps : List Text) : Text := ps.flatMap (' ' :: ·)

def text (t : WrittenTag) : Text := '@' :: (t.title ++ spaced t.parts)

/-- The type of a tag: none if its text is no type, and optional if the name is in brackets. -/
def type (t : WrittenTag) : Option TypeExpr :=
  let read := t.rawType.bind fun raw => (TypeExpr.parse raw).toOption
  if t.name.any WrittenName.isBracketed then read.map .optional else read

def tag (t : WrittenTag) : Tag where
  title := t.title
  name := t.name.map WrittenName.name
  type := t.type
  description := t.description
  rawType := t.rawType

/-- Tags whose parts can be told apart, and whose end can be found. -/
structure Normal (t : WrittenTag) : Prop where
  title : ∃ c rest, t.title = c :: rest ∧ c.isAlpha = true ∧
    ∀ d ∈ rest, Comment.isTitlePart d = true
  noSynonym : ∀ pair ∈ Comment.synonyms, pair.1 ≠ t.title
  typed : t.rawType ≠ none → t.title ∈ Comment.titlesWithType
  named : t.name ≠ none → t.title ∈ Comment.titlesWithName
  rawType : ∀ raw ∈ t.rawType, Comment.Balanced raw ∧ TypeExpr.HasShortIntegers raw
  name : ∀ n ∈ t.name, n.Normal
  description : Text.trim t.description = t.description
  /-- Without a type and a name the description is not taken for a type. -/
  notType : t.title ∈ Comment.titlesWithType → t.rawType = none → t.name = none →
    t.description.head? ≠ some '{'
  /-- Without a name the description is not taken for one. -/
  notName : t.title ∈ Comment.titlesWithName → t.name = none →
    t.description = [] ∨ ∃ inner, t.description = '[' :: inner ∧ ']' ∉ inner
  oneLine : ∀ c ∈ t.text, Text.isLineBreak c = false
  balanced : Comment.Balanced t.text
  /-- Outside of braces no other tag starts behind a blank. -/
  single : ∀ before c behind, t.text = before ++ c :: '@' :: behind → Text.isBlank c = true →
    Comment.nesting 0 before = some 0 → Comment.startsTitle behind = false

end WrittenTag

end DocFlow
