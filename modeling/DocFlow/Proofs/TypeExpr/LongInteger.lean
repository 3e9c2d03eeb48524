import DocFlow.Proofs.TypeExpr.Soundness

namespace DocFlow.TypeGrammar

def withoutSign : Text → Text
  | '-' :: rest => rest
  | t => t

def startsHexadecimal : Text → Bool
  | '0' :: x :: _ => isHexMark x
  | _ => false

def hasShortDigits (t : Text) : Bool :=
  startsHexadecimal (withoutSign t) || t.contains '.' ||
    (Numeral.digitsIn 10 t).length ≤ Numeral.digitLimit

def Lexeme.isShort : Lexeme → Bool
  | .number t => hasShortDigits t
  | _ => true

theorem decimalValue_long {negative : Bool} {signed : Nat → Int} {t : Text} {f : Fault}
    (h : numeralType.decimalValue negative signed t = .error f) :
    t.contains '.' = false ∧ Numeral.digitLimit < (Numeral.digitsIn 10 t).length := by
  unfold numeralType.decimalValue at h
  split at h
  · cases h
  · next hpoint =>
    refine ⟨Bool.eq_false_iff.2 hpoint, ?_⟩
    unfold Numeral.readDecimal at h
    dsimp only at h
    by_contra hshort
    rw [if_neg hshort] at h
    cases h

theorem unsignedValue_error {negative : Bool} {signed : Nat → Int} {digits : Text} {f : Fault}
    (h : (match digits with
      | '0' :: x :: hex =>
        if isHexMark x then
          .ok (.integer (signed (Numeral.ofDigits 16 (Numeral.digitsIn 16 hex))))
        else numeralType.decimalValue negative signed digits
      | _ => numeralType.decimalValue negative signed digits) = Except.error f) :
    startsHexadecimal digits = false ∧
      numeralType.decimalValue negative signed digits = .error f := by
  unfold startsHexadecimal
  split at h
  · split at h
    · cases h
    · next hx => exact ⟨Bool.eq_false_iff.2 hx, h⟩
  · exact ⟨rfl, h⟩

/-- A number without a value is read in decimal. -/
theorem numeralType_error {t : Text} {f : Fault} (h : numeralType t = .error f) :
    startsHexadecimal (withoutSign t) = false ∧ ∃ negative signed,
      numeralType.decimalValue negative signed (withoutSign t) = .error f := by
  unfold numeralType at h
  unfold withoutSign
  split at h
  next negative digits hsplit =>
  split
  · cases hsplit
    exact ⟨(unsignedValue_error h).1, _, _, (unsignedValue_error h).2⟩
  · next hsign =>
    split at hsplit
    · next rest => exact absurd rfl (hsign rest)
    · cases hsplit
      exact ⟨(unsignedValue_error h).1, _, _, (unsignedValue_error h).2⟩

/-- A number without a value has too many digits. -/
theorem numeralType_long {t : Text} {f : Fault} (h : numeralType t = .error f) :
    hasShortDigits t = false := by
  obtain ⟨hhex, negative, signed, hdecimal⟩ := numeralType_error h
  obtain ⟨hpoint, hlong⟩ := decimalValue_long hdecimal
  have hsame : (withoutSign t).contains '.' = t.contains '.' ∧
      Numeral.digitsIn 10 (withoutSign t) = Numeral.digitsIn 10 t := by
    unfold withoutSign
    split <;> exact ⟨rfl, rfl⟩
  rw [hsame.1] at hpoint
  rw [hsame.2] at hlong
  rw [hasShortDigits, hhex, hpoint, decide_eq_false (by omega)]
  rfl

/-- A number has no other fault than its length. -/
theorem numeralType_eq_error {t : Text} {f : Fault} (h : numeralType t = .error f) :
    ∃ k, f = .longInteger k := by
  obtain ⟨-, negative, signed, hdecimal⟩ := numeralType_error h
  unfold numeralType.decimalValue at hdecimal
  split at hdecimal
  · cases hdecimal
  · split at hdecimal
    · cases hdecimal
    · cases hdecimal
      exact ⟨_, rfl⟩

/-- Some number token is a decimal integer of too many digits. -/
def HasLong (ts : List Token) : Prop :=
  ∃ s p, ⟨.number s, p⟩ ∈ ts ∧ hasShortDigits s = false

theorem HasLong.of_suffix {ts rest : List Token} (h : HasLong rest) (hrest : rest <:+ ts) :
    HasLong ts := by
  obtain ⟨s, p, hmem, hlong⟩ := h
  exact ⟨s, p, hrest.subset hmem, hlong⟩

theorem HasLong.of_cons {t : Token} {ts : List Token} (h : HasLong ts) : HasLong (t :: ts) :=
  h.of_suffix (List.suffix_cons t ts)

theorem suffixes_ne_long (e : TypeExpr) (ts : List Token) (k : Nat) :
    suffixes e ts ≠ .error (.longInteger k) := by
  intro h
  fun_induction suffixes e ts with
  | case1 _ _ _ _ ih => exact ih h
  | case4 _ _ _ ih => exact ih h
  | case5 _ _ _ ih => exact ih h
  | case6 _ _ _ ih => exact ih h
  | _ => cases h

theorem expect_ne_long (m : Mark) (ts : List Token) (k : Nat) :
    expect m ts ≠ .error (.longInteger k) := by
  intro h
  unfold expect at h
  split at h
  · cases h
  · split at h <;> cases h

/-- The parser with a bound of `n` nested calls gives up for a long integer only if it has one. -/
structure BlamesLong (n : Nat) : Prop where
  members {ts k} : members n ts = .error (.longInteger k) → HasLong ts
  union {ts k} : union n ts = .error (.longInteger k) → HasLong ts
  single {ts k} : single n ts = .error (.longInteger k) → HasLong ts
  basic {ts k} : basic n ts = .error (.longInteger k) → HasLong ts
  arguments {ts k} : arguments n ts = .error (.longInteger k) → HasLong ts
  elements {ts k} : elements n ts = .error (.longInteger k) → HasLong ts
  fields {ts k} : fields n ts = .error (.longInteger k) → HasLong ts
  fieldValue {ts k} : fieldValue n ts = .error (.longInteger k) → HasLong ts
  function {ts k} : function n ts = .error (.longInteger k) → HasLong ts
  params {acc ts k} : params n acc ts = .error (.longInteger k) → HasLong ts
  param {acc ts k} : param n acc ts = .error (.longInteger k) → HasLong ts

namespace BlamesLong

variable {n : Nat}

/-- What ends with a result gives up where its first step does. -/
theorem of_last {α β : Type} {x : Except Fault α} {f : α → β} {k : Nat}
    (h : (x >>= fun a => Except.ok (f a)) = .error (.longInteger k)) :
    x = .error (.longInteger k) := by
  rcases bind_eq_error.1 h with h | ⟨_, -, h⟩
  · exact h
  · cases h

theorem of_closed {α β : Type} {inside : Except Fault (α × List Token)} {m : Mark} {f : α → β}
    {k : Nat}
    (h : (do
      let (a, ts) ← inside
      let ts ← expect m ts
      .ok (f a, ts)) = Except.error (Fault.longInteger k)) :
    inside = .error (.longInteger k) := by
  rcases bind_eq_error.1 h with h | ⟨_, -, h⟩
  · exact h
  · exact absurd (of_last h) (expect_ne_long _ _ _)

theorem members_step (ih : BlamesLong n) {ts k}
    (h : TypeGrammar.members (n + 1) ts = .error (.longInteger k)) : HasLong ts := by
  rw [TypeGrammar.members] at h
  rcases bind_eq_error.1 h with h | ⟨⟨e, mid⟩, hfirst, h⟩
  · exact ih.single h
  · have hmid := ((sound n).single hfirst).isSuffix
    dsimp only at h
    split at h
    · exact (ih.members (of_last h)).of_cons.of_suffix hmid
    · cases h

theorem union_step (ih : BlamesLong n) {ts k}
    (h : TypeGrammar.union (n + 1) ts = .error (.longInteger k)) : HasLong ts := by
  rw [TypeGrammar.union] at h
  exact ih.members (of_last h)

theorem single_step (ih : BlamesLong n) {ts k}
    (h : TypeGrammar.single (n + 1) ts = .error (.longInteger k)) : HasLong ts := by
  rw [TypeGrammar.single.eq_def] at h
  split at h
  · cases h
  · next hn =>
    cases hn
    split at h
    · exact absurd h (suffixes_ne_long _ _ _)
    · exact (ih.single (of_last h)).of_cons
  · next hn =>
    cases hn
    exact (ih.single (of_last h)).of_cons
  · next hn =>
    cases hn
    split at h
    · cases h
    · exact (ih.single (of_last h)).of_cons
  · next hn _ _ _ =>
    cases hn
    rcases bind_eq_error.1 h with h | ⟨_, -, h⟩
    · exact ih.basic h
    · exact absurd h (suffixes_ne_long _ _ _)

theorem basic_step (ih : BlamesLong n) {ts k}
    (h : TypeGrammar.basic (n + 1) ts = .error (.longInteger k)) : HasLong ts := by
  rw [TypeGrammar.basic.eq_def] at h
  split at h
  · cases h
  · cases h
  · cases h
  · next hn =>
    cases hn
    exact (ih.members (of_closed h)).of_cons
  · next hn =>
    cases hn
    exact (ih.fields (of_closed h)).of_cons
  · next hn =>
    cases hn
    exact (ih.elements (of_closed h)).of_cons
  · cases h
  · cases h
  · next s p rest hn =>
    have hvalue := map_eq_error.1 h
    exact ⟨s, p, List.mem_cons_self, numeralType_long hvalue⟩
  · next hn =>
    cases hn
    split at h
    · split at h
      · exact (ih.function h).of_cons.of_cons
      · cases h
    · split at h
      · cases h
      · exact (ih.arguments (of_closed h)).of_cons.of_cons
    · split at h
      · cases h
      · exact (ih.arguments (of_closed h)).of_cons.of_cons
    · cases h

theorem arguments_step (ih : BlamesLong n) {ts k}
    (h : TypeGrammar.arguments (n + 1) ts = .error (.longInteger k)) : HasLong ts := by
  rw [TypeGrammar.arguments] at h
  rcases bind_eq_error.1 h with h | ⟨⟨e, mid⟩, hfirst, h⟩
  · exact ih.union h
  · have hmid := ((sound n).union hfirst).isSuffix
    dsimp only at h
    split at h
    · exact (ih.arguments (of_last h)).of_cons.of_suffix hmid
    · cases h

theorem elements_step (ih : BlamesLong n) {ts k}
    (h : TypeGrammar.elements (n + 1) ts = .error (.longInteger k)) : HasLong ts := by
  rw [TypeGrammar.elements.eq_def] at h
  split at h
  · cases h
  · cases h
  · next hn _ =>
    cases hn
    rcases bind_eq_error.1 h with h | ⟨⟨e, mid⟩, hfirst, h⟩
    · exact ih.union h
    · have hmid := ((sound n).union hfirst).isSuffix
      dsimp only at h
      split at h
      · exact (ih.elements (of_last h)).of_cons.of_suffix hmid
      · cases h

theorem fields_step (ih : BlamesLong n) {ts k}
    (h : TypeGrammar.fields (n + 1) ts = .error (.longInteger k)) : HasLong ts := by
  rw [TypeGrammar.fields.eq_def] at h
  split at h
  · cases h
  · cases h
  · cases h
  · cases h
  · next hn =>
    cases hn
    rcases bind_eq_error.1 h with h | ⟨⟨v, mid⟩, hvalue, h⟩
    · exact (ih.fieldValue h).of_cons
    · have hmid := ((sound n).fieldValue hvalue).isSuffix
      dsimp only at h
      split at h
      · exact ((ih.fields (of_last h)).of_cons.of_suffix hmid).of_cons
      · cases h

theorem fieldValue_step (ih : BlamesLong n) {ts k}
    (h : TypeGrammar.fieldValue (n + 1) ts = .error (.longInteger k)) : HasLong ts := by
  rw [TypeGrammar.fieldValue.eq_def] at h
  split at h
  · cases h
  · next hn =>
    cases hn
    exact (ih.union (of_last h)).of_cons
  · cases h

theorem function_step (ih : BlamesLong n) {ts k}
    (h : TypeGrammar.function (n + 1) ts = .error (.longInteger k)) : HasLong ts := by
  rw [TypeGrammar.function] at h
  rcases bind_eq_error.1 h with h | ⟨⟨ps, mid⟩, hinside, h⟩
  · exact ih.params h
  · obtain ⟨fs, inside, -⟩ := (sound n).params hinside
    rcases bind_eq_error.1 h with hclose | ⟨rest, hclose, htail⟩
    · exact absurd hclose (expect_ne_long _ _ _)
    · obtain ⟨q, rfl⟩ := expect_eq_ok.1 hclose
      split at htail
      · exact (ih.single (of_last htail)).of_cons.of_cons.of_suffix inside.isSuffix
      · cases htail

theorem params_step (ih : BlamesLong n) {acc ts k}
    (h : TypeGrammar.params (n + 1) acc ts = .error (.longInteger k)) : HasLong ts := by
  rw [TypeGrammar.params.eq_def] at h
  split at h
  · cases h
  · cases h
  · next hn _ =>
    cases hn
    rcases bind_eq_error.1 h with h | ⟨⟨ps, mid⟩, hfirst, h⟩
    · exact ih.param h
    · obtain ⟨f, first, -⟩ := (sound n).param hfirst
      dsimp only at h
      split at h
      · exact (ih.params h).of_cons.of_suffix first.isSuffix
      · cases h

theorem param_step (ih : BlamesLong n) {acc ts k}
    (h : TypeGrammar.param (n + 1) acc ts = .error (.longInteger k)) : HasLong ts := by
  rw [TypeGrammar.param] at h
  split at h
  · next b rest binds =>
    have hlong := ih.union (of_last h)
    unfold binder? at binds
    split at binds
    · obtain ⟨b', -, heq⟩ := Option.map_eq_some_iff.1 binds
      cases heq
      exact hlong.of_cons.of_cons
    · cases binds
  · exact ih.union (of_last h)

end BlamesLong

theorem blamesLong (n : Nat) : BlamesLong n := by
  induction n with
  | zero =>
    constructor <;> intros <;> rename_i h <;> cases h
  | succ n ih =>
    exact {
      members := ih.members_step
      union := ih.union_step
      single := ih.single_step
      basic := ih.basic_step
      arguments := ih.arguments_step
      elements := ih.elements_step
      fields := ih.fields_step
      fieldValue := ih.fieldValue_step
      function := ih.function_step
      params := ih.params_step
      param := ih.param_step }

/-- A token list is given up for a long integer only if it has one. -/
theorem ofTokens_long {ts : List Token} {k : Nat} (h : ofTokens ts = .error (.longInteger k)) :
    HasLong ts := by
  unfold ofTokens at h
  split at h
  · cases h
  · rcases bind_eq_error.1 h with h | ⟨⟨e, rest⟩, -, h⟩
    · exact (blamesLong _).union h
    · dsimp only at h
      split at h <;> cases h

end DocFlow.TypeGrammar

namespace DocFlow

open TypeGrammar

def TypeExpr.HasShortIntegers (t : Text) : Prop :=
  ∀ ts ∈ (tokens (Text.trim t)).toOption, ∀ x ∈ ts, x.lexeme.isShort = true

instance (t : Text) : Decidable (TypeExpr.HasShortIntegers t) :=
  inferInstanceAs (Decidable (∀ ts ∈ (tokens (Text.trim t)).toOption,
    ∀ x ∈ ts, x.lexeme.isShort = true))

/-- Without long integers a text is a type or is malformed. -/
theorem TypeExpr.parse_ne_long {t : Text} (h : TypeExpr.HasShortIntegers t) (k : Nat) :
    TypeExpr.parse t ≠ .error (.longInteger k) := by
  intro hparse
  unfold TypeExpr.parse at hparse
  dsimp only at hparse
  split at hparse
  · cases hparse
  · next ts hts =>
    cases hparsed : ofTokens ts with
    | ok e =>
      rw [hparsed] at hparse
      cases hparse
    | error f =>
      rw [hparsed] at hparse
      have hfault : f = .longInteger k := by
        cases f with
        | problem p rest => cases rest <;> cases hparse
        | longInteger digits =>
          cases hparse
          rfl
      rw [hfault] at hparsed
      obtain ⟨s, p, hmem, hlong⟩ := ofTokens_long hparsed
      have hread : (tokens (Text.trim t)).toOption = some ts := by
        rw [hts]
        rfl
      have hshort : hasShortDigits s = true := h ts hread ⟨.number s, p⟩ hmem
      rw [hshort] at hlong
      cases hlong

end DocFlow
