import DocFlow.Proofs.TypeExpr.Completeness
import DocFlow.Proofs.TypeExpr.Step

namespace DocFlow.TypeGrammar

/-- Two token lists that differ behind the token `t` only. -/
inductive Twins (t : Token) (more more' : List Token) : List Token → List Token → Prop where
  | here : Twins t more more' (t :: more) (t :: more')
  | cons {ts ts'} (x : Token) (tail : Twins t more more' ts ts') :
    Twins t more more' (x :: ts) (x :: ts')

/-- The second outcome is the first one on twins, or else the first one is past the token. -/
inductive Alike {α : Type} (t : Token) (more more' : List Token) :
    Except Fault (α × List Token) → Except Fault (α × List Token) → Prop where
  | value {a ts ts'} (twins : Twins t more more' ts ts') :
    Alike t more more' (.ok (a, ts)) (.ok (a, ts'))
  | problem {p ts ts'} (twins : Twins t more more' ts ts') :
    Alike t more more' (.error (.problem p ts)) (.error (.problem p ts'))
  | passed {x y} (past : (left x).length ≤ more.length) : Alike t more more' x y

variable {α β : Type} {t : Token} {more more' : List Token}

namespace Twins

variable {ts ts' : List Token}

theorem starts (h : Twins t more more' ts ts') (m : Mark) : starts m ts' = starts m ts := by
  cases h <;> rfl

theorem atEnd (h : Twins t more more' ts ts') (p : Mark → Bool) : atEnd p ts' = atEnd p ts := by
  have hhead : ∀ (x : Token) (us us' : List Token), TypeGrammar.atEnd p (x :: us') =
      TypeGrammar.atEnd p (x :: us) := by
    rintro ⟨l, q⟩ us us'
    cases l <;> rfl
  cases h with
  | here => exact hhead ..
  | cons => exact hhead ..

theorem exists_cons (h : Twins t more more' ts ts') :
    ∃ x rest rest', ts = x :: rest ∧ ts' = x :: rest' := by
  cases h with
  | here => exact ⟨_, _, _, rfl, rfl⟩
  | cons => exact ⟨_, _, _, rfl, rfl⟩

theorem exists_front (h : Twins t more more' ts ts') :
    ∃ front, ts = front ++ t :: more ∧ ts' = front ++ t :: more' := by
  induction h with
  | here => exact ⟨[], rfl, rfl⟩
  | cons x _ ih =>
    obtain ⟨front, rfl, rfl⟩ := ih
    exact ⟨x :: front, rfl, rfl⟩

/-- Where the first list is left at the token, so is the second. -/
theorem eq_cons (h : Twins t more more' (t :: more) ts') : ts' = t :: more' := by
  obtain ⟨front, hfront, rfl⟩ := h.exists_front
  have hnone : front = [] := by
    have hlength := congrArg List.length hfront
    rw [List.length_append] at hlength
    exact List.eq_nil_of_length_eq_zero (by omega)
  rw [hnone, List.nil_append]

theorem of_append (front : List Token) (t : Token) (more more' : List Token) :
    Twins t more more' (front ++ t :: more) (front ++ t :: more') := by
  induction front with
  | nil => exact .here
  | cons x front ih => exact .cons x ih

theorem length_pos (h : Twins t more more' ts ts') :
    ts.tail.length + 1 = ts.length ∧ ts'.tail.length + 1 = ts'.length := by
  cases h <;> exact ⟨rfl, rfl⟩

end Twins

namespace Alike

variable {ts ts' : List Token}

/-- What goes on behind the first token is past the token, or on twins again. -/
theorem behind {x x' : Except Fault (α × List Token)} (h : Twins t more more' ts ts')
    (shrinks : left x <:+ ts.tail) (hx : Twins t more more' ts.tail ts'.tail → Alike t more more' x x') :
    Alike t more more' x x' := by
  cases h with
  | here => exact .passed shrinks.length_le
  | cons x tail => exact hx tail

theorem behind_cons {x x' : Except Fault (α × List Token)} {y : Token} {ts ts' : List Token}
    (h : Twins t more more' (y :: ts) (y :: ts')) (shrinks : left x <:+ ts)
    (hx : Twins t more more' ts ts' → Alike t more more' x x') : Alike t more more' x x' :=
  behind h shrinks hx

theorem bind {x x' : Except Fault (α × List Token)}
    {f f' : α × List Token → Except Fault (β × List Token)} (hx : Alike t more more' x x')
    (shrinks : ∀ a rest, left (f (a, rest)) <:+ rest)
    (hf : ∀ a rest rest', x = .ok (a, rest) → x' = .ok (a, rest') → Twins t more more' rest rest' →
      Alike t more more' (f (a, rest)) (f' (a, rest'))) :
    Alike t more more' (x >>= f) (x' >>= f') := by
  cases hx with
  | value twins => exact hf _ _ _ rfl rfl twins
  | problem twins => exact .problem twins
  | passed past =>
    have hle : (left (x >>= f)).length ≤ (left x).length :=
      (left_bind List.suffix_rfl shrinks).length_le
    exact .passed (Nat.le_trans hle past)

theorem mapValue (f : α → β) {x x' : Except Fault (α × List Token)} (hx : Alike t more more' x x') :
    Alike t more more' (mapValue f x) (mapValue f x') :=
  hx.bind (fun _ _ => List.suffix_rfl) fun _ _ _ _ _ twins => .value twins

theorem separated {sep : Mark} {first first' : Except Fault (α × List Token)}
    {next next' : List Token → Except Fault (List α × List Token)}
    (hfirst : Alike t more more' first first') (shrinks : ∀ rest, left (next rest) <:+ rest)
    (hnext : ∀ a rest rest', first = .ok (a, rest) → first' = .ok (a, rest') →
      Twins t more more' rest.tail rest'.tail → rest.tail.length + 1 = rest.length →
      rest'.tail.length + 1 = rest'.length →
      Alike t more more' (next rest.tail) (next' rest'.tail)) :
    Alike t more more' (separated sep first next) (separated sep first' next') := by
  refine hfirst.bind (fun a rest => ?_) fun a rest rest' ha ha' twins => ?_
  · have hrest : left (Except.ok (a, rest) : Except Fault (α × List Token)) <:+ rest :=
      List.suffix_rfl
    exact left_separated hrest shrinks
  · dsimp only
    rw [twins.starts]
    split
    · refine behind twins ?_ fun tails => ?_
      · rw [left_mapValue]
        exact shrinks _
      · exact (hnext a rest rest' ha ha' tails twins.length_pos.1 twins.length_pos.2).mapValue _
    · exact .value twins

theorem enclosed {m : Mark} {f : α → β} {inside inside' : Except Fault (α × List Token)}
    (h : Alike t more more' inside inside') :
    Alike t more more' (enclosed m f inside) (enclosed m f inside') := by
  refine h.bind (fun a rest => left_expect m (fun _ => f a) rest) fun a rest rest' _ _ twins => ?_
  dsimp only
  cases twins with
  | here =>
    rw [expect, expect]
    split
    · exact .passed Nat.le.refl
    · exact .problem .here
  | cons x tail =>
    rw [expect, expect]
    split
    · exact .value tail
    · exact .problem (.cons x tail)

end Alike

theorem Alike.of_ok {a : α} {x : Except Fault (α × List Token)}
    (h : Alike t more more' (.ok (a, t :: more)) x) : x = .ok (a, t :: more') := by
  cases h with
  | value twins => rw [twins.eq_cons]
  | passed past => exact absurd past (Nat.not_succ_le_self _)

theorem Alike.of_problem {p : Problem} {x : Except Fault (α × List Token)}
    (h : Alike t more more' (.error (.problem p (t :: more))) x) :
    x = .error (.problem p (t :: more')) := by
  cases h with
  | problem twins => rw [twins.eq_cons]
  | passed past => exact absurd past (Nat.not_succ_le_self _)

theorem alike_suffixes (e : TypeExpr) {ts ts' : List Token} (h : Twins t more more' ts ts') :
    Alike t more more' (suffixes e ts) (suffixes e ts') := by
  fun_induction suffixes e ts generalizing ts' with
  | case1 e p q ts ih =>
    cases h with
    | here => exact .passed ((left_suffixes ..).trans (List.suffix_cons ..)).length_le
    | cons _ tail =>
      cases tail with
      | here => exact .passed (left_suffixes ..).length_le
      | cons _ tail => exact ih tail
  | case2 e p => exact .passed (Nat.zero_le _)
  | case3 e p x ts noBracket =>
    cases h with
    | here => exact .passed Nat.le.refl
    | cons _ tail =>
      obtain ⟨_, rest, rest', heq, rfl⟩ := tail.exists_cons
      obtain ⟨rfl, rfl⟩ := List.cons.inj heq
      rw [suffixes]
      · exact .problem tail
      · exact noBracket
  | case4 e p ts ih | case5 e p ts ih | case6 e p ts ih =>
    cases h with
    | here => exact .passed (left_suffixes ..).length_le
    | cons _ tail => exact ih tail
  | case7 e ts noArray noEnd noBracket noEquals noQuestion noBang =>
    obtain ⟨x, rest, rest', rfl, rfl⟩ := h.exists_cons
    -- No array follows in either list, for the first token is no opening bracket.
    have noOpen : ∀ p, x ≠ ⟨.mark .openBracket, p⟩ := by
      rintro p rfl
      cases rest with
      | nil => exact noEnd p rfl
      | cons y rest => exact noBracket p y rest rfl
    rw [suffixes]
    · exact .value h
    · exact fun p q r heq => noOpen p (List.cons.inj heq).1
    · exact fun p heq => noOpen p (List.cons.inj heq).1
    · exact fun p y r heq => noOpen p (List.cons.inj heq).1
    · exact fun p r heq => noEquals p rest (by rw [(List.cons.inj heq).1])
    · exact fun p r heq => noQuestion p rest (by rw [(List.cons.inj heq).1])
    · exact fun p r heq => noBang p rest (by rw [(List.cons.inj heq).1])

def Agrees (rank : Nat) (read : Nat → List Token → Except Fault (α × List Token)) (n : Nat) : Prop :=
  ∀ n' {t more more' ts ts'}, Twins t more more' ts ts' → 6 * ts.length + rank ≤ n →
    6 * ts'.length + rank ≤ n' → Alike t more more' (read n ts) (read n' ts')

/-- Each token pays for six calls, and the ranks for those before the first token is taken. -/
structure TwoRuns (n : Nat) : Prop where
  basic : Agrees 1 basic n
  fields : Agrees 1 fields n
  single : Agrees 2 single n
  members : Agrees 3 members n
  union : Agrees 4 union n
  arguments : Agrees 5 arguments n
  elements : Agrees 5 elements n
  fieldValue : Agrees 5 fieldValue n
  param (acc) : Agrees 5 (TypeGrammar.param · acc) n
  params (acc) : Agrees 6 (TypeGrammar.params · acc) n
  function : Agrees 7 function n

theorem exists_bound {n rank l : Nat} (calls : 6 * l + (rank + 1) ≤ n) : ∃ k, n = k + 1 :=
  Nat.exists_eq_add_one_of_ne_zero (by omega)

namespace TwoRuns

variable {n : Nat}

theorem members_step (ih : TwoRuns n) : Agrees 3 TypeGrammar.members (n + 1) := by
  intro n' t more more' ts ts' twins calls calls'
  obtain ⟨n', rfl⟩ := exists_bound calls'
  rw [members_succ, members_succ]
  have hfirst := ih.single n' twins (by omega) (by omega)
  refine hfirst.separated (leavesEnd n).members fun e rest rest' h h' tails hl hl' => ?_
  have shorter := ((sound n).single h).length_lt trivial
  have shorter' := ((sound n').single h').length_lt trivial
  exact ih.members n' tails (by omega) (by omega)

theorem union_step (ih : TwoRuns n) : Agrees 4 TypeGrammar.union (n + 1) := by
  intro n' t more more' ts ts' twins calls calls'
  obtain ⟨n', rfl⟩ := exists_bound calls'
  rw [union_succ, union_succ]
  exact (ih.members n' twins (by omega) (by omega)).mapValue _

theorem single_step (ih : TwoRuns n) : Agrees 2 TypeGrammar.single (n + 1) := by
  intro n' t more more' ts ts' twins calls calls'
  obtain ⟨n', rfl⟩ := exists_bound calls'
  obtain ⟨hl, hl'⟩ := twins.length_pos
  have inner {β : Type} (f : TypeExpr → β) : Alike t more more'
      (mapValue f (TypeGrammar.single n ts.tail)) (mapValue f (TypeGrammar.single n' ts'.tail)) := by
    refine .behind twins ?_ fun tails => ?_
    · rw [left_mapValue]
      exact (leavesEnd n).single _
    · exact (ih.single n' tails (by omega) (by omega)).mapValue f
  rw [single_succ, single_succ, twins.starts, twins.starts, twins.starts]
  split
  · refine .behind twins ?_ fun tails => ?_
    · split
      · exact left_suffixes ..
      · rw [left_mapValue]
        exact (leavesEnd n).single _
    · rw [tails.atEnd]
      split
      · exact alike_suffixes _ tails
      · exact inner _
  · split
    · exact inner _
    · split
      · refine .behind twins ?_ fun tails => ?_
        · split
          · exact List.suffix_rfl
          · rw [left_mapValue]
            exact (leavesEnd n).single _
        · rw [tails.atEnd]
          split
          · exact .value tails
          · exact inner _
      · have hbasic := ih.basic n' twins (by omega) (by omega)
        exact hbasic.bind left_suffixes fun e rest rest' _ _ rests => alike_suffixes e rests

theorem basic_step (ih : TwoRuns n) : Agrees 1 TypeGrammar.basic (n + 1) := by
  intro n' t more more' ts ts' twins calls calls'
  obtain ⟨n', rfl⟩ := exists_bound calls'
  obtain ⟨⟨l, p⟩, rest, rest', rfl, rfl⟩ := twins.exists_cons
  rw [List.length_cons] at calls calls'
  cases l with
  | mark m =>
    rw [basic_mark, basic_mark]
    cases m with
    | star => exact .behind twins List.suffix_rfl .value
    | openParen =>
      refine .behind_cons twins (left_enclosed ((leavesEnd n).members _)) fun tails => ?_
      exact (ih.members n' tails (by omega) (by omega)).enclosed
    | openBrace =>
      refine .behind_cons twins (left_enclosed ((leavesEnd n).fields _)) fun tails => ?_
      exact (ih.fields n' tails (by omega) (by omega)).enclosed
    | openBracket =>
      refine .behind_cons twins (left_enclosed ((leavesEnd n).elements _)) fun tails => ?_
      exact (ih.elements n' tails (by omega) (by omega)).enclosed
    | _ => exact .problem twins
  | string s => exact .behind twins List.suffix_rfl .value
  | number s =>
    rw [TypeGrammar.basic, TypeGrammar.basic]
    cases hvalue : numeralType s with
    | ok e => exact .behind twins List.suffix_rfl .value
    | error f =>
      obtain ⟨k, rfl⟩ := numeralType_eq_error hvalue
      exact .passed (Nat.zero_le _)
  | name name =>
    refine .behind_cons twins ((leavesEnd n).basic_name name p rest) fun tails => ?_
    obtain ⟨hl, hl'⟩ := tails.length_pos
    rw [basic_word, basic_word, tails.starts, tails.starts, tails.starts]
    split
    · exact .behind tails ((leavesEnd n).function _) fun insides =>
        ih.function n' insides (by omega) (by omega)
    · split
      · refine .behind tails (left_enclosed ((leavesEnd n).arguments _)) fun insides => ?_
        exact (ih.arguments n' insides (by omega) (by omega)).enclosed
      · exact .value tails

theorem arguments_step (ih : TwoRuns n) : Agrees 5 TypeGrammar.arguments (n + 1) := by
  intro n' t more more' ts ts' twins calls calls'
  obtain ⟨n', rfl⟩ := exists_bound calls'
  rw [arguments_succ, arguments_succ]
  have hfirst := ih.union n' twins (by omega) (by omega)
  refine hfirst.separated (leavesEnd n).arguments fun e rest rest' h h' tails hl hl' => ?_
  have shorter := ((sound n).union h).length_lt trivial
  have shorter' := ((sound n').union h').length_lt trivial
  exact ih.arguments n' tails (by omega) (by omega)

theorem elements_step (ih : TwoRuns n) : Agrees 5 TypeGrammar.elements (n + 1) := by
  intro n' t more more' ts ts' twins calls calls'
  obtain ⟨n', rfl⟩ := exists_bound calls'
  rw [elements_succ, elements_succ, twins.starts]
  split
  · exact .value twins
  · have hfirst := ih.union n' twins (by omega) (by omega)
    refine hfirst.separated (leavesEnd n).elements fun e rest rest' h h' tails hl hl' => ?_
    have shorter := ((sound n).union h).length_lt trivial
    have shorter' := ((sound n').union h').length_lt trivial
    exact ih.elements n' tails (by omega) (by omega)

theorem fields_step (ih : TwoRuns n) : Agrees 1 TypeGrammar.fields (n + 1) := by
  intro n' t more more' ts ts' twins calls calls'
  obtain ⟨n', rfl⟩ := exists_bound calls'
  obtain ⟨⟨l, p⟩, rest, rest', rfl, rfl⟩ := twins.exists_cons
  rw [List.length_cons] at calls calls'
  rcases l.mark_or_key with ⟨m, rfl⟩ | isKey
  · rw [fields_mark, fields_mark]
    split
    · exact .value twins
    · exact .problem twins
  · rw [fields_key n isKey, fields_key n' isKey]
    refine .behind_cons twins ?_ fun tails => ?_
    · refine left_separated ?_ (leavesEnd n).fields
      rw [left_mapValue]
      exact (leavesEnd n).fieldValue rest
    · -- A field without a value takes nothing, but the key before it has paid for the call.
      have hvalue := ih.fieldValue n' tails (by omega) (by omega)
      refine (hvalue.mapValue _).separated (leavesEnd n).fields fun f mid mid' h h' tails hl hl' => ?_
      have shorter := List.IsSuffix.length_le ((leavesEnd n).fieldValue rest)
      have shorter' := List.IsSuffix.length_le ((leavesEnd n').fieldValue rest')
      rw [← left_mapValue (keyText l.text, ·), h] at shorter
      rw [← left_mapValue (keyText l.text, ·), h'] at shorter'
      dsimp only [left] at shorter shorter'
      exact ih.fields n' tails (by omega) (by omega)

theorem fieldValue_step (ih : TwoRuns n) : Agrees 5 TypeGrammar.fieldValue (n + 1) := by
  intro n' t more more' ts ts' twins calls calls'
  obtain ⟨n', rfl⟩ := exists_bound calls'
  obtain ⟨hl, hl'⟩ := twins.length_pos
  rw [fieldValue_succ, fieldValue_succ, twins.starts]
  split
  · refine .behind twins ?_ fun tails => ?_
    · rw [left_mapValue]
      exact (leavesEnd n).union _
    · exact (ih.union n' tails (by omega) (by omega)).mapValue _
  · exact .value twins

theorem withResult (ih : TwoRuns n) (ps : ParamList) {n' ts ts'} (twins : Twins t more more' ts ts')
    (calls : 6 * ts.length ≤ n) (calls' : 6 * ts'.length ≤ n') :
    Alike t more more' (TypeGrammar.withResult n ps ts) (TypeGrammar.withResult n' ps ts') := by
  obtain ⟨hl, hl'⟩ := twins.length_pos
  rw [TypeGrammar.withResult, TypeGrammar.withResult, twins.starts]
  split
  · refine .behind twins ?_ fun tails => ?_
    · rw [left_mapValue]
      exact (leavesEnd n).single _
    · exact (ih.single n' tails (by omega) (by omega)).mapValue _
  · exact .value twins

theorem function_step (ih : TwoRuns n) : Agrees 7 TypeGrammar.function (n + 1) := by
  intro n' t more more' ts ts' twins calls calls'
  obtain ⟨n', rfl⟩ := exists_bound calls'
  rw [function_succ, function_succ]
  have hparams := ih.params .empty n' twins (by omega) (by omega)
  refine hparams.enclosed.bind (leavesEnd n).withResult fun ps rest rest' h h' rests => ?_
  have shorter := left_enclosed (m := .closeParen) (f := id) ((leavesEnd n).params .empty ts)
  have shorter' := left_enclosed (m := .closeParen) (f := id) ((leavesEnd n').params .empty ts')
  rw [h] at shorter
  rw [h'] at shorter'
  have hl := shorter.length_le
  have hl' := shorter'.length_le
  dsimp only [left] at hl hl' ⊢
  exact ih.withResult ps rests (by omega) (by omega)

theorem params_step (ih : TwoRuns n) (acc : ParamList) :
    Agrees 6 (TypeGrammar.params · acc) (n + 1) := by
  intro n' t more more' ts ts' twins calls calls'
  obtain ⟨n', rfl⟩ := exists_bound calls'
  dsimp only
  rw [params_succ, params_succ, twins.starts]
  split
  · exact .value twins
  · refine (ih.param acc n' twins (by omega) (by omega)).bind (fun ps rest => ?_)
      fun ps rest rest' h h' rests => ?_
    · dsimp only
      split
      · exact ((leavesEnd n).params ps _).trans (List.tail_suffix rest)
      · exact List.suffix_rfl
    · obtain ⟨f, first, -⟩ := (sound n).param h
      obtain ⟨f', first', -⟩ := (sound n').param h'
      have shorter := first.isSuffix.length_le
      have shorter' := first'.isSuffix.length_le
      obtain ⟨hl, hl'⟩ := rests.length_pos
      dsimp only
      rw [rests.starts]
      split
      · refine .behind rests ((leavesEnd n).params ps _) fun tails => ?_
        exact ih.params ps n' tails (by omega) (by omega)
      · exact .value rests

/-- Whether a name binds is told by the token behind it. -/
theorem exists_binder (x : Token) {ts ts' : List Token} (tail : Twins t more more' ts ts') :
    ∃ b : Option Binder,
      binder? (x :: ts) = b.map (·, ts.tail) ∧ binder? (x :: ts') = b.map (·, ts'.tail) := by
  obtain ⟨⟨l', q⟩, rest, rest', rfl, rfl⟩ := tail.exists_cons
  obtain ⟨l, p⟩ := x
  cases l with
  | name name =>
    cases l' with
    | mark m =>
      cases m with
      | colon => exact ⟨Binder.ofName? name, rfl, rfl⟩
      | _ => exact ⟨none, rfl, rfl⟩
    | _ => exact ⟨none, rfl, rfl⟩
  | _ => exact ⟨none, rfl, rfl⟩

theorem param_step (ih : TwoRuns n) (acc : ParamList) :
    Agrees 5 (TypeGrammar.param · acc) (n + 1) := by
  intro n' t more more' ts ts' twins calls calls'
  obtain ⟨n', rfl⟩ := exists_bound calls'
  dsimp only
  have free (h : binder? ts = none) (h' : binder? ts' = none) :
      Alike t more more' (TypeGrammar.param (n + 1) acc ts) (TypeGrammar.param (n' + 1) acc ts') := by
    rw [param_free n acc h, param_free n' acc h']
    exact (ih.union n' twins (by omega) (by omega)).mapValue _
  cases twins with
  | here =>
    by_cases hname : ∃ name p, t = ⟨.name name, p⟩
    · -- The name is taken, whether it binds or not.
      refine .passed (List.IsSuffix.length_le ?_)
      cases hbinder : binder? (t :: more) with
      | none =>
        obtain ⟨name, p, rfl⟩ := hname
        obtain ⟨k, rfl⟩ := Nat.exists_eq_add_of_le' (by omega : 4 ≤ n)
        rw [param_free _ acc hbinder, left_mapValue]
        exact left_union_name k name p more
      | some bound =>
        obtain ⟨b, rest⟩ := bound
        rw [param_binds n acc hbinder, left_mapValue]
        exact ((leavesEnd n).union rest).trans (binder?_suffix hbinder)
    · have hnone (us : List Token) : binder? (t :: us) = none := by
        unfold binder?
        split
        · next heq => exact absurd ⟨_, _, (List.cons.inj heq).1⟩ hname
        · rfl
      exact free (hnone more) (hnone more')
  | @cons us us' x tail =>
    obtain ⟨b, hbinder, hbinder'⟩ := exists_binder x tail
    obtain ⟨hl, hl'⟩ := tail.length_pos
    rw [List.length_cons] at calls calls'
    cases b with
    | none => exact free hbinder hbinder'
    | some b =>
      rw [param_binds n acc hbinder, param_binds n' acc hbinder']
      refine .behind tail ?_ fun tails => ?_
      · rw [left_mapValue]
        exact (leavesEnd n).union _
      · exact (ih.union n' tails (by omega) (by omega)).mapValue _

end TwoRuns

theorem twoRuns (n : Nat) : TwoRuns n := by
  induction n with
  | zero => constructor <;> intros <;> intro _ _ _ _ _ _ _ calls <;> omega
  | succ n ih =>
    exact {
      basic := ih.basic_step
      fields := ih.fields_step
      single := ih.single_step
      members := ih.members_step
      union := ih.union_step
      arguments := ih.arguments_step
      elements := ih.elements_step
      fieldValue := ih.fieldValue_step
      param := ih.param_step
      params := ih.params_step
      function := ih.function_step }

end DocFlow.TypeGrammar
