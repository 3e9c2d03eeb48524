import DocFlow.Proofs.TypeExpr.LongInteger

namespace DocFlow.TypeGrammar

variable {α β : Type}

/-- The tokens that are left where the parser stops. A long integer leaves none. -/
def left : Except Fault (α × List Token) → List Token
  | .ok (_, rest) => rest
  | .error (.problem _ rest) => rest
  | .error (.longInteger _) => []

def starts (m : Mark) : List Token → Bool
  | [] => false
  | t :: _ => t.lexeme = .mark m

def mapValue (f : α → β) (x : Except Fault (α × List Token)) : Except Fault (β × List Token) :=
  x >>= fun r => .ok (f r.1, r.2)

def separated (sep : Mark) (first : Except Fault (α × List Token))
    (more : List Token → Except Fault (List α × List Token)) : Except Fault (List α × List Token) :=
  first >>= fun r =>
    if starts sep r.2 then mapValue (r.1 :: ·) (more r.2.tail) else .ok ([r.1], r.2)

def enclosed (m : Mark) (f : α → β) (inside : Except Fault (α × List Token)) :
    Except Fault (β × List Token) :=
  inside >>= fun r => expect m r.2 >>= fun rest => .ok (f r.1, rest)

theorem starts_mark (m : Mark) (p : Nat) (ts : List Token) : starts m (⟨.mark m, p⟩ :: ts) = true :=
  decide_eq_true rfl

theorem starts_eq_false {m : Mark} {ts : List Token}
    (h : ∀ p rest, ts = ⟨.mark m, p⟩ :: rest → False) : starts m ts = false := by
  rcases ts with _ | ⟨⟨l, p⟩, rest⟩
  · rfl
  · refine decide_eq_false ?_
    rintro rfl
    exact h p rest rfl

theorem exists_of_starts {m : Mark} {ts : List Token} (h : starts m ts = true) :
    ∃ p rest, ts = ⟨.mark m, p⟩ :: rest := by
  rcases ts with _ | ⟨⟨l, p⟩, rest⟩
  · cases h
  · obtain rfl : l = .mark m := of_decide_eq_true h
    exact ⟨p, rest, rfl⟩

theorem members_succ (n : Nat) (ts : List Token) :
    members (n + 1) ts = separated .bar (single n ts) (members n) := by
  rw [members, separated]
  cases single n ts with
  | error => rfl
  | ok r =>
    obtain ⟨e, mid⟩ := r
    dsimp only [bind, Except.bind]
    split
    · rfl
    · next h => rw [if_neg (by simp [starts_eq_false h])]

theorem union_succ (n : Nat) (ts : List Token) :
    union (n + 1) ts = mapValue ofMembers (members n ts) := by
  rw [union, mapValue]

theorem single_succ (n : Nat) (ts : List Token) :
    single (n + 1) ts =
      if starts .question ts then
        if atEnd Mark.endsUnknown ts.tail then suffixes .unknown ts.tail
        else mapValue (.nullable · .before) (single n ts.tail)
      else if starts .bang ts then mapValue .nonNullable (single n ts.tail)
      else if starts .ellipsis ts then
        if atEnd Mark.endsRest ts.tail then .ok (.rest none, ts.tail)
        else mapValue (.rest ∘ some) (single n ts.tail)
      else basic n ts >>= fun r => suffixes r.1 r.2 := by
  rw [single.eq_def]
  split
  · contradiction
  · next hn => cases hn; rfl
  · next hn => cases hn; rfl
  · next hn => cases hn; rfl
  · next hn noQuestion noBang noEllipsis =>
    cases hn
    rw [starts_eq_false noQuestion, starts_eq_false noBang, starts_eq_false noEllipsis]
    rfl

theorem basic_mark (n : Nat) (m : Mark) (p : Nat) (ts : List Token) :
    basic (n + 1) (⟨.mark m, p⟩ :: ts) =
      match m with
      | .star => .ok (.any, ts)
      | .openParen => enclosed .closeParen .union (members n ts)
      | .openBrace => enclosed .closeBrace .record (fields n ts)
      | .openBracket => enclosed .closeBracket .tuple (elements n ts)
      | m => .error (.problem (.unexpected m.text) (⟨.mark m, p⟩ :: ts)) := by
  cases m <;> rfl

theorem basic_word (n : Nat) (name : Text) (p : Nat) (ts : List Token) :
    basic (n + 1) (⟨.name name, p⟩ :: ts) =
      if starts .openParen ts && name == "function".toList then function n ts.tail
      else if (starts .openAngle ts || starts .dotAngle ts) && !isReservedName name then
        enclosed .closeAngle (.generic (.named name)) (arguments n ts.tail)
      else .ok (ofName name, ts) := by
  rw [basic.eq_def]
  dsimp only
  split
  · by_cases h : name = "function".toList
    · rw [if_pos h, h]
      rfl
    · rw [if_neg h, beq_eq_false_iff_ne.2 h]
      rfl
  · cases isReservedName name <;> rfl
  · cases isReservedName name <;> rfl
  · next noParen noAngle noDot =>
    rw [starts_eq_false noParen, starts_eq_false noAngle, starts_eq_false noDot]
    rfl

theorem arguments_succ (n : Nat) (ts : List Token) :
    arguments (n + 1) ts = separated .comma (union n ts) (arguments n) := by
  rw [arguments, separated]
  cases union n ts with
  | error => rfl
  | ok r =>
    obtain ⟨e, mid⟩ := r
    dsimp only [bind, Except.bind]
    split
    · rfl
    · next h => rw [if_neg (by simp [starts_eq_false h])]

theorem elements_succ (n : Nat) (ts : List Token) :
    elements (n + 1) ts =
      if starts .closeBracket ts then .ok ([], ts)
      else separated .comma (union n ts) (elements n) := by
  by_cases hclose : starts .closeBracket ts = true
  · obtain ⟨p, rest, rfl⟩ := exists_of_starts hclose
    rfl
  · rw [if_neg hclose, elements, separated]
    · cases union n ts with
      | error => rfl
      | ok r =>
        obtain ⟨e, mid⟩ := r
        dsimp only [bind, Except.bind]
        split
        · rfl
        · next h => rw [if_neg (by simp [starts_eq_false h])]
    · rintro p rest rfl
      exact hclose (starts_mark ..)

theorem fields_mark (n : Nat) (m : Mark) (p : Nat) (ts : List Token) :
    fields (n + 1) (⟨.mark m, p⟩ :: ts) =
      if m = .closeBrace then .ok ([], ⟨.mark m, p⟩ :: ts)
      else .error (.problem (.invalidKey m.text) (⟨.mark m, p⟩ :: ts)) := by
  cases m <;> rfl

theorem Lexeme.mark_or_key (l : Lexeme) : (∃ m, l = .mark m) ∨ l.isKey := by
  cases l with
  | mark m => exact .inl ⟨m, rfl⟩
  | _ => exact .inr trivial

theorem fields_key (n : Nat) {l : Lexeme} (isKey : l.isKey) (p : Nat) (ts : List Token) :
    fields (n + 1) (⟨l, p⟩ :: ts) =
      separated .comma (mapValue (keyText l.text, ·) (fieldValue n ts)) (fields n) := by
  have noMark : ∀ m q, (⟨l, p⟩ : Token) ≠ ⟨.mark m, q⟩ := by
    intro m q heq
    cases heq
    exact isKey
  rw [fields, separated, mapValue]
  · cases fieldValue n ts with
    | error => rfl
    | ok r =>
      obtain ⟨v, mid⟩ := r
      dsimp only [bind, Except.bind]
      split
      · rfl
      · next h => rw [if_neg (by simp [starts_eq_false h])]
  · exact fun p => noMark .closeBrace p
  · exact noMark

theorem fieldValue_succ (n : Nat) (ts : List Token) :
    fieldValue (n + 1) ts =
      if starts .colon ts then mapValue some (union n ts.tail) else .ok (none, ts) := by
  by_cases hcolon : starts .colon ts = true
  · obtain ⟨p, rest, rfl⟩ := exists_of_starts hcolon
    rfl
  · rw [if_neg hcolon, fieldValue]
    rintro p rest rfl
    exact hcolon (starts_mark ..)

def withResult (n : Nat) (ps : ParamList) (ts : List Token) :
    Except Fault (TypeExpr × List Token) :=
  if starts .colon ts then
    mapValue (fun e => .function ps.params (some e) ps.this ps.new) (single n ts.tail)
  else .ok (.function ps.params none ps.this ps.new, ts)

theorem function_succ (n : Nat) (ts : List Token) :
    function (n + 1) ts =
      enclosed .closeParen id (params n .empty ts) >>= fun r => withResult n r.1 r.2 := by
  rw [function, enclosed]
  cases params n .empty ts with
  | error => rfl
  | ok r =>
    obtain ⟨ps, mid⟩ := r
    dsimp only [bind, Except.bind]
    cases expect .closeParen mid with
    | error => rfl
    | ok rest =>
      dsimp only [id]
      rw [withResult]
      split
      · rfl
      · next h => rw [if_neg (by simp [starts_eq_false h])]

theorem params_succ (n : Nat) (acc : ParamList) (ts : List Token) :
    params (n + 1) acc ts =
      if starts .closeParen ts then .ok (acc, ts)
      else param n acc ts >>= fun r =>
        if starts .comma r.2 then params n r.1 r.2.tail else .ok r := by
  by_cases hclose : starts .closeParen ts = true
  · obtain ⟨p, rest, rfl⟩ := exists_of_starts hclose
    rfl
  · rw [if_neg hclose, params]
    · cases param n acc ts with
      | error => rfl
      | ok r =>
        obtain ⟨ps, mid⟩ := r
        dsimp only [bind, Except.bind]
        split
        · rfl
        · next h => rw [if_neg (by simp [starts_eq_false h])]
    · rintro p rest rfl
      exact hclose (starts_mark ..)

theorem param_binds (n : Nat) (acc : ParamList) {ts rest : List Token} {b : Binder}
    (h : binder? ts = some (b, rest)) :
    param (n + 1) acc ts = mapValue (acc.bind b ·) (union n rest) := by
  rw [param, h]
  rfl

theorem param_free (n : Nat) (acc : ParamList) {ts : List Token} (h : binder? ts = none) :
    param (n + 1) acc ts = mapValue (acc.push ·) (union n ts) := by
  rw [param, h]
  rfl

theorem left_mapValue (f : α → β) (x : Except Fault (α × List Token)) :
    left (mapValue f x) = left x := by
  rcases x with (_ | _) | _ <;> rfl

theorem left_bind {x : Except Fault (α × List Token)}
    {f : α × List Token → Except Fault (β × List Token)} {ts : List Token} (hx : left x <:+ ts)
    (hf : ∀ a rest, left (f (a, rest)) <:+ rest) : left (x >>= f) <:+ ts := by
  rcases x with (_ | _) | ⟨a, rest⟩
  · exact hx
  · exact hx
  · exact (hf a rest).trans hx

theorem left_separated {sep : Mark} {first : Except Fault (α × List Token)}
    {more : List Token → Except Fault (List α × List Token)} {ts : List Token}
    (hfirst : left first <:+ ts) (hmore : ∀ rest, left (more rest) <:+ rest) :
    left (separated sep first more) <:+ ts := by
  refine left_bind hfirst fun a rest => ?_
  dsimp only
  split
  · rw [left_mapValue]
    exact (hmore _).trans (List.tail_suffix rest)
  · exact List.suffix_rfl

theorem left_expect (m : Mark) (f : List Token → α) (ts : List Token) :
    left (expect m ts >>= fun rest => .ok (f rest, rest)) <:+ ts := by
  rcases ts with _ | ⟨t, ts⟩
  · exact List.suffix_rfl
  · rw [expect]
    split
    · exact List.suffix_cons t ts
    · exact List.suffix_rfl

theorem left_enclosed {m : Mark} {f : α → β} {inside : Except Fault (α × List Token)}
    {ts : List Token} (h : left inside <:+ ts) : left (enclosed m f inside) <:+ ts :=
  left_bind h fun a rest => left_expect m (fun _ => f a) rest

theorem left_suffixes (e : TypeExpr) (ts : List Token) : left (suffixes e ts) <:+ ts := by
  fun_induction suffixes e ts with
  | case1 e p q ts ih => exact ih.trans ⟨[_, _], rfl⟩
  | case2 => exact List.nil_suffix
  | case3 => exact List.suffix_cons ..
  | case4 e p ts ih => exact ih.trans (List.suffix_cons ..)
  | case5 e p ts ih => exact ih.trans (List.suffix_cons ..)
  | case6 e p ts ih => exact ih.trans (List.suffix_cons ..)
  | case7 => exact List.suffix_rfl

/-- The parser with a bound of `n` nested calls leaves an end of the tokens. -/
structure LeavesEnd (n : Nat) : Prop where
  members (ts) : left (members n ts) <:+ ts
  union (ts) : left (union n ts) <:+ ts
  single (ts) : left (single n ts) <:+ ts
  basic (ts) : left (basic n ts) <:+ ts
  arguments (ts) : left (arguments n ts) <:+ ts
  elements (ts) : left (elements n ts) <:+ ts
  fields (ts) : left (fields n ts) <:+ ts
  fieldValue (ts) : left (fieldValue n ts) <:+ ts
  function (ts) : left (function n ts) <:+ ts
  params (acc ts) : left (params n acc ts) <:+ ts
  param (acc ts) : left (param n acc ts) <:+ ts

theorem binder?_suffix {ts rest : List Token} {b : Binder} (h : binder? ts = some (b, rest)) :
    rest <:+ ts.tail := by
  unfold binder? at h
  split at h
  · obtain ⟨_, -, heq⟩ := Option.map_eq_some_iff.1 h
    cases heq
    exact List.suffix_cons ..
  · cases h

namespace LeavesEnd

variable {n : Nat}

theorem single_step (ih : LeavesEnd n) (ts : List Token) :
    left (TypeGrammar.single (n + 1) ts) <:+ ts := by
  have htail := List.tail_suffix ts
  rw [single_succ]
  split
  · split
    · exact (left_suffixes ..).trans htail
    · rw [left_mapValue]
      exact (ih.single _).trans htail
  · split
    · rw [left_mapValue]
      exact (ih.single _).trans htail
    · split
      · split
        · exact htail
        · rw [left_mapValue]
          exact (ih.single _).trans htail
      · exact left_bind (ih.basic ts) fun e rest => left_suffixes e rest

/-- A name is always taken. -/
theorem basic_name (ih : LeavesEnd n) (name : Text) (p : Nat) (ts : List Token) :
    left (TypeGrammar.basic (n + 1) (⟨.name name, p⟩ :: ts)) <:+ ts := by
  rw [basic_word]
  split
  · exact (ih.function _).trans (List.tail_suffix ts)
  · split
    · exact (left_enclosed (ih.arguments _)).trans (List.tail_suffix ts)
    · exact List.suffix_rfl

theorem basic_step (ih : LeavesEnd n) (ts : List Token) :
    left (TypeGrammar.basic (n + 1) ts) <:+ ts := by
  rcases ts with _ | ⟨⟨l, p⟩, ts⟩
  · exact List.suffix_rfl
  have htail : ts <:+ ⟨l, p⟩ :: ts := List.suffix_cons ..
  cases l with
  | mark m =>
    rw [basic_mark]
    split
    · exact htail
    · exact (left_enclosed (ih.members ts)).trans htail
    · exact (left_enclosed (ih.fields ts)).trans htail
    · exact (left_enclosed (ih.elements ts)).trans htail
    · exact List.suffix_rfl
  | string s => exact htail
  | number s =>
    rw [TypeGrammar.basic]
    cases hvalue : numeralType s with
    | ok e => exact htail
    | error f =>
      obtain ⟨k, rfl⟩ := numeralType_eq_error hvalue
      exact List.nil_suffix
  | name name => exact (ih.basic_name name p ts).trans htail

theorem fields_step (ih : LeavesEnd n) (ts : List Token) :
    left (TypeGrammar.fields (n + 1) ts) <:+ ts := by
  rcases ts with _ | ⟨⟨l, p⟩, ts⟩
  · exact List.suffix_rfl
  rcases l.mark_or_key with ⟨m, rfl⟩ | isKey
  · rw [fields_mark]
    split <;> exact List.suffix_rfl
  · rw [fields_key n isKey]
    refine (left_separated ?_ ih.fields).trans (List.suffix_cons ..)
    rw [left_mapValue]
    exact ih.fieldValue ts

theorem fieldValue_step (ih : LeavesEnd n) (ts : List Token) :
    left (TypeGrammar.fieldValue (n + 1) ts) <:+ ts := by
  rw [fieldValue_succ]
  split
  · rw [left_mapValue]
    exact (ih.union _).trans (List.tail_suffix ts)
  · exact List.suffix_rfl

theorem withResult (ih : LeavesEnd n) (ps : ParamList) (ts : List Token) :
    left (TypeGrammar.withResult n ps ts) <:+ ts := by
  rw [TypeGrammar.withResult]
  split
  · rw [left_mapValue]
    exact (ih.single _).trans (List.tail_suffix ts)
  · exact List.suffix_rfl

theorem params_step (ih : LeavesEnd n) (acc : ParamList) (ts : List Token) :
    left (TypeGrammar.params (n + 1) acc ts) <:+ ts := by
  rw [params_succ]
  split
  · exact List.suffix_rfl
  · refine left_bind (ih.param acc ts) fun ps rest => ?_
    dsimp only
    split
    · exact (ih.params ps _).trans (List.tail_suffix rest)
    · exact List.suffix_rfl

theorem param_step (ih : LeavesEnd n) (acc : ParamList) (ts : List Token) :
    left (TypeGrammar.param (n + 1) acc ts) <:+ ts := by
  cases hbinder : binder? ts with
  | none =>
    rw [param_free n acc hbinder, left_mapValue]
    exact ih.union ts
  | some bound =>
    obtain ⟨b, rest⟩ := bound
    rw [param_binds n acc hbinder, left_mapValue]
    exact ((ih.union rest).trans (binder?_suffix hbinder)).trans (List.tail_suffix ts)

end LeavesEnd

theorem leavesEnd (n : Nat) : LeavesEnd n := by
  induction n with
  | zero => constructor <;> intros <;> exact List.suffix_rfl
  | succ n ih =>
    exact {
      members := fun ts => by
        rw [members_succ]
        exact left_separated (ih.single ts) ih.members
      union := fun ts => by
        rw [union_succ, left_mapValue]
        exact ih.members ts
      single := ih.single_step
      basic := ih.basic_step
      arguments := fun ts => by
        rw [arguments_succ]
        exact left_separated (ih.union ts) ih.arguments
      elements := fun ts => by
        rw [elements_succ]
        split
        · exact List.suffix_rfl
        · exact left_separated (ih.union ts) ih.elements
      fields := ih.fields_step
      fieldValue := ih.fieldValue_step
      function := fun ts => by
        rw [function_succ]
        exact left_bind (left_enclosed (ih.params .empty ts)) ih.withResult
      params := ih.params_step
      param := ih.param_step }

/-- A union takes the name that it starts with. -/
theorem left_union_name (n : Nat) (name : Text) (p : Nat) (ts : List Token) :
    left (union (n + 4) (⟨.name name, p⟩ :: ts)) <:+ ts := by
  have hbasic := (leavesEnd n).basic_name name p ts
  have hsingle : left (single (n + 2) (⟨.name name, p⟩ :: ts)) <:+ ts := by
    rw [single_succ]
    exact left_bind hbasic left_suffixes
  rw [union_succ, left_mapValue, members_succ]
  exact left_separated hsingle (leavesEnd _).members

end DocFlow.TypeGrammar
