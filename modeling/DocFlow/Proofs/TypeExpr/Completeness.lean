import DocFlow.Proofs.TypeExpr.Soundness

namespace DocFlow.TypeGrammar

def unionFollowers : List Mark := [.comma, .closeParen, .closeAngle, .closeBracket, .closeBrace]

/-- The rests before which a symbol is complete. A derivation may stop at any token, while the
parser reads on as long as it can. -/
def Symbol.Follow : Symbol → List Token → Prop
  | .single, ts => EndsBefore (.bar :: unionFollowers) ts
  | .members, ts | .union, ts => EndsBefore unionFollowers ts
  | .basic, ts => StartsSuffix ts ∨ EndsBefore (.bar :: unionFollowers) ts
  | .arguments, ts => ∃ p rest, ts = ⟨.mark .closeAngle, p⟩ :: rest
  | .elements, ts => ∃ p rest, ts = ⟨.mark .closeBracket, p⟩ :: rest
  | .fields, ts => ∃ p rest, ts = ⟨.mark .closeBrace, p⟩ :: rest
  | .fieldValue, ts => EndsBefore [.comma, .closeBrace] ts
  | .params, ts => ∃ p rest, ts = ⟨.mark .closeParen, p⟩ :: rest
  | .param, ts => EndsBefore [.comma, .closeParen] ts

/-- More nested calls than a symbol makes before it takes a token. -/
def Symbol.rank : Symbol → Nat
  | .basic | .fields => 1
  | .single => 2
  | .members => 3
  | .union => 4
  | .arguments | .elements | .fieldValue | .param => 5
  | .params => 6

def Symbol.Parses : (s : Symbol) → Nat → List Token → s.Value → List Token → Prop
  | .single, n, ts, e, rest => TypeGrammar.single n ts = .ok (e, rest)
  | .members, n, ts, es, rest => TypeGrammar.members n ts = .ok (es, rest)
  | .union, n, ts, e, rest => TypeGrammar.union n ts = .ok (e, rest)
  | .basic, n, ts, e, rest => TypeGrammar.basic n ts = .ok (e, rest)
  | .arguments, n, ts, es, rest => TypeGrammar.arguments n ts = .ok (es, rest)
  | .elements, n, ts, es, rest => TypeGrammar.elements n ts = .ok (es, rest)
  | .fields, n, ts, fs, rest => TypeGrammar.fields n ts = .ok (fs, rest)
  | .fieldValue, n, ts, v, rest => TypeGrammar.fieldValue n ts = .ok (v, rest)
  | .params, n, ts, fs, rest =>
    ∀ acc, TypeGrammar.params n acc ts = .ok (fs.foldl ParamList.add acc, rest)
  | .param, n, ts, f, rest => ∀ acc, TypeGrammar.param n acc ts = .ok (acc.add f, rest)

theorem EndsBefore.mono {ms ms' : List Mark} {ts : List Token} (h : EndsBefore ms ts)
    (sub : ms ⊆ ms') : EndsBefore ms' ts := by
  cases ts with
  | nil => trivial
  | cons t ts =>
    obtain ⟨m, hm, ht⟩ := h
    exact ⟨m, sub hm, ht⟩

theorem EndsBefore.mem {ms : List Mark} {m : Mark} {p : Nat} {ts : List Token}
    (h : EndsBefore ms (⟨.mark m, p⟩ :: ts)) : m ∈ ms := by
  obtain ⟨m', hm, heq⟩ := h
  cases heq
  exact hm

def typeStarts : List Mark :=
  [.question, .bang, .ellipsis, .star, .openParen, .openBrace, .openBracket]

theorem Derives.starts {s ts v rest} (h : Derives s ts v rest) (solid : s.IsSolid) {m p ts'}
    (hts : ts = ⟨.mark m, p⟩ :: ts') : m ∈ typeStarts := by
  induction h with
  | unknown | nullable | nonNullable | anyRest | rest | any | parens | record | tuple =>
    cases hts
    decide
  | suffixed _ _ ih | member _ ih | bar _ _ ih | alternatives _ ih | argument _ ih | positional _ ih
  | moreArguments _ _ ih => exact ih trivial hts
  | string | number | name | generic | function | functionTo | bound => cases hts
  | _ => exact solid.elim

/-- A type that starts with a name before a colon stops at the colon. -/
theorem Derives.stops_at_colon {s ts v rest} (h : Derives s ts v rest) {n p q ts'}
    (hts : ts = ⟨.name n, p⟩ :: ⟨.mark .colon, q⟩ :: ts')
    (hs : s ∈ [Symbol.single, .members, .union, .basic]) : rest = ⟨.mark .colon, q⟩ :: ts' := by
  induction h with
  | unknown | nullable | nonNullable | anyRest | rest | any | parens | record | tuple | string
  | number => cases hts
  | suffixed _ suffixes ih =>
    have := ih hts (by simp)
    subst this
    cases suffixes
    rfl
  | member _ ih | alternatives _ ih => exact ih hts (by simp)
  | bar _ _ ih =>
    have := ih hts (by simp)
    cases this
  | name =>
    cases hts
    rfl
  | generic _ opening =>
    cases hts
    simp at opening
  | function | functionTo => cases hts
  | _ => simp at hs

/-- A parameter that is a type as a whole starts with no binder. -/
theorem binder?_eq_none {ts e rest} (h : Derives .union ts e rest)
    (follow : EndsBefore [.comma, .closeParen] rest) : binder? ts = none := by
  unfold binder?
  split
  · have stop := h.stops_at_colon rfl (by simp)
    subst stop
    exact absurd follow.mem (by decide)
  · rfl

theorem suffixes_complete {e ts e' rest} (h : Suffixes e ts e' rest)
    (follow : EndsBefore (.bar :: unionFollowers) rest) : suffixes e ts = .ok (e', rest) := by
  induction h with
  | @done e ts _ =>
    cases ts with
    | nil => rfl
    | cons t ts =>
      obtain ⟨l, p⟩ := t
      obtain ⟨m, hm, rfl⟩ := follow
      simp only [unionFollowers, List.mem_cons, List.not_mem_nil, or_false] at hm
      rcases hm with rfl | rfl | rfl | rfl | rfl | rfl <;> rfl
  | array _ ih | optional _ ih | nullable _ ih | nonNullable _ ih =>
    rw [suffixes]
    exact ih follow

theorem single_of_basic {n ts e mid} (h : basic n ts = .ok (e, mid)) :
    single (n + 1) ts = suffixes e mid := by
  rw [single.eq_def]
  split
  · contradiction
  · cases n <;> simp [basic] at h
  · cases n <;> simp [basic] at h
  · cases n <;> simp [basic] at h
  · next hn _ _ _ =>
    cases hn
    rw [h]
    rfl

theorem members_last {n ts e rest} (h : single n ts = .ok (e, rest))
    (follow : EndsBefore unionFollowers rest) : members (n + 1) ts = .ok ([e], rest) := by
  rw [members, h]
  dsimp only [bind, Except.bind]
  split
  · exact absurd follow.mem (by decide)
  · rfl

theorem members_more {n ts e p mid es rest} (h : single n ts = .ok (e, ⟨.mark .bar, p⟩ :: mid))
    (hmore : members n mid = .ok (es, rest)) : members (n + 1) ts = .ok (e :: es, rest) := by
  rw [members, h]
  dsimp only [bind, Except.bind]
  rw [hmore]

theorem Symbol.Follow.mark_mem {m p ts} (follow : Symbol.basic.Follow (⟨.mark m, p⟩ :: ts)) :
    m ∈ [.openBracket, .equals, .question, .bang, .bar] ++ unionFollowers := by
  rcases follow with h | h
  · unfold StartsSuffix at h
    split at h <;> simp_all
  · rcases List.mem_cons.1 h.mem with rfl | hm
    · decide
    · exact List.mem_append_right _ hm

theorem basic_name {n name p rest} (follow : Symbol.basic.Follow rest) :
    basic (n + 1) (⟨.name name, p⟩ :: rest) = .ok (ofName name, rest) := by
  -- A name is read on before three marks, and none of them may follow it here.
  rw [basic]
  · rintro q ts rfl
    exact absurd follow.mark_mem (by decide)
  · rintro q ts rfl
    exact absurd follow.mark_mem (by decide)
  · rintro q ts rfl
    exact absurd follow.mark_mem (by decide)

theorem basic_generic {n name m p q r ts es rest} (free : isReservedName name = false)
    (opening : m = .openAngle ∨ m = .dotAngle)
    (h : arguments n ts = .ok (es, ⟨.mark .closeAngle, r⟩ :: rest)) :
    basic (n + 1) (⟨.name name, p⟩ :: ⟨.mark m, q⟩ :: ts) =
      .ok (.generic (.named name) es, rest) := by
  rcases opening with rfl | rfl <;>
  · rw [basic]
    simp only [free, h]
    rfl

theorem function_plain {n ts fs r rest}
    (h : params n .empty ts = .ok (fs.foldl ParamList.add .empty, ⟨.mark .closeParen, r⟩ :: rest))
    (follow : Symbol.basic.Follow rest) :
    function (n + 1) ts = .ok (FunctionParam.signature fs none, rest) := by
  rw [function, h]
  dsimp only [bind, Except.bind, expect]
  rw [if_pos rfl]
  dsimp only
  split
  · exact absurd follow.mark_mem (by decide)
  · rw [ParamList.function_foldl_add]

theorem function_to {n ts fs r c mid e rest}
    (h : params n .empty ts =
      .ok (fs.foldl ParamList.add .empty, ⟨.mark .closeParen, r⟩ :: ⟨.mark .colon, c⟩ :: mid))
    (hresult : single n mid = .ok (e, rest)) :
    function (n + 1) ts = .ok (FunctionParam.signature fs (some e), rest) := by
  rw [function, h]
  dsimp only [bind, Except.bind, expect]
  rw [if_pos rfl]
  dsimp only
  rw [hresult, ← ParamList.function_foldl_add]

theorem arguments_last {n ts e r rest} (h : union n ts = .ok (e, ⟨.mark .closeAngle, r⟩ :: rest)) :
    arguments (n + 1) ts = .ok ([e], ⟨.mark .closeAngle, r⟩ :: rest) := by
  rw [arguments, h]
  rfl

theorem arguments_more {n ts e p mid es rest} (h : union n ts = .ok (e, ⟨.mark .comma, p⟩ :: mid))
    (hmore : arguments n mid = .ok (es, rest)) : arguments (n + 1) ts = .ok (e :: es, rest) := by
  rw [arguments, h]
  dsimp only [bind, Except.bind]
  rw [hmore]

theorem elements_last {n ts e r rest} (filled : ∀ p ts', ts = ⟨.mark .closeBracket, p⟩ :: ts' → False)
    (h : union n ts = .ok (e, ⟨.mark .closeBracket, r⟩ :: rest)) :
    elements (n + 1) ts = .ok ([e], ⟨.mark .closeBracket, r⟩ :: rest) := by
  rw [elements, h]
  · rfl
  · exact filled

theorem elements_more {n ts e p mid es rest}
    (filled : ∀ p ts', ts = ⟨.mark .closeBracket, p⟩ :: ts' → False)
    (h : union n ts = .ok (e, ⟨.mark .comma, p⟩ :: mid))
    (hmore : elements n mid = .ok (es, rest)) : elements (n + 1) ts = .ok (e :: es, rest) := by
  rw [elements, h]
  · dsimp only [bind, Except.bind]
    rw [hmore]
  · exact filled

theorem fields_last {n l p ts v r rest} (key : l.isKey)
    (h : fieldValue n ts = .ok (v, ⟨.mark .closeBrace, r⟩ :: rest)) :
    fields (n + 1) (⟨l, p⟩ :: ts) = .ok ([(keyText l.text, v)], ⟨.mark .closeBrace, r⟩ :: rest) := by
  cases l with
  | mark m => exact key.elim
  | _ =>
    rw [fields, h]
    · rfl
    · exact nofun
    · exact nofun

theorem fields_more {n l p c ts v mid fs rest} (key : l.isKey)
    (h : fieldValue n ts = .ok (v, ⟨.mark .comma, c⟩ :: mid))
    (hmore : fields n mid = .ok (fs, rest)) :
    fields (n + 1) (⟨l, p⟩ :: ts) = .ok ((keyText l.text, v) :: fs, rest) := by
  cases l with
  | mark m => exact key.elim
  | _ =>
    rw [fields, h]
    · dsimp only [bind, Except.bind]
      rw [hmore]
    · exact nofun
    · exact nofun

theorem fieldValue_none {n rest} (follow : EndsBefore [.comma, .closeBrace] rest) :
    fieldValue (n + 1) rest = .ok (none, rest) := by
  rw [fieldValue]
  rintro p ts rfl
  exact absurd follow.mem (by decide)

theorem params_last {n acc ts f r rest}
    (filled : ∀ p ts', ts = ⟨.mark .closeParen, p⟩ :: ts' → False)
    (h : param n acc ts = .ok (acc.add f, ⟨.mark .closeParen, r⟩ :: rest)) :
    params (n + 1) acc ts = .ok (acc.add f, ⟨.mark .closeParen, r⟩ :: rest) := by
  rw [params, h]
  · rfl
  · exact filled

theorem params_more {n acc ts f p mid ps rest}
    (filled : ∀ p ts', ts = ⟨.mark .closeParen, p⟩ :: ts' → False)
    (h : param n acc ts = .ok (acc.add f, ⟨.mark .comma, p⟩ :: mid))
    (hmore : params n (acc.add f) mid = .ok (ps, rest)) :
    params (n + 1) acc ts = .ok (ps, rest) := by
  rw [params, h]
  · exact hmore
  · exact filled

theorem param_bound {n acc name b p q ts e rest} (binds : Binder.ofName? name = some b)
    (h : union n ts = .ok (e, rest)) :
    param (n + 1) acc (⟨.name name, p⟩ :: ⟨.mark .colon, q⟩ :: ts) =
      .ok (acc.add (.bound b e), rest) := by
  rw [param, binder?, binds]
  dsimp only [Option.map]
  rw [h]
  rfl

theorem param_positional {n acc ts e rest} (free : binder? ts = none)
    (h : union n ts = .ok (e, rest)) :
    param (n + 1) acc ts = .ok (acc.add (.positional e), rest) := by
  rw [param, free]
  dsimp only
  rw [h]
  rfl

/-- Before a rest that may follow, the parser reads a value, given calls enough: six for each token,
and the rank for those before the first token is taken. -/
def Symbol.Reads (s : Symbol) (ts : List Token) (v : s.Value) (rest : List Token) : Prop :=
  s.Follow rest → ∀ n, 6 * ts.length + s.rank ≤ n → s.Parses n ts v rest

namespace Symbol.Reads

theorem of_call {s : Symbol} {ts : List Token} {v : s.Value} {rest : List Token}
    (h : s.Follow rest → ∀ n, 6 * ts.length + s.rank ≤ n + 1 → s.Parses (n + 1) ts v rest) :
    s.Reads ts v rest := by
  intro follow n calls
  have hrank : 0 < s.rank := by cases s <;> decide
  obtain ⟨n, rfl⟩ := Nat.exists_eq_add_one_of_ne_zero (n := n) (by omega)
  exact h follow n calls

variable {p q r c : Nat} {ts mid rest : List Token} {e e' : TypeExpr} {es : List TypeExpr}

theorem unknown (alone : EndsBefore unknownFollowers ts) (h : Suffixes .unknown ts e rest) :
    single.Reads (⟨.mark .question, p⟩ :: ts) e rest := by
  refine of_call fun follow n _ => ?_
  show TypeGrammar.single (n + 1) _ = _
  rw [TypeGrammar.single, if_pos (unknownFollowers_of_atEnd.2 alone)]
  exact suffixes_complete h follow

theorem nullable (followed : ¬ EndsBefore unknownFollowers ts) (h : single.Reads ts e rest) :
    single.Reads (⟨.mark .question, p⟩ :: ts) (.nullable e .before) rest := by
  refine of_call fun follow n calls => ?_
  rw [List.length_cons] at calls
  have inner : TypeGrammar.single n ts = .ok (e, rest) := h follow n (by omega)
  show TypeGrammar.single (n + 1) _ = _
  rw [TypeGrammar.single, if_neg (mt unknownFollowers_of_atEnd.1 followed), inner]
  rfl

theorem nonNullable (h : single.Reads ts e rest) :
    single.Reads (⟨.mark .bang, p⟩ :: ts) (.nonNullable e) rest := by
  refine of_call fun follow n calls => ?_
  rw [List.length_cons] at calls
  have inner : TypeGrammar.single n ts = .ok (e, rest) := h follow n (by omega)
  show TypeGrammar.single (n + 1) _ = _
  rw [TypeGrammar.single, inner]
  rfl

theorem anyRest (alone : EndsBefore restFollowers rest) :
    single.Reads (⟨.mark .ellipsis, p⟩ :: rest) (.rest none) rest := by
  refine of_call fun _ n _ => ?_
  show TypeGrammar.single (n + 1) _ = _
  rw [TypeGrammar.single, if_pos (restFollowers_of_atEnd.2 alone)]

theorem ellipsis (followed : ¬ EndsBefore restFollowers ts) (h : single.Reads ts e rest) :
    single.Reads (⟨.mark .ellipsis, p⟩ :: ts) (.rest (some e)) rest := by
  refine of_call fun follow n calls => ?_
  rw [List.length_cons] at calls
  have inner : TypeGrammar.single n ts = .ok (e, rest) := h follow n (by omega)
  show TypeGrammar.single (n + 1) _ = _
  rw [TypeGrammar.single, if_neg (mt restFollowers_of_atEnd.1 followed), inner]
  rfl

theorem suffixed (h : basic.Reads ts e mid) (suffixes : Suffixes e mid e' rest) :
    single.Reads ts e' rest := by
  refine of_call fun follow n calls => ?_
  rw [rank] at calls
  -- Behind the basic type stands its first suffix, or else what follows the whole.
  have hmid : basic.Follow mid := by
    cases suffixes with
    | done => exact .inr follow
    | _ => exact .inl trivial
  have inner : TypeGrammar.basic n ts = .ok (e, mid) := h hmid n (by rw [rank]; omega)
  exact (single_of_basic inner).trans (suffixes_complete suffixes follow)

theorem member (h : single.Reads ts e rest) : members.Reads ts [e] rest := by
  refine of_call fun follow n calls => ?_
  rw [rank] at calls
  have first : TypeGrammar.single n ts = .ok (e, rest) :=
    h (follow.mono (List.subset_cons_self ..)) n (by rw [rank]; omega)
  exact members_last first follow

theorem bar (hfirst : single.Reads ts e (⟨.mark .bar, p⟩ :: mid)) (shorter : mid.length < ts.length)
    (hmore : members.Reads mid es rest) : members.Reads ts (e :: es) rest := by
  refine of_call fun follow n calls => ?_
  rw [rank] at calls
  have first : TypeGrammar.single n ts = .ok (e, ⟨.mark .bar, p⟩ :: mid) :=
    hfirst ⟨.bar, List.mem_cons_self, rfl⟩ n (by rw [rank]; omega)
  have more : TypeGrammar.members n mid = .ok (es, rest) := hmore follow n (by rw [rank]; omega)
  exact members_more first more

theorem alternatives (h : members.Reads ts es rest) : union.Reads ts (ofMembers es) rest := by
  refine of_call fun follow n calls => ?_
  rw [rank] at calls
  have members : TypeGrammar.members n ts = .ok (es, rest) := h follow n (by rw [rank]; omega)
  show TypeGrammar.union (n + 1) ts = _
  rw [TypeGrammar.union, members]
  rfl

theorem any : basic.Reads (⟨.mark .star, p⟩ :: rest) .any rest := of_call fun _ _ _ => rfl

theorem parens (h : members.Reads ts es (⟨.mark .closeParen, q⟩ :: rest)) :
    basic.Reads (⟨.mark .openParen, p⟩ :: ts) (.union es) rest := by
  refine of_call fun _ n calls => ?_
  rw [rank, List.length_cons] at calls
  have inside : TypeGrammar.members n ts = .ok (es, ⟨.mark .closeParen, q⟩ :: rest) :=
    h ⟨.closeParen, by decide, rfl⟩ n (by rw [rank]; omega)
  show TypeGrammar.basic (n + 1) _ = _
  rw [TypeGrammar.basic, inside]
  rfl

theorem record {fs : List (Text × Option TypeExpr)}
    (h : fields.Reads ts fs (⟨.mark .closeBrace, q⟩ :: rest)) :
    basic.Reads (⟨.mark .openBrace, p⟩ :: ts) (.record fs) rest := by
  refine of_call fun _ n calls => ?_
  rw [rank, List.length_cons] at calls
  have inside : TypeGrammar.fields n ts = .ok (fs, ⟨.mark .closeBrace, q⟩ :: rest) :=
    h ⟨_, _, rfl⟩ n (by rw [rank]; omega)
  show TypeGrammar.basic (n + 1) _ = _
  rw [TypeGrammar.basic, inside]
  rfl

theorem tuple (h : elements.Reads ts es (⟨.mark .closeBracket, q⟩ :: rest)) :
    basic.Reads (⟨.mark .openBracket, p⟩ :: ts) (.tuple es) rest := by
  refine of_call fun _ n calls => ?_
  rw [rank, List.length_cons] at calls
  have inside : TypeGrammar.elements n ts = .ok (es, ⟨.mark .closeBracket, q⟩ :: rest) :=
    h ⟨_, _, rfl⟩ n (by rw [rank]; omega)
  show TypeGrammar.basic (n + 1) _ = _
  rw [TypeGrammar.basic, inside]
  rfl

theorem string {t : Text} :
    basic.Reads (⟨.string t, p⟩ :: rest) (.string (t.drop 1).dropLast) rest :=
  of_call fun _ _ _ => rfl

theorem number {t : Text} (value : numeralType t = .ok e) :
    basic.Reads (⟨.number t, p⟩ :: rest) e rest := by
  refine of_call fun _ n _ => ?_
  show TypeGrammar.basic (n + 1) _ = _
  rw [TypeGrammar.basic, value]
  rfl

theorem name {t : Text} : basic.Reads (⟨.name t, p⟩ :: rest) (ofName t) rest :=
  of_call fun follow _ _ => basic_name follow

theorem generic {t : Text} {m : Mark} (free : isReservedName t = false)
    (opening : m = .openAngle ∨ m = .dotAngle)
    (h : arguments.Reads ts es (⟨.mark .closeAngle, r⟩ :: rest)) :
    basic.Reads (⟨.name t, p⟩ :: ⟨.mark m, q⟩ :: ts) (.generic (.named t) es) rest := by
  refine of_call fun _ n calls => ?_
  rw [rank, List.length_cons, List.length_cons] at calls
  have inside : TypeGrammar.arguments n ts = .ok (es, ⟨.mark .closeAngle, r⟩ :: rest) :=
    h ⟨_, _, rfl⟩ n (by rw [rank]; omega)
  exact basic_generic free opening inside

theorem function {fs : List FunctionParam}
    (h : params.Reads ts fs (⟨.mark .closeParen, r⟩ :: rest)) :
    basic.Reads (⟨.name "function".toList, p⟩ :: ⟨.mark .openParen, q⟩ :: ts)
      (FunctionParam.signature fs none) rest := by
  refine of_call fun follow n calls => ?_
  rw [rank, List.length_cons, List.length_cons] at calls
  obtain ⟨n, rfl⟩ : ∃ k, n = k + 1 := Nat.exists_eq_add_one_of_ne_zero (by omega)
  have inside := h ⟨_, _, rfl⟩ n (by rw [rank]; omega) .empty
  exact function_plain inside follow

theorem functionTo {fs : List FunctionParam}
    (hinside : params.Reads ts fs (⟨.mark .closeParen, r⟩ :: ⟨.mark .colon, c⟩ :: mid))
    (shorter : mid.length ≤ ts.length) (greedy : ¬ StartsSuffix rest)
    (hresult : single.Reads mid e rest) :
    basic.Reads (⟨.name "function".toList, p⟩ :: ⟨.mark .openParen, q⟩ :: ts)
      (FunctionParam.signature fs (some e)) rest := by
  refine of_call fun follow n calls => ?_
  rw [rank, List.length_cons, List.length_cons] at calls
  obtain ⟨n, rfl⟩ : ∃ k, n = k + 1 := Nat.exists_eq_add_one_of_ne_zero (by omega)
  have inside := hinside ⟨_, _, rfl⟩ n (by rw [rank]; omega) .empty
  -- The result takes all suffixes, so none is left to the function type.
  have result : TypeGrammar.single n mid = .ok (e, rest) :=
    hresult (follow.resolve_left greedy) n (by rw [rank]; omega)
  exact function_to inside result

theorem argument (h : union.Reads ts e rest) : arguments.Reads ts [e] rest := by
  refine of_call fun follow n calls => ?_
  rw [rank] at calls
  obtain ⟨r, rest, rfl⟩ := follow
  have first : TypeGrammar.union n ts = .ok (e, ⟨.mark .closeAngle, r⟩ :: rest) :=
    h ⟨.closeAngle, by decide, rfl⟩ n (by rw [rank]; omega)
  exact arguments_last first

theorem moreArguments (hfirst : union.Reads ts e (⟨.mark .comma, p⟩ :: mid))
    (shorter : mid.length < ts.length) (hmore : arguments.Reads mid es rest) :
    arguments.Reads ts (e :: es) rest := by
  refine of_call fun follow n calls => ?_
  rw [rank] at calls
  have first : TypeGrammar.union n ts = .ok (e, ⟨.mark .comma, p⟩ :: mid) :=
    hfirst ⟨.comma, by decide, rfl⟩ n (by rw [rank]; omega)
  have more : TypeGrammar.arguments n mid = .ok (es, rest) := hmore follow n (by rw [rank]; omega)
  exact arguments_more first more

theorem noElements : elements.Reads rest [] rest := by
  refine of_call fun follow n _ => ?_
  obtain ⟨r, rest, rfl⟩ := follow
  rfl

theorem element (filled : ∀ p ts', ts = ⟨.mark .closeBracket, p⟩ :: ts' → False)
    (h : union.Reads ts e rest) : elements.Reads ts [e] rest := by
  refine of_call fun follow n calls => ?_
  rw [rank] at calls
  obtain ⟨r, rest, rfl⟩ := follow
  have first : TypeGrammar.union n ts = .ok (e, ⟨.mark .closeBracket, r⟩ :: rest) :=
    h ⟨.closeBracket, by decide, rfl⟩ n (by rw [rank]; omega)
  exact elements_last filled first

theorem moreElements (filled : ∀ p ts', ts = ⟨.mark .closeBracket, p⟩ :: ts' → False)
    (hfirst : union.Reads ts e (⟨.mark .comma, p⟩ :: mid)) (shorter : mid.length < ts.length)
    (hmore : elements.Reads mid es rest) : elements.Reads ts (e :: es) rest := by
  refine of_call fun follow n calls => ?_
  rw [rank] at calls
  have first : TypeGrammar.union n ts = .ok (e, ⟨.mark .comma, p⟩ :: mid) :=
    hfirst ⟨.comma, by decide, rfl⟩ n (by rw [rank]; omega)
  have more : TypeGrammar.elements n mid = .ok (es, rest) := hmore follow n (by rw [rank]; omega)
  exact elements_more filled first more

theorem noFields : fields.Reads rest [] rest := by
  refine of_call fun follow n _ => ?_
  obtain ⟨r, rest, rfl⟩ := follow
  rfl

theorem field {l : Lexeme} {v : Option TypeExpr} (key : l.isKey) (h : fieldValue.Reads ts v rest) :
    fields.Reads (⟨l, p⟩ :: ts) [(keyText l.text, v)] rest := by
  refine of_call fun follow n calls => ?_
  rw [rank, List.length_cons] at calls
  obtain ⟨r, rest, rfl⟩ := follow
  have value : TypeGrammar.fieldValue n ts = .ok (v, ⟨.mark .closeBrace, r⟩ :: rest) :=
    h ⟨.closeBrace, by decide, rfl⟩ n (by rw [rank]; omega)
  exact fields_last key value

theorem moreFields {l : Lexeme} {v : Option TypeExpr} {fs : List (Text × Option TypeExpr)}
    (key : l.isKey) (hvalue : fieldValue.Reads ts v (⟨.mark .comma, c⟩ :: mid))
    (shorter : mid.length < ts.length) (hmore : fields.Reads mid fs rest) :
    fields.Reads (⟨l, p⟩ :: ts) ((keyText l.text, v) :: fs) rest := by
  refine of_call fun follow n calls => ?_
  rw [rank, List.length_cons] at calls
  have value : TypeGrammar.fieldValue n ts = .ok (v, ⟨.mark .comma, c⟩ :: mid) :=
    hvalue ⟨.comma, by decide, rfl⟩ n (by rw [rank]; omega)
  have more : TypeGrammar.fields n mid = .ok (fs, rest) := hmore follow n (by rw [rank]; omega)
  exact fields_more key value more

theorem noValue : fieldValue.Reads rest none rest := of_call fun follow _ _ => fieldValue_none follow

theorem value (h : union.Reads ts e rest) :
    fieldValue.Reads (⟨.mark .colon, p⟩ :: ts) (some e) rest := by
  refine of_call fun follow n calls => ?_
  rw [rank, List.length_cons] at calls
  have type : TypeGrammar.union n ts = .ok (e, rest) :=
    h (follow.mono (by decide)) n (by rw [rank]; omega)
  show TypeGrammar.fieldValue (n + 1) _ = _
  rw [TypeGrammar.fieldValue, type]
  rfl

variable {f : FunctionParam} {fs : List FunctionParam}

theorem noParams : params.Reads rest [] rest := by
  refine of_call fun follow n _ => ?_
  obtain ⟨r, rest, rfl⟩ := follow
  exact fun _ => rfl

theorem lastParam (filled : ∀ p ts', ts = ⟨.mark .closeParen, p⟩ :: ts' → False)
    (h : param.Reads ts f rest) : params.Reads ts [f] rest := by
  refine of_call fun follow n calls acc => ?_
  rw [rank] at calls
  obtain ⟨r, rest, rfl⟩ := follow
  have first : TypeGrammar.param n acc ts = .ok (acc.add f, ⟨.mark .closeParen, r⟩ :: rest) :=
    h ⟨.closeParen, by decide, rfl⟩ n (by rw [rank]; omega) acc
  exact params_last filled first

theorem moreParams (filled : ∀ p ts', ts = ⟨.mark .closeParen, p⟩ :: ts' → False)
    (hfirst : param.Reads ts f (⟨.mark .comma, p⟩ :: mid)) (shorter : mid.length < ts.length)
    (hmore : params.Reads mid fs rest) : params.Reads ts (f :: fs) rest := by
  refine of_call fun follow n calls acc => ?_
  rw [rank] at calls
  have first : TypeGrammar.param n acc ts = .ok (acc.add f, ⟨.mark .comma, p⟩ :: mid) :=
    hfirst ⟨.comma, by decide, rfl⟩ n (by rw [rank]; omega) acc
  have more := hmore follow n (by rw [rank]; omega) (acc.add f)
  exact params_more filled first more

theorem positional (free : EndsBefore [.comma, .closeParen] rest → binder? ts = none)
    (h : union.Reads ts e rest) : param.Reads ts (.positional e) rest := by
  refine of_call fun follow n calls acc => ?_
  rw [rank] at calls
  have type : TypeGrammar.union n ts = .ok (e, rest) :=
    h (follow.mono (by decide)) n (by rw [rank]; omega)
  exact param_positional (free follow) type

theorem bound {t : Text} {b : Binder} (binds : Binder.ofName? t = some b)
    (h : union.Reads ts e rest) :
    param.Reads (⟨.name t, p⟩ :: ⟨.mark .colon, q⟩ :: ts) (.bound b e) rest := by
  refine of_call fun follow n calls acc => ?_
  rw [rank, List.length_cons, List.length_cons] at calls
  have type : TypeGrammar.union n ts = .ok (e, rest) :=
    h (follow.mono (by decide)) n (by rw [rank]; omega)
  exact param_bound binds type

end Symbol.Reads

/-- What is derived is read. -/
theorem Derives.reads {s ts v rest} (h : Derives s ts v rest) : s.Reads ts v rest := by
  have shorter {s : Symbol} {ts mid : List Token} {t : Token} {v : s.Value}
      (h : Derives s ts v (t :: mid)) : mid.length < ts.length := by
    have hle := h.isSuffix.length_le
    rwa [List.length_cons] at hle
  induction h with
  | unknown alone suffixes => exact .unknown alone suffixes
  | nullable followed _ ih => exact .nullable followed ih
  | nonNullable _ ih => exact .nonNullable ih
  | anyRest alone => exact .anyRest alone
  | rest followed _ ih => exact .ellipsis followed ih
  | suffixed _ suffixes ih => exact .suffixed ih suffixes
  | member _ ih => exact .member ih
  | bar hfirst _ first more => exact .bar first (shorter hfirst) more
  | alternatives _ ih => exact .alternatives ih
  | any => exact .any
  | parens _ ih => exact .parens ih
  | record _ ih => exact .record ih
  | tuple _ ih => exact .tuple ih
  | string => exact .string
  | number value => exact .number value
  | name => exact .name
  | generic free opening _ ih => exact .generic free opening ih
  | function _ ih => exact .function ih
  | functionTo hinside hresult inside result =>
    have shorter := hinside.isSuffix.length_le
    rw [List.length_cons, List.length_cons] at shorter
    exact .functionTo inside (by omega) (hresult.greedy rfl) result
  | argument _ ih => exact .argument ih
  | moreArguments hfirst _ first more => exact .moreArguments first (shorter hfirst) more
  | noElements => exact .noElements
  | element hfirst ih =>
    exact .element (fun _ _ hts => absurd (hfirst.starts trivial hts) (by decide)) ih
  | moreElements hfirst _ first more =>
    exact .moreElements (fun _ _ hts => absurd (hfirst.starts trivial hts) (by decide)) first
      (shorter hfirst) more
  | noFields => exact .noFields
  | field key _ ih => exact .field key ih
  | moreFields key hvalue _ value more => exact .moreFields key value (shorter hvalue) more
  | noValue => exact .noValue
  | value _ ih => exact .value ih
  | noParams => exact .noParams
  | lastParam hfirst ih =>
    exact .lastParam (fun _ _ hts => absurd (hfirst.starts trivial hts) (by decide)) ih
  | moreParams hfirst _ first more =>
    exact .moreParams (fun _ _ hts => absurd (hfirst.starts trivial hts) (by decide)) first
      (shorter hfirst) more
  | positional htype ih => exact .positional (fun follow => binder?_eq_none htype follow) ih
  | bound binds _ ih => exact .bound binds ih

/-- What the tokens spell is parsed. -/
theorem ofTokens_of_spells {ts : List Token} {e : TypeExpr} (h : Spells ts e) :
    ofTokens ts = .ok e := by
  have parsed : union (budget ts) ts = .ok (e, []) :=
    Derives.reads h trivial _ (by simp only [Symbol.rank, budget]; omega)
  have nonempty := Derives.length_lt h trivial
  unfold ofTokens
  rw [if_neg (by cases ts <;> simp_all), parsed]
  rfl

end DocFlow.TypeGrammar
