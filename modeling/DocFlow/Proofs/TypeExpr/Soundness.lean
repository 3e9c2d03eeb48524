import DocFlow.Proofs.Outcome
import DocFlow.Proofs.TypeExpr.Derivation

namespace DocFlow.TypeGrammar

theorem unknownFollowers_of_atEnd {ts : List Token} :
    atEnd Mark.endsUnknown ts = true ↔ EndsBefore unknownFollowers ts := by
  rcases ts with _ | ⟨⟨l, p⟩, rest⟩
  · simp [atEnd, EndsBefore]
  · cases l with
    | mark m => cases m <;> simp [atEnd, EndsBefore, unknownFollowers, Mark.endsUnknown]
    | _ => simp [atEnd, EndsBefore]

theorem restFollowers_of_atEnd {ts : List Token} :
    atEnd Mark.endsRest ts = true ↔ EndsBefore restFollowers ts := by
  rcases ts with _ | ⟨⟨l, p⟩, rest⟩
  · simp [atEnd, EndsBefore]
  · cases l with
    | mark m => cases m <;> simp [atEnd, EndsBefore, restFollowers, Mark.endsRest]
    | _ => simp [atEnd, EndsBefore]

/-- A mark is dropped only where it stands. -/
theorem expect_eq_ok {m : Mark} {ts rest : List Token} :
    expect m ts = .ok rest ↔ ∃ p, ts = ⟨.mark m, p⟩ :: rest := by
  rcases ts with _ | ⟨⟨l, p⟩, ts⟩
  · simp [expect]
  · simp only [expect]
    split
    · next h => simp_all
    · next h => simp_all

namespace ParamList

def add (ps : ParamList) : FunctionParam → ParamList
  | .positional t => ps.push t
  | .bound b t => ps.bind b t

theorem foldl_add (acc : ParamList) (fs : List FunctionParam) :
    fs.foldl add acc =
      ⟨acc.params ++ fs.filterMap FunctionParam.positional?,
        (FunctionParam.lastBound .this fs).or acc.this,
        (FunctionParam.lastBound .new fs).or acc.new⟩ := by
  induction fs generalizing acc with
  | nil => simp [FunctionParam.lastBound]
  | cons f fs ih =>
    rw [List.foldl_cons, ih]
    cases f with
    | positional t =>
      simp [add, push, FunctionParam.positional?, FunctionParam.lastBound, FunctionParam.boundBy?]
    | bound b t =>
      cases b <;> simp [add, bind, List.filterMap_cons, FunctionParam.positional?,
        FunctionParam.lastBound, FunctionParam.boundBy?, List.getLast?_cons]

/-- A function type of the parameters read from nothing on. -/
theorem function_foldl_add (fs : List FunctionParam) (result : Option TypeExpr) :
    let ps := fs.foldl add .empty
    TypeExpr.function ps.params result ps.this ps.new = FunctionParam.signature fs result := by
  simp [foldl_add, empty, FunctionParam.signature]

end ParamList

theorem suffixes_sound {e ts e' rest} (h : suffixes e ts = .ok (e', rest)) :
    Suffixes e ts e' rest := by
  fun_induction suffixes e ts with
  | case1 e p q ts ih => exact .array (ih h)
  | case4 e p ts ih => exact .optional (ih h)
  | case5 e p ts ih => exact .nullable (ih h)
  | case6 e p ts ih => exact .nonNullable (ih h)
  | case7 e ts noArray _ _ noEquals noQuestion noBang =>
    -- No mark that binds is left, or one of the other cases would have applied.
    cases h
    refine .done fun starts => ?_
    unfold StartsSuffix at starts
    split at starts
    · exact noArray _ _ _ rfl
    · exact noEquals _ _ rfl
    · exact noQuestion _ _ rfl
    · exact noBang _ _ rfl
    · exact starts
  | _ => cases h

/-- The parser with a bound of `n` nested calls returns what is derived. The induction is on the
bound, over all parsing functions at once. -/
structure Sound (n : Nat) : Prop where
  members {ts es rest} : members n ts = .ok (es, rest) → Derives .members ts es rest
  union {ts e rest} : union n ts = .ok (e, rest) → Derives .union ts e rest
  single {ts e rest} : single n ts = .ok (e, rest) → Derives .single ts e rest
  basic {ts e rest} : basic n ts = .ok (e, rest) → Derives .basic ts e rest
  arguments {ts es rest} : arguments n ts = .ok (es, rest) → Derives .arguments ts es rest
  elements {ts es rest} : elements n ts = .ok (es, rest) → Derives .elements ts es rest
  fields {ts fs rest} : fields n ts = .ok (fs, rest) → Derives .fields ts fs rest
  fieldValue {ts v rest} : fieldValue n ts = .ok (v, rest) → Derives .fieldValue ts v rest
  function {ts e rest} (p q : Nat) : function n ts = .ok (e, rest) →
    Derives .basic (⟨.name "function".toList, p⟩ :: ⟨.mark .openParen, q⟩ :: ts) e rest
  params {acc ts ps rest} : params n acc ts = .ok (ps, rest) →
    ∃ fs, Derives .params ts fs rest ∧ ps = fs.foldl ParamList.add acc
  param {acc ts ps rest} : param n acc ts = .ok (ps, rest) →
    ∃ f, Derives .param ts f rest ∧ ps = acc.add f

namespace Sound

variable {n : Nat}

theorem members_step (ih : Sound n) {ts es rest} (h : TypeGrammar.members (n + 1) ts = .ok (es, rest)) :
    Derives .members ts es rest := by
  rw [TypeGrammar.members] at h
  obtain ⟨⟨e, mid⟩, hfirst, h⟩ := bind_eq_ok.1 h
  have first := ih.single hfirst
  dsimp only at h
  split at h
  · obtain ⟨⟨more, _⟩, hmore, h⟩ := bind_eq_ok.1 h
    cases h
    exact .bar first (ih.members hmore)
  · cases h
    exact .member first

theorem union_step (ih : Sound n) {ts e rest} (h : TypeGrammar.union (n + 1) ts = .ok (e, rest)) :
    Derives .union ts e rest := by
  rw [TypeGrammar.union] at h
  obtain ⟨⟨es, _⟩, hmembers, h⟩ := bind_eq_ok.1 h
  cases h
  exact .alternatives (ih.members hmembers)

theorem single_step (ih : Sound n) {ts e rest} (h : TypeGrammar.single (n + 1) ts = .ok (e, rest)) :
    Derives .single ts e rest := by
  rw [TypeGrammar.single.eq_def] at h
  split at h
  · contradiction
  · next hn =>
    cases hn
    split at h
    · next alone => exact .unknown (unknownFollowers_of_atEnd.1 alone) (suffixes_sound h)
    · next followed =>
      obtain ⟨⟨e, _⟩, hinner, h⟩ := bind_eq_ok.1 h
      cases h
      exact .nullable (mt unknownFollowers_of_atEnd.2 followed) (ih.single hinner)
  · next hn =>
    cases hn
    obtain ⟨⟨e, _⟩, hinner, h⟩ := bind_eq_ok.1 h
    cases h
    exact .nonNullable (ih.single hinner)
  · next hn =>
    cases hn
    split at h
    · next alone =>
      cases h
      exact .anyRest (restFollowers_of_atEnd.1 alone)
    · next followed =>
      obtain ⟨⟨e, _⟩, hinner, h⟩ := bind_eq_ok.1 h
      cases h
      exact .rest (mt restFollowers_of_atEnd.2 followed) (ih.single hinner)
  · next hn _ _ _ =>
    cases hn
    obtain ⟨⟨e, mid⟩, hinner, h⟩ := bind_eq_ok.1 h
    exact .suffixed (ih.basic hinner) (suffixes_sound h)

/-- What is read inside of brackets stops at the closing one. -/
theorem exists_of_closed {α : Type} {inside : Except Fault (α × List Token)} {m : Mark}
    {f : α → TypeExpr} {e rest}
    (h : (do
      let (a, ts) ← inside
      let ts ← expect m ts
      .ok (f a, ts)) = Except.ok (e, rest)) :
    ∃ a q, inside = .ok (a, ⟨.mark m, q⟩ :: rest) ∧ e = f a := by
  obtain ⟨⟨a, ts⟩, hinside, hclosed⟩ := bind_eq_ok.1 h
  obtain ⟨_, hexpect, hrest⟩ := bind_eq_ok.1 hclosed
  obtain ⟨q, rfl⟩ := expect_eq_ok.1 hexpect
  cases hrest
  exact ⟨a, q, hinside, rfl⟩

/-- A name before an opening angle has arguments, unless it is reserved. -/
theorem generic_of_ok (ih : Sound n) {name p m q inner e rest} (opening : m = .openAngle ∨ m = .dotAngle)
    (h : (if isReservedName name then .ok (ofName name, ⟨.mark m, q⟩ :: inner)
      else do
        let (args, ts) ← TypeGrammar.arguments n inner
        let ts ← expect .closeAngle ts
        .ok (.generic (.named name) args, ts)) = Except.ok (e, rest)) :
    Derives .basic (⟨.name name, p⟩ :: ⟨.mark m, q⟩ :: inner) e rest := by
  split at h
  · cases h
    exact .name
  · next free =>
    obtain ⟨args, r, hinside, rfl⟩ := exists_of_closed h
    exact .generic (by simpa using free) opening (ih.arguments hinside)

theorem basic_step (ih : Sound n) {ts e rest} (h : TypeGrammar.basic (n + 1) ts = .ok (e, rest)) :
    Derives .basic ts e rest := by
  rw [TypeGrammar.basic.eq_def] at h
  split at h
  · contradiction
  · contradiction
  · cases h
    exact .any
  · next hn =>
    cases hn
    obtain ⟨es, q, hinside, rfl⟩ := exists_of_closed h
    exact .parens (ih.members hinside)
  · next hn =>
    cases hn
    obtain ⟨fs, q, hinside, rfl⟩ := exists_of_closed h
    exact .record (ih.fields hinside)
  · next hn =>
    cases hn
    obtain ⟨es, q, hinside, rfl⟩ := exists_of_closed h
    exact .tuple (ih.elements hinside)
  · contradiction
  · cases h
    exact .string
  · obtain ⟨e, hvalue, h⟩ := map_eq_ok.1 h
    cases h
    exact .number hvalue
  · next hn =>
    cases hn
    split at h
    · split at h
      · next hname =>
        subst hname
        exact ih.function _ _ h
      · cases h
        exact .name
    · exact generic_of_ok ih (.inl rfl) h
    · exact generic_of_ok ih (.inr rfl) h
    · cases h
      exact .name

theorem arguments_step (ih : Sound n) {ts es rest}
    (h : TypeGrammar.arguments (n + 1) ts = .ok (es, rest)) : Derives .arguments ts es rest := by
  rw [TypeGrammar.arguments] at h
  obtain ⟨⟨e, mid⟩, hfirst, h⟩ := bind_eq_ok.1 h
  have first := ih.union hfirst
  dsimp only at h
  split at h
  · obtain ⟨⟨more, _⟩, hmore, h⟩ := bind_eq_ok.1 h
    cases h
    exact .moreArguments first (ih.arguments hmore)
  · cases h
    exact .argument first

theorem elements_step (ih : Sound n) {ts es rest}
    (h : TypeGrammar.elements (n + 1) ts = .ok (es, rest)) : Derives .elements ts es rest := by
  rw [TypeGrammar.elements.eq_def] at h
  split at h
  · contradiction
  · cases h
    exact .noElements
  · next hn _ =>
    cases hn
    obtain ⟨⟨e, mid⟩, hfirst, h⟩ := bind_eq_ok.1 h
    have first := ih.union hfirst
    dsimp only at h
    split at h
    · obtain ⟨⟨more, _⟩, hmore, h⟩ := bind_eq_ok.1 h
      cases h
      exact .moreElements first (ih.elements hmore)
    · cases h
      exact .element first

theorem fieldValue_step (ih : Sound n) {ts v rest}
    (h : TypeGrammar.fieldValue (n + 1) ts = .ok (v, rest)) : Derives .fieldValue ts v rest := by
  rw [TypeGrammar.fieldValue.eq_def] at h
  split at h
  · contradiction
  · next hn =>
    cases hn
    obtain ⟨⟨e, _⟩, htype, h⟩ := bind_eq_ok.1 h
    cases h
    exact .value (ih.union htype)
  · cases h
    exact .noValue

theorem fields_step (ih : Sound n) {ts fs rest}
    (h : TypeGrammar.fields (n + 1) ts = .ok (fs, rest)) : Derives .fields ts fs rest := by
  rw [TypeGrammar.fields.eq_def] at h
  split at h
  · contradiction
  · contradiction
  · cases h
    exact .noFields
  · contradiction
  · next key ts _ noMark hn =>
    cases hn
    have isKey : key.lexeme.isKey := by
      obtain ⟨l, p⟩ := key
      cases l with
      | mark m => exact (noMark m p rfl).elim
      | _ => trivial
    obtain ⟨⟨v, mid⟩, hvalue, h⟩ := bind_eq_ok.1 h
    have value := ih.fieldValue hvalue
    dsimp only at h
    split at h
    · obtain ⟨⟨more, _⟩, hmore, h⟩ := bind_eq_ok.1 h
      cases h
      exact .moreFields isKey value (ih.fields hmore)
    · cases h
      exact .field isKey value

theorem function_step (ih : Sound n) {ts e rest} (p q : Nat)
    (h : TypeGrammar.function (n + 1) ts = .ok (e, rest)) :
    Derives .basic (⟨.name "function".toList, p⟩ :: ⟨.mark .openParen, q⟩ :: ts) e rest := by
  rw [TypeGrammar.function] at h
  obtain ⟨⟨ps, mid⟩, hinside, h⟩ := bind_eq_ok.1 h
  obtain ⟨fs, inside, rfl⟩ := ih.params hinside
  obtain ⟨_, hclose, htail⟩ := bind_eq_ok.1 h
  obtain ⟨r, rfl⟩ := expect_eq_ok.1 hclose
  split at htail
  · obtain ⟨⟨result, _⟩, hresult, htail⟩ := bind_eq_ok.1 htail
    cases htail
    rw [ParamList.function_foldl_add]
    exact .functionTo inside (ih.single hresult)
  · cases htail
    rw [ParamList.function_foldl_add]
    exact .function inside

theorem param_step (ih : Sound n) {acc ts ps rest}
    (h : TypeGrammar.param (n + 1) acc ts = .ok (ps, rest)) :
    ∃ f, Derives .param ts f rest ∧ ps = acc.add f := by
  rw [TypeGrammar.param] at h
  split at h
  · next b ts' binds =>
    unfold binder? at binds
    split at binds
    · obtain ⟨b', hb, heq⟩ := Option.map_eq_some_iff.1 binds
      cases heq
      obtain ⟨⟨e, _⟩, htype, h⟩ := bind_eq_ok.1 h
      cases h
      exact ⟨.bound b e, .bound hb (ih.union htype), rfl⟩
    · contradiction
  · obtain ⟨⟨e, _⟩, htype, h⟩ := bind_eq_ok.1 h
    cases h
    exact ⟨.positional e, .positional (ih.union htype), rfl⟩

theorem params_step (ih : Sound n) {acc ts ps rest}
    (h : TypeGrammar.params (n + 1) acc ts = .ok (ps, rest)) :
    ∃ fs, Derives .params ts fs rest ∧ ps = fs.foldl ParamList.add acc := by
  rw [TypeGrammar.params.eq_def] at h
  split at h
  · contradiction
  · cases h
    exact ⟨[], .noParams, rfl⟩
  · next hn _ =>
    cases hn
    obtain ⟨⟨ps', mid⟩, hfirst, h⟩ := bind_eq_ok.1 h
    obtain ⟨f, first, rfl⟩ := ih.param hfirst
    dsimp only at h
    split at h
    · obtain ⟨fs, more, rfl⟩ := ih.params h
      exact ⟨f :: fs, .moreParams first more, rfl⟩
    · cases h
      exact ⟨[f], .lastParam first, rfl⟩

end Sound

theorem sound (n : Nat) : Sound n := by
  induction n with
  | zero =>
    constructor <;> intros <;> contradiction
  | succ n ih =>
    exact {
      members := ih.members_step
      union := ih.union_step
      single := ih.single_step
      basic := ih.basic_step
      arguments := ih.arguments_step
      elements := ih.elements_step
      fields := ih.fields_step
      fieldValue := ih.fieldValue_step
      function := ih.function_step
      params := ih.params_step
      param := ih.param_step }

/-- A parsed token list spells the type that it is parsed to. -/
theorem spells_of_ofTokens {ts : List Token} {e : TypeExpr} (h : ofTokens ts = .ok e) :
    Spells ts e := by
  unfold ofTokens at h
  split at h
  · contradiction
  · obtain ⟨⟨e', rest⟩, hunion, h⟩ := bind_eq_ok.1 h
    dsimp only at h
    split at h
    · cases h
      exact (sound _).union hunion
    · contradiction

end DocFlow.TypeGrammar
