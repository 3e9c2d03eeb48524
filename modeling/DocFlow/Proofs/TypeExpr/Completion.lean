import DocFlow.Proofs.TypeExpr.Lookahead

namespace DocFlow.TypeGrammar

variable {α β : Type} {n : Nat}

def Token.ofMark (m : Mark) : Token := ⟨.mark m, 0⟩

def Symbol.Takes (s : Symbol) (ts rest : List Token) : Prop := ∃ v, Derives s ts v rest

/-- The rests that may follow a symbol and bind nothing to it. -/
def Symbol.Closes : Symbol → List Token → Prop
  | .basic, rest => Symbol.single.Follow rest
  | s, rest => s.Follow rest

/-- Some marks make a symbol of a front, whatever may follow. -/
def Completable (s : Symbol) (front : List Token) : Prop :=
  ∃ ms : List Mark, ∀ rest, s.Closes rest → s.Takes (front ++ (ms.map Token.ofMark ++ rest)) rest

def Reaches (s : Symbol) (ts rest : List Token) : Prop :=
  ∃ front, ts = front ++ rest ∧ Completable s front

/-- What stands up to a token is the same symbol before any other tokens behind this one. -/
def TakesUpTo (s : Symbol) (ts : List Token) (t : Token) (more : List Token) : Prop :=
  ∃ taken, ts = taken ++ more ∧ ∀ more', s.Takes (taken ++ more') (t :: more')

theorem Agrees.takesUpTo {s : Symbol} {rank : Nat}
    {read : Nat → List Token → Except Fault (α × List Token)} (agrees : Agrees rank read n)
    (ends : ∀ ts, left (read n ts) <:+ ts)
    (sound : ∀ n {ts a rest}, read n ts = .ok (a, rest) → s.Takes ts rest)
    {ts more : List Token} {a : α} {t : Token} (h : read n ts = .ok (a, t :: more))
    (calls : 6 * ts.length + rank ≤ n) : TakesUpTo s ts t more := by
  have hend := ends ts
  rw [h] at hend
  obtain ⟨front, hfront⟩ := hend
  dsimp only [left] at hfront
  subst hfront
  refine ⟨front ++ [t], by simp, fun more' => ?_⟩
  have halike := agrees _ (.of_append front t more more') calls Nat.le.refl
  rw [h] at halike
  rw [List.append_assoc, List.singleton_append]
  exact sound _ halike.of_ok

theorem single_takesUpTo {ts more : List Token} {e : TypeExpr} {t : Token}
    (h : single n ts = .ok (e, t :: more)) (calls : 6 * ts.length + 2 ≤ n) :
    TakesUpTo .single ts t more :=
  (twoRuns n).single.takesUpTo (leavesEnd n).single (fun n _ e _ h => ⟨e, (sound n).single h⟩) h calls

theorem basic_takesUpTo {ts more : List Token} {e : TypeExpr} {t : Token}
    (h : basic n ts = .ok (e, t :: more)) (calls : 6 * ts.length + 1 ≤ n) :
    TakesUpTo .basic ts t more :=
  (twoRuns n).basic.takesUpTo (leavesEnd n).basic (fun n _ e _ h => ⟨e, (sound n).basic h⟩) h calls

theorem members_takesUpTo {ts more : List Token} {es : List TypeExpr} {t : Token}
    (h : members n ts = .ok (es, t :: more)) (calls : 6 * ts.length + 3 ≤ n) :
    TakesUpTo .members ts t more :=
  (twoRuns n).members.takesUpTo (leavesEnd n).members (fun n _ e _ h => ⟨e, (sound n).members h⟩) h
    calls

theorem union_takesUpTo {ts more : List Token} {e : TypeExpr} {t : Token}
    (h : union n ts = .ok (e, t :: more)) (calls : 6 * ts.length + 4 ≤ n) :
    TakesUpTo .union ts t more :=
  (twoRuns n).union.takesUpTo (leavesEnd n).union (fun n _ e _ h => ⟨e, (sound n).union h⟩) h calls

theorem arguments_takesUpTo {ts more : List Token} {es : List TypeExpr} {t : Token}
    (h : arguments n ts = .ok (es, t :: more)) (calls : 6 * ts.length + 5 ≤ n) :
    TakesUpTo .arguments ts t more :=
  (twoRuns n).arguments.takesUpTo (leavesEnd n).arguments
    (fun n _ e _ h => ⟨e, (sound n).arguments h⟩) h calls

theorem elements_takesUpTo {ts more : List Token} {es : List TypeExpr} {t : Token}
    (h : elements n ts = .ok (es, t :: more)) (calls : 6 * ts.length + 5 ≤ n) :
    TakesUpTo .elements ts t more :=
  (twoRuns n).elements.takesUpTo (leavesEnd n).elements
    (fun n _ e _ h => ⟨e, (sound n).elements h⟩) h calls

theorem fields_takesUpTo {ts more : List Token} {fs : List (Text × Option TypeExpr)} {t : Token}
    (h : fields n ts = .ok (fs, t :: more)) (calls : 6 * ts.length + 1 ≤ n) :
    TakesUpTo .fields ts t more :=
  (twoRuns n).fields.takesUpTo (leavesEnd n).fields (fun n _ e _ h => ⟨e, (sound n).fields h⟩) h
    calls

theorem fieldValue_takesUpTo {ts more : List Token} {v : Option TypeExpr} {t : Token}
    (h : fieldValue n ts = .ok (v, t :: more)) (calls : 6 * ts.length + 5 ≤ n) :
    TakesUpTo .fieldValue ts t more :=
  (twoRuns n).fieldValue.takesUpTo (leavesEnd n).fieldValue
    (fun n _ e _ h => ⟨e, (sound n).fieldValue h⟩) h calls

theorem param_takesUpTo {acc ps : ParamList} {ts more : List Token} {t : Token}
    (h : param n acc ts = .ok (ps, t :: more)) (calls : 6 * ts.length + 5 ≤ n) :
    TakesUpTo .param ts t more :=
  ((twoRuns n).param acc).takesUpTo ((leavesEnd n).param acc)
    (fun n _ _ _ h => ((sound n).param h).imp fun _ => And.left) h calls

theorem params_takesUpTo {acc ps : ParamList} {ts more : List Token} {t : Token}
    (h : params n acc ts = .ok (ps, t :: more)) (calls : 6 * ts.length + 6 ≤ n) :
    TakesUpTo .params ts t more :=
  ((twoRuns n).params acc).takesUpTo ((leavesEnd n).params acc)
    (fun n _ _ _ h => ((sound n).params h).imp fun _ => And.left) h calls

theorem not_startsSuffix_of_follow {rest : List Token} (h : Symbol.single.Follow rest) :
    ¬ StartsSuffix rest := by
  cases rest with
  | nil => exact id
  | cons t rest =>
    obtain ⟨l, p⟩ := t
    obtain ⟨m, hm, rfl⟩ := h
    simp only [unionFollowers, List.mem_cons, List.not_mem_nil, or_false] at hm
    rcases hm with rfl | rfl | rfl | rfl | rfl | rfl <;> exact id

namespace Completable

variable {front : List Token}

theorem imp {s s' : Symbol}
    (derives : ∀ {ts rest}, s'.Closes rest → s.Takes ts rest → s'.Takes ts rest)
    (closes : ∀ {rest}, s'.Closes rest → s.Closes rest) (h : Completable s front) :
    Completable s' front := by
  obtain ⟨ms, hms⟩ := h
  exact ⟨ms, fun rest follow => derives follow (hms rest (closes follow))⟩

/-- A front of what stands behind other tokens. -/
theorem behind {s s' : Symbol} {taken : List Token}
    (derives : ∀ {ts rest}, s'.Closes rest → s.Takes ts rest → s'.Takes (taken ++ ts) rest)
    (closes : ∀ {rest}, s'.Closes rest → s.Closes rest) (h : Completable s front) :
    Completable s' (taken ++ front) := by
  obtain ⟨ms, hms⟩ := h
  refine ⟨ms, fun rest follow => ?_⟩
  rw [List.append_assoc]
  exact derives follow (hms rest (closes follow))

theorem of_basic (h : Completable .basic front) : Completable .single front := by
  refine imp ?_ ?_ h
  · rintro ts rest follow ⟨e, inner⟩
    exact ⟨e, .suffixed inner (.done (not_startsSuffix_of_follow follow))⟩
  · exact id

theorem of_single (h : Completable .single front) : Completable .members front := by
  refine imp ?_ ?_ h
  · rintro ts rest - ⟨e, first⟩
    exact ⟨[e], .member first⟩
  · exact fun follow => EndsBefore.mono follow (List.subset_cons_self ..)

theorem of_members (h : Completable .members front) : Completable .union front := by
  refine imp ?_ ?_ h
  · rintro ts rest - ⟨es, members⟩
    exact ⟨ofMembers es, .alternatives members⟩
  · exact id

theorem nil_basic : Completable .basic [] := ⟨[.star], fun _ _ => ⟨.any, .any⟩⟩

/-- A front of what stands in brackets. -/
theorem enclosed {s : Symbol} {m : Mark} {opening : List Token}
    (closes : ∀ p rest, s.Closes (⟨.mark m, p⟩ :: rest))
    (derives : ∀ {ts p rest}, s.Takes ts (⟨.mark m, p⟩ :: rest) →
      Symbol.basic.Takes (opening ++ ts) rest)
    (h : Completable s front) : Completable .basic (opening ++ front) := by
  obtain ⟨ms, hms⟩ := h
  refine ⟨ms ++ [m], fun rest _ => ?_⟩
  have hall := derives (hms (Token.ofMark m :: rest) (closes 0 rest))
  simpa using hall

end Completable

theorem left_of_expect_error {m : Mark} {ts : List Token} {f : Fault}
    (h : expect m ts = .error f) : left (.error f : Except Fault (α × List Token)) = ts := by
  rcases ts with _ | ⟨t, ts⟩
  · cases h
    rfl
  · rw [expect] at h
    split at h
    · cases h
    · cases h
      rfl

namespace Reaches

variable {s s' : Symbol} {ts rest : List Token}

theorem imp (h : Reaches s ts rest) (lift : ∀ {front}, Completable s front → Completable s' front) :
    Reaches s' ts rest := by
  obtain ⟨front, rfl, hfront⟩ := h
  exact ⟨front, rfl, lift hfront⟩

theorem behind (taken : List Token) (h : Reaches s ts rest)
    (lift : ∀ {front}, Completable s front → Completable s' (taken ++ front)) :
    Reaches s' (taken ++ ts) rest := by
  obtain ⟨front, rfl, hfront⟩ := h
  exact ⟨taken ++ front, (List.append_assoc ..).symm, lift hfront⟩

/-- A front of what is separated ends in the first part, or else in those behind the separator. -/
theorem separated {sep : Mark} {first : Except Fault (α × List Token)}
    {more : List Token → Except Fault (List α × List Token)} (hfirst : Reaches s ts (left first))
    (hmore : ∀ {a p mid}, first = .ok (a, ⟨.mark sep, p⟩ :: mid) → Reaches s ts (left (more mid))) :
    Reaches s ts (left (separated sep first more)) := by
  rw [TypeGrammar.separated]
  rcases first with f | ⟨a, mid⟩
  · cases f <;> exact hfirst
  · change Reaches s ts (left (if starts sep mid then mapValue (a :: ·) (more mid.tail)
      else .ok ([a], mid)))
    split
    · next hsep =>
      obtain ⟨p, mid, rfl⟩ := exists_of_starts hsep
      rw [left_mapValue]
      exact hmore rfl
    · exact hfirst

/-- A front of what stands in brackets ends inside of them, or else behind them. -/
theorem enclosed {m : Mark} (opening : List Token) {f : α → β}
    {inside : Except Fault (α × List Token)} (hinside : Reaches s ts (left inside))
    (closes : ∀ p rest, s.Closes (⟨.mark m, p⟩ :: rest))
    (derives : ∀ {ts p rest}, s.Takes ts (⟨.mark m, p⟩ :: rest) →
      Symbol.basic.Takes (opening ++ ts) rest)
    (takes : ∀ {a p mid}, inside = .ok (a, ⟨.mark m, p⟩ :: mid) →
      TakesUpTo s ts ⟨.mark m, p⟩ mid) :
    Reaches .basic (opening ++ ts) (left (enclosed m f inside)) := by
  have hopen := hinside.behind opening (Completable.enclosed closes derives)
  rw [TypeGrammar.enclosed]
  rcases inside with fault | ⟨a, mid⟩
  · cases fault <;> exact hopen
  · change Reaches .basic (opening ++ ts) (left (expect m mid >>= fun rest => .ok (f a, rest)))
    cases hexpect : expect m mid with
    | ok rest =>
      -- Both brackets are there, so the front needs no marks.
      obtain ⟨p, rfl⟩ := expect_eq_ok.1 hexpect
      obtain ⟨taken, rfl, htaken⟩ := takes rfl
      refine ⟨opening ++ taken, (List.append_assoc ..).symm, [], fun more _ => ?_⟩
      rw [List.append_assoc]
      exact derives (htaken more)
    | error fault =>
      have hleft : left (.error fault : Except Fault (β × List Token)) = mid :=
        left_of_expect_error hexpect
      change Reaches .basic (opening ++ ts) (left (.error fault : Except Fault (β × List Token)))
      rw [hleft]
      exact hopen

end Reaches

theorem not_hasLong_of_append {taken rest : List Token} (h : ¬ HasLong (taken ++ rest)) :
    ¬ HasLong rest :=
  fun hlong => h (hlong.of_suffix (List.suffix_append ..))

theorem not_hasLong_of_cons {t : Token} {rest : List Token} (h : ¬ HasLong (t :: rest)) :
    ¬ HasLong rest :=
  fun hlong => h hlong.of_cons

namespace TakesUpTo

variable {s s' : Symbol} {ts mid rest : List Token} {t : Token}

theorem not_hasLong (h : TakesUpTo s ts t mid) (short : ¬ HasLong ts) : ¬ HasLong mid := by
  obtain ⟨taken, rfl, -⟩ := h
  exact not_hasLong_of_append short

/-- What is reached behind a symbol is reached from before it, too. -/
theorem reaches (front : List Token) (h : TakesUpTo s ts t mid) (hmid : Reaches s' mid rest)
    (join : ∀ {us more rest}, s.Takes us (t :: more) → s'.Takes more rest →
      s'.Takes (front ++ us) rest) : Reaches s' (front ++ ts) rest := by
  obtain ⟨taken, rfl, htaken⟩ := h
  rw [← List.append_assoc]
  refine hmid.behind (front ++ taken) (.behind ?_ id)
  intro us rest _ more
  rw [List.append_assoc]
  exact join (htaken us) more

end TakesUpTo

/-- Suffixes end at the first token that is none, or inside of an array's brackets. -/
theorem exists_suffixes (e : TypeExpr) (ts : List Token) :
    ∃ front ms e', ts = front ++ left (suffixes e ts) ∧ (front = [] → ms = []) ∧
      ∀ rest, ¬ StartsSuffix rest →
        Suffixes e (front ++ (ms.map Token.ofMark ++ rest)) e' rest := by
  have hcons {t : Token} {front : List Token} {ms : List Mark} (h : t :: front = []) : ms = [] :=
    absurd h (List.cons_ne_nil t front)
  fun_induction suffixes e ts with
  | case1 e p q ts ih =>
    obtain ⟨front, ms, e', hts, -, hms⟩ := ih
    exact ⟨⟨.mark .openBracket, p⟩ :: ⟨.mark .closeBracket, q⟩ :: front, ms, e',
      congrArg (_ :: _ :: ·) hts, hcons, fun rest h => .array (hms rest h)⟩
  | case2 e p =>
    exact ⟨[⟨.mark .openBracket, p⟩], [.closeBracket], array e, rfl, hcons,
      fun rest h => .array (.done h)⟩
  | case3 e p t ts =>
    exact ⟨[⟨.mark .openBracket, p⟩], [.closeBracket], array e, rfl, hcons,
      fun rest h => .array (.done h)⟩
  | case4 e p ts ih =>
    obtain ⟨front, ms, e', hts, -, hms⟩ := ih
    exact ⟨⟨.mark .equals, p⟩ :: front, ms, e', congrArg (_ :: ·) hts, hcons,
      fun rest h => .optional (hms rest h)⟩
  | case5 e p ts ih =>
    obtain ⟨front, ms, e', hts, -, hms⟩ := ih
    exact ⟨⟨.mark .question, p⟩ :: front, ms, e', congrArg (_ :: ·) hts, hcons,
      fun rest h => .nullable (hms rest h)⟩
  | case6 e p ts ih =>
    obtain ⟨front, ms, e', hts, -, hms⟩ := ih
    exact ⟨⟨.mark .bang, p⟩ :: front, ms, e', congrArg (_ :: ·) hts, hcons,
      fun rest h => .nonNullable (hms rest h)⟩
  | case7 e ts => exact ⟨[], [], e, rfl, fun _ => rfl, fun rest h => .done h⟩

/-- The same marks may stand behind any type. -/
theorem Suffixes.exists_of {e ts e' rest} (h : Suffixes e ts e' rest) (e₁ : TypeExpr) :
    ∃ e₂, Suffixes e₁ ts e₂ rest := by
  induction h generalizing e₁ with
  | done greedy => exact ⟨e₁, .done greedy⟩
  | array _ ih => exact (ih (TypeGrammar.array e₁)).imp fun _ => .array
  | optional _ ih => exact (ih (.optional e₁)).imp fun _ => .optional
  | nullable _ ih => exact (ih (.nullable e₁ .after)).imp fun _ => .nullable
  | nonNullable _ ih => exact (ih (.nonNullable e₁)).imp fun _ => .nonNullable

def StopsBehind (s : Symbol) (rank : Nat) (read : Nat → List Token → Except Fault (α × List Token))
    (n : Nat) : Prop :=
  ∀ {ts}, ¬ HasLong ts → 6 * ts.length + rank ≤ n → Reaches s ts (left (read n ts))

structure StopsBehindFronts (n : Nat) : Prop where
  basic : StopsBehind .basic 1 basic n
  fields : StopsBehind .fields 1 fields n
  single : StopsBehind .single 2 single n
  members : StopsBehind .members 3 members n
  union : StopsBehind .union 4 union n
  arguments : StopsBehind .arguments 5 arguments n
  elements : StopsBehind .elements 5 elements n
  fieldValue : StopsBehind .fieldValue 5 fieldValue n
  param (acc) : StopsBehind .param 5 (TypeGrammar.param · acc) n
  params (acc) : StopsBehind .params 6 (TypeGrammar.params · acc) n
  function (p q) {ts} : ¬ HasLong ts → 6 * ts.length + 7 ≤ n →
    Reaches .basic (⟨.name "function".toList, p⟩ :: ⟨.mark .openParen, q⟩ :: ts)
      (left (function n ts))

/-- A front of a type behind a mark that would stand alone before some other marks. -/
theorem completable_marked {m : Mark} {p : Nat} {front rest : List Token} {stop : Mark → Bool}
    (build : TypeExpr → TypeExpr)
    (derives : ∀ {ts e rest}, ¬ atEnd stop ts = true → Derives .single ts e rest →
      Derives .single (⟨.mark m, p⟩ :: ts) (build e) rest)
    (followed : ¬ atEnd stop (front ++ rest) = true) (hstar : stop .star = false)
    (h : Completable .single front) : Completable .single (⟨.mark m, p⟩ :: front) := by
  cases front with
  | nil =>
    -- No token of the type is there yet, and the mark might be left alone. A star prevents it.
    refine ⟨[.star], fun rest follow => ⟨build .any, derives (by simp [atEnd, hstar, Token.ofMark]) ?_⟩⟩
    exact .suffixed .any (.done (not_startsSuffix_of_follow follow))
  | cons x front =>
    obtain ⟨ms, hms⟩ := h
    refine ⟨ms, fun more follow => ?_⟩
    obtain ⟨e, inner⟩ := hms more follow
    refine ⟨build e, derives ?_ inner⟩
    intro alone
    refine followed ?_
    rw [← alone]
    obtain ⟨l, q⟩ := x
    cases l <;> rfl

namespace StopsBehindFronts

theorem members_step (ih : StopsBehindFronts n) :
    StopsBehind .members 3 TypeGrammar.members (n + 1) := by
  intro ts short calls
  rw [members_succ]
  refine .separated ((ih.single short (by omega)).imp .of_single) fun h => ?_
  have shorter := ((sound n).single h).length_lt trivial
  rw [List.length_cons] at shorter
  have htaken := single_takesUpTo h (by omega)
  refine htaken.reaches [] (ih.members (htaken.not_hasLong short) (by omega)) ?_
  rintro us more rest ⟨e, first⟩ ⟨es, others⟩
  exact ⟨e :: es, .bar first others⟩

theorem union_step (ih : StopsBehindFronts n) : StopsBehind .union 4 TypeGrammar.union (n + 1) := by
  intro ts short calls
  rw [union_succ, left_mapValue]
  exact (ih.members short (by omega)).imp .of_members

theorem question (ih : StopsBehindFronts n) (p : Nat) {ts : List Token} (short : ¬ HasLong ts)
    (calls : 6 * ts.length + 2 ≤ n) :
    Reaches .single (⟨.mark .question, p⟩ :: ts)
      (left (if atEnd Mark.endsUnknown ts then suffixes .unknown ts
        else mapValue (.nullable · .before) (TypeGrammar.single n ts))) := by
  by_cases alone : atEnd Mark.endsUnknown ts = true
  · rw [if_pos alone]
    obtain ⟨front, ms, e, hts, hnone, hms⟩ := exists_suffixes .unknown ts
    refine ⟨⟨.mark .question, p⟩ :: front, congrArg (_ :: ·) hts, ms, fun rest follow => ?_⟩
    refine ⟨e, .unknown ?_ (hms rest (not_startsSuffix_of_follow follow))⟩
    -- Without a suffix, what closes the type leaves the question mark alone as well.
    cases front with
    | nil =>
      rw [hnone rfl]
      exact EndsBefore.mono follow (by decide)
    | cons x front =>
      rw [hts] at alone
      have ends := unknownFollowers_of_atEnd.1 alone
      exact ends
  · rw [if_neg alone, left_mapValue]
    obtain ⟨front, hts, hfront⟩ := ih.single short calls
    rw [hts] at alone
    exact ⟨_ :: front, congrArg (_ :: ·) hts, completable_marked (.nullable · .before)
      (fun h inner => .nullable (mt unknownFollowers_of_atEnd.2 h) inner) alone rfl hfront⟩

theorem ellipsis (ih : StopsBehindFronts n) (p : Nat) {ts : List Token} (short : ¬ HasLong ts)
    (calls : 6 * ts.length + 2 ≤ n) :
    Reaches .single (⟨.mark .ellipsis, p⟩ :: ts)
      (left (if atEnd Mark.endsRest ts then .ok (TypeExpr.rest none, ts)
        else mapValue (TypeExpr.rest ∘ some) (TypeGrammar.single n ts))) := by
  have marked {front rest} (followed : ¬ atEnd Mark.endsRest (front ++ rest) = true)
      (h : Completable .single front) : Completable .single (⟨.mark .ellipsis, p⟩ :: front) :=
    completable_marked (fun e => .rest (some e))
      (fun h inner => .rest (mt restFollowers_of_atEnd.2 h) inner) followed rfl h
  by_cases alone : atEnd Mark.endsRest ts = true
  · -- A closing angle does not leave an ellipsis alone, so a type is put behind it.
    have hstar : ¬ atEnd Mark.endsRest ([] ++ [Token.ofMark .star]) = true := Bool.false_ne_true
    rw [if_pos alone]
    exact ⟨[_], rfl, marked hstar Completable.nil_basic.of_basic⟩
  · rw [if_neg alone, left_mapValue]
    obtain ⟨front, hts, hfront⟩ := ih.single short calls
    rw [hts] at alone
    exact ⟨_ :: front, congrArg (_ :: ·) hts, marked alone hfront⟩

theorem suffixed (ih : StopsBehindFronts n) {ts : List Token} (short : ¬ HasLong ts)
    (calls : 6 * ts.length + 1 ≤ n) :
    Reaches .single ts (left (TypeGrammar.basic n ts >>= fun r => suffixes r.1 r.2)) := by
  have hbasic := ih.basic short calls
  cases hread : TypeGrammar.basic n ts with
  | error f =>
    rw [hread] at hbasic
    cases f <;> exact hbasic.imp .of_basic
  | ok r =>
    obtain ⟨e, mid⟩ := r
    rw [hread] at hbasic
    obtain ⟨front, ms, e', hmid, -, hms⟩ := exists_suffixes e mid
    change Reaches .single ts (left (suffixes e mid))
    cases front with
    | nil =>
      rw [List.nil_append] at hmid
      rw [← hmid]
      exact hbasic.imp .of_basic
    | cons x front =>
      -- The basic type ends before the suffixes, so it stays one whatever marks stand behind them.
      generalize left (suffixes e mid) = rest at hmid ⊢
      subst hmid
      obtain ⟨taken, rfl, htaken⟩ := basic_takesUpTo hread calls
      refine ⟨taken ++ front, (List.append_assoc ..).symm, ms, fun more follow => ?_⟩
      obtain ⟨e₁, inner⟩ := htaken (front ++ (ms.map Token.ofMark ++ more))
      obtain ⟨e₂, marks⟩ := (hms more (not_startsSuffix_of_follow follow)).exists_of e₁
      rw [List.append_assoc]
      exact ⟨e₂, .suffixed inner marks⟩

theorem single_step (ih : StopsBehindFronts n) :
    StopsBehind .single 2 TypeGrammar.single (n + 1) := by
  intro ts short calls
  rw [single_succ]
  split
  · next hquestion =>
    obtain ⟨p, ts, rfl⟩ := exists_of_starts hquestion
    rw [List.length_cons] at calls
    exact ih.question p (not_hasLong_of_cons short) (by omega)
  · split
    · next hbang =>
      obtain ⟨p, ts, rfl⟩ := exists_of_starts hbang
      rw [List.length_cons] at calls
      rw [left_mapValue]
      have hinner := ih.single (not_hasLong_of_cons short) (by omega)
      refine hinner.behind [_] (.behind ?_ id)
      rintro ts rest - ⟨e, inner⟩
      exact ⟨.nonNullable e, .nonNullable inner⟩
    · split
      · next hellipsis =>
        obtain ⟨p, ts, rfl⟩ := exists_of_starts hellipsis
        rw [List.length_cons] at calls
        exact ih.ellipsis p (not_hasLong_of_cons short) (by omega)
      · exact ih.suffixed short (by omega)

theorem arguments_step (ih : StopsBehindFronts n) :
    StopsBehind .arguments 5 TypeGrammar.arguments (n + 1) := by
  intro ts short calls
  rw [arguments_succ]
  refine .separated ((ih.union short (by omega)).imp (.imp ?_ ?_)) fun h => ?_
  · rintro ts rest - ⟨e, first⟩
    exact ⟨[e], .argument first⟩
  · rintro _ ⟨p, rest, rfl⟩
    exact ⟨.closeAngle, by decide, rfl⟩
  · have shorter := ((sound n).union h).length_lt trivial
    rw [List.length_cons] at shorter
    have htaken := union_takesUpTo h (by omega)
    refine htaken.reaches [] (ih.arguments (htaken.not_hasLong short) (by omega)) ?_
    rintro us more rest ⟨e, first⟩ ⟨es, others⟩
    exact ⟨e :: es, .moreArguments first others⟩

theorem elements_step (ih : StopsBehindFronts n) :
    StopsBehind .elements 5 TypeGrammar.elements (n + 1) := by
  intro ts short calls
  rw [elements_succ]
  split
  · exact ⟨[], rfl, [], fun _ _ => ⟨[], .noElements⟩⟩
  · refine .separated ((ih.union short (by omega)).imp (.imp ?_ ?_)) fun h => ?_
    · rintro ts rest - ⟨e, first⟩
      exact ⟨[e], .element first⟩
    · rintro _ ⟨p, rest, rfl⟩
      exact ⟨.closeBracket, by decide, rfl⟩
    · have shorter := ((sound n).union h).length_lt trivial
      rw [List.length_cons] at shorter
      have htaken := union_takesUpTo h (by omega)
      refine htaken.reaches [] (ih.elements (htaken.not_hasLong short) (by omega)) ?_
      rintro us more rest ⟨e, first⟩ ⟨es, others⟩
      exact ⟨e :: es, .moreElements first others⟩

theorem fieldValue_step (ih : StopsBehindFronts n) :
    StopsBehind .fieldValue 5 TypeGrammar.fieldValue (n + 1) := by
  intro ts short calls
  rw [fieldValue_succ]
  split
  · next hcolon =>
    obtain ⟨p, ts, rfl⟩ := exists_of_starts hcolon
    rw [List.length_cons] at calls
    rw [left_mapValue]
    have htype := ih.union (not_hasLong_of_cons short) (by omega)
    refine htype.behind [_] (.behind ?_ fun follow => follow.mono (by decide))
    rintro ts rest - ⟨e, type⟩
    exact ⟨some e, .value type⟩
  · exact ⟨[], rfl, [], fun _ _ => ⟨none, .noValue⟩⟩

theorem fields_step (ih : StopsBehindFronts n) : StopsBehind .fields 1 TypeGrammar.fields (n + 1) := by
  intro ts short calls
  have hnone : Completable .fields [] := ⟨[], fun _ _ => ⟨[], .noFields⟩⟩
  rcases ts with _ | ⟨⟨l, p⟩, ts⟩
  · exact ⟨[], rfl, hnone⟩
  rw [List.length_cons] at calls
  have hshort := not_hasLong_of_cons short
  rcases l.mark_or_key with ⟨m, rfl⟩ | isKey
  · rw [fields_mark]
    split <;> exact ⟨[], rfl, hnone⟩
  · rw [fields_key n isKey]
    have hvalue := ih.fieldValue hshort (by omega)
    rw [← left_mapValue (keyText l.text, ·)] at hvalue
    refine .separated (hvalue.behind [_] (.behind ?_ ?_)) fun h => ?_
    · rintro ts rest - ⟨v, value⟩
      exact ⟨[(keyText l.text, v)], .field isKey value⟩
    · rintro _ ⟨p, rest, rfl⟩
      exact ⟨.closeBrace, by decide, rfl⟩
    · obtain ⟨⟨v, mid'⟩, hread, heq⟩ := bind_eq_ok.1 h
      cases heq
      have shorter := ((sound n).fieldValue hread).isSuffix.length_le
      rw [List.length_cons] at shorter
      have htaken := fieldValue_takesUpTo hread (by omega)
      refine htaken.reaches [_] (ih.fields (htaken.not_hasLong hshort) (by omega)) ?_
      rintro us more rest ⟨v, value⟩ ⟨fs, others⟩
      exact ⟨(keyText l.text, v) :: fs, .moreFields isKey value others⟩

theorem param_step (ih : StopsBehindFronts n) (acc : ParamList) :
    StopsBehind .param 5 (TypeGrammar.param · acc) (n + 1) := by
  intro ts short calls
  dsimp only
  cases hbinder : binder? ts with
  | none =>
    rw [param_free n acc hbinder, left_mapValue]
    refine (ih.union short (by omega)).imp
      (.imp ?_ fun follow => follow.mono (by decide))
    rintro ts rest - ⟨e, type⟩
    exact ⟨.positional e, .positional type⟩
  | some bound =>
    obtain ⟨b, rest⟩ := bound
    rw [param_binds n acc hbinder, left_mapValue]
    unfold binder? at hbinder
    split at hbinder
    · obtain ⟨b', hb, heq⟩ := Option.map_eq_some_iff.1 hbinder
      cases heq
      simp only [List.length_cons] at calls
      have htype := ih.union (not_hasLong_of_cons (not_hasLong_of_cons short)) (by omega)
      refine htype.behind [_, _] (.behind ?_ fun follow => follow.mono (by decide))
      rintro ts rest - ⟨e, type⟩
      exact ⟨.bound b e, .bound hb type⟩
    · cases hbinder

theorem params_step (ih : StopsBehindFronts n) (acc : ParamList) :
    StopsBehind .params 6 (TypeGrammar.params · acc) (n + 1) := by
  intro ts short calls
  dsimp only
  rw [params_succ]
  split
  · exact ⟨[], rfl, [], fun _ _ => ⟨[], .noParams⟩⟩
  · have hparam := ih.param acc short (by omega)
    have hlast : Reaches .params ts (left (TypeGrammar.param n acc ts)) := by
      refine hparam.imp (.imp ?_ ?_)
      · rintro ts rest - ⟨f, first⟩
        exact ⟨[f], .lastParam first⟩
      · rintro _ ⟨p, rest, rfl⟩
        exact ⟨.closeParen, by decide, rfl⟩
    cases hread : TypeGrammar.param n acc ts with
    | error f =>
      rw [hread] at hlast
      cases f <;> exact hlast
    | ok r =>
      obtain ⟨ps, mid⟩ := r
      rw [hread] at hlast
      change Reaches .params ts
        (left (if starts .comma mid then TypeGrammar.params n ps mid.tail else .ok (ps, mid)))
      by_cases hcomma : starts .comma mid = true
      · rw [if_pos hcomma]
        obtain ⟨p, mid, rfl⟩ := exists_of_starts hcomma
        obtain ⟨f, first, -⟩ := (sound n).param hread
        have shorter := first.isSuffix.length_le
        rw [List.length_cons] at shorter
        have htaken := param_takesUpTo hread (by omega)
        refine htaken.reaches [] (ih.params ps (htaken.not_hasLong short) (by omega)) ?_
        rintro us more rest ⟨f, first⟩ ⟨fs, others⟩
        exact ⟨f :: fs, .moreParams first others⟩
      · rw [if_neg hcomma]
        exact hlast

theorem function_step (ih : StopsBehindFronts n) (p q : Nat) {ts : List Token}
    (short : ¬ HasLong ts) (calls : 6 * ts.length + 7 ≤ n + 1) :
    Reaches .basic (⟨.name "function".toList, p⟩ :: ⟨.mark .openParen, q⟩ :: ts)
      (left (TypeGrammar.function (n + 1) ts)) := by
  have hinside : Reaches .basic (⟨.name "function".toList, p⟩ :: ⟨.mark .openParen, q⟩ :: ts)
      (left (TypeGrammar.enclosed .closeParen id (TypeGrammar.params n .empty ts))) := by
    refine .enclosed [_, _] (ih.params .empty short (by omega)) ?_ ?_ fun h => ?_
    · exact fun r rest => ⟨r, rest, rfl⟩
    · rintro ts r rest ⟨ps, inside⟩
      exact ⟨FunctionParam.signature ps none, .function inside⟩
    · exact params_takesUpTo h (by omega)
  rw [function_succ]
  cases hread : TypeGrammar.enclosed .closeParen id (TypeGrammar.params n .empty ts) with
  | error f =>
    rw [hread] at hinside
    cases f <;> exact hinside
  | ok r =>
    obtain ⟨ps, rest⟩ := r
    rw [hread] at hinside
    change Reaches .basic _ (left (withResult n ps rest))
    rw [withResult]
    by_cases hcolon : starts .colon rest = true
    · obtain ⟨c, rest, rfl⟩ := exists_of_starts hcolon
      obtain ⟨⟨ps', mid⟩, hparams, hclose⟩ := bind_eq_ok.1 hread
      obtain ⟨_, hexpect, heq⟩ := bind_eq_ok.1 hclose
      obtain ⟨r, rfl⟩ := expect_eq_ok.1 hexpect
      cases heq
      obtain ⟨taken, rfl, htaken⟩ := params_takesUpTo hparams (by omega)
      rw [List.length_append, List.length_cons] at calls
      rw [if_pos hcolon, left_mapValue]
      have hresult := ih.single (not_hasLong_of_cons (not_hasLong_of_append short)) (by omega)
      have hall : Reaches .basic (⟨.name "function".toList, p⟩ :: ⟨.mark .openParen, q⟩ ::
          (taken ++ [⟨.mark .colon, c⟩]) ++ rest) (left (TypeGrammar.single n rest)) := by
        refine hresult.behind _ (.behind ?_ id)
        rintro ts rest - ⟨e, result⟩
        obtain ⟨fs, inside⟩ := htaken (⟨.mark .colon, c⟩ :: ts)
        refine ⟨FunctionParam.signature fs (some e), ?_⟩
        simpa using Derives.functionTo inside result
      simpa using hall
    · rw [if_neg hcolon]
      exact hinside

theorem word_step (ih : StopsBehindFronts n) (name : Text) (p : Nat) {ts : List Token}
    (short : ¬ HasLong ts) (calls : 6 * ts.length + 6 ≤ n) :
    Reaches .basic (⟨.name name, p⟩ :: ts) (left (TypeGrammar.basic (n + 1) (⟨.name name, p⟩ :: ts))) := by
  rw [basic_word]
  split
  · next hfunction =>
    obtain ⟨hopen, hname⟩ := Bool.and_eq_true_iff.1 hfunction
    obtain ⟨q, ts, rfl⟩ := exists_of_starts hopen
    rw [List.length_cons] at calls
    rw [eq_of_beq hname]
    exact ih.function p q (not_hasLong_of_cons short) (by omega)
  · split
    · next hgeneric =>
      obtain ⟨hopen, hfree⟩ := Bool.and_eq_true_iff.1 hgeneric
      obtain ⟨m, q, rest, opening, rfl⟩ : ∃ m q rest, (m = .openAngle ∨ m = .dotAngle) ∧
          ts = ⟨.mark m, q⟩ :: rest := by
        rcases Bool.or_eq_true_iff.1 hopen with hopen | hopen
        · obtain ⟨q, rest, rfl⟩ := exists_of_starts hopen
          exact ⟨.openAngle, q, rest, .inl rfl, rfl⟩
        · obtain ⟨q, rest, rfl⟩ := exists_of_starts hopen
          exact ⟨.dotAngle, q, rest, .inr rfl, rfl⟩
      rw [List.length_cons] at calls
      refine .enclosed [_, _] (ih.arguments (not_hasLong_of_cons short) (by omega)) ?_ ?_ fun h => ?_
      · exact fun r rest => ⟨r, rest, rfl⟩
      · rintro ts r rest ⟨es, inside⟩
        exact ⟨.generic (.named name) es, .generic (by simpa using hfree) opening inside⟩
      · exact arguments_takesUpTo h (by omega)
    · exact ⟨[_], rfl, [], fun _ _ => ⟨ofName name, .name⟩⟩

theorem basic_step (ih : StopsBehindFronts n) : StopsBehind .basic 1 TypeGrammar.basic (n + 1) := by
  intro ts short calls
  have hnone : Reaches .basic ts ts := ⟨[], rfl, Completable.nil_basic⟩
  rcases ts with _ | ⟨⟨l, p⟩, ts⟩
  · exact hnone
  rw [List.length_cons] at calls
  have hshort := not_hasLong_of_cons short
  cases l with
  | mark m =>
    rw [basic_mark]
    cases m with
    | star => exact ⟨[_], rfl, [], fun _ _ => ⟨.any, .any⟩⟩
    | openParen =>
      refine .enclosed [_] (ih.members hshort (by omega)) ?_ ?_ fun h => ?_
      · exact fun q rest => ⟨.closeParen, by decide, rfl⟩
      · rintro ts q rest ⟨es, inside⟩
        exact ⟨.union es, .parens inside⟩
      · exact members_takesUpTo h (by omega)
    | openBrace =>
      refine .enclosed [_] (ih.fields hshort (by omega)) ?_ ?_ fun h => ?_
      · exact fun q rest => ⟨q, rest, rfl⟩
      · rintro ts q rest ⟨fs, inside⟩
        exact ⟨.record fs, .record inside⟩
      · exact fields_takesUpTo h (by omega)
    | openBracket =>
      refine .enclosed [_] (ih.elements hshort (by omega)) ?_ ?_ fun h => ?_
      · exact fun q rest => ⟨q, rest, rfl⟩
      · rintro ts q rest ⟨es, inside⟩
        exact ⟨.tuple es, .tuple inside⟩
      · exact elements_takesUpTo h (by omega)
    | _ => exact hnone
  | string s => exact ⟨[_], rfl, [], fun _ _ => ⟨_, .string⟩⟩
  | number s =>
    rw [TypeGrammar.basic]
    cases hvalue : numeralType s with
    | ok e => exact ⟨[_], rfl, [], fun _ _ => ⟨e, .number hvalue⟩⟩
    | error f => exact absurd ⟨s, p, List.mem_cons_self, numeralType_long hvalue⟩ short
  | name name => exact ih.word_step name p hshort (by omega)

end StopsBehindFronts

theorem stopsBehindFronts (n : Nat) : StopsBehindFronts n := by
  induction n with
  | zero => constructor <;> intros <;> (try intro _ _ calls) <;> omega
  | succ n ih =>
    exact {
      basic := ih.basic_step
      fields := ih.fields_step
      single := ih.single_step
      members := ih.members_step
      union := ih.union_step
      arguments := ih.arguments_step
      elements := ih.elements_step
      fieldValue := ih.fieldValue_step
      param := ih.param_step
      params := ih.params_step
      function := ih.function_step }

end DocFlow.TypeGrammar
