import DocFlow.Proofs.TypeExpr.Completion

namespace DocFlow.TypeGrammar

/-- A problem is found by the union that is parsed, or else behind it. -/
theorem ofTokens_problem {ts rest : List Token} {p : Problem} (some : ts ≠ [])
    (h : ofTokens ts = .error (.problem p rest)) :
    union (budget ts) ts = .error (.problem p rest) ∨
      ∃ e next more, union (budget ts) ts = .ok (e, next :: more) ∧ rest = next :: more ∧
        p = .unexpected next.lexeme.text := by
  unfold ofTokens at h
  rw [if_neg (by simpa using some)] at h
  rcases bind_eq_error.1 h with h | ⟨⟨e, rest⟩, hunion, h⟩
  · exact .inl h
  · cases rest with
    | nil => cases h
    | cons next more =>
      cases h
      exact .inr ⟨e, next, more, hunion, rfl, rfl⟩

/-- Marks make a type of the tokens before a problem. -/
theorem exists_marks_of_problem {ts rest : List Token} {p : Problem} (short : ¬ HasLong ts)
    (h : ofTokens ts = .error (.problem p rest)) :
    ∃ front, ts = front ++ rest ∧
      ∃ (ms : List Mark) (e : TypeExpr), ofTokens (front ++ ms.map Token.ofMark) = .ok e := by
  have hreaches : Reaches .union ts rest := by
    by_cases hnil : ts = []
    · subst hnil
      cases h
      exact ⟨[], rfl, Completable.nil_basic.of_basic.of_single.of_members⟩
    · have hleft := (stopsBehindFronts (budget ts)).union short (by rw [budget]; omega)
      rcases ofTokens_problem hnil h with hunion | ⟨e, next, more, hunion, rfl, -⟩
      · rwa [hunion] at hleft
      · rwa [hunion] at hleft
  obtain ⟨front, hts, ms, hms⟩ := hreaches
  obtain ⟨e, derived⟩ := hms [] trivial
  rw [List.append_nil] at derived
  exact ⟨front, hts, ms, e, ofTokens_of_spells derived⟩

/-- What follows the token of a problem makes no difference to it. -/
theorem ofTokens_problem_of_append {front more : List Token} {t : Token} {p : Problem}
    (h : ofTokens (front ++ t :: more) = .error (.problem p (t :: more))) (more' : List Token) :
    ofTokens (front ++ t :: more') = .error (.problem p (t :: more')) := by
  have hsome (us : List Token) : front ++ t :: us ≠ [] := by simp
  have halike := (twoRuns (budget (front ++ t :: more))).union (budget (front ++ t :: more'))
    (.of_append front t more more') (by rw [budget]; omega) (by rw [budget]; omega)
  unfold ofTokens
  rw [if_neg (by simp)]
  rcases ofTokens_problem (hsome more) h with hunion | ⟨e, next, rest, hunion, heq, rfl⟩
  · rw [hunion] at halike
    rw [halike.of_problem]
    rfl
  · cases heq
    rw [hunion] at halike
    rw [halike.of_ok]
    rfl

/-- A fault at a token lies at the first one that is wrong: the tokens before it go on to a type,
and with it they are given up for the same problem, however they go on. A fault at the end of the
text lies behind tokens that go on to a type. -/
theorem fault_at_first_wrong_token {ts : List Token} {f : Fault}
    (short : ∀ t ∈ ts, t.lexeme.isShort = true) (h : ofTokens ts = .error f) (text : Text) :
    (∃ p front t more, ts = front ++ t :: more ∧
      f.toParseError text = .malformed p text t.place ∧
      (∀ more', ofTokens (front ++ t :: more') = .error (.problem p (t :: more'))) ∧
      ∃ more' e, ofTokens (front ++ more') = .ok e) ∨
    ∃ p, f.toParseError text = .malformed p text text.length ∧
      ∃ more ≠ [], ∃ e, ofTokens (ts ++ more) = .ok e := by
  have hshort : ¬ HasLong ts := by
    rintro ⟨s, q, hmem, hlong⟩
    have hs : hasShortDigits s = true := short _ hmem
    rw [hs] at hlong
    cases hlong
  cases f with
  | longInteger k => exact absurd (ofTokens_long h) hshort
  | problem p rest =>
    obtain ⟨front, rfl, ms, e, hfront⟩ := exists_marks_of_problem hshort h
    cases rest with
    | cons t more =>
      exact .inl ⟨p, front, t, more, rfl, rfl, ofTokens_problem_of_append h, _, e, hfront⟩
    | nil =>
      rw [List.append_nil] at h
      refine .inr ⟨p, rfl, ms.map Token.ofMark, ?_, e, by rwa [List.append_nil]⟩
      -- Without a mark the tokens would be a type themselves.
      intro hnone
      rw [hnone, List.append_nil, h] at hfront
      cases hfront

/-- A brace in the place of the closing angle is the first wrong token. -/
theorem fault_at_brace_in_generic :
    ∃ ts f, tokens "Array.<string\x7d".toList = .ok ts ∧ (∀ t ∈ ts, t.lexeme.isShort = true) ∧
      ofTokens ts = .error f ∧
      ((∃ p front t more, ts = front ++ t :: more ∧
        f.toParseError "Array.<string\x7d".toList = .malformed p "Array.<string\x7d".toList t.place ∧
        (∀ more', ofTokens (front ++ t :: more') = .error (.problem p (t :: more'))) ∧
        ∃ more' e, ofTokens (front ++ more') = .ok e) ∨
      ∃ p, f.toParseError "Array.<string\x7d".toList =
          .malformed p "Array.<string\x7d".toList "Array.<string\x7d".toList.length ∧
        ∃ more ≠ [], ∃ e, ofTokens (ts ++ more) = .ok e) ∧
      f.toParseError "Array.<string\x7d".toList =
        .malformed (.expected .closeAngle ['}']) "Array.<string\x7d".toList 13 := by
  have short : ∀ t ∈ [⟨.name "Array".toList, 0⟩, ⟨.mark .dotAngle, 5⟩, ⟨.name "string".toList, 7⟩,
      (⟨.mark .closeBrace, 13⟩ : Token)], t.lexeme.isShort = true := by
    decide
  exact ⟨_, _, by decide +kernel, short, rfl, fault_at_first_wrong_token short rfl _, rfl⟩

end DocFlow.TypeGrammar
