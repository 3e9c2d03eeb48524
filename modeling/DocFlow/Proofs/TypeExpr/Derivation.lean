import DocFlow.Proofs.TypeExpr.Grammar

namespace DocFlow.TypeGrammar

theorem Suffixes.isSuffix {e ts e' rest} (h : Suffixes e ts e' rest) : rest <:+ ts := by
  induction h with
  | done => exact List.suffix_rfl
  | array _ ih => exact ih.trans ⟨[_, _], rfl⟩
  | optional _ ih | nullable _ ih | nonNullable _ ih => exact ih.trans (List.suffix_cons ..)

theorem Suffixes.greedy {e ts e' rest} (h : Suffixes e ts e' rest) : ¬ StartsSuffix rest := by
  induction h with
  | done greedy => exact greedy
  | array _ ih | optional _ ih | nullable _ ih | nonNullable _ ih => exact ih

theorem Derives.isSuffix {s ts v rest} (h : Derives s ts v rest) : rest <:+ ts := by
  induction h with
  | unknown _ suffixes => exact suffixes.isSuffix.trans (List.suffix_cons ..)
  | suffixed _ suffixes ih => exact suffixes.isSuffix.trans ih
  | anyRest | any | string | number | name => exact List.suffix_cons ..
  | noElements | noFields | noValue | noParams => exact List.suffix_rfl
  | member _ ih | alternatives _ ih | argument _ ih | element _ ih | lastParam _ ih | positional _ ih =>
    exact ih
  | nullable _ _ ih | nonNullable _ ih | rest _ _ ih | field _ _ ih | value _ ih =>
    exact ih.trans (List.suffix_cons ..)
  | parens _ ih | record _ ih | tuple _ ih =>
    exact ((List.suffix_cons ..).trans ih).trans (List.suffix_cons ..)
  | bar _ _ first more | moreArguments _ _ first more | moreElements _ _ first more
  | moreParams _ _ first more =>
    exact more.trans ((List.suffix_cons ..).trans first)
  | moreFields _ _ _ value more =>
    exact (more.trans ((List.suffix_cons ..).trans value)).trans (List.suffix_cons ..)
  | generic _ _ _ ih | function _ ih =>
    exact ((List.suffix_cons ..).trans ih).trans ⟨[_, _], rfl⟩
  | functionTo _ _ inside result =>
    exact (result.trans (List.IsSuffix.trans ⟨[_, _], rfl⟩ inside)).trans ⟨[_, _], rfl⟩
  | bound _ _ ih => exact ih.trans ⟨[_, _], rfl⟩

/-- The symbols that stand for a token at least. -/
def Symbol.IsSolid : Symbol → Prop
  | .elements | .fields | .fieldValue | .params => False
  | _ => True

theorem Derives.length_lt {s ts v rest} (h : Derives s ts v rest) (solid : s.IsSolid) :
    rest.length < ts.length := by
  induction h with
  | unknown _ suffixes => exact Nat.lt_succ_of_le suffixes.isSuffix.length_le
  | suffixed _ suffixes ih => exact Nat.lt_of_le_of_lt suffixes.isSuffix.length_le (ih trivial)
  | anyRest | any | string | number | name => exact Nat.lt_succ_self _
  | member _ ih | alternatives _ ih | argument _ ih | positional _ ih => exact ih trivial
  | nullable _ _ ih | nonNullable _ ih | rest _ _ ih => exact Nat.lt_succ_of_lt (ih trivial)
  | bar _ _ first more | moreArguments _ _ first more =>
    have hf := first trivial
    have hm := more trivial
    simp only [List.length_cons] at hf
    omega
  | parens inside | record inside | tuple inside | generic _ _ inside | function inside =>
    have := inside.isSuffix.length_le
    simp only [List.length_cons] at *
    omega
  | functionTo inside _ _ result =>
    have := inside.isSuffix.length_le
    have := result trivial
    simp only [List.length_cons] at *
    omega
  | bound _ type =>
    have := type.isSuffix.length_le
    simp only [List.length_cons]
    omega
  | noElements | element | moreElements | noFields | field | moreFields | noValue | value | noParams
  | lastParam | moreParams => exact solid.elim

/-- A type takes all marks that bind to it. -/
theorem Derives.greedy {s ts v rest} (h : Derives s ts v rest) (single : s = .single) :
    ¬ StartsSuffix rest := by
  induction h with
  | unknown _ suffixes => exact suffixes.greedy
  | suffixed _ suffixes => exact suffixes.greedy
  | nullable _ _ ih | nonNullable _ ih | rest _ _ ih => exact ih rfl
  | @anyRest _ rest alone =>
    cases rest with
    | nil => exact id
    | cons t rest =>
      obtain ⟨l, p⟩ := t
      obtain ⟨m, hm, rfl⟩ := alone
      simp only [restFollowers, List.mem_cons, List.not_mem_nil, or_false] at hm
      rcases hm with rfl | rfl | rfl <;> simp [StartsSuffix]
  | _ => cases single

end DocFlow.TypeGrammar
