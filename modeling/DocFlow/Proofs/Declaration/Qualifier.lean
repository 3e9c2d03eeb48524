import Mathlib.Data.List.Basic
import Mathlib.Data.List.Infix
import DocFlow.Declaration.Reference

namespace DocFlow.Reference

def IsSign (c : Char) : Prop := c ∈ ['?', '<', '>', ' ', '|']

instance (c : Char) : Decidable (IsSign c) := inferInstanceAs (Decidable (c ∈ _))

def IsSeparator (c : Char) : Prop := opensName (some c) = true

theorem IsSign.isSeparator {c : Char} (h : IsSign c) : IsSeparator c := by
  have hall : ['?', '<', '>', ' ', '|'].all (fun c => opensName (some c)) = true := by decide +kernel
  exact List.all_eq_true.1 hall c h

/-- What a module may be named: neither a point nor a colon nor a sign stands in it. -/
structure IsIdentifier (m : Text) : Prop where
  ne_nil : m ≠ []
  chars : ∀ c ∈ m, c ≠ '.' ∧ c ≠ ':' ∧ ¬ IsSign c

instance (m : Text) : Decidable (IsIdentifier m) :=
  letI : Decidable (∀ c ∈ m, c ≠ '.' ∧ c ≠ ':' ∧ ¬ IsSign c) := List.decidableBAll _ m
  decidable_of_iff (m ≠ [] ∧ ∀ c ∈ m, c ≠ '.' ∧ c ≠ ':' ∧ ¬ IsSign c)
    ⟨fun h => ⟨h.1, h.2⟩, fun h => ⟨h.ne_nil, h.chars⟩⟩

def StartsApart (t : Text) : Prop := ∀ c ∈ t.head?, IsSign c

theorem IsSign.startsApart {c : Char} (h : IsSign c) (t : Text) : StartsApart (c :: t) := by
  intro d hd
  obtain rfl := Option.some.inj hd
  exact h

/-- What is dropped at the start of a name: characters that are no signs. -/
structure IsQualifier (q : Text) : Prop where
  ne_nil : q ≠ []
  signless : ∀ c ∈ q, ¬ IsSign c

theorem IsIdentifier.qualifier {m : Text} (h : IsIdentifier m) : IsQualifier (m ++ ['.']) := by
  refine ⟨List.append_ne_nil_of_left_ne_nil h.ne_nil _, ?_⟩
  rw [List.forall_mem_append, List.forall_mem_singleton]
  exact ⟨fun c hc => (h.chars c hc).2.2, by decide⟩

theorem dropQualifier_sublist (q : Text) (skip : Nat) (last : Option Char) (t : Text) :
    (dropQualifier q skip last t).Sublist t := by
  induction t generalizing skip last with
  | nil => exact List.Sublist.refl []
  | cons c t ih =>
    cases skip with
    | succ skip => exact (ih skip _).cons c
    | zero =>
      rw [dropQualifier]
      split
      · exact (ih _ _).cons c
      · exact (ih _ _).cons_cons c

theorem unqualify_sublist (scope : Option Text) (t : Text) : (unqualify scope t).Sublist t := by
  fun_cases unqualify scope t with
  | case1 => exact List.Sublist.refl t
  | case2 => exact List.Sublist.refl t
  | case3 => exact dropQualifier_sublist ..

theorem dropQualifier_of_opens (q : Text) {last : Option Char} (h : opensName last = true) (t : Text) :
    dropQualifier q 0 last t = dropQualifier q 0 none t := by
  cases t with
  | nil => rfl
  | cons c t =>
    rw [dropQualifier, dropQualifier, h]
    rfl

/-- Characters that are dropped in any case. -/
theorem dropQualifier_skip (q front : Text) (last : Option Char) (rest : Text) :
    dropQualifier q front.length last (front ++ rest) =
      dropQualifier q 0 (front.getLast?.or last) rest := by
  induction front generalizing last with
  | nil => rfl
  | cons c front ih =>
    rw [List.cons_append, List.length_cons, dropQualifier, ih, List.getLast?_cons]
    cases front.getLast? <;> rfl

namespace IsQualifier

variable {q : Text} (hq : IsQualifier q)
include hq

theorem isPrefixOf_append {rest : Text} (hrest : StartsApart rest) (t : Text) :
    q.isPrefixOf (t ++ rest) = q.isPrefixOf t := by
  have hsigns := hq.signless
  clear hq
  induction q generalizing t with
  | nil => rfl
  | cons d q ih =>
    rw [List.forall_mem_cons] at hsigns
    cases t with
    | cons c t =>
      rw [List.cons_append, List.isPrefixOf_cons_cons, List.isPrefixOf_cons_cons, ih t hsigns.2]
    | nil =>
      cases rest with
      | nil => rfl
      | cons c rest =>
        -- The rest starts with a sign, which cannot go on the qualifier.
        have hne : d ≠ c := fun heq => hsigns.1 (heq ▸ hrest c rfl)
        rw [List.nil_append, List.isPrefixOf_cons_cons, beq_eq_false_iff_ne.2 hne]
        rfl

/-- A sign stays, and behind it a name may start. -/
theorem dropQualifier_cons {c : Char} (hc : IsSign c) (last : Option Char) (t : Text) :
    dropQualifier q 0 last (c :: t) = c :: dropQualifier q 0 none t := by
  have hnone : q.isPrefixOf ([] ++ c :: t) = false := by
    rw [hq.isPrefixOf_append (hc.startsApart t)]
    obtain ⟨d, q, rfl⟩ := List.exists_cons_of_ne_nil hq.ne_nil
    rfl
  rw [List.nil_append] at hnone
  rw [dropQualifier, hnone, Bool.and_false, if_neg Bool.false_ne_true,
    dropQualifier_of_opens q hc.isSeparator]

theorem dropQualifier_apart {t : Text} (h : StartsApart t) (last : Option Char) :
    dropQualifier q 0 last t = dropQualifier q 0 none t := by
  cases t with
  | nil => rfl
  | cons c t => rw [hq.dropQualifier_cons (h c rfl), hq.dropQualifier_cons (h c rfl)]

theorem dropQualifier_append {rest : Text} (hrest : StartsApart rest) {skip : Nat}
    {last : Option Char} {t : Text} (hskip : skip ≤ t.length) :
    dropQualifier q skip last (t ++ rest) =
      dropQualifier q skip last t ++ dropQualifier q 0 none rest := by
  induction t generalizing skip last with
  | nil =>
    obtain rfl := Nat.le_zero.1 hskip
    exact hq.dropQualifier_apart hrest last
  | cons c t ih =>
    cases skip with
    | succ skip => exact ih (Nat.le_of_succ_le_succ hskip)
    | zero =>
      have hprefix := hq.isPrefixOf_append hrest (c :: t)
      rw [List.cons_append] at hprefix
      rw [List.cons_append, dropQualifier, dropQualifier, hprefix]
      split
      · next hfront =>
        -- The qualifier ends before the rest, so what is skipped lies in front of it.
        have hle := (List.isPrefixOf_iff_prefix.1 (Bool.and_eq_true_iff.1 hfront).2).length_le
        rw [List.length_cons] at hle
        exact ih (by omega)
      · rw [ih (Nat.zero_le _)]
        rfl

/-- At the start of a name the qualifier is dropped. -/
theorem dropQualifier_front {last : Option Char} (hlast : opensName last = true) (rest : Text) :
    dropQualifier q 0 last (q ++ rest) = dropQualifier q 0 q.getLast? rest := by
  obtain ⟨c, q, rfl⟩ := List.exists_cons_of_ne_nil hq.ne_nil
  have hfront : (c :: q).isPrefixOf (c :: (q ++ rest)) = true :=
    List.isPrefixOf_iff_prefix.2 (List.prefix_append (c :: q) rest)
  rw [List.cons_append, dropQualifier, hlast, hfront, Bool.and_self, if_pos rfl]
  refine (dropQualifier_skip (c :: q) q (some c) rest).trans ?_
  rw [List.getLast?_cons]
  cases q.getLast? <;> rfl

end IsQualifier

def StandsBehindSeparator (q t : Text) : Prop :=
  ∃ front c rest, t = front ++ c :: (q ++ rest) ∧ IsSeparator c

theorem standsBehindSeparator_cons {q t : Text} {c : Char}
    (h : ¬ (IsSeparator c ∧ q <+: t)) :
    StandsBehindSeparator q (c :: t) ↔ StandsBehindSeparator q t := by
  constructor
  · rintro ⟨front, d, rest, heq, hd⟩
    cases front with
    | nil =>
      obtain ⟨rfl, rfl⟩ := List.cons.inj heq
      exact absurd ⟨hd, List.prefix_append q rest⟩ h
    | cons _ front => exact ⟨front, d, rest, (List.cons.inj heq).2, hd⟩
  · rintro ⟨front, d, rest, rfl, hd⟩
    exact ⟨c :: front, d, rest, rfl, hd⟩

/-- A text that loses nothing at its start stays as it is iff no qualifier stands behind a separator
in it. -/
theorem IsQualifier.dropQualifier_eq_self_iff {q : Text} (hq : IsQualifier q) {last : Option Char}
    {t : Text} (hfirst : ¬ (opensName last = true ∧ q <+: t)) :
    dropQualifier q 0 last t = t ↔ ¬ StandsBehindSeparator q t := by
  induction t generalizing last with
  | nil =>
    refine iff_of_true rfl ?_
    rintro ⟨front, c, rest, heq, -⟩
    exact absurd heq.symm (by simp)
  | cons c t ih =>
    have hkeep : ¬ (opensName last && q.isPrefixOf (c :: t)) = true := by
      rw [Bool.and_eq_true, List.isPrefixOf_iff_prefix]
      exact hfirst
    rw [dropQualifier, if_neg hkeep, List.cons_inj_right]
    by_cases hc : IsSeparator c ∧ q <+: t
    · obtain ⟨hc, rest, rfl⟩ := hc
      refine iff_of_false ?_ (not_not_intro ⟨[], c, rest, rfl, hc⟩)
      intro hsame
      have hlength := congrArg List.length hsame
      have hle := (dropQualifier_sublist q 0 q.getLast? rest).length_le
      have hpos := List.length_pos_of_ne_nil hq.ne_nil
      rw [hq.dropQualifier_front hc, List.length_append] at hlength
      omega
    · rw [ih hc, standsBehindSeparator_cons hc]

/-- Within the qualifier of a module no other one starts, since its point is its last character. -/
theorem standsBehindSeparator_front {m : Text} (hpoint : '.' ∉ m) {front : Text}
    (hfront : '.' ∉ front) (hle : front.length ≤ m.length) (rest : Text) :
    StandsBehindSeparator (m ++ ['.']) (front ++ '.' :: rest) ↔
      StandsBehindSeparator (m ++ ['.']) rest := by
  induction front with
  | nil => exact standsBehindSeparator_cons fun h => Bool.false_ne_true h.1
  | cons c front ih =>
    rw [List.mem_cons, not_or] at hfront
    rw [List.length_cons] at hle
    rw [List.cons_append, standsBehindSeparator_cons, ih hfront.2 (Nat.le_of_succ_le hle)]
    -- One that started here would have the point of the first among the characters of its module.
    rintro ⟨-, hprefix⟩
    have hshort : front ++ ['.'] <+: front ++ '.' :: rest := ⟨rest, by simp⟩
    have hlong : m <+: front ++ '.' :: rest := (List.prefix_append m ['.']).trans hprefix
    exact hpoint ((List.prefix_of_prefix_length_le hshort hlong (by simpa using hle)).mem (by simp))

def dropLeading (m n : Text) : Text :=
  if (m ++ ['.']).isPrefixOf n then n.drop (m ++ ['.']).length else n

theorem dropLeading_nil (m : Text) : dropLeading m [] = [] := by
  rw [dropLeading, List.drop_nil, ite_self]

namespace IsIdentifier

variable {m : Text} (hm : IsIdentifier m)
include hm

theorem unqualify_eq (t : Text) : unqualify (some m) t = dropQualifier (m ++ ['.']) 0 none t := by
  obtain ⟨c, m, rfl⟩ := List.exists_cons_of_ne_nil hm.ne_nil
  rfl

theorem unqualify_nil : unqualify (some m) [] = [] := by
  rw [hm.unqualify_eq, dropQualifier]

theorem unqualify_append {rest : Text} (hrest : StartsApart rest) (t : Text) :
    unqualify (some m) (t ++ rest) = unqualify (some m) t ++ unqualify (some m) rest := by
  rw [hm.unqualify_eq, hm.unqualify_eq, hm.unqualify_eq]
  exact hm.qualifier.dropQualifier_append hrest (Nat.zero_le _)

theorem unqualify_cons {c : Char} (hc : IsSign c) (t : Text) :
    unqualify (some m) (c :: t) = c :: unqualify (some m) t := by
  rw [hm.unqualify_eq, hm.unqualify_eq]
  exact hm.qualifier.dropQualifier_cons hc none t

theorem unqualify_of_no_point {t : Text} (h : '.' ∉ t) : unqualify (some m) t = t := by
  have hpoint (front rest : Text) : t ≠ front ++ (m ++ ['.'] ++ rest) := fun heq => h (by simp [heq])
  rw [hm.unqualify_eq, hm.qualifier.dropQualifier_eq_self_iff]
  · rintro ⟨front, c, rest, heq, -⟩
    exact hpoint (front ++ [c]) rest (by simpa using heq)
  · rintro ⟨-, rest, heq⟩
    exact hpoint [] rest heq.symm

/-- What a name loses: the qualifier at its start, and perhaps more behind it. -/
theorem unqualify_front (rest : Text) :
    unqualify (some m) (m ++ ['.'] ++ rest) = dropQualifier (m ++ ['.']) 0 (some '.') rest := by
  rw [hm.unqualify_eq, hm.qualifier.dropQualifier_front rfl, List.getLast?_concat]

theorem unqualify_sublist (n : Text) :
    (unqualify (some m) n).Sublist (dropLeading m n) := by
  rw [dropLeading]
  split
  · next hfront =>
    obtain ⟨rest, rfl⟩ := List.isPrefixOf_iff_prefix.1 hfront
    rw [hm.unqualify_front, List.drop_left]
    exact dropQualifier_sublist ..
  · rw [hm.unqualify_eq]
    exact dropQualifier_sublist ..

/-- A name loses its leading qualifier and no more iff no other one stands behind a separator. -/
theorem unqualify_eq_dropLeading_iff (n : Text) :
    unqualify (some m) n = dropLeading m n ↔ ¬ StandsBehindSeparator (m ++ ['.']) n := by
  have hq := hm.qualifier
  rw [dropLeading]
  split
  · next hfront =>
    obtain ⟨rest, rfl⟩ := List.isPrefixOf_iff_prefix.1 hfront
    have hpoint : '.' ∉ m := fun h => (hm.chars _ h).1 rfl
    rw [hm.unqualify_front, List.drop_left, List.append_assoc, List.singleton_append,
      standsBehindSeparator_front hpoint hpoint le_rfl]
    exact hq.dropQualifier_eq_self_iff fun h => Bool.false_ne_true h.1
  · next hfront =>
    rw [hm.unqualify_eq]
    exact hq.dropQualifier_eq_self_iff fun h => hfront (List.isPrefixOf_iff_prefix.2 h.2)

theorem unqualify_ne_nil {n : Text} (hne : n ≠ []) (hn : n ≠ m ++ ['.']) :
    unqualify (some m) n ≠ [] := by
  by_cases hfront : m ++ ['.'] <+: n
  · obtain ⟨rest, rfl⟩ := hfront
    have hrest : rest ≠ [] := by
      rintro rfl
      exact hn (List.append_nil _)
    obtain ⟨c, rest, rfl⟩ := List.exists_cons_of_ne_nil hrest
    rw [hm.unqualify_front, dropQualifier]
    exact List.cons_ne_nil _ _
  · obtain ⟨c, n, rfl⟩ := List.exists_cons_of_ne_nil hne
    rw [hm.unqualify_eq, dropQualifier, if_neg]
    · exact List.cons_ne_nil _ _
    · rw [Bool.and_eq_true, List.isPrefixOf_iff_prefix]
      exact fun h => hfront h.2

theorem dropLeading_ne_nil {n : Text} (hne : n ≠ []) (hn : n ≠ m ++ ['.']) :
    dropLeading m n ≠ [] := by
  have hsub := hm.unqualify_sublist n
  intro hnil
  rw [hnil, List.sublist_nil] at hsub
  exact hm.unqualify_ne_nil hne hn hsub

end IsIdentifier

end DocFlow.Reference
