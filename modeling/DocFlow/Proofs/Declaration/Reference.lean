import Mathlib.Data.List.TakeWhile
import DocFlow.Declaration.Reference

namespace DocFlow.Reference

/-- What may stand between the colon and the name: blanks around at most one question mark. -/
def IsGap (g : Text) : Prop :=
  (∀ c ∈ g, Text.isBlank c = true) ∨
    ∃ a b, g = a ++ '?' :: b ∧ (∀ c ∈ a, Text.isBlank c = true) ∧ ∀ c ∈ b, Text.isBlank c = true

/-- Some colon of a text has a name behind it that ends where the name ends. -/
def Refers (name t : Text) : Prop :=
  ∃ before g behind, t = before ++ ':' :: (g ++ behind) ∧ IsGap g ∧ startsWithName name behind = true

theorem blanks_append {a : Text} (ha : ∀ c ∈ a, Text.isBlank c = true) (t : Text) :
    blanks (a ++ t) = a.length + blanks t := by
  rw [blanks, blanks, List.takeWhile_append_of_pos ha, List.length_append]

theorem blanks_le (t : Text) : blanks t ≤ t.length :=
  (List.takeWhile_sublist _).length_le

theorem isBlank_of_mem_take {t : Text} {n : Nat} (h : n ≤ blanks t) {c : Char} (hc : c ∈ t.take n) :
    Text.isBlank c = true := by
  have hsplit : t.takeWhile Text.isBlank ++ t.dropWhile Text.isBlank = t :=
    List.takeWhile_append_dropWhile
  rw [← hsplit, List.take_append_of_le_length h] at hc
  exact List.mem_takeWhile_imp (List.mem_of_mem_take hc)

/-- A gap goes on behind the first blanks only if a question mark is there. -/
theorem gap_cases (t : Text) :
    (∃ rest, t.drop (blanks t) = '?' :: rest ∧ gap t = blanks t + 1 + blanks rest) ∨
      gap t = blanks t ∧ (t.drop (blanks t)).head? ≠ some '?' := by
  rw [gap]
  split
  · next rest hrest => exact .inl ⟨rest, hrest, rfl⟩
  · next hrest =>
    refine .inr ⟨rfl, ?_⟩
    intro hhead
    obtain ⟨rest, hcons⟩ := List.head?_eq_some_iff.1 hhead
    exact hrest rest hcons

theorem blanks_le_gap (t : Text) : blanks t ≤ gap t := by
  rcases gap_cases t with ⟨rest, -, hgap⟩ | ⟨hgap, -⟩ <;> omega

theorem gap_le (t : Text) : gap t ≤ t.length := by
  have hblanks := blanks_le t
  rcases gap_cases t with ⟨rest, hrest, hgap⟩ | ⟨hgap, -⟩
  · have hlength := congrArg List.length hrest
    have hmore := blanks_le rest
    rw [List.length_drop, List.length_cons] at hlength
    omega
  · omega

/-- The gap at the start of a text is the longest one. -/
theorem length_le_gap {g : Text} (hg : IsGap g) (t : Text) : g.length ≤ gap (g ++ t) := by
  rcases hg with hblank | ⟨a, b, rfl, ha, hb⟩
  · have hblanks := blanks_append hblank t
    have hle := blanks_le_gap (g ++ t)
    omega
  · have hblanks : blanks (a ++ '?' :: b ++ t) = a.length := by
      rw [List.append_assoc, blanks_append ha]
      rfl
    have hdrop : (a ++ '?' :: b ++ t).drop a.length = '?' :: (b ++ t) := by
      rw [List.append_assoc, List.drop_left]
      rfl
    rcases gap_cases (a ++ '?' :: b ++ t) with ⟨rest, hrest, hgap⟩ | ⟨-, hhead⟩
    · rw [hblanks, hdrop] at hrest
      cases hrest
      have hmore := blanks_append hb t
      rw [List.length_append, List.length_cons]
      omega
    · rw [hblanks, hdrop] at hhead
      exact absurd rfl hhead

theorem isGap_take {t : Text} {n : Nat} (h : n ≤ gap t) : IsGap (t.take n) := by
  by_cases hn : n ≤ blanks t
  · exact .inl fun c hc => isBlank_of_mem_take hn hc
  rcases gap_cases t with ⟨rest, hrest, hgap⟩ | ⟨hgap, -⟩
  · obtain ⟨m, rfl⟩ : ∃ m, n = blanks t + (m + 1) := ⟨n - blanks t - 1, by omega⟩
    refine .inr ⟨t.take (blanks t), rest.take m, ?_, ?_, ?_⟩
    · rw [List.take_add, hrest, List.take_succ_cons]
    · intro c hc
      exact isBlank_of_mem_take (Nat.le_refl _) hc
    · intro c hc
      exact isBlank_of_mem_take (by omega) hc
  · omega

theorem findName?_eq_none_iff {name t : Text} {n : Nat} :
    findName? name t n = none ↔ ∀ k ≤ n, startsWithName name (t.drop k) = false := by
  induction n with
  | zero => simp [findName?]
  | succ n ih =>
    rw [findName?]
    constructor
    · intro h k hk
      split at h
      · cases h
      · next hname =>
        by_cases hlast : k = n + 1
        · rw [hlast]
          exact Bool.eq_false_iff.2 hname
        · exact ih.1 h k (by omega)
    · intro h
      rw [if_neg (by simp [h (n + 1) (Nat.le_refl _)])]
      exact ih.2 fun k hk => h k (by omega)

theorem findName?_eq_some {name t : Text} {n k : Nat} (h : findName? name t n = some k) :
    k ≤ n ∧ startsWithName name (t.drop k) = true := by
  induction n with
  | zero =>
    rw [findName?] at h
    split at h
    · next hname =>
      cases h
      exact ⟨Nat.le_refl 0, hname⟩
    · cases h
  | succ n ih =>
    rw [findName?] at h
    split at h
    · next hname =>
      cases h
      exact ⟨Nat.le_refl _, hname⟩
    · have hk := ih h
      exact ⟨by omega, hk.2⟩

theorem startsWithName_cons (n c : Char) (name t : Text) :
    startsWithName (n :: name) (c :: t) = (n == c && startsWithName name t) := by
  rw [startsWithName, startsWithName, List.isPrefixOf_cons_cons, List.length_cons,
    List.drop_succ_cons, Bool.and_assoc]

theorem length_le_of_startsWithName {name t : Text} (h : startsWithName name t = true) :
    name.length ≤ t.length := by
  rw [startsWithName, Bool.and_eq_true, List.isPrefixOf_iff_prefix] at h
  exact h.1.length_le

/-- No reference reaches beyond the end of the text. -/
theorem reach?_le {name t : Text} {n : Nat} (h : reach? name t = some n) : n ≤ t.length := by
  obtain ⟨k, hk, rfl⟩ := Option.map_eq_some_iff.1 h
  obtain ⟨hgap, hname⟩ := findName?_eq_some hk
  have hlength := length_le_of_startsWithName hname
  have hle := gap_le t
  rw [List.length_drop] at hlength
  omega

/-- A reference reaches nowhere iff no gap has the name behind it. -/
theorem reach?_eq_none_iff {name t : Text} :
    reach? name t = none ↔
      ∀ g behind, t = g ++ behind → IsGap g → startsWithName name behind = false := by
  rw [reach?, Option.map_eq_none_iff, findName?_eq_none_iff]
  constructor
  · intro h g behind ht hg
    subst ht
    have hname := h g.length (length_le_gap hg behind)
    rw [List.drop_left] at hname
    exact hname
  · intro h k hk
    exact h (t.take k) (t.drop k) (List.take_append_drop k t).symm (isGap_take hk)

/-- The first colon refers to the name or what is behind it does. -/
theorem refers_cons_iff {name t : Text} {c : Char} :
    Refers name (c :: t) ↔ (c = ':' ∧ reach? name t ≠ none) ∨ Refers name t := by
  rw [Ne, reach?_eq_none_iff]
  constructor
  · rintro ⟨before, g, behind, ht, hg, hname⟩
    cases before with
    | nil =>
      obtain ⟨rfl, rfl⟩ := List.cons.inj ht
      refine .inl ⟨rfl, ?_⟩
      intro h
      rw [h g behind rfl hg] at hname
      cases hname
    | cons b before =>
      obtain ⟨-, rfl⟩ := List.cons.inj ht
      exact .inr ⟨before, g, behind, rfl, hg, hname⟩
  · rintro (⟨rfl, h⟩ | ⟨before, g, behind, rfl, hg, hname⟩)
    · by_contra hrefers
      apply h
      intro g behind ht hg
      by_contra hname
      exact hrefers ⟨[], g, behind, by rw [ht]; rfl, hg, by simpa using hname⟩
    · exact ⟨c :: before, g, behind, rfl, hg, hname⟩

theorem not_refers_nil (name : Text) : ¬ Refers name [] := by
  rintro ⟨before, g, behind, h, -⟩
  exact absurd h.symm (by simp)

theorem retarget_cons_of_not {name t : Text} {c : Char} (h : ¬ (c = ':' ∧ reach? name t ≠ none)) :
    retarget name 0 (c :: t) = c :: retarget name 0 t := by
  rw [retarget]
  split
  · next hc =>
    have hreach : reach? name t = none := by
      by_contra hsome
      exact h ⟨hc, hsome⟩
    rw [hreach]
  · rfl

theorem length_le_retarget (name : Text) (pending : Nat) (t : Text) :
    t.length ≤ (retarget name pending t).length := by
  induction t generalizing pending with
  | nil => exact Nat.zero_le _
  | cons c t ih =>
    match pending with
    | 0 =>
      have hnext := ih 0
      by_cases h : c = ':' ∧ reach? name t ≠ none
      · obtain ⟨n, hn⟩ := Option.ne_none_iff_exists'.1 h.2
        rw [retarget, if_pos h.1, hn]
        cases n with
        | zero =>
          simp only [List.length_cons, List.length_append]
          omega
        | succ n =>
          have hskip := ih (n + 1)
          simp only [List.length_cons]
          omega
      · rw [retarget_cons_of_not h, List.length_cons, List.length_cons]
        omega
    | 1 =>
      have hnext := ih 0
      rw [retarget]
      simp only [List.length_cons, List.length_append]
      omega
    | n + 2 =>
      have hskip := ih (n + 1)
      rw [retarget, List.length_cons, List.length_cons]
      omega

/-- A reference that ends within the text gets the suffix. -/
theorem length_lt_retarget {name t : Text} {n : Nat} (h : n + 1 ≤ t.length) :
    t.length < (retarget name (n + 1) t).length := by
  induction t generalizing n with
  | nil => exact absurd h (by simp)
  | cons c t ih =>
    cases n with
    | zero =>
      have hnext := length_le_retarget name 0 t
      have hsuffix : valueSuffix.length = 5 := rfl
      rw [retarget]
      simp only [List.length_cons, List.length_append]
      omega
    | succ n =>
      have hskip := ih (Nat.le_of_succ_le_succ h)
      rw [retarget, List.length_cons, List.length_cons]
      omega

theorem length_lt_of_refers {name t : Text} (h : Refers name t) :
    t.length < (retarget name 0 t).length := by
  induction t with
  | nil => exact absurd h (not_refers_nil name)
  | cons c t ih =>
    by_cases hfirst : c = ':' ∧ reach? name t ≠ none
    · obtain ⟨n, hn⟩ := Option.ne_none_iff_exists'.1 hfirst.2
      have hreach := reach?_le hn
      rw [retarget, if_pos hfirst.1, hn]
      cases n with
      | zero =>
        have hnext := length_le_retarget name 0 t
        have hsuffix : valueSuffix.length = 5 := rfl
        simp only [List.length_cons, List.length_append]
        omega
      | succ n =>
        have hskip : t.length < (retarget name (n + 1) t).length := length_lt_retarget hreach
        simp only [List.length_cons]
        omega
    · have hnext := ih ((refers_cons_iff.1 h).resolve_left hfirst)
      rw [retarget_cons_of_not hfirst, List.length_cons, List.length_cons]
      omega

theorem retarget_of_not_refers {name t : Text} (h : ¬ Refers name t) : retarget name 0 t = t := by
  induction t with
  | nil => rfl
  | cons c t ih =>
    rw [refers_cons_iff, not_or] at h
    rw [retarget_cons_of_not h.1, ih h.2]

theorem retargetAll_cons (name : Text) (names : List Text) (t : Text) :
    retargetAll (name :: names) t = retargetAll names (retarget name 0 t) :=
  rfl

theorem length_le_retargetAll (names : List Text) (t : Text) :
    t.length ≤ (retargetAll names t).length := by
  induction names generalizing t with
  | nil => exact Nat.le_refl _
  | cons name names ih =>
    have hfirst := length_le_retarget name 0 t
    have hrest := ih (retarget name 0 t)
    rw [retargetAll_cons]
    omega

/-- Retargeting leaves a text as it is iff the text refers to none of the names. -/
theorem retargetAll_eq_self_iff {names : List Text} {t : Text} :
    retargetAll names t = t ↔ ∀ name ∈ names, ¬ Refers name t := by
  induction names with
  | nil => simp [retargetAll]
  | cons name names ih =>
    rw [retargetAll_cons, List.forall_mem_cons, ← ih]
    constructor
    · intro h
      have hfirst : ¬ Refers name t := by
        intro hrefers
        have hgrows := length_lt_of_refers hrefers
        have hrest := length_le_retargetAll names (retarget name 0 t)
        rw [h] at hrest
        omega
      rw [retarget_of_not_refers hfirst] at h
      exact ⟨hfirst, h⟩
    · rintro ⟨hfirst, hrest⟩
      rw [retarget_of_not_refers hfirst, hrest]

/-- What starts with a character that is not in a name and ends every name does not change where the
name starts. -/
theorem startsWithName_append {name : Text} {d : Char} (hmem : d ∉ name)
    (hends : isNamePart d = false) (a b : Text) :
    startsWithName name (a ++ d :: b) = startsWithName name a := by
  induction name generalizing a with
  | nil =>
    cases a with
    | nil => simp [startsWithName, hends]
    | cons c a => rfl
  | cons n name ih =>
    have hne : n ≠ d := fun heq => hmem (heq ▸ List.mem_cons_self)
    cases a with
    | nil =>
      rw [List.nil_append, startsWithName_cons, beq_eq_false_iff_ne.2 hne]
      rfl
    | cons c a =>
      have hrest := ih (fun hd => hmem (List.mem_cons_of_mem n hd)) a
      rw [List.cons_append, startsWithName_cons, startsWithName_cons, hrest]

theorem findName?_append {name : Text} {d : Char} (hmem : d ∉ name) (hends : isNamePart d = false)
    {a : Text} (b : Text) {n : Nat} (hn : n ≤ a.length) :
    findName? name (a ++ d :: b) n = findName? name a n := by
  induction n with
  | zero => rw [findName?, findName?, startsWithName_append hmem hends]
  | succ n ih =>
    rw [findName?, findName?, List.drop_append_of_le_length hn, startsWithName_append hmem hends,
      ih (by omega)]

/-- Behind a text that no reference in it reaches across, a text is retargeted as if it started
there. -/
theorem retarget_append {name a t : Text}
    (hreach : ∀ u, ':' :: u <:+ a → reach? name (u ++ t) = reach? name u) {pending : Nat}
    (hp : pending ≤ a.length) :
    retarget name pending (a ++ t) = retarget name pending a ++ retarget name 0 t := by
  induction a generalizing pending with
  | nil =>
    obtain rfl := Nat.le_zero.1 hp
    rfl
  | cons c a ih =>
    have hmore := fun u hu => hreach u (List.IsSuffix.trans hu (List.suffix_cons c a))
    rw [List.cons_append]
    match pending with
    | 0 =>
      have hnext := ih hmore (Nat.zero_le _)
      rw [retarget, retarget]
      split
      · next hc =>
        subst hc
        rw [hreach a (List.suffix_refl _)]
        cases hfirst : reach? name a with
        | none => exact congrArg (':' :: ·) hnext
        | some n =>
          cases n with
          | zero =>
            dsimp only
            rw [hnext, List.cons_append, List.append_assoc]
          | succ n => exact congrArg (':' :: ·) (ih hmore (reach?_le hfirst))
      · exact congrArg (c :: ·) hnext
    | 1 =>
      rw [retarget, retarget, ih hmore (Nat.zero_le _), List.cons_append, List.append_assoc]
    | n + 2 =>
      have hskip := ih hmore (Nat.le_of_succ_le_succ hp)
      rw [retarget, retarget, hskip, List.cons_append]

/-- A character that no reference to a name crosses: it is not in the name, ends every name, and
stands in no gap. -/
structure Separates (name : Text) (d : Char) : Prop where
  notMem : d ∉ name
  endsName : isNamePart d = false
  visible : Text.isBlank d = false
  noQuestion : d ≠ '?'

section

variable {name : Text} {d : Char} (h : Separates name d)
include h

theorem Separates.blanks_append (a b : Text) : blanks (a ++ d :: b) = blanks a := by
  induction a with
  | nil =>
    rw [List.nil_append, blanks, blanks, List.takeWhile_cons_of_neg (by simp [h.visible])]
    rfl
  | cons c a ih =>
    rw [blanks, blanks] at ih ⊢
    rw [List.cons_append, List.takeWhile_cons, List.takeWhile_cons]
    split
    · rw [List.length_cons, List.length_cons, ih]
    · rfl

theorem Separates.gap_append (a b : Text) : gap (a ++ d :: b) = gap a := by
  have hblanks := h.blanks_append a b
  have hdrop : (a ++ d :: b).drop (blanks a) = a.drop (blanks a) ++ d :: b :=
    List.drop_append_of_le_length (blanks_le a)
  rw [gap, gap, hblanks, hdrop]
  cases hrest : a.drop (blanks a) with
  | nil =>
    rw [List.nil_append]
    split
    · next heq =>
      cases heq
      exact absurd rfl h.noQuestion
    · rfl
  | cons c rest =>
    rw [List.cons_append]
    by_cases hc : c = '?'
    · subst hc
      exact congrArg _ (h.blanks_append rest b)
    · split
      · next heq =>
        cases heq
        exact absurd rfl hc
      · split
        · next heq =>
          cases heq
          exact absurd rfl hc
        · rfl

theorem Separates.reach?_append (a b : Text) : reach? name (a ++ d :: b) = reach? name a := by
  rw [reach?, reach?, h.gap_append, findName?_append h.notMem h.endsName b (gap_le a)]

/-- Behind such a character a text is retargeted as if it started there. -/
theorem Separates.retarget_append {pending : Nat} {a : Text} (hp : pending ≤ a.length) (b : Text) :
    retarget name pending (a ++ d :: b) = retarget name pending a ++ retarget name 0 (d :: b) :=
  Reference.retarget_append (fun u _ => h.reach?_append u b) hp

end

theorem exists_retarget_cons (name : Text) (c : Char) (t : Text) :
    ∃ t', retarget name 0 (c :: t) = c :: t' := by
  rw [retarget]
  split
  · split <;> exact ⟨_, rfl⟩
  · exact ⟨_, rfl⟩

theorem retargetAll_append {names : List Text} {d : Char} (h : ∀ name ∈ names, Separates name d)
    (a b : Text) :
    retargetAll names (a ++ d :: b) = retargetAll names a ++ retargetAll names (d :: b) := by
  induction names generalizing a b with
  | nil => rfl
  | cons name names ih =>
    rw [List.forall_mem_cons] at h
    obtain ⟨b', hb'⟩ := exists_retarget_cons name d b
    rw [retargetAll_cons, retargetAll_cons, retargetAll_cons,
      h.1.retarget_append (Nat.zero_le _), hb', ih h.2]

/-- Pieces that start with a separating character are retargeted one by one. -/
theorem retargetAll_flatten {names : List Text} (first : Text) {rest : List Text}
    (h : ∀ t ∈ rest, ∃ d t', t = d :: t' ∧ ∀ name ∈ names, Separates name d) :
    retargetAll names (first ++ rest.flatten) =
      retargetAll names first ++ (rest.map (retargetAll names)).flatten := by
  induction rest generalizing first with
  | nil => simp
  | cons t rest ih =>
    rw [List.forall_mem_cons] at h
    obtain ⟨⟨d, t', rfl, hd⟩, hrest⟩ := h
    rw [List.flatten_cons, List.cons_append, retargetAll_append hd, ← List.cons_append, ih _ hrest,
      List.map_cons, List.flatten_cons]

end DocFlow.Reference
