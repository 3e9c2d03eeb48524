import Mathlib
import DocFlow.Proofs.Declaration.Reference
import DocFlow.Proofs.TypeExpr.Lexing

namespace DocFlow.Reference

structure IsSimpleName (n : Text) : Prop where
  ne_nil : n ≠ []
  chars : ∀ c ∈ n, isNamePart c = true

instance (n : Text) : Decidable (IsSimpleName n) :=
  letI : Decidable (∀ c ∈ n, isNamePart c = true) := List.decidableBAll _ n
  decidable_of_iff (n ≠ [] ∧ ∀ c ∈ n, isNamePart c = true)
    ⟨fun h => ⟨h.1, h.2⟩, fun h => ⟨h.ne_nil, h.chars⟩⟩

/-- Writes `f w` for the name `w` behind each colon and its gap, and copies all else. -/
def mapReferences (f : Text → Text) : Text → Text
  | [] => []
  | c :: rest =>
    if c = ':' then
      c :: (rest.take (gap rest) ++ (f ((rest.drop (gap rest)).takeWhile isNamePart) ++
        mapReferences f ((rest.drop (gap rest)).dropWhile isNamePart)))
    else c :: mapReferences f rest
termination_by t => t.length
decreasing_by
  · have hdrop := ((rest.drop (gap rest)).dropWhile_sublist isNamePart).length_le
    rw [List.length_drop] at hdrop
    rw [List.length_cons]
    omega
  · exact Nat.lt_succ_self _

def appendOnce (names : List Text) (w : Text) : Text :=
  if names.contains w then w ++ valueSuffix else w

theorem appendOnce_of_mem {names : List Text} {w : Text} (h : w ∈ names) :
    appendOnce names w = w ++ valueSuffix := if_pos (List.contains_iff_mem.2 h)

theorem appendOnce_of_notMem {names : List Text} {w : Text} (h : w ∉ names) :
    appendOnce names w = w := if_neg (mt List.contains_iff_mem.1 h)

/-- The suffixes that a name gets if each of the given names is looked for in turn. -/
def appendInTurn (names : List Text) (w : Text) : Text :=
  names.foldl (fun w n => appendOnce [n] w) w

theorem isBlank_eq_false_of_isNamePart {c : Char} (h : isNamePart c = true) :
    Text.isBlank c = false := by
  by_contra hblank
  have hcode := TypeGrammar.mem_blankCodes (by simpa using hblank)
  have hword : ∀ n ∈ TypeGrammar.blankCodes, Text.inRanges Text.wordRanges n = false ∧ n ≠ 36 := by
    decide +kernel
  obtain ⟨hfalse, hdollar⟩ := hword _ hcode
  rw [isNamePart, Bool.or_eq_true, beq_iff_eq] at h
  rcases h with hpart | rfl
  · rw [Text.isWord, hfalse] at hpart
    exact Bool.false_ne_true hpart
  · exact hdollar (by decide)

theorem isNamePart_colon : isNamePart ':' = false := by decide +kernel

theorem isNamePart_question : isNamePart '?' = false := by decide +kernel

theorem valueSuffix_chars : ∀ c ∈ valueSuffix, isNamePart c = true := by
  have hall : valueSuffix.all isNamePart = true := by decide +kernel
  exact List.all_eq_true.1 hall

theorem IsGap.mem {g : Text} (h : IsGap g) {c : Char} (hc : c ∈ g) :
    Text.isBlank c = true ∨ c = '?' := by
  rcases h with hblank | ⟨a, b, rfl, ha, hb⟩
  · exact .inl (hblank c hc)
  · rw [List.mem_append, List.mem_cons] at hc
    rcases hc with hc | hc | hc
    · exact .inl (ha c hc)
    · exact .inr hc
    · exact .inl (hb c hc)

theorem IsGap.isNamePart {g : Text} (h : IsGap g) {c : Char} (hc : c ∈ g) :
    isNamePart c = false := by
  by_contra hpart
  rw [Bool.not_eq_false] at hpart
  rcases h.mem hc with hblank | rfl
  · rw [isBlank_eq_false_of_isNamePart hpart] at hblank
    contradiction
  · rw [isNamePart_question] at hpart
    contradiction

theorem IsGap.colon_notMem {g : Text} (h : IsGap g) : ':' ∉ g := by
  intro hc
  rcases h.mem hc with hblank | hquestion
  · exact absurd hblank (by decide)
  · exact absurd hquestion (by decide)

/-- A gap ends where the next character does not go on with it. -/
theorem gap_append {g u : Text} (hg : IsGap g) (hu : ∀ c ∈ u.head?, ¬ IsGap (g ++ [c])) :
    gap (g ++ u) = g.length := by
  apply Nat.le_antisymm
  · by_contra hlong
    have hle := gap_le (g ++ u)
    rw [List.length_append] at hle
    cases u with
    | nil => simp only [List.length_nil] at hle; omega
    | cons c u =>
      have htake := isGap_take (t := g ++ c :: u) (n := g.length + 1) (by omega)
      rw [List.take_length_add_append, List.take_succ_cons, List.take_zero] at htake
      exact hu c rfl htake
  · exact length_le_gap hg u

/-- Behind the longest gap stands nothing that goes on with it. -/
theorem not_isGap_behind (t : Text) :
    ∀ c ∈ (t.drop (gap t)).head?, ¬ IsGap (t.take (gap t) ++ [c]) := by
  intro c hc hgap
  obtain ⟨rest, hrest⟩ := List.head?_eq_some_iff.1 hc
  have hlong := length_le_gap hgap rest
  rw [List.append_assoc, List.singleton_append, ← hrest, List.take_append_drop, List.length_append,
    List.length_take, List.length_singleton] at hlong
  have hle := gap_le t
  omega

theorem not_isGap_of_isNamePart {c : Char} (h : isNamePart c = true) (g : Text) :
    ¬ IsGap (g ++ [c]) := by
  intro hgap
  rw [hgap.isNamePart (List.mem_append_right g (List.mem_singleton_self c))] at h
  contradiction

section

variable {name : Text} (h : IsSimpleName name)
include h

/-- A simple name starts a text iff it is all the name characters there. -/
theorem IsSimpleName.startsWithName_iff (t : Text) :
    startsWithName name t = true ↔ t.takeWhile isNamePart = name := by
  rw [startsWithName, Bool.and_eq_true, List.isPrefixOf_iff_prefix]
  constructor
  · rintro ⟨⟨rest, rfl⟩, hends⟩
    rw [List.drop_left] at hends
    rw [List.takeWhile_append_of_pos h.chars]
    cases rest with
    | nil => exact List.append_nil name
    | cons c rest => simp_all
  · intro hname
    have hsplit := List.takeWhile_append_dropWhile (p := isNamePart) (l := t)
    have hhead := List.head?_dropWhile_not isNamePart t
    rw [hname] at hsplit
    rw [← hsplit, List.drop_left]
    refine ⟨List.prefix_append _ _, ?_⟩
    cases hrest : t.dropWhile isNamePart with
    | nil => rfl
    | cons c rest =>
      rw [hrest] at hhead
      simpa using hhead

/-- A reference to a simple name goes up to its end behind the longest gap. -/
theorem IsSimpleName.reach?_eq (t : Text) :
    reach? name t =
      if (t.drop (gap t)).takeWhile isNamePart = name then some (gap t + name.length) else none := by
  rw [reach?]
  split
  · next hname =>
    rw [← h.startsWithName_iff] at hname
    cases hgap : gap t with
    | zero =>
      rw [hgap] at hname
      rw [findName?, if_pos (by simpa using hname), Option.map_some]
    | succ n =>
      rw [hgap] at hname
      rw [findName?, if_pos hname, Option.map_some]
  · next hname =>
    rw [Option.map_eq_none_iff, findName?_eq_none_iff]
    intro k hk
    by_contra hstarts
    rw [Bool.not_eq_false, h.startsWithName_iff] at hstarts
    rcases Nat.lt_or_eq_of_le hk with hlt | rfl
    · -- The character at `k` belongs to the gap, so no name starts there.
      have hle := gap_le t
      have hmem : t[k] ∈ t.take (gap t) := by
        rw [List.mem_take_iff_getElem]
        exact ⟨k, by omega, rfl⟩
      have hpart := (isGap_take (Nat.le_refl _)).isNamePart hmem
      rw [List.drop_eq_getElem_cons (by omega), List.takeWhile_cons_of_neg (by simp [hpart])]
        at hstarts
      exact h.ne_nil hstarts.symm
    · exact hname hstarts

end

theorem retarget_skip (name rest front : Text) (hfront : front ≠ []) :
    retarget name front.length (front ++ rest) =
      front ++ (valueSuffix ++ retarget name 0 rest) := by
  induction front with
  | nil => contradiction
  | cons c front ih =>
    cases front with
    | nil => simp only [List.length_singleton, List.singleton_append, retarget]
    | cons d front =>
      have hskip := ih (List.cons_ne_nil d front)
      simp only [List.length_cons, List.cons_append, retarget] at hskip ⊢
      rw [hskip]

theorem retarget_of_no_colon (name rest : Text) {front : Text} (hfront : ':' ∉ front) :
    retarget name 0 (front ++ rest) = front ++ retarget name 0 rest := by
  induction front with
  | nil => rfl
  | cons c front ih =>
    rw [List.mem_cons, not_or] at hfront
    rw [List.cons_append, retarget, if_neg (Ne.symm hfront.1), ih hfront.2, List.cons_append]

/-- A text is its gap, the name behind it, and the rest. -/
theorem split_behind_gap (t : Text) :
    t.take (gap t) ++ ((t.drop (gap t)).takeWhile isNamePart ++
        (t.drop (gap t)).dropWhile isNamePart) =
      t := by
  rw [List.takeWhile_append_dropWhile, List.take_append_drop]

/-- The pass of one name. -/
theorem IsSimpleName.retarget_eq {name : Text} (h : IsSimpleName name) (t : Text) :
    retarget name 0 t = mapReferences (appendOnce [name]) t := by
  fun_induction mapReferences (appendOnce [name]) t with
  | case1 => rfl
  | case2 rest ih =>
    have hgap := isGap_take (Nat.le_refl (gap rest))
    have hsplit := split_behind_gap rest
    have hreach := h.reach?_eq rest
    rw [retarget, if_pos rfl, hreach, ← ih]
    by_cases hname : (rest.drop (gap rest)).takeWhile isNamePart = name
    · rw [if_pos hname]
      rw [hname] at hsplit ⊢
      have hpos := List.length_pos_of_ne_nil h.ne_nil
      have hlength : gap rest + name.length = (rest.take (gap rest) ++ name).length := by
        rw [List.length_append, List.length_take, Nat.min_eq_left (gap_le rest)]
      obtain ⟨n, hn⟩ : ∃ n, gap rest + name.length = n + 1 := ⟨gap rest + name.length - 1, by omega⟩
      have hskip := retarget_skip name ((rest.drop (gap rest)).dropWhile isNamePart)
        (rest.take (gap rest) ++ name) (by simp [h.ne_nil])
      rw [← hlength, hn, List.append_assoc, hsplit] at hskip
      rw [hn]
      dsimp only
      rw [hskip, appendOnce_of_mem (List.mem_singleton_self name)]
      simp only [List.append_assoc]
    · have hcopy : ':' ∉ rest.take (gap rest) ++ (rest.drop (gap rest)).takeWhile isNamePart := by
        rw [List.mem_append, not_or]
        refine ⟨hgap.colon_notMem, fun hmem => ?_⟩
        have hcolon := List.mem_takeWhile_imp hmem
        rw [isNamePart_colon] at hcolon
        contradiction
      have hkeep := retarget_of_no_colon name ((rest.drop (gap rest)).dropWhile isNamePart) hcopy
      rw [List.append_assoc, hsplit] at hkeep
      rw [if_neg hname, hkeep, appendOnce_of_notMem (by simpa using hname), List.append_assoc]
  | case3 c rest hc ih => rw [retarget, if_neg hc, ih]

/-- What is written for names is names again, and nothing where there is none. -/
structure KeepsNames (f : Text → Text) : Prop where
  nil : f [] = []
  simple : ∀ w, IsSimpleName w → IsSimpleName (f w)

theorem head?_mapReferences (f : Text → Text) (t : Text) : (mapReferences f t).head? = t.head? := by
  cases t with
  | nil => rw [mapReferences]
  | cons c rest =>
    rw [mapReferences]
    split <;> rfl

theorem KeepsNames.simple_takeWhile {f : Text → Text} (hf : KeepsNames f) (t : Text) :
    (∀ c ∈ f (t.takeWhile isNamePart), isNamePart c = true) ∧
      (f (t.takeWhile isNamePart) = [] → t.takeWhile isNamePart = []) := by
  by_cases hnil : t.takeWhile isNamePart = []
  · rw [hnil, hf.nil]
    exact ⟨List.forall_mem_nil _, fun _ => rfl⟩
  · have hname := hf.simple _ ⟨hnil, fun c hc => List.mem_takeWhile_imp hc⟩
    exact ⟨hname.chars, fun h => absurd h hname.ne_nil⟩

/-- Two passes are one, if the first one leaves names where they are. -/
theorem KeepsNames.mapReferences_mapReferences {f : Text → Text} (hf : KeepsNames f)
    (f' : Text → Text) (t : Text) :
    mapReferences f' (mapReferences f t) = mapReferences (f' ∘ f) t := by
  fun_induction mapReferences f t with
  | case1 => rw [mapReferences, mapReferences]
  | case2 rest ih =>
    obtain ⟨hchars, hempty⟩ := hf.simple_takeWhile (rest.drop (gap rest))
    have hhead := head?_mapReferences f ((rest.drop (gap rest)).dropWhile isNamePart)
    have hends := List.head?_dropWhile_not isNamePart (rest.drop (gap rest))
    have hbehind := not_isGap_behind rest
    have hsplit := List.takeWhile_append_dropWhile (p := isNamePart) (l := rest.drop (gap rest))
    have hlength : (rest.take (gap rest)).length = gap rest := by
      rw [List.length_take, Nat.min_eq_left (gap_le rest)]
    generalize hw : f ((rest.drop (gap rest)).takeWhile isNamePart) = w at hchars hempty
    generalize mapReferences f ((rest.drop (gap rest)).dropWhile isNamePart) = more at hhead ih
    have hgap : gap (rest.take (gap rest) ++ (w ++ more)) = (rest.take (gap rest)).length := by
      apply gap_append (isGap_take (Nat.le_refl _))
      cases w with
      | nil =>
        -- No name stands there, so the gap ends as it did before the first pass.
        rw [hempty rfl, List.nil_append] at hsplit
        rw [List.nil_append, hhead, hsplit]
        exact hbehind
      | cons d w =>
        intro d' hd
        obtain rfl := Option.some.inj hd
        exact not_isGap_of_isNamePart (hchars d List.mem_cons_self) _
    have hmore : more.takeWhile isNamePart = [] ∧ more.dropWhile isNamePart = more := by
      rw [← hhead] at hends
      cases more with
      | nil => exact ⟨rfl, rfl⟩
      | cons d more =>
        have hd : isNamePart d = false := by simpa using hends
        exact ⟨List.takeWhile_cons_of_neg (by simp [hd]), List.dropWhile_cons_of_neg (by simp [hd])⟩
    rw [mapReferences, if_pos rfl, hgap, List.take_left, List.drop_left,
      List.takeWhile_append_of_pos hchars, List.dropWhile_append_of_pos hchars, hmore.1, hmore.2, ih,
      List.append_nil, mapReferences, if_pos rfl, Function.comp_apply, hw]
  | case3 c rest hc ih => rw [mapReferences, if_neg hc, ih, mapReferences, if_neg hc]

theorem mapReferences_id (t : Text) : mapReferences id t = t := by
  fun_induction mapReferences id t with
  | case1 => rfl
  | case2 rest ih => rw [ih, id_eq, split_behind_gap]
  | case3 c rest hc ih => rw [ih]

theorem mapReferences_congr {f f' : Text → Text} (h : ∀ w, f w = f' w) (t : Text) :
    mapReferences f t = mapReferences f' t := by
  obtain rfl : f = f' := funext h
  rfl

/-- A pass over a colon and a name. -/
theorem IsSimpleName.mapReferences_eq {w : Text} (h : IsSimpleName w) (f : Text → Text) :
    mapReferences f (':' :: w) = ':' :: f w := by
  have hgap : gap w = 0 := by
    apply gap_append (g := []) (.inl (List.forall_mem_nil _))
    intro c hc
    exact not_isGap_of_isNamePart (h.chars c (List.mem_of_mem_head? hc)) []
  have htake : w.takeWhile isNamePart = w := List.takeWhile_eq_self_iff.2 h.chars
  have hdrop : w.dropWhile isNamePart = [] := List.dropWhile_eq_nil_iff.2 h.chars
  rw [mapReferences, if_pos rfl, hgap, List.drop_zero, htake, hdrop, mapReferences]
  simp

theorem appendOnce_keepsNames {names : List Text} (h : [] ∉ names) :
    KeepsNames (appendOnce names) := by
  constructor
  · exact appendOnce_of_notMem h
  · intro w hw
    rw [appendOnce]
    split
    · refine ⟨List.append_ne_nil_of_left_ne_nil hw.ne_nil _, ?_⟩
      rw [List.forall_mem_append]
      exact ⟨hw.chars, valueSuffix_chars⟩
    · exact hw

theorem appendInTurn_cons (n : Text) (names : List Text) (w : Text) :
    appendInTurn (n :: names) w = appendInTurn names (appendOnce [n] w) :=
  rfl

/-- The passes of several names are one pass, with the suffixes that a name gets in turn. -/
theorem retargetAll_eq_mapReferences {names : List Text} (simple : ∀ n ∈ names, IsSimpleName n)
    (t : Text) : retargetAll names t = mapReferences (appendInTurn names) t := by
  induction names generalizing t with
  | nil => exact (mapReferences_id t).symm
  | cons n names ih =>
    rw [List.forall_mem_cons] at simple
    have hkeeps : KeepsNames (appendOnce [n]) :=
      appendOnce_keepsNames (by simpa using simple.1.ne_nil.symm)
    rw [retargetAll_cons, ih simple.2, simple.1.retarget_eq, hkeeps.mapReferences_mapReferences]
    rfl

theorem appendInTurn_of_notMem {names : List Text} {w : Text} (h : w ∉ names) :
    appendInTurn names w = w := by
  induction names with
  | nil => rfl
  | cons n names ih =>
    rw [List.mem_cons, not_or] at h
    rw [appendInTurn_cons, appendOnce_of_notMem (by simpa using h.1), ih h.2]

theorem length_le_appendInTurn (names : List Text) (w : Text) :
    w.length ≤ (appendInTurn names w).length := by
  induction names generalizing w with
  | nil => exact Nat.le_refl _
  | cons n names ih =>
    have hrest := ih (appendOnce [n] w)
    have hfirst : w.length ≤ (appendOnce [n] w).length := by
      rw [appendOnce]
      split
      · rw [List.length_append]
        omega
      · exact Nat.le_refl _
    rw [appendInTurn_cons]
    omega

theorem length_lt_appendInTurn {names : List Text} {w : Text} (h : w ∈ names) :
    w.length < (appendInTurn names w).length := by
  induction names with
  | nil => contradiction
  | cons n names ih =>
    rw [appendInTurn_cons]
    by_cases hn : w = n
    · have hrest := length_le_appendInTurn names (w ++ valueSuffix)
      have hsuffix : valueSuffix.length = 5 := rfl
      rw [List.length_append] at hrest
      rw [appendOnce_of_mem (by simpa using hn)]
      omega
    · rw [appendOnce_of_notMem (by simpa using hn)]
      exact ih ((List.mem_cons.1 h).resolve_left hn)

/-- No name gets a second suffix iff none is followed by itself with the suffix. -/
theorem appendInTurn_eq_appendOnce_iff {names : List Text} (distinct : names.Nodup) :
    (∀ w ∈ names, appendInTurn names w = appendOnce names w) ↔
      names.Pairwise fun a b => b ≠ a ++ valueSuffix := by
  induction names with
  | nil => exact iff_of_true (List.forall_mem_nil _) List.Pairwise.nil
  | cons n names ih =>
    rw [List.nodup_cons] at distinct
    have hfirst : appendInTurn names (n ++ valueSuffix) = n ++ valueSuffix ↔
        ∀ b ∈ names, b ≠ n ++ valueSuffix := by
      constructor
      · rintro hsame b hb rfl
        have hlonger := length_lt_appendInTurn hb
        rw [hsame] at hlonger
        omega
      · intro hother
        apply appendInTurn_of_notMem
        exact fun hmem => hother _ hmem rfl
    rw [List.forall_mem_cons, List.pairwise_cons, ← ih distinct.2, ← hfirst, appendInTurn_cons,
      appendOnce_of_mem (List.mem_singleton_self n), appendOnce_of_mem List.mem_cons_self]
    apply and_congr_right
    intro _
    apply forall₂_congr
    intro w hw
    have hne : w ≠ n := fun heq => distinct.1 (heq ▸ hw)
    rw [appendInTurn_cons, appendOnce_of_notMem (by simpa using hne), appendOnce_of_mem hw,
      appendOnce_of_mem (List.mem_cons_of_mem n hw)]

/-- The passes append a suffix once in every text iff in turn they append once to each of the names:
what is written for a name alone behind a colon shows what they do with it. -/
theorem retargetAll_eq_appendOnce_iff {names : List Text} (simple : ∀ n ∈ names, IsSimpleName n) :
    (∀ t, retargetAll names t = mapReferences (appendOnce names) t) ↔
      ∀ w ∈ names, appendInTurn names w = appendOnce names w := by
  constructor
  · intro h w hw
    have hcolon := h (':' :: w)
    rw [retargetAll_eq_mapReferences simple, (simple w hw).mapReferences_eq,
      (simple w hw).mapReferences_eq] at hcolon
    exact (List.cons.inj hcolon).2
  · intro h t
    rw [retargetAll_eq_mapReferences simple]
    apply mapReferences_congr
    intro w
    by_cases hw : w ∈ names
    · exact h w hw
    · rw [appendInTurn_of_notMem hw, appendOnce_of_notMem hw]

theorem appendOnce_perm {names names' : List Text} (h : names'.Perm names) :
    appendOnce names' = appendOnce names := by
  funext w
  simp only [appendOnce, h.contains_eq]

/-- With a name and the name with the suffix in the list, the one that is looked for first makes a
difference. -/
theorem exists_perm_of_mem {names : List Text} (distinct : names.Nodup)
    (simple : ∀ n ∈ names, IsSimpleName n) {a : Text} (ha : a ∈ names)
    (hsuffixed : a ++ valueSuffix ∈ names) :
    ∃ first second, first.Perm names ∧ second.Perm names ∧
      retargetAll first (':' :: a) ≠ retargetAll second (':' :: a) := by
  have hne : a ++ valueSuffix ≠ a := by
    intro heq
    have hlength := congrArg List.length heq
    have hsuffix : valueSuffix.length = 5 := rfl
    rw [List.length_append] at hlength
    omega
  obtain ⟨others, hothers⟩ : ∃ others, (a :: (a ++ valueSuffix) :: others).Perm names := by
    refine ⟨(names.erase a).erase (a ++ valueSuffix), ?_⟩
    have hmem : a ++ valueSuffix ∈ names.erase a := (List.mem_erase_of_ne hne).2 hsuffixed
    exact ((List.perm_cons_erase ha).trans ((List.perm_cons_erase hmem).cons a)).symm
  have hswapped : ((a ++ valueSuffix) :: a :: others).Perm names :=
    (List.Perm.swap a (a ++ valueSuffix) others).trans hothers
  have hnodup := hswapped.nodup_iff.2 distinct
  rw [List.nodup_cons, List.mem_cons, not_or] at hnodup
  refine ⟨_, _, hothers, hswapped, ?_⟩
  intro hsame
  rw [retargetAll_eq_mapReferences fun n hn => simple n (hothers.mem_iff.1 hn),
    retargetAll_eq_mapReferences fun n hn => simple n (hswapped.mem_iff.1 hn),
    (simple a ha).mapReferences_eq, (simple a ha).mapReferences_eq] at hsame
  have hfirst : appendInTurn (a :: (a ++ valueSuffix) :: others) a =
      appendInTurn ((a ++ valueSuffix) :: others) (a ++ valueSuffix) := by
    rw [appendInTurn_cons, appendOnce_of_mem (List.mem_singleton_self a)]
  have hsecond : appendInTurn ((a ++ valueSuffix) :: a :: others) a = a ++ valueSuffix := by
    have hother : a ∉ [a ++ valueSuffix] := fun hmem => hne (List.mem_singleton.1 hmem).symm
    rw [appendInTurn_cons, appendOnce_of_notMem hother, appendInTurn_cons,
      appendOnce_of_mem (List.mem_singleton_self a), appendInTurn_of_notMem hnodup.1.2]
  have hlonger : (a ++ valueSuffix).length <
      (appendInTurn ((a ++ valueSuffix) :: others) (a ++ valueSuffix)).length :=
    length_lt_appendInTurn List.mem_cons_self
  rw [List.cons_inj_right, hfirst, hsecond] at hsame
  rw [hsame] at hlonger
  omega

/-- The passes of several names are one pass, in which each name behind a colon gets the suffixes that
are due in turn. Each name gets its suffix once iff none is followed by itself with the suffix, and
the order of the names makes no difference iff none is there both with the suffix and without. -/
theorem retargetAll_in_one_pass {names : List Text} (distinct : names.Nodup)
    (simple : ∀ n ∈ names, IsSimpleName n) :
    (∀ t, retargetAll names t = mapReferences (appendInTurn names) t) ∧
      ((∀ t, retargetAll names t = mapReferences (appendOnce names) t) ↔
        names.Pairwise fun a b => b ≠ a ++ valueSuffix) ∧
      ((∀ names', names'.Perm names → ∀ t, retargetAll names' t = retargetAll names t) ↔
        ∀ a ∈ names, a ++ valueSuffix ∉ names) := by
  refine ⟨retargetAll_eq_mapReferences simple, ?_, ?_⟩
  · rw [retargetAll_eq_appendOnce_iff simple, appendInTurn_eq_appendOnce_iff distinct]
  · constructor
    · intro hsame a ha hsuffixed
      obtain ⟨first, second, hfirst, hsecond, hne⟩ :=
        exists_perm_of_mem distinct simple ha hsuffixed
      apply hne
      rw [hsame first hfirst, hsame second hsecond]
    · intro happart names' hperm t
      have honce (ns : List Text) (hns : ns.Perm names) (t : Text) :
          retargetAll ns t = mapReferences (appendOnce ns) t := by
        have hsimple : ∀ n ∈ ns, IsSimpleName n := fun n hn => simple n (hns.mem_iff.1 hn)
        apply (retargetAll_eq_appendOnce_iff hsimple).2
        rw [appendInTurn_eq_appendOnce_iff (hns.nodup_iff.2 distinct)]
        apply List.pairwise_of_forall_mem_list
        rintro a ha b hb rfl
        exact happart a (hns.mem_iff.1 ha) (hns.mem_iff.1 hb)
      rw [honce names' hperm, honce names (List.Perm.refl names), appendOnce_perm hperm]

/-- Two enums whose names are apart are retargeted at the same time. -/
theorem retargetAll_of_apart_names :
    ["Color".toList, "Shape".toList].Nodup ∧
      (∀ n ∈ ["Color".toList, "Shape".toList], IsSimpleName n) ∧
      retargetAll ["Color".toList, "Shape".toList] "(c: ?Color, s: Shape): ColorScheme".toList =
        mapReferences (appendOnce ["Color".toList, "Shape".toList])
          "(c: ?Color, s: Shape): ColorScheme".toList ∧
      retargetAll ["Shape".toList, "Color".toList] "(c: ?Color, s: Shape): ColorScheme".toList =
        "(c: ?ColorValue, s: ShapeValue): ColorScheme".toList := by
  have distinct : ["Color".toList, "Shape".toList].Nodup := by decide
  have simple : ∀ n ∈ ["Color".toList, "Shape".toList], IsSimpleName n := by
    have hall : ["Color".toList, "Shape".toList].all (fun n => decide (IsSimpleName n)) = true := by
      decide +kernel
    simpa using hall
  obtain ⟨-, honce, horder⟩ := retargetAll_in_one_pass distinct simple
  refine ⟨distinct, simple, honce.2 (by decide) _, ?_⟩
  rw [horder.2 (by decide) _ (List.Perm.swap _ _ [])]
  decide +kernel

/-- A reference to an enum gets a second suffix from a later enum that is named like the type of its
values, and it gets one suffix if the later one comes first. -/
theorem retargetAll_of_name_with_suffix :
    retargetAll ["C".toList, "CValue".toList] ": C".toList = ": CValueValue".toList ∧
      retargetAll ["CValue".toList, "C".toList] ": C".toList = ": CValue".toList ∧
      mapReferences (appendOnce ["C".toList, "CValue".toList]) ": C".toList = ": CValue".toList := by
  refine ⟨by decide +kernel, by decide +kernel, ?_⟩
  decide +kernel

end DocFlow.Reference
