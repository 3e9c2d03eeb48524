import DocFlow.Proofs.Declaration.Qualifier
import DocFlow.Proofs.Outcome
import DocFlow.Proofs.TypeExpr.Naming

namespace DocFlow.TypeExpr

mutual

def mapNames (f : Text → Text) : TypeExpr → TypeExpr
  | .named n => .named (f n)
  | .generic base arguments => .generic (mapNames f base) (mapNamesEach f arguments)
  | .union ts => .union (mapNamesEach f ts)
  | .nullable inner side => .nullable (mapNames f inner) side
  | .nonNullable inner => .nonNullable (mapNames f inner)
  | .optional inner => .optional (mapNames f inner)
  | .rest inner => .rest (mapNamesIn f inner)
  | .tuple elements => .tuple (mapNamesEach f elements)
  | .record fields => .record (mapNamesFields f fields)
  | .function params result this new =>
    .function (mapNamesEach f params) (mapNamesIn f result) (mapNamesIn f this) (mapNamesIn f new)
  | .any => .any
  | .unknown => .unknown
  | .null => .null
  | .undefined => .undefined
  | .void => .void
  | .string value => .string value
  | .integer value => .integer value
  | .double value => .double value

def mapNamesEach (f : Text → Text) : List TypeExpr → List TypeExpr
  | [] => []
  | t :: ts => mapNames f t :: mapNamesEach f ts

def mapNamesIn (f : Text → Text) : Option TypeExpr → Option TypeExpr
  | none => none
  | some t => some (mapNames f t)

def mapNamesFields (f : Text → Text) : List (Text × Option TypeExpr) → List (Text × Option TypeExpr)
  | [] => []
  | field :: fields => mapNamesField f field :: mapNamesFields f fields

def mapNamesField (f : Text → Text) : Text × Option TypeExpr → Text × Option TypeExpr
  | (key, value) => (key, mapNamesIn f value)

end

mutual

def flowNames : TypeExpr → List Text
  | .named n => [n]
  | .generic base arguments =>
    match genericText (flow base) (flowFirst arguments) with
    | none => []
    | some _ => flowNames base ++ flowNamesFirst arguments
  | .union ts => flowNamesEach ts
  | .nullable inner _ => flowNames inner
  | .optional inner => flowNames inner
  | _ => []

def flowNamesFirst : List TypeExpr → List Text
  | [] => []
  | t :: _ => flowNames t

def flowNamesEach : List TypeExpr → List Text
  | [] => []
  | t :: ts => flowNames t ++ flowNamesEach ts

end

section Formless

variable {f : Text → Text}

/-- A generic type is formless if one of its parts has no text or an empty one. -/
theorem genericText_eq_none_iff {base argument : Option Text} :
    genericText base argument = none ↔ (∀ s ∈ base, s = []) ∨ (∀ s ∈ argument, s = []) := by
  cases base with
  | none => simp [genericText]
  | some base =>
    cases argument with
    | none => simp [genericText]
    | some argument =>
      rw [genericText, ite_eq_left_iff]
      simp [Decidable.or_iff_not_imp_left]

theorem genericText_ne_nil {base argument : Option Text} {s : Text}
    (h : genericText base argument = some s) : s ≠ [] := by
  cases base with
  | none => cases h
  | some base =>
    cases argument with
    | none => cases h
    | some argument =>
      rw [genericText] at h
      split at h
      · cases h
      · cases h
        simp

theorem genericText_of_empty {base argument : Text} (h : argument = []) :
    genericText (some base) (some argument) = none :=
  if_pos (.inr h)

theorem genericText_of_ne_nil {base argument : Text} (hbase : base ≠ []) (hargument : argument ≠ []) :
    genericText (some base) (some argument) = some (base ++ '<' :: (argument ++ ['>'])) :=
  if_neg (not_or.2 ⟨hbase, hargument⟩)

theorem eq_none_of_question {inner : Option Text} (h : ∀ s ∈ inner.map ('?' :: ·), s = []) :
    inner = none := by
  cases inner with
  | none => rfl
  | some s => exact absurd (h _ rfl) (List.cons_ne_nil _ _)

theorem join_eq_nil {sep : Text} (hsep : sep ≠ []) {ts : List Text} (h : Text.join sep ts = []) :
    ∀ t ∈ ts, t = [] := by
  rcases ts with _ | ⟨t, _ | ⟨u, ts⟩⟩
  · exact nofun
  · exact List.forall_mem_singleton.2 h
  · simp [Text.join, hsep] at h

mutual

/-- A type without a text, or with an empty one, keeps it with other names in it. Nothing is known of
the names in such a type. -/
theorem flow_mapNames_of_empty (hf : f [] = []) :
    (e : TypeExpr) → (∀ s ∈ e.flow, s = []) → (e.mapNames f).flow = e.flow
  | .named n, h => by
    obtain rfl : n = [] := h n rfl
    rw [mapNames, hf]
  | .generic base arguments, h => by
    rw [flow] at h
    have hnone : genericText base.flow (flowFirst arguments) = none :=
      Option.eq_none_iff_forall_not_mem.2 fun s hs => genericText_ne_nil hs (h s hs)
    rw [mapNames, flow, flow, hnone, genericText_eq_none_iff]
    rcases genericText_eq_none_iff.1 hnone with hbase | harguments
    · rw [flow_mapNames_of_empty hf base hbase]
      exact .inl hbase
    · rw [flowFirst_mapNames_of_empty hf arguments harguments]
      exact .inr harguments
  | .union es, h => by
    have hempty := join_eq_nil (by decide) (h _ rfl)
    rw [mapNames, flow, flow, flowEach_mapNames_of_empty hf es hempty]
  | .nullable inner side, h => by
    have hnone := eq_none_of_question h
    rw [mapNames, flow, flow, flow_mapNames_of_empty hf inner (by simp [hnone])]
  | .optional inner, h => by
    have hnone := eq_none_of_question h
    rw [mapNames, flow, flow, flow_mapNames_of_empty hf inner (by simp [hnone])]
  | .nonNullable _, _ | .rest _, _ | .tuple _, _ | .record _, _ | .function .., _ | .any, _
  | .unknown, _ | .null, _ | .undefined, _ | .void, _ | .string _, _ | .integer _, _
  | .double _, _ => by
    simp only [mapNames, flow]

theorem flowFirst_mapNames_of_empty (hf : f [] = []) :
    (es : List TypeExpr) → (∀ s ∈ flowFirst es, s = []) →
      flowFirst (mapNamesEach f es) = flowFirst es
  | [], _ => rfl
  | e :: _, h => flow_mapNames_of_empty hf e h

theorem flowEach_mapNames_of_empty (hf : f [] = []) :
    (es : List TypeExpr) → (∀ s ∈ flowEach es, s = []) →
      flowEach (mapNamesEach f es) = flowEach es
  | [], _ => rfl
  | e :: es, h => by
    rw [flowEach] at h
    rw [mapNamesEach, flowEach, flowEach]
    cases hflow : e.flow with
    | none =>
      rw [hflow] at h
      rw [flow_mapNames_of_empty hf e (by simp [hflow]), hflow]
      exact flowEach_mapNames_of_empty hf es h
    | some s =>
      rw [hflow, List.forall_mem_cons] at h
      rw [flow_mapNames_of_empty hf e (by simp [hflow, h.1]), hflow,
        flowEach_mapNames_of_empty hf es h.2]

end

theorem flowNames_of_flow_none : (e : TypeExpr) → e.flow = none → e.flowNames = []
  | .named _, h | .union _, h => nomatch h
  | .generic base arguments, h => by
    rw [flow] at h
    rw [flowNames, h]
  | .nullable inner _, h | .optional inner, h => by
    rw [flowNames]
    rw [flow, Option.map_eq_none_iff] at h
    exact flowNames_of_flow_none inner h
  | .nonNullable _, _ | .rest _, _ | .tuple _, _ | .record _, _ | .function .., _ | .any, _
  | .unknown, _ | .null, _ | .undefined, _ | .void, _ | .string _, _ | .integer _, _
  | .double _, _ => by
    rw [flowNames]
    all_goals nofun

end Formless

open Reference

/-- Two Flow texts that differ in their names only: the second has `f n` for each name `n` of the
first. No name is empty in either text. -/
inductive Renamed (f : Text → Text) : List Text → Text → Text → Prop where
  | nil : Renamed f [] [] []
  | any : Renamed f [] "any".toList "any".toList
  | name {n} (ne : n ≠ []) (ne' : f n ≠ []) : Renamed f [n] n (f n)
  | question {ns s s'} (inner : Renamed f ns s s') : Renamed f ns ('?' :: s) ('?' :: s')
  | generic {ns ns' s s' t t'} (base : Renamed f ns s s') (argument : Renamed f ns' t t') :
    Renamed f (ns ++ ns') (s ++ '<' :: (t ++ ['>'])) (s' ++ '<' :: (t' ++ ['>']))
  | bar {ns ns' s s' t t'} (first : Renamed f ns s s') (more : Renamed f ns' t t') :
    Renamed f (ns ++ ns') (s ++ " | ".toList ++ t) (s' ++ " | ".toList ++ t')

namespace Renamed

variable {f g : Text → Text} {ns : List Text} {s s' : Text}

theorem congr (h : Renamed f ns s s') (heq : ∀ n ∈ ns, f n = g n) : Renamed g ns s s' := by
  induction h with
  | nil => exact .nil
  | any => exact .any
  | @name n ne ne' =>
    rw [heq n List.mem_cons_self] at ne' ⊢
    exact .name ne ne'
  | question _ ih => exact .question (ih heq)
  | generic _ _ ih ih' =>
    rw [List.forall_mem_append] at heq
    exact .generic (ih heq.1) (ih' heq.2)
  | bar _ _ ih ih' =>
    rw [List.forall_mem_append] at heq
    exact .bar (ih heq.1) (ih' heq.2)

theorem eq_nil_iff (h : Renamed f ns s s') : s' = [] ↔ s = [] := by
  cases h with
  | nil => exact Iff.rfl
  | any => exact Iff.rfl
  | name ne ne' => exact iff_of_false ne' ne
  | question => simp
  | generic => simp
  | bar => simp

theorem names_eq_nil (h : Renamed f ns s s') (hs : s = []) : ns = [] := by
  cases h with
  | nil => rfl
  | any => rfl
  | name ne => exact absurd hs ne
  | question => exact absurd hs (List.cons_ne_nil _ _)
  | generic => simp at hs
  | bar => simp at hs

/-- What the text gains, its names gain. -/
theorem length_eq (h : Renamed f ns s s') :
    s'.length + (ns.map List.length).sum = s.length + (ns.map fun n => (f n).length).sum := by
  induction h with
  | nil | any => rfl
  | name => simp [Nat.add_comm]
  | question _ ih =>
    rw [List.length_cons, List.length_cons]
    omega
  | generic _ _ ih ih' | bar _ _ ih ih' =>
    simp only [List.length_append, List.length_cons, List.map_append, List.sum_append]
    omega

/-- The qualifier of a module is dropped from each name by itself. -/
theorem eq_unqualify {m : Text} (hm : IsIdentifier m)
    (h : Renamed (unqualify (some m)) ns s s') : s' = unqualify (some m) s := by
  induction h with
  | nil => exact hm.unqualify_nil.symm
  | any => exact (hm.unqualify_of_no_point (by decide)).symm
  | name => rfl
  | question _ ih => rw [hm.unqualify_cons (by decide), ih]
  | @generic _ _ s _ t _ _ _ ih ih' =>
    have hopen : IsSign '<' := by decide
    have hclose : IsSign '>' := by decide
    rw [hm.unqualify_append (hopen.startsApart _), hm.unqualify_cons hopen,
      hm.unqualify_append (hclose.startsApart _), hm.unqualify_cons hclose, hm.unqualify_nil, ih, ih']
  | @bar _ _ s _ t _ _ _ ih ih' =>
    have hblank : IsSign ' ' := by decide
    have hbar : IsSign '|' := by decide
    have hsigns : unqualify (some m) (' ' :: '|' :: ' ' :: t) =
        ' ' :: '|' :: ' ' :: unqualify (some m) t := by
      rw [hm.unqualify_cons hblank, hm.unqualify_cons hbar, hm.unqualify_cons hblank]
    have hapart : StartsApart (" | ".toList ++ t) := hblank.startsApart ('|' :: ' ' :: t)
    rw [List.append_assoc, List.append_assoc, hm.unqualify_append hapart, ih, ih']
    exact congrArg (_ ++ ·) hsigns.symm

end Renamed

section Relation

variable {f : Text → Text}

/-- A bar is written before all members but the first one that has a text. -/
theorem Renamed.join_cons {ns ns' : List Text} {s s' : Text} {ts ts' : List Text}
    (first : Renamed f ns s s')
    (more : Renamed f ns' (Text.join " | ".toList ts) (Text.join " | ".toList ts'))
    (hempty : ts' = [] ↔ ts = []) :
    Renamed f (ns ++ ns') (Text.join " | ".toList (s :: ts)) (Text.join " | ".toList (s' :: ts')) := by
  cases ts with
  | nil =>
    rw [hempty.2 rfl, more.names_eq_nil rfl, List.append_nil]
    exact first
  | cons t ts =>
    cases ts' with
    | nil => cases hempty.1 rfl
    | cons t' ts' => exact first.bar more

theorem renamed_join {es : List TypeExpr}
    (h : ∀ e ∈ es, Option.Rel (Renamed f e.flowNames) e.flow (e.mapNames f).flow) :
    Renamed f (flowNamesEach es) (Text.join " | ".toList (flowEach es))
        (Text.join " | ".toList (flowEach (mapNamesEach f es))) ∧
      (flowEach (mapNamesEach f es) = [] ↔ flowEach es = []) := by
  induction es with
  | nil => exact ⟨.nil, Iff.rfl⟩
  | cons e es ih =>
    rw [List.forall_mem_cons] at h
    obtain ⟨hfirst, hmore⟩ := h
    obtain ⟨hrenamed, hempty⟩ := ih hmore
    rw [flowNamesEach, mapNamesEach, flowEach, flowEach]
    generalize hflow : e.flow = o at hfirst
    generalize (e.mapNames f).flow = o' at hfirst
    cases hfirst with
    | none =>
      rw [flowNames_of_flow_none e hflow]
      exact ⟨hrenamed, hempty⟩
    | some hfirst =>
      exact ⟨hfirst.join_cons hrenamed hempty, iff_of_false (List.cons_ne_nil _ _)
        (List.cons_ne_nil _ _)⟩

/-- The names of a type are those of its Flow text, and the text of the type with other names in it
has those in their places. -/
theorem renamed_of_namedBy {ok : Text → Prop} (hf : f [] = [])
    (hok : ∀ n, ok n → n ≠ [] ∧ f n ≠ []) {e : TypeExpr} (h : e.NamedBy ok) :
    Option.Rel (Renamed f e.flowNames) e.flow (e.mapNames f).flow := by
  induction h with
  | formless none =>
    rw [flow_mapNames_of_empty hf _ (by simp [none]), none]
    exact .none
  | any => exact .some .any
  | named _ name => exact .some (.name (hok _ name).1 (hok _ name).2)
  | @generic n es _ name _ ih =>
    simp only [flowNames, mapNames, flow]
    cases es with
    | nil => exact .none
    | cons e es =>
      have hargument := ih e List.mem_cons_self
      rw [mapNamesEach, flowFirst, flowFirst, flowNamesFirst]
      generalize e.flow = o at hargument
      generalize (e.mapNames f).flow = o' at hargument
      cases hargument with
      | none => exact .none
      | some hargument =>
        rename_i t t'
        obtain ⟨hne, hne'⟩ := hok n name
        -- An empty argument makes the whole type formless, and then none of its names count.
        by_cases ht : t = []
        · have ht' := hargument.eq_nil_iff.2 ht
          rw [genericText_of_empty ht, genericText_of_empty ht']
          exact .none
        · have ht' := hargument.eq_nil_iff.not.2 ht
          rw [genericText_of_ne_nil hne ht, genericText_of_ne_nil hne' ht']
          exact .some ((Renamed.name hne hne').generic hargument)
  | union _ ih => exact .some (renamed_join ih).1
  | @nullable e _ _ ih | @optional e _ ih =>
    rw [flowNames, mapNames, flow, flow]
    generalize e.flow = o at ih
    generalize (e.mapNames f).flow = o' at ih
    cases ih with
    | none => exact .none
    | some h => exact .some h.question

theorem flowNamesEach_of_mem {ok : Text → Prop} {es : List TypeExpr}
    (h : ∀ e ∈ es, ∀ n ∈ e.flowNames, ok n) : ∀ n ∈ flowNamesEach es, ok n := by
  induction es with
  | nil => exact nofun
  | cons e es ih =>
    rw [List.forall_mem_cons] at h
    rw [flowNamesEach, List.forall_mem_append]
    exact ⟨h.1, ih h.2⟩

theorem flowNames_of_namedBy {ok : Text → Prop} {e : TypeExpr} (h : e.NamedBy ok) :
    ∀ n ∈ e.flowNames, ok n := by
  induction h with
  | formless none =>
    rw [flowNames_of_flow_none _ none]
    exact nofun
  | any => exact nofun
  | named _ name => exact List.forall_mem_singleton.2 name
  | @generic n es _ name _ ih =>
    rw [flowNames]
    split
    · exact nofun
    · rw [flowNames, List.forall_mem_append, List.forall_mem_singleton]
      refine ⟨name, ?_⟩
      cases es with
      | nil => exact nofun
      | cons e es => exact ih e List.mem_cons_self
  | union _ ih => exact flowNamesEach_of_mem ih
  | nullable _ ih | optional _ ih => exact ih

end Relation

/-- Where a text with two renamings of its names is the same, and one renaming only ever drops more
characters than the other, they rename alike. -/
theorem Renamed.eq_of_sublist {f g : Text → Text} {ns : List Text} {s t : Text}
    (hf : Renamed f ns s t) (hg : Renamed g ns s t) (hsub : ∀ n ∈ ns, (f n).Sublist (g n)) :
    ∀ n ∈ ns, f n = g n := by
  by_contra! hne
  obtain ⟨n, hn, hne⟩ := hne
  have hle : ∀ n ∈ ns, (f n).length ≤ (g n).length := fun n hn => (hsub n hn).length_le
  have hlt : (f n).length < (g n).length :=
    (hle n hn).lt_of_ne fun heq => hne ((hsub n hn).eq_of_length heq)
  -- A name that is shorter in one text makes this text shorter, since the signs are the same.
  have hsum := List.sum_lt_sum (fun n => (f n).length) (fun n => (g n).length) hle ⟨n, hn, hlt⟩
  have := hf.length_eq
  have := hg.length_eq
  omega

/-- The text has no more dropped than what its names start with iff no name has. -/
theorem Renamed.eq_leading_iff {m : Text} (hm : IsIdentifier m) {ns : List Text}
    {s t u : Text} (hall : Renamed (unqualify (some m)) ns s t)
    (hleading : Renamed (dropLeading m) ns s u) :
    t = u ↔ ∀ n ∈ ns, unqualify (some m) n = dropLeading m n := by
  constructor
  · rintro rfl
    exact hall.eq_of_sublist hleading fun n _ => hm.unqualify_sublist n
  · intro hsame
    have hleading' := hleading.congr fun n hn => (hsame n hn).symm
    rw [hall.eq_unqualify hm, hleading'.eq_unqualify hm]

end DocFlow.TypeExpr

namespace DocFlow.TypeGrammar

theorem getLast?_cons_ne_point {c : Char} {t : Text} (hc : c ≠ '.') (ht : t.getLast? ≠ some '.') :
    (c :: t).getLast? ≠ some '.' := by
  rw [List.getLast?_cons]
  cases hlast : t.getLast? with
  | none => simpa using hc
  | some d => simpa [hlast] using ht

/-- A point goes into a name only with the character behind it. -/
theorem nameTail_getLast? (t : Text) : (nameTail t).1.getLast? ≠ some '.' := by
  fun_induction nameTail t with
  | case1 | case4 | case5 | case6 => simp
  | case2 c t part r ih =>
    refine getLast?_cons_ne_point ?_ ih
    rintro rfl
    exact absurd part (by decide +kernel)
  | case3 c part mark d t start r ih =>
    rw [List.getLast?_cons_cons]
    refine getLast?_cons_ne_point ?_ ih
    rintro rfl
    exact absurd start (by decide)

/-- Only behind a namespace does a name end in a point. -/
theorem ne_of_nameLexeme? {t n rest : Text} (h : nameLexeme? t = some (n, rest)) {m : Text}
    (hm : ':' ∉ m) : n ≠ m ++ ['.'] := by
  rintro rfl
  rcases Option.or_eq_some_iff.1 h with h | ⟨-, h⟩
  · obtain ⟨space, part, after, hspace, -, heq, -⟩ := spacedName?_eq_some h
    obtain ⟨c, word, rfl, -⟩ := exists_word_of_namespace hspace
    have hmem : ':' ∈ m ++ ['.'] := by rw [heq]; simp
    simp [hm] at hmem
  · obtain ⟨c, after, start, -, heq, -⟩ := plainName?_eq_some h
    have hpoint : c ≠ '.' := by
      rintro rfl
      exact absurd start (by decide)
    refine getLast?_cons_ne_point hpoint (nameTail_getLast? after) ?_
    rw [← heq, List.getLast?_concat]

/-- The characters of names behind which the pattern takes another name to start. -/
theorem IsName.isSeparator_iff {n : Text} (h : IsName n) {c : Char} (hc : c ∈ n) :
    Reference.IsSeparator c ↔ c ∈ ['#', '~', '/', '-', ':'] := by
  constructor
  · intro hopens
    rw [Reference.IsSeparator, Reference.opensName, Bool.not_eq_true', Bool.or_eq_false_iff,
      beq_eq_false_iff_ne] at hopens
    obtain ⟨hpart, hpoint⟩ : isNamePart c = false ∧ c ≠ '.' := hopens
    rcases h.chars hc with hmodule | rfl
    · have hmark : c = '#' ∨ c = '~' ∨ c = '/' ∨ c = '-' := by
        simpa [isModulePart, isPathMark, hpart, hpoint, or_assoc] using hmodule
      rcases hmark with rfl | rfl | rfl | rfl <;> decide
    · decide
  · have hall : ['#', '~', '/', '-', ':'].all (fun c => Reference.opensName (some c)) = true := by
      decide +kernel
    exact List.all_eq_true.1 hall c

end DocFlow.TypeGrammar

namespace DocFlow.TypeExpr

open Reference

theorem not_standsBehindSeparator_iff {m n : Text} (h : TypeGrammar.IsName n) :
    ¬ StandsBehindSeparator (m ++ ['.']) n ↔
      ∀ front c rest, n = front ++ c :: (m ++ '.' :: rest) → c ∉ ['#', '~', '/', '-', ':'] := by
  constructor
  · rintro hnone front c rest rfl hc
    exact hnone ⟨front, c, rest, by simp, (h.isSeparator_iff (by simp)).2 hc⟩
  · rintro hnone ⟨front, c, rest, rfl, hc⟩
    exact hnone front c rest (by simp) ((h.isSeparator_iff (by simp)).1 hc)

theorem namedBy_of_parse_of_no_colon {text : Text} {e : TypeExpr} (h : parse text = .ok e) {m : Text}
    (hm : ':' ∉ m) : e.NamedBy fun n => TypeGrammar.IsName n ∧ n ≠ m ++ ['.'] := by
  have hname (t n rest : Text) (hread : TypeGrammar.nameLexeme? t = some (n, rest)) :
      TypeGrammar.IsName n ∧ n ≠ m ++ ['.'] :=
    ⟨TypeGrammar.isName_of_nameLexeme? hread, TypeGrammar.ne_of_nameLexeme? hread hm⟩
  exact namedBy_of_parse (hname "Array".toList _ [] rfl) hname h

/-- Dropping the qualifier of a module from the text of a type is dropping it from each of its names
by itself. This takes no more from them than the qualifier at their start iff it does not stand in
any of them behind a character of paths or namespaces other than the point. -/
theorem unqualify_flow {text : Text} {e : TypeExpr} (h : parse text = .ok e) {m : Text}
    (hm : IsIdentifier m) :
    e.flow.map (unqualify (some m)) = (e.mapNames (unqualify (some m))).flow ∧
      (e.flow.map (unqualify (some m)) = (e.mapNames (dropLeading m)).flow ↔
        ∀ n ∈ e.flowNames, ∀ front c rest, n = front ++ c :: (m ++ '.' :: rest) →
          c ∉ ['#', '~', '/', '-', ':']) := by
  have named := namedBy_of_parse_of_no_colon h fun hmem => (hm.chars _ hmem).2.1 rfl
  have hall := renamed_of_namedBy hm.unqualify_nil
    (fun n hn => ⟨hn.1.ne_nil, hm.unqualify_ne_nil hn.1.ne_nil hn.2⟩) named
  have hleading := renamed_of_namedBy (dropLeading_nil m)
    (fun n hn => ⟨hn.1.ne_nil, hm.dropLeading_ne_nil hn.1.ne_nil hn.2⟩) named
  have hiff : (∀ n ∈ e.flowNames, unqualify (some m) n = dropLeading m n) ↔
      ∀ n ∈ e.flowNames, ∀ front c rest, n = front ++ c :: (m ++ '.' :: rest) →
        c ∉ ['#', '~', '/', '-', ':'] :=
    forall₂_congr fun n hn => (hm.unqualify_eq_dropLeading_iff n).trans
      (not_standsBehindSeparator_iff (flowNames_of_namedBy named n hn).1)
  rw [← hiff]
  generalize hflow : e.flow = o at hall hleading
  generalize (e.mapNames (unqualify (some m))).flow = o' at hall
  generalize (e.mapNames (dropLeading m)).flow = o'' at hleading
  cases hall with
  | none =>
    cases hleading with
    | none =>
      rw [flowNames_of_flow_none e hflow]
      exact ⟨rfl, iff_of_true rfl nofun⟩
  | some hall =>
    cases hleading with
    | some hleading =>
      rw [Option.map_some, ← hall.eq_unqualify hm]
      exact ⟨rfl, Option.some_inj.trans (hall.eq_leading_iff hm hleading)⟩

/-- A longer path that ends in the same qualifier keeps it. -/
theorem unqualify_flow_of_longer_path :
    ∃ e, parse "Array.<m.x|?a.m.y>".toList = .ok e ∧ IsIdentifier "m".toList ∧
      e.flow.map (unqualify (some "m".toList)) =
        (e.mapNames (unqualify (some "m".toList))).flow ∧
      (e.mapNames (dropLeading "m".toList)).flow = some "Array<x | ?a.m.y>".toList ∧
      ∀ n ∈ e.flowNames, ∀ front c rest, n = front ++ c :: ("m".toList ++ '.' :: rest) →
        c ∉ ['#', '~', '/', '-', ':'] := by
  have read : (parse "Array.<m.x|?a.m.y>".toList).toOption.map (fun e =>
      (e.flow.map (unqualify (some "m".toList)), (e.mapNames (dropLeading "m".toList)).flow)) =
      some (some "Array<x | ?a.m.y>".toList, some "Array<x | ?a.m.y>".toList) := by
    decide +kernel
  obtain ⟨e, he, htexts⟩ := Option.map_eq_some_iff.1 read
  obtain ⟨htext, hleading⟩ := Prod.mk.inj htexts
  have hparse := eq_ok_of_toOption he
  have hm : IsIdentifier "m".toList := by decide +kernel
  obtain ⟨hsame, hiff⟩ := unqualify_flow hparse hm
  exact ⟨e, hparse, hm, hsame, hleading, hiff.1 (htext.trans hleading.symm)⟩

/-- Behind the mark of a member, the text of a type loses a qualifier that starts no name. -/
theorem unqualify_behind_member_mark :
    ∃ e, parse "a#m.b".toList = .ok e ∧
      (e.mapNames (dropLeading "m".toList)).flow = some "a#m.b".toList ∧
      e.flow.map (unqualify (some "m".toList)) = some "a#b".toList := by
  have read : (parse "a#m.b".toList).toOption.map (fun e =>
      ((e.mapNames (dropLeading "m".toList)).flow, e.flow.map (unqualify (some "m".toList)))) =
      some (some "a#m.b".toList, some "a#b".toList) := by
    decide +kernel
  obtain ⟨e, he, htexts⟩ := Option.map_eq_some_iff.1 read
  obtain ⟨hleading, htext⟩ := Prod.mk.inj htexts
  exact ⟨e, eq_ok_of_toOption he, hleading, htext⟩

end DocFlow.TypeExpr
