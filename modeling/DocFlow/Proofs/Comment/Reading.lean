import DocFlow.Proofs.Comment.Written

namespace DocFlow

open Comment Text

theorem Comment.isTitlePart_of_isAlpha {c : Char} (h : c.isAlpha = true) : isTitlePart c = true := by
  have hstart : TypeGrammar.isNameStart c = true := by
    rw [TypeGrammar.isNameStart, h]
    rfl
  have hpart := TypeGrammar.isModulePart_of_isNameStart hstart
  simp only [TypeGrammar.isModulePart, TypeGrammar.isNamePart, TypeGrammar.isPathMark,
    Bool.or_eq_true, beq_iff_eq] at hpart
  rcases hpart with ((hword | rfl) | ((rfl | rfl) | rfl) | rfl) | rfl
  · rw [isTitlePart, hword]
    rfl
  all_goals exact absurd h (by decide)

theorem Comment.isBlank_eq_false_of_isTitlePart {c : Char} (h : isTitlePart c = true) :
    isBlank c = false := by
  apply TypeGrammar.isBlank_eq_false_of_isModulePart
  rw [isTitlePart, Bool.or_eq_true] at h
  rcases h with hword | hhyphen
  · rw [TypeGrammar.isModulePart, TypeGrammar.isNamePart, hword]
    rfl
  · rw [TypeGrammar.isModulePart, hhyphen, Bool.or_true]

namespace WrittenName

variable {n : WrittenName}

theorem Normal.solid (h : n.Normal) : Solid n.text := by
  cases n with
  | plain n =>
    obtain ⟨hne, hvisible, -, -⟩ := h
    exact solid_of_visible hne hvisible
  | bracketed n default =>
    exact ⟨⟨'[', _, rfl, by decide⟩, '[' :: inside n default, ']', rfl, by decide⟩

theorem nameFront_plain {n : Text} (h : (plain n).Normal) {rest : Text}
    (hrest : ∀ c ∈ rest.head?, isBlank c = true) :
    nameFront (n ++ rest) = ⟨some n, false, rest⟩ := by
  obtain ⟨hne, hvisible, hbracket, -⟩ := h
  obtain ⟨c, n, rfl⟩ := List.exists_cons_of_ne_nil hne
  have hc : c ≠ '[' := fun heq => hbracket (congrArg some heq)
  have hspan : (c :: n ++ rest).span (fun d => !isBlank d) = (c :: n, rest) := by
    apply span_append
    · intro d hd
      rw [hvisible d hd]
      rfl
    · intro d hd
      rw [hrest d hd]
      rfl
  rw [nameFront.eq_3 (c :: n ++ rest) (List.cons_ne_nil _ _) fun _ heq => hc (List.cons.inj heq).1,
    hspan]

theorem takeWhile_inside {n : Text} (h : '=' ∉ n) (default : Option Text) :
    (inside n default).takeWhile (· != '=') = n := by
  have hfront : ∀ c ∈ n, (c != '=') = true := by
    intro c hc
    exact bne_iff_ne.2 fun heq => h (heq ▸ hc)
  cases default with
  | none => exact List.takeWhile_eq_self_iff.2 hfront
  | some t =>
    rw [inside, List.takeWhile_append_of_pos hfront, List.takeWhile_cons_of_neg (by decide),
      List.append_nil]

theorem nameFront_bracketed {n : Text} {default : Option Text} (h : (bracketed n default).Normal)
    (rest : Text) :
    nameFront ((bracketed n default).text ++ rest) = ⟨some n, true, rest⟩ := by
  obtain ⟨hne, htrim, hequals, hclose, hdefault⟩ := h
  have hinside : ∀ c ∈ inside n default, (c != ']') = true := by
    intro c hc
    refine bne_iff_ne.2 ?_
    rintro rfl
    cases default with
    | none => exact hclose hc
    | some t =>
      rcases List.mem_append.1 hc with hc | hc
      · exact hclose hc
      · exact hdefault t rfl ((List.mem_cons.1 hc).resolve_left (by decide))
  have hspan : (inside n default ++ ']' :: rest).span (· != ']') =
      (inside n default, ']' :: rest) :=
    span_append hinside (by simp)
  have htext : (bracketed n default).text ++ rest = '[' :: (inside n default ++ ']' :: rest) := by
    simp [text]
  rw [htext, nameFront, hspan]
  dsimp only
  rw [takeWhile_inside hequals, htrim, someText, if_neg hne]

theorem nameFront_text (h : n.Normal) {rest : Text} (hrest : ∀ c ∈ rest.head?, isBlank c = true) :
    nameFront (n.text ++ rest) = ⟨some n.name, n.isBracketed, rest⟩ := by
  cases n with
  | plain n => exact nameFront_plain h hrest
  | bracketed n default => exact nameFront_bracketed h rest

end WrittenName

namespace WrittenTag

theorem join_cons (p : Text) (ps : List Text) : join [' '] (p :: ps) = p ++ spaced ps := by
  induction ps generalizing p with
  | nil => exact (List.append_nil p).symm
  | cons q ps ih =>
    rw [join, ih, List.append_assoc]
    rfl

theorem spaced_cons (p : Text) (ps : List Text) :
    spaced (p :: ps) = [' '] ++ join [' '] (p :: ps) := by
  rw [join_cons]
  rfl

theorem solid_join {p : Text} {ps : List Text} (h : ∀ q ∈ p :: ps, Solid q) :
    Solid (join [' '] (p :: ps)) := by
  induction ps generalizing p with
  | nil => exact h p List.mem_cons_self
  | cons q ps ih =>
    have hfirst := h p List.mem_cons_self
    have hrest := ih fun r hr => h r (List.mem_cons_of_mem p hr)
    rw [join, List.append_assoc]
    exact hfirst.append hrest [' ']

theorem isBlank_of_mem_space : ∀ c ∈ [' '], isBlank c = true := by
  intro c hc
  rw [List.mem_singleton.1 hc]
  rfl

theorem trim_spaced {ps : List Text} (h : ∀ p ∈ ps, Solid p) {blanks : Text}
    (hblanks : ∀ c ∈ blanks, isBlank c = true) :
    trim (spaced ps ++ blanks) = join [' '] ps := by
  cases ps with
  | nil => exact trim_of_blanks hblanks
  | cons p ps =>
    rw [spaced_cons, List.append_assoc]
    exact (solid_join h).trim isBlank_of_mem_space hblanks

theorem trim_spaced_nil {ps : List Text} (h : ∀ p ∈ ps, Solid p) :
    trim (spaced ps) = join [' '] ps := by
  have htrim := trim_spaced h (List.forall_mem_nil _)
  rw [List.append_nil] at htrim
  exact htrim

theorem isBlank_of_head_spaced (ps : List Text) {blanks : Text}
    (hblanks : ∀ c ∈ blanks, isBlank c = true) :
    ∀ c ∈ (spaced ps ++ blanks).head?, isBlank c = true := by
  intro c hc
  cases ps with
  | nil => exact hblanks c (List.mem_of_mem_head? hc)
  | cons p ps =>
    cases hc
    rfl

theorem join_description (d : Text) : join [' '] (if d = [] then [] else [d]) = d := by
  split
  · next hnil => exact hnil.symm
  · rfl

theorem readType_of_short {raw : Text} (h : TypeExpr.HasShortIntegers raw) :
    readType raw = .ok (TypeExpr.parse raw).toOption := by
  have hlong := TypeExpr.parse_ne_long h
  rw [readType]
  cases hparse : TypeExpr.parse raw with
  | ok e => rfl
  | error e =>
    cases e with
    | malformed => rfl
    | longInteger digits => exact absurd hparse (hlong digits)

theorem bracedFront?_eq_none {t : Text} (h : t.head? ≠ some '{') : bracedFront? t = none := by
  cases t with
  | nil => rfl
  | cons c t => exact if_neg fun hc => h (congrArg some hc)

section

variable {t : WrittenTag} (h : t.Normal)
include h

theorem Normal.solid_behindType : ∀ p ∈ t.partsBehindType, Solid p := by
  intro p hp
  rcases List.mem_append.1 hp with hp | hp
  · obtain ⟨n, hn, rfl⟩ := Option.map_eq_some_iff.1 (Option.mem_toList.1 hp)
    exact (h.name n hn).solid
  · split at hp
    · cases hp
    · next hne =>
      rw [List.mem_singleton.1 hp]
      exact solid_of_trim h.description hne

theorem Normal.solid_parts : ∀ p ∈ t.parts, Solid p := by
  intro p hp
  rcases List.mem_append.1 hp with hp | hp
  · obtain ⟨raw, -, rfl⟩ := Option.map_eq_some_iff.1 (Option.mem_toList.1 hp)
    exact ⟨⟨'{', _, rfl, by decide⟩, '{' :: raw, '}', rfl, by decide⟩
  · exact h.solid_behindType p hp

theorem Normal.isTitlePart_of_mem_title : ∀ c ∈ t.title, isTitlePart c = true := by
  obtain ⟨c, rest, htitle, hletter, hrest⟩ := h.title
  rw [htitle, List.forall_mem_cons]
  exact ⟨isTitlePart_of_isAlpha hletter, hrest⟩

theorem Normal.solid_text : Solid t.text := by
  have htitle : Solid ('@' :: t.title) := by
    apply solid_of_visible (List.cons_ne_nil _ _)
    rw [List.forall_mem_cons]
    exact ⟨rfl, fun c hc => isBlank_eq_false_of_isTitlePart (h.isTitlePart_of_mem_title c hc)⟩
  rw [text, ← List.cons_append]
  have hparts := h.solid_parts
  cases hcases : t.parts with
  | nil =>
    rw [spaced, List.flatMap_nil, List.append_nil]
    exact htitle
  | cons p ps =>
    rw [hcases] at hparts
    rw [spaced_cons]
    exact htitle.append (solid_join hparts) [' ']

theorem Normal.titleOf_text {blanks : Text} (hblanks : ∀ c ∈ blanks, isBlank c = true) :
    titleOf (t.text ++ blanks) = (t.title, spaced t.parts ++ blanks) := by
  have hstop : ∀ d ∈ (spaced t.parts ++ blanks).head?, isTitlePart d = false := by
    intro d hd
    have hblank := isBlank_of_head_spaced t.parts hblanks d hd
    by_contra hpart
    have hvisible := isBlank_eq_false_of_isTitlePart (by simpa using hpart)
    rw [hblank] at hvisible
    cases hvisible
  have htext : (t.text ++ blanks).drop 1 = t.title ++ (spaced t.parts ++ blanks) := by
    rw [text, List.cons_append, List.drop_one, List.tail_cons, List.append_assoc]
  rw [titleOf, htext]
  exact span_append h.isTitlePart_of_mem_title hstop

/-- What is written behind a missing type starts with no brace. -/
theorem Normal.head_behindType (htyped : t.title ∈ titlesWithType) (hraw : t.rawType = none) :
    (join [' '] t.partsBehindType).head? ≠ some '{' := by
  rw [partsBehindType]
  cases hname : t.name with
  | none =>
    rw [Option.map_none, Option.toList_none, List.nil_append, join_description]
    exact h.notType htyped hraw hname
  | some n =>
    have hnormal := h.name n hname
    rw [Option.map_some, Option.toList_some, List.singleton_append, join_cons]
    cases n with
    | plain n =>
      obtain ⟨hne, -, -, hbrace⟩ := hnormal
      obtain ⟨c, n, rfl⟩ := List.exists_cons_of_ne_nil hne
      exact hbrace
    | bracketed n default =>
      intro hhead
      cases hhead

theorem Normal.takeType_join :
    takeType t.title (join [' '] t.parts) =
      .ok ⟨t.rawType.bind fun raw => (TypeExpr.parse raw).toOption, t.rawType,
        join [' '] t.partsBehindType⟩ := by
  rw [takeType]
  cases hraw : t.rawType with
  | none =>
    have hparts : t.parts = t.partsBehindType := by
      rw [parts, hraw]
      rfl
    rw [hparts]
    split
    · next htyped =>
      rw [bracedFront?_eq_none (h.head_behindType (List.contains_iff_mem.1 htyped) hraw)]
      rfl
    · rfl
  | some raw =>
    obtain ⟨hbalanced, hshort⟩ := h.rawType raw hraw
    have htyped : titlesWithType.contains t.title = true := by
      apply List.contains_iff_mem.2
      apply h.typed
      rw [hraw]
      exact Option.some_ne_none raw
    have hjoin : join [' '] t.parts = '{' :: (raw ++ '}' :: spaced t.partsBehindType) := by
      rw [parts, hraw, Option.map_some, Option.toList_some, List.singleton_append, join_cons]
      simp only [List.cons_append, List.append_assoc, List.nil_append]
    have htrim := trim_spaced_nil h.solid_behindType
    rw [if_pos htyped, hjoin, bracedFront?, if_pos rfl, closeBrace?_append hbalanced]
    dsimp only
    rw [readType_of_short hshort, htrim]
    rfl

/-- Where no name is written, none is read. -/
theorem Normal.nameFront_description (hnamed : t.title ∈ titlesWithName) (hname : t.name = none) :
    nameFront t.description = ⟨none, false, t.description⟩ := by
  rcases h.notName hnamed hname with hnil | ⟨inner, hinner, hclose⟩
  · rw [hnil]
    rfl
  · have hfront : ∀ c ∈ inner, (c != ']') = true := by
      intro c hc
      exact bne_iff_ne.2 fun heq => hclose (heq ▸ hc)
    have hspan : (inner ++ []).span (· != ']') = (inner, []) := span_append hfront (by simp)
    rw [List.append_nil] at hspan
    rw [hinner, nameFront, hspan]

theorem Normal.withName_join (type : Option TypeExpr) :
    withName t.title ⟨type, t.rawType, join [' '] t.partsBehindType⟩ =
      ⟨t.title, t.name.map WrittenName.name,
        if t.name.any WrittenName.isBracketed then type.map .optional else type, t.description,
        t.rawType⟩ := by
  rw [withName, partsBehindType]
  cases hname : t.name with
  | none =>
    rw [Option.map_none, Option.toList_none, List.nil_append, join_description]
    split
    · next hnamed =>
      rw [h.nameFront_description (List.contains_iff_mem.1 hnamed) hname]
      dsimp only
      rw [h.description]
      rfl
    · rfl
  | some n =>
    have hnamed : titlesWithName.contains t.title = true := by
      apply List.contains_iff_mem.2
      apply h.named
      rw [hname]
      exact Option.some_ne_none n
    have hdescription : ∀ p ∈ if t.description = [] then [] else [t.description], Solid p := by
      intro p hp
      exact h.solid_behindType p (List.mem_append_right _ hp)
    have hblank := isBlank_of_head_spaced (if t.description = [] then [] else [t.description])
      (List.forall_mem_nil _)
    rw [List.append_nil] at hblank
    rw [if_pos hnamed, Option.map_some, Option.toList_some, List.singleton_append, join_cons,
      WrittenName.nameFront_text (h.name n hname) hblank]
    dsimp only
    rw [trim_spaced_nil hdescription, join_description]
    rfl

/-- A written tag is read as it is, with the blanks behind it left out. -/
theorem Normal.readTag_text {blanks : Text} (hblanks : ∀ c ∈ blanks, isBlank c = true) :
    readTag (t.text ++ blanks) = .ok t.tag := by
  have htitle := h.titleOf_text hblanks
  have hsynonym : synonyms.lookup t.title = none := by
    rw [List.lookup_eq_none_iff]
    intro pair hpair
    exact bne_iff_ne.2 fun heq => h.noSynonym pair hpair heq.symm
  rw [readTag, htitle]
  dsimp only
  rw [hsynonym, Option.getD_none, trim_spaced h.solid_parts hblanks, h.takeType_join]
  exact congrArg Except.ok (h.withName_join _)

end

end WrittenTag

end DocFlow
