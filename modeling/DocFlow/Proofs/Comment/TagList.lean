import DocFlow.Proofs.Comment.Decoration
import DocFlow.Proofs.Comment.Reading

namespace DocFlow.Comment

open Text

def StartsWithTag (t : Text) : Prop := ∃ c more, t = '@' :: c :: more ∧ c.isAlpha = true

/-- A tag starts behind a front of a text: outside of braces, at the start or behind a blank. -/
structure TagStarts (depth : Nat) (afterBlank : Bool) (front rest : Text) : Prop where
  outside : front.foldl depthAfter depth = 0
  behindBlank : (front.getLast?.elim afterBlank isBlank) = true
  tag : StartsWithTag rest

/-- A text is cut into a lead and its tags, each from its start to the start of the next one. -/
structure CutAtTags (depth : Nat) (afterBlank : Bool) (t lead : Text) (tags : List Text) : Prop where
  whole : t = lead ++ tags.flatten
  tag : ∀ x ∈ tags, StartsWithTag x
  starts : ∀ front rest, t = front ++ rest → (TagStarts depth afterBlank front rest ↔
    ∃ before after, tags = before ++ after ∧ after ≠ [] ∧ front = lead ++ before.flatten)

theorem startsTag_iff {depth : Nat} {afterBlank : Bool} {c : Char} {rest : Text} :
    startsTag depth afterBlank c rest = true ↔ TagStarts depth afterBlank [] (c :: rest) := by
  have hfirst : (c == '@' && startsTitle rest) = true ↔ StartsWithTag (c :: rest) := by
    rw [Bool.and_eq_true, beq_iff_eq]
    cases rest with
    | nil => exact iff_of_false (fun h => Bool.false_ne_true h.2) (by rintro ⟨_, _, h, -⟩; cases h)
    | cons d rest =>
      constructor
      · rintro ⟨rfl, hd⟩
        exact ⟨d, rest, rfl, hd⟩
      · rintro ⟨_, _, h, hd⟩
        cases h
        exact ⟨rfl, hd⟩
  constructor
  · intro h
    simp only [startsTag, Bool.and_eq_true, beq_iff_eq] at h
    obtain ⟨⟨⟨hc, hdepth⟩, hblank⟩, htitle⟩ := h
    exact ⟨hdepth, hblank, hfirst.1 (by simp [hc, htitle])⟩
  · rintro ⟨hdepth, hblank, htag⟩
    have h := hfirst.2 htag
    simp only [List.foldl_nil, List.getLast?_nil, Option.elim_none] at hdepth hblank
    simp_all [startsTag]

theorem tagStarts_cons {depth : Nat} {afterBlank : Bool} {c : Char} {front rest : Text} :
    TagStarts depth afterBlank (c :: front) rest ↔
      TagStarts (depthAfter depth c) (isBlank c) front rest := by
  have hlast : (c :: front).getLast?.elim afterBlank isBlank =
      front.getLast?.elim (isBlank c) isBlank := by
    cases front with
    | nil => rfl
    | cons d front => rw [List.getLast?_cons_cons, List.getLast?_cons]; rfl
  constructor
  · rintro ⟨outside, behind, tag⟩
    exact ⟨outside, hlast ▸ behind, tag⟩
  · rintro ⟨outside, behind, tag⟩
    exact ⟨outside, hlast ▸ behind, tag⟩

namespace CutAtTags

variable {depth : Nat} {afterBlank : Bool} {t lead : Text} {tags : List Text}

/-- The first piece with a tag in it is the lead if the text starts with a letter. -/
theorem exists_lead {d : Char} (h : CutAtTags depth afterBlank (d :: t) lead tags)
    (hd : d.isAlpha = true) : ∃ more, lead = d :: more := by
  cases lead with
  | cons c lead => exact ⟨lead, congrArg (· :: lead) (List.cons.inj h.whole).1.symm⟩
  | nil =>
    cases tags with
    | nil => exact absurd h.whole (List.cons_ne_nil _ _)
    | cons x tags =>
      obtain ⟨c, more, rfl, -⟩ := h.tag x List.mem_cons_self
      obtain ⟨rfl, -⟩ := List.cons.inj h.whole
      exact absurd hd (by decide)

/-- A tag that starts before a cut text takes its lead. -/
theorem start {c : Char} (hstart : TagStarts depth afterBlank [] (c :: t))
    (h : CutAtTags (depthAfter depth c) (isBlank c) t lead tags) :
    CutAtTags depth afterBlank (c :: t) [] ((c :: lead) :: tags) := by
  refine ⟨by rw [h.whole]; simp, ?_, fun front rest hsplit => ?_⟩
  · obtain ⟨d, more, heq, hd⟩ := hstart.tag
    obtain ⟨rfl, rfl⟩ := List.cons.inj heq
    obtain ⟨first, rfl⟩ := h.exists_lead hd
    rw [List.forall_mem_cons]
    exact ⟨⟨d, first, rfl, hd⟩, h.tag⟩
  · cases front with
    | nil =>
      rw [List.nil_append] at hsplit
      rw [← hsplit]
      exact iff_of_true hstart ⟨[], _, rfl, List.cons_ne_nil _ _, rfl⟩
    | cons d front =>
      rw [List.cons_append] at hsplit
      obtain ⟨rfl, ht⟩ := List.cons.inj hsplit
      rw [tagStarts_cons, h.starts front rest ht]
      constructor
      · rintro ⟨before, after, rfl, hafter, rfl⟩
        exact ⟨(c :: lead) :: before, after, rfl, hafter, rfl⟩
      · rintro ⟨before, after, htags, hafter, hfront⟩
        cases before with
        | nil => cases hfront
        | cons x before =>
          obtain ⟨rfl, rfl⟩ := List.cons.inj htags
          exact ⟨before, after, rfl, hafter, (List.cons.inj hfront).2⟩

/-- Any other character before a cut text goes to its lead. -/
theorem extend {c : Char} (hstart : ¬ TagStarts depth afterBlank [] (c :: t))
    (h : CutAtTags (depthAfter depth c) (isBlank c) t lead tags) :
    CutAtTags depth afterBlank (c :: t) (c :: lead) tags := by
  refine ⟨by rw [h.whole]; rfl, h.tag, fun front rest hsplit => ?_⟩
  cases front with
  | nil =>
    rw [List.nil_append] at hsplit
    rw [← hsplit]
    refine iff_of_false hstart ?_
    rintro ⟨_, _, -, -, hfront⟩
    cases hfront
  | cons d front =>
    rw [List.cons_append] at hsplit
    obtain ⟨rfl, ht⟩ := List.cons.inj hsplit
    rw [tagStarts_cons, h.starts front rest ht]
    simp

end CutAtTags

/-- The text is cut at all places where tags start, and at no other. -/
theorem cutAtTags (depth : Nat) (afterBlank : Bool) (t : Text) :
    CutAtTags depth afterBlank t (cutTags depth afterBlank t).1 (cutTags depth afterBlank t).2 := by
  induction t generalizing depth afterBlank with
  | nil =>
    refine ⟨rfl, List.forall_mem_nil _, fun front rest h => ?_⟩
    obtain ⟨rfl, rfl⟩ := List.append_eq_nil_iff.1 h.symm
    refine iff_of_false ?_ ?_
    · rintro ⟨-, -, _, _, h, -⟩
      cases h
    · rintro ⟨before, after, h, hafter, -⟩
      exact hafter (List.append_eq_nil_iff.1 h.symm).2
  | cons c t ih =>
    have htail := ih (depthAfter depth c) (isBlank c)
    rw [cutTags]
    split
    · next hstart => exact htail.start (startsTag_iff.1 hstart)
    · next hstart => exact htail.extend (mt startsTag_iff.2 hstart)

def titleIn (t : Text) : Text := (synonyms.lookup (titleOf t).1).getD (titleOf t).1

def braced? (t : Text) : Option (Text × Text) :=
  if titlesWithType.contains (titleIn t) then bracedFront? (trim (titleOf t).2) else none

def rawTypeIn (t : Text) : Option Text := (braced? t).map Prod.fst

def behindType (t : Text) : Text := (braced? t).elim (trim (titleOf t).2) fun r => trim r.2

/-- A tag with the type that its braces hold, and without a type if they hold none. -/
def reported (t : Text) : Tag :=
  withName (titleIn t)
    ⟨(rawTypeIn t).bind fun raw => (TypeExpr.parse raw).toOption, rawTypeIn t, behindType t⟩

/-- The digits of the integer for which the type of a tag is given up. -/
def tooLong? (t : Text) : Option Nat :=
  (rawTypeIn t).bind fun raw =>
    match TypeExpr.parse raw with
    | .error (.longInteger digits) => some digits
    | _ => none

theorem readTag_eq (t : Text) :
    readTag t = (tooLong? t).elim (.ok (reported t)) fun digits => .error (.longInteger digits) := by
  have hread : readTag t = (takeType (titleIn t) (trim (titleOf t).2)).map (withName (titleIn t)) := rfl
  rw [hread, reported, tooLong?, rawTypeIn, behindType, braced?, takeType]
  split
  · cases bracedFront? (trim (titleOf t).2) with
    | none => rfl
    | some r =>
      dsimp only [Option.map_some, Option.bind_some, Option.elim_some]
      rw [readType]
      rcases TypeExpr.parse r.1 with (_ | _) | _ <;> rfl
  · rfl

/-- Only a decimal integer of too many digits makes a tag fail. -/
theorem exists_long_of_tooLong? {t : Text} {digits : Nat} (h : tooLong? t = some digits) :
    ∃ raw, rawTypeIn t = some raw ∧ ¬ TypeExpr.HasShortIntegers raw := by
  obtain ⟨raw, hraw, h⟩ := Option.bind_eq_some_iff.1 h
  refine ⟨raw, hraw, fun short => ?_⟩
  split at h
  · next hparse => exact TypeExpr.parse_ne_long short _ hparse
  · cases h

/-- A tag without a readable type is reported like one with any type, but for the type. -/
theorem reported_of_unreadable {t raw : Text} (hraw : rawTypeIn t = some raw)
    (h : (TypeExpr.parse raw).toOption = none) (other : Option TypeExpr) :
    reported t = { withName (titleIn t) ⟨other, some raw, behindType t⟩ with type := none } := by
  rw [reported, hraw, Option.bind_some, h, withName, withName]
  dsimp only
  split
  · split <;> rfl
  · rfl

/-- A comment without a tag is given up, and one with an integer of too many digits in a type.
Otherwise each tag is reported in its place, and one with an unreadable type lacks only the type. -/
theorem parse_reports_tags (body : Text) :
    ∃ lead tags, CutAtTags 0 true (undecorate body) lead tags ∧
      parse body =
        (if tags = [] then .error .noTags
        else
          match tags.findSome? tooLong? with
          | none => .ok (tags.map reported)
          | some digits => .error (.longInteger digits)) ∧
      (∀ t digits, tooLong? t = some digits →
        ∃ raw, rawTypeIn t = some raw ∧ ¬ TypeExpr.HasShortIntegers raw) ∧
      ∀ t raw, rawTypeIn t = some raw → (TypeExpr.parse raw).toOption = none → ∀ other,
        reported t = { withName (titleIn t) ⟨other, some raw, behindType t⟩ with type := none } := by
  refine ⟨_, tagTexts (undecorate body), cutAtTags 0 true (undecorate body), ?_,
    fun _ _ => exists_long_of_tooLong?, fun _ _ => reported_of_unreadable⟩
  rw [parse]
  cases tagTexts (undecorate body) with
  | nil => rfl
  | cons t ts =>
    rw [if_neg (List.cons_ne_nil t ts)]
    dsimp only
    rw [mapM_eq_findSome? readTag_eq]
    cases (t :: ts).findSome? tooLong? <;> rfl

theorem mem_ones {n : Nat} {c : Char} {p : Char → Bool} (hc : c ∈ List.replicate n '1')
    (hp : p '1' = true) : p c = true := by
  rwa [List.eq_of_mem_replicate hc]

open TypeGrammar in
theorem lexeme?_ones (n : Nat) :
    lexeme? (List.replicate (n + 1) '1') = some (.number (List.replicate (n + 1) '1'), []) := by
  have hdigits : takeSome? isDigit (List.replicate (n + 1) '1' ++ []) =
      some (List.replicate (n + 1) '1', []) :=
    takeSome?_reads (fun c hc => mem_ones hc (by decide +kernel)) (by simp) (by simp)
  rw [List.append_nil, List.replicate_succ] at hdigits
  rw [List.replicate_succ, lexeme?, stringLexeme?, numberLexeme?, unsigned?, decimal?, hdigits]
  all_goals simp

open TypeGrammar in
/-- An integer of ones has too many digits as soon as it is longer than the limit. -/
theorem parse_ones {n : Nat} (h : Numeral.digitLimit < n) :
    TypeExpr.parse (List.replicate n '1') = .error (.longInteger n) := by
  obtain ⟨n, rfl⟩ := Nat.exists_eq_add_one_of_ne_zero (Nat.ne_of_gt (Nat.zero_lt_of_lt h))
  have hsolid : Solid (List.replicate (n + 1) '1') :=
    solid_of_visible (by simp) fun c hc => by
      rw [List.eq_of_mem_replicate hc]
      rfl
  have hlexed : Lexed (List.replicate (n + 1) '1') [.number (List.replicate (n + 1) '1')] :=
    .lexeme rfl (lexeme?_ones n) .done
  obtain ⟨ts, hts, hlexemes⟩ := lexed_iff_tokens.1 hlexed
  obtain ⟨⟨l, p⟩, rfl, rfl⟩ := List.map_eq_singleton_iff.1 hlexemes
  have hdigits : Numeral.digitsIn 10 (List.replicate (n + 1) '1') = List.replicate (n + 1) 1 :=
    List.filterMap_replicate_of_some (by decide +kernel)
  have hpoint : (List.replicate (n + 1) '1').contains '.' = false := by
    simp
  have hvalue : numeralType (List.replicate (n + 1) '1') = .error (.longInteger (n + 1)) := by
    have hlong : Numeral.readDecimal (List.replicate (n + 1) '1') = .error (n + 1) := by
      rw [Numeral.readDecimal, hdigits, List.length_replicate]
      exact if_pos h
    have hdecimal (signed : Nat → Int) :
        numeralType.decimalValue false signed (List.replicate (n + 1) '1') =
          .error (.longInteger (n + 1)) := by
      rw [numeralType.decimalValue, hpoint, hlong]
      rfl
    rw [List.replicate_succ] at hdecimal ⊢
    exact hdecimal _
  have hparsed : ofTokens [⟨.number (List.replicate (n + 1) '1'), p⟩] =
      .error (.longInteger (n + 1)) := by
    rw [ofTokens, budget, List.length_singleton, union, members, single, basic, hvalue]
    · rfl
    all_goals simp
  rw [TypeExpr.parse, hsolid.trim_eq, hts]
  dsimp only
  rw [hparsed]
  rfl

theorem cutTags_of_notMem {t : Text} (h : '@' ∉ t) (depth : Nat) (afterBlank : Bool) :
    cutTags depth afterBlank t = (t, []) := by
  induction t generalizing depth afterBlank with
  | nil => rfl
  | cons c t ih =>
    rw [List.mem_cons, not_or] at h
    have hstart : startsTag depth afterBlank c t = false := by
      rw [startsTag, beq_eq_false_iff_ne.2 (Ne.symm h.1)]
      rfl
    rw [cutTags, ih h.2, hstart]
    rfl

def typeTag (raw : Text) : Text := '@' :: ("type".toList ++ [' '] ++ ('{' :: (raw ++ ['}'])))

theorem solid_typeTag (raw : Text) : Solid (typeTag raw) :=
  ⟨⟨'@', _, rfl, rfl⟩, '@' :: ("type".toList ++ [' '] ++ ('{' :: raw)), '}', by simp [typeTag], rfl⟩

theorem tagStarts_typeTag (raw : Text) : TagStarts 0 true [] (typeTag raw) :=
  ⟨rfl, rfl, 't', _, rfl, rfl⟩

theorem rawTypeIn_typeTag {raw : Text} (h : Balanced raw) : rawTypeIn (typeTag raw) = some raw := by
  have htitle : titleOf (typeTag raw) = ("type".toList, ' ' :: '{' :: (raw ++ ['}'])) := by
    have hblank : isTitlePart ' ' = false := by
      by_contra hpart
      exact absurd (isBlank_eq_false_of_isTitlePart (Bool.eq_true_of_not_eq_false hpart)) (by decide)
    have hletters : ∀ c ∈ "type".toList, isTitlePart c = true := by
      have halpha : ∀ c ∈ "type".toList, c.isAlpha = true := List.all_eq_true.1 rfl
      intro c hc
      exact isTitlePart_of_isAlpha (halpha c hc)
    exact span_append hletters (by simpa using hblank)
  have hsolid : Solid ('{' :: (raw ++ ['}'])) := ⟨⟨'{', _, rfl, rfl⟩, '{' :: raw, '}', rfl, rfl⟩
  have htrim : trim (' ' :: '{' :: (raw ++ ['}'])) = '{' :: (raw ++ ['}']) := by
    have h := hsolid.trim WrittenTag.isBlank_of_mem_space (List.forall_mem_nil _)
    rwa [List.append_nil] at h
  have hname : synonyms.lookup "type".toList = none := by decide
  have htyped : titlesWithType.contains "type".toList = true := by decide
  rw [rawTypeIn, braced?, titleIn, htitle]
  dsimp only
  rw [hname, Option.getD_none, if_pos htyped, htrim, bracedFront?, if_pos rfl,
    closeBrace?_append h]
  rfl

theorem undecorate_typeTag {raw : Text} (h : ∀ c ∈ raw, isLineBreak c = false) :
    undecorate (typeTag raw) = typeTag raw := by
  have hline : ∀ c ∈ typeTag raw, isLineBreak c = false := by
    have hfront : ∀ c ∈ "@type \x7b".toList, (!isLineBreak c) = true := List.all_eq_true.1 rfl
    have htext : typeTag raw = "@type \x7b".toList ++ raw ++ ['}'] := by
      simp [typeTag]
    rw [htext, List.forall_mem_append, List.forall_mem_append]
    exact ⟨⟨by simpa using hfront, h⟩, by simp; rfl⟩
  have hplain : dropDecoration (typeTag raw) = typeTag raw :=
    dropDecoration_plain (List.forall_mem_nil _) rfl (by decide) _
  have hstar : dropOne '*' (typeTag raw) = typeTag raw := rfl
  rw [undecorate_eq, hstar, undecorateLines_of_unbroken hline (List.cons_ne_nil _ _), hplain,
    (solid_typeTag raw).trim_eq]

theorem tagTexts_typeTag {raw : Text} (h : '@' ∉ raw) : tagTexts (typeTag raw) = [typeTag raw] := by
  have hmore : '@' ∉ "type".toList ++ [' '] ++ ('{' :: (raw ++ ['}'])) := by
    simpa using h
  have hstart : startsTag 0 true '@' ("type".toList ++ [' '] ++ ('{' :: (raw ++ ['}']))) = true := rfl
  rw [tagTexts, typeTag, cutTags, cutTags_of_notMem hmore, if_pos hstart]

theorem nesting_ones (n : Nat) : nesting 0 (List.replicate n '1') = some 0 := by
  induction n with
  | zero => rfl
  | succ n ih => exact ih

/-- An integer with one digit too many costs the comment its tag. -/
theorem no_tags_of_long_type :
    TagStarts 0 true [] (undecorate (typeTag (List.replicate 4301 '1'))) ∧
      parse (typeTag (List.replicate 4301 '1')) = .error (.longInteger 4301) := by
  have hline : ∀ c ∈ List.replicate 4301 '1', isLineBreak c = false := by
    intro c hc
    rw [List.eq_of_mem_replicate hc]
    rfl
  have hbody := undecorate_typeTag hline
  rw [hbody]
  refine ⟨tagStarts_typeTag _, ?_⟩
  have hlong : tooLong? (typeTag (List.replicate 4301 '1')) = some 4301 := by
    rw [tooLong?, rawTypeIn_typeTag (nesting_ones _), Option.bind_some, parse_ones (by decide)]
  have hread : readTag (typeTag (List.replicate 4301 '1')) = .error (.longInteger 4301) := by
    rw [readTag_eq, hlong]
    rfl
  have hat : '@' ∉ List.replicate 4301 '1' := fun hmem =>
    absurd (List.eq_of_mem_replicate hmem) (by decide)
  rw [parse, hbody, tagTexts_typeTag hat]
  dsimp only
  rw [List.mapM_cons, hread]
  rfl

end DocFlow.Comment
