import Mathlib
import DocFlow.Proofs.TypeExpr.Completeness
import DocFlow.Proofs.TypeExpr.Writing

namespace DocFlow

open TypeGrammar

namespace TypeExpr

/-- A part without a text is left out of the text around it. A part with an empty text leaves a gap,
and any other has the gaps of its own parts. -/
def fills : Option Text → Bool → Bool
  | none, _ => true
  | some [], _ => false
  | some (_ :: _), filled => filled

mutual

def filled : TypeExpr → Bool
  | .generic _ arguments => filledFirst arguments
  | .union ts => filledEach ts
  | .nullable inner _ => fills (flow inner) (filled inner)
  | .optional inner => fills (flow inner) (filled inner)
  | _ => true

def filledFirst : List TypeExpr → Bool
  | [] => true
  | t :: _ => fills (flow t) (filled t)

def filledEach : List TypeExpr → Bool
  | [] => true
  | t :: ts => fills (flow t) (filled t) && filledEach ts

end

theorem fills_some {t : Text} {filled : Bool} :
    fills (some t) filled = true ↔ filled = true ∧ t ≠ [] := by
  cases t with
  | nil => simp [fills]
  | cons c t => simp [fills]

theorem filledEach_of_flowEach {es : List TypeExpr} (h : flowEach es = []) :
    filledEach es = true := by
  induction es with
  | nil => rfl
  | cons e es ih =>
    rw [flowEach] at h
    split at h
    · cases h
    · next hnone => rw [filledEach, hnone, fills, ih h, Bool.and_self]

theorem ne_nil_of_filledEach {es : List TypeExpr} (h : filledEach es = true) :
    ∀ t ∈ flowEach es, t ≠ [] := by
  induction es with
  | nil => exact nofun
  | cons e es ih =>
    rw [filledEach, Bool.and_eq_true] at h
    rw [flowEach]
    split
    · next t ht =>
      rw [ht, fills_some] at h
      rw [List.forall_mem_cons]
      exact ⟨h.1.2, ih h.2⟩
    · exact ih h.2

end TypeExpr

theorem Text.join_ne_nil {sep : Text} {ts : List Text} (hne : ts ≠ []) (h : ∀ t ∈ ts, t ≠ []) :
    Text.join sep ts ≠ [] := by
  cases ts with
  | nil => exact absurd rfl hne
  | cons t ts =>
    have ht := h t List.mem_cons_self
    cases ts with
    | nil => exact ht
    | cons u us =>
      rw [Text.join, List.append_assoc]
      exact List.append_ne_nil_of_left_ne_nil ht _

theorem Text.join_cons_cons (sep : Text) (c : Char) (t : Text) (ts : List Text) :
    Text.join sep ((c :: t) :: ts) = c :: Text.join sep (t :: ts) := by
  cases ts <;> rfl

theorem Text.join_append (sep : Text) {ts us : List Text} (hts : ts ≠ []) (hus : us ≠ []) :
    Text.join sep (ts ++ us) = Text.join sep ts ++ sep ++ Text.join sep us := by
  induction ts with
  | nil => exact absurd rfl hts
  | cons t ts ih =>
    cases ts with
    | nil =>
      obtain ⟨u, us, rfl⟩ := List.exists_cons_of_ne_nil hus
      rfl
    | cons t' ts =>
      have hmore := ih (List.cons_ne_nil _ _)
      rw [List.cons_append] at hmore
      rw [List.cons_append, List.cons_append, Text.join, Text.join, hmore]
      simp [List.append_assoc]

namespace TypeGrammar

def Lexeme.StartsType : Lexeme → Prop
  | .mark m => m = .question
  | .name _ => True
  | .string _ | .number _ => False

def flowFollowers : List Mark := [.bar, .closeAngle]

theorem not_startsSuffix {rest : List Token} (h : EndsBefore flowFollowers rest) :
    ¬ StartsSuffix rest := by
  cases rest with
  | nil => exact id
  | cons t rest =>
    obtain ⟨l, p⟩ := t
    obtain ⟨m, hm, rfl⟩ := h
    simp only [flowFollowers, List.mem_cons, List.not_mem_nil, or_false] at hm
    rcases hm with rfl | rfl <;> exact id

theorem Derives.bar_append {ts mid rest : List Token} {p : Nat} {es es' : List TypeExpr}
    (h : Derives .members ts es (⟨.mark .bar, p⟩ :: mid)) (h' : Derives .members mid es' rest) :
    Derives .members ts (es ++ es') rest := by
  induction es generalizing ts with
  | nil => cases h
  | cons e es ih =>
    cases h with
    | member first => exact .bar first h'
    | bar first more => exact .bar first (ih more)

theorem Derives.nullable_members {ts rest : List Token} {p : Nat} {e : TypeExpr}
    {es : List TypeExpr} (followed : ¬ EndsBefore unknownFollowers ts)
    (h : Derives .members ts (e :: es) rest) :
    Derives .members (⟨.mark .question, p⟩ :: ts) (.nullable e .before :: es) rest := by
  cases h with
  | member first => exact .member (.nullable followed first)
  | bar first more => exact .bar (.nullable followed first) more

structure Reads (s : Text) (ls : List Lexeme) (es : List TypeExpr) : Prop where
  derived {ts rest} : ts.map Token.lexeme = ls → EndsBefore flowFollowers rest →
    Derives .members (ts ++ rest) es rest
  written : ∃ texts, texts ≠ [] ∧ es.map TypeExpr.flow = texts.map some ∧
    Text.join " | ".toList texts = s
  starts : ∃ l more, ls = l :: more ∧ l.StartsType

theorem flowEach_of_map {es : List TypeExpr} {texts : List Text}
    (h : es.map TypeExpr.flow = texts.map some) : TypeExpr.flowEach es = texts := by
  induction es generalizing texts with
  | nil =>
    rw [List.map_nil, eq_comm, List.map_eq_nil_iff] at h
    rw [h]
    rfl
  | cons e es ih =>
    obtain ⟨t, ts, rfl, ht, hts⟩ := List.map_eq_cons_iff.1 h.symm
    rw [TypeExpr.flowEach, ← ht]
    exact congrArg (t :: ·) (ih hts.symm)

namespace Reads

variable {s s' n : Text} {ls ls' : List Lexeme} {es es' : List TypeExpr}

/-- Read as one type, a text has itself as Flow text. -/
theorem flow_ofMembers (h : Reads s ls es) : (ofMembers es).flow = some s := by
  obtain ⟨texts, -, hflow, rfl⟩ := h.written
  have heach := flowEach_of_map hflow
  unfold ofMembers
  split
  · next e =>
    obtain ⟨t, rest, rfl, ht, hrest⟩ := List.map_eq_cons_iff.1 hflow.symm
    obtain rfl := List.map_eq_nil_iff.1 hrest
    exact ht.symm
  · rw [TypeExpr.flow, heach]

theorem name (free : isReservedName n = false) : Reads n [.name n] [.named n] := by
  refine ⟨fun {ts rest} hts hrest => ?_, ⟨[n], List.cons_ne_nil _ _, rfl, rfl⟩, _, _, rfl, trivial⟩
  obtain ⟨⟨l, p⟩, more, rfl, rfl, hmore⟩ := List.map_eq_cons_iff.1 hts
  obtain rfl := List.map_eq_nil_iff.1 hmore
  rw [← ofName_of_free free]
  exact .member (.suffixed .name (.done (not_startsSuffix hrest)))

/-- Before a type, a question mark is no type of its own. -/
theorem not_endsBefore (h : Reads s ls es) {ts : List Token} (hts : ts.map Token.lexeme = ls)
    (rest : List Token) : ¬ EndsBefore unknownFollowers (ts ++ rest) := by
  obtain ⟨l, more, rfl, hstarts⟩ := h.starts
  obtain ⟨⟨l, p⟩, ts, rfl, rfl, -⟩ := List.map_eq_cons_iff.1 hts
  rintro ⟨m, hm, hl⟩
  dsimp only at hl hstarts
  subst hl
  rw [show m = .question from hstarts] at hm
  exact absurd hm (by decide)

theorem question (h : Reads s ls es) : ∃ es, Reads ('?' :: s) (.mark .question :: ls) es := by
  obtain ⟨texts, hne, hflow, rfl⟩ := h.written
  obtain ⟨t, texts, rfl⟩ := List.exists_cons_of_ne_nil hne
  obtain ⟨e, es, rfl, he, hes⟩ := List.map_eq_cons_iff.1 hflow
  refine ⟨.nullable e .before :: es, fun {ts rest} hts hrest => ?_,
    ⟨('?' :: t) :: texts, List.cons_ne_nil _ _, ?_, Text.join_cons_cons ..⟩, _, _, rfl, rfl⟩
  · obtain ⟨⟨l, p⟩, more, rfl, rfl, hmore⟩ := List.map_eq_cons_iff.1 hts
    exact .nullable_members (h.not_endsBefore hmore rest) (h.derived hmore hrest)
  · rw [List.map_cons, TypeExpr.flow, he, hes]
    rfl

theorem generic (hn : n ≠ []) (free : isReservedName n = false) (hs : s ≠ []) (h : Reads s ls es) :
    Reads (n ++ '<' :: (s ++ ['>']))
      (.name n :: .mark .openAngle :: (ls ++ [.mark .closeAngle]))
      [.generic (.named n) [ofMembers es]] := by
  refine ⟨fun {ts rest} hts hrest => ?_, ⟨[n ++ '<' :: (s ++ ['>'])], List.cons_ne_nil _ _, ?_, rfl⟩,
    _, _, rfl, trivial⟩
  · obtain ⟨⟨l, p⟩, behind, rfl, rfl, hbehind⟩ := List.map_eq_cons_iff.1 hts
    obtain ⟨⟨l, q⟩, more, rfl, rfl, hmore⟩ := List.map_eq_cons_iff.1 hbehind
    obtain ⟨inside, last, rfl, hinside, hlast⟩ := List.map_eq_append_iff.1 hmore
    obtain ⟨⟨l, r⟩, none, rfl, rfl, hnone⟩ := List.map_eq_cons_iff.1 hlast
    obtain rfl := List.map_eq_nil_iff.1 hnone
    have hclose : EndsBefore flowFollowers (⟨.mark .closeAngle, r⟩ :: rest) :=
      ⟨.closeAngle, by decide, rfl⟩
    have harguments := Derives.argument (.alternatives (h.derived hinside hclose))
    have hgeneric := Derives.generic (p := p) (q := q) free (.inl rfl) harguments
    have hmembers := Derives.member (.suffixed hgeneric (.done (not_startsSuffix hrest)))
    simpa using hmembers
  · simp [TypeExpr.flow, TypeExpr.flowFirst, h.flow_ofMembers, TypeExpr.genericText, hn, hs]

theorem bar (h : Reads s ls es) (h' : Reads s' ls' es') :
    Reads (s ++ " | ".toList ++ s') (ls ++ .mark .bar :: ls') (es ++ es') := by
  refine ⟨fun {ts rest} hts hrest => ?_, ?_, ?_⟩
  · obtain ⟨first, behind, rfl, hfirst, hbehind⟩ := List.map_eq_append_iff.1 hts
    obtain ⟨⟨l, p⟩, more, rfl, rfl, hmore⟩ := List.map_eq_cons_iff.1 hbehind
    have hbar : EndsBefore flowFollowers (⟨.mark .bar, p⟩ :: (more ++ rest)) :=
      ⟨.bar, by decide, rfl⟩
    have hall := (h.derived hfirst hbar).bar_append (h'.derived hmore hrest)
    simpa using hall
  · obtain ⟨texts, hne, hflow, rfl⟩ := h.written
    obtain ⟨texts', hne', hflow', rfl⟩ := h'.written
    refine ⟨texts ++ texts', List.append_ne_nil_of_left_ne_nil hne _, ?_, Text.join_append _ hne hne'⟩
    rw [List.map_append, List.map_append, hflow, hflow']
  · obtain ⟨l, more, rfl, hl⟩ := h.starts
    exact ⟨l, _, rfl, hl⟩

end Reads

/-- The lexemes of a text miss no operand iff the text has no gap, and then they are read. -/
structure LexemesOf (s : Text) (gapless : Prop) (ls : List Lexeme) : Prop where
  writes : Writes s ls
  operands : hasOperands true ls = true ↔ gapless
  reads : hasOperands true ls = true → ∃ es, Reads s ls es

namespace LexemesOf

variable {s s' n : Text} {gapless gapless' : Prop} {ls ls' : List Lexeme}

theorem congr (h : LexemesOf s gapless ls) (hiff : gapless ↔ gapless') : LexemesOf s gapless' ls :=
  ⟨h.writes, h.operands.trans hiff, h.reads⟩

theorem nil : LexemesOf [] False [] := ⟨.nil, by simp [hasOperands], nofun⟩

theorem name (hn : IsName n) (free : isReservedName n = false) : LexemesOf n True [.name n] :=
  ⟨.name hn, by simp [hasOperands], fun _ => ⟨_, .name free⟩⟩

theorem question (h : LexemesOf s gapless ls) :
    LexemesOf ('?' :: s) gapless (.mark .question :: ls) := by
  refine ⟨h.writes.question, h.operands, fun operands => ?_⟩
  obtain ⟨es, reads⟩ := h.reads operands
  exact reads.question

theorem generic (hn : IsName n) (free : isReservedName n = false) (hs : s ≠ [])
    (h : LexemesOf s gapless ls) :
    LexemesOf (n ++ '<' :: (s ++ ['>'])) gapless
      (.name n :: .mark .openAngle :: (ls ++ [.mark .closeAngle])) := by
  refine ⟨.generic hn h.writes, by rw [hasOperands_generic]; exact h.operands, fun operands => ?_⟩
  rw [hasOperands_generic] at operands
  obtain ⟨es, reads⟩ := h.reads operands
  exact ⟨_, reads.generic hn.ne_nil free hs⟩

theorem bar (h : LexemesOf s gapless ls) (h' : LexemesOf s' gapless' ls') :
    LexemesOf (s ++ " | ".toList ++ s') (gapless ∧ gapless') (ls ++ .mark .bar :: ls') := by
  have hboth : hasOperands true (ls ++ .mark .bar :: ls') = true ↔
      hasOperands true ls = true ∧ hasOperands true ls' = true := by
    rw [hasOperands_bar, Bool.and_eq_true]
  refine ⟨h.writes.bar h'.writes, hboth.trans (and_congr h.operands h'.operands), fun operands => ?_⟩
  obtain ⟨operands, operands'⟩ := hboth.1 operands
  obtain ⟨es, reads⟩ := h.reads operands
  obtain ⟨es', reads'⟩ := h'.reads operands'
  exact ⟨_, reads.bar reads'⟩

end LexemesOf

end TypeGrammar

namespace TypeExpr

theorem exists_lexemes_of_flowEach {es : List TypeExpr}
    (h : ∀ e ∈ es, ∀ s, e.flow = some s → ∃ ls, LexemesOf s (e.filled = true ∧ s ≠ []) ls) :
    ∃ ls, LexemesOf (Text.join " | ".toList (flowEach es))
      (filledEach es = true ∧ flowEach es ≠ []) ls := by
  induction es with
  | nil => exact ⟨[], LexemesOf.nil.congr (by simp [flowEach])⟩
  | cons e es ih =>
    have hmore := ih fun e he => h e (List.mem_cons_of_mem _ he)
    cases hflow : e.flow with
    | none =>
      rw [flowEach, hflow, filledEach, hflow, fills, Bool.true_and]
      exact hmore
    | some s =>
      obtain ⟨ls, hls⟩ := h e List.mem_cons_self s hflow
      have hfills : filledEach (e :: es) = true ↔
          (e.filled = true ∧ s ≠ []) ∧ filledEach es = true := by
        rw [filledEach, hflow, Bool.and_eq_true, fills_some]
      rw [hfills, flowEach, hflow]
      dsimp only
      cases hrest : flowEach es with
      | nil =>
        -- None of the later members has a text, so no bar is written.
        refine ⟨ls, hls.congr ?_⟩
        simp [filledEach_of_flowEach hrest]
      | cons t ts =>
        obtain ⟨ls', hls'⟩ := hmore
        rw [hrest] at hls'
        exact ⟨_, (hls.bar hls').congr (by simp [and_assoc])⟩

/-- A Flow text of names is written as lexemes that miss no operand iff the type is filled. -/
theorem exists_lexemes {e : TypeExpr} (h : e.NamedBy IsName) {s : Text} (hs : e.flow = some s) :
    ∃ ls, LexemesOf s (e.filled = true ∧ s ≠ []) ls := by
  induction h generalizing s with
  | formless none => rw [none] at hs; cases hs
  | any =>
    cases hs
    have hread : nameLexeme? "any".toList = some ("any".toList, []) := rfl
    exact ⟨_, (LexemesOf.name (isName_of_nameLexeme? hread) rfl).congr (by decide)⟩
  | named free name =>
    rw [flow] at hs
    cases hs
    exact ⟨_, (LexemesOf.name name free).congr (by simp [filled, name.ne_nil])⟩
  | @generic n es free name _ ih =>
    cases es with
    | nil => simp [flow, flowFirst, genericText] at hs
    | cons e es =>
      rw [flow, flowFirst, flow] at hs
      cases hflow : e.flow with
      | none => simp [hflow, genericText] at hs
      | some a =>
        by_cases ha : a = []
        · simp [hflow, genericText, ha] at hs
        · obtain ⟨ls, hls⟩ := ih e List.mem_cons_self hflow
          rw [hflow, genericText, if_neg (by simp [ha, name.ne_nil])] at hs
          cases hs
          refine ⟨_, (hls.generic name free ha).congr ?_⟩
          rw [filled, filledFirst, hflow, fills_some]
          simp
  | @union es _ ih =>
    rw [flow] at hs
    cases hs
    obtain ⟨ls, hls⟩ := exists_lexemes_of_flowEach fun e he s hflow => ih e he hflow
    refine ⟨ls, hls.congr ?_⟩
    rw [filled]
    -- Without gaps, the text of a union is empty only if no member has a text.
    refine and_congr_right fun hfilled => not_congr ⟨fun hnil => by rw [hnil]; rfl, fun hempty => ?_⟩
    by_contra hne
    exact Text.join_ne_nil hne (ne_nil_of_filledEach hfilled) hempty
  | nullable _ ih | optional _ ih =>
    rw [flow] at hs
    obtain ⟨t, ht, rfl⟩ := Option.map_eq_some_iff.1 hs
    obtain ⟨ls, hls⟩ := ih ht
    refine ⟨_, hls.question.congr ?_⟩
    rw [filled, ht, fills_some]
    simp

/-- The Flow text of a parsed type, unless it is empty, is itself parsed to a type with this text iff
no part of the type leaves a gap in it. -/
theorem rereads_iff_filled {text : Text} {e : TypeExpr} (h : parse text = .ok e) {s : Text}
    (hs : e.flow = some s) (hne : s ≠ []) :
    (∃ e', parse s = .ok e' ∧ e'.flow = some s) ↔ e.filled = true := by
  have harray : nameLexeme? "Array".toList = some ("Array".toList, []) := rfl
  have hnamed := namedBy_of_parse (isName_of_nameLexeme? harray)
    (fun _ _ _ => isName_of_nameLexeme?) h
  obtain ⟨ls, hls⟩ := exists_lexemes hnamed hs
  obtain ⟨ts, hts, hlexemes⟩ := lexed_iff_tokens.1 hls.writes.lexed_trim
  have hoperands : hasOperands true ls = true ↔ e.filled = true := by
    rw [hls.operands]
    exact and_iff_left hne
  rw [← hoperands]
  constructor
  · rintro ⟨e', hparse, hflow⟩
    obtain ⟨ts', hts', hparsed⟩ := parse_eq_ok.1 hparse
    rw [hts] at hts'
    cases hts'
    have plain : ∀ t ∈ ts, t.lexeme.IsFlow := by
      intro t ht
      apply hls.writes.plain
      rw [← hlexemes]
      exact List.mem_map_of_mem ht
    have count : questions e'.flow = (ts.map Token.lexeme).count (.mark .question) := by
      rw [hlexemes, ← hls.writes.count, hflow]
      rfl
    -- Both texts are one, so no question mark is lost between the tokens and the second text.
    rw [← hlexemes]
    exact Spells.hasOperands (spells_of_ofTokens hparsed) plain count
  · intro operands
    obtain ⟨es, reads⟩ := hls.reads operands
    have hend : EndsBefore flowFollowers [] := trivial
    have derived := reads.derived hlexemes hend
    rw [List.append_nil] at derived
    have spells : Spells ts (ofMembers es) := .alternatives derived
    exact ⟨ofMembers es, parse_eq_ok.2 ⟨ts, hts, ofTokens_of_spells spells⟩, reads.flow_ofMembers⟩

/-- The parentheses of a union are left out of its Flow text, which is read back to the same text. -/
theorem rereads_nullable_union :
    ∃ e s e', parse "?(string|Array.<a.B>)".toList = .ok e ∧ e.flow = some s ∧ s ≠ [] ∧
      s = "?string | Array<a.B>".toList ∧ parse s = .ok e' ∧ e'.flow = some s := by
  have read : (parse "?(string|Array.<a.B>)".toList).toOption.map (fun e => (e.flow, e.filled)) =
      some (some "?string | Array<a.B>".toList, true) := by
    decide +kernel
  obtain ⟨e, he, hread⟩ := Option.map_eq_some_iff.1 read
  obtain ⟨hflow, hfilled⟩ := Prod.mk.inj hread
  have hparse := eq_ok_of_toOption he
  obtain ⟨e', hparse', hflow'⟩ := (rereads_iff_filled hparse hflow (by decide)).2 hfilled
  exact ⟨e, _, e', hparse, hflow, by decide, rfl, hparse', hflow'⟩

/-- A union of nothing but null has an empty text. A question mark before it is the unknown type. -/
theorem not_rereads_nullable_null :
    ∃ e s, parse "?(null)".toList = .ok e ∧ e.flow = some s ∧ s ≠ [] ∧
      ¬ ∃ e', parse s = .ok e' ∧ e'.flow = some s := by
  have read : (parse "?(null)".toList).toOption.map flow = some (some "?".toList) := by
    decide +kernel
  have reread : (parse "?".toList).toOption.map flow = some none := by decide +kernel
  obtain ⟨e, he, hflow⟩ := Option.map_eq_some_iff.1 read
  refine ⟨e, _, eq_ok_of_toOption he, hflow, by decide, ?_⟩
  rintro ⟨e', hparse, hflow'⟩
  rw [hparse] at reread
  have hnone : e'.flow = none := Option.some.inj reread
  rw [hnone] at hflow'
  cases hflow'

end TypeExpr

end DocFlow
