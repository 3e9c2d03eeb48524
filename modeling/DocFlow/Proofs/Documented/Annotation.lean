import DocFlow.Documented.Find
import DocFlow.Documented.Parameter
import DocFlow.Proofs.TypeExpr.FlowText

namespace DocFlow

def Tag.FlowFits (t : Tag) : Prop := ∀ e, t.type = some e → e.FlowFits

namespace Comment

theorem flowFits_of_readType {raw : Text} {type : Option TypeExpr} (h : readType raw = .ok type) :
    ∀ e, type = some e → e.FlowFits := by
  unfold readType at h
  split at h
  · next e hparse =>
    cases h
    intro e' he'
    cases he'
    exact TypeExpr.flowFits_of_parse hparse
  · cases h
    exact nofun
  · cases h

theorem flowFits_of_takeType {title rest : Text} {t : Typed} (h : takeType title rest = .ok t) :
    ∀ e, t.type = some e → e.FlowFits := by
  unfold takeType at h
  split at h
  · split at h
    · obtain ⟨type, htype, rfl⟩ := map_eq_ok.1 h
      exact flowFits_of_readType htype
    · cases h
      exact nofun
  · cases h
    exact nofun

/-- A bracketed name puts a mark before the type, which keeps it in the comment. -/
theorem flowFits_withName {title : Text} {t : Typed} (h : ∀ e, t.type = some e → e.FlowFits) :
    (withName title t).FlowFits := by
  intro e he
  unfold withName at he
  split at he
  · dsimp only at he
    split at he
    · obtain ⟨inner, hinner, rfl⟩ := Option.map_eq_some_iff.1 he
      exact .question rfl (h inner hinner)
    · exact h e he
  · exact h e he

theorem flowFits_of_readTag {t : Text} {tag : Tag} (h : readTag t = .ok tag) : tag.FlowFits := by
  obtain ⟨typed, htyped, rfl⟩ := map_eq_ok.1 h
  exact flowFits_withName (flowFits_of_takeType htyped)

theorem flowFits_of_parse {body : Text} {tags : List Tag} (h : parse body = .ok tags) :
    ∀ tag ∈ tags, tag.FlowFits := by
  unfold parse at h
  split at h
  · cases h
  · intro tag htag
    obtain ⟨t, -, ht⟩ := mem_of_mapM_eq_ok h htag
    exact flowFits_of_readTag ht

theorem someText_ne_nil (t : Text) : someText t ≠ some [] := by
  unfold someText
  split <;> simp_all

/-- A name that is read is not empty. -/
theorem nameFront_ne_nil (t : Text) : (nameFront t).name ≠ some [] := by
  unfold nameFront
  split
  · exact nofun
  · split
    · exact nofun
    · exact someText_ne_nil _
  · split
    · exact nofun
    · next nonempty =>
      intro h
      simp_all

theorem name_ne_nil_of_parse {body : Text} {tags : List Tag} (h : parse body = .ok tags) :
    ∀ tag ∈ tags, tag.name ≠ some [] := by
  unfold parse at h
  split at h
  · cases h
  · intro tag htag
    obtain ⟨t, -, ht⟩ := mem_of_mapM_eq_ok h htag
    obtain ⟨typed, -, rfl⟩ := map_eq_ok.1 ht
    unfold withName
    split
    · exact nameFront_ne_nil _
    · exact nofun

end Comment

namespace Tag

theorem nonemptyFlow_eq_some {t : Tag} {type : Text} :
    t.nonemptyFlow = some type ↔ t.flow = some type ∧ type ≠ [] := by
  simp [nonemptyFlow, Option.filter_eq_some_iff]

theorem FlowFits.fits {t : Tag} (h : t.FlowFits) {type : Text} (ht : t.nonemptyFlow = some type) :
    type ≠ [] ∧ type.FitsComment := by
  obtain ⟨hflow, nonempty⟩ := nonemptyFlow_eq_some.1 ht
  obtain ⟨e, he, hflow⟩ := Option.bind_eq_some_iff.1 hflow
  exact ⟨nonempty, h e he type hflow⟩

theorem typeFor_fits {tags : List Tag} (h : ∀ t ∈ tags, t.FlowFits) {name type : Text}
    (ht : typeFor tags name = some type) : type ≠ [] ∧ type.FitsComment := by
  obtain ⟨t, hmem, ht⟩ := List.exists_of_findSome?_eq_some ht
  split at ht
  · exact (h t hmem).fits ht
  · cases ht

theorem typeFor_ne_nil {tags : List Tag} {name : Text} : typeFor tags name ≠ some [] := by
  intro h
  obtain ⟨t, -, ht⟩ := List.exists_of_findSome?_eq_some h
  split at ht
  · exact (nonemptyFlow_eq_some.1 ht).2 rfl
  · cases ht

theorem typeFor_nil {tags : List Tag} (h : ∀ t ∈ tags, t.name ≠ some []) :
    typeFor tags [] = none := by
  rw [typeFor, List.findSome?_eq_none_iff]
  intro t ht
  exact if_neg fun named => h t ht named.2

theorem resultType_fits {tags : List Tag} (h : ∀ t ∈ tags, t.FlowFits) {type : Text}
    (ht : resultType tags = some type) : type ≠ [] ∧ type.FitsComment := by
  obtain ⟨t, hfind, ht⟩ := Option.bind_eq_some_iff.1 ht
  exact (h t (List.mem_of_find?_eq_some hfind)).fits ht

end Tag

namespace Documented

/-- The tags of a documented function are those of a comment before it. -/
theorem exists_comment_of_findFunction {source : Text} {p : Script.Place} {f : DocumentedFunction}
    (h : findFunction source p = .ok (some f)) :
    functionPlace? p = some f.place ∧
      ∃ c ∈ LeadingComment.ofPlace source p, Comment.parse c.body = .ok f.tags := by
  unfold findFunction at h
  split at h
  · cases h
  · next place hplace =>
    split at h
    · cases h
    · next c hc =>
      obtain ⟨tags?, htags, h⟩ := bind_eq_ok.1 h
      cases tags? with
      | none => cases h
      | some tags =>
        cases h
        refine ⟨hplace, c, List.mem_of_find?_eq_some hc, ?_⟩
        unfold readTags? at htags
        split at htags
        · next hparse =>
          cases htags
          exact hparse
        · cases htags
        · cases htags

theorem name_ne_nil_of_findFunction {source : Text} {p : Script.Place} {f : DocumentedFunction}
    (h : findFunction source p = .ok (some f)) : ∀ t ∈ f.tags, t.name ≠ some [] := by
  obtain ⟨-, c, -, hparse⟩ := exists_comment_of_findFunction h
  exact Comment.name_ne_nil_of_parse hparse

theorem flowFits_of_findFunction {source : Text} {p : Script.Place} {f : DocumentedFunction}
    (h : findFunction source p = .ok (some f)) : ∀ t ∈ f.tags, t.FlowFits := by
  obtain ⟨-, c, -, hparse⟩ := exists_comment_of_findFunction h
  exact Comment.flowFits_of_parse hparse

end Documented

end DocFlow
