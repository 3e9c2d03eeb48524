import DocFlow.Proofs.Declaration.Insertion
import DocFlow.Proofs.Outcome

namespace DocFlow

open DeclarationTree

namespace Declarations

def changeNode (path : List Text) (f : DeclarationTree → DeclarationTree) (ds : Declarations) :
    Declarations :=
  { ds with root := ds.root.changeDescendant f path }

variable {ds : Declarations} {path : List Text}

/-- Two changes of one node are one. -/
theorem changeNode_changeNode (f g : DeclarationTree → DeclarationTree) :
    (ds.changeNode path f).changeNode path g = ds.changeNode path (g ∘ f) :=
  congrArg (fun root => { ds with root }) (changeDescendant_changeDescendant f g)

/-- A node that has been changed is there. -/
theorem changeNode_reached (f : DeclarationTree → DeclarationTree) :
    (ds.changeNode path f).changeNode path id = ds.changeNode path f :=
  changeNode_changeNode f id

theorem changeNode_append (f : DeclarationTree → DeclarationTree) (p q : List Text) :
    ds.changeNode (p ++ q) f = ds.changeNode p (changeDescendant f q) :=
  congrArg (fun change => { ds with root := change ds.root }) (changeDescendant_append f p q)

end Declarations

/-- A computation that changes the declarations in place. What it has changed stays when it fails,
but all that can fail comes before the first change. -/
abbrev Build := EStateM Error Declarations

namespace Build

variable {α β : Type}

def changeNode (path : List Text) (f : DeclarationTree → DeclarationTree) : Build Unit :=
  modify (Declarations.changeNode path f)

/-- Follows the name of a function from a node on, and assigns its leaf to the last segment. -/
def descend (leaf : DeclarationForm → Text → Declaration) (above : List Text) (isMethod : Bool) :
    List Text → Build Unit
  | [] => pure ()
  | segment :: rest => do
    if segment = Name.prototype then
      if above = [] then descend leaf above isMethod rest
      else
        changeNode above makeClass
        descend leaf above true rest
    else
      changeNode (above ++ [segment]) id
      if rest = [] then
        changeNode (above ++ [segment])
          (declare (leaf (if isMethod then .method else .function) segment))
      descend leaf (above ++ [segment]) isMethod rest

def reach (above : List Text) : List Text → Build Unit
  | [] => pure ()
  | segment :: rest => do
    changeNode (above ++ [segment]) id
    reach (above ++ [segment]) rest

def addFunction (d : Document) (f : DocumentedFunction) : Build Unit := do
  let params := Declarations.formalsOf d.source.content f
  let segments ← ofExcept (Declarations.segmentsOf d f.place)
  descend (fun form name => { form, name := some name, params, resultType := f.resultType }) []
    false segments
  modify fun ds => { ds with functions := ds.functions + 1 }

def addEnum (d : Document) (e : DocumentedEnum) : Build Unit := do
  let segments ← ofExcept (Declarations.segmentsOf d e.place)
  reach [] segments
  changeNode segments
    (declare { form := .enumeration, name := segments.getLast?, resultType := e.resultType,
               values := e.values, sourceText := some e.sourceText })
  modify fun ds => { ds with enums := ds.enums + 1 }

def visit (d : Document) (p : Script.Place) : Build Unit := do
  match ← ofExcept (Documented.find d.source.content p) with
  | some (.function f) => addFunction d f
  | some (.enumeration e) => addEnum d e
  | none => pure ()

def visits (d : Document) (ps : List Script.Place) : Build Unit := ps.forM (visit d)

def build (d : Document) : Build Unit := visits d d.places

variable {ds : Declarations} {leaf : DeclarationForm → Text → Declaration}

theorem run_ofExcept_bind (x : Except Error α) (k : α → Build β) :
    (ofExcept x >>= k).run ds =
      match x with
      | .ok a => (k a).run ds
      | .error e => .error e ds := by
  cases x <;> rfl

theorem run_changeNode_bind (path : List Text) (f : DeclarationTree → DeclarationTree)
    (k : Unit → Build α) :
    (changeNode path f >>= k).run ds = (k ()).run (ds.changeNode path f) := rfl

/-- To follow the name of a function from a node that is there is one change of that node. -/
theorem run_descend (above : List Text) (isMethod : Bool) (segments : List Text)
    (there : ds.changeNode above id = ds) :
    (descend leaf above isMethod segments).run ds =
      .ok () (ds.changeNode above (insertBelow leaf above.isEmpty isMethod segments)) := by
  fun_induction descend leaf above isMethod segments generalizing ds with
  | case1 above isMethod =>
    have hid : insertBelow leaf above.isEmpty isMethod [] = id := rfl
    rw [hid, there]
    rfl
  | case2 isMethod rest ih =>
    rw [ih there, List.isEmpty_nil, insertBelow_prototype_cons, if_pos rfl]
  | case3 above isMethod rest below ih =>
    have hbelow : above.isEmpty = false := by simp [below]
    rw [run_changeNode_bind, ih (Declarations.changeNode_reached _), hbelow,
      insertBelow_prototype_cons, if_neg Bool.false_ne_true, Declarations.changeNode_changeNode]
  | case4 above isMethod s rest hs ih =>
    have hbelow : (above ++ [s]).isEmpty = false := by simp
    rw [hbelow] at ih
    rw [run_changeNode_bind]
    -- Only the last segment declares, so the end of the name is a case of its own.
    rcases rest with _ | ⟨r, rest⟩
    · have hid : insertBelow leaf false isMethod [] = id := rfl
      dsimp only
      rw [if_pos rfl, run_changeNode_bind, ih (Declarations.changeNode_reached _), hid,
        Declarations.changeNode_reached, Declarations.changeNode_changeNode,
        insertBelow_singleton hs, ← Declarations.changeNode_append]
      rfl
    · dsimp only
      rw [if_neg (List.cons_ne_nil r rest), ih (Declarations.changeNode_reached _),
        insertBelow_cons_cons hs, ← Declarations.changeNode_append,
        Declarations.changeNode_changeNode]
      rfl

/-- To follow the name of an enum from a node that is there adds the nodes on its path. -/
theorem run_reach (above segments : List Text) (there : ds.changeNode above id = ds) :
    (reach above segments).run ds = .ok () (ds.changeNode (above ++ segments) id) := by
  fun_induction reach above segments generalizing ds with
  | case1 above =>
    rw [List.append_nil, there]
    rfl
  | case2 above s rest ih =>
    have hone : (ds.changeNode (above ++ [s]) id).changeNode (above ++ [s] ++ rest) id =
        ds.changeNode (above ++ s :: rest) id :=
      calc (ds.changeNode (above ++ [s]) id).changeNode (above ++ [s] ++ rest) id
        _ = (ds.changeNode (above ++ [s]) id).changeNode (above ++ [s]) (changeDescendant id rest) :=
          Declarations.changeNode_append ..
        _ = ds.changeNode (above ++ [s]) (changeDescendant id rest) :=
          Declarations.changeNode_changeNode ..
        _ = ds.changeNode (above ++ [s] ++ rest) id := (Declarations.changeNode_append ..).symm
        _ = ds.changeNode (above ++ s :: rest) id := by rw [← List.append_cons]
    rw [run_changeNode_bind, ih (Declarations.changeNode_reached id), hone]

theorem run_bind_of_ok {m : Build α} {a : α} {ds' : Declarations} (h : m.run ds = .ok a ds')
    (k : α → Build β) : (m >>= k).run ds = (k a).run ds' := by
  change EStateM.bind m k ds = _
  rw [EStateM.bind, show m ds = .ok a ds' from h]
  rfl

/-- The result of what gives new declarations, or fails before it changes any. -/
def outcome (ds : Declarations) : Except Error Declarations → EStateM.Result Error Declarations Unit
  | .ok ds' => .ok () ds'
  | .error e => .error e ds

variable (d : Document)

theorem run_addFunction (f : DocumentedFunction) :
    (addFunction d f).run ds = outcome ds (Declarations.withFunction d ds f) := by
  rw [addFunction, Declarations.withFunction, run_ofExcept_bind]
  cases Declarations.segmentsOf d f.place with
  | error e => rfl
  | ok segments => exact run_bind_of_ok (run_descend [] false segments rfl) _

theorem run_addEnum (e : DocumentedEnum) :
    (addEnum d e).run ds = outcome ds (Declarations.withEnum d ds e) := by
  rw [addEnum, Declarations.withEnum, run_ofExcept_bind]
  cases Declarations.segmentsOf d e.place with
  | error e => rfl
  | ok segments =>
    dsimp only
    rw [run_bind_of_ok (run_reach [] segments rfl), run_changeNode_bind, List.nil_append,
      Declarations.changeNode_changeNode]
    rfl

/-- A visit in place is a step, and leaves the declarations alone where that fails. -/
theorem run_visit (p : Script.Place) :
    (visit d p).run ds = outcome ds (Declarations.step d ds p) := by
  rw [visit, Declarations.step, run_ofExcept_bind]
  rcases Documented.find d.source.content p with e | _ | f | e
  · rfl
  · rfl
  · exact run_addFunction d f
  · exact run_addEnum d e

theorem run_visit_eq_ok {p : Script.Place} {ds' : Declarations} :
    (visit d p).run ds = .ok () ds' ↔ Declarations.step d ds p = .ok ds' := by
  rw [run_visit]
  cases Declarations.step d ds p <;> simp [outcome]

theorem run_visit_eq_error {p : Script.Place} {e : Error} {ds' : Declarations} :
    (visit d p).run ds = .error e ds' ↔ Declarations.step d ds p = .error e ∧ ds' = ds := by
  rw [run_visit]
  cases Declarations.step d ds p <;> simp [outcome, eq_comm]

theorem run_visits_cons_of_ok {p : Script.Place} {ds' : Declarations}
    (h : Declarations.step d ds p = .ok ds') (ps : List Script.Place) :
    (visits d (p :: ps)).run ds = (visits d ps).run ds' :=
  run_bind_of_ok ((run_visit_eq_ok d).2 h) fun _ => visits d ps

theorem run_visits_cons_of_error {p : Script.Place} {e : Error}
    (h : Declarations.step d ds p = .error e) (ps : List Script.Place) :
    (visits d (p :: ps)).run ds = .error e ds := by
  change EStateM.bind (visit d p) (fun _ => visits d ps) ds = _
  rw [EStateM.bind, show visit d p ds = .error e ds from (run_visit_eq_error d).2 ⟨h, rfl⟩]

theorem run_visits_eq_ok {ps : List Script.Place} {ds' : Declarations} :
    (visits d ps).run ds = .ok () ds' ↔ ps.foldlM (Declarations.step d) ds = .ok ds' := by
  induction ps generalizing ds with
  | nil =>
    constructor
    · rintro ⟨⟩
      rfl
    · rintro ⟨⟩
      rfl
  | cons p ps ih =>
    rw [List.foldlM_cons]
    cases hstep : Declarations.step d ds p with
    | error e =>
      rw [run_visits_cons_of_error d hstep]
      exact iff_of_false nofun nofun
    | ok mid =>
      rw [run_visits_cons_of_ok d hstep]
      exact ih

/-- Visits fail at the first that fails, with what those before it have changed. -/
theorem exists_failed_visit {ps : List Script.Place} {e : Error} {ds' : Declarations}
    (h : (visits d ps).run ds = .error e ds') :
    ps.foldlM (Declarations.step d) ds = .error e ∧
      ∃ before p after, ps = before ++ p :: after ∧ (visits d before).run ds = .ok () ds' ∧
        (visit d p).run ds' = .error e ds' := by
  induction ps generalizing ds with
  | nil => cases h
  | cons p ps ih =>
    cases hstep : Declarations.step d ds p with
    | error e' =>
      rw [run_visits_cons_of_error d hstep] at h
      cases h
      rw [List.foldlM_cons, hstep]
      exact ⟨rfl, [], p, ps, rfl, rfl, (run_visit_eq_error d).2 ⟨hstep, rfl⟩⟩
    | ok mid =>
      rw [run_visits_cons_of_ok d hstep] at h
      obtain ⟨hfold, before, q, after, rfl, hbefore, hq⟩ := ih h
      rw [List.foldlM_cons, hstep]
      refine ⟨hfold, p :: before, q, after, rfl, ?_, hq⟩
      rw [run_visits_cons_of_ok d hstep, hbefore]

/-- A visit in place makes the step of its place, and where that fails it leaves the declarations as
they were. So a build that fails leaves what the places before the one that fails have built. -/
theorem failed_visit_changes_nothing :
    (∀ p ds ds', (visit d p).run ds = .ok () ds' ↔ Declarations.step d ds p = .ok ds') ∧
      (∀ p ds e ds', (visit d p).run ds = .error e ds' ↔
        Declarations.step d ds p = .error e ∧ ds' = ds) ∧
      (∀ ds, (build d).run {} = .ok () ds ↔ Declarations.ofDocument d = .ok ds) ∧
      ∀ e ds, (build d).run {} = .error e ds →
        Declarations.ofDocument d = .error e ∧
          ∃ before p after, d.places = before ++ p :: after ∧
            (visits d before).run {} = .ok () ds ∧ (visit d p).run ds = .error e ds := by
  exact ⟨fun _ _ _ => run_visit_eq_ok d, fun _ _ _ _ => run_visit_eq_error d,
    fun _ => run_visits_eq_ok d, fun _ _ => exists_failed_visit d⟩

/-- A name that uses the reserved segment below others leaves none of them in the tree. -/
theorem failed_visit_of_reserved_segment :
    ∃ d ds p before after, Document.ofSource
        ⟨"/** @return {a} */function f(){} /** @return {b} */x.y.meta.g=function(){}".toList, [],
          "js".toList, "utf-8".toList⟩ = .ok d ∧
      (build d).run {} = .error (.reservedSegment "x.y.meta.g".toList) ds ∧
      d.places = before ++ p :: after ∧ (visits d before).run {} = .ok () ds ∧
      ds.functions = 1 ∧ ds.root.segments = ["f".toList] := by
  generalize hs : (Source.mk
    "/** @return {a} */function f(){} /** @return {b} */x.y.meta.g=function(){}".toList []
    "js".toList "utf-8".toList) = s
  have built : ((Document.ofSource s).toOption.bind fun d =>
      match (build d).run {} with
      | .error (.reservedSegment name) ds => some (name, ds.functions, ds.root.segments)
      | _ => none) = some ("x.y.meta.g".toList, 1, ["f".toList]) := by
    subst hs
    decide +kernel
  obtain ⟨d, hd, h⟩ := Option.bind_eq_some_iff.1 built
  split at h
  · next name ds hbuild =>
    obtain ⟨rfl, hfunctions, hsegments⟩ : _ ∧ _ ∧ _ := by
      simpa only [Option.some.injEq, Prod.mk.injEq] using h
    obtain ⟨-, before, p, after, hplaces, hbefore, -⟩ :=
      (failed_visit_changes_nothing d).2.2.2 _ _ hbuild
    exact ⟨d, ds, p, before, after, eq_ok_of_toOption hd, hbuild, hplaces, hbefore, hfunctions,
      hsegments⟩
  · cases h

end Build

end DocFlow
