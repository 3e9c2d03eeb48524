import Mathlib
import DocFlow.Declaration.Basic

namespace DocFlow.DeclarationTree

/-- Changes what a node declares. -/
def redeclare (g : Option Declaration → Option Declaration) : DeclarationTree → DeclarationTree
  | node d cs => node (g d) cs

def declaredAt (p : List Text) (t : DeclarationTree) : Option Declaration :=
  (t.descendant? p).bind declared

def segments (t : DeclarationTree) : List Text := t.children.map Prod.fst

def segmentsAt (p : List Text) (t : DeclarationTree) : List Text :=
  ((t.descendant? p).map segments).getD []

def addSegment : Option Text → List Text → List Text
  | none, ss => ss
  | some s, ss => if s ∈ ss then ss else ss ++ [s]

/-- The segment that follows a path on the way along another one. -/
def segmentAfter : List Text → List Text → Option Text
  | [], q => q.head?
  | _ :: _, [] => none
  | s :: p, s' :: q => if s = s' then segmentAfter p q else none

@[simp] theorem segmentAfter_nil_right (p : List Text) : segmentAfter p [] = none := by
  cases p <;> rfl

theorem lookup_cons_eq (s key : Text) (t : DeclarationTree) (cs : List (Text × DeclarationTree)) :
    ((key, t) :: cs).lookup s = if s = key then some t else cs.lookup s := by
  by_cases hs : s = key
  · simp [hs]
  · have hbeq : (s == key) = false := beq_eq_false_iff_ne.2 hs
    simp [List.lookup_cons, hbeq, hs]

theorem lookup_changeAt (s s' : Text) (f : DeclarationTree → DeclarationTree)
    (cs : List (Text × DeclarationTree)) :
    (changeAt s f cs).lookup s' =
      if s' = s then some (f ((cs.lookup s).getD empty)) else cs.lookup s' := by
  induction cs with
  | nil =>
    rw [changeAt, lookup_cons_eq]
    rfl
  | cons c cs ih =>
    obtain ⟨key, t⟩ := c
    rw [changeAt]
    by_cases hkey : key = s
    · subst hkey
      rw [if_pos rfl, lookup_cons_eq, lookup_cons_eq, lookup_cons_eq, if_pos rfl]
      by_cases hs : s' = key
      · simp [hs]
      · simp [hs]
    · have hne : s ≠ key := Ne.symm hkey
      rw [if_neg hkey, lookup_cons_eq, lookup_cons_eq, lookup_cons_eq, ih, if_neg hne]
      by_cases hs : s' = key
      · simp [hs, hkey]
      · simp [hs]

theorem segments_changeAt (s : Text) (f : DeclarationTree → DeclarationTree)
    (cs : List (Text × DeclarationTree)) :
    (changeAt s f cs).map Prod.fst = addSegment (some s) (cs.map Prod.fst) := by
  induction cs with
  | nil => rfl
  | cons c cs ih =>
    obtain ⟨key, t⟩ := c
    rw [changeAt]
    by_cases hkey : key = s
    · simp [addSegment, hkey]
    · have hne : s ≠ key := Ne.symm hkey
      rw [if_neg hkey, List.map_cons, ih, addSegment]
      by_cases hs : s ∈ cs.map Prod.fst
      · simp [addSegment, hs]
      · simp_all [addSegment]

theorem changeAt_changeAt (s : Text) (f g : DeclarationTree → DeclarationTree)
    (cs : List (Text × DeclarationTree)) :
    changeAt s g (changeAt s f cs) = changeAt s (g ∘ f) cs := by
  induction cs with
  | nil => simp [changeAt]
  | cons c cs ih =>
    obtain ⟨key, t⟩ := c
    by_cases hkey : key = s
    · simp [changeAt, hkey]
    · simp [changeAt, hkey, ih]

variable {s : Text} {p q : List Text} {t : DeclarationTree}

@[simp] theorem declared_redeclare (g : Option Declaration → Option Declaration) :
    (redeclare g t).declared = g t.declared := by
  cases t
  rfl

@[simp] theorem children_redeclare (g : Option Declaration → Option Declaration) :
    (redeclare g t).children = t.children := by
  cases t
  rfl

@[simp] theorem declared_changeChild (f : DeclarationTree → DeclarationTree) :
    (changeChild s f t).declared = t.declared := by
  cases t
  rfl

theorem segments_changeChild (f : DeclarationTree → DeclarationTree) :
    (changeChild s f t).segments = addSegment (some s) t.segments := by
  cases t
  exact segments_changeAt s f _

theorem child?_changeChild (f : DeclarationTree → DeclarationTree) (s' : Text) :
    (changeChild s f t).child? s' =
      if s' = s then some (f ((t.child? s).getD empty)) else t.child? s' := by
  cases t
  exact lookup_changeAt s s' f _

theorem changeChild_changeChild (f g : DeclarationTree → DeclarationTree) :
    changeChild s g (changeChild s f t) = changeChild s (g ∘ f) t := by
  cases t
  exact congrArg _ (changeAt_changeAt s f g _)

theorem changeDescendant_append (f : DeclarationTree → DeclarationTree) (p q : List Text) :
    changeDescendant f (p ++ q) = changeDescendant (changeDescendant f q) p := by
  induction p with
  | nil => rfl
  | cons s p ih => exact congrArg (changeChild s) ih

/-- Two changes of one node are one. -/
theorem changeDescendant_changeDescendant (f g : DeclarationTree → DeclarationTree) :
    changeDescendant g p (changeDescendant f p t) = changeDescendant (g ∘ f) p t := by
  induction p generalizing t with
  | nil => rfl
  | cons s p ih =>
    have hcomp : changeDescendant g p ∘ changeDescendant f p = changeDescendant (g ∘ f) p := by
      funext t
      exact ih
    exact (changeChild_changeChild _ _).trans (by rw [hcomp]; rfl)

/-- Below an empty node there is nothing. -/
theorem descendant?_empty (p : List Text) :
    descendant? p empty = if p = [] then some empty else none := by
  cases p <;> rfl

theorem descendant?_cons_changeChild (f : DeclarationTree → DeclarationTree) (s' : Text) :
    descendant? (s' :: p) (changeChild s f t) =
      if s' = s then descendant? p (f ((t.child? s).getD empty)) else descendant? (s' :: p) t := by
  rw [descendant?, child?_changeChild]
  by_cases hs : s' = s
  · rw [if_pos hs, if_pos hs]
    rfl
  · rw [if_neg hs, if_neg hs]
    rfl

theorem descendant?_cons_redeclare (g : Option Declaration → Option Declaration) :
    descendant? (s :: p) (redeclare g t) = descendant? (s :: p) t := by
  rw [descendant?, descendant?, child?, child?, children_redeclare]

/-- What does not tell an empty node from a missing one is the same with one added for it. -/
theorem descendant?_getD_child {β : Type} {v : Option DeclarationTree → β}
    (hv : v (some empty) = v none) :
    v (descendant? p ((t.child? s).getD empty)) = v (descendant? (s :: p) t) := by
  rw [descendant?]
  cases t.child? s with
  | none =>
    rw [Option.getD_none, descendant?_empty, Option.bind_none]
    by_cases hp : p = []
    · rw [if_pos hp, hv]
    · rw [if_neg hp]
  | some c => rfl

/-- A change adds the nodes on the way to its place. -/
theorem isSome_changeDescendant (g : Option Declaration → Option Declaration) :
    (descendant? p (changeDescendant (redeclare g) q t)).isSome ↔
      (descendant? p t).isSome ∨ p <+: q := by
  induction q generalizing p t with
  | nil =>
    cases p with
    | nil => simp [descendant?]
    | cons s p => simp [changeDescendant, descendant?_cons_redeclare]
  | cons s q ih =>
    cases p with
    | nil => simp [descendant?]
    | cons s' p =>
      rw [changeDescendant, descendant?_cons_changeChild, List.cons_prefix_cons]
      by_cases hs : s' = s
      · subst hs
        rw [if_pos rfl, ih, descendant?]
        cases t.child? s' with
        | none =>
          by_cases hp : p = []
          · simp [hp]
          · simp [descendant?_empty, hp]
        | some c => simp
      · simp [hs]

/-- A change declares anew at its place only. -/
theorem declaredAt_changeDescendant (g : Option Declaration → Option Declaration) :
    declaredAt p (changeDescendant (redeclare g) q t) =
      if p = q then g (declaredAt p t) else declaredAt p t := by
  induction q generalizing p t with
  | nil =>
    cases p with
    | nil => simp [declaredAt, descendant?, changeDescendant]
    | cons s p => simp [declaredAt, changeDescendant, descendant?_cons_redeclare]
  | cons s q ih =>
    cases p with
    | nil => simp [declaredAt, descendant?, changeDescendant]
    | cons s' p =>
      rw [declaredAt, changeDescendant, descendant?_cons_changeChild]
      by_cases hs : s' = s
      · subst hs
        have hbelow := ih (p := p) (t := (t.child? s').getD empty)
        have hsame : declaredAt p ((t.child? s').getD empty) = declaredAt (s' :: p) t :=
          descendant?_getD_child (v := fun o => o.bind declared) rfl
        rw [if_pos rfl, ← declaredAt, hbelow, hsame]
        simp
      · simp [hs, declaredAt]

/-- A change adds the next segment on the way to its place. -/
theorem segmentsAt_changeDescendant (g : Option Declaration → Option Declaration) :
    segmentsAt p (changeDescendant (redeclare g) q t) =
      addSegment (segmentAfter p q) (segmentsAt p t) := by
  induction q generalizing p t with
  | nil =>
    rw [segmentAfter_nil_right]
    cases p with
    | nil => simp [segmentsAt, descendant?, changeDescendant, segments, addSegment]
    | cons s p => simp [segmentsAt, changeDescendant, descendant?_cons_redeclare, addSegment]
  | cons s q ih =>
    cases p with
    | nil =>
      simp [segmentsAt, descendant?, changeDescendant, segments_changeChild, segmentAfter]
    | cons s' p =>
      rw [segmentsAt, changeDescendant, descendant?_cons_changeChild, segmentAfter]
      by_cases hs : s' = s
      · subst hs
        have hbelow := ih (p := p) (t := (t.child? s').getD empty)
        have hsame : segmentsAt p ((t.child? s').getD empty) = segmentsAt (s' :: p) t :=
          descendant?_getD_child (v := fun o => (o.map segments).getD []) rfl
        rw [if_pos rfl, if_pos rfl, ← segmentsAt, hbelow, hsame]
      · simp [hs, segmentsAt, addSegment]

end DocFlow.DeclarationTree
