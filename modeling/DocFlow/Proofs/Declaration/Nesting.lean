import DocFlow.Proofs.Declaration.LineReference

namespace DocFlow

open Reference

namespace Line

def blockWords : List Text := ["declare module ".toList, "declare class ".toList]

def Opens (l : Line) : Prop := ∃ w ∈ blockWords, w <+: l.content

def IsPlain (l : Line) : Prop := ∀ c ∈ l.content.getLast?, c ≠ '{' ∧ c ≠ '}'

/-- Lines with matching blocks. Behind a line that opens a block and the lines inside stands a closing
brace at its depth, and all other lines end in no brace. -/
inductive Nested : List Line → Prop
  | nil : Nested []
  | plain {l : Line} {ls : List Line} (plain : l.IsPlain) (more : Nested ls) : Nested (l :: ls)
  | block {head close : Line} {inside ls : List Line} (opens : head.Opens)
    (closes : close = ⟨head.depth, ['}']⟩) (inner : Nested inside) (more : Nested ls) :
    Nested (head :: (inside ++ close :: ls))

theorem Nested.append {ls ls' : List Line} (h : Nested ls) (h' : Nested ls') : Nested (ls ++ ls') := by
  induction h with
  | nil => exact h'
  | plain plain _ ih => exact .plain plain ih
  | block opens closes inner _ _ ih =>
    rw [List.cons_append, List.append_assoc, List.cons_append]
    exact .block opens closes inner ih

/-- Lines with matching blocks, each without a break and with a visible end. -/
structure IsLayout (ls : List Line) : Prop where
  nested : Nested ls
  sealed : ∀ l ∈ ls, Sealed l.content
  unbroken : ∀ l ∈ ls, '\n' ∉ l.content

namespace IsLayout

variable {ls ls' : List Line}

theorem append (h : IsLayout ls) (h' : IsLayout ls') : IsLayout (ls ++ ls') where
  nested := h.nested.append h'.nested
  sealed := List.forall_mem_append.2 ⟨h.sealed, h'.sealed⟩
  unbroken := List.forall_mem_append.2 ⟨h.unbroken, h'.unbroken⟩

theorem nil : IsLayout [] where
  nested := .nil
  sealed := List.forall_mem_nil _
  unbroken := List.forall_mem_nil _

/-- The lines of a module or a class. -/
theorem block {keyword : String} (hkeyword : keyword.toList ∈ blockWords) {key : Option Text}
    (hkey : '\n' ∉ Declaration.nameText key) (depth : Nat) (h : IsLayout ls) :
    IsLayout (DeclarationTree.openLine depth keyword key ::
      (ls ++ [DeclarationTree.closeLine depth])) := by
  have hword : ∀ w ∈ blockWords, '\n' ∉ w := by decide
  have hopen : Sealed (DeclarationTree.openLine depth keyword key).content := by
    intro c hc
    rw [DeclarationTree.openLine, List.getLast?_append] at hc
    obtain rfl := Option.some.inj hc
    decide
  have hbreak : '\n' ∉ (DeclarationTree.openLine depth keyword key).content := by
    simp [DeclarationTree.openLine, hword _ hkeyword, hkey]
  have hopens : (DeclarationTree.openLine depth keyword key).Opens :=
    ⟨_, hkeyword, by rw [DeclarationTree.openLine, List.append_assoc]; exact List.prefix_append ..⟩
  have hclose : Sealed (DeclarationTree.closeLine depth).content := by
    intro c hc
    obtain rfl := Option.some.inj hc
    decide
  refine ⟨.block hopens rfl h.nested .nil, ?_, ?_⟩
  · rw [List.forall_mem_cons, List.forall_mem_append, List.forall_mem_singleton]
    exact ⟨hopen, h.sealed, hclose⟩
  · rw [List.forall_mem_cons, List.forall_mem_append, List.forall_mem_singleton]
    exact ⟨hbreak, h.unbroken, (by decide : '\n' ∉ ['}'])⟩

/-- Statements, each in a line of its own. -/
theorem of_statements (h : ∀ l ∈ ls, '\n' ∉ l.content ∧ l.content.getLast? = some ';') :
    IsLayout ls := by
  induction ls with
  | nil => exact nil
  | cons l ls ih =>
    rw [List.forall_mem_cons] at h
    have hlast : ∀ c ∈ l.content.getLast?, c = ';' := by
      intro c hc
      rw [h.1.2] at hc
      exact (Option.some.inj hc).symm
    have hrest := ih h.2
    refine ⟨.plain (fun c hc => ?_) hrest.nested, List.forall_mem_cons.2 ⟨fun c hc => ?_, hrest.sealed⟩,
      List.forall_mem_cons.2 ⟨h.1.1, hrest.unbroken⟩⟩
    · rw [hlast c hc]
      decide
    · rw [hlast c hc]
      decide

end IsLayout

theorem map_retargetAll_nil (ls : List Line) : ls.map (mapContent (Reference.retargetAll [])) = ls :=
  List.map_id ls

theorem map_retargetAll_cons (name : Text) (names : List Text) (ls : List Line) :
    ls.map (mapContent (Reference.retargetAll (name :: names))) =
      (ls.map (mapContent (Reference.retarget name 0))).map
        (mapContent (Reference.retargetAll names)) := by
  rw [List.map_map]
  rfl

/-- Retargeting changes neither the words that open a block nor the brace that closes it. -/
theorem Nested.retarget {ls : List Line} (h : Nested ls) (name : Text) :
    Nested (ls.map (mapContent (Reference.retarget name 0))) := by
  have hwords : ∀ w ∈ blockWords, ':' ∉ w := by decide
  have hbrace : Reference.retarget name 0 ['}'] = ['}'] :=
    retarget_append_of_no_colon (by decide : ':' ∉ ['}']) name []
  induction h with
  | nil => exact .nil
  | plain plain _ ih =>
    refine .plain (fun c hc => ?_) ih
    rcases getLast?_retarget name 0 _ c hc with hlast | rfl
    · exact plain c hlast
    · decide
  | @block head close inside ls opens closes _ _ ihInside ih =>
    obtain ⟨w, hw, t, ht⟩ := opens
    subst closes
    have hopens : (mapContent (Reference.retarget name 0) head).Opens := by
      refine ⟨w, hw, Reference.retarget name 0 t, ?_⟩
      rw [mapContent, ← ht, retarget_append_of_no_colon (hwords w hw)]
    rw [List.map_cons, List.map_append, List.map_cons]
    exact .block hopens (congrArg _ hbrace) ihInside ih

namespace IsLayout

variable {ls : List Line}

theorem retarget (h : IsLayout ls) (name : Text) :
    IsLayout (ls.map (mapContent (Reference.retarget name 0))) := by
  refine ⟨h.nested.retarget name, ?_, ?_⟩
  · rw [List.forall_mem_map]
    exact fun l hl => (h.sealed l hl).retarget name
  · rw [List.forall_mem_map]
    intro l hl hmem
    have hsuffix : '\n' ∉ valueSuffix := by decide
    exact (mem_retarget hmem).elim (h.unbroken l hl) hsuffix

theorem retargetAll (h : IsLayout ls) (names : List Text) :
    IsLayout (ls.map (mapContent (Reference.retargetAll names))) := by
  induction names generalizing ls with
  | nil => rwa [map_retargetAll_nil]
  | cons name names ih =>
    rw [map_retargetAll_cons]
    exact ih (h.retarget name)

/-- The lines of a layout are retargeted one by one, whatever their indentation is. -/
theorem retargetAll_write (h : IsLayout ls) {names : List Text} (hnames : ∀ name ∈ names, '\n' ∉ name)
    {indent : Text} (hindent : ':' ∉ indent) :
    Reference.retargetAll names (ls.flatMap (write indent)) =
      (ls.map (mapContent (Reference.retargetAll names))).flatMap (write indent) := by
  induction names generalizing ls with
  | nil =>
    rw [map_retargetAll_nil]
    rfl
  | cons name names ih =>
    rw [List.forall_mem_cons] at hnames
    rw [retargetAll_cons, retarget_write hnames.1 hindent h.sealed, map_retargetAll_cons,
      ih (h.retarget name) hnames.2]

end IsLayout

end Line

end DocFlow
