import ObjectGraph.Access.Edit

/-!
# Running accesses

An access is a function of the heap. The equations below run the operations on one container for one
step, and those on whole path texts, so that later arguments never open an operation again.
-/

namespace ObjectGraph

variable {Rule : Type}

/-! ## Sequencing -/

def Access.answer {Result : Type} :
    EStateM.Result AccessError Heap Result → Except AccessError Result
  | .ok result _ => .ok result
  | .error error _ => .error error

namespace Access

variable {Result Next : Type}

@[simp]
theorem bind_apply (access : Access Result) (next : Result → Access Next) (heap : Heap) :
    (access >>= next) heap =
      match access heap with
      | .ok result after => next result after
      | .error error after => .error error after := by
  simp only [bind, EStateM.bind]
  cases access heap <;> rfl

@[simp]
theorem map_apply (change : Result → Next) (access : Access Result) (heap : Heap) :
    (change <$> access) heap =
      match access heap with
      | .ok result after => .ok (change result) after
      | .error error after => .error error after := by
  simp only [Functor.map, EStateM.map]
  cases access heap <;> rfl

@[simp]
theorem pure_apply (result : Result) (heap : Heap) :
    (pure result : Access Result) heap = .ok result heap :=
  rfl

@[simp]
theorem get_apply (heap : Heap) :
    (get : Access Heap) heap = .ok heap heap :=
  rfl

@[simp]
theorem modify_apply (change : Heap → Heap) (heap : Heap) :
    (modify change : Access Unit) heap = .ok () (change heap) :=
  rfl

@[simp]
theorem modifyGet_apply (change : Heap → Result × Heap) (heap : Heap) :
    (modifyGet change : Access Result) heap = .ok (change heap).1 (change heap).2 :=
  rfl

@[simp]
theorem lift_apply (answer : Except AccessError Result) (heap : Heap) :
    (liftM answer : Access Result) heap =
      match answer with
      | .ok result => .ok result heap
      | .error error => .error error heap := by
  cases answer <;> rfl

end Access

/-! ## One step -/

theorem Heap.openValue_of_container?
    {heap : Heap} {value : Value} {container : Container}
    (opened : heap.container? value = some container) (step : Step) (reachedBy? : Option Step) :
    heap.openValue value step reachedBy? = .ok container := by
  cases value <;> simp_all [container?, openValue]

theorem Heap.container?_of_openValue
    {heap : Heap} {value : Value} {step : Step} {reachedBy? : Option Step}
    {container : Container} (opened : heap.openValue value step reachedBy? = .ok container) :
    heap.container? value = some container := by
  cases value with
  | null => cases reachedBy? <;> cases opened
  | struct type fields =>
      cases opened
      rfl
  | shared handle =>
      cases opened
      rfl
  | _ => cases opened

section Fetch

variable [Accessors Rule]

theorem Composite.fetch_apply
    (catalog : Catalog Rule) (owner : Composite) (step : Step) (heap : Heap) :
    owner.fetch catalog step heap =
      match owner.select catalog step with
      | .error error => .error error heap
      | .ok placed =>
          match placed.member.kind with
          | .field => .ok ⟨owner.slot placed.offset, .stored⟩ heap
          | .property rule =>
              .ok ⟨(Accessors.read rule catalog owner heap).1, .computed⟩
                (Accessors.read rule catalog owner heap).2 := by
  simp only [fetch, Access.bind_apply, Access.lift_apply]
  cases owner.select catalog step with
  | error error => rfl
  | ok placed => cases kind : placed.member.kind <;> simp [kind]

theorem Sequence.fetch_apply
    (catalog : Catalog Rule) (elements : Sequence) (step : Step) (heap : Heap) :
    (Container.sequence elements).fetch catalog step heap =
      match elements.select step with
      | .error error => .error error heap
      | .ok index => .ok ⟨elements.slot index, .stored⟩ heap := by
  simp only [Container.fetch, Access.bind_apply, Access.lift_apply, Sequence.fetch]
  cases elements.select step <;> rfl

theorem Value.fetch_apply
    (catalog : Catalog Rule) (value : Value) (reachedBy? : Option Step) (step : Step)
    (heap : Heap) :
    value.fetch catalog reachedBy? step heap =
      match heap.openValue value step reachedBy? with
      | .error error => .error error heap
      | .ok container => container.fetch catalog step heap := by
  simp only [fetch, Access.bind_apply, Access.lift_apply, Access.get_apply]
  cases heap.openValue value step reachedBy? <;> rfl

end Fetch

/-! ## Walks -/

theorem Walk.finish_apply
    (catalog : Catalog Rule) (walk : Walk) (terminal : Step) (heap : Heap) :
    walk.finish catalog terminal heap =
      match heap.openValue walk.value terminal walk.reachedBy? with
      | .error error => .error error heap
      | .ok owner =>
          match owner.probe catalog terminal with
          | .error error => .error error heap
          | .ok _ =>
              match walk.footing.locate terminal with
              | .error error => .error error heap
              | .ok location => .ok location heap := by
  simp only [finish, Access.bind_apply, Access.get_apply, Access.lift_apply]
  cases heap.openValue walk.value terminal walk.reachedBy? with
  | error error => rfl
  | ok owner =>
      simp only
      cases owner.probe catalog terminal with
      | error error => rfl
      | ok done =>
          simp only
          cases walk.footing.locate terminal <;> rfl

section Walks

variable [Accessors Rule]

theorem Walk.advance_apply
    (catalog : Catalog Rule) (walk : Walk) (step : Step) (heap : Heap) :
    walk.advance catalog step heap =
      match walk.value.fetch catalog walk.reachedBy? step heap with
      | .error error after => .error error after
      | .ok reading after =>
          .ok ⟨reading.value, some step, walk.footing.advance step reading⟩ after := by
  simp only [advance, Access.bind_apply]
  cases walk.value.fetch catalog walk.reachedBy? step heap <;> rfl

theorem Walk.advanceAll_cons_apply
    (catalog : Catalog Rule) (step : Step) (steps : List Step) (walk : Walk) (heap : Heap) :
    walk.advanceAll catalog (step :: steps) heap =
      match walk.advance catalog step heap with
      | .error error after => .error error after
      | .ok advanced after => advanced.advanceAll catalog steps after := by
  rw [advanceAll, Access.bind_apply]
  cases walk.advance catalog step heap <;> rfl

theorem Value.locate_apply
    (catalog : Catalog Rule) (root : Value) (path : Path) (heap : Heap) :
    root.locate catalog path heap =
      match (Walk.ofRoot root).advanceAll catalog path.init heap with
      | .error error after => .error error after
      | .ok walk after => walk.finish catalog path.last after := by
  rw [locate, Access.bind_apply]
  cases (Walk.ofRoot root).advanceAll catalog path.init heap <;> rfl

end Walks

/-! ## Whole path texts -/

section Texts

variable [Accessors Rule]

theorem Path.ofText_of_parse
    {text : String} {path : Path} (parsed : Path.parse text = .ok path) :
    Path.ofText text = .ok path := by
  rw [ofText, parsed]
  rfl

theorem Path.ofText_of_parse_error
    {text : String} {malformation : Malformation} (refused : Path.parse text = .error malformation) :
    Path.ofText text = .error (.malformedPath text malformation) := by
  rw [ofText, refused]
  rfl

theorem Value.get_apply
    (catalog : Catalog Rule) (root : Value) (text : String) (heap : Heap) :
    root.get catalog text heap =
      match Path.ofText text with
      | .error error => .error error heap
      | .ok path => root.read catalog path heap := by
  simp only [get, Access.bind_apply, Access.lift_apply]
  cases Path.ofText text <;> rfl

theorem Value.get_of_parse
    {text : String} {path : Path} (parsed : Path.parse text = .ok path) (catalog : Catalog Rule)
    (root : Value) (heap : Heap) :
    root.get catalog text heap = root.read catalog path heap := by
  rw [get_apply, Path.ofText_of_parse parsed]

theorem Value.set_apply
    (catalog : Catalog Rule) (root : Value) (text : String) (value : Value) (heap : Heap) :
    root.set catalog text value heap =
      match Path.ofText text with
      | .error error => .error error heap
      | .ok path =>
          match root.locate catalog path heap with
          | .error error after => .error error after
          | .ok location reached =>
              match location.write catalog value reached with
              | .error error after => .error error after
              | .ok _ after => .ok ⟨root, path⟩ after := by
  simp only [set, Access.bind_apply, Access.lift_apply]
  cases Path.ofText text with
  | error error => rfl
  | ok path =>
      simp only
      cases root.locate catalog path heap with
      | error error after => rfl
      | ok location reached =>
          simp only
          cases location.write catalog value reached <;> rfl

theorem Value.set_eq_ok_iff
    {catalog : Catalog Rule} {root value : Value} {text : String} {heap after : Heap}
    {change : Change} :
    root.set catalog text value heap = .ok change after ↔
      ∃ path location reached, Path.parse text = .ok path ∧
        root.locate catalog path heap = .ok location reached ∧
        location.write catalog value reached = .ok () after ∧ change = ⟨root, path⟩ := by
  rw [set_apply]
  constructor
  · intro assigned
    cases parsed : Path.parse text with
    | error malformation => simp [Path.ofText_of_parse_error parsed] at assigned
    | ok path =>
        simp only [Path.ofText_of_parse parsed] at assigned
        cases located : root.locate catalog path heap with
        | error error reached => simp [located] at assigned
        | ok location reached =>
            simp only [located] at assigned
            cases written : location.write catalog value reached with
            | error error final => simp [written] at assigned
            | ok done final =>
                simp only [written, EStateM.Result.ok.injEq] at assigned
                obtain ⟨rfl, rfl⟩ := assigned
                exact ⟨path, location, reached, rfl, located, written, rfl⟩
  · rintro ⟨path, location, reached, parsed, located, written, rfl⟩
    simp only [Path.ofText_of_parse parsed, located, written]

end Texts

end ObjectGraph
