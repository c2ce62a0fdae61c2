import Mathlib.Data.List.Chain
import ObjectGraph.Examples.Ring
import ObjectGraph.Proofs.Agreement
import ObjectGraph.Proofs.Writable
import ObjectGraph.Proofs.WrittenForm

/-!
# Joined paths

Two path texts can be joined by a separator. The joined text stands for the steps of both, unless
the name at the end of the first one and the name at the start of the second one form the opening of
an element step.

* Reading the joined path is reading the first part and then the second one, from the value that the
  first part gives. Only a missing value shows where the parts meet: it is no root any more.
* Where the first part gives an object or a list, a write starts from there: nothing that was passed
  before matters for where it lands.
-/

namespace ObjectGraph

variable {Rule : Type}

/-! ## Joined texts -/

namespace Path

def head (path : Path) : Step :=
  path.steps.head path.steps_ne_nil

theorem getLast?_steps (path : Path) : path.steps.getLast? = some path.last :=
  List.getLast?_eq_some_getLast path.steps_ne_nil

theorem head?_steps (path : Path) : path.steps.head? = some path.head :=
  List.head?_eq_some_head path.steps_ne_nil

theorem Decomposition.segments_ne_nil
    {text : String} {segments : List String} {steps : List Step}
    (decomposed : Decomposition text segments steps) :
    segments ≠ [] := by
  rintro rfl
  obtain ⟨name, first⟩ := decomposed.startsWithName
  cases decomposed.spelled
  cases first

/-- Where the parts do not form an opening, decompositions can be put one behind the other. -/
theorem Decomposition.append
    {first second : String} {segments others : List String} {front back : Path}
    (decomposed : Decomposition first segments front.steps)
    (otherDecomposed : Decomposition second others back.steps)
    (apart : ¬ FormOpening front.last back.head) :
    Decomposition (first ++ "." ++ second) (segments ++ others) (front ++ back).steps := by
  constructor
  case joined =>
    rw [String.intercalate_append_of_ne_nil decomposed.segments_ne_nil
      otherDecomposed.segments_ne_nil, ← decomposed.joined, ← otherDecomposed.joined]
  case spelled => exact List.rel_append decomposed.spelled otherDecomposed.spelled
  case startsWithName =>
    obtain ⟨name, named⟩ := decomposed.startsWithName
    exact ⟨name, by rw [steps_append, List.head?_append, named, Option.some_or]⟩
  case noOpening =>
    refine decomposed.noOpening.append otherDecomposed.noOpening fun last ends next starts => ?_
    rw [front.getLast?_steps, Option.mem_some] at ends
    rw [back.head?_steps, Option.mem_some] at starts
    rwa [← ends, ← starts]

/-- Two path texts joined by a separator stand for the steps of both, if the two names where they
meet do not form an opening, and only then. -/
theorem parse_join_iff
    {first second : String} {front back : Path} (parsed : parse first = .ok front)
    (otherParsed : parse second = .ok back) :
    parse (first ++ "." ++ second) = .ok (front ++ back) ↔
      ¬ FormOpening front.last back.head := by
  constructor
  · intro joined
    obtain ⟨segments, decomposed⟩ := (parse_eq_ok_iff _ _).mp joined
    have allowed := (List.isChain_append.mp decomposed.noOpening).2.2
    exact allowed _ front.getLast?_steps _ back.head?_steps
  · intro apart
    obtain ⟨segments, decomposed⟩ := (parse_eq_ok_iff _ _).mp parsed
    obtain ⟨others, otherDecomposed⟩ := (parse_eq_ok_iff _ _).mp otherParsed
    exact (parse_eq_ok_iff _ _).mpr ⟨_, decomposed.append otherDecomposed apart⟩

theorem init_append (front back : Path) : (front ++ back).init = front.steps ++ back.init :=
  List.dropLast_append_of_ne_nil back.steps_ne_nil

theorem last_append (front back : Path) : (front ++ back).last = back.last :=
  List.getLast_append_of_ne_nil _ back.steps_ne_nil

end Path

/-! ## What a joined path does -/

/-- A failure as it is reported when the path does not start at a root but behind a step. -/
def AccessError.behind (step : Step) : AccessError → AccessError
  | nullRoot => nullIntermediate step
  | error => error

/-- What a joined path text comes to from a root, compared with its two parts one after the other.
The step is the one where the parts meet. -/
structure Path.ActsInTurn [Accessors Rule] (catalog : Catalog Rule) (first second : String)
    (meeting : Step) (root : Value) (heap : Heap) : Prop where
  failed : ∀ error after, root.get catalog first heap = .error error after →
    root.get catalog (first ++ "." ++ second) heap = .error error after
  read : ∀ value reached, root.get catalog first heap = .ok value reached →
    root.get catalog (first ++ "." ++ second) heap =
      (value.get catalog second).adaptExcept (AccessError.behind meeting) reached
  written : ∀ handle reached, root.get catalog first heap = .ok (.shared handle) reached →
    ∀ value, discard (root.set catalog (first ++ "." ++ second) value) heap =
      discard ((Value.shared handle).set catalog second value) reached

namespace Access

variable {Result : Type}

theorem adaptExcept_apply
    (change : AccessError → AccessError) (access : Access Result) (heap : Heap) :
    access.adaptExcept change heap =
      match access heap with
      | .ok result after => .ok result after
      | .error error after => .error (change error) after := by
  simp only [EStateM.adaptExcept]
  cases access heap <;> rfl

theorem discard_apply (access : Access Result) (heap : Heap) :
    discard access heap =
      match access heap with
      | .ok _ after => .ok () after
      | .error error after => .error error after :=
  map_apply (fun _ => ()) access heap

end Access

/-! ## Reading on -/

section Reading

variable [Accessors Rule]

/-- Following more steps starts where the first steps lead to. -/
theorem Value.follow_append
    (catalog : Catalog Rule) (steps more : List Step) (reachedBy? : Option Step) (value : Value)
    (heap : Heap) :
    value.follow catalog (steps ++ more) reachedBy? heap =
      match value.follow catalog steps reachedBy? heap with
      | .error error after => .error error after
      | .ok reached after => reached.follow catalog more (steps.getLast?.or reachedBy?) after := by
  induction steps generalizing value reachedBy? heap with
  | nil => simp [follow]
  | cons step steps inductionHypothesis =>
      have sameStep : (step :: steps).getLast?.or reachedBy? = steps.getLast?.or (some step) := by
        rw [List.getLast?_cons]
        cases steps.getLast? <;> rfl
      rw [List.cons_append, follow_cons_apply, follow_cons_apply, sameStep]
      cases value.fetch catalog reachedBy? step heap with
      | error error after => rfl
      | ok reading after => exact inductionHypothesis (some step) reading.value after

/-- Only a missing value shows how it was reached. -/
theorem Value.fetch_of_ne_null
    {value : Value} (present : value ≠ .null) (catalog : Catalog Rule) (reachedBy? : Option Step)
    (step : Step) (heap : Heap) :
    value.fetch catalog reachedBy? step heap = value.fetch catalog none step heap := by
  cases value with
  | null => exact absurd rfl present
  | _ => rfl

omit [Accessors Rule] in
theorem Container.probe_ne_nullRoot
    {catalog : Catalog Rule} {container : Container} {step : Step} :
    container.probe catalog step ≠ .error .nullRoot := by
  cases container with
  | composite owner =>
      cases step with
      | element index => simp [probe, Composite.probe, Composite.select, Step.misfit, Except.map]
      | member name =>
          simp only [probe, Composite.probe, Composite.select]
          cases (catalog.layout owner.type).member? name <;> simp [Except.map]
  | sequence elements =>
      cases step with
      | member name => simp [probe, Sequence.probe, Sequence.select, Step.misfit, Except.map]
      | element index =>
          simp only [probe, Sequence.probe, Sequence.select]
          split <;> simp [Except.map]

theorem Value.fetch_ne_nullRoot
    {catalog : Catalog Rule} {value : Value} {reachedBy? : Option Step} {step : Step}
    {heap after : Heap} (behindRoot : value = .null → reachedBy? ≠ none) :
    value.fetch catalog reachedBy? step heap ≠ .error .nullRoot after := by
  intro failed
  obtain ⟨refused, _⟩ := fetch_eq_error_iff.mp failed
  unfold probe at refused
  cases value with
  | null =>
      cases reachedBy? with
      | none => exact behindRoot rfl rfl
      | some reachedBy => cases refused
  | struct type fields => exact Container.probe_ne_nullRoot refused
  | shared handle => exact Container.probe_ne_nullRoot refused
  | _ => cases step <;> cases refused

/-- A root is missing only where nothing is there and no step has been taken. -/
theorem Value.follow_ne_nullRoot
    {catalog : Catalog Rule} {steps : List Step} {reachedBy? : Option Step} {value : Value}
    {heap after : Heap} (behindRoot : value = .null → reachedBy? ≠ none) :
    value.follow catalog steps reachedBy? heap ≠ .error .nullRoot after := by
  induction steps generalizing value reachedBy? heap with
  | nil =>
      intro failed
      cases failed
  | cons step steps inductionHypothesis =>
      rw [follow_cons_apply]
      cases fetched : value.fetch catalog reachedBy? step heap with
      | error error failedAt =>
          intro failed
          cases failed
          exact fetch_ne_nullRoot behindRoot fetched
      | ok reading middle => exact inductionHypothesis (by simp)

theorem AccessError.behind_of_ne
    {error : AccessError} (other : error ≠ .nullRoot) (step : Step) :
    error.behind step = error := by
  cases error with
  | nullRoot => exact absurd rfl other
  | _ => rfl

/-- Steps that start behind a step do what they do from a root, but for the failure when nothing is
there. -/
theorem Value.follow_behind
    (catalog : Catalog Rule) {steps : List Step} (nonempty : steps ≠ []) (step : Step)
    (value : Value) (heap : Heap) :
    value.follow catalog steps (some step) heap =
      (value.follow catalog steps none).adaptExcept (AccessError.behind step) heap := by
  rw [Access.adaptExcept_apply]
  cases steps with
  | nil => exact absurd rfl nonempty
  | cons next steps =>
      by_cases missing : value = .null
      · subst missing
        rfl
      · have same : value.follow catalog (next :: steps) (some step) heap =
            value.follow catalog (next :: steps) none heap := by
          rw [follow_cons_apply, follow_cons_apply, fetch_of_ne_null missing]
        rw [same]
        cases followed : value.follow catalog (next :: steps) none heap with
        | ok result after => rfl
        | error error after =>
            have other : error ≠ .nullRoot := by
              rintro rfl
              exact follow_ne_nullRoot (fun isNull => absurd isNull missing) followed
            simp only [AccessError.behind_of_ne other]

theorem Value.read_append
    (catalog : Catalog Rule) (root : Value) (front back : Path) (heap : Heap) :
    root.read catalog (front ++ back) heap =
      match root.read catalog front heap with
      | .error error after => .error error after
      | .ok value reached =>
          (value.read catalog back).adaptExcept (AccessError.behind front.last) reached := by
  simp only [read, Path.steps_append, follow_append, front.getLast?_steps, Option.some_or]
  cases root.follow catalog front.steps none heap with
  | error error after => rfl
  | ok value reached => exact follow_behind catalog back.steps_ne_nil front.last value reached

/-! ## Writing on -/

theorem Walk.advanceAll_append
    (catalog : Catalog Rule) (steps more : List Step) (walk : Walk) (heap : Heap) :
    walk.advanceAll catalog (steps ++ more) heap =
      match walk.advanceAll catalog steps heap with
      | .error error after => .error error after
      | .ok reached after => reached.advanceAll catalog more after := by
  induction steps generalizing walk heap with
  | nil => rfl
  | cons step steps inductionHypothesis =>
      rw [List.cons_append, advanceAll_cons_apply, advanceAll_cons_apply]
      cases walk.advance catalog step heap with
      | error error after => rfl
      | ok advanced after => exact inductionHypothesis advanced after

/-- A walk that stands at an object or a list has its footing there, and no hops. -/
def Walk.Anchored (walk : Walk) : Prop :=
  ∀ handle, walk.value = .shared handle → walk.footing = .held handle []

theorem Walk.anchored_ofRoot (root : Value) :
    (Walk.ofRoot root).Anchored := by
  intro handle shared
  obtain rfl : root = .shared handle := shared
  rfl

theorem Walk.Anchored.advanceAll
    {catalog : Catalog Rule} {steps : List Step} {walk owner : Walk} {heap after : Heap}
    (anchored : walk.Anchored) (walked : walk.advanceAll catalog steps heap = .ok owner after) :
    owner.Anchored := by
  induction steps generalizing walk heap with
  | nil =>
      cases walked
      exact anchored
  | cons step steps inductionHypothesis =>
      rw [Walk.advanceAll_cons_apply, Walk.advance_apply] at walked
      cases fetched : walk.value.fetch catalog walk.reachedBy? step heap with
      | error error failedAt => simp [fetched] at walked
      | ok reading middle =>
          simp only [fetched] at walked
          refine inductionHypothesis (fun handle shared => ?_) walked
          exact @Footing.advance_shared walk.footing ⟨step, reading⟩ handle shared

/-- From an object or a list, a walk leads to the location that a search from there finds. -/
theorem Walk.locate_of_shared
    {catalog : Catalog Rule} {walk : Walk} {handle : Handle} (anchored : walk.Anchored)
    (shared : walk.value = .shared handle) (path : Path) (heap : Heap) :
    (walk.advanceAll catalog path.init >>= fun owner => owner.finish catalog path.last) heap =
      (Value.shared handle).locate catalog path heap := by
  have footing := anchored handle shared
  obtain ⟨value, reachedBy?, _⟩ := walk
  obtain rfl : value = .shared handle := shared
  obtain rfl : _ = Footing.held handle [] := footing
  rw [Value.locate]
  cases path.init with
  | nil => rfl
  | cons step steps => rfl

theorem Value.locate_append
    {catalog : Catalog Rule} {root : Value} {front : Path} {handle : Handle} {heap reached : Heap}
    (read : root.read catalog front heap = .ok (.shared handle) reached) (back : Path) :
    root.locate catalog (front ++ back) heap =
      (Value.shared handle).locate catalog back reached := by
  have followed : root.read catalog front heap = _ :=
    Walk.follow_eq_advanceAll catalog front.steps (Walk.ofRoot root) heap
  rw [read] at followed
  cases walked : (Walk.ofRoot root).advanceAll catalog front.steps heap with
  | error error after => simp [walked] at followed
  | ok owner after =>
      simp only [walked, EStateM.Result.ok.injEq] at followed
      obtain ⟨shared, rfl⟩ := followed
      have anchored := (Walk.anchored_ofRoot root).advanceAll walked
      rw [← Walk.locate_of_shared anchored shared.symm]
      simp only [locate, Path.init_append, Path.last_append, Access.bind_apply,
        Walk.advanceAll_append, walked]

/-! ## Two texts and their join -/

/-- Two path texts joined by a separator stand for the steps of both, except where the two names at
which they meet form an opening. Reading and writing by the joined text is then doing so by the
first text and by the second one in turn. -/
theorem Path.actsInTurn_of_parse
    {first second : String} {front back : Path} (parsed : Path.parse first = .ok front)
    (otherParsed : Path.parse second = .ok back) :
    (Path.parse (first ++ "." ++ second) = .ok (front ++ back) ↔
        ¬ FormOpening front.last back.head) ∧
      (¬ FormOpening front.last back.head →
        ∀ (catalog : Catalog Rule) (root : Value) (heap : Heap),
          ActsInTurn catalog first second front.last root heap) := by
  have joins := parse_join_iff parsed otherParsed
  refine ⟨joins, fun apart catalog root heap => ?_⟩
  have readFirst := root.get_apply catalog first heap
  have readWhole := root.get_apply catalog (first ++ "." ++ second) heap
  simp only [ofText_of_parse parsed] at readFirst
  simp only [ofText_of_parse (joins.mpr apart), Value.read_append, ← readFirst] at readWhole
  constructor
  case failed =>
    intro error after failed
    rw [readWhole, failed]
  case read =>
    intro value reached done
    rw [readWhole, done]
    simp only [Access.adaptExcept_apply, Value.get_of_parse otherParsed]
  case written =>
    intro handle reached done value
    rw [readFirst] at done
    simp only [Access.discard_apply, Value.set_apply, ofText_of_parse (joins.mpr apart),
      ofText_of_parse otherParsed, Value.locate_append done]
    cases (Value.shared handle).locate catalog back reached with
    | error error after => rfl
    | ok location middle =>
        simp only
        cases location.write catalog value middle <;> rfl

end Reading

/-- The spare node has no successor. The first text gives nothing then, which is no failure, and the
second one would fail at its root. -/
theorem Path.actsInTurn_of_parse_spare :
    let front : Path := ⟨[.member "spare", .member "next"], by simp⟩
    let back : Path := ⟨[.member "pair", .member "x"], by simp⟩
    Path.parse "spare.next" = .ok front ∧ Path.parse "pair.x" = .ok back ∧
      Path.parse "spare.next.pair.x" = .ok (front ++ back) ∧
      Value.null.get Ring.catalog "pair.x" Ring.heap = .error .nullRoot Ring.heap ∧
      Ring.root.get Ring.catalog "spare.next.pair.x" Ring.heap =
        .error (.nullIntermediate (.member "next"))
          (Ring.catalog.instantiate ⟨"main", "Node"⟩ Ring.heap).2 := by
  intro front back
  have parsed : Path.parse "spare.next" = .ok front := by decide +kernel
  have otherParsed : Path.parse "pair.x" = .ok back := by decide +kernel
  have apart : ¬ FormOpening front.last back.head := by
    rintro ⟨named, _⟩
    have : "next" = "Array" := Step.member.inj named
    simp at this
  obtain ⟨joins, acts⟩ := @actsInTurn_of_parse PropertyRule _ _ _ _ _ parsed otherParsed
  have turns := acts apart Ring.catalog Ring.root Ring.heap
  have missing : Ring.root.get Ring.catalog "spare.next" Ring.heap =
      .ok .null (Ring.catalog.instantiate ⟨"main", "Node"⟩ Ring.heap).2 := by
    rw [Value.get_of_parse parsed]
    rfl
  have atRoot : ∀ heap, Value.null.get Ring.catalog "pair.x" heap = .error .nullRoot heap := by
    intro heap
    rw [Value.get_of_parse otherParsed]
    rfl
  refine ⟨parsed, otherParsed, joins.mpr apart, atRoot _, ?_⟩
  have read := turns.read _ _ missing
  rw [Access.adaptExcept_apply, atRoot] at read
  exact read

end ObjectGraph
