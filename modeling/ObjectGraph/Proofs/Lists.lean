import Mathlib.Data.List.Forall2
import Mathlib.Data.List.TakeWhile

/-!
# Lists and failures

Lists related position by position, and changes of all items of a list that may fail.
-/

namespace ObjectGraph

/-! ## Position by position -/

theorem forall₂_iff_getElem?
    {First Second : Type} {Related : First → Second → Prop} {firsts : List First}
    {seconds : List Second} :
    List.Forall₂ Related firsts seconds ↔
      ∀ index : Nat, Option.Rel Related firsts[index]? seconds[index]? := by
  constructor
  · intro relatedAll
    induction relatedAll with
    | nil => exact fun index => .none
    | cons relatedFirst _ inductionHypothesis =>
        intro index
        cases index with
        | zero => exact .some relatedFirst
        | succ index => exact inductionHypothesis index
  · intro relatedAll
    induction firsts generalizing seconds with
    | nil =>
        cases seconds with
        | nil => exact .nil
        | cons second seconds => nomatch relatedAll 0
    | cons first firsts inductionHypothesis =>
        cases seconds with
        | nil => nomatch relatedAll 0
        | cons second seconds =>
            cases relatedAll 0 with
            | some relatedFirst =>
                exact .cons relatedFirst (inductionHypothesis fun index => relatedAll (index + 1))

/-- Related lists have related items at the same positions. -/
theorem exists_getElem?_of_forall₂
    {First Second : Type} {Related : First → Second → Prop} {firsts : List First}
    {seconds : List Second} (related : List.Forall₂ Related firsts seconds) {position : Nat}
    {first : First} (present : firsts[position]? = some first) :
    ∃ second, seconds[position]? = some second ∧ Related first second := by
  have relatedThere := forall₂_iff_getElem?.mp related position
  generalize seconds[position]? = second? at relatedThere ⊢
  rw [present] at relatedThere
  cases relatedThere with
  | some relatedItems => exact ⟨_, rfl, relatedItems⟩

theorem forall₂_filterMap
    {Item Result : Type} {choose : Item → Option Result} {position : Item → Nat}
    {Related : Nat → Result → Prop} {items : List Item}
    (related : ∀ item ∈ items, ∀ result, choose item = some result →
      Related (position item) result) :
    List.Forall₂ Related ((items.filter fun item => (choose item).isSome).map position)
      (items.filterMap choose) := by
  induction items with
  | nil => exact .nil
  | cons item items inductionHypothesis =>
      have further := inductionHypothesis fun other present =>
        related other (List.mem_cons_of_mem item present)
      cases chosen : choose item with
      | none =>
          rw [List.filterMap_cons_none chosen, List.filter_cons_of_neg (by simp [chosen])]
          exact further
      | some result =>
          rw [List.filterMap_cons_some chosen, List.filter_cons_of_pos (by simp [chosen])]
          exact .cons (related item List.mem_cons_self result chosen) further

theorem not_mem_takeWhile_ne (mark : Char) (text : List Char) :
    mark ∉ text.takeWhile (· != mark) := by
  intro present
  simpa using List.mem_takeWhile_imp present

/-! ## Changing all items -/

section Failure

variable {Item Result Next Failure : Type} {answer : Except Failure Result}

theorem map_eq_ok_iff {change : Result → Next} {next : Next} :
    change <$> answer = .ok next ↔ ∃ result, answer = .ok result ∧ change result = next := by
  cases answer <;> simp [Functor.map, Except.map]

theorem map_eq_error_iff {change : Result → Next} {failure : Failure} :
    change <$> answer = .error failure ↔ answer = .error failure := by
  cases answer <;> simp [Functor.map, Except.map]

theorem bind_eq_ok_iff {following : Result → Except Failure Next} {next : Next} :
    answer >>= following = .ok next ↔
      ∃ result, answer = .ok result ∧ following result = .ok next := by
  cases answer <;> simp [bind, Except.bind]

theorem bind_eq_error_iff {following : Result → Except Failure Next} {failure : Failure} :
    answer >>= following = .error failure ↔
      answer = .error failure ∨
        ∃ result, answer = .ok result ∧ following result = .error failure := by
  cases answer <;> simp [bind, Except.bind]

variable {change : Item → Except Failure Result} {items : List Item}

theorem mapM_eq_ok_iff {results : List Result} :
    items.mapM change = .ok results ↔
      List.Forall₂ (fun item result => change item = .ok result) items results := by
  induction items generalizing results with
  | nil =>
      rw [List.mapM_nil, List.forall₂_nil_left_iff]
      exact ⟨fun done => (Except.ok.inj done).symm, fun empty => congrArg Except.ok empty.symm⟩
  | cons item items inductionHypothesis =>
      rw [List.mapM_cons, List.forall₂_cons_left_iff, bind_eq_ok_iff]
      simp only [bind_eq_ok_iff, inductionHypothesis]
      constructor
      · rintro ⟨result, changed, further, others, ⟨⟩⟩
        exact ⟨result, further, changed, others, rfl⟩
      · rintro ⟨result, further, changed, others, rfl⟩
        exact ⟨result, changed, further, others, rfl⟩

/-- The failure is that of the first item that fails. -/
theorem exists_first_of_mapM_eq_error
    {failure : Failure} (failed : items.mapM change = .error failure) :
    ∃ (index : Nat) (item : Item), items[index]? = some item ∧ change item = .error failure ∧
      ∀ (earlier : Nat) (other : Item), earlier < index → items[earlier]? = some other →
        ∃ result, change other = .ok result := by
  induction items with
  | nil => cases failed
  | cons first items inductionHypothesis =>
      rw [List.mapM_cons, bind_eq_error_iff] at failed
      rcases failed with fails | ⟨result, changed, othersFailed⟩
      · exact ⟨0, first, rfl, fails, fun earlier other before => absurd before (by omega)⟩
      · rw [bind_eq_error_iff] at othersFailed
        rcases othersFailed with othersFailed | ⟨further, -, impossible⟩
        · obtain ⟨index, item, present, fails, done⟩ := inductionHypothesis othersFailed
          refine ⟨index + 1, item, present, fails, ?_⟩
          intro earlier other before listed
          cases earlier with
          | zero =>
              cases listed
              exact ⟨result, changed⟩
          | succ earlier => exact done earlier other (by omega) listed
        · cases impossible

end Failure

theorem mapM_named
    {Item Result Failure : Type} (change : Item → Except Failure Result)
    (entries : List (String × Item)) :
    (entries.mapM fun (name, item) => (name, ·) <$> change item) =
      (fun results => (entries.map Prod.fst).zip results) <$>
        (entries.map Prod.snd).mapM change := by
  induction entries with
  | nil => rfl
  | cons entry entries inductionHypothesis =>
      simp only [List.mapM_cons, List.map_cons, inductionHypothesis]
      cases change entry.2 with
      | error failure => rfl
      | ok result => cases (entries.map Prod.snd).mapM change <;> rfl

/-! ## Optional items -/

/-- Two optional values that look the same are both missing or both there. -/
theorem cases_of_map_eq
    {Entry View : Type} {view : Entry → View} {first second : Option Entry}
    (same : first.map view = second.map view) :
    (first = none ∧ second = none) ∨
      ∃ entry other, first = some entry ∧ second = some other ∧ view entry = view other := by
  cases first with
  | none => exact .inl ⟨rfl, Option.map_eq_none_iff.mp same.symm⟩
  | some entry =>
      obtain ⟨other, present, sameView⟩ := Option.map_eq_some_iff.mp same.symm
      exact .inr ⟨entry, other, rfl, present, sameView.symm⟩

end ObjectGraph
